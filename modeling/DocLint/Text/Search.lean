import DocLint.Text.Basic

/-!
# Searching and replacing

* `Text.find?`: how many characters stand before the first occurrence of a text.
* `Text.contains`: whether a text occurs at all.
* `Text.replaceAll`: every occurrence replaced, from left to right, the inserted text not searched
  again.
-/

namespace DocLint.Text

/-- The number of characters before the first occurrence of `p`. -/
def find? (p : Text) : Text → Option Nat
  | [] => if p.isEmpty then some 0 else none
  | c :: t => if startsWith p (c :: t) then some 0 else (find? p t).map (· + 1)

/-- `p` occurs in `t`. -/
def contains (p t : Text) : Bool := (find? p t).isSome

/-- The first occurrence of `p` starts where `find?` says, and `p` stands there. -/
theorem find?_eq_some {p t : Text} {n : Nat} (h : find? p t = some n) :
    ∃ r, t = t.take n ++ p ++ r := by
  induction t generalizing n with
  | nil =>
    simp only [find?] at h
    split at h
    · next hp => exact ⟨[], by simp [List.isEmpty_iff.1 hp]⟩
    · cases h
  | cons c t ih =>
    simp only [find?] at h
    split at h
    · next hp =>
      cases h
      obtain ⟨r, hr⟩ := startsWith_iff.1 hp
      exact ⟨r, by simp [hr]⟩
    · obtain ⟨m, hm, rfl⟩ := Option.map_eq_some_iff.1 h
      obtain ⟨r, hr⟩ := ih hm
      exact ⟨r, by simpa using hr⟩

/-- Replaces `p` by `r`; `skip` characters still belong to the occurrence last replaced. -/
def replaceFrom (p r : Text) : Nat → Text → Text
  | _, [] => []
  | skip + 1, _ :: t => replaceFrom p r skip t
  | 0, c :: t =>
    if startsWith p (c :: t) then r ++ replaceFrom p r (p.length - 1) t
    else c :: replaceFrom p r 0 t

/-- Every occurrence of the non-empty text `p` replaced by `r`, from left to right. -/
def replaceAll (p r t : Text) : Text := replaceFrom p r 0 t

end DocLint.Text
