import DocLint.Text.Line

/-!
# Places in a text

A byte offset of a text cuts it in two if it falls between two characters.

* `before`: the characters of a text that start before a byte offset.
* `IsBoundary`: the offset falls between two characters, or at an end of the text.
* `lastLine`: what stands after the last line feed, read from the front.

Principal results: `before_utf8Length_append` (the offset of a cut gives its first part back) and
`lastLine_append` (only the part with the last line feed decides where the last line starts).
-/

namespace DocLint.Text

/-! ## The text before an offset -/

/-- The characters that start before byte `n`. -/
def before : Nat → Text → Text
  | 0, _ => []
  | _ + 1, [] => []
  | n + 1, c :: t => c :: before (n + 1 - c.utf8Size) t

/-- Byte `n` starts a character of the text or is its end. -/
def IsBoundary (t : Text) (n : Nat) : Prop := ∃ s r, t = s ++ r ∧ utf8Length s = n

theorem before_utf8Length_append (s r : Text) : before (utf8Length s) (s ++ r) = s := by
  induction s with
  | nil => cases r <;> rfl
  | cons c s ih =>
      have hc := c.utf8Size_pos
      obtain ⟨m, hm⟩ : ∃ m, utf8Length (c :: s) = m + 1 :=
        ⟨utf8Length (c :: s) - 1, by rw [utf8Length_cons]; omega⟩
      have hrest : m + 1 - c.utf8Size = utf8Length s := by rw [← hm, utf8Length_cons]; omega
      rw [hm, List.cons_append, before, hrest, ih]

theorem IsBoundary.le {t : Text} {n : Nat} (h : IsBoundary t n) : n ≤ utf8Length t := by
  obtain ⟨s, r, rfl, rfl⟩ := h
  rw [utf8Length_append]
  omega

/-! ## Lines -/

@[simp]
theorem breaks_nil : breaks [] = 0 := rfl

@[simp]
theorem breaks_append (s t : Text) : breaks (s ++ t) = breaks s + breaks t := by
  unfold breaks
  exact List.count_append

theorem breaks_cons (c : Char) (t : Text) :
    breaks (c :: t) = breaks t + if c = '\n' then 1 else 0 := by
  unfold breaks
  rw [List.count_cons]
  simp

theorem breaks_eq_zero {t : Text} : breaks t = 0 ↔ '\n' ∉ t := by
  unfold breaks
  exact List.count_eq_zero

/-- The text after the last line feed; the whole text if it has none. -/
def lastLine : Text → Text
  | [] => []
  | c :: t => if '\n' ∈ t then lastLine t else if c = '\n' then t else c :: t

theorem lastLine_of_not_mem {t : Text} (h : '\n' ∉ t) : lastLine t = t := by
  cases t with
  | nil => rfl
  | cons c t =>
      simp only [List.mem_cons, not_or] at h
      rw [lastLine, if_neg h.2, if_neg (Ne.symm h.1)]

theorem lastLine_append (s t : Text) :
    lastLine (s ++ t) = if '\n' ∈ t then lastLine t else lastLine s ++ t := by
  induction s with
  | nil =>
      split
      · rfl
      · rename_i h
        exact lastLine_of_not_mem h
  | cons c s ih =>
      rw [List.cons_append, lastLine, ih]
      by_cases ht : '\n' ∈ t
      · simp [ht]
      · simp only [List.mem_append, ht, or_false, if_false]
        rw [lastLine]
        split
        · rfl
        · split <;> rfl

end DocLint.Text
