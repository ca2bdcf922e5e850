import DocLint.Text.Basic

/-!
# Tables

A table gives a value to each of finitely many keys. Setting a key replaces the value it had.

Main statement: `get?_set`.
-/

namespace DocLint

/-- Keys with their values; the first entry of a key counts. -/
abbrev Table (α : Type) := List (Text × α)

namespace Table

variable {α : Type}

/-- The value of a key. -/
def get? (t : Table α) (key : Text) : Option α := (t.find? (·.1 == key)).map (·.2)

/-- The table with the key set to the value. -/
def set (t : Table α) (key : Text) (value : α) : Table α :=
  (key, value) :: t.filter (·.1 != key)

/-- The table with each of the entries set in turn. -/
def setAll (t : Table α) (entries : List (Text × α)) : Table α :=
  entries.foldl (fun t e => t.set e.1 e.2) t

theorem get?_set (t : Table α) (k key : Text) (value : α) :
    (t.set k value).get? key = if key = k then some value else t.get? key := by
  by_cases h : key = k
  · simp [get?, set, h]
  · have hk : (k == key) = false := by simpa using Ne.symm h
    simp only [get?, set, List.find?_cons, hk, if_neg h]
    congr 1
    induction t with
    | nil => rfl
    | cons e t ih =>
      by_cases he : e.1 = k
      · have : (e.1 == key) = false := by simp [he, Ne.symm h]
        simp [he, Ne.symm h, ih]
      · by_cases hke : e.1 = key
        · simp [hke, h]
        · have h1 : (e.1 == key) = false := by simp [hke]
          simp [he, hke, ih]

end Table

end DocLint
