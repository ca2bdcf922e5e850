import DocLint.Proofs.Place
import DocLint.Text.Search
import Mathlib.Data.List.Basic

/-!
# Line breaks of two characters

A text with a carriage return put before each of its line feeds.

* `crlf`: the text with the longer line breaks; `wide`: where an index of the text lies in it, so that
  `take_wide` and `drop_wide` cut both texts at the same place.
* `dropPrefix?_crlf`, `find?_crlf`, `takeWhile_crlf`: beginnings, searches and runs.
* `lines_crlf`, `lastLine_crlf`: the lines are the same. The text holds no carriage return of its own
  there, since a line loses the one at its end.
-/

namespace DocLint.Text

/-- The text with a carriage return before each line feed. -/
def crlf (t : Text) : Text := t.flatMap fun c => if c = '\n' then ['\r', '\n'] else [c]

/-- Neither line feeds nor carriage returns. -/
def Plain (t : Text) : Prop := '\r' ∉ t ∧ '\n' ∉ t

instance (t : Text) : Decidable (Plain t) := inferInstanceAs (Decidable (_ ∧ _))

variable {s t p : Text} {c : Char} {n m : Nat}

@[simp]
theorem crlf_nil : crlf [] = [] := rfl

@[simp]
theorem crlf_lf (t : Text) : crlf ('\n' :: t) = '\r' :: '\n' :: crlf t := rfl

theorem crlf_cons (h : c ≠ '\n') (t : Text) : crlf (c :: t) = c :: crlf t := by
  unfold crlf
  rw [List.flatMap_cons, if_neg h]
  rfl

@[simp]
theorem crlf_append (s t : Text) : crlf (s ++ t) = crlf s ++ crlf t := List.flatMap_append

theorem crlf_eq_self (h : '\n' ∉ t) : crlf t = t := by
  induction t with
  | nil => rfl
  | cons c t ih =>
      obtain ⟨hc, ht⟩ := not_or.1 (mt List.mem_cons.2 h)
      rw [crlf_cons (Ne.symm hc), ih ht]

theorem Plain.of_cons (h : Plain (c :: t)) : (c ≠ '\r' ∧ c ≠ '\n') ∧ Plain t := by
  simp only [Plain, List.mem_cons, not_or] at h
  exact ⟨⟨Ne.symm h.1.1, Ne.symm h.2.1⟩, h.1.2, h.2.2⟩

theorem mem_crlf (d : Char) (hd : d ≠ '\r') : d ∈ crlf t ↔ d ∈ t := by
  unfold crlf
  rw [List.mem_flatMap]
  constructor
  · rintro ⟨c, hc, hmem⟩
    split at hmem
    · rename_i hlf
      rcases List.mem_cons.1 hmem with rfl | hmem
      · exact absurd rfl hd
      · rw [List.mem_singleton.1 hmem, ← hlf]
        exact hc
    · rwa [List.mem_singleton.1 hmem]
  · intro hmem
    refine ⟨d, hmem, ?_⟩
    split
    · rename_i hlf
      rw [hlf]
      exact List.mem_cons_of_mem _ List.mem_cons_self
    · exact List.mem_singleton_self d

@[simp]
theorem breaks_crlf (t : Text) : breaks (crlf t) = breaks t := by
  induction t with
  | nil => rfl
  | cons c t ih =>
      by_cases hc : c = '\n'
      · subst hc
        rw [crlf_lf, breaks_cons, breaks_cons, breaks_cons, ih]
        simp
      · rw [crlf_cons hc, breaks_cons, breaks_cons, ih]

/-! ## Places -/

/-- The place of index `n` once the line breaks are longer. -/
def wide (n : Nat) (t : Text) : Nat := (crlf (t.take n)).length

theorem take_wide (n : Nat) (t : Text) : (crlf t).take (wide n t) = crlf (t.take n) := by
  rw [← List.take_append_drop n t, crlf_append, List.take_append_drop]
  exact List.take_left' rfl

theorem drop_wide (n : Nat) (t : Text) : (crlf t).drop (wide n t) = crlf (t.drop n) := by
  rw [← List.take_append_drop n t, crlf_append, List.take_append_drop]
  exact List.drop_left' rfl

@[simp]
theorem wide_zero (t : Text) : wide 0 t = 0 := rfl

@[simp]
theorem wide_lf (n : Nat) (t : Text) : wide (n + 1) ('\n' :: t) = wide n t + 2 := rfl

theorem wide_cons (h : c ≠ '\n') (n : Nat) (t : Text) : wide (n + 1) (c :: t) = wide n t + 1 := by
  unfold wide
  rw [List.take_succ_cons, crlf_cons h, List.length_cons]

theorem wide_length (t : Text) : wide t.length t = (crlf t).length := by
  rw [wide, List.take_length]

theorem wide_add (n m : Nat) (t : Text) : wide (n + m) t = wide n t + wide m (t.drop n) := by
  unfold wide
  rw [List.take_add, crlf_append, List.length_append]

theorem wide_append_right (s t : Text) (n : Nat) :
    wide (s.length + n) (s ++ t) = (crlf s).length + wide n t := by
  rw [wide_add, List.drop_left, wide, List.take_left]

theorem wide_append_left (h : n ≤ s.length) (t : Text) : wide n (s ++ t) = wide n s := by
  unfold wide
  rw [List.take_append_of_le_length h]

/-- Where the text goes on without line feeds, places stay. -/
theorem wide_eq_self (h : '\n' ∉ t.take n) (hn : n ≤ t.length) : wide n t = n := by
  rw [wide, crlf_eq_self h, List.length_take, Nat.min_eq_left hn]

/-- Behind a beginning without line feeds, places stay. -/
theorem wide_of_begins (h : p <+: t) (hp : '\n' ∉ p) : wide p.length t = p.length := by
  obtain ⟨r, rfl⟩ := h
  refine wide_eq_self ?_ (by simp)
  rwa [List.take_left]

/-! ## Beginnings and ends -/

theorem dropPrefix?_crlf (hp : Plain p) (t : Text) :
    dropPrefix? p (crlf t) = (dropPrefix? p t).map crlf := by
  induction p generalizing t with
  | nil => rfl
  | cons a p ih =>
      obtain ⟨ha, hp⟩ := hp.of_cons
      cases t with
      | nil => rfl
      | cons c t =>
          by_cases hc : c = '\n'
          · subst hc
            rw [crlf_lf, dropPrefix?, dropPrefix?, if_neg ha.1, if_neg ha.2]
            rfl
          · rw [crlf_cons hc, dropPrefix?, dropPrefix?, ih hp]
            split <;> rfl

theorem startsWith_crlf (hp : Plain p) (t : Text) : startsWith p (crlf t) = startsWith p t := by
  unfold startsWith
  rw [dropPrefix?_crlf hp, Option.isSome_map]

theorem dropSuffix?_concat (q c : Char) (t : Text) :
    dropSuffix? [q] (t ++ [c]) = if q = c then some t else none := by
  unfold dropSuffix?
  rw [List.reverse_singleton, List.reverse_append, List.reverse_singleton, List.singleton_append,
    dropPrefix?]
  split
  · simp [dropPrefix?]
  · rfl

theorem dropSuffix?_crlf {q : Char} (hq : q ≠ '\n') (t : Text) :
    dropSuffix? [q] (crlf t) = (dropSuffix? [q] t).map crlf := by
  rcases List.eq_nil_or_concat t with rfl | ⟨t, c, rfl⟩
  · rfl
  · rw [List.concat_eq_append, crlf_append, dropSuffix?_concat]
    by_cases hc : c = '\n'
    · subst hc
      have hend : crlf t ++ crlf ['\n'] = (crlf t ++ ['\r']) ++ ['\n'] := by simp
      rw [hend, dropSuffix?_concat, if_neg hq, if_neg hq]
      rfl
    · rw [crlf_cons hc, crlf_nil, dropSuffix?_concat]
      split <;> rfl

theorem any_head?_crlf {P : Char → Bool} (hP : P '\n' = P '\r') (t : Text) :
    (crlf t).head?.any P = t.head?.any P := by
  cases t with
  | nil => rfl
  | cons c t =>
      by_cases hc : c = '\n'
      · subst hc
        rw [crlf_lf, List.head?_cons, List.head?_cons, Option.any_some, Option.any_some, hP]
      · rw [crlf_cons hc, List.head?_cons, List.head?_cons]

theorem head?_crlf_iff {d : Char} (hr : d ≠ '\r') (hn : d ≠ '\n') (t : Text) :
    (crlf t).head? = some d ↔ t.head? = some d := by
  have hany := any_head?_crlf (P := fun c => c == d) (by simp [Ne.symm hr, Ne.symm hn]) t
  rw [Bool.eq_iff_iff, Option.any_eq_true, Option.any_eq_true] at hany
  simpa using hany

/-! ## Searches and runs -/

theorem find?_crlf (hp : Plain p) (hne : p ≠ []) (t : Text) :
    find? p (crlf t) = (find? p t).map (wide · t) := by
  have hno : ∀ {c : Char} {u : Text}, c = '\r' ∨ c = '\n' → startsWith p (c :: u) = false := by
    intro c u hc
    cases p with
    | nil => exact absurd rfl hne
    | cons a p =>
        have ha : a ≠ c := by
          rcases hc with rfl | rfl
          · exact hp.of_cons.1.1
          · exact hp.of_cons.1.2
        simp [startsWith, dropPrefix?, ha]
  induction t with
  | nil =>
      rw [crlf_nil, find?, if_neg (by simpa using hne)]
      rfl
  | cons c t ih =>
      by_cases hc : c = '\n'
      · subst hc
        rw [crlf_lf, find?, hno (Or.inl rfl), find?, hno (Or.inr rfl), find?, hno (Or.inr rfl), ih]
        cases find? p t <;> rfl
      · have hstart := startsWith_crlf hp (c :: t)
        rw [crlf_cons hc] at hstart ⊢
        rw [find?, find?, hstart, ih]
        split
        · rfl
        · cases find? p t with
          | none => rfl
          | some n => simp [wide_cons hc]

theorem prefix_drop_of_find? (h : find? p t = some n) : p <+: t.drop n := by
  obtain ⟨r, hr⟩ := find?_eq_some h
  have hcut : t.take n ++ t.drop n = t.take n ++ (p ++ r) := by
    rw [List.take_append_drop, ← List.append_assoc]
    exact hr
  exact ⟨r, (List.append_cancel_left hcut).symm⟩

theorem contains_crlf (hp : Plain p) (hne : p ≠ []) (t : Text) :
    contains p (crlf t) = contains p t := by
  unfold contains
  rw [find?_crlf hp hne, Option.isSome_map]

theorem takeWhile_crlf {P : Char → Bool} (hP : P '\n' = P '\r') (t : Text) :
    (crlf t).takeWhile P = crlf (t.takeWhile P) := by
  induction t with
  | nil => rfl
  | cons c t ih =>
      by_cases hc : c = '\n'
      · subst hc
        rw [crlf_lf, List.takeWhile_cons, List.takeWhile_cons, List.takeWhile_cons, ← hP, ih]
        split <;> rfl
      · rw [crlf_cons hc, List.takeWhile_cons, List.takeWhile_cons, ih]
        split
        · rw [crlf_cons hc]
        · rfl

theorem length_takeWhile_crlf {P : Char → Bool} (hP : P '\n' = P '\r') (t : Text) :
    ((crlf t).takeWhile P).length = wide (t.takeWhile P).length t := by
  rw [takeWhile_crlf hP, wide, ← List.prefix_iff_eq_take.1 (List.takeWhile_prefix P)]

/-- Lower case makes nothing but letters: the ones of the small alphabet stand from 97 on. -/
theorem eq_of_toLower_eq {c d : Char} (h : c.toLower = d) (hd : d.val.toNat < 97) : c = d := by
  unfold Char.toLower at h
  split at h
  · rename_i hupper
    have hlow : 65 ≤ c.val.toNat := hupper.1
    have hhigh : c.val.toNat ≤ 90 := hupper.2
    have hval : (c.val + 32).toNat = d.val.toNat := congrArg (fun d : Char => d.val.toNat) h
    rw [UInt32.toNat_add, show (32 : UInt32).toNat = 32 from rfl] at hval
    omega
  · exact h

theorem toLower_eq_lf (c : Char) : c.toLower = '\n' ↔ c = '\n' := by
  constructor
  · intro h
    exact eq_of_toLower_eq h (by decide)
  · rintro rfl
    rfl

theorem lower_crlf (t : Text) : lower (crlf t) = crlf (lower t) := by
  induction t with
  | nil => rfl
  | cons c t ih =>
      unfold lower at ih ⊢
      by_cases hc : c = '\n'
      · subst hc
        rw [crlf_lf, List.map_cons, List.map_cons, List.map_cons, ih]
        rfl
      · rw [crlf_cons hc, List.map_cons, List.map_cons, crlf_cons (mt (toLower_eq_lf c).1 hc), ih]

/-! ## Lines -/

theorem pieces_crlf (t : Text) : pieces (crlf t) = (pieces t).map crlf := by
  induction t with
  | nil => rfl
  | cons c t ih =>
      by_cases hc : c = '\n'
      · subst hc
        rw [crlf_lf, pieces, if_neg (by decide), pieces, if_pos rfl, pieces, if_pos rfl, ih]
        rfl
      · rw [crlf_cons hc, pieces, if_neg hc, pieces, if_neg hc, ih]
        cases pieces t with
        | nil => simp [crlf_cons hc]
        | cons q qs => simp [crlf_cons hc]

/-- A piece is a line, with its line feed or without. -/
theorem exists_of_mem_pieces (h : p ∈ pieces t) : ∃ u, '\n' ∉ u ∧ (p = u ∨ p = u ++ ['\n']) := by
  induction t generalizing p with
  | nil => cases h
  | cons c t ih =>
      rw [pieces] at h
      split at h
      · rename_i hc
        rcases List.mem_cons.1 h with rfl | h
        · exact ⟨[], List.not_mem_nil, Or.inr (by rw [hc]; rfl)⟩
        · exact ih h
      · rename_i hc
        have hcons : ∀ {u : Text}, '\n' ∉ u → '\n' ∉ c :: u := fun hu hmem =>
          (List.mem_cons.1 hmem).elim (fun heq => hc heq.symm) hu
        split at h
        · rw [List.mem_singleton.1 h]
          exact ⟨[c], hcons List.not_mem_nil, Or.inl rfl⟩
        · rename_i q qs hqs
          rcases List.mem_cons.1 h with rfl | h
          · obtain ⟨u, hu, hq⟩ := ih (by rw [hqs]; exact List.mem_cons_self)
            refine ⟨c :: u, hcons hu, ?_⟩
            rcases hq with rfl | rfl
            · exact Or.inl rfl
            · exact Or.inr rfl
          · exact ih (by rw [hqs]; exact List.mem_cons_of_mem _ h)

theorem dropSuffix?_of_not_mem {q : Char} (h : q ∉ t) : dropSuffix? [q] t = none := by
  rcases List.eq_nil_or_concat t with rfl | ⟨t, c, rfl⟩
  · rfl
  · rw [List.concat_eq_append] at h ⊢
    rw [dropSuffix?_concat, if_neg]
    rintro rfl
    exact h (List.mem_append_right _ List.mem_cons_self)

/-- The lines are the same. -/
theorem lines_crlf (h : '\r' ∉ t) : lines (crlf t) = lines t := by
  unfold lines
  rw [pieces_crlf, List.map_map]
  refine List.map_congr_left fun q hq => ?_
  have hmem : '\r' ∉ q := fun hr => h <| by
    rw [← flatten_pieces t]
    exact List.mem_flatten_of_mem hq hr
  obtain ⟨u, hu, rfl | rfl⟩ := exists_of_mem_pieces hq
  · rw [Function.comp, crlf_eq_self hu]
  · have hur : '\r' ∉ u := fun hr => hmem (List.mem_append_left _ hr)
    have hend : crlf (u ++ ['\n']) = (u ++ ['\r']) ++ ['\n'] := by
      rw [crlf_append, crlf_eq_self hu]
      simp
    simp only [Function.comp, hend, chomp, dropSuffix?_concat, if_true,
      dropSuffix?_of_not_mem hur]
    rfl

theorem lastLine_crlf (t : Text) : lastLine (crlf t) = lastLine t := by
  induction t with
  | nil => rfl
  | cons c t ih =>
      have hmem : '\n' ∈ crlf t ↔ '\n' ∈ t := mem_crlf '\n' (by decide)
      by_cases hc : c = '\n'
      · subst hc
        rw [crlf_lf, lastLine, if_pos List.mem_cons_self, lastLine, lastLine]
        by_cases ht : '\n' ∈ t
        · rw [if_pos (hmem.2 ht), if_pos ht, ih]
        · rw [if_neg (mt hmem.1 ht), if_neg ht, crlf_eq_self ht]
      · rw [crlf_cons hc, lastLine, lastLine]
        by_cases ht : '\n' ∈ t
        · rw [if_pos (hmem.2 ht), if_pos ht, ih]
        · rw [if_neg (mt hmem.1 ht), if_neg ht, crlf_eq_self ht]

end DocLint.Text
