import DocLint.Proofs.Thinning
import DocLint.Token.Lexer

/-!
# Groups nest

The end of a group is found by counting brackets of one kind from the bracket that opens it. This
needs no balanced file: a group that is never closed reaches to the last token, and so do the groups
of its kind around it.

* `depthBy`: what one token does to the count; `closeFrom_cons`: one token of the scan.
* `closeFrom_of_le`: of two scans from one index the one with the smaller count ends first.
* `exists_closeFrom_drop`: a scan that has not ended before an index goes on from there.
* `countP_lt_of_closeFrom`, `countP_eq_of_closeFrom`: what the scan has counted before its end and
  at its end.
* `groups_nest`: groups of one kind are apart or one inside the other, and a group ends where as
  many brackets have closed as opened.
-/

namespace DocLint.Outline

/-- The kinds of brackets, each with the one that closes its groups. -/
def bracketPairs : List (Kind × Kind) :=
  [(.openBrace, .closeBrace), (.openParen, .closeParen), (.openBracket, .closeBracket)]

/-- How many tokens of a kind stand from index `first` to index `last`, both included. -/
def tally (ts : List Token) (k : Kind) (first last : Nat) : Nat :=
  (slice ts first last).countP (·.1.kind == k)

/-- From index `a` to the later index `j` as many brackets close as open. -/
structure Evens (ts : List Token) (pair : Kind × Kind) (a j : Nat) : Prop where
  behind : a < j
  within : j < ts.length
  even : tally ts pair.1 a j = tally ts pair.2 a j

/-- The count of open groups after a token of the kind `k`. -/
def depthBy (pair : Kind × Kind) (depth : Nat) (k : Kind) : Nat :=
  if k = pair.1 then depth + 1 else if k = pair.2 then depth - 1 else depth

variable {ts us : List Token} {pair : Kind × Kind} {t : Token} {depth j m n : Nat}

/-! ## One token -/

/-- One token of the scan: it ends where the count comes down to nothing. -/
theorem closeFrom_cons (hd : 0 < depth) :
    closeFrom pair depth j (t :: us) =
      if depthBy pair depth t.kind = 0 then some j
      else closeFrom pair (depthBy pair depth t.kind) (j + 1) us := by
  rw [closeFrom, depthBy]
  by_cases hopen : t.kind = pair.1
  · rw [if_pos hopen, if_pos hopen, if_neg (by omega)]
  by_cases hclose : t.kind = pair.2
  · rw [if_neg hopen, if_neg hopen, if_pos hclose, if_pos hclose]
    by_cases hone : depth ≤ 1
    · rw [if_pos hone, if_pos (by omega)]
    · rw [if_neg hone, if_neg (by omega)]
  · rw [if_neg hopen, if_neg hopen, if_neg hclose, if_neg hclose, if_neg (by omega)]

theorem depthBy_mono (pair : Kind × Kind) {d e : Nat} (hde : d ≤ e) (k : Kind) :
    depthBy pair d k ≤ depthBy pair e k := by
  unfold depthBy
  split
  · omega
  · split <;> omega

/-- The count goes up by the brackets that open and down by those that close. -/
theorem depthBy_add_countP (hpair : pair.1 ≠ pair.2) (hd : 0 < depth) (t : Token) :
    depthBy pair depth t.kind + [t].countP (·.kind == pair.2) =
      depth + [t].countP (·.kind == pair.1) := by
  rw [List.countP_singleton, List.countP_singleton, depthBy]
  by_cases hopen : t.kind = pair.1
  · simp [hopen, hpair]
  by_cases hclose : t.kind = pair.2
  · simp [hclose, hpair.symm]
    omega
  · simp [hopen, hclose]

/-! ## Two scans -/

/-- A scan with a smaller count ends no later. -/
theorem closeFrom_of_le {d e : Nat} (hd : 0 < d) (hde : d ≤ e)
    (h : closeFrom pair e j us = some m) : ∃ m' ≤ m, closeFrom pair d j us = some m' := by
  induction us generalizing d e j with
  | nil => cases h
  | cons t us ih =>
      have hle := depthBy_mono pair hde t.kind
      have hjm := le_closeFrom h
      rw [closeFrom_cons (by omega)] at h
      rw [closeFrom_cons hd]
      by_cases hzero : depthBy pair d t.kind = 0
      · exact ⟨j, hjm, by rw [if_pos hzero]⟩
      · rw [if_neg (by omega)] at h
        rw [if_neg hzero]
        exact ih (by omega) hle h

/-- A scan that has not ended after `n` tokens goes on with the groups that are open there. -/
theorem exists_closeFrom_drop (hd : 0 < depth) (h : closeFrom pair depth j us = some m)
    (hle : j + n ≤ m) : ∃ e, 0 < e ∧ closeFrom pair e (j + n) (us.drop n) = some m := by
  induction n generalizing depth j us with
  | zero => exact ⟨depth, hd, h⟩
  | succ n ih =>
      cases us with
      | nil => cases h
      | cons t us =>
          rw [closeFrom_cons hd] at h
          split at h
          · cases h
            omega
          · rename_i hopen
            rw [List.drop_succ_cons, show j + (n + 1) = j + 1 + n by omega]
            exact ih (by omega) h (by omega)

/-! ## Counts -/

/-- Before the end of the scan fewer brackets have closed than opened. -/
theorem countP_lt_of_closeFrom (hpair : pair.1 ≠ pair.2) (hd : 0 < depth)
    (h : ∀ m, closeFrom pair depth j us = some m → j + n ≤ m) :
    (us.take n).countP (·.kind == pair.2) < depth + (us.take n).countP (·.kind == pair.1) := by
  induction us generalizing depth j n with
  | nil => simpa using hd
  | cons t us ih =>
      cases n with
      | zero => simpa using hd
      | succ n =>
          have hstep := depthBy_add_countP hpair hd t
          rw [closeFrom_cons hd] at h
          by_cases hzero : depthBy pair depth t.kind = 0
          · have := h j (if_pos hzero)
            omega
          · rw [if_neg hzero] at h
            have hlater : ∀ m, closeFrom pair (depthBy pair depth t.kind) (j + 1) us = some m →
                j + 1 + n ≤ m := by
              intro m hm
              have := h m hm
              omega
            have hrest := ih (by omega) hlater
            rw [List.take_succ_cons, ← List.singleton_append, List.countP_append,
              List.countP_append]
            omega

/-- At the end of the scan as many brackets have closed as opened. -/
theorem countP_eq_of_closeFrom (hpair : pair.1 ≠ pair.2) (hd : 0 < depth)
    (h : closeFrom pair depth j us = some m) :
    (us.take (m + 1 - j)).countP (·.kind == pair.2) =
      depth + (us.take (m + 1 - j)).countP (·.kind == pair.1) := by
  induction us generalizing depth j with
  | nil => cases h
  | cons t us ih =>
      have hstep := depthBy_add_countP hpair hd t
      have hjm := le_closeFrom h
      rw [closeFrom_cons hd] at h
      rw [show m + 1 - j = m - j + 1 by omega, List.take_succ_cons, ← List.singleton_append,
        List.countP_append, List.countP_append]
      split at h
      · cases h
        rw [Nat.sub_self, List.take_zero, List.countP_nil, List.countP_nil]
        omega
      · have hrest := ih (by omega) h
        rw [show m + 1 - (j + 1) = m - j by omega] at hrest
        omega

/-! ## Groups -/

theorem pairOf_of_mem (hpair : pair ∈ bracketPairs) : pairOf pair.1 = pair ∧ pair.1 ≠ pair.2 := by
  revert pair
  decide

theorem tally_of_opens {a : Nat} (ha : ts[a]?.map (·.kind) = some pair.1) (hlt : a < j) (k : Kind) :
    tally ts k a j = (if pair.1 = k then 1 else 0) +
      ((ts.drop (a + 1)).take (j - a)).countP (·.kind == k) := by
  obtain ⟨t, ht, hkind⟩ := Option.map_eq_some_iff.1 ha
  obtain ⟨hlen, heq⟩ := List.getElem?_eq_some_iff.1 ht
  have hfst : tally ts k a j = ((slice ts a j).map (·.1)).countP (·.kind == k) := by
    rw [List.countP_map]
    rfl
  rw [hfst, map_fst_slice, List.drop_eq_getElem_cons hlen, heq,
    show j + 1 - a = j - a + 1 by omega, List.take_succ_cons, List.countP_cons, hkind]
  simp only [beq_iff_eq]
  omega

section Group

variable (hpair : pair ∈ bracketPairs) {a : Nat} (ha : ts[a]?.map (·.kind) = some pair.1)

include hpair ha

theorem matchingClose_of_opens :
    matchingClose ts a =
      (closeFrom pair 1 (a + 1) (ts.drop (a + 1))).getD (lastIndex ts) := by
  obtain ⟨t, ht, hkind⟩ := Option.map_eq_some_iff.1 ha
  obtain ⟨hlt, heq⟩ := List.getElem?_eq_some_iff.1 ht
  rw [matchingClose_eq ht, hkind, (pairOf_of_mem hpair).1, List.drop_eq_getElem_cons hlt, heq,
    closeFrom, if_pos hkind]

/-- Behind the bracket that opens a group one more bracket has to close than open. -/
theorem evens_iff :
    Evens ts pair a j ↔ a < j ∧ j < ts.length ∧
      ((ts.drop (a + 1)).take (j - a)).countP (·.kind == pair.2) =
        1 + ((ts.drop (a + 1)).take (j - a)).countP (·.kind == pair.1) := by
  have hne := (pairOf_of_mem hpair).2
  constructor
  · rintro ⟨hbehind, hwithin, heven⟩
    rw [tally_of_opens ha hbehind, tally_of_opens ha hbehind, if_pos rfl, if_neg hne] at heven
    exact ⟨hbehind, hwithin, by omega⟩
  · rintro ⟨hbehind, hwithin, hcount⟩
    refine ⟨hbehind, hwithin, ?_⟩
    rw [tally_of_opens ha hbehind, tally_of_opens ha hbehind, if_pos rfl, if_neg hne]
    omega

/-- Where the scan ends the brackets of the group are even. -/
theorem evens_of_closeFrom (h : closeFrom pair 1 (a + 1) (ts.drop (a + 1)) = some m) :
    Evens ts pair a m := by
  have hbehind := le_closeFrom h
  have hwithin := closeFrom_lt h
  have hcount := countP_eq_of_closeFrom (pairOf_of_mem hpair).2 Nat.one_pos h
  rw [show m + 1 - (a + 1) = m - a by omega] at hcount
  rw [List.length_drop] at hwithin
  exact (evens_iff hpair ha).2 ⟨hbehind, by omega, hcount⟩

/-- The scan ends no later than the brackets of the group are even. -/
theorem exists_closeFrom_of_evens (h : Evens ts pair a j) :
    ∃ m ≤ j, closeFrom pair 1 (a + 1) (ts.drop (a + 1)) = some m := by
  obtain ⟨hbehind, _, hcount⟩ := (evens_iff hpair ha).1 h
  refine Classical.byContradiction fun hno => ?_
  have hlater : ∀ m, closeFrom pair 1 (a + 1) (ts.drop (a + 1)) = some m →
      a + 1 + (j - a) ≤ m := by
    intro m hm
    have hmj : ¬ m ≤ j := fun hle => hno ⟨m, hle, hm⟩
    omega
  have hlt := countP_lt_of_closeFrom (pairOf_of_mem hpair).2 Nat.one_pos hlater
  omega

/-- A group that opens inside another one of its kind ends no later. -/
theorem matchingClose_le_of_opens {b : Nat} (hb : ts[b]?.map (·.kind) = some pair.1) (hlt : a < b)
    (hle : b ≤ matchingClose ts a) : matchingClose ts b ≤ matchingClose ts a := by
  obtain ⟨u, hu, hkind⟩ := Option.map_eq_some_iff.1 hb
  obtain ⟨hblt, heq⟩ := List.getElem?_eq_some_iff.1 hu
  rw [matchingClose_of_opens hpair ha] at hle ⊢
  cases hm : closeFrom pair 1 (a + 1) (ts.drop (a + 1)) with
  | none =>
      have hlast : matchingClose ts b < ts.length := matchingClose_lt (by omega) b
      rw [Option.getD_none, lastIndex]
      omega
  | some m =>
      rw [hm, Option.getD_some] at hle
      -- at `b` the outer scan counts one group more than the scan that starts there
      obtain ⟨e, _, hscan⟩ := exists_closeFrom_drop (n := b - (a + 1)) Nat.one_pos hm (by omega)
      rw [List.drop_drop, show a + 1 + (b - (a + 1)) = b by omega, List.drop_eq_getElem_cons hblt,
        heq, closeFrom, if_pos hkind] at hscan
      obtain ⟨m', hm', hinner⟩ := closeFrom_of_le Nat.one_pos (by omega) hscan
      rw [matchingClose_of_opens hpair hb, hinner]
      exact hm'

end Group

/-- **Groups nest**, in every list of tokens. Of two groups of one kind the first ends before the
second opens, or the second ends no later than the first. A group ends at the first index at which
as many brackets of its kind have closed as opened, and at the last token if there is none. -/
theorem groups_nest (ts : List Token) {pair : Kind × Kind} (hpair : pair ∈ bracketPairs) {a : Nat}
    (ha : ts[a]?.map (·.kind) = some pair.1) :
    (∀ b, a < b → ts[b]?.map (·.kind) = some pair.1 →
      matchingClose ts a < b ∨ matchingClose ts b ≤ matchingClose ts a) ∧
    ((Evens ts pair a (matchingClose ts a) ∧ ∀ j, Evens ts pair a j → matchingClose ts a ≤ j) ∨
      (∀ j, ¬ Evens ts pair a j) ∧ matchingClose ts a = lastIndex ts) := by
  constructor
  · intro b hlt hb
    rcases Nat.lt_or_ge (matchingClose ts a) b with hbefore | hafter
    · exact Or.inl hbefore
    · exact Or.inr (matchingClose_le_of_opens hpair ha hb hlt hafter)
  · rw [matchingClose_of_opens hpair ha]
    cases hm : closeFrom pair 1 (a + 1) (ts.drop (a + 1)) with
    | some m =>
        refine Or.inl ⟨evens_of_closeFrom hpair ha hm, fun j hj => ?_⟩
        obtain ⟨m', hle, hm'⟩ := exists_closeFrom_of_evens hpair ha hj
        rw [hm, Option.some.injEq] at hm'
        rw [Option.getD_some, hm']
        exact hle
    | none =>
        refine Or.inr ⟨fun j hj => ?_, rfl⟩
        obtain ⟨m', _, hm'⟩ := exists_closeFrom_of_evens hpair ha hj
        rw [hm] at hm'
        cases hm'

/-- A brace that is never closed around one that is. -/
theorem groups_nest_unclosed :
    let ts := Token.tokenize "<?php\n\x7b(\x7b\x7d("
    let braces := (Kind.openBrace, Kind.closeBrace)
    braces ∈ bracketPairs ∧ ts[1]?.map (·.kind) = some .openBrace ∧
      ts[3]?.map (·.kind) = some .openBrace ∧ matchingClose ts 1 = 5 ∧ matchingClose ts 3 = 4 ∧
      (matchingClose ts 1 < 3 ∨ matchingClose ts 3 ≤ matchingClose ts 1) ∧
      ((Evens ts braces 3 (matchingClose ts 3) ∧
          ∀ j, Evens ts braces 3 j → matchingClose ts 3 ≤ j) ∨
        (∀ j, ¬ Evens ts braces 3 j) ∧ matchingClose ts 3 = lastIndex ts) := by
  intro ts braces
  obtain ⟨hpair, houter, hinner, hcloses⟩ : braces ∈ bracketPairs ∧
      ts[1]?.map (·.kind) = some .openBrace ∧ ts[3]?.map (·.kind) = some .openBrace ∧
      matchingClose ts 1 = 5 ∧ matchingClose ts 3 = 4 := by decide +kernel
  exact ⟨hpair, houter, hinner, hcloses.1, hcloses.2,
    (groups_nest ts hpair houter).1 3 (by decide) hinner, (groups_nest ts hpair hinner).2⟩

end DocLint.Outline
