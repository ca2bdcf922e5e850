import DocLint.Proofs.Range
import Mathlib.Data.List.Basic

/-!
# Scans over the significant tokens alone

The scans of the recognisers give the same answers when all tokens without significance are left
out, up to the places of the tokens.

* `significant`: the tokens that are left; `rank`: the place among them of the token at an index.
* `drop_rank`, `take_rank`, `window_rank`: suffixes, prefixes and ranges of the significant tokens.
* `find?_rank`, `closeFrom_rank`, `statementEndFrom_rank`: the scans; `Ends` and `Stops` say how the
  answers correspond where a scan may run to the last token or stop before the token it sees.
* `Inner`: a significant token that is not the last one. Where a range ends is the same question for
  such a token in both lists (`Ends.lt_iff`, `Stops.lt_iff`).
* `Stops.constantNames_eq`, `Stops.propertyNames_eq`, `readParameters_significant`: names and
  parameters.
-/

namespace DocLint

/-- The kinds of tokens without significance. -/
def Kind.isSilent : Kind → Bool
  | blank | lineComment | blockComment | docComment | openTag | attributeGroup => true
  | _ => false

namespace Token

theorem isSignificant_eq (t : Token) : t.isSignificant = !t.kind.isSilent := by
  unfold isSignificant isTrivia
  cases t.kind <;> rfl

theorem isSignificant_of_kind {t : Token} {k : Kind} (h : t.kind = k) (hk : k.isSilent = false) :
    t.isSignificant = true := by
  rw [isSignificant_eq, h, hk]
  rfl

theorem kind_ne_of_not_isSignificant {t : Token} (h : t.isSignificant = false) {k : Kind}
    (hk : k.isSilent = false) : t.kind ≠ k := by
  intro heq
  rw [isSignificant_of_kind heq hk] at h
  cases h

theorem opens_eq_false_of_not_isSignificant {t : Token} (h : t.isSignificant = false) :
    t.kind.opens = false ∧ t.kind.closes = false := by
  rw [isSignificant_eq, Bool.not_eq_false'] at h
  revert h
  cases t.kind <;> decide

theorem isSignificant_of_closes {t : Token} (h : t.kind.closes = true) : t.isSignificant = true := by
  cases hs : t.isSignificant with
  | true => rfl
  | false =>
      rw [(opens_eq_false_of_not_isSignificant hs).2] at h
      cases h

end Token

namespace Outline

/-- The tokens that are neither blanks, open tags, comments nor attribute groups. -/
def significant (ts : List Token) : List Token := ts.filter (·.isSignificant)

/-- The number of significant tokens before an index. -/
def rank (ts : List Token) (i : Nat) : Nat := (significant (ts.take i)).length

variable {ts : List Token} {i j k : Nat} {t : Token}

theorem significant_append (us vs : List Token) :
    significant (us ++ vs) = significant us ++ significant vs := List.filter_append us vs

theorem significant_cons_of_pos (h : t.isSignificant = true) :
    significant (t :: ts) = t :: significant ts := List.filter_cons_of_pos h

theorem significant_cons_of_neg (h : t.isSignificant = false) :
    significant (t :: ts) = significant ts := List.filter_cons_of_neg (by simp [h])

theorem significant_eq_self (h : ∀ u ∈ ts, u.isSignificant = true) : significant ts = ts :=
  List.filter_eq_self.2 h

theorem isSignificant_of_mem (h : t ∈ significant ts) : t.isSignificant = true :=
  (List.mem_filter.1 h).2

/-! ## Ranks -/

theorem drop_rank (ts : List Token) (i : Nat) :
    (significant ts).drop (rank ts i) = significant (ts.drop i) := by
  have hsplit : significant ts = significant (ts.take i) ++ significant (ts.drop i) := by
    rw [← significant_append, List.take_append_drop]
  rw [hsplit]
  exact List.drop_left' rfl

theorem take_rank (ts : List Token) (i : Nat) :
    (significant ts).take (rank ts i) = significant (ts.take i) := by
  have hsplit : significant ts = significant (ts.take i) ++ significant (ts.drop i) := by
    rw [← significant_append, List.take_append_drop]
  rw [hsplit]
  exact List.take_left' rfl

theorem rank_succ_of_pos (h : ts[i]? = some t) (ht : t.isSignificant = true) :
    rank ts (i + 1) = rank ts i + 1 := by
  unfold rank
  rw [List.take_add_one, h, significant_append, Option.toList_some, significant_cons_of_pos ht,
    List.length_append]
  rfl

theorem rank_succ_of_neg (h : ts[i]? = some t) (ht : t.isSignificant = false) :
    rank ts (i + 1) = rank ts i := by
  unfold rank
  rw [List.take_add_one, h, significant_append, Option.toList_some, significant_cons_of_neg ht,
    List.length_append]
  rfl

theorem rank_mono (ts : List Token) (h : i ≤ j) : rank ts i ≤ rank ts j := by
  unfold rank significant
  exact ((List.take_prefix_take_left h).sublist.filter _).length_le

theorem rank_zero (ts : List Token) : rank ts 0 = 0 := rfl

theorem rank_length (ts : List Token) : rank ts ts.length = (significant ts).length := by
  rw [rank, List.take_length]

theorem rank_lt_iff (h : ts[k]? = some t) (ht : t.isSignificant = true) :
    rank ts k < rank ts j ↔ k < j := by
  constructor
  · intro hlt
    refine Nat.lt_of_not_le fun hle => ?_
    have := rank_mono ts hle
    omega
  · intro hlt
    have := rank_mono ts (show k + 1 ≤ j from hlt)
    rw [rank_succ_of_pos h ht] at this
    omega

theorem drop_eq_cons {us : List Token} (h : ts.drop j = t :: us) :
    ts[j]? = some t ∧ ts.drop (j + 1) = us := by
  have hget : (ts.drop j)[0]? = some t := by rw [h]; rfl
  rw [List.getElem?_drop] at hget
  refine ⟨hget, ?_⟩
  rw [← List.drop_drop, h]
  rfl

theorem getElem?_rank (h : ts[k]? = some t) (ht : t.isSignificant = true) :
    (significant ts)[rank ts k]? = some t := by
  obtain ⟨hk, rfl⟩ := List.getElem?_eq_some_iff.1 h
  have hdrop := drop_rank ts k
  rw [List.drop_eq_getElem_cons hk, significant_cons_of_pos ht] at hdrop
  exact (drop_eq_cons hdrop).1

/-- A range of the tokens holds the range of significant tokens between the ranks of its ends. -/
theorem window_rank (h : i ≤ j) :
    significant ((ts.drop i).take (j - i)) =
      ((significant ts).drop (rank ts i)).take (rank ts j - rank ts i) := by
  rw [← List.drop_take, ← List.drop_take, take_rank]
  have hsplit : ts.take j = ts.take i ++ (ts.take j).drop i := by
    have := (List.take_append_drop i (ts.take j)).symm
    rwa [List.take_take, Nat.min_eq_left h] at this
  have hrank : significant (ts.take j) = significant (ts.take i) ++ significant ((ts.take j).drop i) := by
    rw [← significant_append, ← hsplit]
  rw [hrank]
  exact (List.drop_left' rfl).symm

/-! ## Inner tokens and ends -/

/-- The token at the index is significant and another significant token follows it. -/
structure Inner (ts : List Token) (k : Nat) : Prop where
  here : ∃ t, ts[k]? = some t ∧ t.isSignificant = true
  more : rank ts k + 1 < (significant ts).length

theorem Inner.lt_lastIndex (h : Inner ts k) : k < lastIndex ts := by
  obtain ⟨t, ht, hs⟩ := h.here
  have hmore := h.more
  rw [← rank_succ_of_pos ht hs, ← rank_length] at hmore
  have hlt : k + 1 < ts.length := by
    refine Nat.lt_of_not_le fun hle => ?_
    have := rank_mono ts hle
    omega
  unfold lastIndex
  omega

theorem Inner.rank_lt_lastIndex (h : Inner ts k) : rank ts k < lastIndex (significant ts) := by
  have := h.more
  unfold lastIndex
  omega

/-- A scan ends at a significant token, or both scans run to their last token. -/
def Ends (ts : List Token) (m m' : Nat) : Prop :=
  (m' = rank ts m ∧ ∃ u, ts[m]? = some u ∧ u.isSignificant = true) ∨
    m = lastIndex ts ∧ m' = lastIndex (significant ts)

theorem Ends.lt_iff {m m' : Nat} (h : Ends ts m m') (hk : Inner ts k) : rank ts k < m' ↔ k < m := by
  obtain ⟨t, ht, hs⟩ := hk.here
  rcases h with ⟨rfl, _⟩ | ⟨rfl, rfl⟩
  · exact rank_lt_iff ht hs
  · exact iff_of_true hk.rank_lt_lastIndex hk.lt_lastIndex

/-! ## Searches -/

theorem find?_rank (ts : List Token) {p : Token → Bool} (hp : ∀ t, p t = true → t.isSignificant = true)
    (start : Nat) :
    (((significant ts).drop (rank ts start)).zipIdx (rank ts start)).find? (p ·.1) =
      (((ts.drop start).zipIdx start).find? (p ·.1)).map (Prod.map id (rank ts)) := by
  rw [drop_rank]
  generalize hus : ts.drop start = us
  induction us generalizing start with
  | nil => rfl
  | cons t us ih =>
      obtain ⟨ht, hrest⟩ := drop_eq_cons hus
      have ih := ih (start + 1) hrest
      cases hs : t.isSignificant with
      | true =>
          rw [rank_succ_of_pos ht hs] at ih
          rw [significant_cons_of_pos hs, List.zipIdx_cons, List.zipIdx_cons, List.find?_cons,
            List.find?_cons, ih]
          cases p t <;> rfl
      | false =>
          have hpt : p t = false := by
            cases hpt : p t with
            | false => rfl
            | true => rw [hp t hpt] at hs; cases hs
          rw [rank_succ_of_neg ht hs] at ih
          rw [significant_cons_of_neg hs, List.zipIdx_cons, List.find?_cons, ih]
          simp only [hpt]

theorem nextSignificant?_rank (start : Nat) :
    nextSignificant? (significant ts) (rank ts start) =
      (nextSignificant? ts start).map (Prod.map id (rank ts)) :=
  find?_rank ts (fun _ h => h) start

/-- The search behind a significant token. -/
theorem nextSignificant?_rank_succ (h : ts[i]? = some t) (ht : t.isSignificant = true) :
    nextSignificant? (significant ts) (rank ts i + 1) =
      (nextSignificant? ts (i + 1)).map (Prod.map id (rank ts)) := by
  rw [← rank_succ_of_pos h ht]
  exact nextSignificant?_rank (i + 1)

theorem isSignificant_of_nextSignificant? {start n : Nat}
    (h : nextSignificant? ts start = some (t, n)) : t.isSignificant = true :=
  (find?_zipIdx_drop h).2.2.1

theorem prevSignificant?_rank (i : Nat) :
    prevSignificant? (significant ts) (rank ts i) = prevSignificant? ts i := by
  unfold prevSignificant?
  rw [take_rank, significant, ← List.filter_reverse, List.find?_filter]
  congr 1
  funext u
  simp

/-! ## Groups and bodies -/

theorem pairOf_ne {t : Token} (h : t.isSignificant = false) (kind : Kind) :
    t.kind ≠ (pairOf kind).1 ∧ t.kind ≠ (pairOf kind).2 := by
  unfold pairOf
  split <;>
    exact ⟨Token.kind_ne_of_not_isSignificant h (by decide),
      Token.kind_ne_of_not_isSignificant h (by decide)⟩

theorem closeFrom_rank (kind : Kind) (depth start : Nat) :
    closeFrom (pairOf kind) depth (rank ts start) (significant (ts.drop start)) =
      (closeFrom (pairOf kind) depth start (ts.drop start)).map (rank ts) := by
  generalize hus : ts.drop start = us
  induction us generalizing start depth with
  | nil => rfl
  | cons t us ih =>
      obtain ⟨ht, hrest⟩ := drop_eq_cons hus
      cases hs : t.isSignificant with
      | true =>
          have ih := fun depth => ih depth (start + 1) hrest
          rw [rank_succ_of_pos ht hs] at ih
          rw [significant_cons_of_pos hs, closeFrom, closeFrom]
          simp only [ih]
          split
          · rfl
          split
          · split <;> rfl
          · rfl
      | false =>
          have ih := ih depth (start + 1) hrest
          rw [rank_succ_of_neg ht hs] at ih
          obtain ⟨hopen, hclose⟩ := pairOf_ne hs kind
          rw [significant_cons_of_neg hs, closeFrom, if_neg hopen, if_neg hclose, ih]

theorem getElem?_of_closeFrom {pair : Kind × Kind} {depth start m : Nat}
    (h : closeFrom pair depth start (ts.drop start) = some m) :
    ∃ u, ts[m]? = some u ∧ u.kind = pair.2 := by
  generalize hus : ts.drop start = us at h
  induction us generalizing start depth with
  | nil => cases h
  | cons t us ih =>
      obtain ⟨ht, hrest⟩ := drop_eq_cons hus
      rw [closeFrom] at h
      split at h
      · exact ih hrest h
      split at h
      · rename_i hkind
        split at h
        · cases h
          exact ⟨t, ht, hkind⟩
        · exact ih hrest h
      · exact ih hrest h

theorem isSignificant_of_pairOf {kind : Kind} (h : t.kind = (pairOf kind).2) :
    t.isSignificant = true := by
  cases hs : t.isSignificant with
  | true => rfl
  | false => exact absurd h (pairOf_ne hs kind).2

theorem matchingClose_eq {o : Nat} (ht : ts[o]? = some t) :
    matchingClose ts o =
      (closeFrom (pairOf t.kind) 0 o (ts.drop o)).getD (lastIndex ts) := by
  obtain ⟨ho, rfl⟩ := List.getElem?_eq_some_iff.1 ht
  unfold matchingClose
  rw [List.drop_eq_getElem_cons ho]

/-- The end of a group that is closed. -/
theorem matchingClose_rank_of_closed {o m : Nat} (ht : ts[o]? = some t) (hs : t.isSignificant = true)
    (hm : closeFrom (pairOf t.kind) 0 o (ts.drop o) = some m) :
    matchingClose ts o = m ∧ matchingClose (significant ts) (rank ts o) = rank ts m ∧
      ∃ u, ts[m]? = some u ∧ u.isSignificant = true := by
  obtain ⟨u, hu, hkind⟩ := getElem?_of_closeFrom hm
  refine ⟨?_, ?_, u, hu, isSignificant_of_pairOf hkind⟩
  · rw [matchingClose_eq ht, hm]
    rfl
  · rw [matchingClose_eq (getElem?_rank ht hs), drop_rank, closeFrom_rank, hm]
    rfl

theorem matchingClose_rank {o : Nat} (ht : ts[o]? = some t) (hs : t.isSignificant = true) :
    Ends ts (matchingClose ts o) (matchingClose (significant ts) (rank ts o)) := by
  cases hm : closeFrom (pairOf t.kind) 0 o (ts.drop o) with
  | some m =>
      obtain ⟨hclose, hrank, hu⟩ := matchingClose_rank_of_closed ht hs hm
      rw [hclose, hrank]
      exact Or.inl ⟨rfl, hu⟩
  | none =>
      refine Or.inr ⟨?_, ?_⟩
      · rw [matchingClose_eq ht, hm]
        rfl
      · rw [matchingClose_eq (getElem?_rank ht hs), drop_rank, closeFrom_rank, hm]
        rfl

theorem bodyFrom_rank (ts : List Token) (start : Nat) :
    (bodyFrom (significant ts) (rank ts start)).opening =
        (bodyFrom ts start).opening.map (rank ts) ∧
      Ends ts (bodyFrom ts start).last (bodyFrom (significant ts) (rank ts start)).last := by
  have hfind := find?_rank ts
    (p := fun t => t.kind == .openBrace || t.kind == .semicolon) (fun t h => by
      rw [Bool.or_eq_true, beq_iff_eq, beq_iff_eq] at h
      rcases h with h | h
      · exact Token.isSignificant_of_kind h (by decide)
      · exact Token.isSignificant_of_kind h (by decide)) start
  unfold bodyFrom
  rw [hfind]
  cases hf : ((ts.drop start).zipIdx start).find? fun p =>
      p.1.kind == .openBrace || p.1.kind == .semicolon with
  | none => exact ⟨rfl, Or.inr ⟨rfl, rfl⟩⟩
  | some p =>
      obtain ⟨b, j⟩ := p
      obtain ⟨hget, _, htest, _⟩ :=
        find?_zipIdx_drop (p := fun u => u.kind == .openBrace || u.kind == .semicolon) hf
      have hsig : b.isSignificant = true := by
        rw [Bool.or_eq_true, beq_iff_eq, beq_iff_eq] at htest
        rcases htest with h | h
        · exact Token.isSignificant_of_kind h (by decide)
        · exact Token.isSignificant_of_kind h (by decide)
      simp only [Option.map_some, Prod.map, id]
      split
      · exact ⟨rfl, matchingClose_rank hget hsig⟩
      · exact ⟨rfl, Or.inl ⟨rfl, b, hget, hsig⟩⟩

/-! ## Statements -/

/-- Where a statement that starts at `start` ends: at a significant token, in front of a bracket
that closes an outer group, or with the last token. -/
inductive Stops (ts : List Token) (start : Nat) : Nat → Nat → Prop where
  | token (m : Nat) (t : Token) (here : ts[m]? = some t) (counts : t.isSignificant = true)
      (le : start ≤ m) : Stops ts start m (rank ts m)
  | bracket (m : Nat) (t : Token) (here : ts[m]? = some t) (closes : t.kind.closes = true)
      (le : start ≤ m) :
      Stops ts start (max (m - 1) start) (max (rank ts m - 1) (rank ts start))
  | last : Stops ts start (lastIndex ts) (lastIndex (significant ts))

theorem statementEndFrom_rank (ts : List Token) {start : Nat} (depth : Nat) (h : start ≤ j) :
    Option.Rel (Stops ts start) (statementEndFrom start depth j (ts.drop j))
      (statementEndFrom (rank ts start) depth (rank ts j) (significant (ts.drop j))) := by
  generalize hus : ts.drop j = us
  induction us generalizing j depth with
  | nil => exact .none
  | cons t us ih =>
      obtain ⟨ht, hrest⟩ := drop_eq_cons hus
      cases hs : t.isSignificant with
      | true =>
          have ih := fun depth => ih depth (j := j + 1) (by omega) hrest
          rw [rank_succ_of_pos ht hs] at ih
          rw [significant_cons_of_pos hs, statementEndFrom, statementEndFrom]
          split
          · exact ih _
          split
          · rename_i hcloses
            split
            · exact .some (.bracket j t ht hcloses h)
            split
            · exact .some (.token j t ht hs h)
            · exact ih _
          split
          · exact .some (.token j t ht hs h)
          · exact ih _
      | false =>
          have ih := ih depth (j := j + 1) (by omega) hrest
          obtain ⟨hopens, hcloses⟩ := Token.opens_eq_false_of_not_isSignificant hs
          have hsemi : ¬(t.kind = .semicolon ∧ depth = 0) := fun hk =>
            Token.kind_ne_of_not_isSignificant hs (by decide) hk.1
          rw [rank_succ_of_neg ht hs] at ih
          rw [significant_cons_of_neg hs, statementEndFrom, if_neg (by simp [hopens]),
            if_neg (by simp [hcloses]), if_neg hsemi]
          exact ih

theorem statementEnd_rank (ts : List Token) (start : Nat) :
    Stops ts start (statementEnd ts start) (statementEnd (significant ts) (rank ts start)) := by
  have hrel := statementEndFrom_rank ts 0 (Nat.le_refl start)
  unfold statementEnd
  rw [drop_rank]
  generalize statementEndFrom start 0 start (ts.drop start) = a at hrel ⊢
  generalize statementEndFrom (rank ts start) 0 (rank ts start) (significant (ts.drop start)) = b
    at hrel ⊢
  cases hrel with
  | some h => exact h
  | none => exact .last

/-- A token behind the statement is behind it in both lists, brackets that close a group aside. -/
theorem Stops.lt_iff {start e e' : Nat} (h : Stops ts start e e') (hk : Inner ts k)
    (ht : ts[k]? = some t) (hcloses : t.kind.closes = false) :
    e' + 1 ≤ rank ts k ↔ e + 1 ≤ k := by
  have hs : t.isSignificant = true := by
    obtain ⟨u, hu, hs⟩ := hk.here
    rw [ht, Option.some.injEq] at hu
    rwa [hu]
  cases h with
  | token m u here counts le => exact rank_lt_iff here counts
  | bracket m u here closes le =>
      have hafter : rank ts m < rank ts k ↔ m < k :=
        rank_lt_iff here (Token.isSignificant_of_closes closes)
      have hbefore : rank ts k < rank ts m ↔ k < m := rank_lt_iff ht hs
      have hstart := rank_mono ts le
      have hne : m ≠ k := by
        rintro rfl
        rw [here, Option.some.injEq] at ht
        rw [ht, hcloses] at closes
        cases closes
      omega
  | last =>
      have hlast := hk.lt_lastIndex
      have hlast' := hk.rank_lt_lastIndex
      omega

theorem map_fst_slice (ts : List Token) (first last : Nat) :
    (slice ts first last).map (·.1) = (ts.drop first).take (last + 1 - first) := by
  unfold slice
  rw [List.map_take, List.zipIdx_map_fst]

theorem take_lastIndex (ts : List Token) (start : Nat) :
    (ts.drop start).take (lastIndex ts + 1 - start) = ts.drop start := by
  refine List.take_of_length_le ?_
  rw [List.length_drop, lastIndex]
  omega

/-- The significant tokens of a statement are those of the statement in the thinned list, which may
have one more bracket that closes an outer group. -/
theorem Stops.slice_eq {start e e' : Nat} (h : Stops ts start e e') :
    ∃ extra : List Token, (∀ c ∈ extra, c.kind.closes = true) ∧
      (slice (significant ts) (rank ts start) e').map (·.1) =
        significant ((slice ts start e).map (·.1)) ++ extra := by
  simp only [map_fst_slice]
  cases h with
  | token m u here counts le =>
      refine ⟨[], by simp, ?_⟩
      rw [List.append_nil, window_rank (by omega), rank_succ_of_pos here counts]
  | last =>
      refine ⟨[], by simp, ?_⟩
      rw [List.append_nil, take_lastIndex, take_lastIndex, drop_rank]
  | bracket m u here closes le =>
      have hs := Token.isSignificant_of_closes closes
      rcases Nat.eq_or_lt_of_le (rank_mono ts le) with heq | hlt
      · -- nothing that counts stands in front of the bracket
        rcases Nat.eq_or_lt_of_le le with rfl | hlt
        · refine ⟨[], by simp, ?_⟩
          rw [List.append_nil, window_rank (by omega)]
          have : max (start - 1) start = start := by omega
          have : max (rank ts start - 1) (rank ts start) = rank ts start := by omega
          simp only [*, rank_succ_of_pos here hs]
        · refine ⟨[u], by simpa using closes, ?_⟩
          have hwindow : significant ((ts.drop start).take (max (m - 1) start + 1 - start)) = [] := by
            rw [window_rank (by omega), show max (m - 1) start + 1 = m by omega, heq]
            simp
          have hget := getElem?_rank here hs
          obtain ⟨hlen, hget⟩ := List.getElem?_eq_some_iff.1 hget
          rw [hwindow, heq, List.drop_eq_getElem_cons hlen, hget,
            show max (rank ts m - 1) (rank ts m) + 1 - rank ts m = 1 by omega]
          rfl
      · have hpos : start < m := Nat.lt_of_not_le fun hle => by
          have := rank_mono ts hle
          omega
        refine ⟨[], by simp, ?_⟩
        rw [List.append_nil, window_rank (by omega), show max (m - 1) start + 1 = m by omega,
          show max (rank ts m - 1) (rank ts start) + 1 = rank ts m by omega]

/-! ## Names -/

/-- The item without the index of its candidate. -/
def ConstantItem.unplaced : ConstantItem → ConstantItem
  | naming candidate => naming (candidate.map fun p => (p.1, 0))
  | value => value

/-- The names of a constant statement depend on its significant tokens alone. -/
theorem constantNames_significant (depth : Nat) (item : ConstantItem) (l : List (Token × Nat)) :
    (constantNames depth item l).map (·.1) =
      (constantNames depth item.unplaced ((significant (l.map (·.1))).map (·, 0))).map (·.1) := by
  induction l generalizing depth item with
  | nil => rfl
  | cons p l ih =>
      obtain ⟨t, j⟩ := p
      cases hs : t.isSignificant with
      | true =>
          rw [List.map_cons, significant_cons_of_pos hs, List.map_cons, constantNames.eq_def,
            constantNames.eq_def]
          simp only
          split
          · exact ih _ _
          split
          · exact ih _ _
          split
          · exact ih _ (.naming none)
          cases item with
          | value => exact ih _ .value
          | naming candidate =>
              simp only [ConstantItem.unplaced]
              split
              · rw [List.map_append, List.map_append, ih _ .value]
                cases candidate <;> rfl
              split
              · exact ih _ (.naming (some (t, j)))
              · exact ih _ (.naming candidate)
      | false =>
          obtain ⟨hopens, hcloses⟩ := Token.opens_eq_false_of_not_isSignificant hs
          have hcomma : t.kind ≠ .comma := Token.kind_ne_of_not_isSignificant hs (by decide)
          have hname : t.kind ≠ .name := Token.kind_ne_of_not_isSignificant hs (by decide)
          have hword : t.kind ≠ .keyword := Token.kind_ne_of_not_isSignificant hs (by decide)
          have hsign : t.kind ≠ .punct := Token.kind_ne_of_not_isSignificant hs (by decide)
          have hpunct : t.isPunct "=" = false := by simp [Token.isPunct, hsign]
          rw [List.map_cons, significant_cons_of_neg hs, ← ih, constantNames.eq_def]
          simp only [hopens, hcloses, hcomma, hname, hword, hpunct, Bool.or_false]
          cases item <;> simp

/-- A bracket at the end of a statement closes no item. -/
theorem constantNames_append_closes {extra : List (Token × Nat)}
    (h : ∀ p ∈ extra, p.1.kind.closes = true) (depth : Nat) (item : ConstantItem)
    (l : List (Token × Nat)) :
    constantNames depth item (l ++ extra) = constantNames depth item l := by
  induction l generalizing depth item with
  | nil =>
      induction extra generalizing depth with
      | nil => rfl
      | cons p extra ih =>
          obtain ⟨hp, hextra⟩ := List.forall_mem_cons.1 h
          rw [List.nil_append, constantNames.eq_def]
          simp only [hp, Bool.or_true, if_true]
          exact ih hextra _
  | cons p l ih =>
      rw [List.cons_append, constantNames.eq_def, constantNames.eq_def depth item (p :: l)]
      simp only [ih]

/-- The names of a property statement depend on its significant tokens alone. -/
theorem propertyNames_significant (depth : Nat) (wanted : Bool) (l : List (Token × Nat)) :
    (propertyNames depth wanted l).map (·.1) =
      (propertyNames depth wanted ((significant (l.map (·.1))).map (·, 0))).map (·.1) := by
  induction l generalizing depth wanted with
  | nil => rfl
  | cons p l ih =>
      obtain ⟨t, j⟩ := p
      cases hs : t.isSignificant with
      | true =>
          rw [List.map_cons, significant_cons_of_pos hs, List.map_cons, propertyNames, propertyNames]
          split
          · exact ih _ _
          split
          · exact ih _ _
          split
          · exact ih _ _
          split
          · rw [List.map_cons, List.map_cons, ih]
          · exact ih _ _
      | false =>
          obtain ⟨hopens, hcloses⟩ := Token.opens_eq_false_of_not_isSignificant hs
          have hcomma : t.kind ≠ .comma := Token.kind_ne_of_not_isSignificant hs (by decide)
          have hname : t.kind ≠ .dollarName := Token.kind_ne_of_not_isSignificant hs (by decide)
          rw [List.map_cons, significant_cons_of_neg hs, ← ih, propertyNames]
          simp [hopens, hcloses, hcomma, hname]

theorem propertyNames_append_closes {extra : List (Token × Nat)}
    (h : ∀ p ∈ extra, p.1.kind.closes = true) (depth : Nat) (wanted : Bool)
    (l : List (Token × Nat)) :
    propertyNames depth wanted (l ++ extra) = propertyNames depth wanted l := by
  induction l generalizing depth wanted with
  | nil =>
      induction extra generalizing depth with
      | nil => rfl
      | cons p extra ih =>
          obtain ⟨hp, hextra⟩ := List.forall_mem_cons.1 h
          rw [List.nil_append, propertyNames.eq_def]
          simp only [hp, Bool.or_true, if_true]
          exact ih hextra _
  | cons p l ih =>
      rw [List.cons_append, propertyNames, propertyNames]
      simp only [ih]

/-- What depends on significant tokens alone and not on brackets at the end is read off both
statements alike. -/
theorem Stops.names_eq {names : List (Token × Nat) → List Token} {start e e' : Nat}
    (h : Stops ts start e e')
    (hthin : ∀ l, names l = names ((significant (l.map (·.1))).map (·, 0)))
    (hcloses : ∀ l extra, (∀ p ∈ extra, p.1.kind.closes = true) → names (l ++ extra) = names l) :
    names (slice (significant ts) (rank ts start) e') = names (slice ts start e) := by
  obtain ⟨extra, hextra, hslice⟩ := h.slice_eq
  have hself : significant (significant ((slice ts start e).map (·.1)) ++ extra) =
      significant ((slice ts start e).map (·.1)) ++ extra := by
    refine significant_eq_self fun u hu => ?_
    rcases List.mem_append.1 hu with hu | hu
    · exact isSignificant_of_mem hu
    · exact Token.isSignificant_of_closes (hextra u hu)
  rw [hthin, hslice, hself, List.map_append, hcloses, ← hthin]
  intro p hp
  obtain ⟨c, hc, rfl⟩ := List.mem_map.1 hp
  exact hextra c hc

theorem Stops.constantNames_eq {start e e' : Nat} (h : Stops ts start e e') :
    (constantNames 0 (.naming none) (slice (significant ts) (rank ts start) e')).map (·.1) =
      (constantNames 0 (.naming none) (slice ts start e)).map (·.1) :=
  h.names_eq (constantNames_significant 0 (.naming none)) fun l extra hextra => by
    rw [constantNames_append_closes hextra]

theorem Stops.propertyNames_eq {start e e' : Nat} (h : Stops ts start e e') :
    (propertyNames 0 true (slice (significant ts) (rank ts start) e')).map (·.1) =
      (propertyNames 0 true (slice ts start e)).map (·.1) :=
  h.names_eq (propertyNames_significant 0 true) fun l extra hextra => by
    rw [propertyNames_append_closes hextra]

theorem firstVariable?_rank (start : Nat) :
    firstVariable? (((significant ts).drop (rank ts start)).zipIdx (rank ts start)) =
      (firstVariable? ((ts.drop start).zipIdx start)).map (rank ts) := by
  rw [drop_rank]
  generalize hus : ts.drop start = us
  induction us generalizing start with
  | nil => rfl
  | cons t us ih =>
      obtain ⟨ht, hrest⟩ := drop_eq_cons hus
      have ih := ih (start + 1) hrest
      cases hs : t.isSignificant with
      | true =>
          rw [rank_succ_of_pos ht hs] at ih
          rw [significant_cons_of_pos hs, List.zipIdx_cons, List.zipIdx_cons, firstVariable?,
            firstVariable?, ih]
          simp only [hs, Bool.not_true, Bool.false_eq_true, if_false]
          split
          · rfl
          split
          · rfl
          · rfl
      | false =>
          rw [rank_succ_of_neg ht hs] at ih
          rw [significant_cons_of_neg hs, List.zipIdx_cons, firstVariable?, ih]
          simp only [hs, Bool.not_false, if_true]

theorem functionName?_rank (h : ts[i]? = some t) (ht : t.isSignificant = true) :
    functionName? (significant ts) (rank ts i) =
      (functionName? ts i).map (Prod.map id (rank ts)) := by
  unfold functionName?
  simp only [Option.bind_eq_bind, nextSignificant?_rank_succ h ht]
  cases hn : nextSignificant? ts (i + 1) with
  | none => rfl
  | some p =>
      obtain ⟨u, n⟩ := p
      have hu := (nextSignificant?_eq_some hn).1
      simp only [Option.map_some, Option.bind_some, Prod.map, id,
        nextSignificant?_rank_succ hu (isSignificant_of_nextSignificant? hn)]
      split
      · cases nextSignificant? ts (n + 1) with
        | none => rfl
        | some q =>
            simp only [Option.map_some, Option.bind_some, Prod.map, id]
            split <;> rfl
      · split <;> rfl

/-! ## Parameters -/

theorem splitCommas_ne_nil (depth : Nat) (ts : List Token) : splitCommas depth ts ≠ [] := by
  cases ts with
  | nil => exact List.cons_ne_nil _ _
  | cons t ts =>
      rw [splitCommas]
      split
      · exact List.cons_ne_nil _ _
      split
      · exact List.cons_ne_nil _ _
      · exact List.cons_ne_nil _ _

theorem splitCommas_significant (depth : Nat) (ts : List Token) :
    splitCommas depth (significant ts) = (splitCommas depth ts).map significant := by
  induction ts generalizing depth with
  | nil => rfl
  | cons t ts ih =>
      cases hs : t.isSignificant with
      | true =>
          rw [significant_cons_of_pos hs, splitCommas, splitCommas]
          simp only [ih]
          split
          · rfl
          · cases splitCommas (depthAfter depth t.kind) ts with
            | nil => simp [significant, hs]
            | cons part parts => simp [significant, hs]
      | false =>
          obtain ⟨hopens, hcloses⟩ := Token.opens_eq_false_of_not_isSignificant hs
          have hcomma : ¬(t.kind = .comma ∧ depth = 0) := fun hk =>
            Token.kind_ne_of_not_isSignificant hs (by decide) hk.1
          have hdepth : depthAfter depth t.kind = depth := by simp [depthAfter, hopens, hcloses]
          rw [significant_cons_of_neg hs, ih, splitCommas, if_neg hcomma, hdepth]
          cases hparts : splitCommas depth ts with
          | nil => exact absurd hparts (splitCommas_ne_nil depth ts)
          | cons part parts => simp [significant, hs]

theorem readParameter_significant (hint : Text) (variadic : Bool) (ts : List Token) :
    readParameter hint variadic (significant ts) = readParameter hint variadic ts := by
  induction ts generalizing hint variadic with
  | nil => rfl
  | cons t ts ih =>
      cases hs : t.isSignificant with
      | true =>
          rw [significant_cons_of_pos hs, readParameter, readParameter]
          simp only [ih]
      | false =>
          rw [significant_cons_of_neg hs, ih, readParameter, hs]
          rfl

theorem readParameters_significant (ts : List Token) :
    readParameters (significant ts) = readParameters ts := by
  unfold readParameters
  rw [splitCommas_significant, List.filterMap_map]
  refine List.filterMap_congr fun part _ => ?_
  exact readParameter_significant [] false part

end Outline

end DocLint
