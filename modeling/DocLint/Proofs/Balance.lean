import DocLint.Proofs.Thinning

/-!
# Balanced brackets

The scans of the recognisers count brackets. Over tokens whose brackets are well nested a count
comes back to where it was, so a scan passes over such tokens as a whole.

* `Balanced`: every group is closed by a bracket of its own kind; `nests` decides it with a stack.
* `outside`: the tokens outside of all groups.
* `Balanced.split`: the group that opens at an index, and what stands in it.
* `matchingClose_of_split`: the group is closed where nesting says.
* `scan_append`: a scan that counts brackets passes over balanced tokens, if it does not stop at one
  of those outside of groups.
* `statementEndFrom_le_of_nests`: a statement in a group ends before the group does.
* `Listing`: items with separators between them.
-/

namespace DocLint

/-- Opens or closes a group. -/
def Kind.isBracket (k : Kind) : Bool := k.opens || k.closes

namespace Outline

/-- Every group is closed by a bracket of its own kind, the last one opened first. -/
inductive Balanced : List Token → Prop where
  | nil : Balanced []
  | token {t : Token} {us : List Token} (plain : t.kind.isBracket = false) (more : Balanced us) :
      Balanced (t :: us)
  | group {o c : Token} {inner us : List Token} (opens : o.kind.opens = true)
      (inside : Balanced inner) (closes : c.kind = (pairOf o.kind).2) (more : Balanced us) :
      Balanced (o :: (inner ++ c :: us))

/-- The tokens outside of groups when `depth` groups are open; a bracket that opens a group stands
outside of it. -/
def outsideFrom : Nat → List Token → List Token
  | _, [] => []
  | depth, t :: us =>
    (if depth = 0 then [t] else []) ++ outsideFrom (depthAfter depth t.kind) us

/-- The tokens outside of groups. -/
def outside (us : List Token) : List Token := outsideFrom 0 us

/-- Reads brackets; `due` holds the kinds of those that have to close a group, the next one
first. -/
def nests : List Kind → List Token → Bool
  | due, [] => due.isEmpty
  | due, t :: us =>
    if t.kind.opens then nests ((pairOf t.kind).2 :: due) us
    else if t.kind.closes then
      match due with
      | [] => false
      | k :: due => t.kind == k && nests due us
    else nests due us

/-! ## Kinds of brackets -/

theorem pairOf_fst {k : Kind} (h : k.opens = true) : (pairOf k).1 = k := by
  revert h
  cases k <;> decide

theorem closes_pairOf (k : Kind) : (pairOf k).2.closes = true ∧ (pairOf k).2.opens = false := by
  cases k <;> exact ⟨rfl, rfl⟩

theorem opens_pairOf (k : Kind) : (pairOf k).1.opens = true ∧ (pairOf k).1.closes = false := by
  cases k <;> exact ⟨rfl, rfl⟩

theorem pairOf_fst_of_snd {k l : Kind} (h : (pairOf k).2 = (pairOf l).2) :
    (pairOf k).1 = (pairOf l).1 := by
  revert h
  cases k <;> cases l <;> decide

theorem depthAfter_plain {k : Kind} (h : k.isBracket = false) (depth : Nat) :
    depthAfter depth k = depth := by
  rw [Kind.isBracket, Bool.or_eq_false_iff] at h
  simp [depthAfter, h]

theorem depthAfter_opens {k : Kind} (h : k.opens = true) (depth : Nat) :
    depthAfter depth k = depth + 1 := by
  simp [depthAfter, h]

theorem depthAfter_pairOf (k : Kind) (depth : Nat) :
    depthAfter (depth + 1) (pairOf k).2 = depth := by
  obtain ⟨hcloses, hopens⟩ := closes_pairOf k
  simp [depthAfter, hcloses, hopens]

theorem opens_of_closes {k : Kind} (h : k.closes = true) : k.opens = false := by
  revert h
  cases k <;> decide

/-! ## A stack decides -/

theorem nests_opens {t : Token} (h : t.kind.opens = true) (due : List Kind) (us : List Token) :
    nests due (t :: us) = nests ((pairOf t.kind).2 :: due) us := by
  rw [nests.eq_def]
  simp only [h, if_true]

theorem nests_closes {t : Token} (h : t.kind.closes = true) (due : List Kind) (us : List Token) :
    nests due (t :: us) = true ↔ ∃ rest, due = t.kind :: rest ∧ nests rest us = true := by
  rw [nests.eq_def]
  simp only [h, opens_of_closes h, if_true]
  cases due with
  | nil => simp
  | cons k due =>
      simp only [Bool.false_eq_true, if_false, Bool.and_eq_true, beq_iff_eq, List.cons.injEq]
      constructor
      · rintro ⟨rfl, h⟩
        exact ⟨due, ⟨rfl, rfl⟩, h⟩
      · rintro ⟨rest, ⟨rfl, rfl⟩, h⟩
        exact ⟨rfl, h⟩

theorem nests_plain {t : Token} (h : t.kind.isBracket = false) (due : List Kind)
    (us : List Token) : nests due (t :: us) = nests due us := by
  rw [Kind.isBracket, Bool.or_eq_false_iff] at h
  rw [nests.eq_def]
  simp only [h.1, h.2, Bool.false_eq_true, if_false]

/-- A token opens a group, closes one or is no bracket. -/
theorem bracket_cases (k : Kind) : k.opens = true ∨ k.closes = true ∨ k.isBracket = false := by
  cases k <;> decide

theorem nests_append {us : List Token} (h : Balanced us) (due : List Kind) (vs : List Token) :
    nests due (us ++ vs) = nests due vs := by
  induction h generalizing due vs with
  | nil => rfl
  | token plain more ih => rw [List.cons_append, nests_plain plain, ih]
  | @group o c inner us opens inside closes more ihInside ihMore =>
      have hc : c.kind.closes = true := by
        rw [closes]
        exact (closes_pairOf o.kind).1
      rw [List.cons_append, List.append_assoc, nests_opens opens, ihInside, List.cons_append,
        ← ihMore due vs, Bool.eq_iff_iff, nests_closes hc, closes]
      simp

/-- What a stack reads down to its first entry. -/
theorem exists_split_of_nests {k : Kind} {due : List Kind} {us : List Token}
    (h : nests (k :: due) us = true) :
    ∃ inner c rest, us = inner ++ c :: rest ∧ Balanced inner ∧ c.kind = k ∧
      nests due rest = true := by
  induction hn : us.length using Nat.strongRecOn generalizing k due us with
  | ind n ih =>
      cases us with
      | nil => cases h
      | cons t us =>
          rw [List.length_cons] at hn
          rcases bracket_cases t.kind with hopens | hcloses | hplain
          · -- first the group that opens here, then what is left of the outer one
            rw [nests_opens hopens] at h
            obtain ⟨inner, c, rest, rfl, hinner, hc, hrest⟩ := ih us.length (by omega) h rfl
            have hlength : rest.length < n := by
              simp only [List.length_append, List.length_cons] at hn
              omega
            obtain ⟨more, e, rest, rfl, hmore, he, hrest⟩ := ih _ hlength hrest rfl
            exact ⟨t :: (inner ++ c :: more), e, rest, by simp, .group hopens hinner hc hmore, he,
              hrest⟩
          · obtain ⟨rest, hdue, hrest⟩ := (nests_closes hcloses _ _).1 h
            obtain ⟨rfl, rfl⟩ := List.cons.inj hdue
            exact ⟨[], t, us, rfl, .nil, rfl, hrest⟩
          · rw [nests_plain hplain] at h
            obtain ⟨inner, c, rest, rfl, hinner, hc, hrest⟩ := ih us.length (by omega) h rfl
            exact ⟨t :: inner, c, rest, rfl, .token hplain hinner, hc, hrest⟩

/-- **Brackets are balanced if a stack can read them.** -/
theorem balanced_iff_nests {us : List Token} : Balanced us ↔ nests [] us = true := by
  constructor
  · intro h
    have := nests_append h [] []
    rwa [List.append_nil] at this
  intro h
  induction hn : us.length using Nat.strongRecOn generalizing us with
  | ind n ih =>
      cases us with
      | nil => exact .nil
      | cons t us =>
          rw [List.length_cons] at hn
          rcases bracket_cases t.kind with hopens | hcloses | hplain
          · rw [nests_opens hopens] at h
            obtain ⟨inner, c, rest, rfl, hinner, hc, hrest⟩ := exists_split_of_nests h
            simp only [List.length_append, List.length_cons] at hn
            exact .group hopens hinner hc (ih rest.length (by omega) hrest rfl)
          · obtain ⟨rest, hdue, _⟩ := (nests_closes hcloses _ _).1 h
            cases hdue
          · rw [nests_plain hplain] at h
            exact .token hplain (ih us.length (by omega) h rfl)

instance (us : List Token) : Decidable (Balanced us) := decidable_of_iff _ balanced_iff_nests.symm

theorem isBracket_of_not_isSignificant {t : Token} (h : t.isSignificant = false) :
    t.kind.isBracket = false := by
  obtain ⟨hopens, hcloses⟩ := Token.opens_eq_false_of_not_isSignificant h
  rw [Kind.isBracket, hopens, hcloses]
  rfl

theorem nests_significant (due : List Kind) (us : List Token) :
    nests due (significant us) = nests due us := by
  induction us generalizing due with
  | nil => rfl
  | cons t us ih =>
      cases hs : t.isSignificant with
      | true =>
          rw [significant_cons_of_pos hs, nests.eq_def, nests.eq_def due (t :: us)]
          simp only [ih]
      | false =>
          rw [significant_cons_of_neg hs, ih, nests_plain (isBracket_of_not_isSignificant hs)]

/-- Tokens without significance are no brackets. -/
theorem balanced_significant {us : List Token} : Balanced (significant us) ↔ Balanced us := by
  rw [balanced_iff_nests, balanced_iff_nests, nests_significant]

/-- A stack reads also what is left of balanced tokens. -/
theorem exists_nests_drop {due : List Kind} {us : List Token} (h : nests due us = true) (k : Nat) :
    ∃ due', nests due' (us.drop k) = true := by
  induction us generalizing due k with
  | nil => exact ⟨[], by rw [List.drop_nil]; rfl⟩
  | cons t us ih =>
      cases k with
      | zero => exact ⟨due, h⟩
      | succ k =>
          rw [List.drop_succ_cons]
          rcases bracket_cases t.kind with hopens | hcloses | hplain
          · rw [nests_opens hopens] at h
            exact ih h k
          · obtain ⟨rest, _, hrest⟩ := (nests_closes hcloses _ _).1 h
            exact ih hrest k
          · rw [nests_plain hplain] at h
            exact ih h k

/-! ## Tokens put together -/

theorem Balanced.append {us vs : List Token} (hu : Balanced us) (hv : Balanced vs) :
    Balanced (us ++ vs) := by
  rw [balanced_iff_nests, nests_append hu]
  exact balanced_iff_nests.1 hv

theorem balanced_of_plain {us : List Token} (h : ∀ t ∈ us, t.kind.isBracket = false) :
    Balanced us := by
  induction us with
  | nil => exact .nil
  | cons t us ih =>
      obtain ⟨ht, hus⟩ := List.forall_mem_cons.1 h
      exact .token ht (ih hus)

theorem outsideFrom_append {us : List Token} (h : Balanced us) (depth : Nat) (vs : List Token) :
    outsideFrom depth (us ++ vs) =
      (if depth = 0 then outside us else []) ++ outsideFrom depth vs := by
  induction h generalizing depth vs with
  | nil => simp [outside, outsideFrom]
  | @token t us plain more ih =>
      have further : ∀ d vs, outsideFrom d (t :: vs) =
          (if d = 0 then [t] else []) ++ outsideFrom d vs := by
        intro d vs
        rw [outsideFrom, depthAfter_plain plain]
      rw [List.cons_append, further, ih, outside, outside, further]
      split <;> simp
  | @group o c inner us opens inside closes more ihInside ihMore =>
      -- from the bracket that closes the group on, the depth is what it was before
      have further : ∀ d vs, outsideFrom d (o :: (inner ++ c :: vs)) =
          (if d = 0 then [o] else []) ++ outsideFrom d vs := by
        intro d vs
        rw [outsideFrom, depthAfter_opens opens, ihInside, outsideFrom, closes, depthAfter_pairOf]
        simp
      rw [List.cons_append, List.append_assoc, List.cons_append, further, ihMore, outside, outside,
        further]
      split <;> simp

theorem outside_append {us : List Token} (h : Balanced us) (vs : List Token) :
    outside (us ++ vs) = outside us ++ outside vs := by
  have := outsideFrom_append h 0 vs
  rwa [if_pos rfl] at this

theorem outside_token {t : Token} (h : t.kind.isBracket = false) (us : List Token) :
    outside (t :: us) = t :: outside us := by
  rw [outside, outsideFrom, depthAfter_plain h]
  rfl

theorem outside_group {o c : Token} {inner : List Token} (opens : o.kind.opens = true)
    (inside : Balanced inner) (closes : c.kind = (pairOf o.kind).2) (us : List Token) :
    outside (o :: (inner ++ c :: us)) = o :: outside us := by
  rw [outside, outsideFrom, depthAfter_opens opens, outsideFrom_append inside, outsideFrom, closes,
    depthAfter_pairOf]
  rfl

theorem mem_of_mem_outsideFrom {t : Token} {depth : Nat} {us : List Token}
    (h : t ∈ outsideFrom depth us) : t ∈ us := by
  induction us generalizing depth with
  | nil => exact h
  | cons u us ih =>
      rw [outsideFrom] at h
      rcases List.mem_append.1 h with h | h
      · split at h
        · rw [List.mem_singleton.1 h]
          exact List.mem_cons_self
        · cases h
      · exact List.mem_cons_of_mem _ (ih h)

/-! ## Groups -/

/-- **The group that opens at an index.** -/
theorem Balanced.split {ts : List Token} (h : Balanced ts) {i : Nat} {o : Token}
    (ho : ts[i]? = some o) (opens : o.kind.opens = true) :
    ∃ inner c rest, ts.drop i = o :: (inner ++ c :: rest) ∧ Balanced inner ∧
      c.kind = (pairOf o.kind).2 := by
  induction h generalizing i with
  | nil => cases ho
  | @token t us plain more ih =>
      cases i with
      | zero =>
          cases ho
          rw [Kind.isBracket, opens] at plain
          cases plain
      | succ i => exact ih ho
  | @group a c inner us hopens inside closes more ihInside ihMore =>
      cases i with
      | zero =>
          cases ho
          exact ⟨inner, c, us, rfl, inside, closes⟩
      | succ i =>
          rw [List.getElem?_cons_succ] at ho
          rw [List.drop_succ_cons]
          rcases Nat.lt_trichotomy i inner.length with hlt | rfl | hgt
          · rw [List.getElem?_append_left hlt] at ho
            obtain ⟨inner', c', rest, hdrop, hinner, hc⟩ := ihInside ho
            refine ⟨inner', c', rest ++ c :: us, ?_, hinner, hc⟩
            rw [List.drop_append_of_le_length (Nat.le_of_lt hlt), hdrop]
            simp
          · -- a bracket that closes a group opens none
            rw [List.getElem?_append_right (Nat.le_refl _), Nat.sub_self] at ho
            cases ho
            rw [closes, (closes_pairOf a.kind).2] at opens
            cases opens
          · rw [List.getElem?_append_right (Nat.le_of_lt hgt),
              show i - inner.length = (i - inner.length - 1) + 1 by omega,
              List.getElem?_cons_succ] at ho
            obtain ⟨inner', c', rest, hdrop, hinner, hc⟩ := ihMore ho
            refine ⟨inner', c', rest, ?_, hinner, hc⟩
            rw [List.drop_append, List.drop_eq_nil_of_le (Nat.le_of_lt hgt), List.nil_append,
              show i - inner.length = (i - inner.length - 1) + 1 by omega, List.drop_succ_cons,
              hdrop]

theorem closeFrom_append {us : List Token} (h : Balanced us) (k : Kind) (depth j : Nat)
    (vs : List Token) :
    closeFrom (pairOf k) (depth + 1) j (us ++ vs) =
      closeFrom (pairOf k) (depth + 1) (j + us.length) vs := by
  have hk := opens_pairOf k
  have hk' := closes_pairOf k
  induction h generalizing depth j vs with
  | nil => rfl
  | @token t us plain more ih =>
      rw [Kind.isBracket, Bool.or_eq_false_iff] at plain
      have hopen : t.kind ≠ (pairOf k).1 := fun heq => by simp [heq, hk.1] at plain
      have hclose : t.kind ≠ (pairOf k).2 := fun heq => by simp [heq, hk'.1] at plain
      rw [List.cons_append, closeFrom, if_neg hopen, if_neg hclose, ih, List.length_cons]
      congr 1
      omega
  | @group o c inner us opens inside closes more ihInside ihMore =>
      have hc := closes_pairOf o.kind
      have hend : j + 1 + inner.length + 1 + us.length =
          j + (o :: (inner ++ c :: us)).length := by
        simp only [List.length_cons, List.length_append]
        omega
      have hcopen : c.kind ≠ (pairOf k).1 := fun heq => by
        rw [← closes, heq, hk.1] at hc
        cases hc.2
      have hoclose : o.kind ≠ (pairOf k).2 := fun heq => by
        rw [heq, hk'.2] at opens
        cases opens
      rw [List.cons_append, List.append_assoc, List.cons_append, closeFrom]
      by_cases hsame : o.kind = (pairOf k).1
      · have hcclose : c.kind = (pairOf k).2 := by
          rw [closes, hsame]
          cases k <;> rfl
        rw [if_pos hsame, ihInside, closeFrom, if_neg hcopen, if_pos hcclose,
          if_neg (by omega), Nat.add_sub_cancel, ihMore, hend]
      · have hcclose : c.kind ≠ (pairOf k).2 := fun heq => by
          rw [closes] at heq
          exact hsame (by rw [← pairOf_fst_of_snd heq, pairOf_fst opens])
        rw [if_neg hsame, if_neg hoclose, ihInside, closeFrom, if_neg hcopen, if_neg hcclose,
          ihMore, hend]

/-- **A group is closed by the bracket that balances it.** -/
theorem matchingClose_of_split {ts : List Token} {i : Nat} {o c : Token} {inner rest : List Token}
    (hdrop : ts.drop i = o :: (inner ++ c :: rest)) (opens : o.kind.opens = true)
    (inside : Balanced inner) (closes : c.kind = (pairOf o.kind).2) :
    matchingClose ts i = i + 1 + inner.length := by
  have hc := closes_pairOf o.kind
  have hcopen : c.kind ≠ (pairOf o.kind).1 := fun heq => by
    rw [← closes, heq, (opens_pairOf o.kind).1] at hc
    cases hc.2
  unfold matchingClose
  rw [hdrop]
  simp only
  rw [closeFrom, if_pos (pairOf_fst opens).symm, closeFrom_append inside, closeFrom, if_neg hcopen,
    if_pos closes, if_pos (by omega)]
  rfl

/-! ## Scans -/

/-- **A scan passes over balanced tokens.** The scan counts the open groups, takes one token after
another in a group, and outside of groups those that are `ok`. -/
theorem scan_append {β : Type} {ok : Token → Prop} {F : Nat → List (Token × Nat) → β}
    (plain : ∀ d p r, p.1.kind.isBracket = false → 0 < d ∨ ok p.1 → F d (p :: r) = F d r)
    (opens : ∀ d p r, p.1.kind.opens = true → 0 < d ∨ ok p.1 → F d (p :: r) = F (d + 1) r)
    (closes : ∀ d p r o, o.kind.opens = true → p.1.kind = (pairOf o.kind).2 → 0 < d ∨ ok o →
      F (d + 1) (p :: r) = F d r)
    {us : List (Token × Nat)} (h : Balanced (us.map (·.1))) {d : Nat}
    (hout : d = 0 → ∀ t ∈ outside (us.map (·.1)), ok t) (r : List (Token × Nat)) :
    F d (us ++ r) = F d r := by
  generalize hl : us.map (·.1) = l at h hout
  induction h generalizing us d r with
  | nil =>
      rw [List.map_eq_nil_iff.1 hl]
      rfl
  | @token t l hplain more ih =>
      obtain ⟨p, vs, rfl, rfl, hvs⟩ := List.map_eq_cons_iff.1 hl
      have hout' : d = 0 → ok p.1 ∧ ∀ t ∈ outside l, ok t := fun hd => by
        have := hout hd
        rw [outside_token hplain] at this
        exact List.forall_mem_cons.1 this
      have hok : 0 < d ∨ ok p.1 := (Nat.eq_zero_or_pos d).symm.imp_right fun hd => (hout' hd).1
      rw [List.cons_append, plain d p _ hplain hok]
      exact ih r hvs fun hd => (hout' hd).2
  | @group o c inner l hopens inside hcloses more ihInside ihMore =>
      obtain ⟨p, vs, rfl, rfl, hvs⟩ := List.map_eq_cons_iff.1 hl
      obtain ⟨mid, vs, rfl, hin, hvs⟩ := List.map_eq_append_iff.1 hvs
      obtain ⟨q, ws, rfl, rfl, hws⟩ := List.map_eq_cons_iff.1 hvs
      have hout' : d = 0 → ok p.1 ∧ ∀ t ∈ outside l, ok t := fun hd => by
        have := hout hd
        rw [outside_group hopens inside hcloses] at this
        exact List.forall_mem_cons.1 this
      have hok : 0 < d ∨ ok p.1 := (Nat.eq_zero_or_pos d).symm.imp_right fun hd => (hout' hd).1
      rw [List.cons_append, List.append_assoc, List.cons_append, opens d p _ hopens hok,
        ihInside _ hin (fun hd => absurd hd (by omega)), closes d q _ p.1 hopens hcloses hok]
      exact ihMore r hws fun hd => (hout' hd).2

/-- **A statement in a group ends before the group does.** What follows the tokens that a stack can
read closes the group; the statement starts at one of them. -/
theorem statementEndFrom_le_of_nests {due : List Kind} {us rest : List Token} {c : Token}
    {start depth j : Nat} (h : nests due us = true) (hdepth : depth ≤ due.length) (hj : start ≤ j)
    (hc : c.kind.closes = true) :
    ∃ m, statementEndFrom start depth j (us ++ c :: rest) = some m ∧ m ≤ j + us.length := by
  induction us generalizing due depth j with
  | nil =>
      obtain rfl : depth = 0 := by
        rw [nests, List.isEmpty_iff] at h
        rw [h] at hdepth
        exact Nat.le_zero.1 hdepth
      refine ⟨max (j - 1) start, ?_, ?_⟩
      · rw [List.nil_append, statementEndFrom, if_neg (by simp [opens_of_closes hc]), if_pos hc,
          if_pos rfl]
      · rw [List.length_nil]
        omega
  | cons t us ih =>
      have further : ∀ {due depth}, nests due us = true → depth ≤ due.length →
          ∃ m, statementEndFrom start depth (j + 1) (us ++ c :: rest) = some m ∧
            m ≤ j + (us.length + 1) := by
        intro due depth h hdepth
        obtain ⟨m, hm, hle⟩ := ih h hdepth (Nat.le_succ_of_le hj)
        exact ⟨m, hm, by omega⟩
      rw [List.cons_append, statementEndFrom, List.length_cons]
      rcases bracket_cases t.kind with hopens | hcloses | hplain
      · rw [nests_opens hopens] at h
        rw [if_pos hopens]
        exact further h (Nat.succ_le_succ hdepth)
      · obtain ⟨due, rfl, hdue⟩ := (nests_closes hcloses _ _).1 h
        rw [if_neg (by simp [opens_of_closes hcloses]), if_pos hcloses]
        rw [List.length_cons] at hdepth
        split
        · exact ⟨_, rfl, by omega⟩
        split
        · exact ⟨_, rfl, by omega⟩
        · exact further hdue (Nat.sub_le_of_le_add hdepth)
      · rw [nests_plain hplain] at h
        rw [Kind.isBracket, Bool.or_eq_false_iff] at hplain
        rw [if_neg (by simp [hplain.1]), if_neg (by simp [hplain.2])]
        split
        · exact ⟨_, rfl, by omega⟩
        · exact further h hdepth

/-! ## Lists -/

/-- Items written one after another, with a separator between two of them. -/
inductive Listing {α β : Type} (written : α → List β) (separates : β → Prop) :
    List α → List β → Prop where
  | single (a : α) : Listing written separates [a] (written a)
  | cons {as : List α} {us : List β} (a : α) {sep : β} (between : separates sep)
      (more : Listing written separates as us) :
      Listing written separates (a :: as) (written a ++ sep :: us)

/-- What an item is written with is in the list. -/
theorem Listing.mem {α β : Type} {written : α → List β} {separates : β → Prop} {as : List α}
    {us : List β} (h : Listing written separates as us) {a : α} (ha : a ∈ as) {b : β}
    (hb : b ∈ written a) : b ∈ us := by
  induction h with
  | single q => exact List.mem_singleton.1 ha ▸ hb
  | cons q between more ih =>
      rcases List.mem_cons.1 ha with rfl | ha
      · exact List.mem_append_left _ hb
      · exact List.mem_append_right _ (List.mem_cons_of_mem _ (ih ha))

end Outline

end DocLint
