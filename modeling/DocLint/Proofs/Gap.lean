import DocLint.Proofs.Items
import DocLint.Proofs.Trivia

/-!
# Gaps between a modifier and a variable

Between the modifiers of a property and its variable there may be tokens that no search stops at and
that no search counts. What is found in the tokens without such a gap is found in all of them, with
the indexes behind the gap moved up.

* `IsQuiet`: tokens that no search stops at; `Gap`: a modifier and a variable with such tokens
  between them.
* `Gap.tokens`, `Gap.narrow`: the tokens, and those without the gap; `Gap.up`: where an index goes.
* `Widens`: lists of tokens with their indexes that differ by quiet tokens; `Widens.scan`: a search
  in both.
* `matchingClose_up`, `bodyFrom_up`, `statementEnd_up`, `firstVariable?_up`, `propertyNames_up`,
  `nextSignificant?_up`, `prevSignificant?_up`: the searches of the recognisers.
-/

namespace DocLint.Outline

/-- No search stops at the token, and none counts it. -/
def IsQuiet (t : Token) : Prop :=
  t.kind.isBracket = false ∧ t.kind ≠ .comma ∧ t.kind ≠ .dollarName ∧ endsPropertyHead t = false

/-- A modifier and a variable with quiet tokens between them. -/
structure Gap where
  front : List Token
  word : Token
  between : List Token
  name : Token
  back : List Token
  isWord : word.isModifier = true
  isName : name.kind = .dollarName
  quiet : ∀ t ∈ between, IsQuiet t

/-- The tokens from an index on, with their indexes. -/
def tokensFrom (ts : List Token) (start : Nat) : List Placed := (ts.drop start).zipIdx start

theorem tokensFrom_eq_append {ts us rest : List Token} (h : ts = us ++ rest) {start : Nat}
    (hs : start ≤ us.length) :
    tokensFrom ts start = (us.drop start).zipIdx start ++ tokensFrom ts us.length := by
  have hlength : start + (us.drop start).length = us.length := by
    rw [List.length_drop]
    omega
  rw [h, tokensFrom, tokensFrom, List.drop_append_of_le_length hs, List.zipIdx_append, hlength,
    List.drop_left]

theorem IsQuiet.kind_ne {t : Token} (h : IsQuiet t) :
    t.kind.opens = false ∧ t.kind.closes = false ∧ t.kind ≠ .semicolon := by
  obtain ⟨hbracket, _, _, hhead⟩ := h
  rw [Kind.isBracket, Bool.or_eq_false_iff] at hbracket
  refine ⟨hbracket.1, hbracket.2, fun hkind => ?_⟩
  rw [endsPropertyHead, hkind, Bool.or_true] at hhead
  cases hhead

namespace Gap

variable (g : Gap)

/-- The tokens up to the modifier. -/
def head : List Token := g.front ++ [g.word]

/-- The tokens from the variable on. -/
def tail : List Token := g.name :: g.back

/-- All tokens. -/
def tokens : List Token := g.head ++ (g.between ++ g.tail)

/-- The tokens without the gap, and without their places. -/
def narrow : List Token := (g.head ++ g.tail).map bare

/-- Where an index of the narrow list goes. -/
def up (k : Nat) : Nat := if k ≤ g.front.length then k else k + g.between.length

/-! ## Indexes -/

theorem up_of_le {k : Nat} (h : k ≤ g.front.length) : g.up k = k := if_pos h

theorem up_of_lt {k : Nat} (h : g.front.length < k) : g.up k = k + g.between.length :=
  if_neg (by omega)

@[simp]
theorem up_lt_up {j k : Nat} : g.up j < g.up k ↔ j < k := by
  unfold up
  split <;> split <;> omega

@[simp]
theorem up_le_up {j k : Nat} : g.up j ≤ g.up k ↔ j ≤ k := by
  unfold up
  split <;> split <;> omega

theorem up_succ {k : Nat} (h : k ≠ g.front.length) : g.up (k + 1) = g.up k + 1 := by
  unfold up
  split <;> split <;> omega

theorem up_pred {k : Nat} (h : k ≠ g.front.length + 1) : g.up (k - 1) = g.up k - 1 := by
  unfold up
  split <;> split <;> omega

theorem up_max (j k : Nat) : g.up (max j k) = max (g.up j) (g.up k) := by
  rcases Nat.le_total j k with h | h
  · rw [Nat.max_eq_right h, Nat.max_eq_right (g.up_le_up.2 h)]
  · rw [Nat.max_eq_left h, Nat.max_eq_left (g.up_le_up.2 h)]

@[simp]
theorem length_head : g.head.length = g.front.length + 1 := by simp [head]

theorem length_narrow : g.narrow.length = g.front.length + 2 + g.back.length := by
  simp only [narrow, tail, List.length_map, List.length_append, List.length_cons, length_head]
  omega

theorem length_tokens : g.tokens.length = g.narrow.length + g.between.length := by
  simp only [length_narrow, tokens, tail, List.length_append, List.length_cons, length_head]
  omega

theorem getElem?_up (k : Nat) : g.tokens[g.up k]?.map bare = g.narrow[k]? := by
  rw [narrow, List.getElem?_map, tokens]
  congr 1
  rcases Nat.lt_or_ge g.front.length k with h | h
  · rw [g.up_of_lt h, List.getElem?_append_right (by rw [length_head]; omega),
      List.getElem?_append_right (by rw [length_head]; omega),
      List.getElem?_append_right (by rw [length_head]; omega), length_head]
    congr 1
    omega
  · rw [g.up_of_le h, List.getElem?_append_left (by rw [length_head]; omega),
      List.getElem?_append_left (by rw [length_head]; omega)]

theorem getElem?_narrow {k : Nat} {t : Token} (h : g.tokens[g.up k]? = some t) :
    g.narrow[k]? = some (bare t) := by
  rw [← getElem?_up, h]
  rfl

theorem lastIndex_up : lastIndex g.tokens = g.up (lastIndex g.narrow) := by
  have hlength := g.length_narrow
  rw [lastIndex, lastIndex, g.up_of_lt (by omega), length_tokens]
  omega

theorem getElem?_word : g.tokens[g.front.length]? = some g.word := by
  rw [tokens, List.getElem?_append_left (by rw [length_head]; omega), head]
  simp

theorem getElem?_narrow_word : g.narrow[g.front.length]? = some (bare g.word) :=
  g.getElem?_narrow (by rw [g.up_of_le (Nat.le_refl _), getElem?_word])

theorem getElem?_name : g.tokens[g.up (g.front.length + 1)]? = some g.name := by
  rw [g.up_of_lt (Nat.lt_succ_self _), tokens,
    List.getElem?_append_right (by rw [length_head]; omega), length_head,
    List.getElem?_append_right (by omega)]
  simp [tail]

end Gap

/-! ## Lists that differ by quiet tokens -/

/-- A token of the narrow list, and the same token moved up. -/
inductive Gap.Moves (g : Gap) : Placed → Placed → Prop where
  | token (t : Token) (k : Nat) : Moves g (bare t, k) (t, g.up k)

/-- The second list has the tokens of the first one, moved up, and quiet tokens besides. The token
in front of a bracket that closes a group moves up with the bracket. -/
inductive Widens (g : Gap) : List Placed → List Placed → Prop where
  | nil : Widens g [] []
  | keep {l l' : List Placed} (t : Token) (k : Nat)
      (closes : t.kind.closes = true → g.up (k - 1) = g.up k - 1) (more : Widens g l l') :
      Widens g ((bare t, k) :: l) ((t, g.up k) :: l')
  | pass {l l' : List Placed} (q : Placed) (quiet : IsQuiet q.1) (more : Widens g l l') :
      Widens g l (q :: l')

namespace Widens

variable {g : Gap} {l l' : List Placed}

/-- A search that passes over quiet tokens finds the same in both lists. -/
theorem scan {σ β : Type} (F F' : σ → List Placed → β) (R : β → β → Prop)
    (nil : ∀ s, R (F s []) (F' s []))
    (pass : ∀ s q r, IsQuiet q.1 → F' s (q :: r) = F' s r)
    (keep : ∀ s t k r r', (t.kind.closes = true → g.up (k - 1) = g.up k - 1) →
      (∀ s, R (F s r) (F' s r')) → R (F s ((bare t, k) :: r)) (F' s ((t, g.up k) :: r')))
    (h : Widens g l l') (s : σ) : R (F s l) (F' s l') := by
  induction h generalizing s with
  | nil => exact nil s
  | keep t k closes _ ih => exact keep s t k _ _ closes ih
  | pass q quiet _ ih =>
      rw [pass s q _ quiet]
      exact ih s

/-- Tokens that move up together. -/
theorem append {us us' : List Placed} (hmoves : List.Forall₂ g.Moves us us')
    (hus : ∀ p ∈ us, g.narrow[p.2]? = some p.1) (h : Widens g l l') :
    Widens g (us ++ l) (us' ++ l') := by
  induction hmoves with
  | nil => exact h
  | cons hmove _ ih =>
      obtain ⟨t, k⟩ := hmove
      obtain ⟨hp, hmore⟩ := List.forall_mem_cons.1 hus
      refine .keep t k (fun hcloses => g.up_pred fun hk => ?_) (ih hmore)
      -- the variable does not close a group
      have hname := g.getElem?_narrow g.getElem?_name
      rw [← hk, hp, Option.some.injEq] at hname
      have hkind : (bare t).kind.closes = (bare g.name).kind.closes := by rw [← hname]
      have hclosed : (bare g.name).kind.closes = true := hkind ▸ hcloses
      rw [show (bare g.name).kind = .dollarName from g.isName] at hclosed
      cases hclosed

theorem pass_all {us : List Token} (hus : ∀ t ∈ us, IsQuiet t) (j : Nat) (h : Widens g l l') :
    Widens g l (us.zipIdx j ++ l') := by
  induction us generalizing j with
  | nil => exact h
  | cons t us ih =>
      obtain ⟨ht, hus⟩ := List.forall_mem_cons.1 hus
      exact .pass (t, j) ht (ih hus (j + 1))

end Widens

namespace Gap

variable (g : Gap)

theorem drop_narrow (d : Nat) :
    g.narrow.drop (g.front.length + 1 + d) = (g.tail.drop d).map bare := by
  rw [narrow, List.map_append, List.drop_append, List.length_map, length_head,
    Nat.add_sub_cancel_left, List.drop_eq_nil_of_le (by simp), List.nil_append, List.map_drop]

theorem drop_tokens (d : Nat) :
    g.tokens.drop (g.front.length + 1 + d) = (g.between ++ g.tail).drop d := by
  rw [tokens, List.drop_append, length_head, Nat.add_sub_cancel_left,
    List.drop_eq_nil_of_le (by simp), List.nil_append]

theorem moves_zipIdx {us : List Token} {j j' : Nat}
    (hup : ∀ d < us.length, g.up (j + d) = j' + d) :
    List.Forall₂ g.Moves ((us.map bare).zipIdx j) (us.zipIdx j') := by
  induction us generalizing j j' with
  | nil => exact .nil
  | cons t us ih =>
      have hhere : g.up j = j' := hup 0 (Nat.zero_lt_succ _)
      have hmore : ∀ d < us.length, g.up (j + 1 + d) = j' + 1 + d := by
        intro d hd
        have := hup (d + 1) (Nat.succ_lt_succ hd)
        rwa [← Nat.add_assoc, ← Nat.add_assoc, Nat.add_right_comm, Nat.add_right_comm j'] at this
      rw [List.map_cons, List.zipIdx_cons, List.zipIdx_cons]
      refine .cons ?_ (ih hmore)
      rw [← hhere]
      exact .token t j

/-- The tokens behind the gap. -/
theorem moves_tail {s : Nat} (h : g.front.length < s) :
    List.Forall₂ g.Moves (tokensFrom g.narrow s) (tokensFrom g.tokens (g.up s)) := by
  obtain ⟨d, rfl⟩ := Nat.exists_eq_add_of_le h
  have hdrop : g.tokens.drop (g.up (g.front.length + 1 + d)) = g.tail.drop d := by
    rw [g.up_of_lt h, Nat.add_assoc, drop_tokens, List.drop_append,
      List.drop_eq_nil_of_le (Nat.le_add_left _ _), List.nil_append, Nat.add_sub_cancel]
  rw [tokensFrom, tokensFrom, drop_narrow, hdrop]
  refine g.moves_zipIdx fun e _ => ?_
  rw [g.up_of_lt (by omega), g.up_of_lt h]
  omega

/-- The tokens from an index on up to the modifier. -/
theorem moves_head (s : Nat) :
    List.Forall₂ g.Moves ((g.head.drop s).map bare |>.zipIdx s) ((g.head.drop s).zipIdx s) := by
  refine g.moves_zipIdx fun d hd => g.up_of_le ?_
  rw [List.length_drop, length_head] at hd
  omega

/-- Up to the modifier both lists have the same tokens. -/
theorem tokensFrom_head {s : Nat} (h : s ≤ g.front.length) :
    tokensFrom g.narrow s =
        ((g.head.drop s).map bare).zipIdx s ++ tokensFrom g.narrow (g.front.length + 1) ∧
      tokensFrom g.tokens s =
        (g.head.drop s).zipIdx s ++ tokensFrom g.tokens (g.front.length + 1) := by
  have hs : s ≤ g.head.length := by
    rw [length_head]
    omega
  have hnarrow : g.narrow = g.head.map bare ++ g.tail.map bare := List.map_append
  have htokens : g.tokens = g.head ++ (g.between ++ g.tail) := rfl
  constructor
  · rw [tokensFrom_eq_append hnarrow (by rwa [List.length_map]), List.length_map, length_head,
      List.map_drop]
  · rw [tokensFrom_eq_append htokens hs, length_head]

theorem widens_tail {s : Nat} (h : g.front.length < s) :
    Widens g (tokensFrom g.narrow s) (tokensFrom g.tokens (g.up s)) := by
  have hwidens := Widens.append (g.moves_tail h)
    (fun p hp => (getElem?_of_mem_zipIdx_drop hp).1) .nil
  rwa [List.append_nil, List.append_nil] at hwidens

/-- The tokens behind the modifier. -/
theorem widens_gap :
    Widens g (tokensFrom g.narrow (g.front.length + 1))
      (tokensFrom g.tokens (g.front.length + 1)) := by
  have htail := g.widens_tail (Nat.lt_succ_self _)
  have htokens : tokensFrom g.tokens (g.front.length + 1) =
      g.between.zipIdx (g.front.length + 1) ++ tokensFrom g.tokens (g.up (g.front.length + 1)) := by
    have hgap := g.drop_tokens 0
    have hbehind := g.drop_tokens g.between.length
    rw [Nat.add_zero, List.drop_zero] at hgap
    rw [List.drop_left] at hbehind
    rw [tokensFrom, tokensFrom, hgap, List.zipIdx_append, g.up_of_lt (Nat.lt_succ_self _), hbehind]
  rw [htokens]
  exact .pass_all g.quiet _ htail

theorem widens_from (s : Nat) :
    Widens g (tokensFrom g.narrow s) (tokensFrom g.tokens (g.up s)) := by
  rcases Nat.lt_or_ge g.front.length s with h | h
  · exact g.widens_tail h
  · obtain ⟨hnarrow, htokens⟩ := g.tokensFrom_head h
    have hmem : ∀ p ∈ ((g.head.drop s).map bare).zipIdx s, g.narrow[p.2]? = some p.1 := by
      intro p hp
      have hp : p ∈ tokensFrom g.narrow s := hnarrow ▸ List.mem_append_left _ hp
      exact (getElem?_of_mem_zipIdx_drop hp).1
    rw [g.up_of_le h, hnarrow, htokens]
    exact Widens.append (g.moves_head s) hmem g.widens_gap

theorem widens_succ (k : Nat) :
    Widens g (tokensFrom g.narrow (k + 1)) (tokensFrom g.tokens (g.up k + 1)) := by
  by_cases hk : k = g.front.length
  · rw [hk, g.up_of_le (Nat.le_refl _)]
    exact g.widens_gap
  · rw [← g.up_succ hk]
    exact g.widens_from (k + 1)

end Gap

/-! ## Searches -/

/-- The search for a closing bracket, over tokens with their indexes. -/
def closeOf (pair : Kind × Kind) : Nat → List Placed → Option Nat
  | _, [] => none
  | depth, (t, j) :: r =>
    if t.kind = pair.1 then closeOf pair (depth + 1) r
    else if t.kind = pair.2 then if depth ≤ 1 then some j else closeOf pair (depth - 1) r
    else closeOf pair depth r

theorem closeFrom_eq_closeOf (pair : Kind × Kind) (depth j : Nat) (us : List Token) :
    closeFrom pair depth j us = closeOf pair depth (us.zipIdx j) := by
  induction us generalizing depth j with
  | nil => rfl
  | cons t us ih =>
      rw [closeFrom, List.zipIdx_cons, closeOf]
      simp only [ih]

theorem slice_eq_filter (ts : List Token) (first last : Nat) :
    slice ts first last = (tokensFrom ts first).filter fun p => p.2 ≤ last := by
  rw [slice, tokensFrom]
  generalize ts.drop first = us
  induction us generalizing first with
  | nil => simp
  | cons t us ih =>
      rw [List.zipIdx_cons]
      by_cases h : first ≤ last
      · rw [List.filter_cons_of_pos (by simpa using h), ← ih, Nat.succ_sub h, List.take_succ_cons,
          Nat.succ_sub_succ_eq_sub]
      · have hnone : ∀ n, first ≤ n → last + 1 - n = 0 := fun n hn => by omega
        rw [List.filter_cons_of_neg (by simpa using h), ← ih, hnone first (Nat.le_refl _),
          hnone (first + 1) (Nat.le_succ _), List.take_zero, List.take_zero]

namespace Gap

variable (g : Gap) {t : Token}

theorem closeOf_up (kind : Kind) {l l' : List Placed} (h : Widens g l l') (depth : Nat) :
    closeOf (pairOf kind) depth l' = (closeOf (pairOf kind) depth l).map g.up := by
  refine Widens.scan (closeOf (pairOf kind)) (closeOf (pairOf kind)) (fun a b => b = a.map g.up)
    (fun _ => rfl) ?_ ?_ h depth
  · intro depth q r hq
    obtain ⟨hopens, hcloses, _⟩ := hq.kind_ne
    have hopen : q.1.kind ≠ (pairOf kind).1 := fun heq => by
      rw [heq, (opens_pairOf kind).1] at hopens
      cases hopens
    have hclose : q.1.kind ≠ (pairOf kind).2 := fun heq => by
      rw [heq, (closes_pairOf kind).1] at hcloses
      cases hcloses
    rw [closeOf, if_neg hopen, if_neg hclose]
  · intro depth t k r r' _ ih
    have hkind : (bare t).kind = t.kind := rfl
    rw [closeOf, closeOf, hkind]
    split
    · exact ih _
    · split
      · split
        · rfl
        · exact ih _
      · exact ih _

/-- **Where a group ends.** -/
theorem matchingClose_up {o : Nat} (ht : g.tokens[g.up o]? = some t) :
    matchingClose g.tokens (g.up o) = g.up (matchingClose g.narrow o) := by
  have hclose := g.closeOf_up t.kind (g.widens_from o) 0
  rw [matchingClose_eq ht, matchingClose_eq (g.getElem?_narrow ht), closeFrom_eq_closeOf,
    closeFrom_eq_closeOf, lastIndex_up]
  show (closeOf (pairOf t.kind) 0 (tokensFrom g.tokens (g.up o))).getD _ =
    g.up ((closeOf (pairOf t.kind) 0 (tokensFrom g.narrow o)).getD _)
  rw [hclose]
  cases closeOf (pairOf t.kind) 0 (tokensFrom g.narrow o) with
  | none => rfl
  | some m => rfl

/-- A search for a kind of token that is not quiet. -/
theorem find?_up {P : Kind → Bool} (hP : ∀ t, IsQuiet t → P t.kind = false) {l l' : List Placed}
    (h : Widens g l l') :
    Option.Rel g.Moves (l.find? fun p => P p.1.kind) (l'.find? fun p => P p.1.kind) := by
  refine Widens.scan (fun _ : Unit => List.find? fun p => P p.1.kind)
    (fun _ : Unit => List.find? fun p => P p.1.kind) (Option.Rel g.Moves) (fun _ => .none)
    ?_ ?_ h ()
  · intro _ q r hq
    rw [List.find?_cons_of_neg (by simp [hP q.1 hq])]
  · intro _ t k r r' _ ih
    have hkind : (bare t).kind = t.kind := rfl
    simp only [List.find?_cons, hkind]
    split
    · exact .some (.token t k)
    · exact ih ()

/-- **The body or the semicolon behind a signature.** -/
theorem bodyFrom_up (k : Nat) :
    bodyFrom g.tokens (g.up k + 1) =
      ⟨(bodyFrom g.narrow (k + 1)).opening.map g.up, g.up (bodyFrom g.narrow (k + 1)).last⟩ := by
  have hquiet : ∀ t, IsQuiet t → (t.kind == .openBrace || t.kind == .semicolon) = false := by
    intro t ht
    obtain ⟨hopens, _, hsemi⟩ := ht.kind_ne
    have hbrace : t.kind ≠ .openBrace := fun heq => by rw [heq] at hopens; cases hopens
    simp [hbrace, hsemi]
  have hfind := g.find?_up (P := fun k => k == .openBrace || k == .semicolon) hquiet
    (g.widens_succ k)
  have hat : ∀ p ∈ (tokensFrom g.tokens (g.up k + 1)).find?
      fun p => p.1.kind == .openBrace || p.1.kind == .semicolon, g.tokens[p.2]? = some p.1 :=
    fun p hp => (getElem?_of_mem_zipIdx_drop (List.mem_of_find?_eq_some hp)).1
  unfold bodyFrom
  unfold tokensFrom at hfind hat
  generalize List.find? _ ((g.narrow.drop (k + 1)).zipIdx (k + 1)) = a at hfind ⊢
  generalize List.find? _ ((g.tokens.drop (g.up k + 1)).zipIdx (g.up k + 1)) = b at hfind hat ⊢
  cases hfind with
  | none => simp only [Option.map_none, lastIndex_up]
  | some hmoves =>
      obtain ⟨t, j⟩ := hmoves
      have hkind : (bare t).kind = t.kind := rfl
      simp only [hkind]
      split
      · simp only [Option.map_some, g.matchingClose_up (hat _ rfl)]
      · rfl

theorem endOf_up (start : Nat) {l l' : List Placed} (h : Widens g l l') (depth : Nat) :
    endOf (g.up start) depth l' = (endOf start depth l).map g.up := by
  refine Widens.scan (endOf start) (endOf (g.up start)) (fun a b => b = a.map g.up) (fun _ => rfl)
    ?_ ?_ h depth
  · intro depth q r hq
    obtain ⟨hopens, hcloses, hsemi⟩ := hq.kind_ne
    rw [endOf, if_neg (by simp [hopens]), if_neg (by simp [hcloses]), if_neg (by simp [hsemi])]
  · intro depth t k r r' hclose ih
    have hkind : (bare t).kind = t.kind := rfl
    rw [endOf, endOf, hkind]
    split
    · exact ih _
    split
    · rename_i hcloses
      split
      · rw [← hclose hcloses, ← up_max]
        rfl
      split
      · rfl
      · exact ih _
    split
    · rfl
    · exact ih _

/-- **Where a statement ends.** -/
theorem statementEnd_up (s : Nat) :
    statementEnd g.tokens (g.up s) = g.up (statementEnd g.narrow s) := by
  have hend := g.endOf_up s (g.widens_from s) 0
  rw [statementEnd, statementEnd, statementEndFrom_eq_endOf, statementEndFrom_eq_endOf,
    lastIndex_up]
  unfold tokensFrom at hend
  rw [hend]
  cases endOf s 0 ((g.narrow.drop s).zipIdx s) with
  | none => rfl
  | some m => rfl

/-- **The first variable behind a modifier.** -/
theorem firstVariable?_up (k : Nat) :
    firstVariable? (tokensFrom g.tokens (g.up k + 1)) =
      (firstVariable? (tokensFrom g.narrow (k + 1))).map g.up := by
  refine Widens.scan (fun _ : Unit => firstVariable?) (fun _ : Unit => firstVariable?)
    (fun a b => b = a.map g.up) (fun _ => rfl) ?_ ?_ (g.widens_succ k) ()
  · intro _ q r hq
    obtain ⟨_, _, hname, hhead⟩ := hq
    rw [firstVariable?, if_neg hname, hhead]
    split
    · rfl
    · rfl
  · intro _ t k r r' _ ih
    have hsame : (bare t).isSignificant = t.isSignificant ∧ (bare t).kind = t.kind ∧
        endsPropertyHead (bare t) = endsPropertyHead t := ⟨rfl, rfl, rfl⟩
    rw [firstVariable?, firstVariable?, hsame.1, hsame.2.1, hsame.2.2]
    split
    · exact ih ()
    split
    · rfl
    split
    · rfl
    · exact ih ()

theorem widens_filter {l l' : List Placed} (h : Widens g l l') (e : Nat) :
    Widens g (l.filter fun p => p.2 ≤ e) (l'.filter fun p => p.2 ≤ g.up e) := by
  induction h with
  | nil => exact .nil
  | keep t k closes _ ih =>
      by_cases hk : k ≤ e
      · rw [List.filter_cons_of_pos (by simpa using hk),
          List.filter_cons_of_pos (by simpa using hk)]
        exact .keep t k closes ih
      · rw [List.filter_cons_of_neg (by simpa using hk),
          List.filter_cons_of_neg (by simpa using hk)]
        exact ih
  | pass q quiet _ ih =>
      by_cases hq : q.2 ≤ g.up e
      · rw [List.filter_cons_of_pos (by simpa using hq)]
        exact .pass q quiet ih
      · rw [List.filter_cons_of_neg (by simpa using hq)]
        exact ih

/-- **The names of a property statement.** -/
theorem propertyNames_up (s e : Nat) :
    (propertyNames 0 true (slice g.tokens (g.up s) (g.up e))).map (·.1.text) =
      (propertyNames 0 true (slice g.narrow s e)).map (·.1.text) := by
  rw [slice_eq_filter, slice_eq_filter]
  refine Widens.scan (fun s : Nat × Bool => propertyNames s.1 s.2)
    (fun s : Nat × Bool => propertyNames s.1 s.2)
    (fun a b => b.map (·.1.text) = a.map (·.1.text)) (fun _ => rfl) ?_ ?_
    (g.widens_filter (g.widens_from s) e) (0, true)
  · intro s q r hq
    obtain ⟨hopens, hcloses, _⟩ := hq.kind_ne
    obtain ⟨_, hcomma, hname, _⟩ := hq
    simp [propertyNames, hopens, hcloses, hcomma, hname]
  · intro s t k r r' _ ih
    have ih : ∀ d w, (propertyNames d w r').map (·.1.text) = (propertyNames d w r).map (·.1.text) :=
      fun d w => ih (d, w)
    have hkind : (bare t).kind = t.kind := rfl
    simp only [propertyNames, hkind]
    split
    · exact ih _ _
    split
    · exact ih _ _
    split
    · exact ih _ _
    split
    · rw [List.map_cons, List.map_cons, ih]
      rfl
    · exact ih _ _

/-! ## The next significant token and the last one -/

theorem find?_moves {P : Token → Bool} (hP : ∀ t, P (bare t) = P t) {l l' : List Placed}
    (h : List.Forall₂ g.Moves l l') :
    Option.Rel g.Moves (l.find? (P ·.1)) (l'.find? (P ·.1)) := by
  induction h with
  | nil => exact .none
  | cons hmove _ ih =>
      obtain ⟨t, k⟩ := hmove
      simp only [List.find?_cons, hP]
      split
      · exact .some (.token t k)
      · exact ih

theorem isSignificant_word : g.word.isSignificant = true :=
  Token.isSignificant_of_kind (Token.kind_of_isModifier g.isWord) rfl

theorem isSignificant_name : g.name.isSignificant = true := Token.isSignificant_of_kind g.isName rfl

theorem nextSignificant?_from (s : Nat) :
    Option.Rel g.Moves (nextSignificant? g.narrow s) (nextSignificant? g.tokens (g.up s)) := by
  rcases Nat.lt_or_ge g.front.length s with h | h
  · exact g.find?_moves (fun _ => rfl) (g.moves_tail h)
  · -- the search ends with the modifier at the latest
    obtain ⟨hnarrow, htokens⟩ := g.tokensFrom_head h
    have hmoves := g.find?_moves (P := Token.isSignificant) (fun _ => rfl) (g.moves_head s)
    have hfound : ((g.head.drop s).zipIdx s).find? (·.1.isSignificant) ≠ none := by
      intro hnone
      have hmem : (g.word, g.front.length) ∈ (g.head.drop s).zipIdx s := by
        rw [List.mk_mem_zipIdx_iff_le_and_getElem?_sub, List.getElem?_drop, Nat.add_sub_of_le h]
        exact ⟨h, by simp [head]⟩
      exact absurd g.isSignificant_word (by simpa using List.find?_eq_none.1 hnone _ hmem)
    show Option.Rel g.Moves ((tokensFrom g.narrow s).find? _)
      ((tokensFrom g.tokens (g.up s)).find? _)
    rw [g.up_of_le h, hnarrow, htokens, List.find?_append, List.find?_append]
    generalize List.find? _ (((g.head.drop s).map bare).zipIdx s) = a at hmoves ⊢
    generalize List.find? _ ((g.head.drop s).zipIdx s) = b at hmoves hfound ⊢
    cases hmoves with
    | none => exact absurd rfl hfound
    | some hmove => exact .some hmove

/-- The next significant token behind any token but the modifier. -/
theorem nextSignificant?_up {k : Nat} (h : k ≠ g.front.length) :
    Option.Rel g.Moves (nextSignificant? g.narrow (k + 1))
      (nextSignificant? g.tokens (g.up k + 1)) := by
  rw [← g.up_succ h]
  exact g.nextSignificant?_from (k + 1)

theorem find?_reverse_append {P : Token → Bool} {t : Token} (ht : P t = true) (us vs : List Token) :
    (us ++ t :: vs).reverse.find? P = (vs.reverse.find? P).or (some t) := by
  rw [List.reverse_append, List.reverse_cons, List.append_assoc, List.singleton_append,
    List.find?_append, List.find?_cons_of_pos ht]

/-- The last significant token in front of any token but the variable. -/
theorem prevSignificant?_up {k : Nat} (h : k ≠ g.front.length + 1) :
    (prevSignificant? g.tokens (g.up k)).map bare = prevSignificant? g.narrow k := by
  have hbare : ∀ us : List Token, ((us.map bare).reverse.find? (·.isSignificant)) =
      (us.reverse.find? (·.isSignificant)).map bare := by
    intro us
    rw [← List.map_reverse, List.find?_map]
    rfl
  unfold prevSignificant?
  rw [narrow, ← List.map_take, hbare]
  congr 1
  rcases Nat.lt_or_ge g.front.length k with hk | hk
  · -- the variable stands behind the gap, so that the search does not reach it
    obtain ⟨d, rfl⟩ := Nat.exists_eq_add_of_le (show g.front.length + 1 + 1 ≤ k by omega)
    have htail : ∀ us : List Token,
        (g.head ++ (us ++ g.tail)).take (g.front.length + 1 + 1 + d + us.length) =
          g.head ++ us ++ g.name :: g.back.take d := by
      intro us
      have hsplit : g.head ++ (us ++ g.tail) = (g.head ++ us ++ [g.name]) ++ g.back := by
        simp [tail]
      have hlength : g.front.length + 1 + 1 + d + us.length =
          (g.head ++ us ++ [g.name]).length + d := by
        simp only [List.length_append, length_head, List.length_singleton]
        omega
      rw [hsplit, hlength, List.take_length_add_append, List.append_assoc, List.singleton_append]
    have hnarrow := htail []
    have htokens := htail g.between
    rw [List.nil_append, List.length_nil, Nat.add_zero, List.append_nil] at hnarrow
    rw [g.up_of_lt hk, tokens, htokens, hnarrow, find?_reverse_append g.isSignificant_name,
      find?_reverse_append g.isSignificant_name]
  · rw [g.up_of_le hk, tokens, List.take_append_of_le_length (by rw [length_head]; omega),
      List.take_append_of_le_length (by rw [length_head]; omega)]

theorem any_prevSignificant?_up {k : Nat} (h : k ≠ g.front.length + 1) {P : Token → Bool}
    (hP : ∀ t, P (bare t) = P t) :
    (prevSignificant? g.tokens (g.up k)).any P = (prevSignificant? g.narrow k).any P := by
  rw [← g.prevSignificant?_up h]
  cases prevSignificant? g.tokens (g.up k) with
  | none => rfl
  | some u => exact (hP u).symm

theorem kind_of_find? {us rest : List Token} (hus : ∀ t ∈ us, IsQuiet t) {x : Token}
    (hx : x.kind = .dollarName) (n : Nat) :
    ∀ p ∈ ((us ++ x :: rest).zipIdx n).find? (·.1.isSignificant), p.1.kind ≠ .openParen := by
  induction us generalizing n with
  | nil =>
      intro p hp
      rw [List.nil_append, List.zipIdx_cons,
        List.find?_cons_of_pos (by exact Token.isSignificant_of_kind hx rfl)] at hp
      cases hp
      rw [hx]
      decide
  | cons t us ih =>
      obtain ⟨ht, hus⟩ := List.forall_mem_cons.1 hus
      intro p hp
      rw [List.cons_append, List.zipIdx_cons, List.find?_cons] at hp
      split at hp
      · cases hp
        intro hparen
        have hbracket := ht.1
        rw [show t.kind = .openParen from hparen] at hbracket
        cases hbracket
      · exact ih hus (n + 1) p hp

/-- No parenthesis follows the modifier. -/
theorem kind_behind_word :
    (∀ p ∈ nextSignificant? g.narrow (g.front.length + 1), p.1.kind ≠ .openParen) ∧
      ∀ p ∈ nextSignificant? g.tokens (g.front.length + 1), p.1.kind ≠ .openParen := by
  have hnarrow := g.drop_narrow 0
  have htokens := g.drop_tokens 0
  rw [Nat.add_zero, List.drop_zero] at hnarrow htokens
  unfold nextSignificant?
  rw [hnarrow, htokens]
  constructor
  · exact @kind_of_find? [] (g.back.map bare) (fun _ h => absurd h List.not_mem_nil) (bare g.name)
      g.isName _
  · exact kind_of_find? g.quiet g.isName _

end Gap

end DocLint.Outline
