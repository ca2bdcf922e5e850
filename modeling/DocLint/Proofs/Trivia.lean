import DocLint.Proofs.Enclosure
import DocLint.Proofs.Nesting
import DocLint.Proofs.Reword

/-!
# Trivia and declarations

Blanks, comments, open tags and attribute groups have no part in what a file declares. The pass over
all tokens and the pass over the significant ones go side by side: where one of them takes a token
without significance the other one waits.

* `Declaration.unplaced`: what is left of a declaration without its place and its documentation.
* `ParensClosed`: every open parenthesis is closed.
* `Agrees`: two recognitions that declare the same, open the same body and go on at the same token;
  `recognize_rank` says that the recognisers agree on both lists.
* `Synced`: what the two passes have in common; `synced` by induction over the tokens.
* `declared_eq_of_significant_eq`: the same significant tokens declare the same.

The last significant token is apart: in one list it is the last token, in the other one it may not be,
so that a body without its brace holds it in one list only. Nothing is declared there
(`Recognized.declarations_eq_nil`).
-/

namespace DocLint

/-- The declaration without its place and its documentation. -/
def Declaration.unplaced : Declaration → Declaration
  | classLike d => classLike { d with span := ⟨0, 0⟩, body := none, doc := none }
  | function d => function { d with span := ⟨0, 0⟩, body := none, doc := none }
  | property d => property { d with span := ⟨0, 0⟩, nameToken := 0, doc := none }
  | constant d => constant { d with span := ⟨0, 0⟩, nameToken := 0, doc := none }

namespace Outline

/-! ## Closed parentheses -/

/-- Every open parenthesis is closed: from it on there are tokens among which as many parentheses
close as open. -/
def ParensClosed (ts : List Token) : Prop :=
  ∀ o < ts.length, ts[o]?.map (·.kind) = some .openParen → ∃ n ≤ ts.length, 0 < n ∧
    ((ts.drop o).take n).countP (·.kind == .openParen) =
      ((ts.drop o).take n).countP (·.kind == .closeParen)

instance (ts : List Token) : Decidable (ParensClosed ts) :=
  inferInstanceAs (Decidable (∀ o < ts.length, _ → ∃ n ≤ ts.length, _ ∧ _))

theorem ParensClosed.closeFrom {ts : List Token} {o : Nat} {t : Token} (h : ParensClosed ts)
    (ht : ts[o]? = some t) (hkind : t.kind = .openParen) :
    ∃ m, closeFrom (pairOf t.kind) 0 o (ts.drop o) = some m ∧ o < m := by
  obtain ⟨ho, rfl⟩ := List.getElem?_eq_some_iff.1 ht
  rw [hkind, List.drop_eq_getElem_cons ho, Outline.closeFrom, if_pos (by rw [hkind]; rfl)]
  cases hm : Outline.closeFrom (pairOf .openParen) (0 + 1) (o + 1) (ts.drop (o + 1)) with
  | some m => exact ⟨m, rfl, le_closeFrom hm⟩
  | none =>
      obtain ⟨n, _, hpos, hcount⟩ := h o ho (by rw [ht, Option.map_some, hkind])
      have hlater : ∀ m,
          Outline.closeFrom (pairOf .openParen) 1 (o + 1) (ts.drop (o + 1)) = some m →
          o + 1 + (n - 1) ≤ m := by
        intro m hm'
        rw [hm] at hm'
        cases hm'
      have hlt := countP_lt_of_closeFrom (by decide) Nat.one_pos hlater
      simp only [pairOf] at hlt
      rw [List.drop_eq_getElem_cons ho, show n = n - 1 + 1 by omega, List.take_succ_cons,
        List.countP_cons, List.countP_cons, hkind] at hcount
      simp at hcount
      omega

/-! ## Recognitions that agree -/

/-- What a body belongs to. -/
def Scope.label (c : Scope) : ScopeKind × Text := (c.kind, c.name)

/-- The search goes on at the same token in both lists, brackets that close a group aside. -/
def Resumes (ts : List Token) (m m' : Nat) : Prop :=
  ∀ k t, Inner ts k → ts[k]? = some t → t.kind.closes = false → (m' ≤ rank ts k ↔ m ≤ k)

/-- What is recognised in a list of tokens, and what is recognised in the significant ones. -/
structure Agrees (ts : List Token) (r r' : Recognition) : Prop where
  declared : r'.declarations.map (·.unplaced) = r.declarations.map (·.unplaced)
  scope : ∀ k, Inner ts k → (r'.scope.filter (·.holds (rank ts k))).map (·.label) =
    (r.scope.filter (·.holds k)).map (·.label)
  resume : Option.Rel (Resumes ts) r.resumeAt r'.resumeAt

/-- The surroundings of a token, and those of the same token among the significant ones. -/
structure Thins (s : Site) (i : Nat) (s' : Site) : Prop where
  tokens : s'.tokens = significant s.tokens
  owner : s'.owner? (rank s.tokens i) = s.owner? i

theorem owner?_eq_label (s : Site) (i : Nat) :
    s.owner? i = ((s.scopeAt? i).map (·.label)).bind fun l =>
      if l.1 = .classLike then some l.2 else none := by
  unfold Site.owner?
  cases s.scopeAt? i <;> rfl

theorem agrees_nothing (ts : List Token) : Agrees ts {} {} :=
  ⟨rfl, fun _ _ => rfl, .none⟩

section Recognisers

variable {ts : List Token} {s s' : Site} {i k : Nat} {t : Token}

theorem scope_bodyFrom (kind : ScopeKind) (name : Text) (start : Nat) (hk : Inner ts k) :
    let b := bodyFrom ts start
    let b' := bodyFrom (significant ts) (rank ts start)
    ((b'.opening.map fun o => (⟨kind, name, o, b'.last⟩ : Scope)).filter
        (·.holds (rank ts k))).map (·.label) =
      ((b.opening.map fun o => (⟨kind, name, o, b.last⟩ : Scope)).filter (·.holds k)).map
        (·.label) := by
  intro b b'
  obtain ⟨hopening, hlast⟩ := bodyFrom_rank ts start
  cases ho : b.opening with
  | none => rw [hopening, ho]; rfl
  | some o =>
      obtain ⟨_, ⟨u, hu, hbrace⟩, _⟩ := bodyFrom_opening ho
      have hholds : Scope.holds ⟨kind, name, rank ts o, b'.last⟩ (rank ts k) =
          Scope.holds ⟨kind, name, o, b.last⟩ k := by
        have hopen : rank ts o < rank ts k ↔ o < k :=
          rank_lt_iff hu (Token.isSignificant_of_kind hbrace (by decide))
        have hclose : rank ts k < b'.last ↔ k < b.last := hlast.lt_iff hk
        simp [Scope.holds, hopen, hclose]
      rw [hopening, ho]
      simp only [Option.map_some, Option.filter_some, hholds]
      split <;> rfl

theorem classLikeAt_rank (h : Thins s i s') (ht : s.tokens[i]? = some t)
    (hs : t.isSignificant = true) :
    Option.Rel (Agrees s.tokens) (classLikeAt s i t) (classLikeAt s' (rank s.tokens i) t) := by
  unfold classLikeAt
  rw [h.tokens, prevSignificant?_rank]
  split
  · exact .none
  simp only [Option.bind_eq_bind, nextSignificant?_rank_succ ht hs]
  cases hn : nextSignificant? s.tokens (i + 1) with
  | none => exact .none
  | some p =>
      obtain ⟨name, n⟩ := p
      have hname := (nextSignificant?_eq_some hn).1
      have hrank := rank_succ_of_pos hname (isSignificant_of_nextSignificant? hn)
      simp only [Option.map_some, Option.bind_some, Prod.map, id]
      split
      · exact .none
      · refine .some ⟨rfl, fun k hk => ?_, .none⟩
        rw [← hrank]
        exact scope_bodyFrom .classLike name.text (n + 1) hk

theorem resumes_bodyFrom (ht : ts[i]? = some t) (hs : t.isSignificant = true) (start : Nat) :
    Resumes ts (max ((bodyFrom ts start).opening.getD (bodyFrom ts start).last) (i + 1))
      (max ((bodyFrom (significant ts) (rank ts start)).opening.getD
        (bodyFrom (significant ts) (rank ts start)).last) (rank ts i + 1)) := by
  intro k u hk hu _
  obtain ⟨v, hv, hvs⟩ := hk.here
  have hbehind : rank ts i < rank ts k ↔ i < k := rank_lt_iff ht hs
  obtain ⟨hopening, hlast⟩ := bodyFrom_rank ts start
  rw [hopening]
  cases ho : (bodyFrom ts start).opening with
  | none =>
      have hclose := hlast.lt_iff hk
      simp only [Option.map_none, Option.getD_none]
      omega
  | some o =>
      have hopen : rank ts k < rank ts o ↔ k < o := rank_lt_iff hv hvs
      simp only [Option.map_some, Option.getD_some]
      omega

theorem functionAt_rank (hclosed : ParensClosed s.tokens) (h : Thins s i s')
    (ht : s.tokens[i]? = some t) (hs : t.isSignificant = true) :
    Option.Rel (Agrees s.tokens) (functionAt s i) (functionAt s' (rank s.tokens i)) := by
  unfold functionAt
  simp only [Option.bind_eq_bind, h.tokens, prevSignificant?_rank, functionName?_rank ht hs, h.owner]
  split
  · exact .none
  cases hname : functionName? s.tokens i with
  | none => exact .none
  | some p =>
      obtain ⟨name, n⟩ := p
      obtain ⟨hn, hword⟩ := getElem?_of_functionName? hname
      have hns : name.isSignificant = true := hword.elim
        (Token.isSignificant_of_kind · (by decide)) (Token.isSignificant_of_kind · (by decide))
      simp only [Option.map_some, Option.bind_some, Prod.map, id, nextSignificant?_rank_succ hn hns]
      cases hnext : nextSignificant? s.tokens (n + 1) with
      | none => exact .none
      | some q =>
          obtain ⟨paren, o⟩ := q
          simp only [Option.map_some, Option.bind_some, Prod.map, id]
          split
          · exact .none
          rename_i hparen
          have ho := (nextSignificant?_eq_some hnext).1
          have hos := isSignificant_of_nextSignificant? hnext
          obtain ⟨m, hm, hlt⟩ := hclosed.closeFrom ho (Decidable.not_not.1 hparen)
          obtain ⟨hclose, hclose', u, hu, hus⟩ := matchingClose_rank_of_closed ho hos hm
          rw [hclose, hclose', ← rank_succ_of_pos hu hus, ← rank_succ_of_pos ho hos]
          have hparams : readParameters (((significant s.tokens).drop (rank s.tokens (o + 1))).take
                (rank s.tokens m - rank s.tokens (o + 1))) =
              readParameters ((s.tokens.drop (o + 1)).take (m - (o + 1))) := by
            rw [← window_rank hlt, readParameters_significant]
          rw [hparams]
          refine .some ⟨rfl, fun k hk => ?_, .some ?_⟩
          · exact scope_bodyFrom .function name.text (m + 1) hk
          · exact resumes_bodyFrom ht hs (m + 1)

/-- A statement declares the same names, and the search goes on behind it. -/
theorem Stops.agrees {start e e' : Nat} (h : Stops ts start e e') {ds ds' : List Declaration}
    (hds : ds'.map (·.unplaced) = ds.map (·.unplaced)) :
    Agrees ts { declarations := ds, resumeAt := some (e + 1) }
      { declarations := ds', resumeAt := some (e' + 1) } :=
  ⟨hds, fun _ _ => rfl, .some fun _ _ hk hu hcloses => h.lt_iff hk hu hcloses⟩

/-- Declarations made from the same tokens are the same, whatever their places are. -/
theorem map_unplaced_eq {names names' : List (Token × Nat)} {mk mk' : Token × Nat → Declaration}
    (bare : Token → Declaration) (hnames : names'.map (·.1) = names.map (·.1))
    (hmk : ∀ p, (mk p).unplaced = bare p.1) (hmk' : ∀ p, (mk' p).unplaced = bare p.1) :
    (names'.map mk').map (·.unplaced) = (names.map mk).map (·.unplaced) := by
  calc (names'.map mk').map (·.unplaced)
      = (names'.map (·.1)).map bare := by simp [hmk']
    _ = (names.map (·.1)).map bare := by rw [hnames]
    _ = (names.map mk).map (·.unplaced) := by simp [hmk]

theorem constantsAt_rank (h : Thins s i s') (ht : s.tokens[i]? = some t)
    (hs : t.isSignificant = true) :
    Option.Rel (Agrees s.tokens) (constantsAt s i) (constantsAt s' (rank s.tokens i)) := by
  unfold constantsAt
  simp only [h.tokens, prevSignificant?_rank, h.owner, ← rank_succ_of_pos ht hs]
  split
  · exact .none
  have hstops := statementEnd_rank s.tokens (i + 1)
  refine .some (hstops.agrees (map_unplaced_eq (fun u => .constant {
    name := u.text, owner := s.owner? i, form := .const, span := ⟨0, 0⟩, nameToken := 0,
    doc := none }) hstops.constantNames_eq ?_ ?_))
  · exact fun p => rfl
  · exact fun p => rfl

theorem propertiesAt_rank (h : Thins s i s') (ht : s.tokens[i]? = some t)
    (hs : t.isSignificant = true) :
    Option.Rel (Agrees s.tokens) (propertiesAt s i) (propertiesAt s' (rank s.tokens i)) := by
  unfold propertiesAt
  simp only [Option.bind_eq_bind, h.tokens, h.owner, ← rank_succ_of_pos ht hs, firstVariable?_rank]
  cases firstVariable? ((s.tokens.drop (i + 1)).zipIdx (i + 1)) with
  | none => exact .none
  | some v =>
      have hstops := statementEnd_rank s.tokens v
      refine .some (hstops.agrees (map_unplaced_eq (fun u => .property {
        name := Text.trimStartOf (· == '$') u.text, owner := (s.owner? i).getD [],
        span := ⟨0, 0⟩, nameToken := 0, doc := none }) hstops.propertyNames_eq ?_ ?_))
      · exact fun p => rfl
      · exact fun p => rfl

theorem defineAt_rank (hclosed : ParensClosed s.tokens) (h : Thins s i s')
    (ht : s.tokens[i]? = some t) (hs : t.isSignificant = true) :
    Option.Rel (Agrees s.tokens) (defineAt s i) (defineAt s' (rank s.tokens i)) := by
  unfold defineAt
  simp only [Option.bind_eq_bind, Option.bind_none, h.tokens, prevSignificant?_rank,
    nextSignificant?_rank_succ ht hs]
  split
  · exact .none
  cases hnext : nextSignificant? s.tokens (i + 1) with
  | none => exact .none
  | some p =>
      obtain ⟨paren, o⟩ := p
      have ho := (nextSignificant?_eq_some hnext).1
      have hos := isSignificant_of_nextSignificant? hnext
      simp only [Option.map_some, Option.bind_some, Prod.map, id, nextSignificant?_rank_succ ho hos]
      split
      · exact .none
      rename_i hparen
      obtain ⟨m, hm, _⟩ := hclosed.closeFrom ho (Decidable.not_not.1 hparen)
      obtain ⟨hclose, hclose', u, hu, hus⟩ := matchingClose_rank_of_closed ho hos hm
      rw [hclose, hclose', nextSignificant?_rank_succ hu hus]
      cases nextSignificant? s.tokens (o + 1) with
      | none => exact .none
      | some q =>
          simp only [Option.map_some, Option.bind_some, Prod.map, id]
          split
          · exact .none
          cases unquote? q.1.text with
          | none => exact .none
          | some name =>
              simp only [Option.bind_some]
              cases hend : nextSignificant? s.tokens (m + 1) with
              | none => exact .some ((Stops.token m u hu hus (Nat.zero_le m)).agrees rfl)
              | some e =>
                  obtain ⟨semi, j⟩ := e
                  have hj := (nextSignificant?_eq_some hend).1
                  have hjs := isSignificant_of_nextSignificant? hend
                  simp only [Option.map_some, Prod.map, id]
                  split
                  · exact .some ((Stops.token j semi hj hjs (Nat.zero_le j)).agrees rfl)
                  · exact .some ((Stops.token m u hu hus (Nat.zero_le m)).agrees rfl)

/-- **The recognisers agree on a list of tokens and on the significant ones.** -/
theorem recognize_rank (hclosed : ParensClosed s.tokens) (h : Thins s i s')
    (ht : s.tokens[i]? = some t) (hs : t.isSignificant = true) :
    Agrees s.tokens (recognize s i t) (recognize s' (rank s.tokens i) t) := by
  have orNothing : ∀ {found found' : Option Recognition},
      Option.Rel (Agrees s.tokens) found found' →
        Agrees s.tokens (found.getD {}) (found'.getD {}) := by
    intro found found' hrel
    cases hrel with
    | some h => exact h
    | none => exact agrees_nothing _
  have hclass : s'.inClass (rank s.tokens i) = s.inClass i := by
    unfold Site.inClass
    rw [h.owner]
  unfold recognize
  simp only [hclass]
  refine orNothing ?_
  split
  · exact classLikeAt_rank h ht hs
  split
  · exact functionAt_rank hclosed h ht hs
  split
  · exact constantsAt_rank h ht hs
  split
  · exact propertiesAt_rank h ht hs
  split
  · exact defineAt_rank hclosed h ht hs
  · exact .none

/-- A bracket declares nothing. -/
theorem recognize_of_closes (s : Site) (i : Nat) (h : t.kind.closes = true) :
    recognize s i t = {} := by
  have hkeyword : t.kind ≠ .keyword := fun hk => by rw [hk] at h; cases h
  have hname : t.kind ≠ .name := fun hk => by rw [hk] at h; cases h
  simp [recognize, Token.isClassWord, Token.isModifier, Token.isKeyword, hkeyword, hname]

theorem not_isSignificant_of_nextSignificant? {start : Nat}
    (h : nextSignificant? ts start = none) :
    ∀ p ∈ (ts.drop start).zipIdx start, p.1.isSignificant = false := by
  intro p hp
  have hnot := List.find?_eq_none.1 h p hp
  simpa using hnot

theorem firstVariable?_eq_none {l : List (Token × Nat)}
    (h : ∀ p ∈ l, p.1.isSignificant = false) : firstVariable? l = none := by
  induction l with
  | nil => rfl
  | cons p l ih =>
      obtain ⟨hp, hl⟩ := List.forall_mem_cons.1 h
      rw [firstVariable?, hp]
      exact ih hl

/-- Nothing is declared at the last significant token. -/
theorem Recognized.declarations_eq_nil {r : Recognition} (h : Recognized s i t r)
    (hlast : nextSignificant? s.tokens (i + 1) = none) : r.declarations = [] := by
  have hnone := not_isSignificant_of_nextSignificant? hlast
  cases h with
  | nothing => rfl
  | classLike name n word free next => rw [hlast] at next; cases next
  | function name paren n o word free named =>
      rw [functionName?, hlast] at named
      cases named
  | constants =>
      rw [List.map_eq_nil_iff, List.eq_nil_iff_forall_not_mem]
      intro p hp
      have hs := hnone p (List.mem_of_mem_take (mem_of_mem_constantNames_start hp))
      rcases kind_of_mem_constantNames hp (by simp) with hkind | hkind
      · exact Token.kind_ne_of_not_isSignificant hs (by decide) hkind
      · exact Token.kind_ne_of_not_isSignificant hs (by decide) hkind
  | properties v word inside first =>
      rw [firstVariable?_eq_none hnone] at first
      cases first
  | define paren literal o n last name word free next => rw [hlast] at next; cases next

end Recognisers

/-! ## Two passes side by side -/

namespace Pass

variable {ts : List Token} {n k : Nat} {t : Token}

/-- What the pass over all tokens and the pass over the significant ones have in common when the
first one comes to index `n`. -/
structure Synced (ts : List Token) (n : Nat) (p p' : Pass) : Prop where
  declared : p'.outline.declarations.map (·.unplaced) = p.outline.declarations.map (·.unplaced)
  scope : ∀ k, n ≤ k → Inner ts k →
    (p'.scopes.find? (·.holds (rank ts k))).map (·.label) =
      (p.scopes.find? (·.holds k)).map (·.label)
  resume : ∀ k t, n ≤ k → Inner ts k → ts[k]? = some t → t.kind.closes = false →
    (p'.resumeAt ≤ rank ts k ↔ p.resumeAt ≤ k)

theorem role_ne_code (h : t.isSignificant = false) : t.role ≠ .code := by
  unfold Token.isSignificant Token.isTrivia at h
  unfold Token.role
  cases hk : t.kind <;> simp [hk] at h ⊢
  split <;> simp

theorem foundAt_of_role_ne (h : ts[n]? = some t) (hrole : t.role ≠ .code) : foundAt ts n = {} := by
  unfold foundAt
  rw [h]
  simp only
  rw [if_neg fun hcode => hrole hcode.1]

theorem foundAt_of_closes (h : ts[n]? = some t) (hcloses : t.kind.closes = true) :
    foundAt ts n = {} := by
  unfold foundAt
  rw [h]
  simp only
  split
  · exact recognize_of_closes _ _ hcloses
  · rfl

/-- The token that waits and the one that is passed over. -/
theorem synced_of_not_isSignificant (h : ts[n]? = some t) (hs : t.isSignificant = false)
    (hsync : Synced ts n (upTo ts n) (upTo (significant ts) (rank ts n))) :
    Synced ts (n + 1) (upTo ts (n + 1)) (upTo (significant ts) (rank ts (n + 1))) := by
  have hfound := foundAt_of_role_ne h (role_ne_code hs)
  rw [rank_succ_of_neg h hs]
  refine ⟨?_, fun k hk hinner => ?_, fun k u hk hinner hu hcloses => ?_⟩
  · rw [declarations_upTo_succ h, hfound, List.append_nil]
    exact hsync.declared
  · rw [scopes_upTo_succ h, hfound, Option.toList_none, List.nil_append, find?_leave _ (by omega)]
    exact hsync.scope k (by omega) hinner
  · rw [resumeAt_upTo_succ h, hfound]
    exact hsync.resume k u (by omega) hinner hu hcloses

/-- What both passes do with a significant token at which their recognitions agree. -/
theorem synced_of_agrees (h : ts[n]? = some t) (hs : t.isSignificant = true)
    (hsync : Synced ts n (upTo ts n) (upTo (significant ts) (rank ts n)))
    (hagrees : Agrees ts (foundAt ts n) (foundAt (significant ts) (rank ts n))) :
    Synced ts (n + 1) (upTo ts (n + 1)) (upTo (significant ts) (rank ts (n + 1))) := by
  have h' := getElem?_rank h hs
  rw [rank_succ_of_pos h hs]
  refine ⟨?_, fun k hk hinner => ?_, fun k u hk hinner hu hcloses => ?_⟩
  · rw [declarations_upTo_succ h, declarations_upTo_succ h', List.map_append, List.map_append,
      hsync.declared, hagrees.declared]
  · have hle : rank ts n ≤ rank ts k := rank_mono ts (by omega)
    have hhere := hagrees.scope k hinner
    have hbefore := hsync.scope k (by omega) hinner
    rw [scopes_upTo_succ h, scopes_upTo_succ h', List.find?_append, List.find?_append, find?_toList,
      find?_toList, find?_leave _ hle, find?_leave _ (by omega : n ≤ k), Option.map_or,
      Option.map_or, hhere, hbefore]
  · rw [resumeAt_upTo_succ h, resumeAt_upTo_succ h']
    have hresume := hagrees.resume
    generalize (foundAt ts n).resumeAt = m at hresume ⊢
    generalize (foundAt (significant ts) (rank ts n)).resumeAt = m' at hresume ⊢
    cases hresume with
    | some hm => exact hm k u hinner hu hcloses
    | none => exact hsync.resume k u (by omega) hinner hu hcloses

/-- The recognitions agree at every token but the last significant one. -/
theorem agrees_foundAt (hclosed : ParensClosed ts) (h : ts[n]? = some t)
    (hs : t.isSignificant = true) (hinner : Inner ts n)
    (hsync : Synced ts n (upTo ts n) (upTo (significant ts) (rank ts n))) :
    Agrees ts (foundAt ts n) (foundAt (significant ts) (rank ts n)) := by
  have h' := getElem?_rank h hs
  cases hcloses : t.kind.closes with
  | true =>
      rw [foundAt_of_closes h hcloses, foundAt_of_closes h' hcloses]
      exact agrees_nothing ts
  | false =>
      have hresume := hsync.resume n t (Nat.le_refl n) hinner h hcloses
      have hthins : Thins (siteAt ts n) n (siteAt (significant ts) (rank ts n)) := by
        refine ⟨rfl, ?_⟩
        have hscope := hsync.scope n (Nat.le_refl n) hinner
        rw [← find?_leave _ (Nat.le_refl (rank ts n)), ← find?_leave _ (Nat.le_refl n)] at hscope
        have hlabel : ((siteAt (significant ts) (rank ts n)).scopeAt? (rank ts n)).map (·.label) =
            ((siteAt ts n).scopeAt? n).map (·.label) := hscope
        rw [owner?_eq_label, owner?_eq_label, ← hlabel]
        rfl
      unfold foundAt
      rw [h, h']
      simp only [hresume]
      split
      · exact recognize_rank hclosed hthins h hs
      · exact agrees_nothing ts

/-- No significant token follows, in either list. -/
theorem nextSignificant?_of_not_inner (h : ts[n]? = some t) (hs : t.isSignificant = true)
    (hlast : ¬Inner ts n) :
    nextSignificant? ts (n + 1) = none ∧
      nextSignificant? (significant ts) (rank ts n + 1) = none := by
  have hend : (significant ts).length ≤ rank ts n + 1 :=
    Nat.le_of_not_lt fun hmore => hlast ⟨⟨t, h, hs⟩, hmore⟩
  have hnone : nextSignificant? (significant ts) (rank ts n + 1) = none := by
    unfold nextSignificant?
    rw [List.drop_of_length_le hend]
    rfl
  refine ⟨?_, hnone⟩
  rw [nextSignificant?_rank_succ h hs] at hnone
  exact Option.map_eq_none_iff.1 hnone

/-- At the last significant token nothing is declared, and what is left for later tokens does not
matter. -/
theorem synced_of_not_inner (h : ts[n]? = some t) (hs : t.isSignificant = true)
    (hlast : ¬Inner ts n)
    (hsync : Synced ts n (upTo ts n) (upTo (significant ts) (rank ts n))) :
    Synced ts (n + 1) (upTo ts (n + 1)) (upTo (significant ts) (rank ts (n + 1))) := by
  have h' := getElem?_rank h hs
  obtain ⟨hnext, hnext'⟩ := nextSignificant?_of_not_inner h hs hlast
  have hnoInner : ∀ k, n + 1 ≤ k → ¬Inner ts k := by
    intro k hk hinner
    have hrank := rank_mono ts hk
    have hmore := hinner.more
    rw [rank_succ_of_pos h hs] at hrank
    exact hlast ⟨⟨t, h, hs⟩, by omega⟩
  rw [rank_succ_of_pos h hs]
  refine ⟨?_, fun k hk hinner => absurd hinner (hnoInner k hk),
    fun k u hk hinner => absurd hinner (hnoInner k hk)⟩
  rw [declarations_upTo_succ h, declarations_upTo_succ h',
    (recognized_foundAt h).declarations_eq_nil hnext,
    (recognized_foundAt h').declarations_eq_nil hnext', List.append_nil, List.append_nil]
  exact hsync.declared

/-- **The two passes stay side by side.** -/
theorem synced (hclosed : ParensClosed ts) :
    ∀ n ≤ ts.length, Synced ts n (upTo ts n) (upTo (significant ts) (rank ts n)) := by
  refine upTo_induction (P := fun n p => Synced ts n p (upTo (significant ts) (rank ts n))) ?_ ?_
  · rw [rank_zero, upTo_zero]
    exact ⟨rfl, fun _ _ _ => rfl, fun _ _ _ _ _ _ =>
      iff_of_true (Nat.zero_le _) (Nat.zero_le _)⟩
  intro n t h hsync
  cases hs : t.isSignificant with
  | false => exact synced_of_not_isSignificant h hs hsync
  | true =>
      by_cases hinner : Inner ts n
      · exact synced_of_agrees h hs hsync (agrees_foundAt hclosed h hs hinner hsync)
      · exact synced_of_not_inner h hs hinner hsync

end Pass

/-! ## What is declared -/

/-- The significant tokens alone declare the same. -/
theorem declarations_significant {ts : List Token} (hclosed : ParensClosed ts) :
    (ofTokens (significant ts)).declarations.map (·.unplaced) =
      (ofTokens ts).declarations.map (·.unplaced) := by
  have hsync := Pass.synced hclosed ts.length (Nat.le_refl _)
  rw [rank_length, ← Pass.run_eq_upTo, ← Pass.run_eq_upTo] at hsync
  exact hsync.declared

/-- The token without its place. -/
def bare (t : Token) : Token := { t with line := 0, offset := 0 }

theorem alike_bare {ts : List Token} : ∀ t ∈ significant ts, Alike id t (bare t) := by
  intro t ht
  refine ⟨rfl, rfl, fun _ => rfl, rfl, fun hdoc => ?_⟩
  have hs := isSignificant_of_mem ht
  have hkind : t.kind = .docComment ∨ t.kind = .lineComment := by
    simp only [Token.isDoc, Bool.or_eq_true, Bool.and_eq_true, beq_iff_eq] at hdoc
    exact hdoc.imp_right And.left
  rcases hkind with hkind | hkind
  · simp [Token.isSignificant, Token.isTrivia, hkind] at hs
  · simp [Token.isSignificant, Token.isTrivia, hkind] at hs

theorem map_bare_eq {ts us : List Token} (h : ts.map (·.toLexeme) = us.map (·.toLexeme)) :
    ts.map bare = us.map bare := by
  have hbare : ∀ l : List Token, l.map bare = (l.map (·.toLexeme)).map fun x => ⟨x, 0, 0⟩ := by
    intro l
    rw [List.map_map]
    rfl
  rw [hbare, hbare, h]

/-- **Lists with the same significant tokens declare the same.** -/
theorem declarations_of_significant_eq {ts us : List Token} (hts : ParensClosed ts)
    (hus : ParensClosed us)
    (h : (significant ts).map (·.toLexeme) = (significant us).map (·.toLexeme)) :
    (ofTokens ts).declarations.map (·.unplaced) = (ofTokens us).declarations.map (·.unplaced) := by
  have hbare : ∀ l : List Token,
      (ofTokens ((significant l).map bare)).declarations = (ofTokens (significant l)).declarations := by
    intro l
    rw [ofTokens_map rewording_id alike_bare, reword_id]
  rw [← declarations_significant hts, ← declarations_significant hus, ← hbare ts, ← hbare us,
    map_bare_eq h]

theorem map_filterMap_unplaced {α β : Type} {kind? : Declaration → Option α} {f : α → β}
    (h : ∀ d, (kind? d.unplaced).map f = (kind? d).map f) (ds : List Declaration) :
    (ds.filterMap kind?).map f = (ds.map (·.unplaced)).filterMap fun d => (kind? d).map f := by
  rw [List.map_filterMap, List.filterMap_map]
  exact List.filterMap_congr fun d _ => (h d).symm

/-- **Trivia does not change what is declared.** Two sources with the same significant tokens, in
which every open parenthesis is closed, declare the same classes, functions, properties and
constants in the same order. -/
theorem declared_eq_of_significant_eq (path path' source source' : Text)
    (closed : ParensClosed (Token.tokenize source))
    (closed' : ParensClosed (Token.tokenize source'))
    (same : (significant (Token.tokenize source)).map (·.toLexeme) =
      (significant (Token.tokenize source')).map (·.toLexeme)) :
    let o := (SourceFile.parse path source).outline
    let o' := (SourceFile.parse path' source').outline
    (o.classes.map fun d => (d.name, d.keyword)) = (o'.classes.map fun d => (d.name, d.keyword)) ∧
    (o.functions.map fun d =>
        (d.name, (Declaration.function d).fullname, d.owner, d.parameters)) =
      (o'.functions.map fun d =>
        (d.name, (Declaration.function d).fullname, d.owner, d.parameters)) ∧
    (o.properties.map fun d => (d.name, (Declaration.property d).fullname, d.owner)) =
      (o'.properties.map fun d => (d.name, (Declaration.property d).fullname, d.owner)) ∧
    (o.constants.map fun d => (d.name, (Declaration.constant d).fullname, d.form)) =
      (o'.constants.map fun d => (d.name, (Declaration.constant d).fullname, d.form)) := by
  intro o o'
  have hdeclared : o.declarations.map (·.unplaced) = o'.declarations.map (·.unplaced) :=
    declarations_of_significant_eq closed closed' same
  have hkind : ∀ {α β : Type} (kind? : Declaration → Option α) (f : α → β),
      (∀ d, (kind? d.unplaced).map f = (kind? d).map f) →
      (o.declarations.filterMap kind?).map f = (o'.declarations.filterMap kind?).map f := by
    intro α β kind? f h
    rw [map_filterMap_unplaced h, map_filterMap_unplaced h, hdeclared]
  refine ⟨hkind _ _ fun d => ?_, hkind _ _ fun d => ?_, hkind _ _ fun d => ?_,
    hkind _ _ fun d => ?_⟩
  · cases d <;> rfl
  · cases d <;> rfl
  · cases d <;> rfl
  · cases d <;> rfl

-- the spaced source gives the same method as the dense one
theorem declared_eq_spaced :
    let spaced : Text :=
      "<?php\n/** A. */\nclass A // a\n\x7b\n#[B]\nfunction f ( int /* b */ $x )\n\x7b \x7d\n\x7d\n"
    ((SourceFile.parse "a.php" spaced).outline.functions.map fun d =>
        (d.name, (Declaration.function d).fullname, d.owner, d.parameters)) =
      [(("f" : Text), ("A::f" : Text), some ("A" : Text), [⟨"int", "$x"⟩])] :=
  (declared_eq_of_significant_eq "a.php" "b.php" _
    "<?php class A\x7bfunction f(int $x)\x7b\x7d\x7d" (by decide +kernel) (by decide +kernel)
    (by decide +kernel)).2.1.trans (by decide +kernel)

end Outline

end DocLint
