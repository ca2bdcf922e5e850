import DocLint.Proofs.Gap

/-!
# Declarations around a gap

The pass over all tokens and the pass over the tokens without a gap go side by side. Up to the
modifier in front of the gap they are at the same index; behind the gap the first one is ahead, and
in between it has nothing to look for if the modifier starts a property.

* `propertiesOf`: the names and the classes of properties.
* `Gap.Follows`: recognitions with the same properties, the second one moved up; `recognize_up`.
* `Pass.Lifted`: what the two passes have in common; `lifted_front` up to the modifier, and
  `lifted_back` behind the gap, by induction over the tokens.
* `properties_narrow`: the gap does not change the properties of a file.
-/

namespace DocLint.Outline

/-! ## Recognitions -/

/-- The names and the classes of the properties among declarations. -/
def propertiesOf (ds : List Declaration) : List (Text × Text) :=
  (ds.filterMap (·.property?)).map fun d => (d.name, d.owner)

namespace Gap

/-- The body moved up. -/
def lift (g : Gap) (c : Scope) : Scope :=
  { c with opening := g.up c.opening, closing := g.up c.closing }

/-- What is recognised in the narrow list, and what is recognised in all tokens. -/
structure Follows (g : Gap) (r r' : Recognition) : Prop where
  declared : propertiesOf r'.declarations = propertiesOf r.declarations
  scope : r'.scope = r.scope.map g.lift
  resume : Option.Rel (fun m m' => ∀ k, m' ≤ g.up k ↔ m ≤ k) r.resumeAt r'.resumeAt

/-- The surroundings of a token in the narrow list, and those of the same token among all. -/
structure Sites (g : Gap) (k : Nat) (s s' : Site) : Prop where
  narrow : s.tokens = g.narrow
  tokens : s'.tokens = g.tokens
  owner : s'.owner? (g.up k) = s.owner? k

variable {g : Gap} {s s' : Site} {k : Nat} {t : Token}

@[simp]
theorem holds_lift (c : Scope) : (g.lift c).holds (g.up k) = c.holds k := by
  simp [Scope.holds, lift]

theorem follows_nothing : Follows g {} {} := ⟨rfl, rfl, .none⟩

theorem resumes_behind (m : Nat) : ∀ k, g.up m + 1 ≤ g.up k ↔ m + 1 ≤ k := fun _ => g.up_lt_up

theorem classLikeAt_up (h : Sites g k s s') (hk : k ≠ g.front.length)
    (hk' : k ≠ g.front.length + 1) :
    Option.Rel (Follows g) (classLikeAt s k (bare t)) (classLikeAt s' (g.up k) t) := by
  unfold classLikeAt
  rw [h.narrow, h.tokens, g.any_prevSignificant?_up hk' fun _ => rfl]
  split
  · exact .none
  have hnext := g.nextSignificant?_up hk
  simp only [Option.bind_eq_bind]
  generalize nextSignificant? g.narrow (k + 1) = a at hnext ⊢
  generalize nextSignificant? g.tokens (g.up k + 1) = b at hnext ⊢
  cases hnext with
  | none => exact .none
  | some hmoves =>
      obtain ⟨name, n⟩ := hmoves
      have hkind : (bare name).kind = name.kind := rfl
      simp only [Option.bind_some, hkind]
      split
      · exact .none
      · refine .some ⟨rfl, ?_, .none⟩
        rw [g.bodyFrom_up n]
        cases (bodyFrom g.narrow (n + 1)).opening with
        | none => rfl
        | some o => rfl

theorem ne_of_kind {n : Nat} (h : g.tokens[g.up n]? = some t) (hkind : t.kind ≠ .keyword) :
    n ≠ g.front.length := by
  rintro rfl
  rw [g.up_of_le (Nat.le_refl _), getElem?_word] at h
  cases h
  exact hkind (Token.kind_of_isModifier g.isWord)

theorem functionName?_up (hk : k ≠ g.front.length) :
    Option.Rel g.Moves (functionName? g.narrow k) (functionName? g.tokens (g.up k)) := by
  unfold functionName?
  have hnext := g.nextSignificant?_up hk
  have hat : ∀ p ∈ nextSignificant? g.tokens (g.up k + 1), g.tokens[p.2]? = some p.1 :=
    fun p hp => (nextSignificant?_eq_some hp).1
  simp only [Option.bind_eq_bind]
  generalize nextSignificant? g.narrow (k + 1) = a at hnext ⊢
  generalize nextSignificant? g.tokens (g.up k + 1) = b at hnext hat ⊢
  cases hnext with
  | none => exact .none
  | some hmoves =>
      obtain ⟨u, n⟩ := hmoves
      have hsame : (bare u).isPunct "&" = u.isPunct "&" ∧ (bare u).kind = u.kind := ⟨rfl, rfl⟩
      simp only [Option.bind_some, hsame.1]
      split
      · -- the modifier is no mark
        rename_i hmark
        have hn : n ≠ g.front.length := by
          refine ne_of_kind (hat _ rfl) fun hword => ?_
          rw [Token.isPunct, hword] at hmark
          cases hmark
        have hnext := g.nextSignificant?_up hn
        generalize nextSignificant? g.narrow (n + 1) = a at hnext ⊢
        generalize nextSignificant? g.tokens (g.up n + 1) = b at hnext ⊢
        cases hnext with
        | none => exact .none
        | some hmoves =>
            obtain ⟨u, n⟩ := hmoves
            have hkind : (bare u).kind = u.kind := rfl
            simp only [Option.bind_some, hkind]
            split
            · exact .some (.token u n)
            · exact .none
      · simp only [hsame.2]
        split
        · exact .some (.token u n)
        · exact .none

theorem functionAt_up (h : Sites g k s s') (hk : k ≠ g.front.length)
    (hk' : k ≠ g.front.length + 1) :
    Option.Rel (Follows g) (functionAt s k) (functionAt s' (g.up k)) := by
  unfold functionAt
  simp only [Option.bind_eq_bind, h.narrow, h.tokens,
    g.any_prevSignificant?_up hk' (P := (·.isKeyword "use")) fun _ => rfl]
  split
  · exact .none
  have hname := functionName?_up hk
  generalize functionName? g.narrow k = a at hname ⊢
  generalize functionName? g.tokens (g.up k) = b at hname ⊢
  cases hname with
  | none => exact .none
  | some hmoves =>
      obtain ⟨name, n⟩ := hmoves
      simp only [Option.bind_some, Option.bind_none]
      by_cases hn : n = g.front.length
      · -- a function named like the modifier has no parameters behind its name
        obtain ⟨hnarrow, htokens⟩ := g.kind_behind_word
        rw [hn, g.up_of_le (Nat.le_refl _)]
        have hnone : ∀ (a : Option Placed) (F : Placed → Option Recognition),
            (∀ p ∈ a, p.1.kind ≠ .openParen) →
              (a.bind fun p => if p.1.kind ≠ .openParen then none else F p) = none := by
          intro a F ha
          cases a with
          | none => rfl
          | some p => exact if_pos (ha p rfl)
        rw [hnone _ _ hnarrow, hnone _ _ htokens]
        exact .none
      have hnext := g.nextSignificant?_up hn
      have hat : ∀ p ∈ nextSignificant? g.tokens (g.up n + 1), g.tokens[p.2]? = some p.1 :=
        fun p hp => (nextSignificant?_eq_some hp).1
      generalize nextSignificant? g.narrow (n + 1) = a at hnext ⊢
      generalize nextSignificant? g.tokens (g.up n + 1) = b at hnext hat ⊢
      cases hnext with
      | none => exact .none
      | some hmoves =>
          obtain ⟨paren, o⟩ := hmoves
          have hkind : (bare paren).kind = paren.kind := rfl
          simp only [Option.bind_some, hkind]
          split
          · exact .none
          rw [g.matchingClose_up (hat _ rfl), g.bodyFrom_up]
          generalize bodyFrom g.narrow (matchingClose g.narrow o + 1) = body
          refine .some ⟨rfl, ?_, .some fun j => ?_⟩
          · cases body.opening with
            | none => rfl
            | some b => rfl
          · have hbehind : g.up k + 1 ≤ g.up j ↔ k + 1 ≤ j := g.up_lt_up
            cases body.opening with
            | none =>
                simp only [Option.map_none, Option.getD_none, Nat.max_le, up_le_up, hbehind]
            | some b =>
                simp only [Option.map_some, Option.getD_some, Nat.max_le, up_le_up, hbehind]

theorem constantsAt_up (h : Sites g k s s') (hk : k ≠ g.front.length)
    (hk' : k ≠ g.front.length + 1) :
    Option.Rel (Follows g) (constantsAt s k) (constantsAt s' (g.up k)) := by
  have hnone : ∀ (names : List Placed) (mk : Placed → ConstantDecl),
      propertiesOf (names.map fun p => .constant (mk p)) = [] := by
    intro names mk
    rw [propertiesOf, List.filterMap_map, List.map_eq_nil_iff, List.filterMap_eq_nil_iff]
    exact fun _ _ => rfl
  unfold constantsAt
  simp only [h.narrow, h.tokens,
    g.any_prevSignificant?_up hk' (P := (·.isKeyword "use")) fun _ => rfl, ← g.up_succ hk,
    g.statementEnd_up]
  split
  · exact .none
  · refine .some ⟨?_, rfl, .some (resumes_behind _)⟩
    rw [hnone, hnone]

theorem propertiesAt_up (h : Sites g k s s') :
    Option.Rel (Follows g) (propertiesAt s k) (propertiesAt s' (g.up k)) := by
  have hnames : ∀ (names : List Placed) (owner : Text) (mk : Placed → PropertyDecl),
      (∀ p, (mk p).name = Text.trimStartOf (· == '$') p.1.text ∧ (mk p).owner = owner) →
      propertiesOf (names.map fun p => .property (mk p)) =
        (names.map (·.1.text)).map fun u => (Text.trimStartOf (· == '$') u, owner) := by
    intro names owner mk hmk
    have hall : names.filterMap (Declaration.property? ∘ fun p => Declaration.property (mk p)) =
        names.map mk := by
      rw [← List.filterMap_eq_map]
      rfl
    rw [propertiesOf, List.filterMap_map, hall, List.map_map, List.map_map]
    refine List.map_congr_left fun p _ => ?_
    simp only [Function.comp, hmk p]
  unfold propertiesAt
  have hfirst := g.firstVariable?_up k
  unfold tokensFrom at hfirst
  simp only [Option.bind_eq_bind, h.narrow, h.tokens, h.owner, hfirst]
  cases firstVariable? ((g.narrow.drop (k + 1)).zipIdx (k + 1)) with
  | none => exact .none
  | some v =>
      simp only [Option.map_some, Option.bind_some, g.statementEnd_up]
      refine .some ⟨?_, rfl, .some (resumes_behind _)⟩
      rw [hnames _ ((s.owner? k).getD []) _ fun _ => ⟨rfl, rfl⟩,
        hnames _ ((s.owner? k).getD []) _ fun _ => ⟨rfl, rfl⟩, g.propertyNames_up]

/-- A group does not end at the modifier. -/
theorem matchingClose_ne {o : Nat} (ht : g.tokens[g.up o]? = some t) :
    matchingClose g.narrow o ≠ g.front.length := by
  rw [matchingClose_eq (g.getElem?_narrow ht)]
  cases hclose : closeFrom (pairOf (bare t).kind) 0 o (g.narrow.drop o) with
  | none =>
      rw [Option.getD_none, lastIndex, length_narrow]
      omega
  | some m =>
      obtain ⟨u, hu, hkind⟩ := getElem?_of_closeFrom hclose
      rintro rfl
      rw [getElem?_narrow_word, Option.some.injEq] at hu
      have hcloses : (bare g.word).kind.closes = true := by
        rw [hu, hkind]
        exact (closes_pairOf _).1
      rw [show (bare g.word).kind = .keyword from Token.kind_of_isModifier g.isWord] at hcloses
      cases hcloses

theorem defineAt_up (h : Sites g k s s') (hk : k ≠ g.front.length)
    (hk' : k ≠ g.front.length + 1) :
    Option.Rel (Follows g) (defineAt s k) (defineAt s' (g.up k)) := by
  unfold defineAt
  simp only [Option.bind_eq_bind, Option.bind_none, h.narrow, h.tokens,
    g.any_prevSignificant?_up hk' (P := fun p =>
      isMemberAccess p || p.isKeyword "function" || p.isKeyword "new") fun _ => rfl]
  split
  · exact .none
  have hnext := g.nextSignificant?_up hk
  have hat : ∀ p ∈ nextSignificant? g.tokens (g.up k + 1), g.tokens[p.2]? = some p.1 :=
    fun p hp => (nextSignificant?_eq_some hp).1
  generalize nextSignificant? g.narrow (k + 1) = a at hnext ⊢
  generalize nextSignificant? g.tokens (g.up k + 1) = b at hnext hat ⊢
  cases hnext with
  | none => exact .none
  | some hmoves =>
      obtain ⟨paren, o⟩ := hmoves
      have ho := hat _ rfl
      have hkind : (bare paren).kind = paren.kind := rfl
      simp only [Option.bind_some, hkind]
      split
      · exact .none
      rename_i hparen
      have hopen : o ≠ g.front.length := ne_of_kind ho (by rw [Decidable.not_not.1 hparen]; decide)
      have hliteral := g.nextSignificant?_up hopen
      have hend := g.nextSignificant?_up (matchingClose_ne ho)
      rw [g.matchingClose_up ho]
      generalize nextSignificant? g.narrow (o + 1) = a at hliteral ⊢
      generalize nextSignificant? g.tokens (g.up o + 1) = b at hliteral ⊢
      cases hliteral with
      | none => exact .none
      | some hmoves =>
          obtain ⟨literal, n⟩ := hmoves
          have hsame : (bare literal).kind = literal.kind ∧ (bare literal).text = literal.text :=
            ⟨rfl, rfl⟩
          simp only [Option.bind_some, hsame.1, hsame.2]
          split
          · exact .none
          cases unquote? literal.text with
          | none => exact .none
          | some name =>
              simp only [Option.bind_some]
              generalize matchingClose g.narrow o = close at hend ⊢
              generalize nextSignificant? g.narrow (close + 1) = a at hend ⊢
              generalize nextSignificant? g.tokens (g.up close + 1) = b at hend ⊢
              cases hend with
              | none => exact .some ⟨rfl, rfl, .some (resumes_behind _)⟩
              | some hmoves =>
                  obtain ⟨semi, j⟩ := hmoves
                  have hkind : (bare semi).kind = semi.kind := rfl
                  simp only [hkind]
                  split
                  · exact .some ⟨rfl, rfl, .some (resumes_behind _)⟩
                  · exact .some ⟨rfl, rfl, .some (resumes_behind _)⟩

theorem not_isClassWord_of_isModifier (h : t.isModifier = true) :
    t.isClassWord = false ∧ t.isKeyword "function" = false ∧ t.isKeyword "const" = false := by
  obtain ⟨w, hmem, hw⟩ := List.any_eq_true.1 h
  have hne : ∀ w ∈ Token.modifierWords, (∀ c ∈ Token.classWords, Text.lower w ≠ Text.lower c) ∧
      Text.lower w ≠ Text.lower "function" := by decide
  obtain ⟨hclass, hfunction⟩ := hne w hmem
  exact ⟨not_isClassWord_of_isKeyword hw hclass, not_isKeyword_of_isKeyword hw hfunction,
    Token.isKeyword_const_of_isModifier h⟩

/-- A word that introduces a declaration is neither the modifier nor the variable. -/
theorem ne_of_word (ht : g.tokens[g.up k]? = some t)
    (hword : t.isClassWord = true ∨ t.isKeyword "function" = true ∨ t.isKeyword "const" = true ∨
      t.kind = .name) : k ≠ g.front.length ∧ k ≠ g.front.length + 1 := by
  constructor
  · rintro rfl
    rw [g.up_of_le (Nat.le_refl _), getElem?_word] at ht
    cases ht
    obtain ⟨hclass, hfunction, hconst⟩ := not_isClassWord_of_isModifier g.isWord
    rw [hclass, hfunction, hconst, Token.kind_of_isModifier g.isWord] at hword
    simp at hword
  · rintro rfl
    rw [getElem?_name] at ht
    cases ht
    simp [Token.isClassWord, Token.classWords, Token.isKeyword, g.isName] at hword

/-- **What a token is recognised as does not depend on the gap.** -/
theorem recognize_up (h : Sites g k s s') (ht : g.tokens[g.up k]? = some t) :
    Follows g (recognize s k (bare t)) (recognize s' (g.up k) t) := by
  have orNothing : ∀ {found found' : Option Recognition},
      Option.Rel (Follows g) found found' → Follows g (found.getD {}) (found'.getD {}) := by
    intro found found' hrel
    cases hrel with
    | some h => exact h
    | none => exact follows_nothing
  have hclass : s'.inClass (g.up k) = s.inClass k := by
    unfold Site.inClass
    rw [h.owner]
  have hsame : (bare t).isClassWord = t.isClassWord ∧ (∀ w, (bare t).isKeyword w = t.isKeyword w) ∧
      (bare t).isModifier = t.isModifier ∧ (bare t).kind = t.kind ∧ (bare t).text = t.text :=
    ⟨rfl, fun _ => rfl, rfl, rfl, rfl⟩
  unfold recognize
  simp only [hclass, hsame]
  refine orNothing ?_
  split
  · rename_i hword
    obtain ⟨hk, hk'⟩ := ne_of_word ht (Or.inl hword)
    exact classLikeAt_up h hk hk'
  split
  · rename_i hword
    obtain ⟨hk, hk'⟩ := ne_of_word ht (Or.inr (Or.inl hword))
    exact functionAt_up h hk hk'
  split
  · rename_i hword
    obtain ⟨hk, hk'⟩ := ne_of_word ht (Or.inr (Or.inr (Or.inl hword)))
    exact constantsAt_up h hk hk'
  split
  · exact propertiesAt_up h
  split
  · rename_i hword
    rw [Bool.and_eq_true, beq_iff_eq] at hword
    obtain ⟨hk, hk'⟩ := ne_of_word ht (Or.inr (Or.inr (Or.inr hword.1)))
    exact defineAt_up h hk hk'
  · exact .none

end Gap

/-! ## Two passes side by side -/

namespace Pass

variable {ts : List Token} {g : Gap} {n k : Nat} {t : Token}

/-- Nothing happens up to the index at which the search goes on. -/
theorem upTo_skip (d : Nat) (hlength : n + d ≤ ts.length) (hresume : n + d ≤ (upTo ts n).resumeAt) :
    (upTo ts (n + d)).outline.declarations = (upTo ts n).outline.declarations ∧
      (upTo ts (n + d)).resumeAt = (upTo ts n).resumeAt ∧
      ∀ k, n + d ≤ k → (upTo ts (n + d)).scopes.find? (·.holds k) =
        (upTo ts n).scopes.find? (·.holds k) := by
  induction d with
  | zero => exact ⟨rfl, rfl, fun _ _ => rfl⟩
  | succ d ih =>
      obtain ⟨hdeclarations, hresumeAt, hscopes⟩ := ih (by omega) (by omega)
      have hget : ts[n + d]? = some ts[n + d] := List.getElem?_eq_getElem (by omega)
      have hfound : foundAt ts (n + d) = {} := foundAt_of_lt (by omega)
      refine ⟨?_, ?_, fun k hk => ?_⟩
      · rw [← Nat.add_assoc, declarations_upTo_succ hget, hfound, List.append_nil, hdeclarations]
      · rw [← Nat.add_assoc, resumeAt_upTo_succ hget, hfound]
        exact hresumeAt
      · rw [← Nat.add_assoc, scopes_upTo_succ hget, hfound, Option.toList_none, List.nil_append,
          find?_leave _ (by omega), hscopes k (by omega)]

/-- What the pass over the narrow list and the pass over all tokens have in common when the first
one comes to index `n`. -/
structure Lifted (g : Gap) (n : Nat) (p p' : Pass) : Prop where
  declared : propertiesOf p'.outline.declarations = propertiesOf p.outline.declarations
  scope : ∀ k, n ≤ k → p'.scopes.find? (·.holds (g.up k)) =
    (p.scopes.find? (·.holds k)).map g.lift
  resume : ∀ k, n ≤ k → (p'.resumeAt ≤ g.up k ↔ p.resumeAt ≤ k)

theorem propertiesOf_append (ds es : List Declaration) :
    propertiesOf (ds ++ es) = propertiesOf ds ++ propertiesOf es := by
  rw [propertiesOf, List.filterMap_append, List.map_append]
  rfl

theorem follows_foundAt (hlifted : Lifted g n (upTo g.narrow n) (upTo g.tokens (g.up n)))
    (ht : g.tokens[g.up n]? = some t) :
    g.Follows (foundAt g.narrow n) (foundAt g.tokens (g.up n)) := by
  have hsites : g.Sites n (siteAt g.narrow n) (siteAt g.tokens (g.up n)) := by
    refine ⟨rfl, rfl, ?_⟩
    have hscope := hlifted.scope n (Nat.le_refl n)
    rw [← find?_leave _ (Nat.le_refl (g.up n)), ← find?_leave _ (Nat.le_refl n)] at hscope
    have hscope : (siteAt g.tokens (g.up n)).scopeAt? (g.up n) =
        ((siteAt g.narrow n).scopeAt? n).map g.lift := hscope
    rw [Site.owner?, Site.owner?, hscope]
    cases (siteAt g.narrow n).scopeAt? n with
    | none => rfl
    | some c => rfl
  have hrole : (bare t).role = t.role := rfl
  unfold foundAt
  rw [ht, g.getElem?_narrow ht]
  simp only [hrole, hlifted.resume n (Nat.le_refl n)]
  split
  · exact Gap.recognize_up hsites ht
  · exact Gap.follows_nothing

/-- One token more in both lists. -/
theorem lifted_succ (hlifted : Lifted g n (upTo g.narrow n) (upTo g.tokens (g.up n)))
    (ht : g.tokens[g.up n]? = some t) :
    Lifted g (n + 1) (upTo g.narrow (n + 1)) (upTo g.tokens (g.up n + 1)) := by
  have hfollows := follows_foundAt hlifted ht
  have hn := g.getElem?_narrow ht
  refine ⟨?_, fun k hk => ?_, fun k hk => ?_⟩
  · rw [declarations_upTo_succ ht, declarations_upTo_succ hn, propertiesOf_append,
      propertiesOf_append, hlifted.declared, hfollows.declared]
  · have hle : g.up n ≤ g.up k := g.up_le_up.2 (by omega)
    have hhere : (foundAt g.tokens (g.up n)).scope.filter (·.holds (g.up k)) =
        ((foundAt g.narrow n).scope.filter (·.holds k)).map g.lift := by
      rw [hfollows.scope]
      cases (foundAt g.narrow n).scope with
      | none => rfl
      | some c => simp only [Option.map_some, Option.filter_some, Gap.holds_lift]; split <;> rfl
    rw [scopes_upTo_succ ht, scopes_upTo_succ hn, List.find?_append, List.find?_append,
      find?_toList, find?_toList, find?_leave _ hle, find?_leave _ (by omega : n ≤ k),
      Option.map_or, hhere, hlifted.scope k (by omega)]
  · rw [resumeAt_upTo_succ ht, resumeAt_upTo_succ hn]
    have hresume := hfollows.resume
    generalize (foundAt g.narrow n).resumeAt = m at hresume ⊢
    generalize (foundAt g.tokens (g.up n)).resumeAt = m' at hresume ⊢
    cases hresume with
    | some hm => exact hm k
    | none => exact hlifted.resume k (by omega)

theorem exists_getElem?_up (h : n < g.narrow.length) : ∃ t, g.tokens[g.up n]? = some t := by
  have hget := g.getElem?_up n
  rw [List.getElem?_eq_getElem h, Option.map_eq_some_iff] at hget
  obtain ⟨t, ht, _⟩ := hget
  exact ⟨t, ht⟩

/-- **The two passes go side by side up to the modifier.** -/
theorem lifted_front (hn : n ≤ g.front.length) :
    Lifted g n (upTo g.narrow n) (upTo g.tokens (g.up n)) := by
  induction n with
  | zero =>
      rw [g.up_of_le (Nat.zero_le _), upTo_zero, upTo_zero]
      exact ⟨rfl, fun _ _ => rfl, fun _ _ => iff_of_true (Nat.zero_le _) (Nat.zero_le _)⟩
  | succ n ih =>
      obtain ⟨t, ht⟩ := exists_getElem?_up (show n < g.narrow.length by rw [g.length_narrow]; omega)
      rw [g.up_succ (by omega)]
      exact lifted_succ (ih (by omega)) ht

/-- **The two passes go side by side behind the gap**, if a statement that starts with the modifier
or in front of it reaches over the variable. -/
theorem lifted_back (hcovers : g.front.length + 1 < (upTo g.narrow (g.front.length + 1)).resumeAt)
    (hfront : g.front.length < n) (hn : n ≤ g.narrow.length) :
    Lifted g n (upTo g.narrow n) (upTo g.tokens (g.up n)) := by
  induction n with
  | zero => omega
  | succ n ih =>
      obtain ⟨t, ht⟩ := exists_getElem?_up hn
      by_cases hword : n = g.front.length
      · subst hword
        have hlifted := lifted_succ (lifted_front (Nat.le_refl _)) ht
        have hup : g.up (g.front.length + 1) = g.up g.front.length + 1 + g.between.length := by
          rw [g.up_of_lt (Nat.lt_succ_self _), g.up_of_le (Nat.le_refl _)]
        have hover : g.up (g.front.length + 1) ≤
            (upTo g.tokens (g.up g.front.length + 1)).resumeAt := by
          have := hlifted.resume (g.front.length + 1) (Nat.le_refl _)
          omega
        have hlength : g.up (g.front.length + 1) ≤ g.tokens.length := by
          rw [g.up_of_lt (Nat.lt_succ_self _), g.length_tokens]
          omega
        rw [hup] at hover hlength ⊢
        obtain ⟨hdeclarations, hresumeAt, hscopes⟩ := upTo_skip g.between.length hlength hover
        refine ⟨?_, fun k hk => ?_, fun k hk => ?_⟩
        · rw [hdeclarations, hlifted.declared]
        · rw [hscopes _ (by rw [← hup, g.up_le_up]; exact hk), hlifted.scope k hk]
        · rw [hresumeAt]
          exact hlifted.resume k hk
      · rw [g.up_succ hword]
        exact lifted_succ (ih (by omega) (by omega)) ht

/-- A property is recognised from its first variable on, and the search goes on behind it. -/
theorem firstVariable?_of_property {s : Site} {i : Nat} {r : Recognition} (h : Recognized s i t r)
    {d : PropertyDecl} (hd : .property d ∈ r.declarations) :
    ∃ v m, firstVariable? (tokensFrom s.tokens (i + 1)) = some v ∧ r.resumeAt = some m ∧
      i + 1 < m := by
  cases h with
  | nothing => cases hd
  | classLike => cases List.mem_singleton.1 hd
  | function => cases List.mem_singleton.1 hd
  | constants =>
      obtain ⟨p, _, hp⟩ := List.mem_map.1 hd
      cases hp
  | properties v word inside first =>
      obtain ⟨p, hp, _⟩ := List.mem_map.1 hd
      obtain ⟨hle, hlast⟩ := le_of_mem_slice (mem_of_mem_propertyNames hp)
      have hv : i + 1 ≤ v :=
        le_firstVariable? (fun p hp => (getElem?_of_mem_zipIdx_drop hp).2) first
      exact ⟨v, _, first, rfl, by omega⟩
  | define => cases List.mem_singleton.1 hd

theorem exists_of_propertiesOf_ne_nil {ds : List Declaration} (h : propertiesOf ds ≠ []) :
    ∃ d, .property d ∈ ds := by
  obtain ⟨x, hx⟩ := List.exists_mem_of_ne_nil _ h
  obtain ⟨d, hd, _⟩ := List.mem_map.1 hx
  exact ⟨d, (mem_filterMap_kind (fun e a => by cases e <;> simp [Declaration.property?])).1 hd⟩

/-- Without a first variable no property is found. -/
theorem propertiesOf_foundAt_eq_nil {i : Nat} (ht : ts[i]? = some t)
    (h : firstVariable? (tokensFrom ts (i + 1)) = none) :
    propertiesOf (foundAt ts i).declarations = [] := by
  by_contra hne
  obtain ⟨d, hd⟩ := exists_of_propertiesOf_ne_nil hne
  obtain ⟨v, _, hv, _⟩ := firstVariable?_of_property (recognized_foundAt ht) hd
  cases h.symm.trans hv

/-- The properties found at a token are those of the file that start there. -/
theorem propertiesOf_foundAt_ne_nil_iff (ts : List Token) (i : Nat) :
    propertiesOf (foundAt ts i).declarations ≠ [] ↔
      ∃ d ∈ (ofTokens ts).properties, d.span.first = i := by
  constructor
  · intro h
    obtain ⟨d, hd⟩ := exists_of_propertiesOf_ne_nil h
    cases ht : ts[i]? with
    | none =>
        rw [foundAt, ht] at hd
        cases hd
    | some t =>
        exact ⟨d, mem_properties.2 (mem_declarations_run.2 ⟨i, t, ht, hd⟩),
          ((recognized_foundAt ht).introduces ht hd).1⟩
  · rintro ⟨d, hd, rfl⟩ hnil
    obtain ⟨_, _, _, hfound⟩ := introduced_of_mem_run (mem_properties.1 hd)
    rw [propertiesOf, List.map_eq_nil_iff, List.filterMap_eq_nil_iff] at hnil
    cases hnil _ hfound

/-- The modifier starts a property with the gap if it does without. -/
theorem propertiesOf_foundAt_word (g : Gap) :
    propertiesOf (foundAt g.tokens g.front.length).declarations =
      propertiesOf (foundAt g.narrow g.front.length).declarations := by
  have hup := g.up_of_le (Nat.le_refl _)
  have hfollows := follows_foundAt (lifted_front (Nat.le_refl _))
    (by rw [hup]; exact g.getElem?_word)
  rw [hup] at hfollows
  exact hfollows.declared

/-- **The gap behind a modifier that starts a property does not change the properties.** -/
theorem properties_narrow (g : Gap)
    (hfound : propertiesOf (foundAt g.narrow g.front.length).declarations ≠ []) :
    propertiesOf (ofTokens g.tokens).declarations =
      propertiesOf (ofTokens g.narrow).declarations := by
  obtain ⟨d, hd⟩ := exists_of_propertiesOf_ne_nil hfound
  obtain ⟨_, m, _, hm, hlt⟩ :=
    firstVariable?_of_property (recognized_foundAt g.getElem?_narrow_word) hd
  have hcovers : g.front.length + 1 < (upTo g.narrow (g.front.length + 1)).resumeAt := by
    rw [resumeAt_upTo_succ g.getElem?_narrow_word, hm]
    exact hlt
  have hlength := g.length_narrow
  have hlifted := lifted_back hcovers (by omega) (Nat.le_refl _)
  have hup : g.up g.narrow.length = g.tokens.length := by
    rw [g.up_of_lt (by omega), g.length_tokens]
  rw [hup, ← run_eq_upTo, ← run_eq_upTo] at hlifted
  exact hlifted.declared

end Pass

end DocLint.Outline
