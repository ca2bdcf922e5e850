import DocLint.Proofs.Search

/-!
# What a token declares

* `Recognized`: the answers of the recognisers, each with its guards; `recognized` says that
  `recognize` gives no other one, so that a statement about what is recognised is a case analysis
  of `Recognized`.
* `Declaration.declaringToken`: the index of the word that introduces a declaration.
* `Declaration.scope?`: the braced body of a declaration; `Declaration.owner?`: the class of a
  member.
* `Recognized.doc_eq`, `Recognized.introduces`, `Recognized.owner_eq`: what every declaration at an
  index has in common; `Recognized.scope_spec`, `Recognized.of_scope`: the body that it opens.
-/

namespace DocLint

namespace Declaration

/-- The index of the token that introduces a declaration: the class word, the word `function`, the
first modifier of a property, the word `const` behind its modifiers, or the word `define`. -/
def declaringToken (ts : List Token) : Declaration → Nat
  | classLike d => d.span.first
  | function d => d.span.first
  | property d => d.span.first
  | constant d =>
    match d.form with
    | .const => d.span.first + (ts.drop d.span.first).findIdx (·.isKeyword "const")
    | .define => d.nameToken

/-- The token can introduce the declaration. -/
def isIntroducedBy (t : Token) : Declaration → Bool
  | classLike _ => t.isClassWord
  | function _ => t.isKeyword "function"
  | property _ => t.isModifier
  | constant d =>
    match d.form with
    | .const => t.isKeyword "const"
    | .define => t.kind == .name && Text.sameLetters t.text "define"

/-- Belongs to the class around it, if there is one. -/
def isMember : Declaration → Bool
  | classLike _ => false
  | function _ => true
  | property _ => true
  | constant d => d.form == .const

/-- The class of a member. -/
def owner? : Declaration → Option Text
  | classLike _ => none
  | function d => d.owner
  | property d => some d.owner
  | constant d => d.owner

/-- The braced body of a class or a function. -/
def scope? : Declaration → Option Outline.Scope
  | classLike d => d.body.map fun o => ⟨.classLike, d.name, o, d.span.last⟩
  | function d => d.body.map fun o => ⟨.function, d.name, o, d.span.last⟩
  | _ => none

end Declaration

namespace Token

theorem isKeyword_of_not_isSignificant {t : Token} (h : t.isSignificant = false) (word : Text) :
    t.isKeyword word = false := by
  have hkind : t.kind ≠ .keyword := by
    intro hkind
    simp [isSignificant, isTrivia, hkind] at h
  simp [isKeyword, hkind]

theorem isKeyword_const_of_isModifier {t : Token} (h : t.isModifier = true) :
    t.isKeyword "const" = false := by
  obtain ⟨w, hw, hword⟩ := List.any_eq_true.1 h
  simp only [isKeyword, Text.sameLetters, Bool.and_eq_true, beq_iff_eq] at hword
  have hne : ∀ w ∈ modifierWords, Text.lower w ≠ Text.lower "const" := by decide
  simp only [isKeyword, Text.sameLetters, hword.2, Bool.and_eq_false_iff]
  exact Or.inr (beq_eq_false_iff_ne.2 (hne w hw))

end Token

namespace Outline

/-! ## The answers of the recognisers -/

/-- What the token `t` at index `i` is recognised as. -/
inductive Recognized (s : Site) (i : Nat) (t : Token) : Recognition → Prop where
  | nothing : Recognized s i t {}
  | classLike (name : Token) (n : Nat) (word : t.isClassWord = true)
      (free : ¬((prevSignificant? s.tokens i).any fun p =>
        isMemberAccess p || p.isKeyword "new") = true)
      (next : nextSignificant? s.tokens (i + 1) = some (name, n)) (named : name.kind = .name) :
      Recognized s i t {
        declarations := [.classLike {
          name := name.text, keyword := Text.lower t.text,
          span := ⟨i, (bodyFrom s.tokens (n + 1)).last⟩,
          body := (bodyFrom s.tokens (n + 1)).opening, doc := s.doc }]
        scope := (bodyFrom s.tokens (n + 1)).opening.map fun o =>
          ⟨.classLike, name.text, o, (bodyFrom s.tokens (n + 1)).last⟩ }
  | function (name paren : Token) (n o : Nat) (word : t.isKeyword "function" = true)
      (free : ¬((prevSignificant? s.tokens i).any (·.isKeyword "use")) = true)
      (named : functionName? s.tokens i = some (name, n))
      (next : nextSignificant? s.tokens (n + 1) = some (paren, o))
      (opens : paren.kind = .openParen) :
      Recognized s i t {
        declarations := [.function {
          name := name.text, owner := s.owner? i,
          span := ⟨i, (bodyFrom s.tokens (matchingClose s.tokens o + 1)).last⟩,
          body := (bodyFrom s.tokens (matchingClose s.tokens o + 1)).opening,
          parameters := readParameters
            ((s.tokens.drop (o + 1)).take (matchingClose s.tokens o - (o + 1))),
          doc := s.doc }]
        scope := (bodyFrom s.tokens (matchingClose s.tokens o + 1)).opening.map fun b =>
          ⟨.function, name.text, b, (bodyFrom s.tokens (matchingClose s.tokens o + 1)).last⟩
        resumeAt := some (max
          ((bodyFrom s.tokens (matchingClose s.tokens o + 1)).opening.getD
            (bodyFrom s.tokens (matchingClose s.tokens o + 1)).last) (i + 1)) }
  | constants (word : t.isKeyword "const" = true)
      (free : ¬((prevSignificant? s.tokens i).any (·.isKeyword "use")) = true) :
      Recognized s i t {
        declarations := (constantNames 0 (.naming none)
            (slice s.tokens (i + 1) (statementEnd s.tokens (i + 1)))).map fun p => .constant {
          name := p.1.text, owner := s.owner? i, form := .const,
          span := ⟨statementStart s.tokens i, statementEnd s.tokens (i + 1)⟩,
          nameToken := p.2, doc := s.doc }
        resumeAt := some (statementEnd s.tokens (i + 1) + 1) }
  | properties (v : Nat) (word : t.isModifier = true) (inside : s.inClass i = true)
      (first : firstVariable? ((s.tokens.drop (i + 1)).zipIdx (i + 1)) = some v) :
      Recognized s i t {
        declarations := (propertyNames 0 true
            (slice s.tokens v (statementEnd s.tokens v))).map fun p => .property {
          name := Text.trimStartOf (· == '$') p.1.text, owner := (s.owner? i).getD [],
          span := ⟨i, statementEnd s.tokens v⟩, nameToken := p.2, doc := s.doc }
        resumeAt := some (statementEnd s.tokens v + 1) }
  | define (paren literal : Token) (o n last : Nat) (name : Text)
      (word : (t.kind == .name && Text.sameLetters t.text "define") = true)
      (free : ¬((prevSignificant? s.tokens i).any fun p =>
        isMemberAccess p || p.isKeyword "function" || p.isKeyword "new") = true)
      (next : nextSignificant? s.tokens (i + 1) = some (paren, o))
      (opens : paren.kind = .openParen)
      (argument : nextSignificant? s.tokens (o + 1) = some (literal, n))
      (quoted : literal.kind = .literal) (named : unquote? literal.text = some name)
      (ends : last = match nextSignificant? s.tokens (matchingClose s.tokens o + 1) with
        | some (u, j) => if u.kind = .semicolon then j else matchingClose s.tokens o
        | none => matchingClose s.tokens o) :
      Recognized s i t {
        declarations := [.constant {
          name := name, owner := none, form := .define, span := ⟨i, last⟩, nameToken := i,
          doc := s.doc }]
        resumeAt := some (last + 1) }

variable {s : Site} {i : Nat} {t : Token} {r : Recognition}

theorem recognized_classLike (word : t.isClassWord = true) (h : classLikeAt s i t = some r) :
    Recognized s i t r := by
  unfold classLikeAt at h
  split at h
  · cases h
  rename_i free
  simp only [Option.bind_eq_bind, Option.bind_eq_some_iff] at h
  obtain ⟨⟨name, n⟩, next, h⟩ := h
  split at h
  · cases h
  rename_i named
  cases h
  exact .classLike name n word free next (Decidable.not_not.1 named)

theorem recognized_function (word : t.isKeyword "function" = true) (h : functionAt s i = some r) :
    Recognized s i t r := by
  unfold functionAt at h
  simp only [Option.bind_eq_bind] at h
  split at h
  · cases h
  rename_i free
  simp only [Option.bind_eq_some_iff] at h
  obtain ⟨⟨name, n⟩, named, ⟨paren, o⟩, next, h⟩ := h
  split at h
  · cases h
  rename_i opens
  cases h
  exact .function name paren n o word free named next (Decidable.not_not.1 opens)

theorem recognized_constants (word : t.isKeyword "const" = true) (h : constantsAt s i = some r) :
    Recognized s i t r := by
  unfold constantsAt at h
  simp only at h
  split at h
  · cases h
  rename_i free
  cases h
  exact .constants word free

theorem recognized_properties (word : t.isModifier = true) (inside : s.inClass i = true)
    (h : propertiesAt s i = some r) : Recognized s i t r := by
  unfold propertiesAt at h
  simp only [Option.bind_eq_bind, Option.bind_eq_some_iff] at h
  obtain ⟨v, first, h⟩ := h
  cases h
  exact .properties v word inside first

theorem recognized_define (word : (t.kind == .name && Text.sameLetters t.text "define") = true)
    (h : defineAt s i = some r) : Recognized s i t r := by
  unfold defineAt at h
  simp only [Option.bind_eq_bind, Option.bind_none] at h
  split at h
  · cases h
  rename_i free
  simp only [Option.bind_eq_some_iff] at h
  obtain ⟨⟨paren, o⟩, next, h⟩ := h
  split at h
  · cases h
  rename_i opens
  simp only [Option.bind_eq_some_iff] at h
  obtain ⟨⟨literal, n⟩, argument, h⟩ := h
  split at h
  · cases h
  rename_i quoted
  obtain ⟨name, named, h⟩ := Option.bind_eq_some_iff.1 h
  cases h
  exact .define paren literal o n _ name word free next (Decidable.not_not.1 opens) argument
    (Decidable.not_not.1 quoted) named rfl

/-- **A token is recognised in one of these ways or not at all.** -/
theorem recognized (s : Site) (i : Nat) (t : Token) : Recognized s i t (recognize s i t) := by
  have orNothing : ∀ {found : Option Recognition},
      (∀ r, found = some r → Recognized s i t r) → Recognized s i t (found.getD {}) := by
    intro found h
    cases found with
    | none => exact .nothing
    | some r => exact h r rfl
  unfold recognize
  refine orNothing fun r h => ?_
  split at h
  · rename_i word
    exact recognized_classLike word h
  split at h
  · rename_i word
    exact recognized_function word h
  split at h
  · rename_i word
    exact recognized_constants word h
  split at h
  · rename_i word
    rw [Bool.and_eq_true] at word
    exact recognized_properties word.1 word.2 h
  split at h
  · rename_i word
    exact recognized_define word h
  · cases h

/-! ## What every answer has in common -/

namespace Recognized

variable {d : Declaration}

/-- Every declaration takes the documentation that waits. -/
theorem doc_eq (h : Recognized s i t r) (hd : d ∈ r.declarations) : d.doc = s.doc := by
  cases h with
  | nothing => cases hd
  | classLike => rw [List.mem_singleton.1 hd]; rfl
  | function => rw [List.mem_singleton.1 hd]; rfl
  | constants =>
      obtain ⟨p, _, rfl⟩ := List.mem_map.1 hd
      rfl
  | properties =>
      obtain ⟨p, _, rfl⟩ := List.mem_map.1 hd
      rfl
  | define => rw [List.mem_singleton.1 hd]; rfl

end Recognized

/-- The word `const` is the first one from the start of its statement on. -/
theorem findIdx_const {ts : List Token} (ht : ts[i]? = some t) (word : t.isKeyword "const" = true) :
    statementStart ts i + (ts.drop (statementStart ts i)).findIdx (·.isKeyword "const") = i := by
  obtain ⟨hi, rfl⟩ := List.getElem?_eq_some_iff.1 ht
  obtain ⟨hle, hpast⟩ := statementStart_spec (Nat.le_of_lt hi)
  generalize statementStart ts i = start at hle hpast ⊢
  have hidx : (ts.drop start).findIdx (·.isKeyword "const") = i - start := by
    rw [List.findIdx_eq (by rw [List.length_drop]; omega)]
    refine ⟨by simpa [show start + (i - start) = i by omega] using word, ?_⟩
    intro j hj
    have hget : ts[start + j]? = some ts[start + j] := List.getElem?_eq_getElem (by omega)
    rw [List.getElem_drop]
    -- a token passed over on the way back is no keyword, or a modifier
    rcases hpast (start + j) _ (by omega) (by omega) hget with hsig | hmod
    · exact Token.isKeyword_of_not_isSignificant hsig _
    · exact Token.isKeyword_const_of_isModifier hmod
  omega

namespace Recognized

variable {d : Declaration}

/-- A declaration is introduced by the token at which it is recognised. -/
theorem introduces (h : Recognized s i t r) (ht : s.tokens[i]? = some t)
    (hd : d ∈ r.declarations) : d.declaringToken s.tokens = i ∧ d.isIntroducedBy t = true := by
  cases h with
  | nothing => cases hd
  | classLike name n word => rw [List.mem_singleton.1 hd]; exact ⟨rfl, word⟩
  | function name paren n o word => rw [List.mem_singleton.1 hd]; exact ⟨rfl, word⟩
  | constants word =>
      obtain ⟨p, _, rfl⟩ := List.mem_map.1 hd
      exact ⟨findIdx_const ht word, word⟩
  | properties v word =>
      obtain ⟨p, _, rfl⟩ := List.mem_map.1 hd
      exact ⟨rfl, word⟩
  | define paren literal o n last name word => rw [List.mem_singleton.1 hd]; exact ⟨rfl, word⟩

/-- The token that stands for a declaration is there. -/
theorem anchor_lt (h : Recognized s i t r) (ht : s.tokens[i]? = some t)
    (hd : d ∈ r.declarations) : d.anchor < s.tokens.length := by
  have hi : i < s.tokens.length := (List.getElem?_eq_some_iff.1 ht).1
  cases h with
  | nothing => cases hd
  | classLike => rw [List.mem_singleton.1 hd]; exact hi
  | function => rw [List.mem_singleton.1 hd]; exact hi
  | constants =>
      obtain ⟨p, hp, rfl⟩ := List.mem_map.1 hd
      rcases mem_of_mem_constantNames hp with hp | ⟨q, hq, _⟩
      · exact (List.getElem?_eq_some_iff.1 (getElem?_of_mem_slice hp).1).1
      · cases hq
  | properties =>
      obtain ⟨p, hp, rfl⟩ := List.mem_map.1 hd
      exact (List.getElem?_eq_some_iff.1 (getElem?_of_mem_slice (mem_of_mem_propertyNames hp)).1).1
  | define => rw [List.mem_singleton.1 hd]; exact hi

/-- The body that is opened is that of the declaration. -/
theorem scopes_eq (h : Recognized s i t r) :
    r.declarations.filterMap Declaration.scope? = r.scope.toList := by
  cases h with
  | nothing => rfl
  | classLike name n => cases (bodyFrom s.tokens (n + 1)).opening <;> simp [Declaration.scope?]
  | function name paren n o =>
      cases (bodyFrom s.tokens (matchingClose s.tokens o + 1)).opening <;>
        simp [Declaration.scope?]
  | constants => simp [Declaration.scope?, List.filterMap_map, Function.comp_def]
  | properties => simp [Declaration.scope?, List.filterMap_map, Function.comp_def]
  | define => rfl

theorem scope_of_mem (h : Recognized s i t r) (hd : d ∈ r.declarations) {c : Scope}
    (hc : d.scope? = some c) : r.scope = some c := by
  have hmem : c ∈ r.declarations.filterMap Declaration.scope? := List.mem_filterMap.2 ⟨d, hd, hc⟩
  rw [h.scopes_eq] at hmem
  exact Option.mem_toList.1 hmem

theorem exists_of_scope (h : Recognized s i t r) {c : Scope} (hc : r.scope = some c) :
    ∃ d ∈ r.declarations, d.scope? = some c := by
  have hmem : c ∈ r.declarations.filterMap Declaration.scope? := by
    rw [h.scopes_eq, hc]
    exact List.mem_singleton_self c
  exact List.mem_filterMap.1 hmem

/-- What has a body is the only thing declared there, and starts there. -/
theorem of_scope (h : Recognized s i t r) (hd : d ∈ r.declarations)
    (hc : d.scope?.isSome = true) : r.declarations = [d] ∧ d.span.first = i := by
  cases h with
  | nothing => cases hd
  | classLike => rw [List.mem_singleton.1 hd]; exact ⟨rfl, rfl⟩
  | function => rw [List.mem_singleton.1 hd]; exact ⟨rfl, rfl⟩
  | constants =>
      obtain ⟨p, _, rfl⟩ := List.mem_map.1 hd
      cases hc
  | properties =>
      obtain ⟨p, _, rfl⟩ := List.mem_map.1 hd
      cases hc
  | define => rw [List.mem_singleton.1 hd] at hc; cases hc

/-- A member belongs to the class around the word that introduces it. -/
theorem owner_eq (h : Recognized s i t r) (hd : d ∈ r.declarations) (hm : d.isMember = true) :
    d.owner? = s.owner? i := by
  cases h with
  | nothing => cases hd
  | classLike => rw [List.mem_singleton.1 hd] at hm; cases hm
  | function => rw [List.mem_singleton.1 hd]; rfl
  | constants =>
      obtain ⟨p, _, rfl⟩ := List.mem_map.1 hd
      rfl
  | properties v word inside =>
      obtain ⟨p, _, rfl⟩ := List.mem_map.1 hd
      obtain ⟨c, hc⟩ := Option.isSome_iff_exists.1 inside
      simp [Declaration.owner?, hc]
  | define => rw [List.mem_singleton.1 hd] at hm; cases hm

/-- The search for declarations goes on behind the index. -/
theorem lt_resumeAt (h : Recognized s i t r) (ht : s.tokens[i]? = some t) {m : Nat}
    (hm : r.resumeAt = some m) : i < m := by
  have hi : i < s.tokens.length := (List.getElem?_eq_some_iff.1 ht).1
  cases h with
  | nothing => cases hm
  | classLike => cases hm
  | function => cases hm; omega
  | constants =>
      cases hm
      rcases le_statementEnd s.tokens (i + 1) with h | h
      · omega
      · rw [h, lastIndex]; omega
  | properties v word inside first =>
      cases hm
      have hv : i + 1 ≤ v :=
        le_firstVariable? (fun p hp => (getElem?_of_mem_zipIdx_drop hp).2) first
      rcases le_statementEnd s.tokens v with h | h
      · omega
      · rw [h, lastIndex]; omega
  | define paren literal o n last name word free next opens argument quoted named ends =>
      cases hm
      obtain ⟨hget, ho, _⟩ := nextSignificant?_eq_some next
      have hclose := le_matchingClose (List.getElem?_eq_some_iff.1 hget).1
      split at ends
      · rename_i u j hj
        have := (nextSignificant?_eq_some hj).2.1
        split at ends <;> omega
      · omega

/-- A body opens behind the word that introduces it: with the first brace there is, or else at an
index from which the search for declarations goes on. -/
theorem scope_spec (h : Recognized s i t r) {c : Scope} (hc : r.scope = some c) :
    i < c.opening ∧ (∃ b, s.tokens[c.opening]? = some b ∧ b.kind = .openBrace) ∧
      ((∀ k u, i < k → k < c.opening → s.tokens[k]? = some u → u.kind ≠ .openBrace) ∨
        ∃ m, r.resumeAt = some m ∧ c.opening ≤ m) := by
  cases h with
  | nothing => cases hc
  | classLike name n word free next named =>
      obtain ⟨o, ho, rfl⟩ := Option.map_eq_some_iff.1 hc
      obtain ⟨hname, hn, hskip⟩ := nextSignificant?_eq_some next
      obtain ⟨hle, hbrace, _, hfirst⟩ := bodyFrom_opening ho
      refine ⟨by show i < o; omega, hbrace, Or.inl fun k u hk hlt hu => ?_⟩
      rcases Nat.lt_trichotomy k n with hkn | rfl | hkn
      · have := hskip k u (by omega) hkn hu
        intro hkind
        simp [Token.isSignificant, Token.isTrivia, hkind] at this
      · rw [hname, Option.some.injEq] at hu
        rw [← hu, named]
        decide
      · exact hfirst k u hkn hlt hu
  | function name paren n o word free named next opens =>
      obtain ⟨b, hb, rfl⟩ := Option.map_eq_some_iff.1 hc
      obtain ⟨hparen, ho, _⟩ := nextSignificant?_eq_some next
      have hn := functionName?_eq_some named
      have hclose := le_matchingClose (List.getElem?_eq_some_iff.1 hparen).1
      obtain ⟨hle, hbrace, _, _⟩ := bodyFrom_opening hb
      refine ⟨by show i < b; omega, hbrace, Or.inr ⟨_, rfl, ?_⟩⟩
      rw [hb, Option.getD_some]
      exact Nat.le_max_left _ _
  | constants => cases hc
  | properties => cases hc
  | define => cases hc

end Recognized

end Outline

end DocLint
