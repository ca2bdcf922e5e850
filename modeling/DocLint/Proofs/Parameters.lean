import DocLint.Proofs.Balance
import DocLint.Proofs.Separation

/-!
# The parameters of a function

A list of parameters is read by cutting it at the commas outside of groups and by reading each piece
up to its variable. For a list that is written as a list of parameters the pieces are the
parameters, and the variable of a piece is the name of its parameter: a default value stands behind
it, and the type in front of it has no variable.

* `WrittenParameter`: a parameter as it is written, and `WrittenParameter.parameter`, what it says.
* `ParameterList`: parameters with commas between them; `FunctionDecl.Lists`: the head of a function
  with such a list.
* `splitCommas_append`: a cut does not part balanced tokens.
* `readParameters_of_list`: the parameters of a list; `Recognized.parameters_eq`: those of a head.
* `parameters_of_lists`: the parameters of a function are those that its head lists.
* `dots_in_type`: three dots in a type are taken for the mark of a variadic parameter.
-/

namespace DocLint

open Outline

/-- A parameter as it is written, without the tokens that have no significance. -/
structure WrittenParameter where
  /-- The modifiers of a promoted parameter. -/
  modifiers : List Token := []
  /-- The declared type. -/
  type : List Token
  /-- The `&` of a parameter that is passed by reference. -/
  reference : Option Token := none
  /-- The `...` of a variadic parameter. -/
  dots : Option Token := none
  /-- The variable. -/
  name : Token
  /-- A default value, or a block behind the variable. -/
  tail : List Token := []
  isModifier : ∀ t ∈ modifiers, t.isModifier = true := by decide
  type_balanced : Balanced type := by decide
  type_variable : ∀ t ∈ type, t.kind ≠ .dollarName := by decide
  type_equals : ∀ t ∈ type, t.isPunct "=" = false := by decide
  type_comma : ∀ t ∈ outside type, t.kind ≠ .comma := by decide
  isReference : ∀ t ∈ reference, t.isPunct "&" = true := by decide
  isDots : ∀ t ∈ dots, t.isPunct "..." = true := by decide
  isVariable : name.kind = .dollarName := by decide
  tail_balanced : Balanced tail := by decide
  tail_comma : ∀ t ∈ outside tail, t.kind ≠ .comma := by decide

namespace WrittenParameter

/-- The tokens in front of the variable. -/
def front (p : WrittenParameter) : List Token :=
  p.modifiers ++ p.type ++ p.reference.toList ++ p.dots.toList

/-- The tokens of the parameter. -/
def tokens (p : WrittenParameter) : List Token := p.front ++ p.name :: p.tail

/-- The tokens of the type that are kept: neither modifiers nor `&` nor `...`. -/
def isKept (t : Token) : Bool := !(t.isModifier || t.isPunct "&" || t.isPunct "...")

/-- The type as it is kept. -/
def hint (p : WrittenParameter) : Text := Token.textOf (p.type.filter isKept)

/-- Three dots stand in front of the variable. -/
def isVariadic (p : WrittenParameter) : Bool := p.dots.isSome || p.type.any (·.isPunct "...")

/-- What the parameter says. -/
def parameter (p : WrittenParameter) : Parameter :=
  ⟨p.hint, if p.isVariadic then "..." ++ p.name.text else p.name.text⟩

end WrittenParameter

/-- Parameters with commas between them, and maybe one behind the last. -/
inductive ParameterList : List WrittenParameter → List Token → Prop where
  | empty : ParameterList [] []
  | listed {ps : List WrittenParameter} {us : List Token}
      (items : Listing WrittenParameter.tokens (·.kind = .comma) ps us) : ParameterList ps us
  | trailing {ps : List WrittenParameter} {us : List Token} {comma : Token}
      (items : Listing WrittenParameter.tokens (·.kind = .comma) ps us)
      (last : comma.kind = .comma) : ParameterList ps (us ++ [comma])

/-- The head of the function is written with the parameters in parentheses. -/
inductive FunctionDecl.Lists (ts : List Token) (g : FunctionDecl) (ps : List WrittenParameter) :
    Prop where
  | head (word name opening closing : Token) (reference body rest : List Token)
      (written : significant (ts.drop g.span.first) =
        word :: (reference ++ name :: opening :: (body ++ closing :: rest)))
      (isReference : reference = [] ∨ ∃ t, reference = [t] ∧ t.isPunct "&" = true)
      (named : name.kind = .name ∨ name.kind = .keyword)
      (opens : opening.kind = .openParen) (closes : closing.kind = .closeParen)
      (list : ParameterList ps body)

/-! ## One parameter -/

theorem Token.isBracket_of_isPunct {t : Token} {s : Text} (h : t.isPunct s = true) :
    t.kind.isBracket = false := by
  rw [Token.isPunct, Bool.and_eq_true, beq_iff_eq] at h
  rw [h.1]
  rfl

theorem Token.isBracket_of_isModifier {t : Token} (h : t.isModifier = true) :
    t.kind.isBracket = false := by
  rw [Token.kind_of_isModifier h]
  rfl

namespace WrittenParameter

/-- A token that gives nothing to a type, dots apart. -/
theorem isKept_of_skipped {t : Token} (h : (t.isModifier || t.isPunct "&") = true) :
    isKept t = false ∧ t.isPunct "..." = false ∧ t.kind ≠ .dollarName ∧
      t.isPunct "=" = false := by
  refine ⟨by rw [isKept, h]; rfl, ?_⟩
  rcases Bool.or_eq_true_iff.1 h with hm | ha
  · have hkind := Token.kind_of_isModifier hm
    exact ⟨by rw [Token.isPunct, hkind]; rfl, by rw [hkind]; decide,
      by rw [Token.isPunct, hkind]; rfl⟩
  · rw [Token.isPunct, Bool.and_eq_true, beq_iff_eq, beq_iff_eq] at ha
    exact ⟨by rw [Token.isPunct, ha.1, ha.2]; rfl, by rw [ha.1]; decide,
      by rw [Token.isPunct, ha.1, ha.2]; rfl⟩

variable (p : WrittenParameter)

/-- The tokens in front of the variable and outside of groups are no commas. -/
theorem front_spec : Balanced p.front ∧ ∀ t ∈ outside p.front, t.kind ≠ .comma := by
  have hmodifiers : Balanced p.modifiers :=
    balanced_of_plain fun t ht => Token.isBracket_of_isModifier (p.isModifier t ht)
  have hreference : Balanced p.reference.toList := balanced_of_plain fun t ht =>
    Token.isBracket_of_isPunct (p.isReference t (Option.mem_toList.1 ht))
  have hdots : Balanced p.dots.toList := balanced_of_plain fun t ht =>
    Token.isBracket_of_isPunct (p.isDots t (Option.mem_toList.1 ht))
  refine ⟨((hmodifiers.append p.type_balanced).append hreference).append hdots, ?_⟩
  have punct : ∀ {t : Token} {s : Text}, t.isPunct s = true → t.kind ≠ .comma := by
    intro t s h hcomma
    rw [Token.isPunct, hcomma] at h
    cases h
  intro t ht
  rw [front, outside_append ((hmodifiers.append p.type_balanced).append hreference),
    outside_append (hmodifiers.append p.type_balanced), outside_append hmodifiers] at ht
  simp only [List.mem_append] at ht
  rcases ht with ((ht | ht) | ht) | ht
  · rw [Token.kind_of_isModifier (p.isModifier t (mem_of_mem_outsideFrom ht))]
    decide
  · exact p.type_comma t ht
  · exact punct (p.isReference t (Option.mem_toList.1 (mem_of_mem_outsideFrom ht)))
  · exact punct (p.isDots t (Option.mem_toList.1 (mem_of_mem_outsideFrom ht)))

theorem skipped_of_mem_modifiers {t : Token} (ht : t ∈ p.modifiers) :
    (t.isModifier || t.isPunct "&") = true :=
  Bool.or_eq_true_iff.2 (Or.inl (p.isModifier t ht))

theorem skipped_of_mem_reference {t : Token} (ht : t ∈ p.reference.toList) :
    (t.isModifier || t.isPunct "&") = true :=
  Bool.or_eq_true_iff.2 (Or.inr (p.isReference t (Option.mem_toList.1 ht)))

theorem isDots_of_mem {t : Token} (ht : t ∈ p.dots.toList) : t.isPunct "..." = true :=
  p.isDots t (Option.mem_toList.1 ht)

/-- Nothing in front of the variable ends the reading. -/
theorem not_ends_of_mem_front {t : Token} (ht : t ∈ p.front) :
    t.kind ≠ .dollarName ∧ t.isPunct "=" = false := by
  simp only [front, List.mem_append] at ht
  rcases ht with ((ht | ht) | ht) | ht
  · exact (isKept_of_skipped (p.skipped_of_mem_modifiers ht)).2.2
  · exact ⟨p.type_variable t ht, p.type_equals t ht⟩
  · exact (isKept_of_skipped (p.skipped_of_mem_reference ht)).2.2
  · have hd := p.isDots_of_mem ht
    rw [Token.isPunct, Bool.and_eq_true, beq_iff_eq, beq_iff_eq] at hd
    exact ⟨by rw [hd.1]; decide, by rw [Token.isPunct, hd.1, hd.2]; rfl⟩

/-- Only tokens of the type are kept. -/
theorem filter_front : p.front.filter isKept = p.type.filter isKept := by
  have hnone : ∀ us : List Token, (∀ t ∈ us, isKept t = false) → us.filter isKept = [] :=
    fun us hus => List.filter_eq_nil_iff.2 fun t ht => Bool.eq_false_iff.1 (hus t ht)
  rw [front, List.filter_append, List.filter_append, List.filter_append,
    hnone p.modifiers fun t ht => (isKept_of_skipped (p.skipped_of_mem_modifiers ht)).1,
    hnone p.reference.toList fun t ht => (isKept_of_skipped (p.skipped_of_mem_reference ht)).1,
    hnone p.dots.toList fun t ht => by rw [isKept, p.isDots_of_mem ht, Bool.or_true]; rfl,
    List.nil_append, List.append_nil, List.append_nil]

theorem any_front : p.front.any (·.isPunct "...") = p.isVariadic := by
  have hnone : ∀ us : List Token, (∀ t ∈ us, (t.isModifier || t.isPunct "&") = true) →
      us.any (·.isPunct "...") = false := fun us hus =>
    List.any_eq_false.2 fun t ht => Bool.eq_false_iff.1 (isKept_of_skipped (hus t ht)).2.1
  have hsome : p.dots.toList.any (·.isPunct "...") = p.dots.isSome := by
    cases hd : p.dots with
    | none => rfl
    | some t => exact Bool.or_eq_true_iff.2 (Or.inl (p.isDots t hd))
  rw [front, List.any_append, List.any_append, List.any_append,
    hnone _ fun _ => p.skipped_of_mem_modifiers, hnone _ fun _ => p.skipped_of_mem_reference, hsome,
    Bool.false_or, Bool.or_false, Bool.or_comm]
  rfl

theorem tokens_spec : Balanced p.tokens ∧ ∀ t ∈ outside p.tokens, t.kind ≠ .comma := by
  have hname : p.name.kind.isBracket = false := by
    rw [p.isVariable]
    rfl
  refine ⟨p.front_spec.1.append (.token hname p.tail_balanced), fun t ht => ?_⟩
  rw [tokens, outside_append p.front_spec.1, outside_token hname] at ht
  rcases List.mem_append.1 ht with ht | ht
  · exact p.front_spec.2 t ht
  rcases List.mem_cons.1 ht with rfl | ht
  · rw [p.isVariable]
    decide
  · exact p.tail_comma t ht

end WrittenParameter

namespace Outline

/-- What the tokens in front of a variable say. -/
theorem readParameter_append {us : List Token} (hint : Text) (variadic : Bool)
    (h : ∀ t ∈ us, t.isSignificant = true ∧ t.kind ≠ .dollarName ∧ t.isPunct "=" = false)
    (vs : List Token) :
    readParameter hint variadic (us ++ vs) =
      readParameter (hint ++ Token.textOf (us.filter WrittenParameter.isKept))
        (variadic || us.any (·.isPunct "...")) vs := by
  induction us generalizing hint variadic with
  | nil => simp [Token.textOf]
  | cons t us ih =>
      obtain ⟨⟨hs, hvar, hequals⟩, hus⟩ := List.forall_mem_cons.1 h
      rw [List.cons_append, readParameter, if_neg (by simp [hs]), if_neg hvar, List.any_cons]
      cases hskip : t.isModifier || t.isPunct "&" with
      | true =>
          obtain ⟨hkept, hdots, _⟩ := WrittenParameter.isKept_of_skipped hskip
          rw [if_pos rfl, ih _ _ hus, List.filter_cons_of_neg (Bool.eq_false_iff.1 hkept), hdots,
            Bool.false_or]
      | false =>
          have hkept : WrittenParameter.isKept t = !t.isPunct "..." := by
            rw [WrittenParameter.isKept, hskip, Bool.false_or]
          rw [if_neg (by decide)]
          cases hdots : t.isPunct "..." with
          | true =>
              rw [hdots] at hkept
              rw [if_pos rfl, ih _ _ hus, List.filter_cons_of_neg (Bool.eq_false_iff.1 hkept),
                Bool.true_or, Bool.or_true]
          | false =>
              rw [hdots] at hkept
              rw [if_neg (by decide), hequals, if_neg (by decide), ih _ _ hus,
                List.filter_cons_of_pos hkept, Bool.false_or]
              simp [Token.textOf]

/-- **A written parameter is read as what it says.** -/
theorem readParameter_tokens (p : WrittenParameter) (h : ∀ t ∈ p.tokens, t.isSignificant = true) :
    readParameter [] false p.tokens = some p.parameter := by
  have hfront : ∀ t ∈ p.front,
      t.isSignificant = true ∧ t.kind ≠ .dollarName ∧ t.isPunct "=" = false := fun t ht =>
    ⟨h t (List.mem_append_left _ ht), p.not_ends_of_mem_front ht⟩
  have hname : p.name.isSignificant = true := Token.isSignificant_of_kind p.isVariable rfl
  rw [WrittenParameter.tokens, readParameter_append [] false hfront, p.filter_front, p.any_front,
    readParameter, if_neg (by simp [hname]), if_pos p.isVariable, List.nil_append, Bool.false_or]
  rfl

/-! ## A list of parameters -/

theorem splitCommas_cons {depth : Nat} {t : Token} (h : depth = 0 → t.kind ≠ .comma)
    (ts : List Token) :
    splitCommas depth (t :: ts) =
      (splitCommas (depthAfter depth t.kind) ts).modifyHead (t :: ·) := by
  rw [splitCommas, if_neg fun hk => h hk.2 hk.1]
  cases hparts : splitCommas (depthAfter depth t.kind) ts with
  | nil => exact absurd hparts (splitCommas_ne_nil _ _)
  | cons part parts => rfl

/-- **A cut does not part balanced tokens.** -/
theorem splitCommas_append {us : List Token} (h : Balanced us) {depth : Nat}
    (hout : depth = 0 → ∀ t ∈ outside us, t.kind ≠ .comma) (vs : List Token) :
    splitCommas depth (us ++ vs) = (splitCommas depth vs).modifyHead (us ++ ·) := by
  induction h generalizing depth vs with
  | nil => cases hparts : splitCommas depth vs <;> simp [hparts]
  | @token t us plain more ih =>
      have hout' : depth = 0 → t.kind ≠ .comma ∧ ∀ t ∈ outside us, t.kind ≠ .comma := fun hd => by
        have := hout hd
        rw [outside_token plain] at this
        exact List.forall_mem_cons.1 this
      rw [List.cons_append, splitCommas_cons fun hd => (hout' hd).1, depthAfter_plain plain,
        ih fun hd => (hout' hd).2, List.modifyHead_modifyHead]
      rfl
  | @group o c inner us opens inside closes more ihInside ihMore =>
      have hout' : depth = 0 → ∀ t ∈ outside us, t.kind ≠ .comma := fun hd => by
        have := hout hd
        rw [outside_group opens inside closes] at this
        exact (List.forall_mem_cons.1 this).2
      have hopen : o.kind ≠ .comma := fun hk => by
        rw [hk] at opens
        cases opens
      rw [List.cons_append, List.append_assoc, List.cons_append, splitCommas_cons fun _ => hopen,
        depthAfter_opens opens, ihInside fun hd => absurd hd (by omega),
        splitCommas_cons fun hd => absurd hd (by omega), closes, depthAfter_pairOf, ihMore hout',
        List.modifyHead_modifyHead, List.modifyHead_modifyHead, List.modifyHead_modifyHead]
      congr 1
      funext part
      simp

/-- **The parameters of a list are read one by one**, a comma behind the last one or not. -/
theorem readParameters_listing {ps : List WrittenParameter} {us : List Token}
    (h : Listing WrittenParameter.tokens (·.kind = .comma) ps us)
    (hus : ∀ t ∈ us, t.isSignificant = true) {rest : List Token}
    (hrest : rest = [] ∨ ∃ comma : Token, comma.kind = .comma ∧ rest = [comma]) :
    readParameters (us ++ rest) = ps.map (·.parameter) := by
  -- a comma ends a parameter, and so does the end of the list
  have hcomma : ∀ {comma : Token}, comma.kind = .comma → ∀ vs : List Token,
      splitCommas 0 (comma :: vs) = [] :: splitCommas 0 vs := fun hk vs => by
    rw [splitCommas, if_pos ⟨hk, rfl⟩]
  induction h with
  | single p =>
      have hp := readParameter_tokens p hus
      rw [readParameters, splitCommas_append p.tokens_spec.1 fun _ => p.tokens_spec.2]
      rcases hrest with rfl | ⟨comma, hk, rfl⟩
      · simp [splitCommas, hp]
      · rw [hcomma hk]
        simp [splitCommas, hp, readParameter]
  | @cons ps us p comma between more ih =>
      have hp := readParameter_tokens p fun t ht => hus t (List.mem_append_left _ ht)
      have hmore := ih fun t ht => hus t (List.mem_append_right _ (List.mem_cons_of_mem _ ht))
      rw [readParameters] at hmore
      rw [List.append_assoc, List.cons_append, readParameters,
        splitCommas_append p.tokens_spec.1 fun _ => p.tokens_spec.2, hcomma between]
      simp [hp, hmore]

theorem balanced_listing {ps : List WrittenParameter} {us : List Token}
    (h : Listing WrittenParameter.tokens (·.kind = .comma) ps us) : Balanced us := by
  induction h with
  | single p => exact p.tokens_spec.1
  | cons p between more ih =>
      refine p.tokens_spec.1.append (.token ?_ ih)
      rw [between]
      rfl

theorem balanced_of_list {ps : List WrittenParameter} {us : List Token} (h : ParameterList ps us) :
    Balanced us := by
  cases h with
  | empty => exact .nil
  | listed items => exact balanced_listing items
  | trailing items last => exact (balanced_listing items).append (.token (by rw [last]; rfl) .nil)

/-- **The parameters of a list.** -/
theorem readParameters_of_list {ps : List WrittenParameter} {us : List Token}
    (h : ParameterList ps us) (hus : ∀ t ∈ us, t.isSignificant = true) :
    readParameters us = ps.map (·.parameter) := by
  cases h with
  | empty => rfl
  | listed items => simpa using readParameters_listing items hus (Or.inl rfl)
  | trailing items last =>
      exact readParameters_listing items (fun t ht => hus t (List.mem_append_left _ ht))
        (Or.inr ⟨_, last, rfl⟩)

/-! ## The head of a function -/

section Head

variable {ts : List Token}

/-- What follows the next significant token. -/
theorem significant_drop_of_nextSignificant? {start n : Nat} {t : Token}
    (h : nextSignificant? ts start = some (t, n)) :
    significant (ts.drop start) = t :: significant (ts.drop (n + 1)) := by
  unfold nextSignificant? at h
  generalize hus : ts.drop start = us at h ⊢
  induction us generalizing start with
  | nil => cases h
  | cons u us ih =>
      have hrest := (drop_eq_cons hus).2
      rw [List.zipIdx_cons, List.find?_cons] at h
      cases hs : u.isSignificant with
      | true =>
          simp only [hs] at h
          cases h
          rw [significant_cons_of_pos hs, hrest]
      | false =>
          simp only [hs] at h
          rw [significant_cons_of_neg hs]
          exact ih hrest h

theorem significant_drop_of_functionName? {i n : Nat} {name : Token}
    (h : functionName? ts i = some (name, n)) :
    ∃ reference : List Token, (reference = [] ∨ ∃ t, reference = [t] ∧ t.isPunct "&" = true) ∧
      significant (ts.drop (i + 1)) = reference ++ name :: significant (ts.drop (n + 1)) ∧
      (name.kind = .name ∨ name.kind = .keyword) := by
  unfold functionName? at h
  simp only [Option.bind_eq_bind, Option.bind_eq_some_iff] at h
  obtain ⟨⟨a, k⟩, hnext, h⟩ := h
  have hfirst := significant_drop_of_nextSignificant? hnext
  split at h
  · rename_i hmark
    obtain ⟨⟨b, m⟩, hskip, h⟩ := Option.bind_eq_some_iff.1 h
    split at h
    · rename_i hkind
      cases h
      exact ⟨[a], Or.inr ⟨a, rfl, hmark⟩,
        by rw [hfirst, significant_drop_of_nextSignificant? hskip]; rfl, hkind⟩
    · cases h
  · obtain ⟨⟨b, m⟩, hsame, h⟩ := Option.bind_eq_some_iff.1 h
    cases hsame
    split at h
    · rename_i hkind
      cases h
      exact ⟨[], Or.inl rfl, hfirst, hkind⟩
    · cases h

/-- A name is no mark of a reference, so there is one way to read a head. -/
theorem eq_of_reference_append {us vs : List Token} {name name' : Token}
    {reference reference' : List Token}
    (h : reference = [] ∨ ∃ t, reference = [t] ∧ t.isPunct "&" = true)
    (named : name.kind = .name ∨ name.kind = .keyword)
    (h' : reference' = [] ∨ ∃ t, reference' = [t] ∧ t.isPunct "&" = true)
    (named' : name'.kind = .name ∨ name'.kind = .keyword)
    (heq : reference ++ name :: us = reference' ++ name' :: vs) : us = vs := by
  have hne : ∀ {t : Token}, t.isPunct "&" = true → t.kind = .name ∨ t.kind = .keyword → False := by
    intro t ht hkind
    rw [Token.isPunct, Bool.and_eq_true, beq_iff_eq] at ht
    rw [ht.1] at hkind
    rcases hkind with hkind | hkind <;> cases hkind
  rcases h with rfl | ⟨t, rfl, ht⟩ <;> rcases h' with rfl | ⟨u, rfl, hu⟩
  · exact (List.cons.inj heq).2
  · exact (hne hu ((List.cons.inj heq).1 ▸ named)).elim
  · exact (hne ht ((List.cons.inj heq).1 ▸ named')).elim
  · exact (List.cons.inj (List.cons.inj heq).2).2

/-- The tokens of a list of which a part is left when those without significance go. -/
theorem exists_of_significant_eq {us body rest : List Token} {c : Token}
    (h : significant us = body ++ c :: rest) :
    ∃ inner more, us = inner ++ c :: more ∧ significant inner = body ∧ significant more = rest := by
  obtain ⟨left, right, rfl, hleft, hright⟩ := List.filter_eq_append_iff.1 h
  obtain ⟨silent, more, rfl, hsilent, _, hmore⟩ := List.filter_eq_cons_iff.1 hright
  refine ⟨left ++ silent, more, by simp, ?_, hmore⟩
  have hnone : significant silent = [] := List.filter_eq_nil_iff.2 hsilent
  rw [significant_append, hnone, List.append_nil]
  exact hleft

/-- **The parameters of a function** are read off the tokens between its parentheses. -/
theorem Recognized.parameters_eq {s : Site} {i : Nat} {t : Token} {r : Recognition}
    (h : Recognized s i t r) (ht : s.tokens[i]? = some t) {g : FunctionDecl}
    (hg : .function g ∈ r.declarations) {word name opening closing : Token}
    {reference body rest : List Token}
    (written : significant (s.tokens.drop i) =
      word :: (reference ++ name :: opening :: (body ++ closing :: rest)))
    (isReference : reference = [] ∨ ∃ t, reference = [t] ∧ t.isPunct "&" = true)
    (named : name.kind = .name ∨ name.kind = .keyword)
    (closes : closing.kind = .closeParen) (balanced : Balanced body) :
    g.parameters = readParameters body := by
  cases h with
  | nothing => cases hg
  | classLike => cases List.mem_singleton.1 hg
  | function name' paren n o keyword free named' next opens =>
      obtain ⟨rfl⟩ := Declaration.function.inj (List.mem_singleton.1 hg)
      have hword : significant (s.tokens.drop i) = t :: significant (s.tokens.drop (i + 1)) := by
        obtain ⟨hi, rfl⟩ := List.getElem?_eq_some_iff.1 ht
        rw [List.drop_eq_getElem_cons hi, significant_cons_of_pos (Token.isSignificant_of_kind
          (beq_iff_eq.1 (Bool.and_eq_true_iff.1 keyword).1) rfl)]
      obtain ⟨reference', isReference', hname, named''⟩ := significant_drop_of_functionName? named'
      have hbehind :
          opening :: (body ++ closing :: rest) = significant (s.tokens.drop (n + 1)) := by
        refine eq_of_reference_append isReference named isReference' named'' ?_
        rw [← hname]
        rw [hword] at written
        exact (List.cons.inj written).2.symm
      rw [significant_drop_of_nextSignificant? next] at hbehind
      obtain ⟨rfl, hbody⟩ := List.cons.inj hbehind
      -- the tokens without significance are between those of the list and stand in no other group
      obtain ⟨inner, more, hdrop, hinner, _⟩ := exists_of_significant_eq hbody.symm
      have hbalanced : Balanced inner := balanced_significant.1 (hinner ▸ balanced)
      have hgroup : s.tokens.drop o = opening :: (inner ++ closing :: more) := by
        obtain ⟨ho, hget⟩ := List.getElem?_eq_some_iff.1 (nextSignificant?_eq_some next).1
        rw [List.drop_eq_getElem_cons ho, hdrop, hget]
      have hclose := matchingClose_of_split hgroup (by rw [opens]; rfl) hbalanced
        (by rw [opens, closes]; rfl)
      show readParameters ((s.tokens.drop (o + 1)).take (matchingClose s.tokens o - (o + 1))) = _
      rw [hclose, Nat.add_sub_cancel_left, hdrop, List.take_left', ← readParameters_significant,
        hinner]
      rfl
  | constants => obtain ⟨p, _, hp⟩ := List.mem_map.1 hg; cases hp
  | properties => obtain ⟨p, _, hp⟩ := List.mem_map.1 hg; cases hp
  | define => cases List.mem_singleton.1 hg

/-- **The parameters that a head lists.** -/
theorem Pass.parameters_eq {g : FunctionDecl} {ps : List WrittenParameter}
    (hg : .function g ∈ (ofTokens ts).declarations) (hlists : g.Lists ts ps) :
    g.parameters = ps.map (·.parameter) := by
  obtain ⟨t, ht, _, hfound⟩ := Pass.introduced_of_mem_run hg
  have ht : ts[g.span.first]? = some t := ht
  obtain ⟨word, name, opening, closing, reference, body, rest, written, isReference, named, _,
    closes, list⟩ := hlists
  have hbody : ∀ t ∈ body, t.isSignificant = true := fun u hu => by
    have hmem : u ∈ significant (ts.drop g.span.first) := by
      rw [written]
      simp [hu]
    exact isSignificant_of_mem hmem
  rw [← readParameters_of_list list hbody]
  exact (Pass.recognized_foundAt ht).parameters_eq ht hfound written isReference named closes
    (balanced_of_list list)

end Head

end Outline

/-- The tokens of a type are tokens of the file. -/
theorem FunctionDecl.Lists.mem_of_mem_type {ts : List Token} {g : FunctionDecl}
    {ps : List WrittenParameter} (h : g.Lists ts ps) {p : WrittenParameter} (hp : p ∈ ps)
    {t : Token} (ht : t ∈ p.type) : t ∈ ts := by
  obtain ⟨word, name, opening, closing, reference, body, rest, written, _, _, _, _, list⟩ := h
  have ht : t ∈ p.tokens := by simp [WrittenParameter.tokens, WrittenParameter.front, ht]
  have hbody : t ∈ body := by
    cases list with
    | empty => cases hp
    | listed items => exact items.mem hp ht
    | trailing items last => exact List.mem_append_left _ (items.mem hp ht)
  have hmem : t ∈ significant (ts.drop g.span.first) := by
    rw [written]
    simp [hbody]
  exact List.mem_of_mem_drop (List.mem_of_mem_filter hmem)

/-- **Parameter lists are read exactly.** A function whose head lists parameters has these
parameters and no others, in this order, each with its name and with its type as it is kept. -/
theorem parameters_of_lists (path source : Text) :
    let f := SourceFile.parse path source
    ∀ g ∈ f.outline.functions, ∀ ps : List WrittenParameter, g.Lists f.tokens ps →
      g.parameters = ps.map (·.parameter) :=
  fun _ hg _ hlists => Pass.parameters_eq (mem_functions.1 hg) hlists

/-- A promoted parameter with a default value that holds a comma and a variable, and a variadic
reference with an attribute in front and a comma behind. -/
theorem parameters_of_lists_promoted :
    let f := SourceFile.parse "a.php" ("<?php class A \x7b " ++
      "function f(private ?array $a = [1, $b], #[X] int &...$c,) \x7b \x7d \x7d")
    ∃ g ∈ f.outline.functions, ∃ ps : List WrittenParameter, g.Lists f.tokens ps ∧
      g.parameters = ps.map (·.parameter) ∧
      ps.map (·.parameter) = [⟨"?array", "$a"⟩, ⟨"int", "...$c"⟩] := by
  intro f
  let a : WrittenParameter := {
    modifiers := [⟨⟨.keyword, "private"⟩, 1, 27⟩]
    type := [⟨⟨.punct, "?"⟩, 1, 35⟩, ⟨⟨.name, "array"⟩, 1, 36⟩]
    name := ⟨⟨.dollarName, "$a"⟩, 1, 42⟩
    tail := [⟨⟨.punct, "="⟩, 1, 45⟩, ⟨⟨.openBracket, "["⟩, 1, 47⟩, ⟨⟨.number, "1"⟩, 1, 48⟩,
      ⟨⟨.comma, ","⟩, 1, 49⟩, ⟨⟨.dollarName, "$b"⟩, 1, 51⟩, ⟨⟨.closeBracket, "]"⟩, 1, 53⟩] }
  let c : WrittenParameter := {
    type := [⟨⟨.name, "int"⟩, 1, 61⟩]
    reference := some ⟨⟨.punct, "&"⟩, 1, 65⟩, dots := some ⟨⟨.punct, "..."⟩, 1, 66⟩
    name := ⟨⟨.dollarName, "$c"⟩, 1, 69⟩ }
  have hlist : ParameterList [a, c] (a.tokens ++ ⟨⟨.comma, ","⟩, 1, 54⟩ :: c.tokens ++
      [⟨⟨.comma, ","⟩, 1, 71⟩]) := .trailing (.cons a rfl (.single c)) rfl
  obtain ⟨hfirst, written⟩ : f.outline.functions.map (·.span.first) = [8] ∧
      significant (f.tokens.drop 8) =
        ⟨⟨.keyword, "function"⟩, 1, 16⟩ :: ([] ++ ⟨⟨.name, "f"⟩, 1, 25⟩ ::
          ⟨⟨.openParen, "("⟩, 1, 26⟩ :: ((a.tokens ++ ⟨⟨.comma, ","⟩, 1, 54⟩ :: c.tokens ++
            [⟨⟨.comma, ","⟩, 1, 71⟩]) ++ ⟨⟨.closeParen, ")"⟩, 1, 72⟩ ::
              [⟨⟨.openBrace, ['\x7b']⟩, 1, 74⟩, ⟨⟨.closeBrace, ['\x7d']⟩, 1, 76⟩,
                ⟨⟨.closeBrace, ['\x7d']⟩, 1, 78⟩])) := by decide +kernel
  obtain ⟨g, hg, hspan⟩ := List.map_eq_singleton_iff.1 hfirst
  have hmem : g ∈ f.outline.functions := hg ▸ List.mem_singleton_self g
  have hlists : g.Lists f.tokens [a, c] :=
    .head _ _ _ _ _ _ _ (hspan ▸ written) (Or.inl rfl) (Or.inl rfl) rfl rfl hlist
  exact ⟨g, hmem, [a, c], hlists, parameters_of_lists "a.php" _ g hmem _ hlists, by decide⟩

/-- **Three dots in a type are taken for the mark of a variadic parameter**, and the type loses
them. -/
theorem dots_in_type :
    let f := SourceFile.parse "a.php" "<?php function f(A...B $x) ;"
    ∃ g ∈ f.outline.functions, ∃ p : WrittenParameter, g.Lists f.tokens [p] ∧ p.dots = none ∧
      Token.textOf p.type = "A...B" ∧ g.parameters = [⟨"AB", "...$x"⟩] := by
  intro f
  let p : WrittenParameter := {
    type := [⟨⟨.name, "A"⟩, 1, 17⟩, ⟨⟨.punct, "..."⟩, 1, 18⟩, ⟨⟨.name, "B"⟩, 1, 21⟩]
    name := ⟨⟨.dollarName, "$x"⟩, 1, 23⟩ }
  obtain ⟨hread, written⟩ :
      f.outline.functions.map (fun g => (g.span.first, g.parameters)) =
          [(2, [⟨"AB", "...$x"⟩])] ∧
        significant (f.tokens.drop 2) =
          ⟨⟨.keyword, "function"⟩, 1, 6⟩ :: ([] ++ ⟨⟨.name, "f"⟩, 1, 15⟩ ::
            ⟨⟨.openParen, "("⟩, 1, 16⟩ :: (p.tokens ++ ⟨⟨.closeParen, ")"⟩, 1, 25⟩ ::
              [⟨⟨.semicolon, ";"⟩, 1, 27⟩])) := by decide +kernel
  obtain ⟨g, hg, hread⟩ := List.map_eq_singleton_iff.1 hread
  obtain ⟨hspan, hparameters⟩ := Prod.mk.inj hread
  have hlists : g.Lists f.tokens [p] :=
    .head _ _ _ _ _ _ _ (hspan ▸ written) (Or.inl rfl) (Or.inl rfl) rfl rfl (.listed (.single p))
  exact ⟨g, hg ▸ List.mem_singleton_self g, p, hlists, rfl, by decide, hparameters⟩

end DocLint
