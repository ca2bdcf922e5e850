import DocLint.Proofs.Pass
import DocLint.SourceFile

/-!
# Which class a member belongs to

The pass keeps the bodies it has opened on a stack, some of them before it comes to their brace and
some of them after it has left them. Looked at from a member, the body that the stack answers with
is the innermost one of all the bodies of the file around it.

* `IsInnermost`: the body around an index that opens last, and is declared last if two of them share
  a brace; `IsInnermost.unique`.
* `enclosing?`: the last body recognised before an index that holds it; `find?_scopes_upTo` says
  that this is what the stack answers with.
* `opening_le_of_lt`: bodies open in the order in which they are declared.
* `owner_eq_innermost`: functions, constants and properties belong to the class whose body is the
  innermost one around them.
-/

namespace DocLint

namespace Outline

/-- The body `c` of `e` is the innermost one around the token at index `i`: of the bodies of the
file that hold the token it opens last, and of those that open with the same brace it is the one
declared last. -/
structure IsInnermost (o : Outline) (i : Nat) (e : Declaration) (c : Scope) : Prop where
  mem : e ∈ o.declarations
  body : e.scope? = some c
  holds : c.holds i = true
  last : ∀ e' ∈ o.declarations, ∀ c', e'.scope? = some c' → c'.holds i = true →
    c'.opening < c.opening ∨ c'.opening = c.opening ∧ e'.span.first ≤ e.span.first

/-- The class and the full name that the bodies around the token at index `i` give to a member. -/
inductive Attributed (o : Outline) (i : Nat) (name : Text) : Option Text → Text → Prop where
  | toClass (d : ClassDecl) (c : Scope) (innermost : IsInnermost o i (.classLike d) c) :
      Attributed o i name (some d.name) (d.name ++ "::" ++ name)
  | inFunction (d : FunctionDecl) (c : Scope) (innermost : IsInnermost o i (.function d) c) :
      Attributed o i name none name
  | outside (free : ∀ e ∈ o.declarations, ∀ c, e.scope? = some c → c.holds i = false) :
      Attributed o i name none name

namespace Pass

variable {ts : List Token} {n i : Nat}

/-! ## What the stack answers with -/

/-- The last of the bodies recognised before index `n` that holds index `i`. -/
def enclosing? (ts : List Token) (i : Nat) : Nat → Option Scope
  | 0 => none
  | n + 1 => ((foundAt ts n).scope.filter (·.holds i)).or (enclosing? ts i n)

/-- What is left does not hold any index to come. -/
theorem find?_leave (p : Pass) (hn : n ≤ i) :
    (p.leave n).scopes.find? (·.holds i) = p.scopes.find? (·.holds i) := by
  unfold leave
  simp only
  induction p.scopes with
  | nil => rfl
  | cons c cs ih =>
      rw [List.dropWhile_cons]
      split
      · rename_i hleft
        have hout : c.holds i = false := by
          simp only [decide_eq_true_eq] at hleft
          simp only [Scope.holds, Bool.and_eq_false_iff, decide_eq_false_iff_not]
          omega
        rw [ih, List.find?_cons_of_neg (by simp [hout])]
      · rfl

theorem find?_toList (c : Option Scope) (p : Scope → Bool) : c.toList.find? p = c.filter p := by
  cases c with
  | none => rfl
  | some c => cases h : p c <;> simp [Option.filter, h]

/-- **The stack answers with the last body recognised that holds an index to come.** -/
theorem find?_scopes_upTo : ∀ n ≤ ts.length, ∀ i, n ≤ i →
    (upTo ts n).scopes.find? (·.holds i) = enclosing? ts i n := by
  refine upTo_induction (P := fun n p => ∀ i, n ≤ i →
    p.scopes.find? (·.holds i) = enclosing? ts i n) (fun i _ => rfl) ?_
  intro n t h ih i hi
  rw [scopes_upTo_succ h, List.find?_append, find?_toList, find?_leave _ (by omega),
    ih i (by omega)]
  rfl

theorem scopeAt?_siteAt (hi : i ≤ ts.length) : (siteAt ts i).scopeAt? i = enclosing? ts i i := by
  unfold Site.scopeAt?
  show ((upTo ts i).leave i).scopes.find? _ = _
  rw [find?_leave _ (Nat.le_refl i)]
  exact find?_scopes_upTo i hi i (Nat.le_refl i)

theorem enclosing?_eq_none (h : enclosing? ts i n = none) :
    ∀ j c, j < n → (foundAt ts j).scope = some c → c.holds i = false := by
  induction n with
  | zero => intro j c hj; omega
  | succ n ih =>
      intro j c hj hc
      obtain ⟨hhere, hbefore⟩ := Option.or_eq_none_iff.1 h
      rcases Nat.lt_succ_iff_lt_or_eq.1 hj with hj | rfl
      · exact ih hbefore j c hj hc
      · rw [Option.filter_eq_none_iff] at hhere
        exact Bool.eq_false_iff.2 (hhere c hc)

theorem enclosing?_eq_some {c : Scope} (h : enclosing? ts i n = some c) :
    ∃ j, j < n ∧ (foundAt ts j).scope = some c ∧ c.holds i = true ∧
      ∀ k c', j < k → k < n → (foundAt ts k).scope = some c' → c'.holds i = false := by
  induction n with
  | zero => cases h
  | succ n ih =>
      rcases Option.or_eq_some_iff.1 h with h | ⟨hhere, h⟩
      · obtain ⟨hc, hholds⟩ := Option.filter_eq_some_iff.1 h
        exact ⟨n, by omega, hc, hholds, fun k c' hk hlt => by omega⟩
      · obtain ⟨j, hj, hc, hholds, hlast⟩ := ih h
        refine ⟨j, by omega, hc, hholds, fun k c' hk hlt hc' => ?_⟩
        rcases Nat.lt_succ_iff_lt_or_eq.1 hlt with hlt | rfl
        · exact hlast k c' hk hlt hc'
        · rw [Option.filter_eq_none_iff] at hhere
          exact Bool.eq_false_iff.2 (hhere c' hc')

/-! ## The innermost body -/

/-- A body opens behind the index at which it is recognised. -/
theorem lt_opening {c : Scope} (hc : (foundAt ts n).scope = some c) : n < c.opening := by
  cases ht : ts[n]? with
  | none =>
      rw [foundAt, ht] at hc
      cases hc
  | some t => exact ((recognized_foundAt ht).scope_spec hc).1

/-- **Bodies open in the order in which they are declared.** -/
theorem opening_le_of_lt {j k : Nat} {t u : Token} {c c' : Scope} (hlt : j < k)
    (ht : ts[j]? = some t) (hu : ts[k]? = some u) (hc : (foundAt ts j).scope = some c)
    (hc' : (foundAt ts k).scope = some c') : c.opening ≤ c'.opening := by
  obtain ⟨_, _, hfirst⟩ := (recognized_foundAt ht).scope_spec hc
  obtain ⟨hk, ⟨b, hb, hbrace⟩, _⟩ := (recognized_foundAt hu).scope_spec hc'
  rcases hfirst with hfirst | ⟨m, hm, hle⟩
  · -- no brace stands between the head of a class and its body
    refine Nat.le_of_not_lt fun hback => ?_
    exact hfirst c'.opening b (by omega) hback hb hbrace
  · -- nothing is recognised between the head of a function and its body
    have hresume : m ≤ (upTo ts k).resumeAt := by
      have hmono := resumeAt_mono hlt (Nat.le_of_lt (List.getElem?_eq_some_iff.1 hu).1)
      rw [resumeAt_upTo_succ ht, hm, Option.getD_some] at hmono
      exact hmono
    have hcode : (upTo ts k).resumeAt ≤ k := by
      refine Nat.le_of_not_lt fun hskip => ?_
      rw [foundAt_of_lt hskip] at hc'
      cases hc'
    omega

theorem mem_run_of_scope {j : Nat} {t : Token} {c : Scope} (ht : ts[j]? = some t)
    (hc : (foundAt ts j).scope = some c) :
    ∃ e ∈ (ofTokens ts).declarations, e.scope? = some c ∧ e.span.first = j := by
  obtain ⟨e, he, hbody⟩ := (recognized_foundAt ht).exists_of_scope hc
  refine ⟨e, mem_declarations_run.2 ⟨j, t, ht, he⟩, hbody, ?_⟩
  exact ((recognized_foundAt ht).of_scope he (by rw [hbody]; rfl)).2

theorem scope_of_mem_run {e : Declaration} {c : Scope} (he : e ∈ (ofTokens ts).declarations)
    (hc : e.scope? = some c) :
    ∃ t, ts[e.span.first]? = some t ∧ (foundAt ts e.span.first).scope = some c ∧
      (foundAt ts e.span.first).declarations = [e] := by
  obtain ⟨j, t, ht, hmem⟩ := mem_declarations_run.1 he
  obtain ⟨honly, hfirst⟩ := (recognized_foundAt ht).of_scope hmem (by rw [hc]; rfl)
  rw [hfirst]
  exact ⟨t, ht, (recognized_foundAt ht).scope_of_mem hmem hc, honly⟩

theorem exists_isInnermost {c : Scope} (hi : i ≤ ts.length) (h : enclosing? ts i i = some c) :
    ∃ e, IsInnermost (ofTokens ts) i e c := by
  obtain ⟨j, hj, hc, hholds, hlast⟩ := enclosing?_eq_some h
  have ht : ts[j]? = some ts[j] := List.getElem?_eq_getElem (by omega)
  obtain ⟨e, he, hbody, hfirst⟩ := mem_run_of_scope ht hc
  refine ⟨e, he, hbody, hholds, fun e' he' c' hbody' hholds' => ?_⟩
  obtain ⟨t', ht', hc', _⟩ := scope_of_mem_run he' hbody'
  have hopen := lt_opening hc'
  simp only [Scope.holds, Bool.and_eq_true, decide_eq_true_eq] at hholds'
  rcases Nat.lt_trichotomy e'.span.first j with hlt | heq | hgt
  · have := opening_le_of_lt hlt ht' ht hc' hc
    omega
  · rw [heq, hc, Option.some.injEq] at hc'
    rw [← hc']
    omega
  · -- a body declared later does not hold the index
    have hout := hlast _ c' hgt (by omega) hc'
    simp only [Scope.holds, Bool.and_eq_false_iff, decide_eq_false_iff_not] at hout
    omega

theorem not_holds_of_enclosing?_eq_none (h : enclosing? ts i i = none) :
    ∀ e ∈ (ofTokens ts).declarations, ∀ c, e.scope? = some c → c.holds i = false := by
  intro e he c hbody
  obtain ⟨t, ht, hc, _⟩ := scope_of_mem_run he hbody
  by_cases hlt : e.span.first < i
  · exact enclosing?_eq_none h _ c hlt hc
  · have := lt_opening hc
    simp only [Scope.holds, Bool.and_eq_false_iff, decide_eq_false_iff_not]
    omega

end Pass

/-- There is one innermost body around an index. -/
theorem IsInnermost.unique {ts : List Token} {i : Nat} {e e' : Declaration} {c c' : Scope}
    (h : IsInnermost (ofTokens ts) i e c) (h' : IsInnermost (ofTokens ts) i e' c') : e = e' := by
  have hle := h.last e' h'.mem c' h'.body h'.holds
  have hge := h'.last e h.mem c h.body h.holds
  have hfirst : e.span.first = e'.span.first := by omega
  obtain ⟨_, _, _, honly⟩ := Pass.scope_of_mem_run h.mem h.body
  obtain ⟨_, _, _, honly'⟩ := Pass.scope_of_mem_run h'.mem h'.body
  rw [hfirst, honly'] at honly
  exact (List.cons.inj honly).1.symm

/-! ## Members -/

namespace Pass

variable {ts : List Token}

/-- A member is introduced where the stack answers with its class. -/
theorem owner_of_mem_run {d : Declaration} (hd : d ∈ (ofTokens ts).declarations)
    (hm : d.isMember = true) :
    (∃ t, ts[d.declaringToken ts]? = some t ∧ d.isIntroducedBy t = true) ∧
      d.owner? = (enclosing? ts (d.declaringToken ts) (d.declaringToken ts)).bind fun c =>
        if c.kind = .classLike then some c.name else none := by
  obtain ⟨t, ht, hword, hd⟩ := introduced_of_mem_run hd
  refine ⟨⟨t, ht, hword⟩, ?_⟩
  rw [(recognized_foundAt ht).owner_eq hd hm, Site.owner?,
    scopeAt?_siteAt (Nat.le_of_lt (List.getElem?_eq_some_iff.1 ht).1)]

/-- What the body of a declaration says about it. -/
theorem owner_of_scope? {e : Declaration} {c : Scope} (hc : e.scope? = some c) :
    (∃ d, e = .classLike d ∧ c.kind = .classLike ∧ c.name = d.name) ∨
      ∃ d, e = .function d ∧ c.kind = .function := by
  cases e with
  | classLike d =>
      obtain ⟨o, _, rfl⟩ := Option.map_eq_some_iff.1 hc
      exact Or.inl ⟨d, rfl, rfl, rfl⟩
  | function d =>
      obtain ⟨o, _, rfl⟩ := Option.map_eq_some_iff.1 hc
      exact Or.inr ⟨d, rfl, rfl⟩
  | property d => cases hc
  | constant d => cases hc

theorem attributed_of_mem_run {d : Declaration} (hd : d ∈ (ofTokens ts).declarations)
    (hm : d.isMember = true) (name : Text) :
    Attributed (ofTokens ts) (d.declaringToken ts) name d.owner? (qualified d.owner? name) := by
  obtain ⟨⟨t, ht, _⟩, howner⟩ := owner_of_mem_run hd hm
  have hlt := (List.getElem?_eq_some_iff.1 ht).1
  rw [howner]
  cases hc : enclosing? ts (d.declaringToken ts) (d.declaringToken ts) with
  | none => exact .outside (not_holds_of_enclosing?_eq_none hc)
  | some c =>
      obtain ⟨e, he⟩ := exists_isInnermost (Nat.le_of_lt hlt) hc
      rcases owner_of_scope? he.body with ⟨k, rfl, hkind, hname⟩ | ⟨k, rfl, hkind⟩
      · rw [Option.bind_some, if_pos hkind, hname]
        exact .toClass k c he
      · rw [Option.bind_some, if_neg (by rw [hkind]; decide)]
        exact .inFunction k c he

end Pass

/-- **A member belongs to the class whose body is the innermost one around it.** For functions and
constants the class and the full name are what the innermost body around the word that introduces
them gives; properties are found in the body of a class only. -/
theorem owner_eq_innermost (path source : Text) :
    let f := SourceFile.parse path source
    (∀ i e e' c c', IsInnermost f.outline i e c → IsInnermost f.outline i e' c' → e = e') ∧
    (∀ d ∈ f.outline.functions, ∃ t,
      f.tokens[d.span.first]? = some t ∧ t.isKeyword "function" = true ∧
      Attributed f.outline d.span.first d.name d.owner (Declaration.function d).fullname) ∧
    (∀ d ∈ f.outline.constantsOf .const, ∃ i t,
      (Declaration.constant d).declaringToken f.tokens = i ∧
      f.tokens[i]? = some t ∧ t.isKeyword "const" = true ∧
      Attributed f.outline i d.name d.owner (Declaration.constant d).fullname) ∧
    (∀ d ∈ f.outline.properties, ∃ t k c,
      f.tokens[d.span.first]? = some t ∧ t.isModifier = true ∧
      IsInnermost f.outline d.span.first (.classLike k) c ∧ d.owner = k.name) := by
  intro f
  refine ⟨fun i e e' c c' h h' => h.unique h', fun d hd => ?_, fun d hd => ?_, fun d hd => ?_⟩
  · rw [mem_functions] at hd
    obtain ⟨⟨t, ht, hword⟩, _⟩ := Pass.owner_of_mem_run hd rfl
    exact ⟨t, ht, hword, Pass.attributed_of_mem_run hd rfl d.name⟩
  · obtain ⟨hd, hform⟩ := mem_constantsOf.1 hd
    have hm : (Declaration.constant d).isMember = true := beq_iff_eq.2 hform
    obtain ⟨⟨t, ht, hword⟩, _⟩ := Pass.owner_of_mem_run hd hm
    simp only [Declaration.isIntroducedBy, hform] at hword
    exact ⟨_, t, rfl, ht, hword, Pass.attributed_of_mem_run hd hm d.name⟩
  · rw [mem_properties] at hd
    obtain ⟨⟨t, ht, hword⟩, _⟩ := Pass.owner_of_mem_run hd rfl
    have hattr := Pass.attributed_of_mem_run hd rfl d.name
    generalize hown : (Declaration.property d).owner? = own at hattr
    generalize qualified own d.name = full at hattr
    cases hattr with
    | toClass k c h => exact ⟨t, k, c, ht, hword, h, Option.some.inj hown⟩
    | inFunction => cases hown
    | outside => cases hown

-- two heads share a brace, and a function stands between a class and its constant
example :
    let source : Text := "<?php class A class B \x7b const C = 1; function f() \x7b const D = 2;"
    (SourceFile.parse "a.php" source).outline.constants.map (·.owner) =
      [some ("B" : Text), none] := by
  decide +kernel

end Outline

end DocLint
