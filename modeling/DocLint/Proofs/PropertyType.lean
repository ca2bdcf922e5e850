import DocLint.Proofs.Insertion
import DocLint.Proofs.Signature
import DocLint.Rule.Presence

/-!
# Types of properties

A type between the modifiers and the variable of a property is not part of what is recorded of the
property. The recogniser passes over it token by token and gives up at a token that belongs to
another statement: a parenthesis, or one of the words `function` and `const`. Some types have such
tokens.

* `TypeInserted`: two lists of tokens, the second one with a type in a property statement of the
  first one.
* `isQuiet_of_isType`, `TypeInserted.exists_gap`: a type without such tokens is a gap.
* `TypeInserted.firstVariable?_eq_none`: with such a token no variable is found.
* `typed_property_recovered_iff`: which types leave the properties of a file as they are.
* `grouped_type_lost`: a type that does not.
-/

namespace DocLint

/-- The tokens of a type are words, marks and parentheses; one of the latter is open. -/
theorem IsType.kind_of_mem {us : List Token} (h : IsType us) : ∀ t ∈ us,
    t.kind ∈ [Kind.name, .keyword, .punct] ∨
      t.kind ∈ [Kind.openParen, .closeParen] ∧ ∃ o ∈ us, o.kind = .openParen := by
  have mark : ∀ {t : Token} {text : Text}, t.isPunct text = true →
      t.kind ∈ [Kind.name, .keyword, .punct] := by
    intro t text ht
    rw [Token.isPunct, Bool.and_eq_true, beq_iff_eq] at ht
    rw [ht.1]
    decide
  have wider : ∀ {us vs : List Token}, us ⊆ vs →
      (∃ o ∈ us, o.kind = .openParen) → ∃ o ∈ vs, o.kind = .openParen := by
    rintro us vs hsub ⟨o, ho, hkind⟩
    exact ⟨o, hsub ho, hkind⟩
  induction h with
  | named nonempty parts =>
      intro t ht
      rcases parts t ht with h | h | h
      · exact Or.inl (by rw [h]; decide)
      · exact Or.inl (by rw [h]; decide)
      · exact Or.inl (mark h)
  | nullable isMark inner ih =>
      refine List.forall_mem_cons.2 ⟨Or.inl (mark isMark), fun t ht => ?_⟩
      exact (ih t ht).imp_right fun h => ⟨h.1, wider (List.subset_cons_self _ _) h.2⟩
  | joined left isMark right ihLeft ihRight =>
      refine List.forall_mem_append.2 ⟨fun t ht => ?_, List.forall_mem_cons.2
        ⟨Or.inl (isMark.elim mark mark), fun t ht => ?_⟩⟩
      · exact (ihLeft t ht).imp_right fun h => ⟨h.1, wider (List.subset_append_left _ _) h.2⟩
      · refine (ihRight t ht).imp_right fun h => ⟨h.1, wider ?_ h.2⟩
        exact List.Subset.trans (List.subset_cons_self _ _) (List.subset_append_right _ _)
  | grouped opens inner closes ih =>
      rename_i o c us
      have hopen : ∃ p ∈ o :: (us ++ [c]), p.kind = .openParen :=
        ⟨o, List.mem_cons_self, by rw [opens]⟩
      refine List.forall_mem_cons.2 ⟨Or.inr ⟨by rw [opens]; decide, hopen⟩, List.forall_mem_append.2
        ⟨fun t ht => ?_, List.forall_mem_singleton.2 (Or.inr ⟨by rw [closes]; decide, hopen⟩)⟩⟩
      exact (ih t ht).imp_right fun h => ⟨h.1, hopen⟩

namespace Outline

/-- A type is inserted between the modifiers of a property, the first of them at index `i`, and its
variable. The other tokens are the same, but for their places and for those without significance
around the type. -/
inductive TypeInserted (ts ts' : List Token) (i : Nat) (type : List Token) : Prop where
  | written (front gap back front' gap' back' : List Token) (word name word' name' : Token)
      (tokens : ts = front ++ word :: (gap ++ name :: back))
      (tokens' : ts' = front' ++ word' :: (gap' ++ name' :: back'))
      (sameFront : (front' ++ [word']).map (·.toLexeme) = (front ++ [word]).map (·.toLexeme))
      (sameBack : (name' :: back').map (·.toLexeme) = (name :: back).map (·.toLexeme))
      (index : front.length = i) (isWord : word.isModifier = true)
      (isName : name.kind = .dollarName)
      (areModifiers : ∀ t ∈ significant gap, t.isModifier = true)
      (inserted : (significant gap').map (·.toLexeme) = (significant gap ++ type).map (·.toLexeme))
      (isType : IsType type)

/-- The type has neither a parenthesis nor one of the words that introduce another statement. -/
def IsPlain (type : List Token) : Prop :=
  ∀ t ∈ type, t.kind ≠ .openParen ∧ t.isKeyword "function" = false ∧ t.isKeyword "const" = false

instance (type : List Token) : Decidable (IsPlain type) :=
  inferInstanceAs (Decidable (∀ t ∈ type, _ ∧ _ ∧ _))

/-! ## Quiet tokens -/

section Quiet

variable {t u : Token} {us vs : List Token}

/-- What holds of a token without regard to its place. -/
theorem of_toLexeme_eq {P : Token → Prop} (hP : ∀ t, P (bare t) ↔ P t)
    (h : t.toLexeme = u.toLexeme) (hu : P u) : P t := by
  have hbare : bare t = bare u := congrArg (fun x => (⟨x, 0, 0⟩ : Token)) h
  rwa [← hP, hbare, hP]

theorem forall_mem_of_map_toLexeme_eq {P : Token → Prop} (hP : ∀ t, P (bare t) ↔ P t)
    (h : us.map (·.toLexeme) = vs.map (·.toLexeme)) (hvs : ∀ t ∈ vs, P t) : ∀ t ∈ us, P t := by
  intro t ht
  have hmem : t.toLexeme ∈ vs.map (·.toLexeme) := h ▸ List.mem_map_of_mem ht
  obtain ⟨u, hu, heq⟩ := List.mem_map.1 hmem
  exact of_toLexeme_eq hP heq.symm (hvs u hu)

theorem isQuiet_of_not_isSignificant (h : t.isSignificant = false) : IsQuiet t := by
  refine ⟨isBracket_of_not_isSignificant h, Token.kind_ne_of_not_isSignificant h rfl,
    Token.kind_ne_of_not_isSignificant h rfl, ?_⟩
  have hpunct : t.isPunct "=" = false := by
    simp [Token.isPunct, Token.kind_ne_of_not_isSignificant h (k := .punct) rfl]
  rw [endsPropertyHead, Token.isKeyword_of_not_isSignificant h,
    Token.isKeyword_of_not_isSignificant h, hpunct]
  rw [Token.isSignificant_eq, Bool.not_eq_false'] at h
  revert h
  cases t.kind <;> decide

theorem isQuiet_of_significant (h : ∀ t ∈ significant us, IsQuiet t) : ∀ t ∈ us, IsQuiet t := by
  intro t ht
  cases hs : t.isSignificant with
  | true => exact h t (List.mem_filter.2 ⟨ht, hs⟩)
  | false => exact isQuiet_of_not_isSignificant hs

theorem isQuiet_of_isModifier (h : t.isModifier = true) : IsQuiet t := by
  have hkind := Token.kind_of_isModifier h
  exact ⟨by rw [hkind]; rfl, by rw [hkind]; decide, not_endsPropertyHead_of_isModifier h⟩

/-- A type has no token that ends the head of a property but parentheses and words. -/
theorem endsPropertyHead_of_isType (h : IsType us) (ht : t ∈ us) :
    endsPropertyHead t = false ↔
      t.kind ≠ .openParen ∧ t.isKeyword "function" = false ∧ t.isKeyword "const" = false := by
  have hequals : t.isPunct "=" = false := by
    rcases h.word_or_mark t ht with hword | hmark
    · exact (not_isPunct_of_isName hword _).1
    · refine Bool.eq_false_iff.2 fun hequals => ?_
      rw [Token.isPunct, Bool.and_eq_true, beq_iff_eq, beq_iff_eq] at hequals
      rw [hequals.2] at hmark
      revert hmark
      decide
  have hkind : t.kind ∈ [Kind.name, .keyword, .punct, .openParen, .closeParen] := by
    have := h.kind_of_mem t ht
    revert this
    cases t.kind <;> simp
  rw [endsPropertyHead, hequals, Bool.or_false, Bool.or_eq_false_iff, Bool.or_eq_false_iff]
  revert hkind
  cases t.kind <;> simp

theorem isPlain_iff (h : IsType us) : IsPlain us ↔ ∀ t ∈ us, endsPropertyHead t = false :=
  forall₂_congr fun _ ht => (endsPropertyHead_of_isType h ht).symm

/-- **The tokens of a plain type are quiet.** -/
theorem isQuiet_of_isType (h : IsType us) (plain : IsPlain us) : ∀ t ∈ us, IsQuiet t := by
  intro t ht
  rcases h.kind_of_mem t ht with hkind | ⟨_, o, ho, hopen⟩
  · refine ⟨?_, ?_, ?_, (isPlain_iff h).1 plain t ht⟩
    all_goals
      revert hkind
      cases t.kind <;> decide
  · exact absurd hopen (plain o ho).1

/-- A search for the first variable that comes to a token of another statement finds none. -/
theorem firstVariable?_of_endsPropertyHead (hnames : ∀ t ∈ significant us, t.kind ≠ .dollarName)
    (hends : ∃ t ∈ significant us, endsPropertyHead t = true) (rest : List Token) (n : Nat) :
    firstVariable? ((us ++ rest).zipIdx n) = none := by
  induction us generalizing n with
  | nil =>
      obtain ⟨t, ht, _⟩ := hends
      cases ht
  | cons t us ih =>
      rw [List.cons_append, List.zipIdx_cons, firstVariable?]
      cases hs : t.isSignificant with
      | false =>
          rw [significant_cons_of_neg hs] at hnames hends
          exact ih hnames hends (n + 1)
      | true =>
          rw [significant_cons_of_pos hs] at hnames hends
          obtain ⟨hname, hnames⟩ := List.forall_mem_cons.1 hnames
          rw [if_neg (by decide), if_neg hname]
          split
          · rfl
          · rename_i hpass
            obtain ⟨u, hu, hhead⟩ := hends
            rcases List.mem_cons.1 hu with rfl | hu
            · exact absurd hhead hpass
            · exact ih hnames ⟨u, hu, hhead⟩ (n + 1)

end Quiet

/-! ## Properties with a type -/

namespace TypeInserted

variable {ts ts' type : List Token} {i : Nat}

/-- Without the type the modifiers are the gap. With it the gap is wider, if the type is quiet. -/
theorem exists_gap (h : TypeInserted ts ts' i type) : ∃ g : Gap, g.tokens = ts ∧
    g.front.length = i ∧ (IsPlain type →
      ∃ g' : Gap, g'.tokens = ts' ∧ g'.front.length = i ∧ g'.narrow = g.narrow) := by
  obtain ⟨front, gap, back, front', gap', back', word, name, word', name', rfl, rfl, sameFront,
    sameBack, rfl, isWord, isName, areModifiers, inserted, isType⟩ := h
  have quiet : ∀ t ∈ significant gap, IsQuiet t := fun t ht =>
    isQuiet_of_isModifier (areModifiers t ht)
  obtain ⟨hfront, hword⟩ : front'.map (·.toLexeme) = front.map (·.toLexeme) ∧
      [word'.toLexeme] = [word.toLexeme] := by
    rw [List.map_append, List.map_append] at sameFront
    exact List.append_inj' sameFront rfl
  have isWord' : word'.isModifier = true :=
    of_toLexeme_eq (P := (·.isModifier = true)) (fun _ => Iff.rfl) (List.cons.inj hword).1 isWord
  have isName' : name'.kind = .dollarName :=
    of_toLexeme_eq (P := (·.kind = .dollarName)) (fun _ => Iff.rfl) (List.cons.inj sameBack).1
      isName
  refine ⟨⟨front, word, gap, name, back, isWord, isName, isQuiet_of_significant quiet⟩,
    by simp [Gap.tokens, Gap.head, Gap.tail], rfl, fun plain => ?_⟩
  have quiet' : ∀ t ∈ significant gap', IsQuiet t := by
    refine forall_mem_of_map_toLexeme_eq (fun _ => Iff.rfl) inserted ?_
    exact List.forall_mem_append.2 ⟨quiet, isQuiet_of_isType isType plain⟩
  refine ⟨⟨front', word', gap', name', back', isWord', isName', isQuiet_of_significant quiet'⟩,
    by simp [Gap.tokens, Gap.head, Gap.tail], ?_, ?_⟩
  · have hlength := congrArg List.length hfront
    simpa using hlength
  · refine map_bare_eq ?_
    rw [List.map_append, List.map_append]
    exact congrArg₂ _ sameFront sameBack

/-- With a type that is not plain no variable is found. -/
theorem firstVariable?_eq_none (h : TypeInserted ts ts' i type) (hends : ¬IsPlain type) :
    (∃ t, ts'[i]? = some t) ∧ firstVariable? (tokensFrom ts' (i + 1)) = none := by
  obtain ⟨front, gap, back, front', gap', back', word, name, word', name', rfl, rfl, sameFront,
    _, rfl, _, _, areModifiers, inserted, isType⟩ := h
  have hlength : front'.length = front.length := by
    have := congrArg List.length sameFront
    simpa using this
  rw [← hlength]
  refine ⟨⟨word', by simp⟩, ?_⟩
  have hdrop : (front' ++ word' :: (gap' ++ name' :: back')).drop (front'.length + 1) =
      gap' ++ name' :: back' := by
    rw [List.append_cons, List.drop_left' (by simp)]
  rw [tokensFrom, hdrop]
  refine firstVariable?_of_endsPropertyHead ?_ ?_ _ _
  · refine forall_mem_of_map_toLexeme_eq (fun _ => Iff.rfl) inserted
      (List.forall_mem_append.2 ⟨fun t ht => ?_, fun t ht hkind => ?_⟩)
    · exact (not_endsPropertyHead_of_isModifier (areModifiers t ht)).1
    · have := isType.kind_of_mem t ht
      rw [hkind] at this
      revert this
      simp
  · by_contra hnone
    have hplain := forall_mem_of_map_toLexeme_eq (P := fun t => ¬endsPropertyHead t = true)
      (fun _ => Iff.rfl) inserted.symm fun t ht hend => hnone ⟨t, ht, hend⟩
    exact hends ((isPlain_iff isType).2 fun t ht =>
      Bool.eq_false_iff.2 (hplain t (List.mem_append_right _ ht)))

end TypeInserted

/-- What is recorded of the properties follows from their names and classes. -/
theorem map_properties_eq {ts us : List Token}
    (h : propertiesOf (ofTokens ts).declarations = propertiesOf (ofTokens us).declarations) :
    ((ofTokens ts).properties.map fun d => (d.name, (Declaration.property d).fullname, d.owner)) =
      (ofTokens us).properties.map fun d =>
        (d.name, (Declaration.property d).fullname, d.owner) := by
  have hpairs : ∀ o : Outline,
      (o.properties.map fun d => (d.name, (Declaration.property d).fullname, d.owner)) =
        (propertiesOf o.declarations).map fun p =>
          (p.1, qualified (some p.2) ('$' :: p.1), p.2) := by
    intro o
    rw [propertiesOf, List.map_map]
    rfl
  rw [hpairs, hpairs, h]

/-- **A property with a type is recovered just if the type is plain.** With a plain type the
properties of the file are those without it, and with any other no property is found at the first
modifier. -/
theorem typed_property_recovered_iff (path path' source source' : Text) :
    let f := SourceFile.parse path source
    let f' := SourceFile.parse path' source'
    ∀ i type, TypeInserted f.tokens f'.tokens i type →
      (∃ p ∈ f.outline.properties, p.span.first = i) →
      ((∃ p ∈ f'.outline.properties, p.span.first = i) ↔ IsPlain type) ∧
      (IsPlain type →
        (f'.outline.properties.map fun d =>
            (d.name, (Declaration.property d).fullname, d.owner)) =
          f.outline.properties.map fun d =>
            (d.name, (Declaration.property d).fullname, d.owner)) := by
  intro f f' i type hinserted hfound
  obtain ⟨g, htokens, hfront, hgap⟩ := hinserted.exists_gap
  have hfound : propertiesOf (Pass.foundAt f.tokens i).declarations ≠ [] :=
    (Pass.propertiesOf_foundAt_ne_nil_iff _ i).2 hfound
  rw [← htokens, ← hfront, Pass.propertiesOf_foundAt_word] at hfound
  refine ⟨⟨fun hfound' => ?_, fun plain => ?_⟩, fun plain => ?_⟩
  · by_contra hends
    obtain ⟨⟨t, ht⟩, hnone⟩ := hinserted.firstVariable?_eq_none hends
    have hne := (Pass.propertiesOf_foundAt_ne_nil_iff _ i).2 hfound'
    exact hne (Pass.propertiesOf_foundAt_eq_nil ht hnone)
  · obtain ⟨g', htokens', hfront', hnarrow⟩ := hgap plain
    refine (Pass.propertiesOf_foundAt_ne_nil_iff _ i).1 ?_
    show propertiesOf (Pass.foundAt f'.tokens i).declarations ≠ []
    rw [← htokens', ← hfront', Pass.propertiesOf_foundAt_word, hnarrow, hfront', ← hfront]
    exact hfound
  · obtain ⟨g', htokens', hfront', hnarrow⟩ := hgap plain
    have hfound' : propertiesOf (Pass.foundAt g'.narrow g'.front.length).declarations ≠ [] := by
      rw [hnarrow, hfront', ← hfront]
      exact hfound
    refine map_properties_eq ?_
    show propertiesOf (ofTokens f'.tokens).declarations =
      propertiesOf (ofTokens f.tokens).declarations
    rw [← htokens', ← htokens, Pass.properties_narrow g' hfound', Pass.properties_narrow g hfound,
      hnarrow]

/-- A type in the only property of a class, read off the tokens; the type ends at offset `k`. -/
theorem typeInserted_single (source' : Text) (type : List Token) (k : Nat) (isType : IsType type)
    (read : Token.tokenize source' = [⟨⟨.openTag, "<?php"⟩, 1, 0⟩, ⟨⟨.blank, " "⟩, 1, 5⟩,
        ⟨⟨.keyword, "class"⟩, 1, 6⟩, ⟨⟨.blank, " "⟩, 1, 11⟩, ⟨⟨.name, "A"⟩, 1, 12⟩,
        ⟨⟨.openBrace, "\x7b"⟩, 1, 13⟩] ++ ⟨⟨.keyword, "public"⟩, 1, 14⟩ ::
      ((⟨⟨.blank, " "⟩, 1, 20⟩ :: type ++ [⟨⟨.blank, " "⟩, 1, k⟩]) ++
        ⟨⟨.dollarName, "$x"⟩, 1, k + 1⟩ ::
          [⟨⟨.semicolon, ";"⟩, 1, k + 3⟩, ⟨⟨.closeBrace, "\x7d"⟩, 1, k + 4⟩])) :
    let f := SourceFile.parse "a.php" "<?php class A\x7bpublic $x;\x7d"
    let f' := SourceFile.parse "a.php" source'
    TypeInserted f.tokens f'.tokens 6 type ∧ ∃ p ∈ f.outline.properties, p.span.first = 6 := by
  intro f f'
  obtain ⟨tokens, hfirst⟩ : f.tokens = [⟨⟨.openTag, "<?php"⟩, 1, 0⟩, ⟨⟨.blank, " "⟩, 1, 5⟩,
        ⟨⟨.keyword, "class"⟩, 1, 6⟩, ⟨⟨.blank, " "⟩, 1, 11⟩, ⟨⟨.name, "A"⟩, 1, 12⟩,
        ⟨⟨.openBrace, "\x7b"⟩, 1, 13⟩] ++ ⟨⟨.keyword, "public"⟩, 1, 14⟩ ::
      ([⟨⟨.blank, " "⟩, 1, 20⟩] ++ ⟨⟨.dollarName, "$x"⟩, 1, 21⟩ ::
        [⟨⟨.semicolon, ";"⟩, 1, 23⟩, ⟨⟨.closeBrace, "\x7d"⟩, 1, 24⟩]) ∧
      f.outline.properties.map (·.span.first) = [6] := by decide +kernel
  have inserted :
      significant (⟨⟨.blank, " "⟩, 1, 20⟩ :: type ++ [⟨⟨.blank, " "⟩, 1, k⟩]) = type := by
    have hwords : ∀ t ∈ type, t.isSignificant = true := by
      intro t ht
      have hkind := isType.kind_of_mem t ht
      rw [Token.isSignificant_eq]
      revert hkind
      cases t.kind <;> simp [Kind.isSilent]
    rw [List.cons_append, significant_cons_of_neg rfl, significant_append,
      significant_eq_self hwords, significant_cons_of_neg rfl]
    exact List.append_nil type
  obtain ⟨p, hp, hspan⟩ := List.map_eq_singleton_iff.1 hfirst
  refine ⟨?_, p, hp ▸ List.mem_singleton_self p, hspan⟩
  exact .written _ _ _ _ _ _ _ _ _ _ tokens read rfl rfl rfl (by decide) rfl (by decide)
    (congrArg _ inserted) isType

/-- A name of two parts that may be missing. -/
theorem typed_property_recovered_nullable :
    let f' := SourceFile.parse "a.php" "<?php class A\x7bpublic ?B\\C $x;\x7d"
    (f'.outline.properties.map fun d => (d.name, (Declaration.property d).fullname, d.owner)) =
      [("x".toList, "A::$x".toList, "A".toList)] := by
  intro f'
  obtain ⟨hinserted, hfound⟩ := typeInserted_single "<?php class A\x7bpublic ?B\\C $x;\x7d"
    [⟨⟨.punct, "?"⟩, 1, 21⟩, ⟨⟨.name, "B"⟩, 1, 22⟩, ⟨⟨.punct, "\\"⟩, 1, 23⟩, ⟨⟨.name, "C"⟩, 1, 24⟩]
    25 (.nullable (by decide) (.named (List.cons_ne_nil _ _) (by decide))) (by decide +kernel)
  have hboth := typed_property_recovered_iff "a.php" "a.php" _ _ 6 _ hinserted hfound
  have hsame := hboth.2 (by decide)
  exact hsame.trans (by decide +kernel)

/-- **A property with a type in parentheses is lost**, and the rules say nothing of it. -/
theorem grouped_type_lost :
    let f := SourceFile.parse "a.php" "<?php class A\x7bpublic $x;\x7d"
    let f' := SourceFile.parse "a.php" "<?php class A\x7bpublic (A&B)|null $x;\x7d"
    (∃ type, TypeInserted f.tokens f'.tokens 6 type) ∧
      (f.outline.properties.map fun d => (d.name, d.span.first)) = [("x".toList, 6)] ∧
      f'.outline.properties = [] ∧ (Rule.propertiesDocumented.findings f).length = 1 ∧
      Rule.propertiesDocumented.findings f' = [] := by
  intro f f'
  have hinserted := typeInserted_single "<?php class A\x7bpublic (A&B)|null $x;\x7d"
    [⟨⟨.openParen, "("⟩, 1, 21⟩, ⟨⟨.name, "A"⟩, 1, 22⟩, ⟨⟨.punct, "&"⟩, 1, 23⟩,
      ⟨⟨.name, "B"⟩, 1, 24⟩, ⟨⟨.closeParen, ")"⟩, 1, 25⟩, ⟨⟨.punct, "|"⟩, 1, 26⟩,
      ⟨⟨.name, "null"⟩, 1, 27⟩] 31
    (.joined (.grouped rfl (.joined (isType_single rfl) (Or.inr rfl) (isType_single rfl)) rfl)
      (Or.inl rfl) (isType_single rfl)) (by decide +kernel)
  exact ⟨⟨_, hinserted.1⟩, by decide +kernel⟩

end Outline

end DocLint
