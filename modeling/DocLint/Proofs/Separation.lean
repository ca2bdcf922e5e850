import DocLint.Proofs.Trivia

/-!
# Declarations stand apart

The pass looks for declarations one token after another, and a recogniser says from where on it goes
on. That keeps declarations from being found twice or inside one another.

* `Declaration.SharesStatement`: two declarations are items of one statement.
* `Shuts`: how a statement ends, so that a walk back over modifiers does not come into it.
* `pairwise_declarations`: what holds of two declarations found at one token, and of two found at
  different ones, holds throughout a file.
* `declarations_apart`: declarations come in the order of the tokens that stand for them, statements
  share no token, and nothing is introduced inside a statement or in the head of a function.
-/

namespace DocLint

namespace Token

theorem kind_of_isKeyword {t : Token} {word : Text} (h : t.isKeyword word = true) :
    t.kind = .keyword := by
  simp only [isKeyword, Bool.and_eq_true, beq_iff_eq] at h
  exact h.1

theorem kind_of_isModifier {t : Token} (h : t.isModifier = true) : t.kind = .keyword := by
  obtain ⟨_, _, hw⟩ := List.any_eq_true.1 h
  exact kind_of_isKeyword hw

/-- A modifier is one of its words only. -/
theorem mem_modifierWords_of_isKeyword {t : Token} {word : Text} (h : t.isModifier = true)
    (hword : t.isKeyword word = true) : Text.lower word ∈ modifierWords.map Text.lower := by
  obtain ⟨w, hmem, hw⟩ := List.any_eq_true.1 h
  simp only [isKeyword, Text.sameLetters, Bool.and_eq_true, beq_iff_eq] at hw hword
  rw [← hword.2, hw.2]
  exact List.mem_map_of_mem hmem

end Token

namespace Declaration

/-- Is a statement: a property, a constant or a call of `define`. -/
def isStatement : Declaration → Bool
  | classLike _ => false
  | function _ => false
  | property _ => true
  | constant _ => true

/-- Items of one statement: two properties, or two constants behind the word `const`, that are
introduced by one token and have the same range. -/
structure SharesStatement (ts : List Token) (d e : Declaration) : Prop where
  word : d.declaringToken ts = e.declaringToken ts
  span : d.span = e.span
  kind : (∃ p q, d = .property p ∧ e = .property q) ∨
    ∃ c k, d = .constant c ∧ e = .constant k ∧ c.form = .const ∧ k.form = .const

theorem SharesStatement.symm {ts : List Token} {d e : Declaration} (h : d.SharesStatement ts e) :
    e.SharesStatement ts d := by
  refine ⟨h.word.symm, h.span.symm, ?_⟩
  rcases h.kind with ⟨p, q, hd, he⟩ | ⟨c, k, hd, he, hc, hk⟩
  · exact Or.inl ⟨q, p, he, hd⟩
  · exact Or.inr ⟨k, c, he, hd, hk, hc⟩

/-- What introduces a declaration is a word. -/
theorem kind_of_isIntroducedBy {d : Declaration} {t : Token} (h : d.isIntroducedBy t = true) :
    t.kind = .keyword ∨ t.kind = .name := by
  cases d with
  | classLike d =>
      obtain ⟨_, _, hw⟩ := List.any_eq_true.1 h
      exact Or.inl (Token.kind_of_isKeyword hw)
  | function d => exact Or.inl (Token.kind_of_isKeyword h)
  | property d => exact Or.inl (Token.kind_of_isModifier h)
  | constant d =>
      simp only [isIntroducedBy] at h
      split at h
      · exact Or.inl (Token.kind_of_isKeyword h)
      · simp only [Bool.and_eq_true, beq_iff_eq] at h
        exact Or.inr h.1

/-- A modifier introduces properties only. -/
theorem property_of_isModifier {d : Declaration} {t : Token} (h : d.isIntroducedBy t = true)
    (ht : t.isModifier = true) : ∃ p, d = .property p := by
  cases d with
  | classLike d =>
      obtain ⟨w, hmem, hw⟩ := List.any_eq_true.1 h
      have hno : ∀ w ∈ Token.classWords, Text.lower w ∉ Token.modifierWords.map Text.lower := by
        decide
      exact absurd (Token.mem_modifierWords_of_isKeyword ht hw) (hno w hmem)
  | function d => exact absurd (Token.mem_modifierWords_of_isKeyword ht h) (by decide)
  | property d => exact ⟨d, rfl⟩
  | constant d =>
      simp only [isIntroducedBy] at h
      split at h
      · exact absurd (Token.mem_modifierWords_of_isKeyword ht h) (by decide)
      · simp [Token.kind_of_isModifier ht] at h

end Declaration

/-- Where the head of a function ends: at the brace of its body, at the semicolon in place of a
body, or behind the last token of the file. -/
inductive FunctionDecl.HeadEnds (ts : List Token) (g : FunctionDecl) : Nat → Prop where
  | brace (o : Nat) (t : Token) (body : g.body = some o) (here : ts[o]? = some t)
      (kind : t.kind = .openBrace) : HeadEnds ts g o
  | semicolon (t : Token) (body : g.body = none) (here : ts[g.span.last]? = some t)
      (kind : t.kind = .semicolon) : HeadEnds ts g g.span.last
  | never (body : g.body = none) (last : g.span.last + 1 = ts.length) : HeadEnds ts g ts.length

namespace Outline

variable {ts : List Token}

/-! ## How statements end -/

/-- A statement ends at index `last`: with a semicolon or a bracket, in front of a bracket, or with
the last token. -/
inductive Shuts (ts : List Token) (last : Nat) : Prop where
  | mark (t : Token) (here : ts[last]? = some t)
      (kind : t.kind = .semicolon ∨ t.kind.closes = true)
  | bracket (t : Token) (next : ts[last + 1]? = some t) (closes : t.kind.closes = true)
  | never (last : last = lastIndex ts)

theorem shuts_of_statementEndFrom {start depth j m : Nat} (hj : start ≤ j)
    (h : statementEndFrom start depth j (ts.drop j) = some m) : Shuts ts m := by
  generalize hus : ts.drop j = us at h
  induction us generalizing depth j with
  | nil => cases h
  | cons t us ih =>
      obtain ⟨ht, hrest⟩ := drop_eq_cons hus
      rw [statementEndFrom] at h
      split at h
      · exact ih (by omega) hrest h
      split at h
      · rename_i hcloses
        split at h
        · cases h
          rcases Nat.lt_or_ge (j - 1) start with hlt | hge
          · have hmax : max (j - 1) start = j := by omega
            rw [hmax]
            exact .mark t ht (Or.inr hcloses)
          · rw [Nat.max_eq_left hge]
            cases j with
            | zero => exact .mark t ht (Or.inr hcloses)
            | succ j => exact .bracket t ht hcloses
        split at h
        · cases h
          exact .mark t ht (Or.inr hcloses)
        · exact ih (by omega) hrest h
      split at h
      · rename_i hsemi
        cases h
        exact .mark t ht (Or.inl hsemi.1)
      · exact ih (by omega) hrest h

theorem shuts_statementEnd (ts : List Token) (start : Nat) : Shuts ts (statementEnd ts start) := by
  unfold statementEnd
  cases h : statementEndFrom start 0 start (ts.drop start) with
  | none => exact .never rfl
  | some m => exact shuts_of_statementEndFrom (Nat.le_refl _) h

theorem shuts_matchingClose {o : Nat} (ho : o < ts.length) : Shuts ts (matchingClose ts o) := by
  have ht : ts[o]? = some ts[o] := List.getElem?_eq_getElem ho
  rw [matchingClose_eq ht]
  cases h : closeFrom (pairOf ts[o].kind) 0 o (ts.drop o) with
  | none => exact .never rfl
  | some m =>
      obtain ⟨u, hu, hkind⟩ := getElem?_of_closeFrom h
      refine .mark u hu (Or.inr ?_)
      rw [hkind]
      unfold pairOf
      split <;> rfl

/-- A walk back over modifiers from behind a statement stops behind it. -/
theorem Shuts.lt_statementStart {last i : Nat} {t : Token} (h : Shuts ts last) (hlt : last < i)
    (ht : ts[i]? = some t) (hopen : t.kind.closes = false) : last < statementStart ts i := by
  have hi := (List.getElem?_eq_some_iff.1 ht).1
  obtain ⟨_, honly⟩ := statementStart_spec (Nat.le_of_lt hi)
  -- a semicolon or a bracket is neither silent nor a modifier
  have stops : ∀ {u : Token}, (u.kind = .semicolon ∨ u.kind.closes = true) →
      ¬(u.isSignificant = false ∨ u.isModifier = true) := by
    rintro u hu (hsig | hmod)
    · rcases hu with hu | hu
      · exact Token.kind_ne_of_not_isSignificant hsig (by decide) hu
      · rw [Token.isSignificant_of_closes hu] at hsig
        cases hsig
    · rw [Token.kind_of_isModifier hmod] at hu
      simp [Kind.closes] at hu
  refine Nat.lt_of_not_le fun hle => ?_
  cases h with
  | mark u here kind => exact stops kind (honly last u hle hlt here)
  | bracket u next closes =>
      have hne : last + 1 ≠ i := by
        rintro rfl
        rw [ht, Option.some.injEq] at next
        rw [next, closes] at hopen
        cases hopen
      exact stops (Or.inr closes) (honly (last + 1) u (by omega) (by omega) next)
  | never hlast =>
      unfold lastIndex at hlast
      omega

theorem bodyFrom_of_opening_eq_none {start : Nat} (h : (bodyFrom ts start).opening = none) :
    (∃ t, ts[(bodyFrom ts start).last]? = some t ∧ t.kind = .semicolon) ∨
      (bodyFrom ts start).last = lastIndex ts := by
  unfold bodyFrom at h ⊢
  cases hf : ((ts.drop start).zipIdx start).find? fun p =>
      p.1.kind == .openBrace || p.1.kind == .semicolon with
  | none => exact Or.inr rfl
  | some p =>
      obtain ⟨b, j⟩ := p
      rw [hf] at h
      simp only at h ⊢
      split at h
      · cases h
      · rename_i hbrace
        rw [if_neg hbrace]
        obtain ⟨hget, _, htest, _⟩ :=
          find?_zipIdx_drop (p := fun u => u.kind == .openBrace || u.kind == .semicolon) hf
        simp only [Bool.or_eq_true, beq_iff_eq] at htest
        exact Or.inl ⟨b, hget, htest.resolve_left hbrace⟩

/-! ## The order of names -/

theorem constantNames_sublist (depth : Nat) (item : ConstantItem) (ts : List (Token × Nat)) :
    (constantNames depth item ts).Sublist
      ((match item with
        | .naming candidate => candidate.toList
        | .value => []) ++ ts) := by
  induction ts generalizing depth item with
  | nil => exact List.nil_sublist _
  | cons p ts ih =>
      obtain ⟨t, j⟩ := p
      -- the token is passed over
      have skip : ∀ {l front : List (Token × Nat)}, l.Sublist (front ++ ts) →
          l.Sublist (front ++ (t, j) :: ts) := fun h =>
        h.trans ((List.sublist_cons_self _ _).append_left _)
      have restart : ∀ {l front : List (Token × Nat)}, l.Sublist ts →
          l.Sublist (front ++ (t, j) :: ts) := fun h =>
        (h.trans (List.sublist_cons_self _ _)).trans (List.sublist_append_right _ _)
      rw [constantNames.eq_def]
      simp only
      split
      · exact skip (ih _ _)
      split
      · exact skip (ih _ _)
      split
      · exact restart (ih depth (.naming none))
      split
      · exact skip (ih _ _)
      · rename_i candidate
        split
        · exact (List.Sublist.refl _).append ((ih depth .value).trans (List.sublist_cons_self _ _))
        split
        · exact (ih depth (.naming (some (t, j)))).trans (List.sublist_append_right _ _)
        · exact skip (ih _ _)

theorem propertyNames_sublist (depth : Nat) (wanted : Bool) (ts : List (Token × Nat)) :
    (propertyNames depth wanted ts).Sublist ts := by
  induction ts generalizing depth wanted with
  | nil => exact List.Sublist.refl _
  | cons p ts ih =>
      obtain ⟨t, j⟩ := p
      rw [propertyNames]
      split
      · exact (ih _ _).cons _
      split
      · exact (ih _ _).cons _
      split
      · exact (ih _ _).cons _
      split
      · exact (ih _ _).cons_cons _
      · exact (ih _ _).cons _

/-- The tokens of a statement come in order. -/
theorem pairwise_slice (ts : List Token) (first last : Nat) :
    (slice ts first last).Pairwise (·.2 < ·.2) := by
  have hindexes : ((ts.drop first).zipIdx first).Pairwise (·.2 < ·.2) := by
    rw [← List.pairwise_map (f := Prod.snd), List.zipIdx_map_snd]
    exact List.pairwise_lt_range'
  exact hindexes.sublist (List.take_sublist _ _)

/-- Between modifiers and the word `const` there is no first variable. -/
theorem firstVariable?_of_onlyModifiers {j k : Nat} {u : Token} (hle : j ≤ k)
    (hu : ts[k]? = some u) (hconst : u.isKeyword "const" = true) (honly : OnlyModifiers ts j k) :
    firstVariable? ((ts.drop j).zipIdx j) = none := by
  obtain ⟨n, rfl⟩ := Nat.exists_eq_add_of_le hle
  have hk := (List.getElem?_eq_some_iff.1 hu).1
  induction n generalizing j with
  | zero =>
      have hkeyword := Token.kind_of_isKeyword hconst
      have hsig := Token.isSignificant_of_kind hkeyword rfl
      have hends : endsPropertyHead u = true := by
        unfold endsPropertyHead
        rw [hconst, Bool.or_true]
        rfl
      rw [Nat.add_zero] at hk hu
      obtain ⟨_, rfl⟩ := List.getElem?_eq_some_iff.1 hu
      rw [List.drop_eq_getElem_cons hk, List.zipIdx_cons, firstVariable?,
        if_neg (by simp [hsig]), if_neg (by simp [hkeyword]), if_pos hends]
  | succ n ih =>
      have hj : j < ts.length := by omega
      have hrest : firstVariable? ((ts.drop (j + 1)).zipIdx (j + 1)) = none := by
        have hsum : j + 1 + n = j + (n + 1) := by omega
        refine ih (by omega) ?_ ?_ ?_
        · rw [hsum]; exact hu
        · rw [hsum]; exact honly.mono (by omega)
        · omega
      rw [List.drop_eq_getElem_cons hj, List.zipIdx_cons, firstVariable?]
      split
      · exact hrest
      · rename_i hsig
        have hmod := (honly j _ (Nat.le_refl _) (by omega)
          (List.getElem?_eq_getElem hj)).resolve_left (by simpa using hsig)
        rw [if_neg (by simp [Token.kind_of_isModifier hmod])]
        split
        · rfl
        · exact hrest

/-! ## Declarations found at one token -/

namespace Recognized

variable {s : Site} {i : Nat} {t : Token} {r : Recognition} {d e : Declaration}

theorem le_anchor (h : Recognized s i t r) (hd : d ∈ r.declarations) : i ≤ d.anchor := by
  cases h with
  | nothing => cases hd
  | classLike => rw [List.mem_singleton.1 hd]; exact Nat.le_refl i
  | function => rw [List.mem_singleton.1 hd]; exact Nat.le_refl i
  | constants =>
      obtain ⟨p, hp, rfl⟩ := List.mem_map.1 hd
      rcases mem_of_mem_constantNames hp with hp | ⟨q, hq, _⟩
      · exact Nat.le_of_succ_le (le_of_mem_slice hp).1
      · cases hq
  | properties v word inside first =>
      obtain ⟨p, hp, rfl⟩ := List.mem_map.1 hd
      have hv : i + 1 ≤ v :=
        le_firstVariable? (fun p hp => (getElem?_of_mem_zipIdx_drop hp).2) first
      have := (le_of_mem_slice (mem_of_mem_propertyNames hp)).1
      show i ≤ p.2
      omega
  | define => rw [List.mem_singleton.1 hd]; exact Nat.le_refl i

/-- The search goes on behind a statement. -/
theorem resumeAt_of_isStatement (h : Recognized s i t r) (hd : d ∈ r.declarations)
    (hs : d.isStatement = true) : r.resumeAt = some (d.span.last + 1) := by
  cases h with
  | nothing => cases hd
  | classLike => rw [List.mem_singleton.1 hd] at hs; cases hs
  | function => rw [List.mem_singleton.1 hd] at hs; cases hs
  | constants => obtain ⟨p, _, rfl⟩ := List.mem_map.1 hd; rfl
  | properties => obtain ⟨p, _, rfl⟩ := List.mem_map.1 hd; rfl
  | define => rw [List.mem_singleton.1 hd]; rfl

/-- What is no statement starts with the token that stands for it. -/
theorem anchor_of_not_isStatement (h : Recognized s i t r) (hd : d ∈ r.declarations)
    (hs : d.isStatement = false) : d.anchor = i := by
  cases h with
  | nothing => cases hd
  | classLike => rw [List.mem_singleton.1 hd]; rfl
  | function => rw [List.mem_singleton.1 hd]; rfl
  | constants => obtain ⟨p, _, rfl⟩ := List.mem_map.1 hd; cases hs
  | properties => obtain ⟨p, _, rfl⟩ := List.mem_map.1 hd; cases hs
  | define => rw [List.mem_singleton.1 hd] at hs; cases hs

theorem shuts (h : Recognized s i t r) (hd : d ∈ r.declarations) (hs : d.isStatement = true) :
    Shuts s.tokens d.span.last := by
  cases h with
  | nothing => cases hd
  | classLike => rw [List.mem_singleton.1 hd] at hs; cases hs
  | function => rw [List.mem_singleton.1 hd] at hs; cases hs
  | constants => obtain ⟨p, _, rfl⟩ := List.mem_map.1 hd; exact shuts_statementEnd _ _
  | properties => obtain ⟨p, _, rfl⟩ := List.mem_map.1 hd; exact shuts_statementEnd _ _
  | define paren literal o n last name word free next opens argument quoted named ends =>
      rw [List.mem_singleton.1 hd]
      show Shuts s.tokens last
      have hclose : Shuts s.tokens (matchingClose s.tokens o) :=
        shuts_matchingClose (List.getElem?_eq_some_iff.1 (nextSignificant?_eq_some next).1).1
      rw [ends]
      split
      · rename_i u j hj
        split
        · rename_i hsemi
          exact .mark u (nextSignificant?_eq_some hj).1 (Or.inl hsemi)
        · exact hclose
      · exact hclose

/-- A statement starts with the word that introduces it, or with the modifiers in front of the word
`const`. -/
theorem statement_first (h : Recognized s i t r) (hd : d ∈ r.declarations)
    (hs : d.isStatement = true) :
    d.span.first = i ∨ t.isKeyword "const" = true ∧ d.span.first = statementStart s.tokens i := by
  cases h with
  | nothing => cases hd
  | classLike => rw [List.mem_singleton.1 hd] at hs; cases hs
  | function => rw [List.mem_singleton.1 hd] at hs; cases hs
  | constants word => obtain ⟨p, _, rfl⟩ := List.mem_map.1 hd; exact Or.inr ⟨word, rfl⟩
  | properties => obtain ⟨p, _, rfl⟩ := List.mem_map.1 hd; exact Or.inl rfl
  | define => rw [List.mem_singleton.1 hd]; exact Or.inl rfl

/-- Several declarations at one token are items of one statement, in the order of their names. -/
theorem pairwise_items (h : Recognized s i t r) (ht : s.tokens[i]? = some t) :
    r.declarations.Pairwise fun d e => d.anchor < e.anchor ∧ d.SharesStatement s.tokens e := by
  cases h with
  | nothing => exact .nil
  | classLike => exact List.pairwise_singleton _ _
  | function => exact List.pairwise_singleton _ _
  | constants word =>
      have hnames := (pairwise_slice s.tokens (i + 1) (statementEnd s.tokens (i + 1))).sublist
        (constantNames_sublist 0 (.naming none) _)
      rw [List.pairwise_map]
      refine hnames.imp fun hlt => ⟨hlt, ?_, rfl, Or.inr ⟨_, _, rfl, rfl, rfl, rfl⟩⟩
      exact (findIdx_const ht word).trans (findIdx_const ht word).symm
  | properties v =>
      have hnames := (pairwise_slice s.tokens v (statementEnd s.tokens v)).sublist
        (propertyNames_sublist 0 true _)
      rw [List.pairwise_map]
      exact hnames.imp fun hlt => ⟨hlt, rfl, rfl, Or.inl ⟨_, _, rfl, rfl⟩⟩
  | define => exact List.pairwise_singleton _ _

theorem eq_or_sharesStatement (h : Recognized s i t r) (ht : s.tokens[i]? = some t)
    (hd : d ∈ r.declarations) (he : e ∈ r.declarations) :
    e = d ∨ d.SharesStatement s.tokens e := by
  have hitems := h.pairwise_items ht
  obtain ⟨j, hj, rfl⟩ := List.mem_iff_getElem.1 hd
  obtain ⟨k, hk, rfl⟩ := List.mem_iff_getElem.1 he
  rcases Nat.lt_trichotomy j k with hlt | rfl | hgt
  · exact Or.inr (List.pairwise_iff_getElem.1 hitems j k hj hk hlt).2
  · exact Or.inl rfl
  · exact Or.inr (List.pairwise_iff_getElem.1 hitems k j hk hj hgt).2.symm

/-- A property does not start among the modifiers in front of the word `const`. -/
theorem not_property_of_onlyModifiers (h : Recognized s i t r) {k : Nat} {u : Token}
    (hlt : i < k) (hu : s.tokens[k]? = some u) (hconst : u.isKeyword "const" = true)
    (honly : OnlyModifiers s.tokens (i + 1) k) {q : PropertyDecl} :
    .property q ∉ r.declarations := by
  intro hd
  cases h with
  | nothing => cases hd
  | classLike => cases List.mem_singleton.1 hd
  | function => cases List.mem_singleton.1 hd
  | constants =>
      obtain ⟨p, _, hp⟩ := List.mem_map.1 hd
      cases hp
  | properties v word inside first =>
      rw [firstVariable?_of_onlyModifiers hlt hu hconst honly] at first
      cases first
  | define => cases List.mem_singleton.1 hd

/-- The search goes on where the head of a function ends, or with the last token if it never
ends. -/
theorem head_spec (h : Recognized s i t r) {g : FunctionDecl} (hd : .function g ∈ r.declarations) :
    ∃ stop m, g.HeadEnds s.tokens stop ∧ i < stop ∧ r.resumeAt = some m ∧
      (m = stop ∨ m = lastIndex s.tokens ∧ stop = s.tokens.length) := by
  cases h with
  | nothing => cases hd
  | classLike => cases List.mem_singleton.1 hd
  | function name paren n o word free named next opens =>
      obtain ⟨rfl⟩ := Declaration.function.inj (List.mem_singleton.1 hd)
      have hn := functionName?_eq_some named
      obtain ⟨hget, ho, _⟩ := nextSignificant?_eq_some next
      have holen := (List.getElem?_eq_some_iff.1 hget).1
      have hclose := le_matchingClose holen
      have hlast : matchingClose s.tokens o ≤
          (bodyFrom s.tokens (matchingClose s.tokens o + 1)).last :=
        le_bodyFrom_last (matchingClose_lt (by omega) o) (Nat.le_succ _)
      rcases Option.eq_none_or_eq_some (bodyFrom s.tokens (matchingClose s.tokens o + 1)).opening with
        hb | ⟨b, hb⟩
      · rcases bodyFrom_of_opening_eq_none hb with ⟨u, hu, hsemi⟩ | hnever
        · refine ⟨_, _, .semicolon u hb hu hsemi, ?_, rfl, Or.inl ?_⟩
          · show i < (bodyFrom s.tokens (matchingClose s.tokens o + 1)).last
            omega
          · rw [hb, Option.getD_none]
            exact Nat.max_eq_left (by omega)
        · rw [hnever, lastIndex] at hlast
          refine ⟨_, _, .never hb ?_, by omega, rfl, Or.inr ⟨?_, rfl⟩⟩
          · show (bodyFrom s.tokens (matchingClose s.tokens o + 1)).last + 1 = s.tokens.length
            rw [hnever, lastIndex]
            omega
          · rw [hb, Option.getD_none, hnever, lastIndex]
            omega
      · obtain ⟨hle, ⟨u, hu, hbrace⟩, _⟩ := bodyFrom_opening hb
        refine ⟨b, _, .brace b u hb hu hbrace, by omega, rfl, Or.inl ?_⟩
        rw [hb, Option.getD_some]
        exact Nat.max_eq_left (by omega)
  | constants =>
      obtain ⟨p, _, hp⟩ := List.mem_map.1 hd
      cases hp
  | properties =>
      obtain ⟨p, _, hp⟩ := List.mem_map.1 hd
      cases hp
  | define => cases List.mem_singleton.1 hd

end Recognized

/-! ## The declarations of a file -/

namespace Pass

theorem declarations_run (ts : List Token) :
    (run ts).outline.declarations =
      (List.range ts.length).flatMap fun i => (foundAt ts i).declarations := by
  have hprefix : ∀ n ≤ ts.length, (upTo ts n).outline.declarations =
      (List.range n).flatMap fun i => (foundAt ts i).declarations := by
    refine upTo_induction (P := fun n p => p.outline.declarations =
      (List.range n).flatMap fun i => (foundAt ts i).declarations) rfl ?_
    intro n t h ih
    rw [declarations_upTo_succ h, ih, List.range_succ, List.flatMap_append, List.flatMap_singleton]
  rw [run_eq_upTo, hprefix _ (Nat.le_refl _)]

/-- What holds of two declarations found at one token, and of two found at different ones, holds of
any two declarations of a file. -/
theorem pairwise_declarations {R : Declaration → Declaration → Prop}
    (same : ∀ i t, ts[i]? = some t → (foundAt ts i).declarations.Pairwise R)
    (apart : ∀ i j t u, i < j → ts[i]? = some t → ts[j]? = some u →
      ∀ d ∈ (foundAt ts i).declarations, ∀ e ∈ (foundAt ts j).declarations, R d e) :
    (ofTokens ts).declarations.Pairwise R := by
  have hget : ∀ {i}, i ∈ List.range ts.length → ∃ t, ts[i]? = some t := fun hi =>
    ⟨_, List.getElem?_eq_getElem (List.mem_range.1 hi)⟩
  show (run ts).outline.declarations.Pairwise R
  rw [declarations_run, List.pairwise_flatMap]
  constructor
  · intro i hi
    obtain ⟨t, ht⟩ := hget hi
    exact same i t ht
  · refine List.pairwise_lt_range.imp_of_mem fun {i j} hi hj hlt => ?_
    obtain ⟨t, ht⟩ := hget hi
    obtain ⟨u, hu⟩ := hget hj
    exact apart i j t u hlt ht hu

/-- Nothing is found before the index from which the search goes on. -/
theorem resumeAt_le_of_mem {i j m : Nat} {t u : Token} {e : Declaration} (hlt : i < j)
    (ht : ts[i]? = some t) (hu : ts[j]? = some u) (hm : (foundAt ts i).resumeAt = some m)
    (he : e ∈ (foundAt ts j).declarations) : m ≤ j := by
  have hmono := resumeAt_mono hlt (Nat.le_of_lt (List.getElem?_eq_some_iff.1 hu).1)
  rw [resumeAt_upTo_succ ht, hm, Option.getD_some] at hmono
  refine Nat.le_of_not_lt fun hskip => ?_
  rw [foundAt_of_lt (by omega)] at he
  cases he

/-- **The tokens that stand for declarations come in order.** -/
theorem pairwise_anchor (ts : List Token) :
    (ofTokens ts).declarations.Pairwise fun d e => d.anchor < e.anchor := by
  refine pairwise_declarations
    (fun i t ht => ((recognized_foundAt ht).pairwise_items ht).imp And.left) ?_
  intro i j t u hlt ht hu d hd e he
  have hle : j ≤ e.anchor := (recognized_foundAt hu).le_anchor he
  cases hs : d.isStatement with
  | false =>
      have := (recognized_foundAt ht).anchor_of_not_isStatement hd hs
      omega
  | true =>
      have hresume := (recognized_foundAt ht).resumeAt_of_isStatement hd hs
      have hbehind := resumeAt_le_of_mem hlt ht hu hresume he
      have := ((recognized_foundAt ht).span_bounds ht hd).2.1
      omega

/-- **Statements share no token**, unless they are one. -/
theorem pairwise_statements (ts : List Token) :
    (ofTokens ts).declarations.Pairwise fun d e => d.isStatement = true → e.isStatement = true →
      d.SharesStatement ts e ∨ d.span.last < e.span.first := by
  refine pairwise_declarations (fun i t ht => ?_) ?_
  · exact ((recognized_foundAt ht).pairwise_items ht).imp fun hitems _ _ => Or.inl hitems.2
  intro i j t u hlt ht hu d hd e he hd' he'
  refine Or.inr ?_
  have hresume := (recognized_foundAt ht).resumeAt_of_isStatement hd hd'
  have hbehind := resumeAt_le_of_mem hlt ht hu hresume he
  rcases (recognized_foundAt hu).statement_first he he' with hfirst | ⟨hconst, hfirst⟩
  · omega
  · rw [hfirst]
    have hkind : u.kind.closes = false := by
      rw [Token.kind_of_isKeyword hconst]
      rfl
    exact ((recognized_foundAt ht).shuts hd hd').lt_statementStart (by omega) hu hkind

/-- **Nothing else is introduced inside a statement.** -/
theorem eq_or_sharesStatement_of_inside {d e : Declaration}
    (hd : d ∈ (ofTokens ts).declarations) (hs : d.isStatement = true)
    (he : e ∈ (ofTokens ts).declarations) (hfirst : d.span.first ≤ e.declaringToken ts)
    (hlast : e.declaringToken ts ≤ d.span.last) : e = d ∨ d.SharesStatement ts e := by
  obtain ⟨t, ht, _, hd⟩ := introduced_of_mem_run hd
  obtain ⟨u, hu, hword, he⟩ := introduced_of_mem_run he
  have hfound := recognized_foundAt ht
  rcases Nat.lt_trichotomy (e.declaringToken ts) (d.declaringToken ts) with hlt | heq | hgt
  · -- among the modifiers in front of a constant only a property could be introduced
    rcases hfound.statement_first hd hs with hstart | ⟨hconst, hstart⟩
    · omega
    have honly : OnlyModifiers ts (statementStart ts (d.declaringToken ts)) (d.declaringToken ts) :=
      (statementStart_spec (Nat.le_of_lt (List.getElem?_eq_some_iff.1 ht).1)).2
    have hstart : d.span.first = statementStart ts (d.declaringToken ts) := hstart
    rw [← hstart] at honly
    have hmod : u.isModifier = true := by
      refine (honly _ u hfirst hlt hu).resolve_left fun hsig => ?_
      rcases Declaration.kind_of_isIntroducedBy hword with hkind | hkind
      · exact Token.kind_ne_of_not_isSignificant hsig rfl hkind
      · exact Token.kind_ne_of_not_isSignificant hsig rfl hkind
    obtain ⟨q, rfl⟩ := Declaration.property_of_isModifier hword hmod
    exact absurd he ((recognized_foundAt hu).not_property_of_onlyModifiers hlt ht hconst
      (honly.mono (by omega)))
  · rw [heq] at he
    exact hfound.eq_or_sharesStatement ht hd he
  · have := resumeAt_le_of_mem hgt ht hu (hfound.resumeAt_of_isStatement hd hs) he
    omega

/-- **Nothing is introduced in the head of a function.** -/
theorem exists_headEnds {g : FunctionDecl} (hg : .function g ∈ (ofTokens ts).declarations) :
    ∃ stop, g.HeadEnds ts stop ∧ g.span.first < stop ∧
      ∀ e ∈ (ofTokens ts).declarations,
        e.declaringToken ts ≤ g.span.first ∨ stop ≤ e.declaringToken ts := by
  obtain ⟨t, ht, _, hg⟩ := introduced_of_mem_run hg
  have ht : ts[g.span.first]? = some t := ht
  obtain ⟨stop, m, hends, hlt, hresume, hstop⟩ := (recognized_foundAt ht).head_spec hg
  have hstop : m = stop ∨ m = lastIndex ts ∧ stop = ts.length := hstop
  refine ⟨stop, hends, hlt, fun e he => ?_⟩
  obtain ⟨u, hu, _, he⟩ := introduced_of_mem_run he
  rcases Nat.lt_or_ge g.span.first (e.declaringToken ts) with hbehind | hle
  · have hm := resumeAt_le_of_mem hbehind ht hu hresume he
    refine Or.inr ?_
    rcases hstop with rfl | ⟨rfl, rfl⟩
    · exact hm
    · -- the search goes on with the last token, where there is nothing to declare
      have hnext : nextSignificant? ts (e.declaringToken ts + 1) = none := by
        unfold lastIndex at hm
        rw [nextSignificant?, List.drop_eq_nil_of_le (by omega)]
        rfl
      rw [(recognized_foundAt hu).declarations_eq_nil hnext] at he
      cases he
  · exact Or.inl hle

end Pass

/-- **Declarations stand apart**, however malformed the source. The tokens that stand for classes,
for functions, for properties and for constants come in order, so nothing is found twice. Two
statements of properties, constants and defines share no token unless they are items of one; the
token that introduces any other declaration is not among those of a statement; and nothing is
introduced between the word `function` and the end of the head. -/
theorem declarations_apart (path source : Text) :
    let f := SourceFile.parse path source
    ((f.outline.classes.map (·.span.first)).Pairwise (· < ·) ∧
      (f.outline.functions.map (·.span.first)).Pairwise (· < ·) ∧
      (f.outline.properties.map (·.nameToken)).Pairwise (· < ·) ∧
      (f.outline.constants.map (·.nameToken)).Pairwise (· < ·)) ∧
    (f.outline.declarations.Pairwise fun d e => d.isStatement = true → e.isStatement = true →
      d.SharesStatement f.tokens e ∨ d.span.last < e.span.first) ∧
    (∀ d ∈ f.outline.declarations, d.isStatement = true → ∀ e ∈ f.outline.declarations,
      d.span.first ≤ e.declaringToken f.tokens → e.declaringToken f.tokens ≤ d.span.last →
      e = d ∨ d.SharesStatement f.tokens e) ∧
    (∀ g ∈ f.outline.functions, ∃ stop, g.HeadEnds f.tokens stop ∧ g.span.first < stop ∧
      ∀ e ∈ f.outline.declarations,
        e.declaringToken f.tokens ≤ g.span.first ∨ stop ≤ e.declaringToken f.tokens) := by
  intro f
  -- the declarations of one kind are in order because all of them are
  have ofKind : ∀ {α : Type} {kind? : Declaration → Option α} {token : α → Nat},
      (∀ d a, kind? d = some a → d.anchor = token a) →
      ((f.outline.declarations.filterMap kind?).map token).Pairwise (· < ·) := by
    intro α kind? token hkind
    rw [List.pairwise_map, List.pairwise_filterMap]
    refine (Pass.pairwise_anchor f.tokens).imp fun {d e} hlt a ha b hb => ?_
    rw [← hkind d a ha, ← hkind e b hb]
    exact hlt
  refine ⟨⟨ofKind ?_, ofKind ?_, ofKind ?_, ofKind ?_⟩, Pass.pairwise_statements f.tokens,
    fun d hd hs e he => Pass.eq_or_sharesStatement_of_inside hd hs he,
    fun g hg => Pass.exists_headEnds (mem_functions.1 hg)⟩
  · rintro (d | d | d | d) a ⟨⟩
    rfl
  · rintro (d | d | d | d) a ⟨⟩
    rfl
  · rintro (d | d | d | d) a ⟨⟩
    rfl
  · rintro (d | d | d | d) a ⟨⟩
    rfl

/-- The items of a statement share its range, and a parameter with a modifier is no property. -/
example :
    let f := SourceFile.parse "a.php"
      "<?php class A { final const B = 1, C = 2; function f(private $x = 1) {} var $y, $z; }"
    f.outline.declarations.map (fun d => (d.anchor, d.span.first, d.span.last)) =
      [(2, 2, 50), (12, 8, 24), (19, 8, 24), (26, 26, 40), (44, 42, 48), (47, 42, 48)] := by
  decide +kernel

end Outline

end DocLint
