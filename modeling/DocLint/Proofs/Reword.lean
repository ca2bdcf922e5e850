import DocLint.Proofs.Pass
import Mathlib.Data.List.Basic

/-!
# Tokens with other texts

Literals, blanks and comments can be written in another way, and tokens can be moved, without any
effect on what is recognised.

* `Rewording`: a change of texts that is made part by part; `Alike`: two tokens of one kind, the text
  of the second changed from that of the first, names and operators kept.
* `reword` for documentation, declarations, recognitions and outlines: only what is copied from the
  text of a comment or a literal changes.
* `recognize_reword`: the recognisers answer with the reworded declarations.
* `ofTokens_map`: the outline of the changed tokens is the reworded outline.
-/

namespace DocLint

/-! ## Rewording -/

/-- The block with the text of its comment changed. -/
def DocBlock.reword (g : Text → Text) (d : DocBlock) : DocBlock := { d with raw := g d.raw }

/-- The parameter with the text of its type changed. -/
def Parameter.reword (g : Text → Text) (p : Parameter) : Parameter :=
  { p with typeHint := g p.typeHint }

/-- The class with its documentation changed. -/
def ClassDecl.reword (g : Text → Text) (d : ClassDecl) : ClassDecl :=
  { d with doc := d.doc.map (·.reword g) }

/-- The function with its documentation and the types of its parameters changed. -/
def FunctionDecl.reword (g : Text → Text) (d : FunctionDecl) : FunctionDecl :=
  { d with parameters := d.parameters.map (·.reword g), doc := d.doc.map (·.reword g) }

/-- The property with its documentation changed. -/
def PropertyDecl.reword (g : Text → Text) (d : PropertyDecl) : PropertyDecl :=
  { d with doc := d.doc.map (·.reword g) }

/-- The constant with its documentation changed, and its name if a literal gives it. -/
def ConstantDecl.reword (g : Text → Text) (d : ConstantDecl) : ConstantDecl :=
  { d with name := if d.form = .define then g d.name else d.name, doc := d.doc.map (·.reword g) }

/-- The declaration with the texts changed that are copied from literals and comments: types of
parameters, names given to `define` and documentation. -/
def Declaration.reword (g : Text → Text) : Declaration → Declaration
  | classLike d => classLike (d.reword g)
  | function d => function (d.reword g)
  | property d => property (d.reword g)
  | constant d => constant (d.reword g)

namespace Outline

/-- What is recognised, with its declarations changed. -/
def Recognition.reword (g : Text → Text) (r : Recognition) : Recognition :=
  { r with declarations := r.declarations.map (·.reword g) }

/-- The outline with its documentation and its declarations changed. -/
def reword (g : Text → Text) (o : Outline) : Outline where
  fileDoc := o.fileDoc.map (·.reword g)
  docs := o.docs.map (·.reword g)
  declarations := o.declarations.map (·.reword g)

section Kinds

variable {g : Text → Text} {o : Outline}

/-- The declarations of one kind. -/
theorem filterMap_reword {α : Type} {kind? : Declaration → Option α} {φ : α → α}
    (h : ∀ d, kind? (d.reword g) = (kind? d).map φ) (ds : List Declaration) :
    (ds.map (·.reword g)).filterMap kind? = (ds.filterMap kind?).map φ := by
  rw [List.filterMap_map, List.map_filterMap]
  exact List.filterMap_congr fun d _ => h d

theorem classes_reword : (o.reword g).classes = o.classes.map (·.reword g) :=
  filterMap_reword (fun d => by cases d <;> rfl) o.declarations

theorem functions_reword : (o.reword g).functions = o.functions.map (·.reword g) :=
  filterMap_reword (fun d => by cases d <;> rfl) o.declarations

theorem properties_reword : (o.reword g).properties = o.properties.map (·.reword g) :=
  filterMap_reword (fun d => by cases d <;> rfl) o.declarations

theorem constants_reword : (o.reword g).constants = o.constants.map (·.reword g) :=
  filterMap_reword (fun d => by cases d <;> rfl) o.declarations

theorem constantsOf_reword (form : ConstantForm) :
    (o.reword g).constantsOf form = (o.constantsOf form).map (·.reword g) := by
  unfold constantsOf
  rw [constants_reword, List.filter_map]
  rfl

end Kinds

theorem reword_id (o : Outline) : o.reword id = o := by
  have hdoc : ∀ d : Option DocBlock, d.map (·.reword id) = d := fun d => by cases d <;> rfl
  have hdocs : ∀ ds : List DocBlock, ds.map (·.reword id) = ds := fun ds =>
    (List.map_congr_left fun d _ => rfl).trans (List.map_id ds)
  have hparams : ∀ ps : List Parameter, ps.map (·.reword id) = ps := fun ps =>
    (List.map_congr_left fun p _ => rfl).trans (List.map_id ps)
  have hdeclarations : ∀ ds : List Declaration, ds.map (·.reword id) = ds := by
    intro ds
    refine (List.map_congr_left fun d _ => ?_).trans (List.map_id ds)
    cases d <;> simp [Declaration.reword, ClassDecl.reword, FunctionDecl.reword,
      PropertyDecl.reword, ConstantDecl.reword, hdoc, hparams]
  unfold reword
  rw [hdoc, hdocs, hdeclarations]

/-- A change of texts that is made part by part and leaves the quotes of literals alone. -/
structure Rewording (g : Text → Text) : Prop where
  nil : g [] = []
  append : ∀ s t, g (s ++ t) = g s ++ g t
  unquote : ∀ l, unquote? (g l) = (unquote? l).map g

theorem rewording_id : Rewording id :=
  ⟨rfl, fun _ _ => rfl, fun _ => by simp⟩

/-- `t'` is `t` written in another way, at any place. -/
structure Alike (g : Text → Text) (t t' : Token) : Prop where
  kind : t'.kind = t.kind
  text : t'.text = g t.text
  kept : t.kind = .name ∨ t.kind = .keyword ∨ t.kind = .dollarName ∨ t.kind = .punct →
    t'.text = t.text
  isDoc : t'.isDoc = t.isDoc
  doc : t.isDoc = true → ∀ i, DocBlock.ofToken t' i = (DocBlock.ofToken t i).reword g

namespace Alike

variable {g : Text → Text} {t t' : Token}

/-- A test of the kind decides, or the other test does not tell the tokens apart. -/
theorem kind_and_congr (h : Alike g t t') {k : Kind} {a b : Bool} (hab : t.kind = k → a = b) :
    (t'.kind == k && a) = (t.kind == k && b) := by
  rw [h.kind]
  by_cases hk : t.kind = k
  · rw [hab hk]
  · rw [beq_eq_false_iff_ne.2 hk]
    rfl

theorem isKeyword_eq (h : Alike g t t') (word : Text) : t'.isKeyword word = t.isKeyword word :=
  h.kind_and_congr fun hk => by rw [h.kept (Or.inr (Or.inl hk))]

theorem isPunct_eq (h : Alike g t t') (text : Text) : t'.isPunct text = t.isPunct text :=
  h.kind_and_congr fun hk => by rw [h.kept (Or.inr (Or.inr (Or.inr hk)))]

theorem isClassWord_eq (h : Alike g t t') : t'.isClassWord = t.isClassWord := by
  simp [Token.isClassWord, h.isKeyword_eq]

theorem isModifier_eq (h : Alike g t t') : t'.isModifier = t.isModifier := by
  simp [Token.isModifier, h.isKeyword_eq]

theorem isSignificant_eq (h : Alike g t t') : t'.isSignificant = t.isSignificant := by
  unfold Token.isSignificant Token.isTrivia
  rw [h.kind]

theorem role_eq (h : Alike g t t') : t'.role = t.role := by
  unfold Token.role
  rw [h.kind, h.isDoc]

theorem isMemberAccess_eq (h : Alike g t t') : isMemberAccess t' = isMemberAccess t := by
  simp [isMemberAccess, h.isPunct_eq]

theorem endsPropertyHead_eq (h : Alike g t t') : endsPropertyHead t' = endsPropertyHead t := by
  unfold endsPropertyHead
  rw [h.isKeyword_eq, h.isKeyword_eq, h.isPunct_eq, h.kind]

theorem isDefineWord_eq (h : Alike g t t') :
    (t'.kind == .name && Text.sameLetters t'.text "define") =
      (t.kind == .name && Text.sameLetters t.text "define") :=
  h.kind_and_congr fun hk => by rw [h.kept (Or.inl hk)]

end Alike

/-! ## The scans -/

section Scans

variable {g : Text → Text} {φ : Token → Token} {ts : List Token}

theorem closeFrom_map (h : ∀ t ∈ ts, Alike g t (φ t)) (pair : Kind × Kind) (depth j : Nat) :
    closeFrom pair depth j (ts.map φ) = closeFrom pair depth j ts := by
  induction ts generalizing depth j with
  | nil => rfl
  | cons t ts ih =>
      obtain ⟨ht, hts⟩ := List.forall_mem_cons.1 h
      simp only [List.map_cons, closeFrom, ht.kind, ih hts]

theorem statementEndFrom_map (h : ∀ t ∈ ts, Alike g t (φ t)) (start depth j : Nat) :
    statementEndFrom start depth j (ts.map φ) = statementEndFrom start depth j ts := by
  induction ts generalizing depth j with
  | nil => rfl
  | cons t ts ih =>
      obtain ⟨ht, hts⟩ := List.forall_mem_cons.1 h
      simp only [List.map_cons, statementEndFrom, ht.kind, ih hts]

theorem modifiersBack_map (h : ∀ t ∈ ts, Alike g t (φ t)) (start j : Nat) :
    modifiersBack start j (ts.map φ) = modifiersBack start j ts := by
  induction ts generalizing start j with
  | nil => rfl
  | cons t ts ih =>
      obtain ⟨ht, hts⟩ := List.forall_mem_cons.1 h
      simp only [List.map_cons, modifiersBack, ht.isSignificant_eq, ht.isModifier_eq, ih hts]

theorem find?_map_of_eq {α β : Type} {f : α → β} {p : β → Bool} {q : α → Bool} {l : List α}
    (h : ∀ a ∈ l, p (f a) = q a) : (l.map f).find? p = (l.find? q).map f := by
  induction l with
  | nil => rfl
  | cons a l ih =>
      obtain ⟨ha, hl⟩ := List.forall_mem_cons.1 h
      rw [List.map_cons, List.find?_cons, List.find?_cons, ha]
      cases q a with
      | true => rfl
      | false => exact ih hl

/-- The first token of a sort from an index on. -/
theorem find?_zipIdx_map {p : Token → Bool} (h : ∀ t ∈ ts, p (φ t) = p t) (start : Nat) :
    (((ts.map φ).drop start).zipIdx start).find? (p ·.1) =
      (((ts.drop start).zipIdx start).find? (p ·.1)).map (Prod.map φ id) := by
  rw [← List.map_drop, List.zipIdx_map]
  refine find?_map_of_eq fun q hq => ?_
  have hget := (getElem?_of_mem_zipIdx_drop (t := q.1) (j := q.2) hq).1
  exact h q.1 (List.mem_of_getElem? hget)

theorem nextSignificant?_map (h : ∀ t ∈ ts, Alike g t (φ t)) (start : Nat) :
    nextSignificant? (ts.map φ) start = (nextSignificant? ts start).map (Prod.map φ id) :=
  find?_zipIdx_map (fun t ht => (h t ht).isSignificant_eq) start

theorem mem_of_nextSignificant? {start n : Nat} {t : Token}
    (h : nextSignificant? ts start = some (t, n)) : t ∈ ts :=
  List.mem_of_getElem? (nextSignificant?_eq_some h).1

theorem any_prevSignificant?_map (h : ∀ t ∈ ts, Alike g t (φ t)) {p : Token → Bool}
    (hp : ∀ t ∈ ts, p (φ t) = p t) (i : Nat) :
    (prevSignificant? (ts.map φ) i).any p = (prevSignificant? ts i).any p := by
  have hmap : prevSignificant? (ts.map φ) i = (prevSignificant? ts i).map φ := by
    unfold prevSignificant?
    rw [← List.map_take, ← List.map_reverse]
    refine find?_map_of_eq fun t ht => ?_
    exact (h t (List.mem_of_mem_take (List.mem_reverse.1 ht))).isSignificant_eq
  rw [hmap]
  cases hprev : prevSignificant? ts i with
  | none => rfl
  | some t =>
      have ht : t ∈ ts := by
        have := List.mem_of_find?_eq_some hprev
        exact List.mem_of_mem_take (List.mem_reverse.1 this)
      exact hp t ht

theorem lastIndex_map : lastIndex (ts.map φ) = lastIndex ts := by
  simp [lastIndex]

theorem matchingClose_map (h : ∀ t ∈ ts, Alike g t (φ t)) (opening : Nat) :
    matchingClose (ts.map φ) opening = matchingClose ts opening := by
  have hdrop : ∀ t ∈ ts.drop opening, Alike g t (φ t) := fun t ht => h t (List.mem_of_mem_drop ht)
  unfold matchingClose
  rw [← List.map_drop, lastIndex_map]
  cases hcons : ts.drop opening with
  | nil => rfl
  | cons t rest =>
      rw [hcons] at hdrop
      have hclose := closeFrom_map hdrop (pairOf t.kind) 0 opening
      simp only [List.map_cons] at hclose ⊢
      rw [(hdrop t List.mem_cons_self).kind, hclose]

theorem bodyFrom_map (h : ∀ t ∈ ts, Alike g t (φ t)) (start : Nat) :
    bodyFrom (ts.map φ) start = bodyFrom ts start := by
  have hfind := find?_zipIdx_map (p := fun t => t.kind == .openBrace || t.kind == .semicolon)
    (fun t ht => by rw [(h t ht).kind]) start
  unfold bodyFrom
  rw [hfind, lastIndex_map]
  cases hf : ((ts.drop start).zipIdx start).find? fun p =>
      p.1.kind == .openBrace || p.1.kind == .semicolon with
  | none => rfl
  | some p =>
      have hget := (getElem?_of_mem_zipIdx_drop (List.mem_of_find?_eq_some hf)).1
      simp only [Option.map_some, Prod.map, id, matchingClose_map h]
      rw [(h p.1 (List.mem_of_getElem? hget)).kind]

theorem statementEnd_map (h : ∀ t ∈ ts, Alike g t (φ t)) (start : Nat) :
    statementEnd (ts.map φ) start = statementEnd ts start := by
  unfold statementEnd
  rw [← List.map_drop, lastIndex_map,
    statementEndFrom_map fun t ht => h t (List.mem_of_mem_drop ht)]

theorem statementStart_map (h : ∀ t ∈ ts, Alike g t (φ t)) (i : Nat) :
    statementStart (ts.map φ) i = statementStart ts i := by
  unfold statementStart
  rw [← List.map_take, ← List.map_reverse,
    modifiersBack_map fun t ht => h t (List.mem_of_mem_take (List.mem_reverse.1 ht))]

theorem slice_map (first last : Nat) :
    slice (ts.map φ) first last = (slice ts first last).map (Prod.map φ id) := by
  unfold slice
  rw [← List.map_drop, List.zipIdx_map, List.map_take]

theorem mem_of_mem_slice {first last : Nat} {p : Token × Nat} (hp : p ∈ slice ts first last) :
    p.1 ∈ ts :=
  List.mem_of_getElem? (getElem?_of_mem_slice (t := p.1) (j := p.2) hp).1

/-! ## Names and parameters -/

theorem splitCommas_map (h : ∀ t ∈ ts, Alike g t (φ t)) (depth : Nat) :
    splitCommas depth (ts.map φ) = (splitCommas depth ts).map (List.map φ) := by
  induction ts generalizing depth with
  | nil => rfl
  | cons t ts ih =>
      obtain ⟨ht, hts⟩ := List.forall_mem_cons.1 h
      simp only [List.map_cons, splitCommas, ht.kind, ih hts]
      split
      · rfl
      · cases splitCommas (depthAfter depth t.kind) ts <;> rfl

theorem mem_of_mem_splitCommas {depth : Nat} {part : List Token} {t : Token}
    (hpart : part ∈ splitCommas depth ts) (ht : t ∈ part) : t ∈ ts := by
  induction ts generalizing depth part with
  | nil =>
      rw [List.mem_singleton.1 hpart] at ht
      cases ht
  | cons u ts ih =>
      rw [splitCommas] at hpart
      split at hpart
      · rcases List.mem_cons.1 hpart with rfl | hpart
        · cases ht
        · exact List.mem_cons_of_mem _ (ih hpart ht)
      · split at hpart
        · rw [List.mem_singleton.1 hpart] at ht
          rw [List.mem_singleton.1 ht]
          exact List.mem_cons_self
        · rename_i p ps hps
          rcases List.mem_cons.1 hpart with rfl | hpart
          · rcases List.mem_cons.1 ht with rfl | ht
            · exact List.mem_cons_self
            · exact List.mem_cons_of_mem _ (ih (by rw [hps]; exact List.mem_cons_self) ht)
          · exact List.mem_cons_of_mem _
              (ih (by rw [hps]; exact List.mem_cons_of_mem _ hpart) ht)

theorem readParameter_map (hg : Rewording g) (h : ∀ t ∈ ts, Alike g t (φ t)) (hint : Text)
    (variadic : Bool) :
    readParameter (g hint) variadic (ts.map φ) =
      (readParameter hint variadic ts).map (·.reword g) := by
  induction ts generalizing hint variadic with
  | nil => rfl
  | cons t ts ih =>
      obtain ⟨ht, hts⟩ := List.forall_mem_cons.1 h
      simp only [List.map_cons, readParameter, ht.kind, ht.isSignificant_eq, ht.isModifier_eq,
        ht.isPunct_eq, ht.text, ← hg.append, ih hts]
      split
      · rfl
      split
      · rename_i hkind
        rw [← ht.text, ht.kept (Or.inr (Or.inr (Or.inl hkind)))]
        rfl
      split
      · rfl
      split
      · rfl
      split
      · rfl
      · rfl

theorem readParameters_map (hg : Rewording g) (h : ∀ t ∈ ts, Alike g t (φ t)) :
    readParameters (ts.map φ) = (readParameters ts).map (·.reword g) := by
  have hpart : ∀ part ∈ splitCommas 0 ts, readParameter [] false (part.map φ) =
      (readParameter [] false part).map (·.reword g) := by
    intro part hmem
    have := readParameter_map hg (fun t ht => h t (mem_of_mem_splitCommas hmem ht)) [] false
    rwa [hg.nil] at this
  unfold readParameters
  rw [splitCommas_map h, List.filterMap_map, List.map_filterMap]
  exact List.filterMap_congr hpart

theorem functionName?_map (h : ∀ t ∈ ts, Alike g t (φ t)) (i : Nat) :
    functionName? (ts.map φ) i = (functionName? ts i).map (Prod.map φ id) := by
  have pick : ∀ p : Token × Nat, p.1 ∈ ts →
      (if (φ p.1).kind = .name ∨ (φ p.1).kind = .keyword then some (φ p.1, p.2) else none) =
        (if p.1.kind = .name ∨ p.1.kind = .keyword then some p else none).map (Prod.map φ id) := by
    intro p hp
    rw [(h p.1 hp).kind]
    split <;> rfl
  unfold functionName?
  simp only [Option.bind_eq_bind, nextSignificant?_map h]
  cases hn : nextSignificant? ts (i + 1) with
  | none => rfl
  | some p =>
      have hp := mem_of_nextSignificant? hn
      simp only [Option.map_some, Option.bind_some, Prod.map, id, (h _ hp).isPunct_eq]
      split
      · cases hn' : nextSignificant? ts (p.2 + 1) with
        | none => rfl
        | some q => exact pick q (mem_of_nextSignificant? hn')
      · exact pick p hp

theorem getElem?_of_functionName? {i n : Nat} {name : Token}
    (h : functionName? ts i = some (name, n)) :
    ts[n]? = some name ∧ (name.kind = .name ∨ name.kind = .keyword) := by
  have pick : ∀ word : Option (Token × Nat), (∀ t m, word = some (t, m) → ts[m]? = some t) →
      (word.bind fun p => if p.1.kind = .name ∨ p.1.kind = .keyword then some p else none) =
        some (name, n) → ts[n]? = some name ∧ (name.kind = .name ∨ name.kind = .keyword) := by
    intro word hword h
    obtain ⟨p, hp, h⟩ := Option.bind_eq_some_iff.1 h
    split at h
    · rename_i hkind
      cases h
      exact ⟨hword _ _ hp, hkind⟩
    · cases h
  unfold functionName? at h
  simp only [Option.bind_eq_bind, Option.bind_eq_some_iff] at h
  obtain ⟨⟨t, k⟩, hn, h⟩ := h
  split at h
  · exact pick _ (fun u m hu => (nextSignificant?_eq_some hu).1) h
  · refine pick (some (t, k)) ?_ h
    rintro u m ⟨rfl, rfl⟩
    exact (nextSignificant?_eq_some hn).1

/-- What has been read of an item, its candidate changed. -/
def ConstantItem.map (φ : Token → Token) : ConstantItem → ConstantItem
  | naming candidate => naming (candidate.map (Prod.map φ id))
  | value => value

theorem constantNames_map {l : List (Token × Nat)} (h : ∀ p ∈ l, Alike g p.1 (φ p.1))
    (depth : Nat) (item : ConstantItem) :
    constantNames depth (item.map φ) (l.map (Prod.map φ id)) =
      (constantNames depth item l).map (Prod.map φ id) := by
  induction l generalizing depth item with
  | nil => cases item <;> rfl
  | cons p l ih =>
      obtain ⟨t, j⟩ := p
      obtain ⟨ht, hl⟩ := List.forall_mem_cons.1 h
      simp only [List.map_cons, Prod.map, id]
      rw [constantNames.eq_def, constantNames.eq_def]
      simp only [ht.kind, ht.isPunct_eq]
      split
      · exact ih hl _ _
      split
      · exact ih hl _ _
      split
      · exact ih hl _ (.naming none)
      cases item with
      | value => exact ih hl _ .value
      | naming candidate =>
          simp only [ConstantItem.map]
          split
          · rw [List.map_append, ← ih hl _ .value]
            cases candidate <;> rfl
          split
          · exact ih hl _ (.naming (some (t, j)))
          · exact ih hl _ (.naming candidate)

theorem mem_of_mem_constantNames_start {l : List (Token × Nat)} {p : Token × Nat}
    (hp : p ∈ constantNames 0 (.naming none) l) : p ∈ l := by
  rcases mem_of_mem_constantNames hp with hp | ⟨q, hq, _⟩
  · exact hp
  · cases hq

theorem kind_of_mem_constantNames {depth : Nat} {item : ConstantItem} {l : List (Token × Nat)}
    {p : Token × Nat} (hp : p ∈ constantNames depth item l)
    (hitem : ∀ q, item = .naming (some q) → q.1.kind = .name ∨ q.1.kind = .keyword) :
    p.1.kind = .name ∨ p.1.kind = .keyword := by
  induction l generalizing depth item with
  | nil => cases hp
  | cons q l ih =>
      obtain ⟨t, j⟩ := q
      rw [constantNames.eq_def] at hp
      simp only at hp
      split at hp
      · exact ih hp hitem
      split at hp
      · exact ih hp hitem
      split at hp
      · exact ih hp (by simp)
      split at hp
      · exact ih hp (by simp)
      · rename_i candidate
        split at hp
        · rcases List.mem_append.1 hp with hp | hp
          · exact hitem p (by rw [Option.mem_toList.1 hp])
          · exact ih hp (by simp)
        · split at hp
          · rename_i hkind
            refine ih hp fun q hq => ?_
            cases hq
            exact hkind
          · exact ih hp hitem

theorem firstVariable?_map {l : List (Token × Nat)} (h : ∀ p ∈ l, Alike g p.1 (φ p.1)) :
    firstVariable? (l.map (Prod.map φ id)) = firstVariable? l := by
  induction l with
  | nil => rfl
  | cons p l ih =>
      obtain ⟨ht, hl⟩ := List.forall_mem_cons.1 h
      simp only [List.map_cons, Prod.map, id, firstVariable?, ht.isSignificant_eq, ht.kind,
        ht.endsPropertyHead_eq]
      rw [← ih hl]

theorem propertyNames_map {l : List (Token × Nat)} (h : ∀ p ∈ l, Alike g p.1 (φ p.1))
    (depth : Nat) (wanted : Bool) :
    propertyNames depth wanted (l.map (Prod.map φ id)) =
      (propertyNames depth wanted l).map (Prod.map φ id) := by
  induction l generalizing depth wanted with
  | nil => rfl
  | cons p l ih =>
      obtain ⟨ht, hl⟩ := List.forall_mem_cons.1 h
      rw [List.map_cons, Prod.map, propertyNames, propertyNames]
      simp only [ht.kind, ih hl, id]
      split
      · rfl
      split
      · rfl
      split
      · rfl
      split <;> rfl

theorem kind_of_mem_propertyNames {depth : Nat} {wanted : Bool} {l : List (Token × Nat)}
    {p : Token × Nat} (hp : p ∈ propertyNames depth wanted l) : p.1.kind = .dollarName := by
  induction l generalizing depth wanted with
  | nil => cases hp
  | cons q l ih =>
      rw [propertyNames] at hp
      split at hp
      · exact ih hp
      split at hp
      · exact ih hp
      split at hp
      · exact ih hp
      split at hp
      · rename_i hkind
        rcases List.mem_cons.1 hp with rfl | hp
        · rw [Bool.and_eq_true, beq_iff_eq] at hkind
          exact hkind.2
        · exact ih hp
      · exact ih hp

theorem kind_of_isClassWord {t : Token} (h : t.isClassWord = true) : t.kind = .keyword := by
  obtain ⟨w, _, hword⟩ := List.any_eq_true.1 h
  simp only [Token.isKeyword, Bool.and_eq_true, beq_iff_eq] at hword
  exact hword.1

end Scans

/-! ## The recognisers -/

/-- The same surroundings with other tokens and reworded documentation. -/
def Site.reword (g : Text → Text) (φ : Token → Token) (s : Site) : Site :=
  ⟨s.tokens.map φ, s.scopes, s.doc.map (·.reword g)⟩

section Recognisers

variable {g : Text → Text} {φ : Token → Token} {s : Site} {i : Nat} {t : Token}

theorem classLikeAt_reword (h : ∀ t ∈ s.tokens, Alike g t (φ t)) (ht : t ∈ s.tokens)
    (word : t.kind = .keyword) :
    classLikeAt (s.reword g φ) i (φ t) = (classLikeAt s i t).map (·.reword g) := by
  unfold classLikeAt Site.reword
  simp only [Option.bind_eq_bind, nextSignificant?_map h, bodyFrom_map h,
    (h t ht).kept (Or.inr (Or.inl word))]
  rw [any_prevSignificant?_map h fun u hu => by
    rw [(h u hu).isMemberAccess_eq, (h u hu).isKeyword_eq]]
  split
  · rfl
  · cases hn : nextSignificant? s.tokens (i + 1) with
    | none => rfl
    | some p =>
        have hp := h p.1 (mem_of_nextSignificant? hn)
        simp only [Option.map_some, Option.bind_some, Prod.map_fst, Prod.map_snd, id, hp.kind]
        split
        · rfl
        · rename_i hkind
          rw [hp.kept (Or.inl (Decidable.not_not.1 hkind))]
          rfl

theorem functionAt_reword (hg : Rewording g) (h : ∀ t ∈ s.tokens, Alike g t (φ t)) :
    functionAt (s.reword g φ) i = (functionAt s i).map (·.reword g) := by
  unfold functionAt Site.reword
  simp only [Option.bind_eq_bind, functionName?_map h, nextSignificant?_map h,
    matchingClose_map h, bodyFrom_map h, ← List.map_drop, ← List.map_take]
  rw [any_prevSignificant?_map h fun u hu => (h u hu).isKeyword_eq _]
  split
  · rfl
  · cases hname : functionName? s.tokens i with
    | none => rfl
    | some p =>
        simp only [Option.map_some, Option.bind_some, Prod.map_fst, Prod.map_snd, id]
        cases hn : nextSignificant? s.tokens (p.2 + 1) with
        | none => rfl
        | some q =>
            obtain ⟨hget, hword⟩ := getElem?_of_functionName? hname
            have hp := h p.1 (List.mem_of_getElem? hget)
            have hq := h q.1 (mem_of_nextSignificant? hn)
            simp only [Option.map_some, Option.bind_some, Prod.map_fst, Prod.map_snd, id, hq.kind]
            split
            · rfl
            · have hbetween : ∀ u ∈ (s.tokens.drop (q.2 + 1)).take
                  (matchingClose s.tokens q.2 - (q.2 + 1)), Alike g u (φ u) := fun u hu =>
                h u (List.mem_of_mem_drop (List.mem_of_mem_take hu))
              rw [readParameters_map hg hbetween, hp.kept (hword.imp_right Or.inl)]
              rfl

theorem constantsAt_reword (h : ∀ t ∈ s.tokens, Alike g t (φ t)) :
    constantsAt (s.reword g φ) i = (constantsAt s i).map (·.reword g) := by
  unfold constantsAt Site.reword
  simp only [statementEnd_map h, statementStart_map h, slice_map]
  rw [any_prevSignificant?_map h fun u hu => (h u hu).isKeyword_eq _]
  split
  · rfl
  · have hnames := constantNames_map (l := slice s.tokens (i + 1) (statementEnd s.tokens (i + 1)))
      (fun p hp => h p.1 (mem_of_mem_slice hp)) 0 (.naming none)
    simp only [ConstantItem.map, Option.map_none] at hnames
    rw [hnames, Option.map_some]
    congr 1
    unfold Recognition.reword
    simp only [List.map_map]
    congr 1
    refine List.map_congr_left fun p hp => ?_
    have hkind := kind_of_mem_constantNames hp (by simp)
    have hp := h p.1 (mem_of_mem_slice (mem_of_mem_constantNames_start hp))
    simp only [Function.comp, Prod.map, Declaration.reword, ConstantDecl.reword,
      hp.kept (hkind.imp_right Or.inl)]
    rfl

theorem propertiesAt_reword (h : ∀ t ∈ s.tokens, Alike g t (φ t)) :
    propertiesAt (s.reword g φ) i = (propertiesAt s i).map (·.reword g) := by
  have hrest : ∀ p ∈ (s.tokens.drop (i + 1)).zipIdx (i + 1), Alike g p.1 (φ p.1) := by
    intro p hp
    have hget := (getElem?_of_mem_zipIdx_drop (t := p.1) (j := p.2) hp).1
    exact h p.1 (List.mem_of_getElem? hget)
  unfold propertiesAt Site.reword
  simp only [Option.bind_eq_bind, statementEnd_map h, slice_map, ← List.map_drop, List.zipIdx_map,
    firstVariable?_map hrest]
  cases firstVariable? ((s.tokens.drop (i + 1)).zipIdx (i + 1)) with
  | none => rfl
  | some v =>
      have hnames := propertyNames_map (l := slice s.tokens v (statementEnd s.tokens v))
        (fun p hp => h p.1 (mem_of_mem_slice hp)) 0 true
      simp only [Option.bind_some, Option.map_some]
      rw [hnames]
      congr 1
      unfold Recognition.reword
      simp only [List.map_map]
      congr 1
      refine List.map_congr_left fun p hp => ?_
      have hkind := kind_of_mem_propertyNames hp
      have hp := h p.1 (mem_of_mem_slice (mem_of_mem_propertyNames hp))
      simp only [Function.comp, Prod.map, Declaration.reword, PropertyDecl.reword,
        hp.kept (Or.inr (Or.inr (Or.inl hkind)))]
      rfl

theorem defineAt_reword (hg : Rewording g) (h : ∀ t ∈ s.tokens, Alike g t (φ t)) :
    defineAt (s.reword g φ) i = (defineAt s i).map (·.reword g) := by
  unfold defineAt Site.reword
  simp only [Option.bind_eq_bind, Option.bind_none, nextSignificant?_map h, matchingClose_map h]
  rw [any_prevSignificant?_map h fun u hu => by
    rw [(h u hu).isMemberAccess_eq, (h u hu).isKeyword_eq, (h u hu).isKeyword_eq]]
  split
  · rfl
  · cases hn : nextSignificant? s.tokens (i + 1) with
    | none => rfl
    | some p =>
        have hp := h p.1 (mem_of_nextSignificant? hn)
        simp only [Option.map_some, Option.bind_some, Prod.map_fst, Prod.map_snd, id, hp.kind]
        split
        · rfl
        · cases hn' : nextSignificant? s.tokens (p.2 + 1) with
          | none => rfl
          | some q =>
              have hq := h q.1 (mem_of_nextSignificant? hn')
              simp only [Option.map_some, Option.bind_some, Prod.map_fst, hq.kind, hq.text, hg.unquote]
              split
              · rfl
              · cases unquote? q.1.text with
                | none => rfl
                | some name =>
                    simp only [Option.map_some, Option.bind_some]
                    cases hend : nextSignificant? s.tokens (matchingClose s.tokens p.2 + 1) with
                    | none => rfl
                    | some e =>
                        have he := h e.1 (mem_of_nextSignificant? hend)
                        simp only [Option.map_some, Prod.map_fst, Prod.map_snd, id, he.kind]
                        rfl

/-- **The recognisers answer with the reworded declarations.** -/
theorem recognize_reword (hg : Rewording g) (h : ∀ t ∈ s.tokens, Alike g t (φ t))
    (ht : t ∈ s.tokens) :
    recognize (s.reword g φ) i (φ t) = (recognize s i t).reword g := by
  have orNothing : ∀ found : Option Recognition,
      (found.map (·.reword g)).getD {} = (found.getD {}).reword g := by
    intro found
    cases found <;> rfl
  have hmember : (s.reword g φ).inClass i = s.inClass i := rfl
  unfold recognize
  simp only [(h t ht).isClassWord_eq, (h t ht).isKeyword_eq, (h t ht).isModifier_eq,
    (h t ht).isDefineWord_eq, hmember]
  rw [← orNothing]
  congr 1
  split
  · rename_i word
    exact classLikeAt_reword h ht (kind_of_isClassWord word)
  split
  · exact functionAt_reword hg h
  split
  · exact constantsAt_reword h
  split
  · exact propertiesAt_reword h
  split
  · exact defineAt_reword hg h
  · rfl

end Recognisers

/-! ## The pass -/

namespace Pass

/-- The pass with the documentation and the declarations found so far changed. -/
def reword (g : Text → Text) (p : Pass) : Pass :=
  { p with outline := p.outline.reword g, waiting := p.waiting.map (·.reword g) }

variable {g : Text → Text} {φ : Token → Token} {ts : List Token}

theorem collect_reword {t : Token} (h : Alike g t (φ t)) (hdoc : t.isDoc = true) (p : Pass)
    (i : Nat) : (p.reword g).collect i (φ t) = (p.collect i t).reword g := by
  obtain ⟨⟨fileDoc, docs, declarations⟩, waiting, scopes, resumeAt, codeSeen⟩ := p
  unfold collect
  rw [h.doc hdoc, h.kind]
  by_cases hkind : t.kind = .docComment
  · cases codeSeen <;> cases fileDoc <;> simp [reword, Outline.reword, hkind]
  · simp [reword, Outline.reword, hkind]

theorem advance_reword (hg : Rewording g) (h : ∀ t ∈ ts, Alike g t (φ t)) {t : Token}
    (ht : t ∈ ts) (p : Pass) (i : Nat) :
    (p.reword g).advance (ts.map φ) i (φ t) = (p.advance ts i t).reword g := by
  have hsite : (p.reword g).site (ts.map φ) = (p.site ts).reword g φ := rfl
  unfold advance
  rw [hsite, recognize_reword hg h ht, (h t ht).isModifier_eq]
  simp only [add, reword, Outline.reword, Recognition.reword]
  by_cases hle : p.resumeAt ≤ i
  · simp only [hle, if_true, List.map_append]
    split <;> rfl
  · simp only [hle, if_false]
    split <;> rfl

theorem step_reword (hg : Rewording g) (h : ∀ t ∈ ts, Alike g t (φ t)) {t : Token} (ht : t ∈ ts)
    (p : Pass) (i : Nat) :
    step (ts.map φ) (p.reword g) (φ t, i) = (step ts p (t, i)).reword g := by
  have hleave : (p.reword g).leave i = (p.leave i).reword g := rfl
  unfold step
  simp only [(h t ht).role_eq, hleave]
  cases hrole : t.role with
  | invisible => rfl
  | doc => exact collect_reword (h t ht) ((role_eq_doc_iff t).1 hrole) _ i
  | divider => rfl
  | code => exact advance_reword hg h ht _ i

theorem run_map (hg : Rewording g) (h : ∀ t ∈ ts, Alike g t (φ t)) :
    run (ts.map φ) = (run ts).reword g := by
  have hfold : ∀ (l : List (Token × Nat)) (p : Pass), (∀ q ∈ l, q.1 ∈ ts) →
      (l.map (Prod.map φ id)).foldl (step (ts.map φ)) (p.reword g) =
        (l.foldl (step ts) p).reword g := by
    intro l
    induction l with
    | nil => intro p _; rfl
    | cons q l ih =>
        intro p hl
        obtain ⟨hq, hl⟩ := List.forall_mem_cons.1 hl
        have hstep : step (ts.map φ) (p.reword g) (Prod.map φ id q) = (step ts p q).reword g :=
          step_reword hg h hq p q.2
        rw [List.map_cons, List.foldl_cons, List.foldl_cons, ← ih _ hl, hstep]
  unfold run
  rw [List.zipIdx_map]
  exact hfold ts.zipIdx {} fun q hq => List.mem_of_getElem? (List.mem_zipIdx_iff_getElem?.1 hq)

end Pass

/-- **Tokens that are alike have the same outline, reworded.** -/
theorem ofTokens_map {g : Text → Text} {φ : Token → Token} {ts : List Token} (hg : Rewording g)
    (h : ∀ t ∈ ts, Alike g t (φ t)) : ofTokens (ts.map φ) = (ofTokens ts).reword g := by
  unfold ofTokens
  rw [Pass.run_map hg h]
  rfl

end Outline

end DocLint
