import DocLint.Proofs.Attachment
import DocLint.Proofs.Balance
import DocLint.Proofs.Enclosure
import DocLint.Proofs.Lexis
import DocLint.Proofs.Separation

/-!
# The items of a statement

A statement of constants or properties declares one of them for each of its items. The recognisers
go over the whole statement with a count of the open groups and a flag that says whether a name is
due; over a value the count comes back to where it was, and the flag stays until the next comma.

* `placed`: the significant tokens from an index on, with their indexes.
* `Assignment`, `WrittenConstant`, `WrittenProperty`: the items, token by token.
* `ConstantStatement`, `PropertyStatement`: statements that are lists of items.
* `statementEnd_of_placed`: where such a statement ends.
* `constantNames_listing`, `propertyNames_listing`: the names of the items.
* `Declares`: the declarations that the tokens of a range introduce; `Pass.declares_foundAt`.
* `statement_declares_items`: a statement declares its items.
-/

namespace DocLint

open Outline

/-- A token with its index. -/
abbrev Placed := Token × Nat

/-- `= value`: the value has balanced groups, and no comma, semicolon or brace stands outside of
them. -/
structure Assignment where
  equals : Placed
  value : List Placed
  isEquals : equals.1.isPunct "=" = true := by decide
  balanced : Balanced (value.map (·.1)) := by decide
  inside : ∀ t ∈ outside (value.map (·.1)),
    t.kind ≠ .comma ∧ t.kind ≠ .semicolon ∧ t.kind ≠ .openBrace := by decide

/-- The tokens of an assignment. -/
def Assignment.tokens (a : Assignment) : List Placed := a.equals :: a.value

/-- An item of a constant statement: a type without groups, the name and its value. A semicolon
would end the statement. -/
structure WrittenConstant where
  type : List Placed := []
  name : Placed
  assigned : Assignment
  plain : ∀ p ∈ type, p.1.kind.isBracket = false ∧ p.1.isPunct "=" = false ∧
    p.1.kind ≠ .comma ∧ p.1.kind ≠ .semicolon := by decide
  isName : name.1.kind = .name ∨ name.1.kind = .keyword := by decide

/-- The tokens of the item. -/
def WrittenConstant.tokens (c : WrittenConstant) : List Placed :=
  c.type ++ c.name :: c.assigned.tokens

/-- An item of a property statement: the variable, and maybe its value. -/
structure WrittenProperty where
  name : Placed
  assigned : Option Assignment := none
  isVariable : name.1.kind = .dollarName := by decide

/-- The tokens of the value. -/
def WrittenProperty.tail (p : WrittenProperty) : List Placed :=
  (p.assigned.map (·.tokens)).getD []

/-- The tokens of the item. -/
def WrittenProperty.tokens (p : WrittenProperty) : List Placed := p.name :: p.tail

namespace Outline

/-- The significant tokens from an index on, with their indexes. -/
def placed (ts : List Token) (start : Nat) : List Placed :=
  ((ts.drop start).zipIdx start).filter (·.1.isSignificant)

/-- `const`, items with commas between them, and a semicolon. -/
inductive ConstantStatement (ts : List Token) (i last : Nat) (items : List WrittenConstant) :
    Prop where
  | written (word semicolon : Token) (body rest : List Placed)
      (tokens : placed ts i = (word, i) :: (body ++ (semicolon, last) :: rest))
      (isWord : word.isKeyword "const" = true) (ends : semicolon.kind = .semicolon)
      (list : Listing WrittenConstant.tokens (·.1.kind = .comma) items body)

/-- The token may stand in the type of a property. -/
def isInPropertyType (t : Token) : Bool :=
  t.kind ∉ [.openParen, .closeParen, .openBrace, .closeBrace, .semicolon, .dollarName] &&
    !(t.isPunct "=" || t.isKeyword "function" || t.isKeyword "const")

/-- Modifiers, maybe a type, items with commas between them, and a semicolon. -/
inductive PropertyStatement (ts : List Token) (i last : Nat) (items : List WrittenProperty) :
    Prop where
  | written (word semicolon : Token) (modifiers type body rest : List Placed)
      (tokens : placed ts i =
        (word, i) :: (modifiers ++ type ++ (body ++ (semicolon, last) :: rest)))
      (isWord : word.isModifier = true) (areModifiers : ∀ p ∈ modifiers, p.1.isModifier = true)
      (isType : ∀ p ∈ type, isInPropertyType p.1 = true) (ends : semicolon.kind = .semicolon)
      (list : Listing WrittenProperty.tokens (·.1.kind = .comma) items body)

variable {ts : List Token}

/-! ## Tokens with their indexes -/

/-- What stands from an index on splits at each of its tokens. -/
theorem placed_split {start k : Nat} {u : Token} {us rest : List Placed}
    (h : placed ts start = us ++ (u, k) :: rest) :
    ts[k]? = some u ∧ placed ts (k + 1) = rest ∧
      (slice ts start k).filter (·.1.isSignificant) = us ++ [(u, k)] := by
  obtain ⟨left, right, hsplit, hleft, hright⟩ := List.filter_eq_append_iff.1 h
  obtain ⟨silent, more, rfl, hsilent, hu, hmore⟩ := List.filter_eq_cons_iff.1 hright
  rw [← List.append_assoc] at hsplit
  obtain ⟨front, back, hdrop, hfront, hback⟩ := List.zipIdx_eq_append_iff.1 hsplit
  obtain ⟨a, as, rfl, heq, hmore'⟩ := List.zipIdx_eq_cons_iff.1 hback.symm
  obtain ⟨rfl, rfl⟩ := Prod.mk.inj heq
  have hat : ts.drop (start + front.length) = u :: as := by
    rw [← List.drop_drop, hdrop, List.drop_left]
  obtain ⟨hget, hrest⟩ := drop_eq_cons hat
  refine ⟨hget, by rw [placed, hrest, ← hmore', hmore], ?_⟩
  have hslice : slice ts start (start + front.length) =
      left ++ silent ++ [(u, start + front.length)] := by
    have hlength : (left ++ silent).length = front.length := by rw [hfront, List.length_zipIdx]
    rw [slice, hsplit, List.append_cons]
    refine List.take_left' ?_
    rw [List.length_append, hlength, List.length_singleton]
    omega
  have hnone : silent.filter (·.1.isSignificant) = [] := List.filter_eq_nil_iff.2 hsilent
  rw [hslice, List.filter_append, List.filter_append, hleft, hnone, List.append_nil,
    List.filter_cons_of_pos (p := fun p : Placed => p.1.isSignificant) hu]
  rfl

theorem placed_cons {start k : Nat} {u : Token} {rest : List Placed}
    (h : placed ts start = (u, k) :: rest) : ts[k]? = some u ∧ placed ts (k + 1) = rest := by
  obtain ⟨hget, hrest, _⟩ := placed_split (h.trans (List.nil_append _).symm)
  exact ⟨hget, hrest⟩

theorem isSignificant_of_mem_placed {start : Nat} {p : Placed} (h : p ∈ placed ts start) :
    p.1.isSignificant = true := (List.mem_filter.1 h).2

/-- The tokens from one of them on. -/
theorem placed_of_split {start k : Nat} {u : Token} {us rest : List Placed}
    (h : placed ts start = us ++ (u, k) :: rest) : placed ts k = (u, k) :: rest := by
  obtain ⟨hget, hrest, _⟩ := placed_split h
  have hu : (u, k).1.isSignificant = true := isSignificant_of_mem_placed (by rw [h]; simp)
  obtain ⟨hlt, rfl⟩ := List.getElem?_eq_some_iff.1 hget
  rw [← hrest, placed, List.drop_eq_getElem_cons hlt, List.zipIdx_cons,
    List.filter_cons_of_pos (p := fun p : Placed => p.1.isSignificant) hu]
  rfl

/-! ## Scans over significant tokens -/

/-- The search for the end of a statement, over tokens with their indexes. -/
def endOf (start : Nat) : Nat → List Placed → Option Nat
  | _, [] => none
  | depth, (t, j) :: r =>
    if t.kind.opens then endOf start (depth + 1) r
    else if t.kind.closes then
      if depth = 0 then some (max (j - 1) start)
      else if depth = 1 ∧ t.kind = .closeBrace then some j
      else endOf start (depth - 1) r
    else if t.kind = .semicolon ∧ depth = 0 then some j
    else endOf start depth r

theorem statementEndFrom_eq_endOf (start depth j : Nat) (us : List Token) :
    statementEndFrom start depth j us = endOf start depth (us.zipIdx j) := by
  induction us generalizing depth j with
  | nil => rfl
  | cons t us ih =>
      rw [statementEndFrom, List.zipIdx_cons, endOf]
      simp only [ih]

/-- A scan that passes over tokens without significance sees only the others. -/
theorem scan_filter {σ β : Type} {F : σ → List Placed → β}
    (skip : ∀ s p r, p.1.isSignificant = false → F s (p :: r) = F s r)
    (step : ∀ s p r r', p.1.isSignificant = true → (∀ s', F s' r = F s' r') →
      F s (p :: r) = F s (p :: r')) (s : σ) (l : List Placed) :
    F s (l.filter (·.1.isSignificant)) = F s l := by
  induction l generalizing s with
  | nil => rfl
  | cons p l ih =>
      cases hp : p.1.isSignificant with
      | true =>
          rw [List.filter_cons_of_pos (p := fun p : Placed => p.1.isSignificant) hp]
          exact step s p _ _ hp ih
      | false =>
          rw [List.filter_cons_of_neg (p := fun p : Placed => p.1.isSignificant)
            (Bool.eq_false_iff.1 hp), ih, skip s p l hp]

theorem endOf_filter (start depth : Nat) (l : List Placed) :
    endOf start depth (l.filter (·.1.isSignificant)) = endOf start depth l := by
  refine scan_filter (F := endOf start) ?_ ?_ depth l
  · intro s p r hp
    obtain ⟨hopens, hcloses⟩ := Token.opens_eq_false_of_not_isSignificant hp
    have hsemi : p.1.kind ≠ .semicolon := Token.kind_ne_of_not_isSignificant hp rfl
    simp [endOf, hopens, hcloses, hsemi]
  · intro s p r r' _ hr
    rw [endOf, endOf]
    simp only [hr]

theorem constantNames_filter (depth : Nat) (item : ConstantItem) (l : List Placed) :
    constantNames depth item (l.filter (·.1.isSignificant)) = constantNames depth item l := by
  refine scan_filter (F := fun s : Nat × ConstantItem => constantNames s.1 s.2) ?_ ?_
    (depth, item) l
  · intro s p r hp
    obtain ⟨hopens, hcloses⟩ := Token.opens_eq_false_of_not_isSignificant hp
    have hcomma : p.1.kind ≠ .comma := Token.kind_ne_of_not_isSignificant hp rfl
    have hname : p.1.kind ≠ .name := Token.kind_ne_of_not_isSignificant hp rfl
    have hkeyword : p.1.kind ≠ .keyword := Token.kind_ne_of_not_isSignificant hp rfl
    have hequals : p.1.isPunct "=" = false := by
      have hpunct : p.1.kind ≠ .punct := Token.kind_ne_of_not_isSignificant hp rfl
      simp [Token.isPunct, hpunct]
    show constantNames s.1 s.2 (p :: r) = constantNames s.1 s.2 r
    rw [constantNames.eq_def]
    simp only [hopens, hcloses, hcomma, hname, hkeyword, hequals]
    cases s.2 <;> simp
  · intro s p r r' _ hr
    show constantNames s.1 s.2 (p :: r) = constantNames s.1 s.2 (p :: r')
    have hr : ∀ d i, constantNames d i r = constantNames d i r' := fun d i => hr (d, i)
    rw [constantNames.eq_def, constantNames.eq_def s.1 s.2 (p :: r')]
    simp only [hr]

theorem propertyNames_filter (depth : Nat) (wanted : Bool) (l : List Placed) :
    propertyNames depth wanted (l.filter (·.1.isSignificant)) = propertyNames depth wanted l := by
  refine scan_filter (F := fun s : Nat × Bool => propertyNames s.1 s.2) ?_ ?_ (depth, wanted) l
  · intro s p r hp
    obtain ⟨hopens, hcloses⟩ := Token.opens_eq_false_of_not_isSignificant hp
    have hcomma : p.1.kind ≠ .comma := Token.kind_ne_of_not_isSignificant hp rfl
    have hname : p.1.kind ≠ .dollarName := Token.kind_ne_of_not_isSignificant hp rfl
    show propertyNames s.1 s.2 (p :: r) = propertyNames s.1 s.2 r
    rw [propertyNames]
    simp [hopens, hcloses, hcomma, hname]
  · intro s p r r' _ hr
    show propertyNames s.1 s.2 (p :: r) = propertyNames s.1 s.2 (p :: r')
    have hr : ∀ d w, propertyNames d w r = propertyNames d w r' := fun d w => hr (d, w)
    rw [propertyNames, propertyNames]
    simp only [hr]

theorem firstVariable?_filter (l : List Placed) :
    firstVariable? (l.filter (·.1.isSignificant)) = firstVariable? l := by
  refine scan_filter (F := fun _ : Unit => firstVariable?) ?_ ?_ () l
  · intro _ p r hp
    rw [firstVariable?, hp]
    rfl
  · intro _ p r r' _ hr
    rw [firstVariable?, firstVariable?]
    simp only [hr ()]

/-! ## Where a statement ends -/

/-- The token ends no statement when it stands outside of groups. -/
def StaysOpen (t : Token) : Prop := t.kind ≠ .semicolon ∧ t.kind ≠ .openBrace

/-- The search for the end of a statement passes over balanced tokens. -/
theorem endOf_append {us : List Placed} (h : Balanced (us.map (·.1)))
    (hout : ∀ t ∈ outside (us.map (·.1)), StaysOpen t) (start : Nat) (r : List Placed) :
    endOf start 0 (us ++ r) = endOf start 0 r := by
  have plain : ∀ d (p : Placed) r, p.1.kind.isBracket = false → 0 < d ∨ StaysOpen p.1 →
      endOf start d (p :: r) = endOf start d r := by
    intro d p r hplain hok
    rw [Kind.isBracket, Bool.or_eq_false_iff] at hplain
    have hsemi : ¬(p.1.kind = .semicolon ∧ d = 0) := by
      rintro ⟨hkind, rfl⟩
      exact hok.elim (Nat.lt_irrefl 0) fun hopen => hopen.1 hkind
    rw [endOf, if_neg (by simp [hplain.1]), if_neg (by simp [hplain.2]), if_neg hsemi]
  have opens : ∀ d (p : Placed) r, p.1.kind.opens = true → 0 < d ∨ StaysOpen p.1 →
      endOf start d (p :: r) = endOf start (d + 1) r := by
    intro d p r hopens _
    rw [endOf, if_pos hopens]
  have closes : ∀ d (p : Placed) r (o : Token), o.kind.opens = true →
      p.1.kind = (pairOf o.kind).2 → 0 < d ∨ StaysOpen o →
        endOf start (d + 1) (p :: r) = endOf start d r := by
    intro d p r o hopens hcloses hok
    obtain ⟨hc, ho⟩ := closes_pairOf o.kind
    -- a brace ends the statement only if no other group is open
    have hbrace : ¬(d + 1 = 1 ∧ p.1.kind = .closeBrace) := by
      rintro ⟨hd, hkind⟩
      refine hok.elim (by omega) fun hopen => hopen.2 ?_
      rw [hcloses] at hkind
      revert hopens hkind
      cases o.kind <;> decide
    rw [endOf, hcloses, if_neg (by simp [ho]), if_pos hc, if_neg (by omega), ← hcloses,
      if_neg hbrace, Nat.add_sub_cancel]
  exact scan_append plain opens closes h (fun _ => hout) r

/-- **A statement ends with its semicolon.** -/
theorem statementEnd_of_placed {start last : Nat} {semicolon : Token} {body rest : List Placed}
    (h : placed ts start = body ++ (semicolon, last) :: rest)
    (balanced : Balanced (body.map (·.1))) (inside : ∀ t ∈ outside (body.map (·.1)), StaysOpen t)
    (ends : semicolon.kind = .semicolon) : statementEnd ts start = last := by
  have hend : endOf start 0 (placed ts start) = some last := by
    rw [h, endOf_append balanced inside, endOf]
    simp [ends, Kind.opens, Kind.closes]
  rw [statementEnd, statementEndFrom_eq_endOf, ← endOf_filter]
  exact congrArg (·.getD (lastIndex ts)) hend

/-! ## Items -/

theorem isBracket_of_comma {t : Token} (h : t.kind = .comma) : t.kind.isBracket = false := by
  rw [h]
  rfl

/-- What holds outside of the groups of all items holds outside of those of a list. -/
theorem listing_spec {α : Type} {written : α → List Placed}
    (each : ∀ a, Balanced ((written a).map (·.1)) ∧
      ∀ t ∈ outside ((written a).map (·.1)), StaysOpen t)
    {as : List α} {us : List Placed} (h : Listing written (·.1.kind = .comma) as us) :
    Balanced (us.map (·.1)) ∧ ∀ t ∈ outside (us.map (·.1)), StaysOpen t := by
  induction h with
  | single a => exact each a
  | @cons as us a comma between more ih =>
      have hplain := isBracket_of_comma between
      rw [List.map_append, List.map_cons, outside_append (each a).1, outside_token hplain]
      refine ⟨(each a).1.append (.token hplain ih.1), List.forall_mem_append.2 ⟨(each a).2, ?_⟩⟩
      refine List.forall_mem_cons.2 ⟨?_, ih.2⟩
      rw [StaysOpen, between]
      decide

end Outline

namespace Assignment

variable (a : Assignment)

theorem isBracket_equals : a.equals.1.kind.isBracket = false := by
  have h := a.isEquals
  rw [Token.isPunct, Bool.and_eq_true, beq_iff_eq] at h
  rw [h.1]
  rfl

theorem tokens_spec : Balanced (a.tokens.map (·.1)) ∧
    ∀ t ∈ outside (a.tokens.map (·.1)), t.kind ≠ .comma ∧ StaysOpen t := by
  rw [tokens, List.map_cons, outside_token a.isBracket_equals]
  refine ⟨.token a.isBracket_equals a.balanced, List.forall_mem_cons.2 ⟨?_, fun t ht => ?_⟩⟩
  · have h := a.isEquals
    rw [Token.isPunct, Bool.and_eq_true, beq_iff_eq] at h
    rw [StaysOpen, h.1]
    decide
  · obtain ⟨hcomma, hsemi, hbrace⟩ := a.inside t ht
    exact ⟨hcomma, hsemi, hbrace⟩

end Assignment

theorem WrittenConstant.tokens_spec (c : WrittenConstant) : Balanced (c.tokens.map (·.1)) ∧
    ∀ t ∈ outside (c.tokens.map (·.1)), StaysOpen t := by
  have htype : Balanced (c.type.map (·.1)) := balanced_of_plain fun t ht => by
    obtain ⟨p, hp, rfl⟩ := List.mem_map.1 ht
    exact (c.plain p hp).1
  have hname : c.name.1.kind.isBracket = false := by
    rcases c.isName with h | h <;> rw [h] <;> rfl
  rw [tokens, List.map_append, List.map_cons, outside_append htype, outside_token hname]
  refine ⟨htype.append (.token hname c.assigned.tokens_spec.1), List.forall_mem_append.2 ⟨?_, ?_⟩⟩
  · intro t ht
    obtain ⟨p, hp, rfl⟩ := List.mem_map.1 (mem_of_mem_outsideFrom ht)
    obtain ⟨hplain, _, _, hsemi⟩ := c.plain p hp
    refine ⟨hsemi, fun hbrace => ?_⟩
    rw [hbrace] at hplain
    cases hplain
  · refine List.forall_mem_cons.2 ⟨?_, fun t ht => (c.assigned.tokens_spec.2 t ht).2⟩
    rcases c.isName with h | h <;> rw [StaysOpen, h] <;> decide

namespace WrittenProperty

variable (p : WrittenProperty)

theorem tail_spec : Balanced (p.tail.map (·.1)) ∧
    ∀ t ∈ outside (p.tail.map (·.1)), t.kind ≠ .comma ∧ StaysOpen t := by
  unfold tail
  cases p.assigned with
  | none => exact ⟨.nil, fun t ht => absurd ht List.not_mem_nil⟩
  | some a => exact a.tokens_spec

theorem tokens_spec : Balanced (p.tokens.map (·.1)) ∧
    ∀ t ∈ outside (p.tokens.map (·.1)), StaysOpen t := by
  have hname : p.name.1.kind.isBracket = false := by
    rw [p.isVariable]
    rfl
  rw [tokens, List.map_cons, outside_token hname]
  obtain ⟨hbalanced, hinside⟩ := p.tail_spec
  refine ⟨.token hname hbalanced, List.forall_mem_cons.2 ⟨?_, fun t ht => (hinside t ht).2⟩⟩
  rw [StaysOpen, p.isVariable]
  decide

end WrittenProperty

namespace Outline

variable {ts : List Token}

/-! ## Names -/

/-- A token outside of groups, in front of the equals sign. -/
theorem constantNames_naming {p : Placed} (plain : p.1.kind.isBracket = false)
    (comma : p.1.kind ≠ .comma) (candidate : Option Placed) (r : List Placed) :
    constantNames 0 (.naming candidate) (p :: r) =
      if p.1.isPunct "=" then candidate.toList ++ constantNames 0 .value r
      else if p.1.kind = .name ∨ p.1.kind = .keyword then constantNames 0 (.naming (some p)) r
      else constantNames 0 (.naming candidate) r := by
  rw [Kind.isBracket] at plain
  rw [constantNames, if_neg (Bool.eq_false_iff.1 plain), if_neg (Nat.lt_irrefl 0), if_neg comma]

theorem not_isPunct_of_isName {t : Token} (h : t.kind = .name ∨ t.kind = .keyword) (s : Text) :
    t.isPunct s = false ∧ t.kind.isBracket = false ∧ t.kind ≠ .comma := by
  rcases h with h | h <;> rw [Token.isPunct, h] <;> exact ⟨rfl, rfl, by decide⟩

/-- The name of a constant is the last one in front of the equals sign. -/
theorem constantNames_type {us : List Placed} {name : Placed} (a : Assignment)
    (plain : ∀ p ∈ us, p.1.kind.isBracket = false ∧ p.1.isPunct "=" = false ∧ p.1.kind ≠ .comma)
    (isName : name.1.kind = .name ∨ name.1.kind = .keyword) (candidate : Option Placed)
    (r : List Placed) :
    constantNames 0 (.naming candidate) (us ++ name :: a.equals :: r) =
      name :: constantNames 0 .value r := by
  induction us generalizing candidate with
  | nil =>
      obtain ⟨hpunct, hplain, hcomma⟩ := not_isPunct_of_isName isName "="
      have hequals : a.equals.1.kind ≠ .comma := fun hk => by
        have := a.isEquals
        rw [Token.isPunct, hk] at this
        cases this
      rw [List.nil_append, constantNames_naming hplain hcomma, hpunct, if_neg (by decide),
        if_pos isName, constantNames_naming a.isBracket_equals hequals, if_pos a.isEquals]
      rfl
  | cons p us ih =>
      obtain ⟨⟨hplain, hequals, hcomma⟩, hus⟩ := List.forall_mem_cons.1 plain
      rw [List.cons_append, constantNames_naming hplain hcomma, hequals, if_neg (by decide)]
      split
      · exact ih hus _
      · exact ih hus _

/-- A scan that does no more than count groups, commas outside of them apart, passes over a
value. -/
theorem value_append {β : Type} {F : Nat → List Placed → β}
    (step : ∀ d (p : Placed) r, (d = 0 → p.1.kind ≠ .comma) →
      F d (p :: r) = F (depthAfter d p.1.kind) r)
    {us : List Placed} (h : Balanced (us.map (·.1)))
    (hout : ∀ t ∈ outside (us.map (·.1)), t.kind ≠ .comma) (r : List Placed) :
    F 0 (us ++ r) = F 0 r := by
  have hstep : ∀ {d : Nat} {t : Token}, 0 < d ∨ t.kind ≠ .comma → d = 0 → t.kind ≠ .comma :=
    fun hok hd => hok.resolve_left (by omega)
  refine @scan_append β (fun t => t.kind ≠ .comma) F ?_ ?_ ?_ us h 0 (fun _ => hout) r
  · intro d p r hplain hok
    rw [step d p r (hstep hok), depthAfter_plain hplain]
  · intro d p r hopens hok
    rw [step d p r (hstep hok), depthAfter_opens hopens]
  · intro d p r o _ hcloses _
    rw [step (d + 1) p r (fun hd => absurd hd (Nat.succ_ne_zero d)), hcloses, depthAfter_pairOf]

/-- No name of a constant is due in a value. -/
theorem constantNames_value (d : Nat) (p : Placed) (r : List Placed)
    (h : d = 0 → p.1.kind ≠ .comma) :
    constantNames d .value (p :: r) = constantNames (depthAfter d p.1.kind) .value r := by
  rw [constantNames]
  split
  · rfl
  rename_i hplain
  rw [depthAfter_plain (Bool.eq_false_iff.2 hplain)]
  split
  · rfl
  · rename_i hd
    rw [if_neg (h (by omega))]

/-- No name of a property is due in a value. -/
theorem propertyNames_value (d : Nat) (p : Placed) (r : List Placed)
    (h : d = 0 → p.1.kind ≠ .comma) :
    propertyNames d false (p :: r) = propertyNames (depthAfter d p.1.kind) false r := by
  rw [propertyNames]
  split
  · rfl
  rename_i hplain
  rw [depthAfter_plain (Bool.eq_false_iff.2 hplain)]
  split
  · rfl
  · rename_i hd
    rw [if_neg (h (by omega)), Bool.false_and, if_neg (by decide)]

/-- A comma outside of groups ends an item. -/
theorem names_comma {comma : Placed} (h : comma.1.kind = .comma) (r : List Placed) :
    constantNames 0 .value (comma :: r) = constantNames 0 (.naming none) r ∧
      propertyNames 0 false (comma :: r) = propertyNames 0 true r := by
  rw [constantNames, propertyNames]
  simp [h, Kind.opens, Kind.closes]

/-- A semicolon is no name. -/
theorem names_semicolon {semicolon : Placed} (h : semicolon.1.kind = .semicolon) :
    constantNames 0 .value [semicolon] = [] ∧ propertyNames 0 false [semicolon] = [] := by
  rw [constantNames, propertyNames]
  simp [h, Kind.opens, Kind.closes, constantNames, propertyNames]

/-- **The names of a constant statement are those of its items.** -/
theorem constantNames_listing {items : List WrittenConstant} {us : List Placed}
    (h : Listing WrittenConstant.tokens (·.1.kind = .comma) items us) {semicolon : Placed}
    (ends : semicolon.1.kind = .semicolon) :
    constantNames 0 (.naming none) (us ++ [semicolon]) = items.map (·.name) := by
  have item : ∀ (c : WrittenConstant) (r : List Placed),
      constantNames 0 (.naming none) (c.tokens ++ r) = c.name :: constantNames 0 .value r := by
    intro c r
    have hvalue : constantNames 0 .value (c.assigned.value ++ r) = constantNames 0 .value r :=
      value_append constantNames_value c.assigned.balanced
        (fun t ht => (c.assigned.inside t ht).1) r
    rw [WrittenConstant.tokens, Assignment.tokens, List.append_assoc, List.cons_append,
      List.cons_append, constantNames_type c.assigned _ c.isName, hvalue]
    intro p hp
    obtain ⟨hplain, hequals, hcomma, _⟩ := c.plain p hp
    exact ⟨hplain, hequals, hcomma⟩
  induction h with
  | single c => rw [item, (names_semicolon ends).1, List.map_singleton]
  | cons c between more ih =>
      rw [List.append_assoc, List.cons_append, item, (names_comma between _).1, ih, List.map_cons]

/-- **The names of a property statement are those of its items.** -/
theorem propertyNames_listing {items : List WrittenProperty} {us : List Placed}
    (h : Listing WrittenProperty.tokens (·.1.kind = .comma) items us) {semicolon : Placed}
    (ends : semicolon.1.kind = .semicolon) :
    propertyNames 0 true (us ++ [semicolon]) = items.map (·.name) := by
  have item : ∀ (p : WrittenProperty) (r : List Placed),
      propertyNames 0 true (p.tokens ++ r) = p.name :: propertyNames 0 false r := by
    intro p r
    have hvalue : propertyNames 0 false (p.tail ++ r) = propertyNames 0 false r :=
      value_append propertyNames_value p.tail_spec.1 (fun t ht => (p.tail_spec.2 t ht).1) r
    rw [WrittenProperty.tokens, List.cons_append, propertyNames]
    simp [p.isVariable, Kind.opens, Kind.closes, hvalue]
  induction h with
  | single p => rw [item, (names_semicolon ends).2, List.map_singleton]
  | cons p between more ih =>
      rw [List.append_assoc, List.cons_append, item, (names_comma between _).2, ih, List.map_cons]

/-- The head of a property statement ends with its first variable. -/
theorem firstVariable?_append {us : List Placed} {name : Placed}
    (isVariable : name.1.kind = .dollarName)
    (h : ∀ p ∈ us, p.1.isSignificant = true ∧ p.1.kind ≠ .dollarName ∧ endsPropertyHead p.1 = false)
    (r : List Placed) : firstVariable? (us ++ name :: r) = some name.2 := by
  induction us with
  | nil =>
      have hs : name.1.isSignificant = true := Token.isSignificant_of_kind isVariable rfl
      rw [List.nil_append, firstVariable?, if_neg (by simp [hs]), if_pos isVariable]
  | cons p us ih =>
      obtain ⟨⟨hs, hvariable, hhead⟩, hus⟩ := List.forall_mem_cons.1 h
      rw [List.cons_append, firstVariable?, if_neg (by simp [hs]), if_neg hvariable, hhead,
        if_neg (by decide), ih hus]

theorem not_endsPropertyHead_of_isModifier {t : Token} (h : t.isModifier = true) :
    t.kind ≠ .dollarName ∧ endsPropertyHead t = false := by
  have hkind := Token.kind_of_isModifier h
  have hfunction : t.isKeyword "function" = false := Bool.eq_false_iff.2 fun hword => by
    have := Token.mem_modifierWords_of_isKeyword h hword
    revert this
    decide
  refine ⟨by rw [hkind]; decide, ?_⟩
  rw [endsPropertyHead, hfunction, Token.isKeyword_const_of_isModifier h, Token.isPunct, hkind]
  rfl

theorem not_endsPropertyHead_of_type {t : Token} (h : isInPropertyType t = true) :
    t.kind ≠ .dollarName ∧ endsPropertyHead t = false := by
  rw [isInPropertyType, Bool.and_eq_true, decide_eq_true_eq, Bool.not_eq_true'] at h
  obtain ⟨hkind, hwords⟩ := h
  simp only [List.mem_cons, List.not_mem_nil, or_false, not_or] at hkind
  rw [Bool.or_eq_false_iff, Bool.or_eq_false_iff] at hwords
  refine ⟨hkind.2.2.2.2.2, ?_⟩
  rw [endsPropertyHead, hwords.1.1, hwords.1.2, hwords.2]
  revert hkind
  cases t.kind <;> decide

/-! ## What is found at a token -/

namespace Pass

/-- The pass looks for a declaration at the index: none that was found before reaches over it. -/
def LooksAt (ts : List Token) (i : Nat) : Prop := (upTo ts i).resumeAt ≤ i

instance (ts : List Token) (i : Nat) : Decidable (LooksAt ts i) :=
  inferInstanceAs (Decidable (_ ≤ _))

/-- What is found at a token is what the word there calls for. -/
theorem foundAt_of_keyword {i : Nat} {t : Token} (ht : ts[i]? = some t) (hk : t.kind = .keyword)
    (looks : LooksAt ts i) : foundAt ts i = recognize (siteAt ts i) i t := by
  have hrole : t.role = .code := by
    rw [Token.role, hk]
  rw [foundAt, ht]
  exact if_pos ⟨hrole, looks⟩

end Pass

/-- The declarations introduced from `first` to `last` are `ds`: they stand together, behind those
of the tokens before and in front of those of the tokens after. -/
def Declares (ts : List Token) (first last : Nat) (ds : List Declaration) : Prop :=
  ∃ before after, (ofTokens ts).declarations = before ++ ds ++ after ∧
    (∀ d ∈ before, d.declaringToken ts < first) ∧ ∀ d ∈ after, last < d.declaringToken ts

/-- What is found at a token stands together, and nothing is found up to where the search goes
on. -/
theorem Pass.declares_foundAt {i last : Nat} {t : Token} (ht : ts[i]? = some t)
    (resume : (foundAt ts i).resumeAt = some (last + 1)) :
    Declares ts i last (foundAt ts i).declarations := by
  have hi := (List.getElem?_eq_some_iff.1 ht).1
  obtain ⟨n, hn⟩ := Nat.exists_eq_add_of_lt hi
  have hrange : List.range ts.length =
      List.range i ++ i :: (List.range n).map (i + 1 + ·) := by
    rw [hn, Nat.add_right_comm, List.range_add, List.range_succ, List.append_assoc]
    rfl
  have found : ∀ {is : List Nat} {d}, d ∈ is.flatMap (fun j => (foundAt ts j).declarations) →
      ∃ j ∈ is, ∃ u, ts[j]? = some u ∧ d ∈ (foundAt ts j).declarations ∧
        d.declaringToken ts = j := by
    intro is d hd
    obtain ⟨j, hj, hd⟩ := List.mem_flatMap.1 hd
    cases hu : ts[j]? with
    | none =>
        rw [foundAt, hu] at hd
        cases hd
    | some u => exact ⟨j, hj, u, hu, hd, ((recognized_foundAt hu).introduces hu hd).1⟩
  refine ⟨(List.range i).flatMap fun j => (foundAt ts j).declarations,
    ((List.range n).map (i + 1 + ·)).flatMap fun j => (foundAt ts j).declarations, ?_, ?_, ?_⟩
  · show (run ts).outline.declarations = _
    rw [declarations_run, hrange, List.flatMap_append, List.flatMap_cons, List.append_assoc]
  · intro d hd
    obtain ⟨j, hj, _, _, _, hat⟩ := found hd
    rw [hat]
    exact List.mem_range.1 hj
  · intro d hd
    obtain ⟨j, hj, u, hu, hd, hat⟩ := found hd
    obtain ⟨m, _, rfl⟩ := List.mem_map.1 hj
    rw [hat]
    exact resumeAt_le_of_mem (by omega) ht hu resume hd

/-- A keyword is one word only. -/
theorem not_isKeyword_of_isKeyword {t : Token} {word other : Text} (h : t.isKeyword word = true)
    (hne : Text.lower word ≠ Text.lower other) : t.isKeyword other = false := by
  simp only [Token.isKeyword, Text.sameLetters, Bool.and_eq_true, beq_iff_eq] at h
  simp only [Token.isKeyword, Text.sameLetters, h.2, Bool.and_eq_false_iff]
  exact Or.inr (beq_eq_false_iff_ne.2 hne)

theorem not_isClassWord_of_isKeyword {t : Token} {word : Text} (h : t.isKeyword word = true)
    (hne : ∀ w ∈ Token.classWords, Text.lower word ≠ Text.lower w) : t.isClassWord = false :=
  List.any_eq_false.2 fun w hw =>
    Bool.eq_false_iff.1 (not_isKeyword_of_isKeyword h (hne w hw))

/-- What the word `const` is recognised as. -/
theorem recognize_const {s : Site} {i : Nat} {t : Token} (h : t.isKeyword "const" = true) :
    recognize s i t = (constantsAt s i).getD {} := by
  have hclass := not_isClassWord_of_isKeyword h (by decide)
  have hfunction : t.isKeyword "function" = false := not_isKeyword_of_isKeyword h (by decide)
  simp only [recognize, hclass, hfunction, h, if_true, Bool.false_eq_true, if_false]

/-- What a modifier in the body of a class is recognised as. -/
theorem recognize_modifier {s : Site} {i : Nat} {t : Token} (h : t.isModifier = true)
    (inside : s.inClass i = true) : recognize s i t = (propertiesAt s i).getD {} := by
  obtain ⟨w, hmem, hw⟩ := List.any_eq_true.1 h
  have hne : ∀ w ∈ Token.modifierWords, (∀ c ∈ Token.classWords, Text.lower w ≠ Text.lower c) ∧
      Text.lower w ≠ Text.lower "function" := by decide
  have hclass := not_isClassWord_of_isKeyword hw (hne w hmem).1
  have hfunction := not_isKeyword_of_isKeyword hw (hne w hmem).2
  have hconst := Token.isKeyword_const_of_isModifier h
  simp only [recognize, hclass, hfunction, hconst, h, inside, Bool.and_self, if_true,
    Bool.false_eq_true, if_false]

/-- What a constant statement is recognised as. -/
theorem ConstantStatement.recognize_eq {i last : Nat} {items : List WrittenConstant}
    (h : ConstantStatement ts i last items) {s : Site} (hs : s.tokens = ts)
    (free : (prevSignificant? ts i).any (·.isKeyword "use") = false) :
    ∃ t, ts[i]? = some t ∧ t.kind = .keyword ∧ recognize s i t = {
      declarations := items.map fun c => .constant {
        name := c.name.1.text, owner := s.owner? i, form := .const,
        span := ⟨statementStart ts i, last⟩, nameToken := c.name.2, doc := s.doc }
      resumeAt := some (last + 1) } := by
  subst hs
  obtain ⟨word, semicolon, body, rest, tokens, isWord, ends, list⟩ := h
  obtain ⟨hword, hbody⟩ := placed_cons tokens
  obtain ⟨_, _, hslice⟩ := placed_split hbody
  obtain ⟨hbalanced, hinside⟩ := listing_spec WrittenConstant.tokens_spec list
  have hend := statementEnd_of_placed hbody hbalanced hinside ends
  have hnames : constantNames 0 (.naming none) (slice s.tokens (i + 1) last) =
      items.map (·.name) := by
    rw [← constantNames_filter, hslice, constantNames_listing list ends]
  refine ⟨word, hword, Token.kind_of_isKeyword isWord, ?_⟩
  rw [recognize_const isWord, constantsAt]
  simp only [free, Bool.false_eq_true, if_false, hend, hnames, List.map_map, Option.getD_some]
  rfl

namespace PropertyStatement

variable {i last : Nat} {items : List WrittenProperty}

theorem lt_length (h : PropertyStatement ts i last items) : i < ts.length := by
  obtain ⟨_, _, _, _, _, _, tokens⟩ := h
  exact (List.getElem?_eq_some_iff.1 (placed_cons tokens).1).1

/-- The names of the items are tokens of the file. -/
theorem mem_tokens (h : PropertyStatement ts i last items) {p : WrittenProperty} (hp : p ∈ items) :
    p.name.1 ∈ ts := by
  obtain ⟨_, _, _, _, _, _, tokens, _, _, _, _, list⟩ := h
  have hname : p.name ∈ p.tokens := List.mem_cons_self
  have hmem : p.name ∈ placed ts i := by
    rw [tokens]
    simp [list.mem hp hname]
  have hzip := (List.mem_filter.1 hmem).1
  exact List.mem_of_mem_drop (List.fst_mem_of_mem_zipIdx hzip)

/-- What a property statement in the body of a class is recognised as. -/
theorem recognize_eq (h : PropertyStatement ts i last items) {s : Site} (hs : s.tokens = ts)
    {owner : Text} (inside : s.owner? i = some owner) :
    ∃ t, ts[i]? = some t ∧ t.kind = .keyword ∧ recognize s i t = {
      declarations := items.map fun p => .property {
        name := Text.trimStartOf (· == '$') p.name.1.text, owner := owner,
        span := ⟨i, last⟩, nameToken := p.name.2, doc := s.doc }
      resumeAt := some (last + 1) } := by
  subst hs
  obtain ⟨word, semicolon, modifiers, type, body, rest, tokens, isWord, areModifiers, isType,
    ends, list⟩ := h
  obtain ⟨hword, hhead⟩ := placed_cons tokens
  obtain ⟨first, more, hfirst⟩ : ∃ (p : WrittenProperty) (r : List Placed), body = p.name :: r := by
    cases list with
    | single p => exact ⟨p, p.tail, rfl⟩
    | cons p => exact ⟨p, _, rfl⟩
  have hvariable : firstVariable? ((s.tokens.drop (i + 1)).zipIdx (i + 1)) = some first.name.2 := by
    rw [← firstVariable?_filter]
    show firstVariable? (placed s.tokens (i + 1)) = _
    have hplaced := hhead
    rw [hfirst] at hplaced
    rw [hplaced, List.cons_append, firstVariable?_append first.isVariable]
    intro p hp
    refine ⟨isSignificant_of_mem_placed (by rw [hplaced]; exact List.mem_append_left _ hp), ?_⟩
    rcases List.mem_append.1 hp with hp | hp
    · exact not_endsPropertyHead_of_isModifier (areModifiers p hp)
    · exact not_endsPropertyHead_of_type (isType p hp)
  -- the statement as its end and its names see it starts with the first variable
  have hbody : placed s.tokens first.name.2 = body ++ (semicolon, last) :: rest := by
    rw [hfirst] at hhead ⊢
    exact placed_of_split hhead
  obtain ⟨_, _, hslice⟩ := placed_split hbody
  obtain ⟨hbalanced, hinside⟩ := listing_spec WrittenProperty.tokens_spec list
  have hend := statementEnd_of_placed hbody hbalanced hinside ends
  have hnames : propertyNames 0 true (slice s.tokens first.name.2 last) = items.map (·.name) := by
    rw [← propertyNames_filter, hslice, propertyNames_listing list ends]
  refine ⟨word, hword, Token.kind_of_isModifier isWord, ?_⟩
  rw [recognize_modifier isWord (by rw [Site.inClass, inside]; rfl), propertiesAt, hvariable]
  simp only [Option.bind_eq_bind, Option.bind_some, hend, hnames, List.map_map, inside,
    Option.getD_some]
  rfl

end PropertyStatement

namespace Pass

/-- Inside the body of a class the pass knows the class. -/
theorem owner?_siteAt {i : Nat} {k : ClassDecl} {c : Scope} (hi : i ≤ ts.length)
    (h : IsInnermost (ofTokens ts) i (.classLike k) c) : (siteAt ts i).owner? i = some k.name := by
  rw [Site.owner?, scopeAt?_siteAt hi]
  cases henclosing : enclosing? ts i i with
  | none =>
      have := not_holds_of_enclosing?_eq_none henclosing _ h.mem c h.body
      rw [h.holds] at this
      cases this
  | some b =>
      obtain ⟨e, he⟩ := exists_isInnermost hi henclosing
      have hunique := he.unique h
      rcases owner_of_scope? he.body with ⟨d, rfl, hkind, hname⟩ | ⟨d, rfl, _⟩
      · cases hunique
        rw [Option.bind_some, if_pos hkind, hname]
      · cases hunique

/-- What is recognised behind a keyword is declared there. -/
theorem declares_of_recognize {i last : Nat} {t : Token} {ds : List Declaration}
    (ht : ts[i]? = some t) (hk : t.kind = .keyword) (looks : LooksAt ts i)
    (h : recognize (siteAt ts i) i t = { declarations := ds, resumeAt := some (last + 1) }) :
    Declares ts i last ds := by
  have hfound := (foundAt_of_keyword ht hk looks).trans h
  have hdeclares : Declares ts i last (foundAt ts i).declarations :=
    declares_foundAt ht (by rw [hfound])
  rwa [hfound] at hdeclares

theorem doc_siteAt {i : Nat} (hi : i ≤ ts.length) : (siteAt ts i).doc = attachedDoc? ts i :=
  waiting_upTo i hi

end Pass

/-- The name of a variable is its text without the dollar sign. -/
theorem trimStartOf_dollar {source : Text} {t : Token} (ht : t ∈ Token.tokenize source)
    (h : t.kind = .dollarName) : Text.trimStartOf (· == '$') t.text = t.text.drop 1 := by
  obtain ⟨before, after, hsplit⟩ := List.append_of_mem ht
  have hreads := Token.reads_of_kind hsplit h (by decide)
  generalize t.text = s at hreads
  cases hreads with
  | mark hmark _ => cases hmark
  | @dollarName s _ hword =>
      cases s with
      | nil => rfl
      | cons c s =>
          have hstart : Text.isWordStart c = true := hword.start
          have hc : (c == '$') = false := beq_eq_false_iff_ne.2 fun hc => by
            rw [hc] at hstart
            revert hstart
            decide +kernel
          simp [Text.trimStartOf, hc]

/-- **A statement declares its items.** Where the pass looks for a declaration, a statement of
constants that stands behind no `use`, or a statement of properties in the body of a class, declares
one constant or property for each of its items and nothing else, in order. Each of them has the name
of its item and the index of this name, and all of them have the range of the statement and the
block attached in front of it. -/
theorem statement_declares_items (path source : Text) :
    let f := SourceFile.parse path source
    ∀ i last, Pass.LooksAt f.tokens i →
      (∀ items, ConstantStatement f.tokens i last items →
        (prevSignificant? f.tokens i).any (·.isKeyword "use") = false →
          Declares f.tokens i last (items.map fun c => .constant {
            name := c.name.1.text, owner := (Pass.siteAt f.tokens i).owner? i, form := .const,
            span := ⟨statementStart f.tokens i, last⟩, nameToken := c.name.2,
            doc := attachedDoc? f.tokens i })) ∧
      ∀ items k c, PropertyStatement f.tokens i last items →
        IsInnermost f.outline i (.classLike k) c →
          Declares f.tokens i last (items.map fun p => .property {
            name := p.name.1.text.drop 1, owner := k.name, span := ⟨i, last⟩,
            nameToken := p.name.2, doc := attachedDoc? f.tokens i }) := by
  intro f i last looks
  constructor
  · intro items h free
    obtain ⟨t, ht, hk, hfound⟩ := h.recognize_eq (s := Pass.siteAt f.tokens i) rfl free
    rw [Pass.doc_siteAt (Nat.le_of_lt (List.getElem?_eq_some_iff.1 ht).1)] at hfound
    exact Pass.declares_of_recognize ht hk looks hfound
  · intro items k c h innermost
    have hi : i ≤ f.tokens.length := Nat.le_of_lt h.lt_length
    obtain ⟨t, ht, hk, hfound⟩ :=
      h.recognize_eq (s := Pass.siteAt f.tokens i) rfl (Pass.owner?_siteAt hi innermost)
    have hnames : ∀ p ∈ items, Text.trimStartOf (· == '$') p.name.1.text = p.name.1.text.drop 1 :=
      fun p hp => trimStartOf_dollar (h.mem_tokens hp) p.isVariable
    rw [Pass.doc_siteAt hi, List.map_congr_left fun p hp => by rw [hnames p hp]] at hfound
    exact Pass.declares_of_recognize ht hk looks hfound

/-- Two constants and two properties, with commas and a variable inside of values. -/
theorem statement_declares_items_class :
    let f := SourceFile.parse "a.php" ("<?php class A \x7b " ++
      "const X = [1, 2], Y = 3; private ?int $x = f(1, $y), $z; \x7d")
    Declares f.tokens 8 27 [
      .constant ⟨"X", some ("A" : Text), .const, ⟨8, 27⟩, 10, none⟩,
      .constant ⟨"Y", some ("A" : Text), .const, ⟨8, 27⟩, 22, none⟩] ∧
    Declares f.tokens 29 48 [
      .property ⟨"x", "A", ⟨29, 48⟩, 34, none⟩, .property ⟨"z", "A", ⟨29, 48⟩, 47, none⟩] := by
  intro f
  let X : WrittenConstant := {
    name := (⟨⟨.name, "X"⟩, 1, 22⟩, 10)
    assigned := {
      equals := (⟨⟨.punct, "="⟩, 1, 24⟩, 12)
      value := [(⟨⟨.openBracket, "["⟩, 1, 26⟩, 14), (⟨⟨.number, "1"⟩, 1, 27⟩, 15),
        (⟨⟨.comma, ","⟩, 1, 28⟩, 16), (⟨⟨.number, "2"⟩, 1, 30⟩, 18),
        (⟨⟨.closeBracket, "]"⟩, 1, 31⟩, 19)] } }
  let Y : WrittenConstant := {
    name := (⟨⟨.name, "Y"⟩, 1, 34⟩, 22)
    assigned := {
      equals := (⟨⟨.punct, "="⟩, 1, 36⟩, 24), value := [(⟨⟨.number, "3"⟩, 1, 38⟩, 26)] } }
  let x : WrittenProperty := {
    name := (⟨⟨.dollarName, "$x"⟩, 1, 54⟩, 34)
    assigned := some {
      equals := (⟨⟨.punct, "="⟩, 1, 57⟩, 36)
      value := [(⟨⟨.name, "f"⟩, 1, 59⟩, 38), (⟨⟨.openParen, "("⟩, 1, 60⟩, 39),
        (⟨⟨.number, "1"⟩, 1, 61⟩, 40), (⟨⟨.comma, ","⟩, 1, 62⟩, 41),
        (⟨⟨.dollarName, "$y"⟩, 1, 64⟩, 43), (⟨⟨.closeParen, ")"⟩, 1, 66⟩, 44)] } }
  let z : WrittenProperty := { name := (⟨⟨.dollarName, "$z"⟩, 1, 69⟩, 47) }
  let k : ClassDecl := ⟨"A", "class", ⟨2, 50⟩, some 6, none⟩
  let c : Scope := ⟨.classLike, "A", 6, 50⟩
  obtain ⟨looks, constants, free, owner, start, doc⟩ :
      Pass.LooksAt f.tokens 8 ∧ placed f.tokens 8 =
        (⟨⟨.keyword, "const"⟩, 1, 16⟩, 8) ::
          ((X.tokens ++ (⟨⟨.comma, ","⟩, 1, 32⟩, 20) :: Y.tokens) ++
            (⟨⟨.semicolon, ";"⟩, 1, 39⟩, 27) :: placed f.tokens 28) ∧
      (prevSignificant? f.tokens 8).any (·.isKeyword "use") = false ∧
      (Pass.siteAt f.tokens 8).owner? 8 = some ("A" : Text) ∧ statementStart f.tokens 8 = 8 ∧
      attachedDoc? f.tokens 8 = none := by decide +kernel
  obtain ⟨looks', properties, mem, last, doc'⟩ :
      Pass.LooksAt f.tokens 29 ∧ placed f.tokens 29 =
        (⟨⟨.keyword, "private"⟩, 1, 41⟩, 29) ::
          ([] ++ [(⟨⟨.punct, "?"⟩, 1, 49⟩, 31), (⟨⟨.name, "int"⟩, 1, 50⟩, 32)] ++
            ((x.tokens ++ (⟨⟨.comma, ","⟩, 1, 67⟩, 45) :: z.tokens) ++
              (⟨⟨.semicolon, ";"⟩, 1, 71⟩, 48) :: placed f.tokens 49)) ∧
      .classLike k ∈ f.outline.declarations ∧
      (∀ e ∈ f.outline.declarations, ∀ b ∈ e.scope?, b.opening ≤ 6 ∧ e.span.first ≤ 2) ∧
      attachedDoc? f.tokens 29 = none := by decide +kernel
  constructor
  · have hitems := (statement_declares_items "a.php" _ 8 27 looks).1 [X, Y]
      (.written _ _ _ _ constants (by decide) rfl (.cons X rfl (.single Y))) free
    rw [owner, start, doc] at hitems
    exact hitems
  · have innermost : IsInnermost f.outline 29 (.classLike k) c := by
      refine ⟨mem, rfl, rfl, fun e he b hb _ => ?_⟩
      obtain ⟨hopening, hfirst⟩ := last e he b hb
      rcases Nat.lt_or_eq_of_le hopening with h | h
      · exact Or.inl h
      · exact Or.inr ⟨h, hfirst⟩
    have hitems := (statement_declares_items "a.php" _ 29 48 looks').2 [x, z] k c
      (.written _ _ _ _ _ _ properties (by decide) (by simp) (by decide) rfl
        (.cons x rfl (.single z))) innermost
    rw [doc'] at hitems
    exact hitems

end Outline

end DocLint
