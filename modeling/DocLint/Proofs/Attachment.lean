import DocLint.Proofs.Pass
import DocLint.Rule.Presence

/-!
# Which block documents a declaration

The pass carries a waiting block forward from token to token. Looked at from the declaration, this
is a search back through the tokens before it.

* `attachedDoc?`: the search back from an index; `attachedDoc?_eq_some_iff` says which block it
  finds.
* `waiting_upTo`: the block that waits before the token at an index is the one that the search back
  from there finds.
* `doc_eq_attachedDoc`: every declaration has the block of that search, and the rules on missing
  documentation report exactly the declarations for which it fails.
-/

namespace DocLint

/-- Stands between a block and what it documents: a blank, an open tag, an attribute group or a
modifier. -/
def Token.isTransparent (t : Token) : Bool :=
  match t.kind with
  | .blank | .openTag | .attributeGroup => true
  | _ => t.isModifier

namespace Outline

variable {ts : List Token}

/-- The search back from index `k` for the documentation block next to it. -/
def attachedDoc? (ts : List Token) : Nat → Option DocBlock
  | 0 => none
  | k + 1 =>
    match ts[k]? with
    | none => attachedDoc? ts k
    | some t =>
      if t.kind = .docComment then some (DocBlock.ofToken t k)
      else if t.isTransparent then attachedDoc? ts k
      else none

/-- Every token strictly between the indexes `p` and `k` is transparent. -/
def Clear (ts : List Token) (p k : Nat) : Prop :=
  ∀ j u, p < j → j < k → ts[j]? = some u → u.isTransparent = true

theorem Clear.succ {p k : Nat} (h : Clear ts p k)
    (hk : ∀ u, ts[k]? = some u → u.isTransparent = true) : Clear ts p (k + 1) := by
  intro j u hj hlt hu
  rcases Nat.lt_succ_iff_lt_or_eq.1 hlt with hlt | rfl
  · exact h j u hj hlt hu
  · exact hk u hu

theorem kind_ne_docComment_of_isTransparent {t : Token} (h : t.isTransparent = true) :
    t.kind ≠ .docComment := by
  intro hkind
  simp [Token.isTransparent, Token.isModifier, Token.isKeyword, hkind] at h

theorem exists_of_attachedDoc? {k : Nat} {d : DocBlock} (h : attachedDoc? ts k = some d) :
    ∃ p t, p < k ∧ ts[p]? = some t ∧ t.kind = .docComment ∧ Clear ts p k ∧
      d = DocBlock.ofToken t p := by
  induction k with
  | zero => cases h
  | succ k ih =>
      have further : attachedDoc? ts k = some d →
          (∀ u, ts[k]? = some u → u.isTransparent = true) →
          ∃ p t, p < k + 1 ∧ ts[p]? = some t ∧ t.kind = .docComment ∧ Clear ts p (k + 1) ∧
            d = DocBlock.ofToken t p := by
        intro hd hk
        obtain ⟨p, t, hp, ht, hdoc, hclear, heq⟩ := ih hd
        exact ⟨p, t, by omega, ht, hdoc, hclear.succ hk, heq⟩
      rw [attachedDoc?] at h
      split at h
      · rename_i hk
        exact further h fun u hu => by rw [hk] at hu; cases hu
      · rename_i t hk
        split at h
        · rename_i hdoc
          cases h
          exact ⟨k, t, by omega, hk, hdoc, fun j u hj hlt => by omega, rfl⟩
        · split at h
          · rename_i hclear
            refine further h fun u hu => ?_
            rw [hk, Option.some.injEq] at hu
            rw [← hu]
            exact hclear
          · cases h

theorem attachedDoc?_of_clear {p k : Nat} {t : Token} (hp : p < k) (ht : ts[p]? = some t)
    (hdoc : t.kind = .docComment) (hclear : Clear ts p k) :
    attachedDoc? ts k = some (DocBlock.ofToken t p) := by
  induction k with
  | zero => omega
  | succ k ih =>
      rw [attachedDoc?]
      rcases Nat.lt_succ_iff_lt_or_eq.1 hp with hp | rfl
      · have hrest := ih hp fun j u hj hlt => hclear j u hj (by omega)
        cases hk : ts[k]? with
        | none => exact hrest
        | some u =>
            have hu := hclear k u hp (by omega) hk
            simp only
            rw [if_neg (kind_ne_docComment_of_isTransparent hu), if_pos hu]
            exact hrest
      · rw [ht]
        simp only
        rw [if_pos hdoc]

/-- The search finds the block behind which everything is transparent. -/
theorem attachedDoc?_eq_some_iff {k : Nat} {d : DocBlock} :
    attachedDoc? ts k = some d ↔
      ∃ p t, p < k ∧ ts[p]? = some t ∧ t.kind = .docComment ∧ Clear ts p k ∧
        d = DocBlock.ofToken t p := by
  refine ⟨exists_of_attachedDoc?, ?_⟩
  rintro ⟨p, t, hp, ht, hdoc, hclear, rfl⟩
  exact attachedDoc?_of_clear hp ht hdoc hclear

/-! ## The waiting block -/

namespace Pass

theorem waiting_step_of_role (p : Pass) (t : Token) (n : Nat) :
    (step ts p (t, n)).waiting =
      match t.role with
      | .invisible => p.waiting
      | .doc => if t.kind = .docComment then some (DocBlock.ofToken t n) else none
      | .divider => none
      | .code => if t.isModifier then p.waiting else none := by
  unfold step
  simp only
  cases t.role with
  | invisible => rfl
  | doc => simp [collect]
  | divider => rfl
  | code => rfl

/-- What a token does to the waiting block. -/
theorem waiting_step (p : Pass) (t : Token) (n : Nat) :
    (step ts p (t, n)).waiting =
      if t.kind = .docComment then some (DocBlock.ofToken t n)
      else if t.isTransparent then p.waiting
      else none := by
  rw [waiting_step_of_role]
  unfold Token.role Token.isTransparent
  cases hkind : t.kind with
  | lineComment =>
      -- never attached, whether it is opened with three slashes or not
      have hmod : t.isModifier = false := by simp [Token.isModifier, Token.isKeyword, hkind]
      cases t.isDoc <;> simp [hmod]
  | _ => simp [Token.isModifier, Token.isKeyword, hkind]

/-- **The waiting block is the one that the search back finds.** -/
theorem waiting_upTo : ∀ n ≤ ts.length, (upTo ts n).waiting = attachedDoc? ts n := by
  refine upTo_induction (P := fun n p => p.waiting = attachedDoc? ts n) rfl ?_
  intro n t h ih
  rw [upTo_succ h, waiting_step, ih, attachedDoc?, h]

/-- A declaration is recognised at the token that introduces it, with the block attached there. -/
theorem doc_of_mem_run {d : Declaration} (hd : d ∈ (run ts).outline.declarations) :
    (∃ t, ts[d.declaringToken ts]? = some t ∧ d.isIntroducedBy t = true) ∧
      d.doc = attachedDoc? ts (d.declaringToken ts) := by
  obtain ⟨t, ht, hword, hd⟩ := introduced_of_mem_run hd
  have hlt := (List.getElem?_eq_some_iff.1 ht).1
  refine ⟨⟨t, ht, hword⟩, ?_⟩
  rw [(recognized_foundAt ht).doc_eq hd]
  show (upTo ts _).waiting = _
  exact waiting_upTo _ (Nat.le_of_lt hlt)

/-! ## Blocks are read off tokens -/

theorem isOf_doc {d : Declaration} {b : DocBlock} (hd : d ∈ (run ts).outline.declarations)
    (hb : d.doc = some b) : b.IsOf ts := by
  rw [(doc_of_mem_run hd).2] at hb
  obtain ⟨p, t, _, ht, _, _, rfl⟩ := exists_of_attachedDoc? hb
  exact ⟨t, ht, rfl⟩

end Pass

end Outline

/-! ## Missing documentation -/

namespace Rule

open Outline

/-- What the rules on missing documentation say about a declaration. -/
def missing (key : Text) (f : SourceFile) (d : Declaration) : Finding :=
  ({ : Finding }.atDeclaration f d).withField key d.fullname

/-- The declarations for which the search back through the tokens fails. -/
def unattached (f : SourceFile) (ds : List Declaration) : List Declaration :=
  ds.filter fun d => (attachedDoc? f.tokens (d.declaringToken f.tokens)).isNone

theorem undocumented_eq {path source key : Text} {ds : List Declaration}
    (hds : ∀ d ∈ ds, d ∈ (SourceFile.parse path source).outline.declarations) :
    undocumented key (SourceFile.parse path source) ds =
      (unattached (SourceFile.parse path source) ds).map
        (missing key (SourceFile.parse path source)) := by
  unfold undocumented unattached
  have hfilter : ds.filter (·.doc.isNone) =
      ds.filter fun d => (attachedDoc? (SourceFile.parse path source).tokens
        (d.declaringToken (SourceFile.parse path source).tokens)).isNone :=
    List.filter_congr fun d hd => by rw [(Pass.doc_of_mem_run (hds d hd)).2]; rfl
  rw [hfilter]
  rfl

/-- **A declaration is documented by the block next to it.** Each declaration stands behind the word
that introduces it, and its documentation is what the search back from that word finds: the nearest
block with nothing but blanks, open tags, attribute groups and modifiers in between. The rules on
missing documentation report the declarations for which the search fails, each of them once. -/
theorem doc_eq_attachedDoc (path source : Text) :
    let f := SourceFile.parse path source
    (∀ d ∈ f.outline.declarations,
      (∃ t, f.tokens[d.declaringToken f.tokens]? = some t ∧ d.isIntroducedBy t = true) ∧
      d.doc = attachedDoc? f.tokens (d.declaringToken f.tokens)) ∧
    (∀ k b, attachedDoc? f.tokens k = some b ↔
      ∃ p t, p < k ∧ f.tokens[p]? = some t ∧ t.kind = .docComment ∧
        (∀ j u, p < j → j < k → f.tokens[j]? = some u → u.isTransparent = true) ∧
        b = DocBlock.ofToken t p) ∧
    classesDocumented.findings f =
      (unattached f (f.outline.classes.map .classLike)).map (missing "class" f) ∧
    functionsDocumented.findings f =
      (unattached f (f.outline.functions.map .function)).map (missing "function" f) ∧
    propertiesDocumented.findings f =
      (unattached f (f.outline.properties.map .property)).map (missing "variable" f) ∧
    constsDocumented.findings f =
      (unattached f ((f.outline.constantsOf .const).map .constant)).map (missing "object" f) ∧
    definesDocumented.findings f =
      (unattached f ((f.outline.constantsOf .define).map .constant)).map (missing "object" f) := by
  intro f
  refine ⟨fun d hd => Pass.doc_of_mem_run hd, fun k b => attachedDoc?_eq_some_iff,
    undocumented_eq ?_, undocumented_eq ?_, undocumented_eq ?_, undocumented_eq ?_,
    undocumented_eq ?_⟩
  · exact mem_declarations_of_mem_map fun _ h => mem_classes.1 h
  · exact mem_declarations_of_mem_map fun _ h => mem_functions.1 h
  · exact mem_declarations_of_mem_map fun _ h => mem_properties.1 h
  · exact mem_declarations_of_mem_map fun _ h => (mem_constantsOf.1 h).1
  · exact mem_declarations_of_mem_map fun _ h => (mem_constantsOf.1 h).1

end Rule

end DocLint
