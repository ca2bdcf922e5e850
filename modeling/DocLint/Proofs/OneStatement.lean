import DocLint.Proofs.Attachment
import DocLint.Proofs.Separation

/-!
# A block documents one statement

A block waits until a token ends the wait. Modifiers do not end it, and a property is found at its
first modifier, so the block still waits when the pass goes on. What keeps it from being attached a
second time is the variable of the property: it stands in the statement, and it ends the wait.

* `tokenIndex_ne`: declarations found at different tokens do not share a block.
* `doc_documents_one_statement`: declarations that share a block are items of one statement.
-/

namespace DocLint

namespace Outline

variable {ts : List Token}

/-- A property is named by a variable behind its first modifier. -/
theorem Recognized.nameToken_spec {s : Site} {i : Nat} {t : Token} {r : Recognition}
    {q : PropertyDecl} (h : Recognized s i t r) (hq : .property q ∈ r.declarations) :
    i < q.nameToken ∧ ∃ u, s.tokens[q.nameToken]? = some u ∧ u.kind = .dollarName := by
  cases h with
  | nothing => cases hq
  | classLike => cases List.mem_singleton.1 hq
  | function => cases List.mem_singleton.1 hq
  | constants =>
      obtain ⟨p, _, hp⟩ := List.mem_map.1 hq
      cases hp
  | properties v word inside first =>
      obtain ⟨⟨u, j⟩, hp, heq⟩ := List.mem_map.1 hq
      cases heq
      obtain ⟨hget, hj⟩ := getElem?_of_mem_slice (mem_of_mem_propertyNames hp)
      have hv : i + 1 ≤ v :=
        le_firstVariable? (fun p hp => (getElem?_of_mem_zipIdx_drop hp).2) first
      exact ⟨by show i < j; omega, u, hget, kind_of_mem_propertyNames hp⟩
  | define => cases List.mem_singleton.1 hq

/-- Of the words that introduce a declaration only modifiers are transparent. -/
theorem isModifier_of_isTransparent {d : Declaration} {t : Token} (h : t.isTransparent = true)
    (hword : d.isIntroducedBy t = true) : t.isModifier = true := by
  unfold Token.isTransparent at h
  rcases Declaration.kind_of_isIntroducedBy hword with hkind | hkind
  · rwa [hkind] at h
  · rwa [hkind] at h

namespace Pass

/-- **Declarations found at different tokens do not share a block.** -/
theorem tokenIndex_ne {i j : Nat} {t u : Token} {d e : Declaration} {a b : DocBlock} (hlt : i < j)
    (ht : ts[i]? = some t) (hu : ts[j]? = some u) (hd : d ∈ (foundAt ts i).declarations)
    (he : e ∈ (foundAt ts j).declarations) (ha : d.doc = some a) (hb : e.doc = some b) :
    a.tokenIndex ≠ b.tokenIndex := by
  have hi := (List.getElem?_eq_some_iff.1 ht).1
  have hj := (List.getElem?_eq_some_iff.1 hu).1
  rw [(recognized_foundAt ht).doc_eq hd] at ha
  rw [(recognized_foundAt hu).doc_eq he] at hb
  have ha : attachedDoc? ts i = some a := (waiting_upTo i (Nat.le_of_lt hi)).symm.trans ha
  have hb : attachedDoc? ts j = some b := (waiting_upTo j (Nat.le_of_lt hj)).symm.trans hb
  obtain ⟨p, _, hp, _, _, _, rfl⟩ := exists_of_attachedDoc? ha
  obtain ⟨q, _, _, _, _, hclear, rfl⟩ := exists_of_attachedDoc? hb
  intro heq
  obtain rfl : p = q := heq
  -- the first declaration is one of properties, for its word does not end the wait
  have hword := ((recognized_foundAt ht).introduces ht hd).2
  have hmod := isModifier_of_isTransparent (hclear i t hp hlt ht) hword
  obtain ⟨x, rfl⟩ := Declaration.property_of_isModifier hword hmod
  have hresume := (recognized_foundAt ht).resumeAt_of_isStatement hd rfl
  have hbehind : x.span.last + 1 ≤ j := resumeAt_le_of_mem hlt ht hu hresume he
  have hlast : x.nameToken ≤ x.span.last := ((recognized_foundAt ht).span_bounds ht hd).2.1
  -- its variable does
  obtain ⟨hname, v, hv, hkind⟩ := (recognized_foundAt ht).nameToken_spec hd
  have hsilent := hclear x.nameToken v (by omega) (by omega) hv
  simp [Token.isTransparent, Token.isModifier, Token.isKeyword, hkind] at hsilent

end Pass

/-- **A block documents at most one statement.** Two declarations of a file that carry blocks read
off one token are items of one statement: both are properties or both are constants behind the word
`const`, with one range. -/
theorem doc_documents_one_statement (path source : Text) :
    let f := SourceFile.parse path source
    f.outline.declarations.Pairwise fun d e => ∀ a b, d.doc = some a → e.doc = some b →
      a.tokenIndex = b.tokenIndex →
      d.span = e.span ∧ ((∃ p q, d = .property p ∧ e = .property q) ∨
        ∃ c k, d = .constant c ∧ e = .constant k ∧ c.form = .const ∧ k.form = .const) := by
  intro f
  refine Pass.pairwise_declarations (fun i t ht => ?_) ?_
  · refine ((Pass.recognized_foundAt ht).pairwise_items ht).imp fun hitems a b _ _ _ => ?_
    exact ⟨hitems.2.span, hitems.2.kind⟩
  · intro i j t u hlt ht hu d hd e he a b ha hb heq
    exact absurd heq (Pass.tokenIndex_ne hlt ht hu hd he ha hb)

end Outline

end DocLint
