import DocLint.Outline.Basic
import DocLint.Proofs.Recognition

/-!
# The pass, token by token

* `upTo`: the pass after the first tokens; `upTo_succ` and `run_eq_upTo`.
* `foundAt`: what the pass recognises at an index; the fields of the pass after one token more are
  given in its terms (`declarations_upTo_succ`, `scopes_upTo_succ`, `resumeAt_upTo_succ`).
* `docs_upTo_succ`, `fileDoc_upTo_succ`: what one token adds to the documentation.
* `upTo_induction`: what every token keeps holds of the whole pass.
* `mem_declarations_run`: the declarations of a file are those recognised at its tokens.
* `docs_run`: the documentation of a file is that of its tokens, in order.

The declarations of one kind are those of the outline that have it (`mem_classes` and so on).
-/

namespace DocLint

/-- The block is read off one of the tokens. -/
def DocBlock.IsOf (d : DocBlock) (ts : List Token) : Prop :=
  ∃ t, ts[d.tokenIndex]? = some t ∧ d = DocBlock.ofToken t d.tokenIndex

namespace Outline

/-! ## Declarations by their kind -/

section Kinds

variable {o : Outline}

theorem mem_filterMap_kind {α : Type} {kind? : Declaration → Option α} {mk : α → Declaration}
    (hkind : ∀ e a, kind? e = some a ↔ e = mk a) {a : α} {ds : List Declaration} :
    a ∈ ds.filterMap kind? ↔ mk a ∈ ds := by
  rw [List.mem_filterMap]
  constructor
  · rintro ⟨e, he, heq⟩
    rw [← (hkind e a).1 heq]
    exact he
  · exact fun h => ⟨_, h, (hkind _ _).2 rfl⟩

theorem mem_classes {d : ClassDecl} : d ∈ o.classes ↔ .classLike d ∈ o.declarations :=
  mem_filterMap_kind fun e a => by cases e <;> simp [Declaration.classLike?]

theorem mem_functions {d : FunctionDecl} : d ∈ o.functions ↔ .function d ∈ o.declarations :=
  mem_filterMap_kind fun e a => by cases e <;> simp [Declaration.function?]

theorem mem_properties {d : PropertyDecl} : d ∈ o.properties ↔ .property d ∈ o.declarations :=
  mem_filterMap_kind fun e a => by cases e <;> simp [Declaration.property?]

theorem mem_constants {d : ConstantDecl} : d ∈ o.constants ↔ .constant d ∈ o.declarations :=
  mem_filterMap_kind fun e a => by cases e <;> simp [Declaration.constant?]

theorem mem_constantsOf {d : ConstantDecl} {form : ConstantForm} :
    d ∈ o.constantsOf form ↔ .constant d ∈ o.declarations ∧ d.form = form := by
  unfold constantsOf
  rw [List.mem_filter, mem_constants, beq_iff_eq]

theorem mem_declarations_of_mem_map {α : Type} {as : List α} {mk : α → Declaration}
    (h : ∀ a ∈ as, mk a ∈ o.declarations) : ∀ d ∈ as.map mk, d ∈ o.declarations := by
  intro d hd
  obtain ⟨a, ha, rfl⟩ := List.mem_map.1 hd
  exact h a ha

end Kinds

namespace Pass

variable {ts : List Token} {n : Nat} {t : Token}

/-- The pass after the first `n` tokens. -/
def upTo (ts : List Token) (n : Nat) : Pass := (ts.zipIdx.take n).foldl (step ts) {}

/-- The surroundings of the token at `i` when the pass comes to it. -/
def siteAt (ts : List Token) (i : Nat) : Site := ((upTo ts i).leave i).site ts

/-- What the pass recognises at index `i`. -/
def foundAt (ts : List Token) (i : Nat) : Recognition :=
  match ts[i]? with
  | none => {}
  | some t =>
    if t.role = .code ∧ (upTo ts i).resumeAt ≤ i then recognize (siteAt ts i) i t else {}

theorem upTo_zero (ts : List Token) : upTo ts 0 = {} := by
  simp [upTo]

theorem upTo_succ (h : ts[n]? = some t) : upTo ts (n + 1) = step ts (upTo ts n) (t, n) := by
  unfold upTo
  rw [List.take_add_one, List.foldl_append, List.getElem?_zipIdx, h]
  simp

theorem run_eq_upTo (ts : List Token) : run ts = upTo ts ts.length := by
  unfold run upTo
  rw [List.take_of_length_le (by simp)]

/-- What holds at the start and is kept by every token holds after any number of tokens. -/
theorem upTo_induction {P : Nat → Pass → Prop} (init : P 0 {})
    (next : ∀ n t, ts[n]? = some t → P n (upTo ts n) → P (n + 1) (upTo ts (n + 1))) :
    ∀ n ≤ ts.length, P n (upTo ts n) := by
  intro n
  induction n with
  | zero => intro _; rw [upTo_zero]; exact init
  | succ n ih =>
      intro hn
      exact next n ts[n] (List.getElem?_eq_getElem hn) (ih (by omega))

theorem recognized_foundAt (h : ts[n]? = some t) :
    Recognized (siteAt ts n) n t (foundAt ts n) := by
  unfold foundAt
  rw [h]
  simp only
  split
  · exact recognized _ _ _
  · exact .nothing

/-- Nothing is recognised before the index at which the search goes on. -/
theorem foundAt_of_lt (h : n < (upTo ts n).resumeAt) : foundAt ts n = {} := by
  unfold foundAt
  split
  · rfl
  · rw [if_neg (by omega)]

/-! ## One token more -/

/-- What one token does to the declarations, the open bodies and the index at which the search goes
on: only what is recognised there is added. -/
theorem upTo_succ_fields (h : ts[n]? = some t) :
    (upTo ts (n + 1)).outline.declarations =
        (upTo ts n).outline.declarations ++ (foundAt ts n).declarations ∧
      (upTo ts (n + 1)).scopes = (foundAt ts n).scope.toList ++ ((upTo ts n).leave n).scopes ∧
      (upTo ts (n + 1)).resumeAt = (foundAt ts n).resumeAt.getD (upTo ts n).resumeAt := by
  rw [upTo_succ h]
  unfold foundAt siteAt step
  rw [h]
  simp only
  cases hrole : t.role with
  | invisible => simp [leave]
  | doc => simp [leave, collect]
  | divider => simp [leave]
  | code =>
      by_cases hresume : (upTo ts n).resumeAt ≤ n
      · simp [leave, advance, add, hresume]
      · simp [leave, advance, hresume]

theorem declarations_upTo_succ (h : ts[n]? = some t) :
    (upTo ts (n + 1)).outline.declarations =
      (upTo ts n).outline.declarations ++ (foundAt ts n).declarations := (upTo_succ_fields h).1

theorem scopes_upTo_succ (h : ts[n]? = some t) :
    (upTo ts (n + 1)).scopes = (foundAt ts n).scope.toList ++ ((upTo ts n).leave n).scopes :=
  (upTo_succ_fields h).2.1

theorem resumeAt_upTo_succ (h : ts[n]? = some t) :
    (upTo ts (n + 1)).resumeAt = (foundAt ts n).resumeAt.getD (upTo ts n).resumeAt :=
  (upTo_succ_fields h).2.2

theorem role_eq_doc_iff (t : Token) : t.role = .doc ↔ t.isDoc = true := by
  unfold Token.role
  split <;> simp_all [Token.isDoc]

/-- Code adds no documentation. -/
theorem advance_docs (p : Pass) (ts : List Token) (n : Nat) (t : Token) :
    (p.advance ts n t).outline.docs = p.outline.docs ∧
      (p.advance ts n t).outline.fileDoc = p.outline.fileDoc := by
  unfold advance
  by_cases hresume : p.resumeAt ≤ n
  · simp [add, hresume]
  · simp [hresume]

theorem docs_upTo_succ (h : ts[n]? = some t) :
    (upTo ts (n + 1)).outline.docs =
      (upTo ts n).outline.docs ++ if t.isDoc then [DocBlock.ofToken t n] else [] := by
  rw [upTo_succ h]
  unfold step
  simp only
  by_cases hdoc : t.isDoc = true
  · rw [(role_eq_doc_iff t).2 hdoc, if_pos hdoc]
    rfl
  · have hrole : t.role ≠ .doc := fun hr => hdoc ((role_eq_doc_iff t).1 hr)
    rw [if_neg hdoc, List.append_nil]
    cases hr : t.role with
    | invisible => rfl
    | doc => exact absurd hr hrole
    | divider => rfl
    | code => exact (advance_docs _ ts n t).1

/-- Only a documentation block before all code becomes the documentation of the file, and only the
first one. -/
theorem fileDoc_upTo_succ (h : ts[n]? = some t) :
    (upTo ts (n + 1)).outline.fileDoc =
      if t.kind = .docComment ∧ (upTo ts n).codeSeen = false then
        (upTo ts n).outline.fileDoc.or (some (DocBlock.ofToken t n))
      else (upTo ts n).outline.fileDoc := by
  have hblock : t.role ≠ .doc → ¬ (t.kind = .docComment ∧ (upTo ts n).codeSeen = false) :=
    fun hrole hc => hrole (by rw [Token.role, hc.1])
  rw [upTo_succ h]
  unfold step
  simp only
  cases hrole : t.role with
  | invisible => rw [if_neg (hblock (by rw [hrole]; decide))]; rfl
  | doc => simp [leave, collect]
  | divider => rw [if_neg (hblock (by rw [hrole]; decide))]; rfl
  | code =>
      rw [if_neg (hblock (by rw [hrole]; decide))]
      exact (advance_docs _ ts n t).2

/-! ## The whole pass -/

/-- The index at which the search goes on never moves back. -/
theorem resumeAt_le_succ (h : ts[n]? = some t) :
    (upTo ts n).resumeAt ≤ (upTo ts (n + 1)).resumeAt := by
  rw [resumeAt_upTo_succ h]
  by_cases hlt : n < (upTo ts n).resumeAt
  · rw [foundAt_of_lt hlt]
    exact Nat.le_refl _
  · cases hm : (foundAt ts n).resumeAt with
    | none => exact Nat.le_refl _
    | some m =>
        have := (recognized_foundAt h).lt_resumeAt h hm
        rw [Option.getD_some]
        omega

theorem resumeAt_mono {m : Nat} (hm : m ≤ n) (hn : n ≤ ts.length) :
    (upTo ts m).resumeAt ≤ (upTo ts n).resumeAt := by
  induction hm with
  | refl => exact Nat.le_refl _
  | @step k hm ih =>
      have hget : ts[k]? = some ts[k] := List.getElem?_eq_getElem hn
      exact Nat.le_trans (ih (by omega)) (resumeAt_le_succ hget)

theorem mem_declarations_upTo {d : Declaration} :
    ∀ n ≤ ts.length, d ∈ (upTo ts n).outline.declarations ↔
      ∃ i t, i < n ∧ ts[i]? = some t ∧ d ∈ (foundAt ts i).declarations := by
  refine upTo_induction (P := fun n p => d ∈ p.outline.declarations ↔
    ∃ i t, i < n ∧ ts[i]? = some t ∧ d ∈ (foundAt ts i).declarations) ?_ ?_
  · constructor
    · intro hd
      cases hd
    · rintro ⟨i, _, hi, _⟩
      omega
  intro n t h ih
  rw [declarations_upTo_succ h, List.mem_append, ih]
  constructor
  · rintro (⟨i, u, hi, hu, hd⟩ | hd)
    · exact ⟨i, u, by omega, hu, hd⟩
    · exact ⟨n, t, by omega, h, hd⟩
  · rintro ⟨i, u, hi, hu, hd⟩
    rcases Nat.lt_succ_iff_lt_or_eq.1 hi with hi | rfl
    · exact Or.inl ⟨i, u, hi, hu, hd⟩
    · exact Or.inr hd

/-- **The declarations of a file are those recognised at its tokens.** -/
theorem mem_declarations_run {d : Declaration} :
    d ∈ (run ts).outline.declarations ↔
      ∃ i t, ts[i]? = some t ∧ d ∈ (foundAt ts i).declarations := by
  rw [run_eq_upTo, mem_declarations_upTo _ (Nat.le_refl _)]
  constructor
  · rintro ⟨i, t, _, ht, hd⟩
    exact ⟨i, t, ht, hd⟩
  · rintro ⟨i, t, ht, hd⟩
    exact ⟨i, t, (List.getElem?_eq_some_iff.1 ht).1, ht, hd⟩

/-- The word that introduces a declaration is there. -/
theorem introduced_of_mem_run {d : Declaration} (hd : d ∈ (run ts).outline.declarations) :
    ∃ t, ts[d.declaringToken ts]? = some t ∧ d.isIntroducedBy t = true ∧
      d ∈ (foundAt ts (d.declaringToken ts)).declarations := by
  obtain ⟨i, t, ht, hd⟩ := mem_declarations_run.1 hd
  obtain ⟨hat, hword⟩ := (recognized_foundAt ht).introduces ht hd
  have hat : d.declaringToken ts = i := hat
  rw [hat]
  exact ⟨t, ht, hword, hd⟩

/-- **The documentation of a file is that of its tokens, in order.** -/
theorem docs_run (ts : List Token) :
    (run ts).outline.docs =
      (ts.zipIdx.filter (·.1.isDoc)).map fun p => DocBlock.ofToken p.1 p.2 := by
  have hprefix : ∀ n ≤ ts.length, (upTo ts n).outline.docs =
      ((ts.zipIdx.take n).filter (·.1.isDoc)).map fun p => DocBlock.ofToken p.1 p.2 := by
    refine upTo_induction (P := fun n p => p.outline.docs =
      ((ts.zipIdx.take n).filter (·.1.isDoc)).map fun p => DocBlock.ofToken p.1 p.2) rfl ?_
    intro n t h ih
    rw [docs_upTo_succ h, ih, List.take_add_one, List.getElem?_zipIdx, h]
    by_cases hdoc : t.isDoc = true
    · simp [hdoc]
    · simp [hdoc]
  rw [run_eq_upTo, hprefix _ (Nat.le_refl _), List.take_of_length_le (by simp)]

/-- The documentation of the file itself is one of its blocks. -/
theorem fileDoc_mem_docs {d : DocBlock} (hd : (run ts).outline.fileDoc = some d) :
    d ∈ (run ts).outline.docs := by
  suffices ∀ n ≤ ts.length, ∀ d, (upTo ts n).outline.fileDoc = some d →
      d ∈ (upTo ts n).outline.docs by
    rw [run_eq_upTo] at hd ⊢
    exact this _ (Nat.le_refl _) d hd
  refine upTo_induction (P := fun _ p => ∀ d, p.outline.fileDoc = some d → d ∈ p.outline.docs)
    (fun d hd => by cases hd) ?_
  intro n t h ih d hd
  rw [docs_upTo_succ h, List.mem_append]
  rw [fileDoc_upTo_succ h] at hd
  split at hd
  · rename_i hblock
    have hdoc : t.isDoc = true := by simp [Token.isDoc, hblock.1]
    rw [if_pos hdoc, List.mem_singleton]
    rcases Option.or_eq_some_iff.1 hd with hd | ⟨_, hd⟩
    · exact Or.inl (ih d hd)
    · exact Or.inr (Option.some.inj hd).symm
  · exact Or.inl (ih d hd)

theorem isOf_of_mem_docs {d : DocBlock} (hd : d ∈ (run ts).outline.docs) : d.IsOf ts := by
  rw [docs_run] at hd
  obtain ⟨⟨t, i⟩, hp, rfl⟩ := List.mem_map.1 hd
  exact ⟨t, List.mem_zipIdx_iff_getElem?.1 (List.mem_filter.1 hp).1, rfl⟩

/-- The token that stands for a declaration is there. -/
theorem anchor_lt_of_mem_run {d : Declaration} (hd : d ∈ (run ts).outline.declarations) :
    d.anchor < ts.length := by
  obtain ⟨i, t, ht, hd⟩ := mem_declarations_run.1 hd
  exact (recognized_foundAt ht).anchor_lt ht hd

end Pass

end Outline

end DocLint
