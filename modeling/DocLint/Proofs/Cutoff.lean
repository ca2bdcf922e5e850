import DocLint.Proofs.Lexis

/-!
# Extents and the text behind them

Every extent is found by looking ahead: for a closing quote, a `*/`, the label of a heredoc, a
longer operator. It is the same when the text is cut off anywhere behind the lexeme.

* `FirstAt.of_isPrefix`, `extent_of_isPrefix`: an extent that is the first closing place. Quotes,
  comments, groups and the bodies of heredocs are of this sort.
* `heredocExtent?_of_isPrefix`, `heredocExtent?_eq_none_of_isPrefix`: what is a heredoc stays one,
  and none arises.
* `ite_of_taken`: choices by the text in front, as for tags and operators.
-/

namespace DocLint.Token

open Text

variable {c d : Char} {s t t' rest rest' : Text} {n : Nat}

/-! ## What stands in front -/

theorem head?_of_isPrefix (h : t' <+: t) (hd : t'.head? = some d) : t.head? = some d := by
  obtain ⟨r, rfl⟩ := List.head?_eq_some_iff.1 hd
  obtain ⟨more, rfl⟩ := h
  rfl

theorem head?_append_congr (hs : s ≠ []) : (s ++ rest').head? = (s ++ rest).head? := by
  rw [List.head?_append_of_ne_nil _ hs, List.head?_append_of_ne_nil _ hs]

theorem startsWith_of_isPrefix {p : Text} (h : t' <+: t) (hp : startsWith p t' = true) :
    startsWith p t = true :=
  startsWith_iff.2 ((startsWith_iff.1 hp).trans h)

theorem startsWith_append_congr {p : Text} (hp : p.length ≤ s.length) :
    startsWith p (s ++ rest') = startsWith p (s ++ rest) := by
  have hinside : ∀ r, startsWith p (s ++ r) = true ↔ p <+: s := by
    intro r
    rw [startsWith_iff]
    constructor
    · intro h
      exact List.prefix_of_prefix_length_le h (List.prefix_append s r) hp
    · intro h
      exact h.trans (List.prefix_append s r)
  rw [Bool.eq_iff_iff, hinside, hinside]

/-- A choice by the text in front stays the same if the branch that was taken does: with less text
behind, no condition comes to hold. -/
theorem ite_of_taken {α : Type} {p p' : Prop} [Decidable p] [Decidable p'] {x x' y y' : α}
    (size : α → Nat) (h : size (if p then x else y) = n) (hback : p' → p)
    (hx : p → size x = n → p' ∧ x' = x) (hy : ¬ p → size y = n → y' = y) :
    (if p' then x' else y') = if p then x else y := by
  by_cases hp : p
  · rw [if_pos hp] at h ⊢
    obtain ⟨hp', heq⟩ := hx hp h
    rw [if_pos hp', heq]
  · rw [if_neg hp] at h ⊢
    rw [if_neg (mt hback hp), hy hp h]

/-! ## Runs of a class -/

/-- A run that ends before the cut ends there without the text behind the cut. -/
theorem length_takeWhile_of_isPrefix {p : Char → Bool} (hr : rest' <+: rest)
    (h : ((s ++ rest).takeWhile p).length = s.length) :
    ((s ++ rest').takeWhile p).length = s.length := by
  induction s with
  | nil =>
      cases rest' with
      | nil => rfl
      | cons d r =>
          obtain ⟨more, rfl⟩ := hr
          cases hd : p d with
          | false => simp [hd]
          | true => simp [hd] at h
  | cons d s ih =>
      cases hd : p d with
      | false => simp [hd] at h
      | true =>
          simp only [List.cons_append, List.takeWhile_cons_of_pos hd, List.length_cons,
            Nat.add_right_cancel_iff] at h ⊢
          exact ih h

/-! ## First closing places -/

/-- A text closes first at one place. -/
theorem FirstAt.unique {closes : Text → Text → Prop} {m : Nat} (h : FirstAt closes t n)
    (h' : FirstAt closes t m) (hn : n ≤ t.length) (hm : m ≤ t.length) : n = m := by
  have hle : ∀ {a b : Nat}, FirstAt closes t a → FirstAt closes t b → b ≤ t.length → b ≤ a := by
    intro a b ha hb hlength
    apply Nat.le_of_not_lt
    intro hlt
    rcases ha.2 with hcloses | hend
    · exact hb.1 a hlt hcloses
    · omega
  exact Nat.le_antisymm (hle h' h hn) (hle h h' hm)

/-- The place stays when text behind it is cut off, if closing looks one character ahead at most and
the end of the text is as good as any. -/
theorem FirstAt.of_isPrefix {closes : Text → Text → Prop}
    (hhead : ∀ u r r', r.head? = r'.head? → closes u r → closes u r')
    (hnil : ∀ u r, closes u r → closes u []) (hr : rest' <+: rest)
    (h : FirstAt closes (s ++ rest) s.length) : FirstAt closes (s ++ rest') s.length := by
  obtain ⟨hbefore, hat⟩ := h
  constructor
  · intro m hm hcloses
    have hle : m ≤ s.length := Nat.le_of_lt hm
    have hne : s.drop m ≠ [] := by
      simp only [ne_eq, List.drop_eq_nil_iff]
      omega
    apply hbefore m hm
    rw [List.take_append_of_le_length hle, List.drop_append_of_le_length hle] at hcloses ⊢
    exact hhead _ _ _ (head?_append_congr hne) hcloses
  · rw [List.take_left, List.drop_left] at hat ⊢
    rcases hat with hcloses | hend
    · left
      cases rest' with
      | nil => exact hnil s rest hcloses
      | cons d r =>
          obtain ⟨more, rfl⟩ := hr
          exact hhead s (d :: r ++ more) (d :: r) rfl hcloses
    · right
      have hempty : rest = [] := by simpa using hend
      subst hempty
      rw [List.prefix_nil.1 hr, List.append_nil]

/-- An extent that is the first closing place does not move. -/
theorem extent_of_isPrefix {closes : Text → Text → Prop} {extent : Text → Nat}
    (hfirst : ∀ t, FirstAt closes t (extent t)) (hle : ∀ t, extent t ≤ t.length)
    (hhead : ∀ u r r', r.head? = r'.head? → closes u r → closes u r')
    (hnil : ∀ u r, closes u r → closes u []) (hr : rest' <+: rest)
    (h : extent (s ++ rest) = s.length) : extent (s ++ rest') = s.length := by
  have hcut := hfirst (s ++ rest)
  rw [h] at hcut
  apply (hfirst (s ++ rest')).unique (hcut.of_isPrefix hhead hnil hr) (hle _)
  rw [List.length_append]
  omega

theorem quotedExtent_of_isPrefix {q : Char} (hq : q ≠ '\\') (hr : rest' <+: rest)
    (h : quotedExtent q (s ++ rest) = s.length) : quotedExtent q (s ++ rest') = s.length :=
  extent_of_isPrefix (firstAt_quotedExtent hq) (quotedExtent_le q) (fun _ _ _ _ h => h)
    (fun _ _ h => h) hr h

theorem commentExtent_of_isPrefix (hr : rest' <+: rest) (h : commentExtent (s ++ rest) = s.length) :
    commentExtent (s ++ rest') = s.length :=
  extent_of_isPrefix firstAt_commentExtent commentExtent_le (fun _ _ _ _ h => h)
    (fun _ _ h => h) hr h

/-- An attribute group, from its bracket on. -/
theorem groupExtent_of_isPrefix (hr : rest' <+: rest)
    (h : groupExtent .outside 0 ('[' :: (s ++ rest)) = s.length + 1) :
    groupExtent .outside 0 ('[' :: (s ++ rest')) = s.length + 1 := by
  rw [groupExtent, if_pos rfl, Nat.add_right_cancel_iff] at h ⊢
  exact extent_of_isPrefix (firstAt_groupExtent Nat.one_pos) (groupExtent_le _ _)
    (fun _ _ _ _ h => h) (fun _ _ h => h) hr h

theorem heredocBodyExtent_of_isPrefix {header label : Text} (hlabel : IsLabel header label)
    (hr : rest' <+: rest) (h : heredocBodyExtent label (pieces (s ++ rest)) = s.length) :
    heredocBodyExtent label (pieces (s ++ rest')) = s.length := by
  obtain ⟨_, _, _, _, _, _, _, hne, hword⟩ := hlabel
  refine extent_of_isPrefix (firstAt_heredocBodyExtent hne hword) (fun t => ?_) ?_ ?_ hr h
  · conv_rhs => rw [← flatten_pieces t]
    exact heredocBodyExtent_le label (pieces t)
  · rintro u r r' hhead ⟨body, indent, hu, hbody, hindent, hnext⟩
    exact ⟨body, indent, hu, hbody, hindent, by rwa [← hhead]⟩
  · rintro u r ⟨body, indent, hu, hbody, hindent, _⟩
    exact ⟨body, indent, hu, hbody, hindent, rfl⟩

/-! ## Heredocs -/

theorem heredocExtent?_of_not_mem (h : '\n' ∉ t) : heredocExtent? t = none := by
  rcases find?_lf t with ⟨_, hnone⟩ | ⟨header, r, rfl, _, _⟩
  · rw [heredocExtent?, hnone]
  · simp at h

theorem heredocExtent?_append {header : Text} (h : '\n' ∉ header) (r : Text) :
    heredocExtent? (header ++ '\n' :: r) = (heredocLabel? header).map fun label =>
      header.length + 1 + heredocBodyExtent label (pieces r) := by
  have hdrop : (header ++ '\n' :: r).drop (header.length + 1) = r := by simp
  simp only [heredocExtent?, find?_lf_append h, List.take_left, hdrop]

/-- A heredoc stays one. -/
theorem heredocExtent?_of_isPrefix (hr : rest' <+: rest)
    (h : heredocExtent? (s ++ rest) = some s.length) :
    heredocExtent? (s ++ rest') = some s.length := by
  by_cases hlf : '\n' ∈ s ++ rest
  · obtain ⟨header, r, heq, hheader⟩ := List.eq_append_cons_of_mem hlf
    rw [heq, heredocExtent?_append hheader, Option.map_eq_some_iff] at h
    obtain ⟨label, hlabel, hlength⟩ := h
    -- the line with the label belongs to the heredoc
    obtain ⟨body, rfl, rfl⟩ : ∃ body, s = header ++ '\n' :: body ∧ r = body ++ rest := by
      rw [List.append_cons] at heq
      rcases List.append_eq_append_iff.1 heq with ⟨a, ha, _⟩ | ⟨body, hs, hrest⟩
      · have := congrArg List.length ha
        simp only [List.length_append, List.length_singleton] at this
        have ha' : a = [] := List.eq_nil_of_length_eq_zero (by omega)
        subst ha'
        exact ⟨[], by simpa using ha.symm, by simp_all⟩
      · exact ⟨body, by simpa using hs, hrest⟩
    rw [List.append_assoc, List.cons_append, heredocExtent?_append hheader, hlabel,
      Option.map_some, Option.some.injEq]
    simp only [List.length_append, List.length_cons] at hlength ⊢
    have hbody := heredocBodyExtent_of_isPrefix (isLabel_of_heredocLabel? hlabel) hr
      (s := body) (by omega)
    omega
  · rw [heredocExtent?_of_not_mem hlf] at h
    cases h

/-- No heredoc arises. -/
theorem heredocExtent?_eq_none_of_isPrefix (hr : t' <+: t) (h : heredocExtent? t = none) :
    heredocExtent? t' = none := by
  by_cases hlf : '\n' ∈ t'
  · obtain ⟨header, r, rfl, hheader⟩ := List.eq_append_cons_of_mem hlf
    obtain ⟨more, rfl⟩ := hr
    rw [List.append_assoc, List.cons_append, heredocExtent?_append hheader,
      Option.map_eq_none_iff] at h
    rw [heredocExtent?_append hheader, h]
    rfl
  · exact heredocExtent?_of_not_mem hlf

theorem heredoc_of_isPrefix (hr : rest' <+: rest)
    (h : (match heredocExtent? ((s ++ rest).drop 2) with
      | some n => (Kind.literal, n + 2)
      | none => (.punct, 2)).2 = s.length) :
    2 ≤ s.length ∧
    (match heredocExtent? ((s ++ rest').drop 2) with
      | some n => (Kind.literal, n + 2)
      | none => (.punct, 2)) =
    match heredocExtent? ((s ++ rest).drop 2) with
      | some n => (Kind.literal, n + 2)
      | none => (.punct, 2) := by
  have hle : 2 ≤ s.length := by
    rw [← h]
    split
    · exact Nat.le_add_left 2 _
    · exact Nat.le_refl 2
  refine ⟨hle, ?_⟩
  rw [List.drop_append_of_le_length hle] at h ⊢
  rw [List.drop_append_of_le_length hle]
  cases hsome : heredocExtent? (s.drop 2 ++ rest) with
  | none => rw [heredocExtent?_eq_none_of_isPrefix ((List.prefix_append_right_inj _).2 hr) hsome]
  | some n =>
      rw [hsome] at h
      have hlength : n + 2 = s.length := h
      obtain rfl : n = (s.drop 2).length := by
        rw [List.length_drop]
        omega
      rw [heredocExtent?_of_isPrefix hr hsome]

/-! ## Tags and operators -/

theorem lineBreakExtent_of_isPrefix (hr : rest' <+: rest)
    (h : lineBreakExtent (s ++ rest) = s.length) :
    lineBreakExtent (s ++ rest') = s.length := by
  have hwhole := (List.prefix_append_right_inj s).2 hr
  rw [← h]
  unfold lineBreakExtent at h ⊢
  refine ite_of_taken id h (startsWith_of_isPrefix hwhole) ?_ fun _ h => ?_
  · intro hcrlf hlength
    have hle : 2 ≤ s.length := Nat.le_of_eq hlength
    exact ⟨(startsWith_append_congr (p := ['\r', '\n']) hle).trans hcrlf, rfl⟩
  refine ite_of_taken id h (startsWith_of_isPrefix hwhole) ?_ fun _ _ => rfl
  intro hlf hlength
  have hle : 1 ≤ s.length := Nat.le_of_eq hlength
  exact ⟨(startsWith_append_congr (p := ['\n']) hle).trans hlf, rfl⟩

/-- Characters of an open tag behind its `<`. -/
def tagExtent (t : Text) : Nat :=
  if sameLetters (t.take 4) "?php" then 4 else if startsWith "?=" t then 2 else 1

theorem htmlCut_openTag (h : t.head? = some '?') : htmlCut '<' t =
    ⟨.openTag, tagExtent t + lineBreakExtent (t.drop (tagExtent t)), .code⟩ :=
  if_pos ⟨rfl, h⟩

theorem tagExtent_pos (t : Text) : 0 < tagExtent t := by
  unfold tagExtent
  split
  · decide
  · split <;> decide

theorem tagExtent_of_isPrefix (hr : rest' <+: rest) (hn : tagExtent (s ++ rest) = n)
    (hle : n ≤ s.length) : tagExtent (s ++ rest') = n := by
  have hphp : ∀ u : Text, sameLetters (u.take 4) "?php" = startsWith "?php" (lower u) :=
    sameLetters_take (p := "?php") (by decide)
  have hwhole := (List.prefix_append_right_inj s).2 hr
  rw [← hn]
  unfold tagExtent at hn ⊢
  refine ite_of_taken id hn ?_ (fun h hlength => ⟨?_, rfl⟩) fun _ hn => ?_
  · rw [hphp, hphp]
    exact startsWith_of_isPrefix (hwhole.map _)
  · have hfour : 4 ≤ s.length := Nat.le_trans (Nat.le_of_eq hlength) hle
    rw [List.take_append_of_le_length hfour] at h ⊢
    exact h
  refine ite_of_taken id hn (startsWith_of_isPrefix hwhole) ?_ fun _ _ => rfl
  intro hecho hlength
  have htwo : 2 ≤ s.length := Nat.le_trans (Nat.le_of_eq hlength) hle
  exact ⟨(startsWith_append_congr (p := "?=") htwo).trans hecho, rfl⟩

theorem operator_of_isPrefix {op : Text} (hr : rest' <+: rest)
    (h : operators.find? (startsWith · (c :: (s ++ rest))) = some op)
    (hlength : op.length ≤ s.length + 1) :
    operators.find? (startsWith · (c :: (s ++ rest'))) = some op := by
  rw [List.find?_eq_some_iff_append] at h ⊢
  obtain ⟨hop, front, back, heq, hfront⟩ := h
  refine ⟨?_, front, back, heq, fun op' hop' => ?_⟩
  · exact (startsWith_append_congr (s := c :: s) hlength).trans hop
  · have hno := hfront op' hop'
    rw [Bool.not_eq_true', ← Bool.not_eq_true] at hno ⊢
    exact mt (startsWith_of_isPrefix ((List.prefix_append_right_inj (c :: s)).2 hr)) hno

theorem operator_eq_none_of_isPrefix (hr : t' <+: t)
    (h : operators.find? (startsWith · (c :: t)) = none) :
    operators.find? (startsWith · (c :: t')) = none := by
  rw [List.find?_eq_none] at h ⊢
  intro op hop
  exact mt (startsWith_of_isPrefix (List.cons_prefix_cons.2 ⟨rfl, hr⟩)) (h op hop)

/-- Operators, and single characters where no operator stands. -/
theorem mark_of_isPrefix (hr : rest' <+: rest)
    (h : (match operators.find? (startsWith · (c :: (s ++ rest))) with
      | some op => (Kind.punct, op.length - 1)
      | none => (.punct, 0)).2 = s.length) :
    (match operators.find? (startsWith · (c :: (s ++ rest'))) with
      | some op => (Kind.punct, op.length - 1)
      | none => (.punct, 0)) =
    match operators.find? (startsWith · (c :: (s ++ rest))) with
      | some op => (Kind.punct, op.length - 1)
      | none => (.punct, 0) := by
  cases hop : operators.find? (startsWith · (c :: (s ++ rest))) with
  | none => rw [operator_eq_none_of_isPrefix ((List.prefix_append_right_inj _).2 hr) hop]
  | some op =>
      rw [hop] at h
      have hlength : op.length - 1 = s.length := h
      rw [operator_of_isPrefix hr hop (by omega)]

end DocLint.Token
