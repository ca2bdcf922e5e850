import DocLint.Outline.Recognize

/-!
# Searches through the tokens

What the searches of the recognisers find, and what they pass over on the way.

* `nextSignificant?_eq_some`, `bodyFrom_opening`: the first token of a sort from an index on.
* `le_matchingClose`, `le_statementEnd`: a group or a statement does not end before it starts.
* `statementStart_spec`: the walk back over the modifiers of a statement.
* `mem_of_mem_constantNames`, `mem_of_mem_propertyNames`: the names of a statement are tokens of it.
-/

namespace DocLint

namespace Outline

/-! ## From an index on -/

theorem getElem?_of_mem_zipIdx_drop {ts : List Token} {start j : Nat} {t : Token}
    (h : (t, j) ∈ (ts.drop start).zipIdx start) : ts[j]? = some t ∧ start ≤ j := by
  obtain ⟨k, hk⟩ := List.mem_iff_getElem?.1 h
  rw [List.getElem?_zipIdx, Option.map_eq_some_iff] at hk
  obtain ⟨u, hu, heq⟩ := hk
  cases heq
  rw [List.getElem?_drop] at hu
  exact ⟨hu, Nat.le_add_right _ _⟩

/-- The first token that passes a test, and that no token before it passes. -/
theorem find?_zipIdx_drop {ts : List Token} {start j : Nat} {t : Token} {p : Token → Bool}
    (h : ((ts.drop start).zipIdx start).find? (p ·.1) = some (t, j)) :
    ts[j]? = some t ∧ start ≤ j ∧ p t = true ∧
      ∀ k u, start ≤ k → k < j → ts[k]? = some u → p u = false := by
  obtain ⟨hp, k, hk, heq, hbefore⟩ := List.find?_eq_some_iff_getElem.1 h
  simp only [List.getElem_zipIdx, List.getElem_drop, Prod.mk.injEq] at heq
  obtain ⟨rfl, rfl⟩ := heq
  simp only [List.length_zipIdx, List.length_drop] at hk
  refine ⟨List.getElem?_eq_getElem _, by omega, hp, ?_⟩
  intro m u hm hlt hu
  obtain ⟨hmlen, rfl⟩ := List.getElem?_eq_some_iff.1 hu
  have := hbefore (m - start) (by omega)
  simpa [List.getElem_zipIdx, List.getElem_drop, show start + (m - start) = m by omega] using this

theorem nextSignificant?_eq_some {ts : List Token} {start n : Nat} {t : Token}
    (h : nextSignificant? ts start = some (t, n)) :
    ts[n]? = some t ∧ start ≤ n ∧
      ∀ k u, start ≤ k → k < n → ts[k]? = some u → u.isSignificant = false := by
  obtain ⟨hget, hle, _, hbefore⟩ := find?_zipIdx_drop h
  exact ⟨hget, hle, hbefore⟩

/-- The body that follows a signature opens with its first brace. -/
theorem bodyFrom_opening {ts : List Token} {start o : Nat}
    (h : (bodyFrom ts start).opening = some o) :
    start ≤ o ∧ (∃ b, ts[o]? = some b ∧ b.kind = .openBrace) ∧
      (bodyFrom ts start).last = matchingClose ts o ∧
      ∀ k u, start ≤ k → k < o → ts[k]? = some u → u.kind ≠ .openBrace := by
  unfold bodyFrom at h ⊢
  cases hf : ((ts.drop start).zipIdx start).find? fun p =>
      p.1.kind == .openBrace || p.1.kind == .semicolon with
  | none => rw [hf] at h; cases h
  | some p =>
      obtain ⟨b, j⟩ := p
      rw [hf] at h
      simp only at h ⊢
      split at h
      · rename_i hb
        cases h
        rw [if_pos hb]
        obtain ⟨hget, hle, _, hbefore⟩ :=
          find?_zipIdx_drop (p := fun u => u.kind == .openBrace || u.kind == .semicolon) hf
        refine ⟨hle, ⟨b, hget, hb⟩, rfl, ?_⟩
        intro k u hk hlt hu heq
        have := hbefore k u hk hlt hu
        simp [heq] at this
      · cases h

/-! ## Groups and statements -/

theorem le_closeFrom {pair : Kind × Kind} {depth j m : Nat} {ts : List Token}
    (h : closeFrom pair depth j ts = some m) : j ≤ m := by
  induction ts generalizing depth j with
  | nil => cases h
  | cons t ts ih =>
      rw [closeFrom] at h
      split at h
      · have := ih h; omega
      · split at h
        · split at h
          · cases h; exact Nat.le_refl _
          · have := ih h; omega
        · have := ih h; omega

/-- A group does not end before it opens. -/
theorem le_matchingClose {ts : List Token} {opening : Nat} (h : opening < ts.length) :
    opening ≤ matchingClose ts opening := by
  unfold matchingClose
  rw [List.drop_eq_getElem_cons h]
  simp only
  cases hc : closeFrom (pairOf ts[opening].kind) 0 opening
      (ts[opening] :: ts.drop (opening + 1)) with
  | none => rw [Option.getD_none, lastIndex]; omega
  | some m => exact le_closeFrom hc

theorem le_statementEndFrom {start depth j m : Nat} {ts : List Token} (hj : start ≤ j)
    (h : statementEndFrom start depth j ts = some m) : start ≤ m := by
  induction ts generalizing depth j with
  | nil => cases h
  | cons t ts ih =>
      rw [statementEndFrom] at h
      split at h
      · exact ih (by omega) h
      · split at h
        · split at h
          · cases h; omega
          · split at h
            · cases h; exact hj
            · exact ih (by omega) h
        · split at h
          · cases h; exact hj
          · exact ih (by omega) h

/-- A statement does not end before it starts, or it is empty behind the last token. -/
theorem le_statementEnd (ts : List Token) (start : Nat) :
    start ≤ statementEnd ts start ∨ statementEnd ts start = lastIndex ts := by
  unfold statementEnd
  cases h : statementEndFrom start 0 start (ts.drop start) with
  | none => exact Or.inr rfl
  | some m => exact Or.inl (le_statementEndFrom (Nat.le_refl _) h)

/-! ## Names -/

theorem functionName?_eq_some {ts : List Token} {i n : Nat} {name : Token}
    (h : functionName? ts i = some (name, n)) : i < n := by
  unfold functionName? at h
  simp only [Option.bind_eq_bind, Option.bind_eq_some_iff] at h
  obtain ⟨⟨a, k⟩, hnext, h⟩ := h
  have hk := (nextSignificant?_eq_some hnext).2.1
  split at h
  · obtain ⟨⟨b, m⟩, hskip, h⟩ := Option.bind_eq_some_iff.1 h
    have hm := (nextSignificant?_eq_some hskip).2.1
    split at h
    · cases h
      simp only at hm
      omega
    · cases h
  · obtain ⟨⟨b, m⟩, hsame, h⟩ := Option.bind_eq_some_iff.1 h
    cases hsame
    split at h
    · cases h
      omega
    · cases h

theorem le_firstVariable? {ts : List (Token × Nat)} {start v : Nat}
    (hts : ∀ p ∈ ts, start ≤ p.2) (h : firstVariable? ts = some v) : start ≤ v := by
  induction ts with
  | nil => cases h
  | cons p ts ih =>
      obtain ⟨t, j⟩ := p
      have hrest : ∀ p ∈ ts, start ≤ p.2 := fun p hp => hts p (List.mem_cons_of_mem _ hp)
      rw [firstVariable?] at h
      split at h
      · exact ih hrest h
      · split at h
        · cases h; exact hts (t, v) List.mem_cons_self
        · split at h
          · cases h
          · exact ih hrest h

/-- Only modifiers and tokens without significance stand from index `j` up to index `i`. -/
def OnlyModifiers (ts : List Token) (j i : Nat) : Prop :=
  ∀ k u, j ≤ k → k < i → ts[k]? = some u → u.isSignificant = false ∨ u.isModifier = true

theorem OnlyModifiers.mono {ts : List Token} {i j j' : Nat} (h : OnlyModifiers ts j i)
    (hj : j ≤ j') : OnlyModifiers ts j' i :=
  fun k u hk => h k u (Nat.le_trans hj hk)

theorem OnlyModifiers.cons {ts : List Token} {i j : Nat} {t : Token}
    (h : OnlyModifiers ts (j + 1) i) (ht : ts[j]? = some t)
    (hok : t.isSignificant = false ∨ t.isModifier = true) : OnlyModifiers ts j i := by
  intro k u hk hlt hu
  rcases Nat.eq_or_lt_of_le hk with rfl | hk
  · rw [ht, Option.some.injEq] at hu
    rw [← hu]
    exact hok
  · exact h k u hk hlt hu

/-- The walk back from index `j`: everything from there on has been passed over. -/
theorem modifiersBack_spec {ts : List Token} {i : Nat} (hi : i ≤ ts.length) :
    ∀ j start, j ≤ start → start ≤ i → OnlyModifiers ts j i →
      modifiersBack start j (ts.take j).reverse ≤ i ∧
        OnlyModifiers ts (modifiersBack start j (ts.take j).reverse) i := by
  intro j
  induction j with
  | zero =>
      intro start hj hs hpast
      exact ⟨hs, hpast.mono hj⟩
  | succ j ih =>
      intro start hj hs hpast
      have ht : ts[j]? = some ts[j] := List.getElem?_eq_getElem (by omega)
      rw [List.take_add_one, ht, Option.toList_some, List.reverse_append, List.reverse_singleton,
        List.singleton_append, modifiersBack, Nat.add_sub_cancel]
      split
      · rename_i hsig
        exact ih start (by omega) hs (hpast.cons ht (Or.inl (by simpa using hsig)))
      · split
        · rename_i hmod
          exact ih j (Nat.le_refl _) (by omega) (hpast.cons ht (Or.inr hmod))
        · exact ⟨hs, hpast.mono hj⟩

theorem statementStart_spec {ts : List Token} {i : Nat} (hi : i ≤ ts.length) :
    statementStart ts i ≤ i ∧ OnlyModifiers ts (statementStart ts i) i :=
  modifiersBack_spec hi i i (Nat.le_refl _) (Nat.le_refl _) fun k u hk hlt => absurd hk (by omega)

theorem mem_of_mem_constantNames {depth : Nat} {item : ConstantItem} {ts : List (Token × Nat)}
    {p : Token × Nat} (h : p ∈ constantNames depth item ts) :
    p ∈ ts ∨ ∃ q, item = .naming (some q) ∧ p = q := by
  induction ts generalizing depth item with
  | nil => cases h
  | cons q ts ih =>
      obtain ⟨t, j⟩ := q
      -- an item goes on as it is, is left, or takes the token itself as its candidate
      have keep : ∀ {d : Nat}, p ∈ constantNames d item ts →
          p ∈ (t, j) :: ts ∨ ∃ q, item = .naming (some q) ∧ p = q := fun h =>
        (ih h).imp_left (List.mem_cons_of_mem _)
      rw [constantNames.eq_def] at h
      simp only at h
      split at h
      · exact keep h
      split at h
      · exact keep h
      split at h
      · rcases ih h with h | ⟨q, hq, _⟩
        · exact Or.inl (List.mem_cons_of_mem _ h)
        · cases hq
      split at h
      · exact keep h
      · rename_i candidate
        split at h
        · rcases List.mem_append.1 h with h | h
          · exact Or.inr ⟨p, by rw [Option.mem_toList.1 h], rfl⟩
          · rcases ih h with h | ⟨q, hq, _⟩
            · exact Or.inl (List.mem_cons_of_mem _ h)
            · cases hq
        · split at h
          · rcases ih h with h | ⟨q, hq, rfl⟩
            · exact Or.inl (List.mem_cons_of_mem _ h)
            · cases hq
              exact Or.inl List.mem_cons_self
          · exact keep h

theorem mem_of_mem_propertyNames {depth : Nat} {wanted : Bool} {ts : List (Token × Nat)}
    {p : Token × Nat} (h : p ∈ propertyNames depth wanted ts) : p ∈ ts := by
  induction ts generalizing depth wanted with
  | nil => cases h
  | cons q ts ih =>
      obtain ⟨t, j⟩ := q
      rw [propertyNames] at h
      split at h
      · exact List.mem_cons_of_mem _ (ih h)
      split at h
      · exact List.mem_cons_of_mem _ (ih h)
      split at h
      · exact List.mem_cons_of_mem _ (ih h)
      split at h
      · rcases List.mem_cons.1 h with rfl | h
        · exact List.mem_cons_self
        · exact List.mem_cons_of_mem _ (ih h)
      · exact List.mem_cons_of_mem _ (ih h)

theorem getElem?_of_mem_slice {ts : List Token} {first last j : Nat} {t : Token}
    (h : (t, j) ∈ slice ts first last) : ts[j]? = some t ∧ first ≤ j :=
  getElem?_of_mem_zipIdx_drop (List.mem_of_mem_take h)

end Outline

end DocLint
