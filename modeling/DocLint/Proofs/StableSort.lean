import Mathlib.Data.List.Pairwise

/-!
# Stable sorting

Sorting by a comparison leaves elements that tie in the order in which they stood. A sorted list is
determined by what it has of each class of ties, so lists that agree there are sorted alike.

* `filter_mergeSort`: sorting leaves each class of ties as it is.
* `eq_of_filter_eq`: sorted lists with the same classes of ties are equal.
* `mergeSort_flatten_perm`: blocks that share no tie may be concatenated in any order.
-/

namespace DocLint

namespace Sorting

variable {α : Type} {cmp : α → α → Ordering}

/-- The second element ties with the first. -/
def tiesWith (cmp : α → α → Ordering) (a b : α) : Bool := cmp a b == .eq

theorem tiesWith_iff {a b : α} : tiesWith cmp a b = true ↔ cmp a b = .eq := beq_iff_eq

variable [Std.TransCmp cmp]

theorem tiesWith_self (a : α) : tiesWith cmp a a = true :=
  tiesWith_iff.2 Std.ReflCmp.compare_self

theorem eq_of_tiesWith {a b c : α} (hb : tiesWith cmp a b = true) (hc : tiesWith cmp a c = true) :
    cmp b c = .eq :=
  Std.TransCmp.eq_trans (Std.OrientedCmp.eq_comm.1 (tiesWith_iff.1 hb)) (tiesWith_iff.1 hc)

/-! ## Sorted lists -/

theorem isLE_total (a b : α) : ((cmp a b).isLE || (cmp b a).isLE) = true := by
  have h : cmp b a = (cmp a b).swap := Std.OrientedCmp.eq_swap
  rw [h]
  cases cmp a b <;> rfl

theorem pairwise_isLE (l : List α) :
    (l.mergeSort fun a b => (cmp a b).isLE).Pairwise fun a b => (cmp a b).isLE = true :=
  List.pairwise_mergeSort (fun _ _ _ => Std.TransCmp.isLE_trans) isLE_total l

/-- A class of ties stands sorted in the list, so the sorted list keeps it as it is. -/
theorem filter_mergeSort (l : List α) (a : α) :
    (l.mergeSort fun a b => (cmp a b).isLE).filter (tiesWith cmp a) =
      l.filter (tiesWith cmp a) := by
  have hsorted : (l.filter (tiesWith cmp a)).Pairwise fun b c => (cmp b c).isLE = true := by
    apply List.pairwise_of_forall_mem_list
    intro b hb c hc
    rw [eq_of_tiesWith (List.mem_filter.1 hb).2 (List.mem_filter.1 hc).2]
    rfl
  have hsub := List.sublist_mergeSort (fun _ _ _ => Std.TransCmp.isLE_trans) isLE_total hsorted
    List.filter_sublist
  have hclass := hsub.filter (tiesWith cmp a)
  simp only [List.filter_filter, Bool.and_self] at hclass
  refine (hclass.eq_of_length ?_).symm
  exact ((List.mergeSort_perm l _).filter (tiesWith cmp a)).length_eq.symm

theorem mem_iff_of_filter_eq {l l' : List α}
    (h : ∀ a, l.filter (tiesWith cmp a) = l'.filter (tiesWith cmp a)) (a : α) :
    a ∈ l ↔ a ∈ l' := by
  have hmem : ∀ l : List α, a ∈ l ↔ a ∈ l.filter (tiesWith cmp a) := by
    intro l
    rw [List.mem_filter]
    exact ⟨fun ha => ⟨ha, tiesWith_self a⟩, fun ha => ha.1⟩
  rw [hmem l, h a, ← hmem l']

/-- No element of a sorted list is before its head. -/
theorem isLE_of_mem {a b : α} {l : List α}
    (hl : (a :: l).Pairwise fun a b => (cmp a b).isLE = true) (hb : b ∈ a :: l) :
    (cmp a b).isLE = true := by
  rcases List.mem_cons.1 hb with rfl | hb
  · have hself : cmp b b = .eq := Std.ReflCmp.compare_self
    rw [hself]
    rfl
  · exact List.rel_of_pairwise_cons hl hb

/-- Sorted lists with the same classes of ties are equal. -/
theorem eq_of_filter_eq {l l' : List α} (hl : l.Pairwise fun a b => (cmp a b).isLE = true)
    (hl' : l'.Pairwise fun a b => (cmp a b).isLE = true)
    (h : ∀ a, l.filter (tiesWith cmp a) = l'.filter (tiesWith cmp a)) : l = l' := by
  induction l generalizing l' with
  | nil =>
      cases l' with
      | nil => rfl
      | cons b l' => cases (mem_iff_of_filter_eq h b).2 List.mem_cons_self
  | cons a l ih =>
      cases l' with
      | nil => cases (mem_iff_of_filter_eq h a).1 List.mem_cons_self
      | cons b l' =>
          -- each head stands in the other list, so the two tie
          have hab := isLE_of_mem hl ((mem_iff_of_filter_eq h b).2 List.mem_cons_self)
          have hba := isLE_of_mem hl' ((mem_iff_of_filter_eq h a).1 List.mem_cons_self)
          have htie : tiesWith cmp a b = true := by
            have hswap : cmp b a = (cmp a b).swap := Std.OrientedCmp.eq_swap
            rw [hswap] at hba
            rw [tiesWith_iff]
            cases hcmp : cmp a b <;> simp_all
          have hhead := h a
          rw [List.filter_cons_of_pos (tiesWith_self a), List.filter_cons_of_pos htie] at hhead
          obtain ⟨rfl, _⟩ := List.cons.inj hhead
          rw [ih (List.Pairwise.of_cons hl) (List.Pairwise.of_cons hl')]
          intro c
          have hc := h c
          by_cases hca : tiesWith cmp c a = true
          · rw [List.filter_cons_of_pos hca, List.filter_cons_of_pos hca] at hc
            exact (List.cons.inj hc).2
          · rwa [List.filter_cons_of_neg hca, List.filter_cons_of_neg hca] at hc

theorem mergeSort_eq_of_filter_eq {l l' : List α}
    (h : ∀ a, l.filter (tiesWith cmp a) = l'.filter (tiesWith cmp a)) :
    (l.mergeSort fun a b => (cmp a b).isLE) = l'.mergeSort fun a b => (cmp a b).isLE := by
  apply eq_of_filter_eq (pairwise_isLE l) (pairwise_isLE l')
  intro a
  rw [filter_mergeSort, filter_mergeSort, h a]

/-! ## Blocks -/

/-- No element of the one block ties with an element of the other. -/
def Apart (cmp : α → α → Ordering) (b b' : List α) : Prop :=
  ∀ x ∈ b, ∀ y ∈ b', cmp x y ≠ .eq

theorem Apart.symm {b b' : List α} (h : Apart cmp b b') : Apart cmp b' b :=
  fun x hx y hy heq => h y hy x hx (Std.OrientedCmp.eq_comm.1 heq)

/-- Of blocks that are apart, one at most has elements of a class of ties. -/
theorem Apart.filter_eq_nil {b b' : List α} (h : Apart cmp b b') (a : α) :
    b.filter (tiesWith cmp a) = [] ∨ b'.filter (tiesWith cmp a) = [] := by
  by_contra hboth
  rw [not_or] at hboth
  obtain ⟨x, hx⟩ := List.exists_mem_of_ne_nil _ hboth.1
  obtain ⟨y, hy⟩ := List.exists_mem_of_ne_nil _ hboth.2
  rw [List.mem_filter] at hx hy
  exact h x hx.1 y hy.1 (eq_of_tiesWith hx.2 hy.2)

/-- Of blocks that are apart, the ties of an element are those of its own block. -/
theorem filter_flatten_of_mem {blocks : List (List α)} (h : blocks.Pairwise (Apart cmp))
    {b : List α} (hb : b ∈ blocks) {a : α} (ha : a ∈ b) :
    blocks.flatten.filter (tiesWith cmp a) = b.filter (tiesWith cmp a) := by
  induction blocks with
  | nil => cases hb
  | cons c blocks ih =>
      rw [List.flatten_cons, List.filter_append]
      rcases List.mem_cons.1 hb with rfl | hb
      · have hrest : blocks.flatten.filter (tiesWith cmp a) = [] := by
          refine List.filter_eq_nil_iff.2 fun x hx htie => ?_
          obtain ⟨c, hc, hx⟩ := List.mem_flatten.1 hx
          exact List.rel_of_pairwise_cons h hc a ha x hx (tiesWith_iff.1 htie)
        rw [hrest, List.append_nil]
      · have hfirst : c.filter (tiesWith cmp a) = [] := by
          refine List.filter_eq_nil_iff.2 fun x hx htie => ?_
          exact (List.rel_of_pairwise_cons h hb).symm a ha x hx (tiesWith_iff.1 htie)
        rw [hfirst, List.nil_append]
        exact ih (List.Pairwise.of_cons h) hb

theorem filter_flatten_perm {blocks blocks' : List (List α)} (hperm : blocks.Perm blocks')
    (h : blocks.Pairwise (Apart cmp)) (a : α) :
    blocks.flatten.filter (tiesWith cmp a) = blocks'.flatten.filter (tiesWith cmp a) := by
  induction hperm with
  | nil => rfl
  | cons b _ ih =>
      rw [List.flatten_cons, List.flatten_cons, List.filter_append, List.filter_append,
        ih (List.Pairwise.of_cons h)]
  | swap b b' blocks =>
      have hapart : Apart cmp b' b := List.rel_of_pairwise_cons h List.mem_cons_self
      simp only [List.flatten_cons, List.filter_append]
      rcases hapart.filter_eq_nil a with hnil | hnil <;> simp [hnil]
  | trans hperm _ ih ih' =>
      have hmiddle := hperm.pairwise h fun hb => hb.symm
      rw [ih h, ih' hmiddle]

/-- Blocks that are apart give the same sorted list in whatever order they are concatenated. -/
theorem mergeSort_flatten_perm {blocks blocks' : List (List α)} (hperm : blocks'.Perm blocks)
    (h : blocks.Pairwise (Apart cmp)) :
    (blocks'.flatten.mergeSort fun a b => (cmp a b).isLE) =
      blocks.flatten.mergeSort fun a b => (cmp a b).isLE := by
  apply mergeSort_eq_of_filter_eq
  intro a
  exact (filter_flatten_perm hperm.symm h a).symm

end Sorting

end DocLint
