import DocLint.Proofs.StableSort
import DocLint.Tree.Disk
import Mathlib.Data.List.Nodup
import Mathlib.Data.List.Perm.Basic

/-!
# Spellings of a path

A path can be spelled in several ways: repeated slashes, a slash at the end and a `.` that is not at
the front do not count. Paths are compared, and found on a disk, by what does count.

* `orderKey_eq_iff`: paths that tie in the order of paths are the same path.
* `components_distinct`: the distinct paths of a list depend on the paths in it alone, up to their
  spelling.
* `read_eq_of_same`: two spellings of a path that both lead to a file lead to the same file.
-/

namespace DocLint

theorem Text.orderKey_injective : Function.Injective Text.orderKey :=
  List.map_injective_iff.2 fun _ _ h => Char.toNat_inj.1 h

theorem Component.orderKey_injective : Function.Injective Component.orderKey := by
  intro c c' h
  cases c <;> cases c' <;> simp_all [Component.orderKey, Text.orderKey_injective.eq_iff]

namespace Path

/-! ## The order of paths -/

theorem orderKey_eq_iff {p q : Text} : orderKey p = orderKey q ↔ components p = components q :=
  (List.map_injective_iff.2 Component.orderKey_injective).eq_iff

theorem same_iff {p q : Text} : same p q = true ↔ components p = components q := beq_iff_eq

/-- Compares paths by their components. -/
def order (p q : Text) : Ordering := compare (orderKey p) (orderKey q)

instance : Std.TransCmp order :=
  inferInstanceAs (Std.TransCmp (compareOn orderKey))

theorem order_eq_iff {p q : Text} : order p q = .eq ↔ components p = components q := by
  rw [← orderKey_eq_iff]
  exact Std.compare_eq_iff_eq

theorem order_eq_lt {p q : Text} (hle : (order p q).isLE = true) (hne : same p q = false) :
    order p q = .lt := by
  cases h : order p q with
  | lt => rfl
  | eq =>
      rw [same_iff.2 (order_eq_iff.1 h)] at hne
      cases hne
  | gt =>
      rw [h] at hle
      cases hle

/-! ## Distinct paths -/

theorem mem_of_mem_firstsOfRuns {p x : Text} {ps : List Text} (h : x ∈ firstsOfRuns p ps) :
    x ∈ p :: ps := by
  induction ps generalizing p with
  | nil => exact h
  | cons q ps ih =>
      unfold firstsOfRuns at h
      split at h
      · rcases List.mem_cons.1 (ih h) with rfl | hx
        · exact List.mem_cons_self
        · exact List.mem_cons_of_mem _ (List.mem_cons_of_mem _ hx)
      · rcases List.mem_cons.1 h with rfl | hx
        · exact List.mem_cons_self
        · exact List.mem_cons_of_mem _ (ih hx)

theorem exists_mem_firstsOfRuns {p x : Text} {ps : List Text} (h : x ∈ p :: ps) :
    ∃ y ∈ firstsOfRuns p ps, components y = components x := by
  induction ps generalizing p x with
  | nil => exact ⟨p, List.mem_singleton_self p, by rw [List.mem_singleton.1 h]⟩
  | cons q ps ih =>
      unfold firstsOfRuns
      split
      · rename_i hsame
        rcases List.mem_cons.1 h with rfl | hx
        · exact ih List.mem_cons_self
        · rcases List.mem_cons.1 hx with rfl | hx
          · -- the spelling before it stands for it
            obtain ⟨y, hy, heq⟩ := ih List.mem_cons_self
            exact ⟨y, hy, heq.trans (same_iff.1 hsame)⟩
          · exact ih (List.mem_cons_of_mem _ hx)
      · rcases List.mem_cons.1 h with rfl | hx
        · exact ⟨x, List.mem_cons_self, rfl⟩
        · obtain ⟨y, hy, heq⟩ := ih hx
          exact ⟨y, List.mem_cons_of_mem _ hy, heq⟩

theorem pairwise_firstsOfRuns {p : Text} {ps : List Text}
    (h : (p :: ps).Pairwise fun p q => (order p q).isLE = true) :
    (firstsOfRuns p ps).Pairwise fun p q => order p q = .lt := by
  induction ps generalizing p with
  | nil => exact List.pairwise_singleton _ _
  | cons q ps ih =>
      have htail := List.Pairwise.of_cons h
      unfold firstsOfRuns
      split
      · exact ih (h.sublist (List.Sublist.cons_cons p (List.sublist_cons_self q ps)))
      · rename_i hsame
        have hlt := order_eq_lt (List.rel_of_pairwise_cons h List.mem_cons_self)
          (Bool.eq_false_iff.2 hsame)
        refine List.pairwise_cons.2 ⟨?_, ih htail⟩
        intro x hx
        exact Std.TransCmp.lt_of_lt_of_isLE hlt
          (Sorting.isLE_of_mem htail (mem_of_mem_firstsOfRuns hx))

/-- Distinct paths are the first spellings of the runs of the sorted paths. -/
theorem distinct_cases (ps : List Text) :
    (ps = [] ∧ distinct ps = []) ∨ ∃ q qs, distinct ps = firstsOfRuns q qs ∧
      (q :: qs).Perm ps ∧ (q :: qs).Pairwise fun p q => (order p q).isLE = true := by
  have hperm := List.mergeSort_perm ps fun p q => (order p q).isLE
  have hsorted : (ps.mergeSort fun p q => (order p q).isLE).Pairwise
      fun p q => (order p q).isLE = true := Sorting.pairwise_isLE ps
  unfold distinct
  split
  · rename_i hs
    rw [show ps.mergeSort (fun p q => (order p q).isLE) = [] from hs] at hperm
    exact Or.inl ⟨hperm.nil_eq.symm, rfl⟩
  · rename_i q qs hs
    rw [show ps.mergeSort (fun p q => (order p q).isLE) = q :: qs from hs] at hperm hsorted
    exact Or.inr ⟨q, qs, rfl, hperm, hsorted⟩

theorem pairwise_distinct (ps : List Text) :
    (distinct ps).Pairwise fun p q => order p q = .lt := by
  rcases distinct_cases ps with ⟨_, h⟩ | ⟨q, qs, h, _, hsorted⟩
  · rw [h]
    exact List.Pairwise.nil
  · rw [h]
    exact pairwise_firstsOfRuns hsorted

theorem mem_of_mem_distinct {x : Text} {ps : List Text} (h : x ∈ distinct ps) : x ∈ ps := by
  rcases distinct_cases ps with ⟨_, heq⟩ | ⟨q, qs, heq, hperm, _⟩
  · rw [heq] at h
    cases h
  · rw [heq] at h
    exact hperm.mem_iff.1 (mem_of_mem_firstsOfRuns h)

theorem exists_mem_distinct {x : Text} {ps : List Text} (h : x ∈ ps) :
    ∃ y ∈ distinct ps, components y = components x := by
  rcases distinct_cases ps with ⟨rfl, _⟩ | ⟨q, qs, heq, hperm, _⟩
  · cases h
  · rw [heq]
    exact exists_mem_firstsOfRuns (hperm.mem_iff.2 h)

theorem nodup_components_distinct (ps : List Text) : ((distinct ps).map components).Nodup := by
  refine List.pairwise_map.2 ((pairwise_distinct ps).imp ?_)
  intro p q hlt heq
  rw [order_eq_iff.2 heq] at hlt
  cases hlt

theorem components_subset_distinct {ps qs : List Text} (h : ∀ x ∈ ps, x ∈ qs) :
    ∀ c ∈ (distinct ps).map components, c ∈ (distinct qs).map components := by
  intro c hc
  obtain ⟨x, hx, rfl⟩ := List.mem_map.1 hc
  obtain ⟨y, hy, heq⟩ := exists_mem_distinct (h x (mem_of_mem_distinct hx))
  exact List.mem_map.2 ⟨y, hy, heq⟩

/-- Lists with the same members have the same distinct paths, up to their spelling. -/
theorem components_distinct {ps qs : List Text} (h : ∀ x, x ∈ ps ↔ x ∈ qs) :
    (distinct ps).map components = (distinct qs).map components := by
  have hsorted : ∀ ps : List Text, ((distinct ps).map components).Pairwise fun c c' =>
      compare (c.map Component.orderKey) (c'.map Component.orderKey) = .lt :=
    fun ps => List.pairwise_map.2 (pairwise_distinct ps)
  have hperm : ((distinct ps).map components).Perm ((distinct qs).map components) := by
    refine (List.perm_ext_iff_of_nodup (nodup_components_distinct ps)
      (nodup_components_distinct qs)).2 fun c => ⟨?_, ?_⟩
    · exact components_subset_distinct (fun x hx => (h x).1 hx) c
    · exact components_subset_distinct (fun x hx => (h x).2 hx) c
  refine hperm.eq_of_pairwise ?_ (hsorted ps) (hsorted qs)
  intro c c' _ _ hlt hgt
  have hself := Std.TransCmp.lt_trans hlt hgt
  rw [Std.compare_self] at hself
  cases hself

/-! ## The parts of a path -/

/-- What is followed of a component. -/
def part? : Component → Option Text
  | .root | .current => none
  | .parent => some ['.', '.']
  | .name t => some t

/-- Of a part between slashes its component keeps what is followed. -/
theorem part?_component? (atFront : Bool) (part : Text) :
    (component? atFront part).bind part? = if isIdle part then none else some part := by
  unfold component? isIdle
  by_cases hempty : part.isEmpty = true
  · simp [hempty]
  · by_cases hdot : part = ['.']
    · cases atFront <;> simp [hdot, part?]
    · by_cases hdots : part = ['.', '.']
      · simp [hdots, part?]
      · simp [hempty, hdot, hdots, part?]

theorem filterMap_part?_component? (parts : List Text) :
    (parts.filterMap (component? false)).filterMap part? =
      parts.filter fun part => !isIdle part := by
  rw [List.filterMap_filterMap]
  induction parts with
  | nil => rfl
  | cons part parts ih =>
      rw [List.filterMap_cons, part?_component?, List.filter_cons, ih]
      cases isIdle part <;> rfl

/-- The components of a path keep the parts that are followed. -/
theorem filterMap_part?_components (p : Text) :
    (components p).filterMap part? = (Text.splitOn '/' p).filter fun part => !isIdle part := by
  unfold components
  split
  · rename_i hsplit
    exact absurd hsplit (Text.splitOn_ne_nil '/' p)
  · rename_i first rest hsplit
    rw [hsplit, List.filterMap_append, filterMap_part?_component?, List.filter_cons]
    split
    · -- an absolute path has nothing before its first slash
      rename_i habs
      obtain ⟨t, rfl⟩ : ∃ t, p = '/' :: t := by
        cases p with
        | nil => cases habs
        | cons c t => exact ⟨t, by simpa [isAbsolute] using habs⟩
      obtain ⟨rfl, _⟩ : [] = first ∧ Text.splitOn '/' t = rest := by
        simpa [Text.splitOn] using hsplit
      rfl
    · have hfirst := part?_component? true first
      cases hc : component? true first with
      | none =>
          rw [hc] at hfirst
          cases hidle : isIdle first <;> simp_all
      | some c =>
          rw [hc] at hfirst
          cases hidle : isIdle first <;> simp_all

theorem component?_ne_root (atFront : Bool) (part : Text) :
    component? atFront part ≠ some .root := by
  unfold component?
  split_ifs <;> simp

theorem isAbsolute_iff {p : Text} : isAbsolute p = true ↔ .root ∈ components p := by
  have hrest : ∀ parts : List Text, Component.root ∉ parts.filterMap (component? false) := by
    intro parts h
    obtain ⟨part, _, hpart⟩ := List.mem_filterMap.1 h
    exact component?_ne_root false part hpart
  unfold components
  split
  · rename_i hsplit
    exact absurd hsplit (Text.splitOn_ne_nil '/' p)
  · rename_i first rest _
    cases isAbsolute p with
    | true => simp
    | false => simp [hrest, component?_ne_root]

end Path

namespace Disk

/-- A part that does not count leads nowhere else. -/
theorem follow_idle {t : Tree} {here there : List Text} {part : Text}
    (hidle : Path.isIdle part = true) (h : follow t here part = .ok there) : there = here := by
  unfold follow at h
  split at h
  · cases h
  · cases h
  · rw [if_pos hidle] at h
    cases h
    rfl

theorem foldlM_follow {t : Tree} {here there : List Text} {parts : List Text}
    (h : parts.foldlM (follow t) here = .ok there) :
    (parts.filter fun part => !Path.isIdle part).foldlM (follow t) here = .ok there := by
  induction parts generalizing here with
  | nil => exact h
  | cons part parts ih =>
      rw [List.foldlM_cons] at h
      cases hnext : follow t here part with
      | error e =>
          rw [hnext] at h
          cases h
      | ok next =>
          rw [hnext] at h
          cases hidle : Path.isIdle part with
          | true =>
              rw [List.filter_cons_of_neg (by simp [hidle])]
              rw [follow_idle hidle hnext] at h
              exact ih h
          | false =>
              rw [List.filter_cons_of_pos (by simp [hidle]), List.foldlM_cons, hnext]
              exact ih h

/-- A path that leads somewhere leads where its components do. -/
theorem foldlM_of_resolve {d : Disk} {p : Text} {there : List Text}
    (h : d.resolve p = .ok there) :
    ((Path.components p).filterMap Path.part?).foldlM (follow d.tree)
      (if .root ∈ Path.components p then [] else d.cwd) = .ok there := by
  unfold resolve at h
  split at h
  · cases h
  split at h
  · cases h
  split at h
  · cases h
  rw [Path.filterMap_part?_components]
  simp only [← Path.isAbsolute_iff]
  exact foldlM_follow h

theorem resolve_eq_of_same {d : Disk} {p q : Text} {there there' : List Text}
    (hsame : Path.components p = Path.components q) (hp : d.resolve p = .ok there)
    (hq : d.resolve q = .ok there') : there = there' := by
  have h := foldlM_of_resolve hp
  rw [hsame, foldlM_of_resolve hq] at h
  exact (Except.ok.inj h).symm

theorem exists_of_find {d : Disk} {p : Text} {t : Tree} (h : d.find p = .ok t) :
    ∃ there, d.resolve p = .ok there ∧ d.tree.get? there = some t := by
  unfold find at h
  cases hp : d.resolve p with
  | error e =>
      rw [hp] at h
      cases h
  | ok there =>
      refine ⟨there, rfl, ?_⟩
      rw [hp] at h
      cases ht : d.tree.get? there with
      | none => simp [bind, Except.bind, ht, throw, throwThe, MonadExceptOf.throw] at h
      | some t' =>
          simp only [bind, Except.bind, ht, pure, Except.pure, Except.ok.injEq] at h
          rw [h]

theorem find_of_read {d : Disk} {p : Text} {b : Bytes} (h : d.read p = .ok b) :
    d.find p = .ok (.file b) := by
  unfold read at h
  cases ht : d.find p with
  | error e =>
      rw [ht] at h
      cases h
  | ok t =>
      rw [ht] at h
      cases t with
      | file content =>
          cases h
          rfl
      | dir es => cases h

/-- Two spellings of a path that can be read give the same content. -/
theorem read_eq_of_same {d : Disk} {p q : Text} {b b' : Bytes}
    (hsame : Path.components p = Path.components q) (hp : d.read p = .ok b)
    (hq : d.read q = .ok b') : b = b' := by
  obtain ⟨there, hthere, hb⟩ := exists_of_find (find_of_read hp)
  obtain ⟨there', hthere', hb'⟩ := exists_of_find (find_of_read hq)
  rw [resolve_eq_of_same hsame hthere hthere', hb'] at hb
  cases hb
  rfl

end Disk

end DocLint
