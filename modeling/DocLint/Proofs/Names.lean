import DocLint.Proofs.Spelling

/-!
# Names below a path

What a tree holds is reached by lists of names, and a path with names put behind it leads along
them.

* `isName`, `Tree.isProper`: the names that entries can have, and trees that have such names, each
  once in a directory.
* `Tree.induct`: induction over a tree and the entries of its directories.
* `Tree.mem_files_iff`, `Tree.nodup_files`: the files of a proper tree, each under its own names.
* `Path.joinAll`: names behind a path; `components_joinAll` is what it compares as and
  `resolve_joinAll` where it leads.
-/

namespace DocLint

open Text

/-- An entry of a directory can have this name. -/
def isName (n : Text) : Bool :=
  !Path.isIdle n && n != ['.', '.'] && !List.contains n '/' && !List.contains n '\x00' &&
    decide (utf8Length n ≤ Disk.nameLimit)

theorem isName_iff {n : Text} :
    isName n = true ↔ Path.isIdle n = false ∧ n ≠ ['.', '.'] ∧ '/' ∉ n ∧ '\x00' ∉ n ∧
      utf8Length n ≤ Disk.nameLimit := by
  simp [isName, and_assoc]

/-! ## Proper trees -/

namespace Tree

mutual

/-- Every entry has a name that it can have, and no two entries of a directory have the same. -/
def isProper : Tree → Bool
  | .file _ => true
  | .dir es => decide (es.map Prod.fst).Nodup && areProper es

/-- The entries are proper. -/
def areProper : List (Text × Tree) → Bool
  | [] => true
  | e :: es => isProperEntry e && areProper es

/-- The name and the tree of an entry are proper. -/
def isProperEntry : Text × Tree → Bool
  | (n, t) => isName n && isProper t

end

theorem isProper_dir_iff {es : List (Text × Tree)} :
    (Tree.dir es).isProper = true ↔
      (es.map Prod.fst).Nodup ∧ ∀ n t, (n, t) ∈ es → isName n = true ∧ t.isProper = true := by
  have hentries : ∀ es : List (Text × Tree),
      areProper es = true ↔ ∀ n t, (n, t) ∈ es → isName n = true ∧ t.isProper = true := by
    intro es
    induction es with
    | nil => simp [areProper]
    | cons e es ih =>
        obtain ⟨n, t⟩ := e
        simp only [areProper, isProperEntry, Bool.and_eq_true, ih, List.mem_cons, Prod.mk.injEq]
        constructor
        · rintro ⟨hhead, htail⟩ m u (⟨rfl, rfl⟩ | hmem)
          · exact hhead
          · exact htail m u hmem
        · intro h
          exact ⟨h n t (Or.inl ⟨rfl, rfl⟩), fun m u hmem => h m u (Or.inr hmem)⟩
  rw [isProper, Bool.and_eq_true, decide_eq_true_eq, hentries]

/-- A property of trees holds of all of them if a directory has it whenever its entries do. -/
theorem induct {motive : Tree → Prop} (file : ∀ b, motive (.file b))
    (dir : ∀ es, (∀ n t, (n, t) ∈ es → motive t) → motive (.dir es)) : ∀ t, motive t
  | .file b => file b
  | .dir es => dir es fun n t hmem =>
      have hsmaller : sizeOf t < sizeOf (Tree.dir es) := by
        have hlt := List.sizeOf_lt_of_mem hmem
        simp only [Prod.mk.sizeOf_spec, Tree.dir.sizeOf_spec] at hlt ⊢
        omega
      induct file dir t
termination_by t => sizeOf t
decreasing_by exact hsmaller

theorem get?_append (t : Tree) (ns ms : List Text) :
    t.get? (ns ++ ms) = (t.get? ns).bind (·.get? ms) := by
  induction ns generalizing t with
  | nil => rfl
  | cons n ns ih =>
      rw [List.cons_append, get?, get?]
      cases t.child? n with
      | none => rfl
      | some u => exact ih u

theorem get?_file_cons (b : Bytes) (n : Text) (ns : List Text) :
    (Tree.file b).get? (n :: ns) = none := rfl

theorem child?_eq_some {t u : Tree} {n : Text} (h : t.child? n = some u) : (n, u) ∈ t.entries := by
  obtain ⟨e, he, rfl⟩ := Option.map_eq_some_iff.1 h
  have hname : e.1 = n := by simpa using List.find?_some he
  rw [← hname]
  exact List.mem_of_find?_eq_some he

theorem forall_get?_file {b : Bytes} {motive : List Text → Prop} (here : motive []) :
    ∀ ns, ((Tree.file b).get? ns).isSome = true → motive ns := by
  intro ns hns
  cases ns with
  | nil => exact here
  | cons n ns => cases hns

/-- What holds of every way to an entry holds of every way into a directory. -/
theorem forall_get?_dir {es : List (Text × Tree)} {motive : List Text → Prop}
    (here : motive [])
    (below : ∀ e ∈ es, ∀ ns, (e.2.get? ns).isSome = true → motive (e.1 :: ns)) :
    ∀ ns, ((Tree.dir es).get? ns).isSome = true → motive ns := by
  intro ns hns
  cases ns with
  | nil => exact here
  | cons n ns =>
      obtain ⟨u, hu⟩ := Option.isSome_iff_exists.1 hns
      obtain ⟨t, ht, hrest⟩ := Option.bind_eq_some_iff.1 hu
      exact below (n, t) (child?_eq_some ht) ns (by rw [hrest]; rfl)

theorem child?_of_mem {es : List (Text × Tree)} (h : (es.map Prod.fst).Nodup) {n : Text} {t : Tree}
    (hmem : (n, t) ∈ es) : (Tree.dir es).child? n = some t := by
  unfold child? entries
  induction es with
  | nil => cases hmem
  | cons e es ih =>
      rw [List.map_cons, List.nodup_cons] at h
      rcases List.mem_cons.1 hmem with rfl | hmem
      · simp
      · have hne : e.1 ≠ n := fun heq => h.1 (heq ▸ List.mem_map_of_mem hmem)
        rw [List.find?_cons_of_neg (by simpa using hne)]
        exact ih h.2 hmem

/-- What names lead to in a proper tree is proper, and so are the names. -/
theorem isProper_of_get? {t u : Tree} {ns : List Text} (ht : t.isProper = true)
    (h : t.get? ns = some u) : u.isProper = true ∧ ∀ n ∈ ns, isName n = true := by
  induction ns generalizing t with
  | nil =>
      cases h
      exact ⟨ht, by simp⟩
  | cons n ns ih =>
      obtain ⟨c, hc, hrest⟩ := Option.bind_eq_some_iff.1 h
      cases t with
      | file b => cases hc
      | dir es =>
          obtain ⟨hname, hproper⟩ := (isProper_dir_iff.1 ht).2 n c (child?_eq_some hc)
          obtain ⟨hu, hnames⟩ := ih hproper hrest
          refine ⟨hu, fun m hm => ?_⟩
          rcases List.mem_cons.1 hm with rfl | hm
          · exact hname
          · exact hnames m hm

theorem mem_filesOfEntry {n m : Text} {t : Tree} {ns : List Text} {b : Bytes} :
    (m :: ns, b) ∈ filesOfEntry (n, t) ↔ m = n ∧ (ns, b) ∈ t.files := by
  simp only [filesOfEntry, List.mem_map, Prod.exists, Prod.mk.injEq, List.cons.injEq]
  constructor
  · rintro ⟨ms, c, hmem, ⟨rfl, rfl⟩, rfl⟩
    exact ⟨rfl, hmem⟩
  · rintro ⟨rfl, hmem⟩
    exact ⟨ns, b, hmem, ⟨rfl, rfl⟩, rfl⟩

theorem exists_cons_of_mem_filesOfEntry {n : Text} {t : Tree} {ns : List Text} {b : Bytes}
    (h : (ns, b) ∈ filesOfEntry (n, t)) : ∃ ms, ns = n :: ms := by
  obtain ⟨x, _, hx⟩ := List.mem_map.1 h
  cases hx
  exact ⟨x.1, rfl⟩

/-- The files of a proper tree are what its names lead to. -/
theorem mem_files_iff {t : Tree} (ht : t.isProper = true) {ns : List Text} {b : Bytes} :
    (ns, b) ∈ t.files ↔ t.get? ns = some (.file b) := by
  induction t using Tree.induct generalizing ns with
  | file c =>
      cases ns with
      | nil => simp [files, get?, eq_comm]
      | cons n ns => simp [files, get?_file_cons]
  | dir es ih =>
      obtain ⟨hnodup, hentries⟩ := isProper_dir_iff.1 ht
      rw [files, filesOfEntries_eq_flatMap, List.mem_flatMap]
      cases ns with
      | nil =>
          refine iff_of_false ?_ (by simp [get?])
          rintro ⟨⟨n, t⟩, _, hmem⟩
          obtain ⟨ms, heq⟩ := exists_cons_of_mem_filesOfEntry hmem
          cases heq
      | cons n ns =>
          rw [get?, Option.bind_eq_some_iff]
          constructor
          · rintro ⟨⟨m, t⟩, he, hmem⟩
            obtain ⟨rfl, hfile⟩ := mem_filesOfEntry.1 hmem
            exact ⟨t, child?_of_mem hnodup he, (ih n t he (hentries n t he).2).1 hfile⟩
          · rintro ⟨t, hchild, hget⟩
            have he := child?_eq_some hchild
            exact ⟨(n, t), he, mem_filesOfEntry.2 ⟨rfl, (ih n t he (hentries n t he).2).2 hget⟩⟩

/-- Each file of a proper tree is listed once. -/
theorem nodup_files {t : Tree} (ht : t.isProper = true) : (t.files.map Prod.fst).Nodup := by
  induction t using Tree.induct with
  | file b => simp [files]
  | dir es ih =>
      obtain ⟨hnodup, hentries⟩ := isProper_dir_iff.1 ht
      rw [files, filesOfEntries_eq_flatMap, List.map_flatMap, List.nodup_flatMap]
      constructor
      · rintro ⟨n, t⟩ he
        have hmap : (filesOfEntry (n, t)).map Prod.fst = (t.files.map Prod.fst).map (n :: ·) := by
          simp only [filesOfEntry, List.map_map, Function.comp_def]
        rw [hmap]
        exact (ih n t he (hentries n t he).2).map fun _ _ h => (List.cons.inj h).2
      · -- files of different entries differ in their first name
        refine (List.pairwise_map.1 hnodup).imp ?_
        rintro ⟨n, t⟩ ⟨m, u⟩ hne ns hns hms
        obtain ⟨x, hx, rfl⟩ := List.mem_map.1 hns
        obtain ⟨y, hy, hxy⟩ := List.mem_map.1 hms
        obtain ⟨_, hn⟩ := exists_cons_of_mem_filesOfEntry hx
        obtain ⟨_, hm⟩ := exists_cons_of_mem_filesOfEntry hy
        rw [hxy, hn] at hm
        exact hne (List.cons.inj hm).1

end Tree

/-! ## Names behind a path -/

theorem Text.splitOn_append (sep : Char) (s t : Text) :
    splitOn sep (s ++ sep :: t) = splitOn sep s ++ splitOn sep t := by
  induction s with
  | nil => simp [splitOn]
  | cons c s ih =>
      rw [List.cons_append, splitOn, splitOn, ih]
      split
      · rfl
      · cases hs : splitOn sep s with
        | nil => exact absurd hs (splitOn_ne_nil sep s)
        | cons p ps => rfl

theorem Text.splitOn_of_not_mem {sep : Char} {t : Text} (h : sep ∉ t) : splitOn sep t = [t] := by
  induction t with
  | nil => rfl
  | cons c t ih =>
      rw [List.mem_cons, not_or] at h
      rw [splitOn, if_neg (Ne.symm h.1), ih h.2]

namespace Path

variable {p n : Text}

/-- The path that leads along names below another one. -/
def joinAll (p : Text) (names : List Text) : Text := names.foldl join p

@[simp]
theorem joinAll_nil (p : Text) : joinAll p [] = p := rfl

theorem joinAll_cons (p n : Text) (names : List Text) :
    joinAll p (n :: names) = joinAll (join p n) names := rfl

theorem joinAll_append (p : Text) (names more : List Text) :
    joinAll p (names ++ more) = joinAll (joinAll p names) more := List.foldl_append

theorem isAbsolute_of_isName (hn : isName n = true) : isAbsolute n = false := by
  obtain ⟨_, _, hslash, _⟩ := isName_iff.1 hn
  cases n with
  | nil => rfl
  | cons c n =>
      rw [List.mem_cons, not_or] at hslash
      simpa [isAbsolute] using Ne.symm hslash.1

/-- A relative path stands behind another one, with one slash between them. -/
theorem join_eq {q : Text} (hp : p ≠ []) (hq : isAbsolute q = false) :
    ∃ s, join p q = s ++ '/' :: q ∧ (p = s ∨ p = s ++ ['/']) := by
  unfold join
  rw [if_neg (by simp [hq])]
  split
  · rename_i hlast
    have hempty : p.isEmpty = false := by simpa using hp
    rw [hempty, Bool.false_or, beq_iff_eq, List.getLast?_eq_some_iff] at hlast
    obtain ⟨s, rfl⟩ := hlast
    exact ⟨s, by simp, Or.inr rfl⟩
  · exact ⟨p, rfl, Or.inl rfl⟩

/-- Its parts stand behind those of the path, without an empty one at the end of them. -/
theorem splitOn_join {q : Text} (hp : p ≠ []) (hq : isAbsolute q = false) :
    ∃ parts, splitOn '/' (join p q) = parts ++ splitOn '/' q ∧
      (splitOn '/' p = parts ∨ splitOn '/' p = parts ++ [[]]) := by
  obtain ⟨s, hs, rfl | rfl⟩ := join_eq hp hq
  · exact ⟨splitOn '/' p, by rw [hs, splitOn_append], Or.inl rfl⟩
  · exact ⟨splitOn '/' s, by rw [hs, splitOn_append], Or.inr (splitOn_append '/' s [])⟩

theorem isAbsolute_join {q : Text} (hp : p ≠ []) (hq : isAbsolute q = false) :
    isAbsolute (join p q) = isAbsolute p := by
  obtain ⟨s, hs, rfl | rfl⟩ := join_eq hp hq
  · rw [hs]
    cases p with
    | nil => exact absurd rfl hp
    | cons c p => rfl
  · rw [hs]
    cases s <;> rfl

theorem join_ne_nil {q : Text} (hp : p ≠ []) (hq : isAbsolute q = false) : join p q ≠ [] := by
  obtain ⟨s, hs, _⟩ := join_eq hp hq
  simp [hs]

theorem component?_of_isName (hn : isName n = true) (atFront : Bool) :
    component? atFront n = some (.name n) := by
  obtain ⟨hidle, hdots, _⟩ := isName_iff.1 hn
  obtain ⟨hempty, hdot⟩ : n ≠ [] ∧ n ≠ ['.'] := by simpa [isIdle] using hidle
  unfold component?
  rw [if_neg (by simpa using hempty), if_neg hdot, if_neg hdots]

theorem components_eq {first : Text} {rest : List Text} (h : splitOn '/' p = first :: rest) :
    components p = (if isAbsolute p then [.root] else (component? true first).toList) ++
      rest.filterMap (component? false) := by
  unfold components
  rw [h]

/-- The names in a path are followed as names. -/
theorem of_name_mem_components {p n : Text} (h : .name n ∈ components p) :
    isIdle n = false ∧ n ≠ ['.', '.'] := by
  have hcomponent : ∀ {atFront : Bool} {part : Text}, component? atFront part = some (.name n) →
      isIdle n = false ∧ n ≠ ['.', '.'] := by
    intro atFront part hpart
    unfold component? at hpart
    split_ifs at hpart with hempty hdot hfront hdots
    · cases hpart
    · cases hpart
    · cases hpart
      exact ⟨by simp [isIdle, hempty, hdot], hdots⟩
  obtain ⟨first, rest, hsplit⟩ := List.exists_cons_of_ne_nil (splitOn_ne_nil '/' p)
  rw [components_eq hsplit, List.mem_append] at h
  rcases h with h | h
  · split at h
    · simp at h
    · exact hcomponent (Option.mem_toList.1 h)
  · obtain ⟨part, _, hpart⟩ := List.mem_filterMap.1 h
    exact hcomponent hpart

/-- A name behind a path is one more component. -/
theorem components_join (hp : p ≠ []) (hn : isName n = true) :
    components (join p n) = components p ++ [.name n] := by
  have hlast : [n].filterMap (component? false) = [.name n] := by
    rw [List.filterMap_cons, component?_of_isName hn]
    rfl
  have hidle : ([[]] : List Text).filterMap (component? false) = [] := rfl
  have hrelative := isAbsolute_of_isName hn
  obtain ⟨_, _, hslash, _⟩ := isName_iff.1 hn
  obtain ⟨parts, hjoin, hparts⟩ := splitOn_join hp hrelative
  rw [splitOn_of_not_mem hslash] at hjoin
  obtain ⟨first, rest, rfl⟩ : ∃ first rest, parts = first :: rest := by
    cases parts with
    | cons first rest => exact ⟨first, rest, rfl⟩
    | nil =>
        -- a path with no part but an empty one is empty
        rcases hparts with h | h
        · exact absurd h (splitOn_ne_nil '/' p)
        · refine absurd ?_ hp
          rw [← join_splitOn '/' p, h]
          rfl
  have hsplit : components p = (if isAbsolute p then [.root] else (component? true first).toList) ++
      rest.filterMap (component? false) := by
    rcases hparts with h | h
    · exact components_eq h
    · rw [List.cons_append] at h
      rw [components_eq h, List.filterMap_append, hidle, List.append_nil]
  rw [List.cons_append] at hjoin
  rw [components_eq hjoin, isAbsolute_join hp hrelative, List.filterMap_append, hlast, hsplit,
    List.append_assoc]

theorem components_joinAll (hp : p ≠ []) {names : List Text} (h : ∀ n ∈ names, isName n = true) :
    components (joinAll p names) = components p ++ names.map .name := by
  induction names generalizing p with
  | nil => simp
  | cons n names ih =>
      have hn := h n List.mem_cons_self
      rw [joinAll_cons, ih (join_ne_nil hp (isAbsolute_of_isName hn)) fun m hm =>
        h m (List.mem_cons_of_mem n hm), components_join hp hn, List.map_cons, List.append_assoc]
      rfl

/-- Different names below a path lead along different paths. -/
theorem components_joinAll_inj (hp : p ≠ []) {names more : List Text}
    (hnames : ∀ n ∈ names, isName n = true) (hmore : ∀ n ∈ more, isName n = true)
    (h : components (joinAll p names) = components (joinAll p more)) : names = more := by
  rw [components_joinAll hp hnames, components_joinAll hp hmore, List.append_cancel_left_eq] at h
  exact (List.map_injective_iff.2 fun _ _ h => Component.name.inj h) h

theorem utf8Length_le_join {q : Text} (hp : p ≠ []) (hq : isAbsolute q = false) :
    utf8Length p ≤ utf8Length (join p q) := by
  obtain ⟨s, hs, rfl | rfl⟩ := join_eq hp hq
  · rw [hs, utf8Length_append]
    omega
  · rw [hs, utf8Length_append, utf8Length_append, utf8Length, utf8Length, utf8Length]
    omega

theorem utf8Length_le_joinAll (hp : p ≠ []) {names : List Text}
    (h : ∀ n ∈ names, isName n = true) : utf8Length p ≤ utf8Length (joinAll p names) := by
  induction names generalizing p with
  | nil => exact Nat.le_refl _
  | cons n names ih =>
      have hn := h n List.mem_cons_self
      have hrelative := isAbsolute_of_isName hn
      have hrest := ih (join_ne_nil hp hrelative) fun m hm => h m (List.mem_cons_of_mem n hm)
      have hhead := utf8Length_le_join hp hrelative
      rw [joinAll_cons]
      omega

end Path

/-! ## Where a path leads -/

namespace Disk

variable {d : Disk} {p n : Text} {there : List Text} {α β ε : Type}

theorem foldlM_cons_ok_iff {f : α → β → Except ε α} {a r : α} {b : β} {bs : List β} :
    (b :: bs).foldlM f a = .ok r ↔ ∃ m, f a b = .ok m ∧ bs.foldlM f m = .ok r := by
  rw [List.foldlM_cons]
  cases f a b with
  | error e => exact ⟨fun h => (by cases h), fun ⟨_, h, _⟩ => (by cases h)⟩
  | ok m => exact ⟨fun h => ⟨m, rfl, h⟩, fun ⟨_, h, hrest⟩ => (by cases h; exact hrest)⟩

theorem foldlM_append_ok_iff {f : α → β → Except ε α} {a r : α} {bs cs : List β} :
    (bs ++ cs).foldlM f a = .ok r ↔ ∃ m, bs.foldlM f a = .ok m ∧ cs.foldlM f m = .ok r := by
  induction bs generalizing a with
  | nil => exact ⟨fun h => ⟨a, rfl, h⟩, fun ⟨_, h, hrest⟩ => (by cases h; exact hrest)⟩
  | cons b bs ih =>
      rw [List.cons_append, foldlM_cons_ok_iff]
      simp only [ih, foldlM_cons_ok_iff]
      constructor
      · rintro ⟨m, hm, m', hm', hrest⟩
        exact ⟨m', ⟨m, hm, hm'⟩, hrest⟩
      · rintro ⟨m', ⟨m, hm, hm'⟩, hrest⟩
        exact ⟨m, hm, m', hm', hrest⟩

/-- What a path has to be like to lead somewhere, and where that is. -/
theorem resolve_eq_ok_iff :
    d.resolve p = .ok there ↔ '\x00' ∉ p ∧ p ≠ [] ∧ utf8Length p ≤ pathLimit ∧
      (splitOn '/' p).foldlM (follow d.tree) (if Path.isAbsolute p then [] else d.cwd) =
        .ok there := by
  unfold resolve
  by_cases hnull : '\x00' ∈ p
  · simp [hnull]
  by_cases hempty : p = []
  · simp [hempty]
  by_cases hlong : pathLimit < utf8Length p
  · simp [hnull, hempty, hlong, Nat.not_le.2 hlong]
  · simp [hnull, hempty, hlong, Nat.not_lt.1 hlong]

theorem find_of_resolve {t : Tree} (h : d.resolve p = .ok there)
    (ht : d.tree.get? there = some t) : d.find p = .ok t := by
  unfold find
  simp only [h, bind, Except.bind, ht]
  rfl

theorem follow_name (hn : isName n = true) {t : Tree} {here : List Text}
    (h : (t.get? (here ++ [n])).isSome = true) : follow t here n = .ok (here ++ [n]) := by
  obtain ⟨hidle, hdots, _, _, hshort⟩ := isName_iff.1 hn
  unfold follow
  cases ht : t.get? here with
  | none =>
      rw [Tree.get?_append, ht] at h
      cases h
  | some u =>
      cases u with
      | file b =>
          rw [Tree.get?_append, ht] at h
          cases h
      | dir es =>
          simp only [hidle, hdots, if_neg (Nat.not_lt.2 hshort), h, if_true, if_false,
            Bool.false_eq_true]

/-- A relative path behind another one leads on from where that leads. -/
theorem resolve_join_eq {q : Text} (hp : d.resolve p = .ok there) (hq : Path.isAbsolute q = false)
    (hnull : '\x00' ∉ q) (hlength : utf8Length (Path.join p q) ≤ pathLimit) :
    d.resolve (Path.join p q) = (splitOn '/' q).foldlM (follow d.tree) there := by
  obtain ⟨hnullp, hempty, _, hfollow⟩ := resolve_eq_ok_iff.1 hp
  have hnulls : '\x00' ∉ Path.join p q := by
    obtain ⟨s, hs, hps⟩ := Path.join_eq hempty hq
    rw [hs, List.mem_append, List.mem_cons, not_or, not_or]
    refine ⟨fun hmem => hnullp ?_, by decide, hnull⟩
    rcases hps with rfl | rfl
    · exact hmem
    · exact List.mem_append_left _ hmem
  obtain ⟨parts, hjoin, hparts⟩ := Path.splitOn_join hempty hq
  have hfront : parts.foldlM (follow d.tree) (if Path.isAbsolute p then [] else d.cwd) =
      .ok there := by
    rcases hparts with h | h
    · rwa [h] at hfollow
    · -- the empty part at the end leads nowhere else
      rw [h] at hfollow
      obtain ⟨here, hfront, hlast⟩ := foldlM_append_ok_iff.1 hfollow
      obtain ⟨next, hnext, hrest⟩ := foldlM_cons_ok_iff.1 hlast
      cases hrest
      rwa [follow_idle rfl hnext]
  unfold resolve
  rw [if_neg hnulls, if_neg (by simpa using Path.join_ne_nil hempty hq),
    if_neg (Nat.not_lt.2 hlength), hjoin, Path.isAbsolute_join hempty hq, List.foldlM_append,
    hfront]
  rfl

/-- A name behind a path leads to the entry. -/
theorem resolve_join (hp : d.resolve p = .ok there) (hn : isName n = true)
    (hthere : (d.tree.get? (there ++ [n])).isSome = true)
    (hlength : utf8Length (Path.join p n) ≤ pathLimit) :
    d.resolve (Path.join p n) = .ok (there ++ [n]) := by
  obtain ⟨_, _, hslash, hnull, _⟩ := isName_iff.1 hn
  rw [resolve_join_eq hp (Path.isAbsolute_of_isName hn) hnull hlength, splitOn_of_not_mem hslash]
  exact foldlM_cons_ok_iff.2 ⟨there ++ [n], follow_name hn hthere, rfl⟩

/-- Names behind a path lead along them. -/
theorem resolve_joinAll (ht : d.tree.isProper = true) (hp : d.resolve p = .ok there)
    {names : List Text} (hthere : (d.tree.get? (there ++ names)).isSome = true)
    (hlength : utf8Length (Path.joinAll p names) ≤ pathLimit) :
    d.resolve (Path.joinAll p names) = .ok (there ++ names) := by
  induction names generalizing p there with
  | nil => simpa using hp
  | cons n names ih =>
      have hempty : p ≠ [] := (resolve_eq_ok_iff.1 hp).2.1
      obtain ⟨u, hu⟩ := Option.isSome_iff_exists.1 hthere
      obtain ⟨_, hnames⟩ := Tree.isProper_of_get? ht hu
      have hn : isName n = true := hnames n (by simp)
      have hrest : ∀ m ∈ names, isName m = true := fun m hm => hnames m (by simp [hm])
      rw [List.append_cons] at hthere ⊢
      rw [Path.joinAll_cons] at hlength ⊢
      have hnext : (d.tree.get? (there ++ [n])).isSome = true := by
        rw [Tree.get?_append] at hthere
        exact Option.isSome_of_isSome_bind hthere
      have hjoin := Path.join_ne_nil hempty (Path.isAbsolute_of_isName hn)
      have hle := Path.utf8Length_le_joinAll hjoin hrest
      exact ih (resolve_join hp hn hnext (by omega)) hthere hlength

/-- Names are followed one behind the other. -/
theorem foldlM_follow_names {t : Tree} {names here there : List Text}
    (hnames : ∀ n ∈ names, Path.isIdle n = false ∧ n ≠ ['.', '.'])
    (h : names.foldlM (follow t) here = .ok there) : there = here ++ names := by
  induction names generalizing here with
  | nil =>
      cases h
      simp
  | cons n names ih =>
      obtain ⟨next, hnext, hrest⟩ := foldlM_cons_ok_iff.1 h
      obtain ⟨hidle, hdots⟩ := hnames n List.mem_cons_self
      have hstep : next = here ++ [n] := by
        unfold follow at hnext
        split at hnext
        · cases hnext
        · cases hnext
        · rw [if_neg (by simp [hidle]), if_neg hdots] at hnext
          split_ifs at hnext
          cases hnext
          rfl
      rw [ih (fun m hm => hnames m (List.mem_cons_of_mem n hm)) hrest, hstep, ← List.append_cons]

/-- A path leads to the names behind the place of its beginning. -/
theorem resolve_front {front : List Component} {names there : List Text}
    (hp : Path.components p = front ++ names.map .name) (h : d.resolve p = .ok there) :
    ∃ here, (front.filterMap Path.part?).foldlM (follow d.tree)
      (if .root ∈ front then [] else d.cwd) = .ok here ∧ there = here ++ names := by
  have hfollow := foldlM_of_resolve h
  have hparts : (names.map Component.name).filterMap Path.part? = names := by
    rw [List.filterMap_map]
    exact List.filterMap_some
  have hroot : Component.root ∈ Path.components p ↔ .root ∈ front := by simp [hp]
  simp only [hroot] at hfollow
  rw [hp, List.filterMap_append, hparts] at hfollow
  obtain ⟨here, hhere, hrest⟩ := foldlM_append_ok_iff.1 hfollow
  refine ⟨here, hhere, foldlM_follow_names (fun n hn => ?_) hrest⟩
  refine Path.of_name_mem_components (p := p) ?_
  rw [hp]
  exact List.mem_append_right _ (List.mem_map_of_mem hn)

end Disk

end DocLint
