import DocLint.Registry
import Mathlib.Data.List.TakeWhile

/-!
# Messages as filled templates

A template names fields in braces. The catalog puts the fields into the growing message one after
another, so a name in braces that comes with a value is taken for one of the template.

* `Template.fill`: every name in braces replaced at once, the values as they are.
* `Template.NoneArises`: whenever a field is put in, its name stands in braces only where the
  template names it; `Finding.valueOf?`: what a name stands for.
* `formatError_eq_fill`: under that condition a message is its template filled at once; it is met if
  braces do not nest in the template and no value brings in a name that is put in after it.
* `message_rescanned`: a `define` whose name is the line in braces.
-/

namespace DocLint

namespace Text

/-! ## Occurrences -/

/-- How often the non-empty text `p` occurs. -/
def occurrences (p : Text) : Text → Nat
  | [] => 0
  | c :: t => (if startsWith p (c :: t) then 1 else 0) + occurrences p t

variable {p r : Text}

theorem startsWith_append_self (p t : Text) : startsWith p (p ++ t) = true :=
  startsWith_iff.2 (List.prefix_append p t)

theorem replaceFrom_eq_drop (p r : Text) (n : Nat) (t : Text) :
    replaceFrom p r n t = replaceAll p r (t.drop n) := by
  induction n generalizing t with
  | zero => rfl
  | succ n ih =>
      cases t with
      | nil => rw [replaceFrom.eq_def]; rfl
      | cons c t => exact ih t

/-- An occurrence at the front is replaced. -/
theorem replaceAll_append (hp : p ≠ []) (r t : Text) :
    replaceAll p r (p ++ t) = r ++ replaceAll p r t := by
  cases p with
  | nil => exact absurd rfl hp
  | cons c p =>
      show replaceFrom (c :: p) r 0 (c :: (p ++ t)) = _
      have hfront : startsWith (c :: p) (c :: (p ++ t)) = true := startsWith_append_self (c :: p) t
      rw [replaceFrom, if_pos hfront, replaceFrom_eq_drop, List.length_cons, Nat.add_sub_cancel,
        List.drop_left]

theorem occurrences_le_append (p w t : Text) : occurrences p t ≤ occurrences p (w ++ t) := by
  induction w with
  | nil => exact Nat.le_refl _
  | cons c w ih =>
      rw [List.cons_append, occurrences]
      omega

/-- A text in front of which no further occurrence starts is passed over. -/
theorem replaceAll_append_of_occurrences_eq {w t : Text} (r : Text)
    (h : occurrences p (w ++ t) = occurrences p t) :
    replaceAll p r (w ++ t) = w ++ replaceAll p r t := by
  induction w with
  | nil => rfl
  | cons c w ih =>
      have hle := occurrences_le_append p w t
      rw [List.cons_append, occurrences] at h
      have hstart : ¬startsWith p (c :: (w ++ t)) = true := fun hs => by
        rw [if_pos hs] at h
        omega
      rw [if_neg hstart, Nat.zero_add] at h
      show replaceFrom p r 0 (c :: (w ++ t)) = _
      rw [replaceFrom, if_neg hstart]
      exact congrArg (c :: ·) (ih h)

theorem occurrences_eq_zero {t : Text} (h : contains p t = false) :
    occurrences p t = 0 := by
  induction t with
  | nil => rfl
  | cons c t ih =>
      unfold contains at h ih
      rw [find?] at h
      split at h
      · cases h
      · rename_i hstart
        rw [Option.isSome_map] at h
        rw [occurrences, if_neg hstart, ih h]

end Text

/-! ## Reading and filling templates -/

namespace Template

open Text Catalog

/-- A brace. -/
def isBrace (c : Char) : Bool := c == '{' || c == '}'

/-- A text without braces can be named. -/
def IsName (key : Text) : Prop := ∀ c ∈ key, isBrace c = false

/-- The name in braces that a text starts with. -/
def leadingName? : Text → Option Text
  | [] => none
  | c :: t =>
    if c = '{' ∧ t.find? isBrace = some '}' then some (t.takeWhile (!isBrace ·)) else none

/-- A piece of a template. -/
inductive Piece where
  | char (c : Char)
  /-- A name in braces. -/
  | slot (key : Text)
  deriving DecidableEq, Repr

/-- Reads the pieces of a text; `skip` characters still belong to the slot read last. -/
def readFrom : Nat → Text → List Piece
  | _, [] => []
  | skip + 1, _ :: t => readFrom skip t
  | 0, c :: t =>
    match leadingName? (c :: t) with
    | some key => .slot key :: readFrom (key.length + 1) t
    | none => .char c :: readFrom 0 t

/-- The pieces of a template. -/
def read (template : Text) : List Piece := readFrom 0 template

/-- A piece filled in. -/
def Piece.fill (value? : Text → Option Text) : Piece → Text
  | char c => [c]
  | slot key => (value? key).getD (placeholder key)

/-- The template with every name in braces replaced by its value at once. A name without a value
stays, with its braces. -/
def fill (value? : Text → Option Text) (template : Text) : Text :=
  (read template).flatMap (Piece.fill value?)

variable {g : Text → Option Text} {key k v s t : Text}

theorem leadingName?_eq_some_iff :
    leadingName? s = some key ↔ IsName key ∧ ∃ t, s = placeholder key ++ t := by
  constructor
  · intro h
    cases s with
    | nil => cases h
    | cons c t =>
        rw [leadingName?] at h
        split at h
        · rename_i hfront
          obtain ⟨rfl, hclose⟩ := hfront
          cases h
          have hplain := List.all_eq_true.1 (List.all_takeWhile (p := (!isBrace ·)) (l := t))
          rw [List.find?_eq_head?_dropWhile_not] at hclose
          obtain ⟨u, hu⟩ := List.head?_eq_some_iff.1 hclose
          refine ⟨fun c hc => by simpa using hplain c hc, u, ?_⟩
          have hcut := List.takeWhile_append_dropWhile (p := (!isBrace ·)) (l := t)
          rw [hu] at hcut
          rw [placeholder, List.cons_append, List.cons_append, List.append_assoc,
            List.singleton_append, hcut]
        · cases h
  · rintro ⟨hkey, t, rfl⟩
    have hplain : ∀ c ∈ key, (!isBrace c) = true := fun c hc => by rw [hkey c hc]; rfl
    rw [placeholder, List.cons_append, List.cons_append, List.append_assoc, List.singleton_append,
      leadingName?, List.find?_eq_head?_dropWhile_not, List.dropWhile_append_of_pos hplain,
      List.takeWhile_append_of_pos hplain]
    simp [isBrace]

theorem startsWith_placeholder (hkey : IsName key) :
    startsWith (placeholder key) s = true ↔ leadingName? s = some key := by
  rw [startsWith_iff, leadingName?_eq_some_iff]
  exact ⟨fun ⟨t, ht⟩ => ⟨hkey, t, ht.symm⟩, fun ⟨_, t, ht⟩ => ⟨t, ht.symm⟩⟩

theorem leadingName?_of_ne {c : Char} (h : c ≠ '{') (t : Text) : leadingName? (c :: t) = none :=
  if_neg fun hfront => h hfront.1

/-- A text is read piece by piece: names in braces, and characters that start none. -/
theorem induct {motive : Text → Prop} (nil : motive [])
    (slot : ∀ key t, IsName key → motive t → motive (placeholder key ++ t))
    (char : ∀ c t, leadingName? (c :: t) = none → motive t → motive (c :: t)) : ∀ t, motive t := by
  intro t
  induction hn : t.length using Nat.strongRecOn generalizing t with
  | _ n ih =>
    cases t with
    | nil => exact nil
    | cons c t =>
        cases hlead : leadingName? (c :: t) with
        | none =>
            refine char c t hlead (ih t.length ?_ t rfl)
            rw [← hn, List.length_cons]
            exact Nat.lt_succ_self _
        | some key =>
            obtain ⟨hkey, u, hu⟩ := leadingName?_eq_some_iff.1 hlead
            rw [hu] at hn ⊢
            refine slot key u hkey (ih u.length ?_ u rfl)
            rw [← hn, List.length_append, placeholder, List.length_append, List.length_cons]
            omega

theorem readFrom_eq_drop (n : Nat) (t : Text) : readFrom n t = read (t.drop n) := by
  induction n generalizing t with
  | zero => rfl
  | succ n ih =>
      cases t with
      | nil => rw [readFrom.eq_def]; rfl
      | cons c t => exact ih t

theorem read_slot (hkey : IsName key) (t : Text) :
    read (placeholder key ++ t) = .slot key :: read t := by
  have hlead : leadingName? (placeholder key ++ t) = some key :=
    leadingName?_eq_some_iff.2 ⟨hkey, t, rfl⟩
  have hbehind : (key ++ ['}'] ++ t).drop (key.length + 1) = t := by
    rw [List.drop_left' (by simp)]
  show readFrom 0 ('{' :: (key ++ ['}'] ++ t)) = _
  have hlead : leadingName? ('{' :: (key ++ ['}'] ++ t)) = some key := hlead
  rw [readFrom, hlead]
  simp only
  rw [readFrom_eq_drop, hbehind]

theorem read_char {c : Char} (h : leadingName? (c :: t) = none) :
    read (c :: t) = .char c :: read t := by
  show readFrom 0 (c :: t) = _
  rw [readFrom, h]
  rfl

theorem fill_slot (hkey : IsName key) (t : Text) :
    fill g (placeholder key ++ t) = (g key).getD (placeholder key) ++ fill g t := by
  rw [fill, read_slot hkey, List.flatMap_cons]
  rfl

theorem fill_char {c : Char} (h : leadingName? (c :: t) = none) :
    fill g (c :: t) = c :: fill g t := by
  rw [fill, read_char h, List.flatMap_cons]
  rfl

/-- Nothing is lost or added where there are no values. -/
theorem fill_none (t : Text) : fill (fun _ => none) t = t := by
  induction t using Template.induct with
  | nil => rfl
  | slot key t hkey ih => rw [fill_slot hkey, ih]; rfl
  | char c t h ih => rw [fill_char h, ih]

/-! ## Putting in one field -/

/-- No name in braces starts without an opening brace. -/
theorem occurrences_append_of_not_mem (hk : IsName k) {w : Text} (hw : '{' ∉ w) (t : Text) :
    occurrences (placeholder k) (w ++ t) = occurrences (placeholder k) t := by
  induction w with
  | nil => rfl
  | cons c w ih =>
      rw [List.mem_cons, not_or] at hw
      rw [List.cons_append, occurrences, if_neg, Nat.zero_add, ih hw.2]
      rw [startsWith_placeholder hk, leadingName?_of_ne (Ne.symm hw.1)]
      exact nofun

theorem not_mem_of_isName (hkey : IsName key) : '{' ∉ key := fun hmem => by
  simpa [isBrace] using hkey _ hmem

/-- A name in braces occurs in a name in braces only where it is that one. -/
theorem occurrences_slot (hk : IsName k) (hkey : IsName key) (t : Text) :
    occurrences (placeholder k) (placeholder key ++ t) =
      (if key = k then 1 else 0) + occurrences (placeholder k) t := by
  have hrest : '{' ∉ key ++ ['}'] := by
    rw [List.mem_append, List.mem_singleton, not_or]
    exact ⟨not_mem_of_isName hkey, by decide⟩
  have hlead : leadingName? ('{' :: (key ++ ['}'] ++ t)) = some key :=
    leadingName?_eq_some_iff.2 ⟨hkey, t, rfl⟩
  show occurrences (placeholder k) ('{' :: (key ++ ['}'] ++ t)) = _
  rw [occurrences, occurrences_append_of_not_mem hk hrest]
  congr 1
  simp only [startsWith_placeholder hk, hlead, Option.some.injEq]

theorem occurrences_char {c : Char} (hk : IsName k) (h : leadingName? (c :: t) = none) :
    occurrences (placeholder k) (c :: t) = occurrences (placeholder k) t := by
  rw [occurrences, if_neg, Nat.zero_add]
  rw [startsWith_placeholder hk, h]
  exact nofun

/-- A name in braces occurs where it is read. -/
theorem occurrences_eq_count (hk : IsName k) (t : Text) :
    occurrences (placeholder k) t = (read t).count (.slot k) := by
  induction t using Template.induct with
  | nil => rfl
  | slot key t hkey ih =>
      rw [occurrences_slot hk hkey, read_slot hkey, List.count_cons, ih, Nat.add_comm]
      simp
  | char c t h ih =>
      rw [occurrences_char hk h, read_char h, List.count_cons, ih]
      simp

/-- The piece is filled in by the field of the name `k`, which is put in after those of `g`. -/
def awaits (g : Text → Option Text) (k : Text) (q : Piece) : Bool := q == .slot k && (g k).isNone

theorem fill_of_not_awaits {q : Piece} (h : awaits g k q = false) :
    q.fill (fun key => (g key).or (if k = key then some v else none)) = q.fill g := by
  cases q with
  | char c => rfl
  | slot key =>
      by_cases hkey : k = key
      · subst hkey
        obtain ⟨w, hw⟩ : ∃ w, g k = some w := by
          simpa [awaits, Option.isSome_iff_exists] using h
        simp [Piece.fill, hw]
      · simp [Piece.fill, hkey]

theorem countP_awaits_le (hk : IsName k) (qs : List Piece) :
    qs.countP (awaits g k) ≤ occurrences (placeholder k) (qs.flatMap (Piece.fill g)) := by
  induction qs with
  | nil => exact Nat.zero_le _
  | cons q qs ih =>
      rw [List.flatMap_cons, List.countP_cons]
      split
      · rename_i hq
        obtain ⟨rfl, hg⟩ : q = .slot k ∧ g k = none := by simpa [awaits] using hq
        have hfill : Piece.fill g (.slot k) = placeholder k := by rw [Piece.fill, hg]; rfl
        rw [hfill, occurrences_slot hk hk, if_pos rfl]
        omega
      · exact Nat.le_trans ih (occurrences_le_append _ _ _)

/-- Where a name stands in braces for no other reason, it is replaced by its value and nothing else
changes. -/
theorem replaceAll_flatMap (hk : IsName k) {qs : List Piece}
    (h : occurrences (placeholder k) (qs.flatMap (Piece.fill g)) = qs.countP (awaits g k)) :
    replaceAll (placeholder k) v (qs.flatMap (Piece.fill g)) =
      qs.flatMap (Piece.fill fun key => (g key).or (if k = key then some v else none)) := by
  induction qs with
  | nil => rfl
  | cons q qs ih =>
      have hle := countP_awaits_le (g := g) hk qs
      rw [List.flatMap_cons, List.countP_cons] at h
      rw [List.flatMap_cons, List.flatMap_cons]
      cases hq : awaits g k q with
      | true =>
          obtain ⟨rfl, hg⟩ : q = .slot k ∧ g k = none := by simpa [awaits] using hq
          have hfill : Piece.fill g (.slot k) = placeholder k := by rw [Piece.fill, hg]; rfl
          rw [hfill, occurrences_slot hk hk, if_pos rfl, if_pos hq] at h
          rw [hfill, replaceAll_append (by simp [placeholder]), ih (by omega), Piece.fill, hg]
          simp
      | false =>
          rw [if_neg (by simp [hq]), Nat.add_zero] at h
          have hsame := occurrences_le_append (placeholder k) (q.fill g) (qs.flatMap (Piece.fill g))
          rw [replaceAll_append_of_occurrences_eq v (by omega), ih (by omega),
            fill_of_not_awaits hq]

theorem countP_awaits_read (hk : IsName k) (t : Text) :
    (read t).countP (awaits g k) =
      if (g k).isSome then 0 else occurrences (placeholder k) t := by
  rw [occurrences_eq_count hk]
  cases hg : g k with
  | none =>
      rw [List.count]
      exact List.countP_congr fun q _ => by simp [awaits, hg]
  | some w => simp [awaits, hg]

/-- **One more field.** -/
theorem replaceAll_fill (hk : IsName k)
    (h : occurrences (placeholder k) (fill g t) =
      if (g k).isSome then 0 else occurrences (placeholder k) t) :
    replaceAll (placeholder k) v (fill g t) =
      fill (fun key => (g key).or (if k = key then some v else none)) t :=
  replaceAll_flatMap hk (by rw [countP_awaits_read hk]; exact h)

/-! ## Putting in field after field -/

/-- The value of the first field of a name. -/
def lookup (fields : List (Text × Text)) (key : Text) : Option Text :=
  (fields.find? (·.1 == key)).map (·.2)

theorem lookup_concat (fields : List (Text × Text)) (f : Text × Text) (key : Text) :
    lookup (fields ++ [f]) key = (lookup fields key).or (if f.1 = key then some f.2 else none) := by
  unfold lookup
  rw [List.find?_append, Option.map_or]
  congr 1
  by_cases h : f.1 = key
  · simp [h]
  · simp [h]

theorem mem_of_lookup {fields : List (Text × Text)} {key w : Text}
    (h : lookup fields key = some w) : (key, w) ∈ fields := by
  obtain ⟨f, hf, rfl⟩ := Option.map_eq_some_iff.1 h
  have hkey : f.1 = key := by simpa using List.find?_some hf
  rw [← hkey]
  exact List.mem_of_find?_eq_some hf

/-- Whenever a field is put in, its name stands in braces only where the template names it, and
nowhere if a field of that name has been put in. -/
def NoneArises (fields : List (Text × Text)) (template : Text) : Prop :=
  ∀ n f, fields[n]? = some f →
    occurrences (placeholder f.1) (fill (lookup (fields.take n)) template) =
      if (lookup (fields.take n) f.1).isSome then 0 else occurrences (placeholder f.1) template

/-- **The fields put in one after another are put in at once**, if no name in braces arises. -/
theorem foldl_replaceAll_eq_fill {fields : List (Text × Text)} {template : Text}
    (hnames : ∀ f ∈ fields, IsName f.1) (h : NoneArises fields template) :
    fields.foldl (fun t f => replaceAll (placeholder f.1) f.2 t) template =
      fill (lookup fields) template := by
  have hprefix : ∀ n ≤ fields.length,
      (fields.take n).foldl (fun t f => replaceAll (placeholder f.1) f.2 t) template =
        fill (lookup (fields.take n)) template := by
    intro n
    induction n with
    | zero => intro _; exact (fill_none template).symm
    | succ n ih =>
        intro hn
        have hget : fields[n]? = some fields[n] := List.getElem?_eq_getElem hn
        rw [List.take_add_one, hget, Option.toList_some, List.foldl_append, ih (by omega)]
        show replaceAll (placeholder fields[n].1) fields[n].2 _ = _
        rw [replaceAll_fill (hnames _ (List.getElem_mem hn)) (h n _ hget)]
        exact congrArg (fill · template) (funext fun key => (lookup_concat _ _ key).symm)
  have hall := hprefix fields.length (Nat.le_refl _)
  rwa [List.take_length] at hall

/-! ## Templates and values without nested braces -/

/-- Behind an opening brace there is no further one before the closing one. -/
def isFlat : Text → Bool
  | [] => true
  | c :: t => (c != '{' || t.find? isBrace != some '{') && isFlat t

/-- Every opening brace is closed before the next one. -/
def isClosed : Text → Bool
  | [] => true
  | c :: t => (c != '{' || t.find? isBrace == some '}') && isClosed t

theorem isFlat_of_append {u : Text} (h : isFlat (u ++ t) = true) : isFlat t = true := by
  induction u with
  | nil => exact h
  | cons c u ih =>
      rw [List.cons_append, isFlat, Bool.and_eq_true] at h
      exact ih h.2

theorem fill_of_isName (h : IsName t) : fill g t = t := by
  induction t with
  | nil => rfl
  | cons c t ih =>
      have hc : c ≠ '{' := fun hc => by simpa [hc, isBrace] using h c List.mem_cons_self
      rw [fill_char (leadingName?_of_ne hc t), ih fun d hd => h d (List.mem_cons_of_mem _ hd)]

/-- What follows a text whose braces are closed completes no name in braces. -/
theorem occurrences_append_of_isClosed (hk : IsName k) {w : Text} (hw : isClosed w = true)
    (t : Text) : occurrences (placeholder k) (w ++ t) =
      occurrences (placeholder k) w + occurrences (placeholder k) t := by
  induction w with
  | nil => exact (Nat.zero_add _).symm
  | cons c w ih =>
      rw [isClosed, Bool.and_eq_true] at hw
      have hlead : leadingName? (c :: (w ++ t)) = leadingName? (c :: w) := by
        by_cases hc : c = '{'
        · subst hc
          have hclose : w.find? isBrace = some '}' := by simpa using hw.1
          have hname : leadingName? ('{' :: w) = some (w.takeWhile (!isBrace ·)) :=
            if_pos ⟨rfl, hclose⟩
          obtain ⟨hkey, u, hu⟩ := leadingName?_eq_some_iff.1 hname
          rw [hname]
          refine leadingName?_eq_some_iff.2 ⟨hkey, u ++ t, ?_⟩
          rw [← List.cons_append, hu, List.append_assoc]
        · rw [leadingName?_of_ne hc, leadingName?_of_ne hc]
      rw [List.cons_append, occurrences, occurrences, ih hw.2]
      simp only [startsWith_placeholder hk, hlead]
      omega

/-- In a flat template filled with closed values that do not hold it, a name in braces stands where
the template names it. -/
theorem occurrences_fill (hk : IsName k) (hflat : isFlat t = true)
    (hvalues : ∀ key w, g key = some w →
      isClosed w = true ∧ occurrences (placeholder k) w = 0) :
    occurrences (placeholder k) (fill g t) =
      if (g k).isSome then 0 else occurrences (placeholder k) t := by
  induction t using Template.induct with
  | nil => simp [fill, read, readFrom, occurrences]
  | slot key t hkey ih =>
      rw [fill_slot hkey, occurrences_slot hk hkey]
      cases hg : g key with
      | some w =>
          obtain ⟨hclosed, hzero⟩ := hvalues key w hg
          rw [Option.getD_some, occurrences_append_of_isClosed hk hclosed, hzero,
            ih (isFlat_of_append hflat)]
          by_cases heq : key = k
          · simp [← heq, hg]
          · simp [heq]
      | none =>
          rw [Option.getD_none, occurrences_slot hk hkey, ih (isFlat_of_append hflat)]
          by_cases heq : key = k
          · simp [← heq, hg]
          · simp [heq]
  | char c t h ih =>
      rw [isFlat, Bool.and_eq_true] at hflat
      by_cases hc : c = '{'
      · -- a brace that opens no name is the last one
        subst hc
        have hname : IsName t := by
          have hopen : t.find? isBrace ≠ some '{' := by simpa using hflat.1
          have hclose : t.find? isBrace ≠ some '}' := fun hclose => by
            rw [leadingName?, if_pos ⟨rfl, hclose⟩] at h
            cases h
          intro d hd
          cases hfind : t.find? isBrace with
          | none => simpa using List.find?_eq_none.1 hfind d hd
          | some b =>
              have hb := List.find?_some hfind
              rw [hfind] at hopen hclose
              simp [isBrace] at hb
              rcases hb with rfl | rfl
              · exact absurd rfl hopen
              · exact absurd rfl hclose
        have hzero := occurrences_append_of_not_mem hk (not_mem_of_isName hname) []
        rw [List.append_nil] at hzero
        rw [fill_char h, fill_of_isName hname, occurrences_char hk h, hzero]
        simp [occurrences]
      · rw [fill_char h, occurrences_char hk h, occurrences_char hk (leadingName?_of_ne hc _),
          ih hflat.2]

/-- In such a template no name in braces arises from closed values that hold none put in after
them. -/
theorem noneArises_of_isFlat {fields : List (Text × Text)} (hnames : ∀ f ∈ fields, IsName f.1)
    (hflat : isFlat t = true) (hclosed : ∀ f ∈ fields.dropLast, isClosed f.2 = true)
    (hfree : fields.Pairwise fun f later => Text.contains (placeholder later.1) f.2 = false) :
    NoneArises fields t := by
  intro n f hf
  obtain ⟨hn, rfl⟩ := List.getElem?_eq_some_iff.1 hf
  refine occurrences_fill (hnames _ (List.getElem_mem hn)) hflat fun key w hw => ?_
  obtain ⟨m, hm, heq⟩ := List.mem_take_iff_getElem.1 (mem_of_lookup hw)
  have hlt : m < n := by omega
  have hbefore : fields[m] ∈ fields.dropLast := by
    rw [List.dropLast_eq_take]
    exact List.mem_take_iff_getElem.2 ⟨m, by omega, rfl⟩
  have hvalue : fields[m].2 = w := by rw [heq]
  rw [← hvalue]
  exact ⟨hclosed _ hbefore,
    occurrences_eq_zero (List.pairwise_iff_getElem.1 hfree m n (by omega) hn hlt)⟩

end Template

/-! ## Messages -/

namespace Finding

open Template

/-- What is put into a template: the fields in order, then the line under the name `line`. -/
def entries (x : Finding) : List (Text × Text) :=
  x.fields ++ (x.line.map fun n => (("line" : Text), Text.ofNat n)).toList

/-- The value that a name stands for: that of the first field of the name, or the line. -/
def valueOf? (x : Finding) (key : Text) : Option Text :=
  (x.get? key).or (if key = "line" then x.line.map Text.ofNat else none)

theorem valueOf?_eq (x : Finding) : x.valueOf? = lookup x.entries := by
  funext key
  unfold valueOf? entries get? lookup
  rw [List.find?_append, Option.map_or]
  congr 1
  cases x.line with
  | none => simp
  | some n =>
      rw [Option.map_some, Option.map_some, Option.toList_some]
      by_cases h : key = "line"
      · rw [if_pos h, List.find?_cons_of_pos (by simpa using h.symm)]
        rfl
      · rw [if_neg h, List.find?_cons_of_neg (by simpa using fun he => h he.symm)]
        rfl

end Finding

namespace Catalog

open Template

theorem substitute_eq (template : Text) (x : Finding) :
    substitute template x =
      x.entries.foldl (fun t f => Text.replaceAll (placeholder f.1) f.2 t) template := by
  unfold substitute Finding.entries
  cases x.line with
  | none => simp
  | some n => simp [List.foldl_append]

/-- **When a message is its template filled at once.** The fields of a finding, whose names hold no
braces, are put into the template of its rule one after another, and the line last. The message is
the template with every name in braces replaced at once by the value of the first field of the name,
or by the line, with all else as it was and the values as they are, if no name in braces arises:
none is there to be replaced that the template does not name. Values can only bring one in if they
hold it or leave a brace open, or if braces nest in the template. -/
theorem formatError_eq_fill (c : Catalog) (r : Rule) (x : Finding) (template : Text)
    (htemplate : c.forRule? r.errorKey ("error_" ++ r.code) = some template)
    (hnames : ∀ f ∈ x.fields, ∀ b ∈ f.1, b ≠ '{' ∧ b ≠ '}') :
    (NoneArises x.entries template → c.formatError r x = fill x.valueOf? template) ∧
    (isFlat template = true → (∀ f ∈ x.fields, isClosed f.2 = true) →
      (x.entries.Pairwise fun f later => Text.contains (placeholder later.1) f.2 = false) →
      NoneArises x.entries template) := by
  have hnames : ∀ f ∈ x.entries, IsName f.1 := by
    intro f hf
    rcases List.mem_append.1 hf with hf | hf
    · intro b hb
      simp [isBrace, hnames f hf b hb]
    · obtain ⟨n, _, rfl⟩ := Option.map_eq_some_iff.1 (Option.mem_toList.1 hf)
      show IsName "line"
      simp [IsName, isBrace]
  constructor
  · intro harises
    unfold formatError
    rw [htemplate]
    simp only
    rw [substitute_eq, foldl_replaceAll_eq_fill hnames harises, Finding.valueOf?_eq]
  · intro hflat hclosed hfree
    refine noneArises_of_isFlat hnames hflat (fun f hf => hclosed f ?_) hfree
    unfold Finding.entries at hf
    cases hline : x.line with
    | none =>
        rw [hline, Option.map_none, Option.toList_none, List.append_nil] at hf
        exact (List.dropLast_sublist _).subset hf
    | some n =>
        rw [hline, Option.map_some, Option.toList_some, List.dropLast_concat] at hf
        exact hf

/-- A name with braces in it that no field has. -/
theorem formatError_eq_fill_braces :
    let x : Finding := { line := some 2, fields := [("object", "A\x7bx\x7d")] }
    let r : Rule := Rule.definesDocumented
    ∃ template, english.forRule? r.errorKey ("error_" ++ r.code) = some template ∧
      (∀ f ∈ x.fields, ∀ b ∈ f.1, b ≠ '{' ∧ b ≠ '}') ∧ NoneArises x.entries template ∧
      english.formatError r x = fill x.valueOf? template ∧
      fill x.valueOf? template = "Define statement for A\x7bx\x7d is not documented" := by
  intro x r
  have htemplate : english.forRule? r.errorKey ("error_" ++ r.code) =
      some ("Define statement for \x7bobject\x7d is not documented" : Text) := by decide +kernel
  have hnames : ∀ f ∈ x.fields, ∀ b ∈ f.1, b ≠ '{' ∧ b ≠ '}' := by simp [x]
  obtain ⟨hfill, hflat⟩ := formatError_eq_fill english r x _ htemplate hnames
  have harises := hflat (by decide +kernel) (by decide +kernel) (by decide +kernel)
  exact ⟨_, htemplate, hnames, harises, hfill harises, by decide +kernel⟩

/-- A constant defined under the name of the line in braces: the line stands in the message in place
of the name. -/
theorem message_rescanned :
    let f := SourceFile.parse "a.php" "<?php\ndefine('\x7bline\x7d', 1);"
    let r : Rule := Rule.definesDocumented
    ∃ x template, r.findings f = [x] ∧
      english.forRule? r.errorKey ("error_" ++ r.code) = some template ∧
      (∀ f ∈ x.fields, ∀ b ∈ f.1, b ≠ '{' ∧ b ≠ '}') ∧
      fill x.valueOf? template = "Define statement for \x7bline\x7d is not documented" ∧
      english.formatError r x = "Define statement for 2 is not documented" := by
  refine ⟨{ line := some 2, token := some 1, fields := [("object", "\x7bline\x7d")] },
    "Define statement for \x7bobject\x7d is not documented", ?_, ?_, ?_, ?_, ?_⟩
  · decide +kernel
  · decide +kernel
  · simp
  · decide +kernel
  · decide +kernel

end Catalog

end DocLint
