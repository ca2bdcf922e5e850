import DocLint.Proofs.Balance
import DocLint.Proofs.Enclosure
import DocLint.Proofs.Separation

/-!
# Members stay inside their class

In a file with balanced brackets the body of a class is a group. A statement that starts in it ends
in it, for the scan stops in front of the bracket that closes the group. The search for the body of
a method knows nothing of the group: a method without a body and without a semicolon takes the next
brace or semicolon of the file for its own, wherever that is.

* `Span.Within`: one range of tokens holds another.
* `statementEnd_le_matchingClose`, `matchingClose_lt_matchingClose`: ends of statements and of
  groups inside a group.
* `Recognized.statement_within`, `Recognized.function_within_iff`: members in the body of a class.
* `members_within_class`: properties and constants stay inside their class; a method does exactly
  when its head ends there or nothing follows the class.
* `method_leaves_class`: a method that does not.
-/

namespace DocLint

/-- The range lies in another one. -/
structure Span.Within (s outer : Span) : Prop where
  first : outer.first ≤ s.first
  last : s.last ≤ outer.last

instance (s outer : Span) : Decidable (s.Within outer) :=
  decidable_of_iff (outer.first ≤ s.first ∧ s.last ≤ outer.last)
    ⟨fun h => ⟨h.1, h.2⟩, fun h => ⟨h.first, h.last⟩⟩

namespace Outline

variable {ts : List Token}

/-! ## Inside a group -/

section Group

variable {o : Nat} {b : Token} (h : Balanced ts) (hb : ts[o]? = some b)
  (opens : b.kind.opens = true)

include h hb opens

/-- What stands behind an index in a group. -/
theorem drop_of_lt_matchingClose {i : Nat} (hlt : o < i) (hle : i ≤ matchingClose ts o) :
    ∃ inner c rest, Balanced inner ∧ c.kind.closes = true ∧
      ts.drop i = inner.drop (i - (o + 1)) ++ c :: rest ∧
      matchingClose ts o = o + 1 + inner.length := by
  obtain ⟨inner, c, rest, hdrop, hinner, hc⟩ := h.split hb opens
  have hclose := matchingClose_of_split hdrop opens hinner hc
  refine ⟨inner, c, rest, hinner, by rw [hc]; exact (closes_pairOf b.kind).1, ?_, hclose⟩
  have hrest := (drop_eq_cons hdrop).2
  rw [show i = o + 1 + (i - (o + 1)) by omega, ← List.drop_drop, hrest,
    List.drop_append_of_le_length (by omega), Nat.add_sub_cancel_left]

/-- **A statement that starts in a group ends in it.** -/
theorem statementEnd_le_matchingClose {start : Nat} (hlt : o < start)
    (hle : start ≤ matchingClose ts o) : statementEnd ts start ≤ matchingClose ts o := by
  obtain ⟨inner, c, rest, hinner, hc, hdrop, hclose⟩ :=
    drop_of_lt_matchingClose h hb opens hlt hle
  obtain ⟨due, hdue⟩ := exists_nests_drop (balanced_iff_nests.1 hinner) (start - (o + 1))
  obtain ⟨m, hm, hlast⟩ : ∃ m, statementEndFrom start 0 start (ts.drop start) = some m ∧
      m ≤ start + (inner.drop (start - (o + 1))).length := by
    rw [hdrop]
    exact statementEndFrom_le_of_nests hdue (Nat.zero_le _) (Nat.le_refl start) hc
  rw [statementEnd, hm, Option.getD_some]
  rw [List.length_drop] at hlast
  omega

/-- **A group that opens in a group is closed in it.** -/
theorem matchingClose_lt_matchingClose {i : Nat} {t : Token} (hlt : o < i)
    (hgt : i < matchingClose ts o) (ht : ts[i]? = some t) (ht' : t.kind.opens = true) :
    matchingClose ts i < matchingClose ts o := by
  obtain ⟨inner, c, rest, hinner, hc, hdrop, hclose⟩ :=
    drop_of_lt_matchingClose h hb opens hlt (Nat.le_of_lt hgt)
  have hlength : i - (o + 1) < inner.length := by omega
  have hget : inner[i - (o + 1)]? = some t := by
    have hzero := congrArg (·[0]?) hdrop
    simp only [List.getElem?_drop, Nat.add_zero] at hzero
    rw [List.getElem?_append_left (by rw [List.length_drop]; omega), List.getElem?_drop,
      ht] at hzero
    exact hzero.symm
  obtain ⟨inner', c', rest', hdrop', hinner', hc'⟩ := hinner.split hget ht'
  have hsplit : ts.drop i = t :: (inner' ++ c' :: (rest' ++ c :: rest)) := by
    rw [hdrop, hdrop']
    simp
  have hend := matchingClose_of_split hsplit ht' hinner' hc'
  have hlen := congrArg List.length hdrop'
  simp only [List.length_drop, List.length_cons, List.length_append] at hlen
  omega

/-- A bracket of the kind that closes the group stands where it is closed. -/
theorem exists_getElem?_matchingClose :
    ∃ c, ts[matchingClose ts o]? = some c ∧ c.kind = (pairOf b.kind).2 := by
  obtain ⟨inner, c, rest, hdrop, hinner, hc⟩ := h.split hb opens
  have hrest := (drop_eq_cons hdrop).2
  refine ⟨c, ?_, hc⟩
  rw [matchingClose_of_split hdrop opens hinner hc, ← List.getElem?_drop, hrest,
    List.getElem?_append_right (Nat.le_refl _), Nat.sub_self]
  rfl

end Group

/-- No token on the way to the first variable of a property ends its head. -/
theorem firstVariable?_spec {start v : Nat}
    (h : firstVariable? ((ts.drop start).zipIdx start) = some v) :
    (∃ t, ts[v]? = some t ∧ t.kind = .dollarName) ∧
      ∀ k u, start ≤ k → k < v → ts[k]? = some u → u.isSignificant = true →
        endsPropertyHead u = false := by
  generalize hus : ts.drop start = us at h
  induction us generalizing start with
  | nil => cases h
  | cons t us ih =>
      obtain ⟨ht, hrest⟩ := drop_eq_cons hus
      -- the token at `start` is passed over, and the rest is as it is from the next one on
      have further : firstVariable? (us.zipIdx (start + 1)) = some v →
          (t.isSignificant = true → endsPropertyHead t = false) →
          (∃ t, ts[v]? = some t ∧ t.kind = .dollarName) ∧
            ∀ k u, start ≤ k → k < v → ts[k]? = some u → u.isSignificant = true →
              endsPropertyHead u = false := by
        intro h htoken
        obtain ⟨hvar, hskip⟩ := ih hrest h
        refine ⟨hvar, fun k u hk hlt hu hsig => ?_⟩
        rcases Nat.eq_or_lt_of_le hk with rfl | hk
        · rw [ht, Option.some.injEq] at hu
          rw [← hu] at hsig ⊢
          exact htoken hsig
        · exact hskip k u hk hlt hu hsig
      rw [List.zipIdx_cons, firstVariable?] at h
      split at h
      · rename_i hsig
        refine further h fun hsig' => ?_
        rw [hsig'] at hsig
        cases hsig
      split at h
      · rename_i hvar
        cases h
        exact ⟨⟨t, ht, hvar⟩, fun k u hk hlt => absurd hk (by omega)⟩
      split at h
      · cases h
      · rename_i hends
        exact further h fun _ => Bool.eq_false_iff.2 hends

namespace Recognized

variable {s : Site} {i : Nat} {t : Token} {r : Recognition} {d : Declaration}

/-- A body ends with the bracket that closes its group. -/
theorem closing_eq (h : Recognized s i t r) {c : Scope} (hc : r.scope = some c) :
    c.closing = matchingClose s.tokens c.opening := by
  cases h with
  | nothing => cases hc
  | classLike =>
      obtain ⟨o, ho, rfl⟩ := Option.map_eq_some_iff.1 hc
      exact (bodyFrom_opening ho).2.2.1
  | function =>
      obtain ⟨o, ho, rfl⟩ := Option.map_eq_some_iff.1 hc
      exact (bodyFrom_opening ho).2.2.1
  | constants => cases hc
  | properties => cases hc
  | define => cases hc

/-- Only members belong to a class. -/
theorem isMember_of_owner? (h : Recognized s i t r) (hd : d ∈ r.declarations) {name : Text}
    (hname : d.owner? = some name) : d.isMember = true := by
  cases h with
  | nothing => cases hd
  | classLike => rw [List.mem_singleton.1 hd] at hname; cases hname
  | function => rw [List.mem_singleton.1 hd]; rfl
  | constants => obtain ⟨p, _, rfl⟩ := List.mem_map.1 hd; rfl
  | properties => obtain ⟨p, _, rfl⟩ := List.mem_map.1 hd; rfl
  | define => rw [List.mem_singleton.1 hd] at hname; cases hname

section Body

variable {o : Nat} {b : Token} (balanced : Balanced s.tokens) (hb : s.tokens[o]? = some b)
  (brace : b.kind = .openBrace) (hlt : o < i)

include balanced hb brace hlt

/-- **Properties and constants found in braces stay in them.** -/
theorem statement_within (hgt : i < matchingClose s.tokens o) (h : Recognized s i t r)
    (ht : s.tokens[i]? = some t) (hd : d ∈ r.declarations) (hm : d.isMember = true)
    (hs : d.isStatement = true) :
    o < d.span.first ∧ d.span.last ≤ matchingClose s.tokens o := by
  have opens : b.kind.opens = true := by rw [brace]; rfl
  cases h with
  | nothing => cases hd
  | classLike => rw [List.mem_singleton.1 hd] at hs; cases hs
  | function => rw [List.mem_singleton.1 hd] at hs; cases hs
  | constants =>
      obtain ⟨p, _, rfl⟩ := List.mem_map.1 hd
      refine ⟨?_, statementEnd_le_matchingClose balanced hb opens (by omega) (by omega)⟩
      -- the walk back over modifiers does not pass the brace
      obtain ⟨_, honly⟩ := statementStart_spec (Nat.le_of_lt (List.getElem?_eq_some_iff.1 ht).1)
      refine Nat.lt_of_not_le fun hle => ?_
      rcases honly o b hle hlt hb with hsig | hmod
      · exact Token.kind_ne_of_not_isSignificant hsig (by decide) brace
      · rw [Token.kind_of_isModifier hmod] at brace
        cases brace
  | properties v word inside first =>
      obtain ⟨p, _, rfl⟩ := List.mem_map.1 hd
      refine ⟨hlt, ?_⟩
      have hv : i + 1 ≤ v :=
        le_firstVariable? (fun p hp => (getElem?_of_mem_zipIdx_drop hp).2) first
      obtain ⟨⟨u, hu, hvar⟩, hskip⟩ := firstVariable?_spec first
      -- nor does the head of a property pass the brace that closes the group
      obtain ⟨c, hcget, hc⟩ := exists_getElem?_matchingClose balanced hb opens
      rw [brace] at hc
      have hc : c.kind = .closeBrace := hc
      have hvle : v ≤ matchingClose s.tokens o := by
        refine Nat.le_of_not_lt fun hpast => ?_
        have := hskip _ c hgt hpast hcget (Token.isSignificant_of_kind hc rfl)
        simp [endsPropertyHead, hc] at this
      exact statementEnd_le_matchingClose balanced hb opens (by omega) hvle
  | define => rw [List.mem_singleton.1 hd] at hm; cases hm

/-- **A method found in braces stays in them exactly when its head ends there**, or when nothing
follows the braces. -/
theorem function_within_iff (h : Recognized s i t r) (ht : s.tokens[i]? = some t)
    {g : FunctionDecl} (hg : .function g ∈ r.declarations) :
    g.span.last ≤ matchingClose s.tokens o ↔
      (∃ stop, g.HeadEnds s.tokens stop ∧ stop < matchingClose s.tokens o) ∨
        matchingClose s.tokens o + 1 = s.tokens.length := by
  have opens : b.kind.opens = true := by rw [brace]; rfl
  have hlen : matchingClose s.tokens o < s.tokens.length :=
    matchingClose_lt (Nat.zero_lt_of_lt (List.getElem?_eq_some_iff.1 hb).1) o
  obtain ⟨c, hcget, hc⟩ := exists_getElem?_matchingClose balanced hb opens
  rw [brace] at hc
  have hc : c.kind = .closeBrace := hc
  -- what ends a head is not the brace that closes the group
  have hne : ∀ {m u}, s.tokens[m]? = some u → u.kind ≠ .closeBrace →
      m ≠ matchingClose s.tokens o := by
    rintro m u hu hkind rfl
    rw [hcget, Option.some.injEq] at hu
    exact hkind (hu ▸ hc)
  -- the body of the method is a group of its own
  have hbody : ∀ {p}, g.body = some p → i < p ∧ (∃ u, s.tokens[p]? = some u ∧ u.kind = .openBrace) ∧
      g.span.last = matchingClose s.tokens p := by
    intro p hp
    have hscope : (Declaration.function g).scope? = some ⟨.function, g.name, p, g.span.last⟩ := by
      rw [Declaration.scope?, hp]
      rfl
    have hr := h.scope_of_mem hg hscope
    exact ⟨(h.scope_spec hr).1, (h.scope_spec hr).2.1, h.closing_eq hr⟩
  constructor
  · intro hlast
    obtain ⟨stop, _, hends, _, _, _⟩ := h.head_spec hg
    cases hends with
    | brace p u body here kind =>
        obtain ⟨_, _, hclose⟩ := hbody body
        have hle := le_matchingClose (List.getElem?_eq_some_iff.1 here).1
        have := hne here (by rw [kind]; decide)
        exact Or.inl ⟨stop, .brace stop u body here kind, by omega⟩
    | semicolon u body here kind =>
        have := hne here (by rw [kind]; decide)
        exact Or.inl ⟨_, .semicolon u body here kind, by omega⟩
    | never body last => exact Or.inr (by omega)
  · rintro (⟨stop, hends, hstop⟩ | hend)
    · cases hends with
      | brace p u body here kind =>
          obtain ⟨hip, _, hclose⟩ := hbody body
          rw [hclose]
          exact Nat.le_of_lt (matchingClose_lt_matchingClose balanced hb opens (by omega) hstop here
            (by rw [kind]; rfl))
      | semicolon u body here kind => exact Nat.le_of_lt hstop
      | never body last => omega
    · have hlast : g.span.last < s.tokens.length := (h.span_bounds ht hg).2.2
      omega

end Body

end Recognized

namespace Pass

/-- A member that belongs to a class stands in its body, which is the innermost one around it. -/
theorem exists_class_of_owner? {d : Declaration} (hd : d ∈ (ofTokens ts).declarations) {name : Text}
    (hname : d.owner? = some name) :
    ∃ k c, IsInnermost (ofTokens ts) (d.declaringToken ts) (.classLike k) c ∧ name = k.name := by
  obtain ⟨t, ht, _, hfound⟩ := introduced_of_mem_run hd
  have hm := (recognized_foundAt ht).isMember_of_owner? hfound hname
  have hattr := attributed_of_mem_run hd hm d.name
  rw [hname] at hattr
  generalize hown : some name = own at hattr
  generalize qualified (some name) d.name = full at hattr
  cases hattr with
  | toClass k c h => exact ⟨k, c, h, Option.some.inj hown⟩
  | inFunction => cases hown
  | outside => cases hown

/-- The body of a class is a group of braces. -/
theorem group_of_isInnermost {i : Nat} {k : ClassDecl} {c : Scope}
    (h : IsInnermost (ofTokens ts) i (.classLike k) c) :
    k.span.first < c.opening ∧ c.opening < i ∧ i < matchingClose ts c.opening ∧
      k.span.last = matchingClose ts c.opening ∧
      ∃ b, ts[c.opening]? = some b ∧ b.kind = .openBrace := by
  obtain ⟨t, ht, hfound, _⟩ := scope_of_mem_run h.mem h.body
  obtain ⟨hfirst, hbrace, _⟩ := (recognized_foundAt ht).scope_spec hfound
  have hclosing : c.closing = matchingClose ts c.opening :=
    (recognized_foundAt ht).closing_eq hfound
  have hlast : c.closing = k.span.last := by
    obtain ⟨o, _, hc⟩ := Option.map_eq_some_iff.1 h.body
    rw [← hc]
  have hholds := h.holds
  simp only [Scope.holds, Bool.and_eq_true, decide_eq_true_eq] at hholds
  exact ⟨hfirst, hholds.1, by omega, by omega, hbrace⟩

/-- **A property or constant of a class stays inside it.** -/
theorem within_class {d : Declaration} (balanced : Balanced ts)
    (hd : d ∈ (ofTokens ts).declarations) (hs : d.isStatement = true) {name : Text}
    (hname : d.owner? = some name) :
    ∃ k c, IsInnermost (ofTokens ts) (d.declaringToken ts) (.classLike k) c ∧ name = k.name ∧
      d.span.Within k.span := by
  obtain ⟨k, c, hinner, hk⟩ := exists_class_of_owner? hd hname
  obtain ⟨t, ht, _, hfound⟩ := introduced_of_mem_run hd
  obtain ⟨hfirst, hlt, hgt, hlast, b, hb, brace⟩ := group_of_isInnermost hinner
  have hm := (recognized_foundAt ht).isMember_of_owner? hfound hname
  obtain ⟨hstart, hend⟩ :=
    (recognized_foundAt ht).statement_within balanced hb brace hlt hgt ht hfound hm hs
  refine ⟨k, c, hinner, hk, Nat.le_of_lt (Nat.lt_trans hfirst hstart), ?_⟩
  rw [hlast]
  exact hend

end Pass

/-- **Members stay inside their class**, in every file with balanced brackets. A property or a
constant of a class lies in the range of the class whose body is the innermost one around it. A
method does so exactly when its head ends before the class does, with the brace of its body or with
a semicolon, or when the class ends the file. -/
theorem members_within_class (path source : Text)
    (balanced : Balanced (SourceFile.parse path source).tokens) :
    let f := SourceFile.parse path source
    (∀ p ∈ f.outline.properties, ∃ k c,
      IsInnermost f.outline p.span.first (.classLike k) c ∧ p.owner = k.name ∧
        p.span.Within k.span) ∧
    (∀ q ∈ f.outline.constants, ∀ name, q.owner = some name → ∃ k c,
      IsInnermost f.outline ((Declaration.constant q).declaringToken f.tokens) (.classLike k) c ∧
        name = k.name ∧ q.span.Within k.span) ∧
    (∀ g ∈ f.outline.functions, ∀ name, g.owner = some name → ∃ k c,
      IsInnermost f.outline g.span.first (.classLike k) c ∧ name = k.name ∧
        (g.span.Within k.span ↔
          (∃ stop, g.HeadEnds f.tokens stop ∧ stop < k.span.last) ∨
            k.span.last + 1 = f.tokens.length)) := by
  intro f
  refine ⟨fun p hp => ?_, fun q hq name hname => ?_, fun g hg name hname => ?_⟩
  · exact Pass.within_class balanced (mem_properties.1 hp) rfl rfl
  · exact Pass.within_class balanced (mem_constants.1 hq) rfl hname
  · have hd := mem_functions.1 hg
    obtain ⟨k, c, hinner, hk⟩ := Pass.exists_class_of_owner? hd hname
    obtain ⟨t, ht, _, hfound⟩ := Pass.introduced_of_mem_run hd
    obtain ⟨hfirst, hlt, hgt, hlast, b, hb, brace⟩ := Pass.group_of_isInnermost hinner
    refine ⟨k, c, hinner, hk, ?_⟩
    have hiff := (Pass.recognized_foundAt ht).function_within_iff balanced hb brace hlt ht hfound
    rw [hlast]
    refine ⟨fun h => hiff.1 (hlast ▸ h.last), fun h => ⟨?_, hlast ▸ hiff.2 h⟩⟩
    exact Nat.le_of_lt (Nat.lt_trans hfirst hlt)

/-- A property without a semicolon ends in front of the brace that closes its class. -/
theorem members_within_class_open_end :
    let f := SourceFile.parse "a.php" ("<?php class A \x7b const B = [1, 2]; " ++
      "function f($x) \x7b return [$x]; \x7d private $y = 1 \x7d class C \x7b \x7d")
    Balanced f.tokens ∧ f.outline.properties.map (·.name) = [("y" : Text)] ∧
      ∃ p ∈ f.outline.properties, ∃ k c, IsInnermost f.outline p.span.first (.classLike k) c ∧
        p.owner = k.name ∧ p.span.Within k.span := by
  intro f
  obtain ⟨balanced, hnames⟩ : Balanced f.tokens ∧
      f.outline.properties.map (·.name) = [("y" : Text)] := by decide +kernel
  obtain ⟨p, hp, _⟩ := List.map_eq_singleton_iff.1 hnames
  have hmem : p ∈ f.outline.properties := hp ▸ List.mem_singleton_self p
  exact ⟨balanced, hnames, p, hmem, (members_within_class "a.php" _ balanced).1 p hmem⟩

/-- **A method leaves its class**: without a body and a semicolon it takes the body of the function
behind the class, which is lost. -/
theorem method_leaves_class :
    let f := SourceFile.parse "a.php"
      "<?php class A \x7b function f() \x7d function g() \x7b \x7d"
    Balanced f.tokens ∧
      f.outline.functions.map (fun g => (g.name, g.owner)) = [(("f" : Text), some ("A" : Text))] ∧
      ∃ g ∈ f.outline.functions, ∃ k ∈ f.outline.classes, g.owner = some k.name ∧
        ¬ g.span.Within k.span := by
  decide +kernel

end Outline

end DocLint
