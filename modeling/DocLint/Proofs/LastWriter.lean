import DocLint.Proofs.History
import Mathlib.Data.List.Induction

/-!
# The last writer of a rule's state

What a history of operations leaves of a rule is what the last operation that addresses it says.

* `Operation.switches`, `Operation.weights`: what an operation says about whether a rule is enabled
  and about its severity. A configuration says one thing for each of its entries, in their order.
* `isEnabled_perform`, `severities_perform`: one operation; `isEnabled_after`, `severities_after`: a
  whole history.
* `exists_registration`: a registered rule was registered by one operation of the history.
* `last_writer_wins`: the state of a rule after every history that starts with an empty registry.
-/

namespace DocLint

namespace Registry

/-- Whether the rule is to be enabled, in the words of an operation that addresses it. -/
def Operation.switches (r : Rule) : Operation → List Bool
  | .enable selector on => if r.isSelectedBy selector then [on] else []
  | .enableAll => [true]
  | .disableAll => [false]
  | .configure s => s.rules.filterMap fun e => if r.isSelectedBy e.1 then e.2.enabled else none
  | .add _ | .setSeverity _ _ => []

/-- The severities that an operation gives to one of the names. -/
def Operation.weights (names : List Text) : Operation → List Severity
  | .setSeverity selector v => if names.contains selector then [v] else []
  | .configure s => s.rules.filterMap fun e => if names.contains e.1 then e.2.severity else none
  | .add _ | .enable _ _ | .enableAll | .disableAll => []

variable {g : Registry} {r : Rule} {c s : Text}

/-! ## Histories -/

theorem after_append (g : Registry) (history more : List Operation) :
    g.after (history ++ more) = (g.after history).after more :=
  List.foldl_append

theorem code_mem_selectors (r : Rule) : r.code ∈ r.selectors := List.mem_cons_self

theorem get?_eq_none_iff : g.get? s = none ↔ ∀ r ∈ g.rules, s ∉ r.selectors := by
  rw [← Option.not_isSome_iff_eq_none, get?_isSome_iff]
  simp only [not_exists, not_and]

theorem mem_rules_perform {op : Operation} (h : r ∈ (g.perform op).1.rules) :
    r ∈ g.rules ∨ op = .add r ∧ (g.perform op).2 = none := by
  cases op with
  | add r' =>
      change r ∈ (g.addAll [r']).1.rules at h
      show r ∈ g.rules ∨ _ ∧ (g.addAll [r']).2 = none
      rcases addAll_singleton g r' with ⟨e, _, heq⟩ | ⟨g', hok, heq⟩
      · rw [heq] at h
        exact Or.inl h
      · rw [heq] at h
        rw [heq]
        rw [add_eq_ok hok] at h
        rcases List.mem_append.1 h with h | h
        · exact Or.inl h
        · rw [List.mem_singleton.1 h]
          exact Or.inr ⟨rfl, rfl⟩
  | enable selector on => exact Or.inl ((retunes_enable g selector on).rules_eq ▸ h)
  | enableAll => exact Or.inl h
  | disableAll => exact Or.inl h
  | setSeverity selector v => exact Or.inl h
  | configure settings => exact Or.inl ((retunes_configure g settings).rules_eq ▸ h)

/-- A rule that a history leaves registered was there before, or one of the operations registered
it. -/
theorem exists_registration {history : List Operation} (h : r ∈ (g.after history).rules) :
    r ∈ g.rules ∨ ∃ before later, history = before ++ .add r :: later ∧
      ((g.after before).perform (.add r)).2 = none := by
  induction history generalizing g with
  | nil => exact Or.inl h
  | cons op history ih =>
      rcases ih h with h | ⟨before, later, rfl, hok⟩
      · rcases mem_rules_perform h with h | ⟨rfl, hok⟩
        · exact Or.inl h
        · exact Or.inr ⟨[], history, rfl, hok⟩
      · exact Or.inr ⟨op :: before, later, rfl, hok⟩

theorem perform_add_of_none (h : (g.perform (.add r)).2 = none) :
    (g.perform (.add r)).1 = { g with rules := g.rules ++ [r] } ∧
      ∀ s ∈ r.selectors, g.get? s = none := by
  change (g.addAll [r]).2 = none at h
  show (g.addAll [r]).1 = _ ∧ _
  rcases addAll_singleton g r with ⟨e, _, heq⟩ | ⟨g', hok, heq⟩
  · rw [heq] at h
    cases h
  · rw [heq]
    refine ⟨add_eq_ok hok, ?_⟩
    intro s hs
    rw [get?_eq_none_iff]
    intro r' hr' hs'
    obtain ⟨e, herror⟩ := add_eq_error_iff.2 ⟨s, hs, r', hr', hs'⟩
    rw [hok] at herror
    cases herror

theorem mem_rules_of_none (h : (g.perform (.add r)).2 = none) :
    r ∈ (g.perform (.add r)).1.rules := by
  rw [(perform_add_of_none h).1]
  exact List.mem_append_right _ (List.mem_singleton_self r)

/-- A value that every step writes anew or leaves is, after all steps, the one written last. -/
theorem read_foldl {σ β α : Type} (step : σ → β → σ) (read : σ → Option α) (writes : β → List α)
    (s : σ) (steps : List β)
    (h : ∀ past b, past ++ [b] <+: steps →
      read (step (past.foldl step s) b) = (writes b).getLast?.or (read (past.foldl step s))) :
    read (steps.foldl step s) = (steps.flatMap writes).getLast?.or (read s) := by
  induction steps using List.reverseRecOn with
  | nil => rfl
  | append_singleton steps b ih =>
      have hpast := ih fun past b' hb => h past b' (hb.trans (List.prefix_append _ _))
      rw [List.foldl_append, List.flatMap_append, List.flatMap_singleton, List.getLast?_append,
        Option.or_assoc, ← hpast]
      exact h steps b (List.prefix_refl _)

/-- As `read_foldl`, where each step writes once at most. -/
theorem read_foldl_filterMap {σ β α : Type} (step : σ → β → σ) (read : σ → Option α)
    (write : β → Option α) (s : σ) (steps : List β)
    (h : ∀ (past : List β) b,
      read (step (past.foldl step s) b) = (write b).or (read (past.foldl step s))) :
    read (steps.foldl step s) = (steps.filterMap write).getLast?.or (read s) := by
  rw [List.filterMap_eq_flatMap_toList]
  apply read_foldl
  intro past b _
  rw [h past b]
  cases write b <;> rfl

/-! ## Whether a rule is enabled -/

theorem eq_of_selected (hg : IsSound g) {r' : Rule} (hr : r ∈ g.rules) (hr' : r' ∈ g.rules)
    (hs : s ∈ r.selectors) (hs' : s ∈ r'.selectors) : r = r' :=
  Option.some.inj
    (((get?_eq_some_iff hg).2 ⟨hr, hs⟩).symm.trans ((get?_eq_some_iff hg).2 ⟨hr', hs'⟩))

theorem isEnabled_enable (hg : IsSound g) (hr : r ∈ g.rules) (s : Text) (on : Bool) :
    (g.enable s on).isEnabled r.code =
      if r.isSelectedBy s then on else g.isEnabled r.code := by
  unfold enable
  split
  · rename_i hnone
    rw [if_neg]
    intro hs
    exact get?_eq_none_iff.1 hnone r hr (isSelectedBy_iff.1 hs)
  · rename_i r' hr'
    obtain ⟨hmem, hs'⟩ := mem_of_get? hr'
    by_cases hs : r.isSelectedBy s = true
    · rw [if_pos hs, eq_of_selected hg hmem hr hs' (isSelectedBy_iff.1 hs)]
      cases on <;> simp [isEnabled]
    · -- another rule is addressed, and its code is another one
      have hcode : r.code ≠ r'.code := by
        intro hcode
        have hsame := eq_of_selected hg hr hmem (code_mem_selectors r)
          (hcode ▸ code_mem_selectors r')
        exact hs (isSelectedBy_iff.2 (hsame ▸ hs'))
      rw [if_neg hs]
      cases on <;> simp [isEnabled, hcode]

theorem isEnabled_configureRule (hg : IsSound g) (hr : r ∈ g.rules)
    (entry : Text × RuleSetting) :
    (g.configureRule entry).isEnabled r.code =
      (if r.isSelectedBy entry.1 then entry.2.enabled else none).getD (g.isEnabled r.code) := by
  obtain ⟨selector, ⟨enabled, severity⟩⟩ := entry
  -- a severity leaves the enabled codes as they are
  cases enabled with
  | none =>
      have hkeep : (g.configureRule (selector, ⟨none, severity⟩)).isEnabled r.code =
          g.isEnabled r.code := by cases severity <;> rfl
      rw [hkeep]
      split <;> rfl
  | some on =>
      have henable : (g.configureRule (selector, ⟨some on, severity⟩)).isEnabled r.code =
          (g.enable selector on).isEnabled r.code := by cases severity <;> rfl
      rw [henable, isEnabled_enable hg hr]
      split <;> rfl

theorem retunes_entries (g : Registry) (entries : List (Text × RuleSetting)) :
    Retunes g (entries.foldl configureRule g) :=
  have h := retunes_configure g { rules := entries }
  ⟨h.rules_eq, h.enabled⟩

theorem isEnabled_configure (hg : IsSound g) (hr : r ∈ g.rules) (settings : Settings) :
    (g.configure settings).isEnabled r.code =
      ((Operation.configure settings).switches r).getLast?.getD (g.isEnabled r.code) := by
  have h := read_foldl_filterMap configureRule (fun g => some (g.isEnabled r.code))
    (fun e => if r.isSelectedBy e.1 then e.2.enabled else none) g settings.rules ?_
  · exact Option.some.inj (h.trans Option.or_some)
  · intro past e
    have hpast := retunes_entries g past
    have hmem : r ∈ (past.foldl configureRule g).rules := hpast.rules_eq ▸ hr
    rw [isEnabled_configureRule (hpast.isSound hg) hmem e]
    exact Option.or_some.symm

/-- What an operation makes of a registered rule that it addresses. -/
theorem isEnabled_perform (hg : IsSound g) (hr : r ∈ g.rules) (op : Operation) :
    (g.perform op).1.isEnabled r.code =
      (op.switches r).getLast?.getD (g.isEnabled r.code) := by
  cases op with
  | add r' =>
      show (g.addAll [r']).1.isEnabled r.code = _
      rcases addAll_singleton g r' with ⟨e, _, heq⟩ | ⟨g', hok, heq⟩
      · rw [heq]
        rfl
      · rw [heq, add_eq_ok hok]
        rfl
  | enable selector on =>
      refine (isEnabled_enable hg hr selector on).trans ?_
      simp only [Operation.switches]
      split <;> rfl
  | enableAll =>
      show (g.rules.map (·.code)).contains r.code = true
      exact List.contains_iff_mem.2 (List.mem_map_of_mem hr)
  | disableAll => rfl
  | setSeverity selector v => rfl
  | configure settings => exact isEnabled_configure hg hr settings

/-! ## Severities -/

/-- The code of the rule that a selector selects; any other selector stands for itself. -/
def canonical (g : Registry) (selector : Text) : Text :=
  ((g.get? selector).map (·.code)).getD selector

theorem canonical_of_get? (h : g.get? s = some r) : g.canonical s = r.code := by
  rw [canonical, h]
  rfl

theorem canonical_of_none (h : g.get? s = none) : g.canonical s = s := by
  rw [canonical, h]
  rfl

/-- A registered rule is addressed by its selectors. -/
theorem canonical_eq_code_iff (hg : IsSound g) (hr : r ∈ g.rules) :
    g.canonical s = r.code ↔ s ∈ r.selectors := by
  constructor
  · intro h
    cases hget : g.get? s with
    | none =>
        rw [canonical_of_none hget] at h
        rw [h]
        exact code_mem_selectors r
    | some r' =>
        rw [canonical_of_get? hget] at h
        obtain ⟨hr', hs⟩ := mem_of_get? hget
        rw [eq_of_selected hg hr hr' (code_mem_selectors r) (h ▸ code_mem_selectors r')]
        exact hs
  · intro hs
    exact canonical_of_get? ((get?_eq_some_iff hg).2 ⟨hr, hs⟩)

/-- A code that is not taken is addressed by itself alone. -/
theorem canonical_eq_free_iff (hc : g.get? c = none) : g.canonical s = c ↔ s ∈ [c] := by
  rw [List.mem_singleton]
  constructor
  · intro h
    cases hget : g.get? s with
    | none => rw [← h, canonical_of_none hget]
    | some r' =>
        rw [canonical_of_get? hget] at h
        exact absurd (h ▸ code_mem_selectors r') (get?_eq_none_iff.1 hc r' (mem_of_get? hget).1)
  · rintro rfl
    exact canonical_of_none hc

theorem severities_setSeverity (g : Registry) (s : Text) (v : Severity) (c : Text) :
    (g.setSeverity s v).severities.get? c =
      if g.canonical s = c then some v else g.severities.get? c := by
  refine (Table.get?_set g.severities (g.canonical s) c v).trans ?_
  simp only [eq_comm]

theorem canonical_congr {g' : Registry} (h : g'.rules = g.rules) (s : Text) :
    g'.canonical s = g.canonical s := by
  unfold canonical get?
  rw [h]

theorem severities_enable (g : Registry) (s : Text) (on : Bool) :
    (g.enable s on).severities = g.severities := by
  unfold enable
  split <;> rfl

theorem severities_configureRule {names : List Text} (hc : ∀ s, g.canonical s = c ↔ s ∈ names)
    (entry : Text × RuleSetting) :
    (g.configureRule entry).severities.get? c =
      (if names.contains entry.1 then entry.2.severity else none).or (g.severities.get? c) := by
  obtain ⟨selector, ⟨enabled, severity⟩⟩ := entry
  cases severity with
  | none =>
      have hkeep : (g.configureRule (selector, ⟨enabled, none⟩)).severities = g.severities := by
        cases enabled with
        | none => rfl
        | some on => exact severities_enable g selector on
      rw [hkeep]
      split <;> rfl
  | some v =>
      have hset : (g.configureRule (selector, ⟨enabled, some v⟩)).severities.get? c =
          if g.canonical selector = c then some v else g.severities.get? c := by
        cases enabled with
        | none => exact severities_setSeverity g selector v c
        | some on =>
            refine (severities_setSeverity (g.enable selector on) selector v c).trans ?_
            rw [canonical_congr (retunes_enable g selector on).rules_eq, severities_enable]
      rw [hset]
      simp only [hc, List.contains_iff_mem]
      split <;> rfl

/-- What an operation makes of the severity of a code; `names` are the selectors that stand for
it. -/
theorem severities_perform {names : List Text} (hc : ∀ s, g.canonical s = c ↔ s ∈ names)
    (op : Operation) :
    (g.perform op).1.severities.get? c =
      (op.weights names).getLast?.or (g.severities.get? c) := by
  cases op with
  | add r' =>
      show (g.addAll [r']).1.severities.get? c = _
      rcases addAll_singleton g r' with ⟨e, _, heq⟩ | ⟨g', hok, heq⟩
      · rw [heq]
        rfl
      · rw [heq, add_eq_ok hok]
        rfl
  | enable selector on =>
      show (g.enable selector on).severities.get? c = _
      rw [severities_enable]
      rfl
  | enableAll => rfl
  | disableAll => rfl
  | setSeverity selector v =>
      show (g.setSeverity selector v).severities.get? c = _
      simp only [severities_setSeverity, hc, Operation.weights, List.contains_iff_mem]
      split <;> rfl
  | configure settings =>
      refine read_foldl_filterMap configureRule (fun g => g.severities.get? c) _ g settings.rules ?_
      intro past e
      have hpast : ∀ s, (past.foldl configureRule g).canonical s = c ↔ s ∈ names := by
        intro s
        rw [canonical_congr (retunes_entries g past).rules_eq]
        exact hc s
      exact severities_configureRule hpast e

/-! ## The state of a rule after a history -/

/-- The enabled state of a registered rule after a history. -/
theorem isEnabled_after (hg : IsSound g) (hr : r ∈ g.rules) (history : List Operation) :
    (g.after history).isEnabled r.code =
      (history.flatMap (·.switches r)).getLast?.getD (g.isEnabled r.code) := by
  have h := read_foldl (fun g op => (g.perform op).1) (fun g => some (g.isEnabled r.code))
    (·.switches r) g history ?_
  · exact Option.some.inj (h.trans Option.or_some)
  · intro past op _
    have hmem : r ∈ (g.after past).rules := (rules_prefix_after g past).subset hr
    refine (congrArg some (isEnabled_perform (isSound_after hg past) hmem op)).trans ?_
    exact Option.or_some.symm

/-- The severity kept for a code after a history during which `names` are the selectors that stand
for it. -/
theorem severities_after {names : List Text} (history : List Operation)
    (hc : ∀ past, past <+: history → ∀ s, (g.after past).canonical s = c ↔ s ∈ names) :
    (g.after history).severities.get? c =
      (history.flatMap (·.weights names)).getLast?.or (g.severities.get? c) := by
  refine read_foldl (fun g op => (g.perform op).1) (fun g => g.severities.get? c)
    (·.weights names) g history ?_
  intro past op h
  exact severities_perform (hc past ((List.prefix_append _ _).trans h)) op

theorem get?_eq_none_of_prefix {g' : Registry} (h : g.rules <+: g'.rules) (hc : g'.get? c = none) :
    g.get? c = none := by
  rw [get?_eq_none_iff] at hc ⊢
  intro r hr
  exact hc r (h.subset hr)

/-- As long as a code is not taken, only the code itself stands for it. -/
theorem severities_before {before : List Operation} (hc : (g.after before).get? c = none) :
    (g.after before).severities.get? c =
      (before.flatMap (·.weights [c])).getLast?.or (g.severities.get? c) := by
  apply severities_after
  rintro past ⟨rest, rfl⟩ s
  apply canonical_eq_free_iff
  rw [after_append] at hc
  exact get?_eq_none_of_prefix (rules_prefix_after _ rest) hc

section Registration

variable (hg : IsSound g) (hok : (g.perform (.add r)).2 = none) (later : List Operation)

include hg hok

/-- A rule starts disabled, since no rule registered before has its code. -/
theorem isEnabled_since_registration :
    ((g.perform (.add r)).1.after later).isEnabled r.code =
      (later.flatMap (·.switches r)).getLast?.getD false := by
  obtain ⟨hadd, hfree⟩ := perform_add_of_none hok
  have hstart : (g.perform (.add r)).1.isEnabled r.code = false := by
    rw [hadd]
    by_contra hne
    have hon : r.code ∈ g.enabled := List.contains_iff_mem.1 (Bool.of_not_eq_false hne)
    obtain ⟨r', hr', hcode⟩ := hg.registered _ hon
    have hnone := hfree r.code (code_mem_selectors r)
    exact get?_eq_none_iff.1 hnone r' hr' (hcode ▸ code_mem_selectors r')
  rw [isEnabled_after (isSound_perform hg _) (mem_rules_of_none hok), hstart]

/-- A rule takes over the severity that was kept for its code. -/
theorem severities_since_registration :
    ((g.perform (.add r)).1.after later).severities.get? r.code =
      (later.flatMap (·.weights r.selectors)).getLast?.or (g.severities.get? r.code) := by
  have h := severities_after later (g := (g.perform (.add r)).1) (c := r.code) fun past _ s =>
    canonical_eq_code_iff (isSound_after (isSound_perform hg (.add r)) past)
      ((rules_prefix_after _ past).subset (mem_rules_of_none hok))
  rw [h, (perform_add_of_none hok).1]

end Registration

/-- **The last writer wins.** A rule that is registered after some operations on an empty registry
was registered by one of them. It is enabled if the last operation after that one that addresses it,
by its code or by an alias, enables it; its severity is the one given last to its code at any time
or to an alias after its registration, and its own if there is none. -/
theorem last_writer_wins (messages : Catalog) (history : List Operation) (r : Rule)
    (hr : r ∈ (({ messages } : Registry).after history).rules) :
    ∃ before later, history = before ++ .add r :: later ∧
      ((({ messages } : Registry).after before).perform (.add r)).2 = none ∧
      (r ∈ (({ messages } : Registry).after history).enabledRules ↔
        (later.flatMap (·.switches r)).getLast? = some true) ∧
      (({ messages } : Registry).after history).severityOf r =
        ((before.flatMap (·.weights [r.code]) ++
          later.flatMap (·.weights r.selectors)).getLast?).getD r.severity := by
  rcases exists_registration hr with hnone | ⟨before, later, rfl, hok⟩
  · cases hnone
  refine ⟨before, later, rfl, hok, ?_⟩
  have hsound := isSound_after (isSound_empty messages) before
  have hfree := (perform_add_of_none hok).2 r.code (code_mem_selectors r)
  have hsplit : ({ messages } : Registry).after (before ++ .add r :: later) =
      ((({ messages } : Registry).after before).perform (.add r)).1.after later :=
    after_append _ before (.add r :: later)
  constructor
  · unfold enabledRules
    rw [List.mem_filter, hsplit, isEnabled_since_registration hsound hok later]
    rw [hsplit] at hr
    cases (later.flatMap (·.switches r)).getLast? <;> simp [hr]
  · unfold severityOf
    rw [hsplit, severities_since_registration hsound hok later, severities_before hfree,
      List.getLast?_append]
    simp [Table.get?]

/-- A rule that is renamed: its old name counts for a severity only once the rule is registered, and
a configuration by the old name is overruled by what follows. -/
theorem last_writer_wins_summaries :
    let history : List Operation :=
      [.setSeverity "phpdocsfirstline" .info, .setSeverity "phpdocsfistline" .warning,
        .enable "phpdocsfirstline" true, .add Rule.summaries, .enableAll,
        .configure { rules := [("phpdocsfistline", { enabled := some false })] },
        .enable "phpdocsfistline" true, .disableAll, .enable "phpdocsfistline" true]
    let g := ({ } : Registry).after history
    (Rule.summaries ∈ g.rules ∧ g.isEnabled "phpdocsfirstline" = true ∧
      g.severityOf Rule.summaries = .info) ∧
    ∃ before later, history = before ++ .add Rule.summaries :: later ∧
      ((({ } : Registry).after before).perform (.add Rule.summaries)).2 = none ∧
      (Rule.summaries ∈ g.enabledRules ↔
        (later.flatMap (·.switches Rule.summaries)).getLast? = some true) ∧
      g.severityOf Rule.summaries =
        ((before.flatMap (·.weights [Rule.summaries.code]) ++
          later.flatMap (·.weights Rule.summaries.selectors)).getLast?).getD
            Rule.summaries.severity :=
  ⟨⟨List.mem_singleton_self _, by decide +kernel, by decide +kernel⟩,
    last_writer_wins _ _ _ (List.mem_singleton_self _)⟩

end Registry

end DocLint
