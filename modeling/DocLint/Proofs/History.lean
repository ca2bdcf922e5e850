import DocLint.Registry
import Mathlib.Data.List.Basic
import Mathlib.Data.List.Pairwise

/-!
# Registries over a history of operations

* `Operation`, `perform`, `after`: what can be done to a registry, one operation with its error, and
  a whole history.
* `Retunes`: what an operation that registers nothing does; `perform_effect` says what any operation
  does.
* `IsSound`: selectors belong to one rule each, and enabled codes to registered rules;
  `isSound_perform` for one operation and `isSound_after` for a history.
* `get?_eq_some_iff`, `get?_perm`: under `IsSound` a look-up does not depend on the order of the
  rules.
* `sound_after`: all of this for every history that starts with an empty registry.
-/

namespace DocLint

namespace Registry

/-- A call that changes a registry. -/
inductive Operation where
  | add (r : Rule)
  | enable (selector : Text) (on : Bool)
  | enableAll
  | disableAll
  | setSeverity (selector : Text) (s : Severity)
  | configure (s : Settings)

/-- The registry after an operation, and the error if the operation failed. -/
def perform (g : Registry) : Operation → Registry × Option RegistryError
  | .add r => g.addAll [r]
  | .enable selector on => (g.enable selector on, none)
  | .enableAll => (g.enableAll, none)
  | .disableAll => (g.disableAll, none)
  | .setSeverity selector s => (g.setSeverity selector s, none)
  | .configure s => (g.configure s, none)

/-- The registry after a history of operations, failed ones included. -/
def after (g : Registry) (history : List Operation) : Registry :=
  history.foldl (fun g op => (g.perform op).1) g

variable {g g' g'' : Registry} {r : Rule} {s : Text}

/-! ## Look-ups -/

theorem isSelectedBy_iff : r.isSelectedBy s = true ↔ s ∈ r.selectors := by
  simp [Rule.isSelectedBy]

theorem mem_of_get? (h : g.get? s = some r) : r ∈ g.rules ∧ s ∈ r.selectors := by
  unfold get? at h
  have hs : r.isSelectedBy s = true := List.find?_some (p := fun r : Rule => r.isSelectedBy s) h
  exact ⟨List.mem_of_find?_eq_some h, isSelectedBy_iff.1 hs⟩

theorem get?_isSome_iff : (g.get? s).isSome = true ↔ ∃ r ∈ g.rules, s ∈ r.selectors := by
  unfold get?
  rw [List.find?_isSome]
  simp only [isSelectedBy_iff]

/-! ## One operation -/

/-- The registered rules stay, and only codes of registered rules are enabled. -/
structure Retunes (g g' : Registry) : Prop where
  rules_eq : g'.rules = g.rules
  enabled : ∀ c ∈ g'.enabled, c ∈ g.enabled ∨ ∃ r ∈ g.rules, r.code = c

theorem Retunes.refl (g : Registry) : Retunes g g :=
  ⟨rfl, fun _ hc => Or.inl hc⟩

theorem Retunes.trans (h : Retunes g g') (h' : Retunes g' g'') : Retunes g g'' := by
  refine ⟨h'.rules_eq.trans h.rules_eq, ?_⟩
  intro c hc
  rcases h'.enabled c hc with hc | hc
  · exact h.enabled c hc
  · rw [h.rules_eq] at hc
    exact Or.inr hc

theorem retunes_enable (g : Registry) (selector : Text) (on : Bool) :
    Retunes g (g.enable selector on) := by
  unfold enable
  split
  · exact Retunes.refl g
  · rename_i r hr
    have hmem := (mem_of_get? hr).1
    have hothers : ∀ c ∈ g.enabled.filter (· != r.code), c ∈ g.enabled := by
      intro c hc
      exact (List.mem_filter.1 hc).1
    cases on with
    | false => exact ⟨rfl, fun c hc => Or.inl (hothers c hc)⟩
    | true =>
        refine ⟨rfl, ?_⟩
        intro c hc
        rcases List.mem_cons.1 hc with rfl | hc
        · exact Or.inr ⟨r, hmem, rfl⟩
        · exact Or.inl (hothers c hc)

theorem retunes_enableAll (g : Registry) : Retunes g g.enableAll := by
  refine ⟨rfl, ?_⟩
  intro c hc
  obtain ⟨r, hr, rfl⟩ := List.mem_map.1 hc
  exact Or.inr ⟨r, hr, rfl⟩

theorem retunes_disableAll (g : Registry) : Retunes g g.disableAll := by
  refine ⟨rfl, ?_⟩
  intro c hc
  cases hc

theorem retunes_setSeverity (g : Registry) (selector : Text) (v : Severity) :
    Retunes g (g.setSeverity selector v) :=
  ⟨rfl, fun _ hc => Or.inl hc⟩

theorem retunes_configureRule (g : Registry) (entry : Text × RuleSetting) :
    Retunes g (g.configureRule entry) := by
  obtain ⟨selector, ⟨enabled, severity⟩⟩ := entry
  cases enabled with
  | none =>
      cases severity with
      | none => exact Retunes.refl g
      | some v => exact retunes_setSeverity g selector v
  | some on =>
      cases severity with
      | none => exact retunes_enable g selector on
      | some v => exact (retunes_enable g selector on).trans (retunes_setSeverity _ selector v)

theorem retunes_configure (g : Registry) (settings : Settings) :
    Retunes g (g.configure settings) := by
  have hfold : ∀ (entries : List (Text × RuleSetting)) (g : Registry),
      Retunes g (entries.foldl configureRule g) := by
    intro entries
    induction entries with
    | nil => exact Retunes.refl
    | cons e entries ih =>
        intro g
        exact (retunes_configureRule g e).trans (ih _)
  -- the messages are neither rules nor codes
  have h := hfold settings.rules g
  exact ⟨h.rules_eq, h.enabled⟩

theorem add_eq_error_iff :
    (∃ e, g.add r = .error e) ↔ ∃ s ∈ r.selectors, ∃ r' ∈ g.rules, s ∈ r'.selectors := by
  simp only [← get?_isSome_iff, ← List.find?_isSome]
  unfold add
  cases r.selectors.find? fun s => (g.get? s).isSome with
  | none => simp
  | some s => simp

theorem add_eq_ok (h : g.add r = .ok g') : g' = { g with rules := g.rules ++ [r] } := by
  unfold add at h
  split at h
  · cases h
  · cases h
    rfl

theorem addAll_singleton (g : Registry) (r : Rule) :
    (∃ e, g.add r = .error e ∧ g.addAll [r] = (g, some e)) ∨
      ∃ g', g.add r = .ok g' ∧ g.addAll [r] = (g', none) := by
  unfold addAll
  cases h : g.add r with
  | error e => exact Or.inl ⟨e, rfl, rfl⟩
  | ok g' => exact Or.inr ⟨g', rfl, rfl⟩

/-- An operation registers a rule none of whose selectors is taken, or it registers nothing. -/
theorem perform_effect (g : Registry) (op : Operation) :
    Retunes g (g.perform op).1 ∨
      ∃ r, (∀ s ∈ r.selectors, ∀ r' ∈ g.rules, s ∉ r'.selectors) ∧
        (g.perform op).1 = { g with rules := g.rules ++ [r] } := by
  cases op with
  | add r =>
      show Retunes g (g.addAll [r]).1 ∨ _
      rcases addAll_singleton g r with ⟨e, _, h⟩ | ⟨g', hok, h⟩
      · rw [h]
        exact Or.inl (Retunes.refl g)
      · refine Or.inr ⟨r, ?_, ?_⟩
        · intro s hs r' hr' hs'
          obtain ⟨e, herror⟩ := add_eq_error_iff.2 ⟨s, hs, r', hr', hs'⟩
          rw [hok] at herror
          cases herror
        · show (g.addAll [r]).1 = _
          rw [h]
          exact add_eq_ok hok
  | enable selector on => exact Or.inl (retunes_enable g selector on)
  | enableAll => exact Or.inl (retunes_enableAll g)
  | disableAll => exact Or.inl (retunes_disableAll g)
  | setSeverity selector v => exact Or.inl (retunes_setSeverity g selector v)
  | configure settings => exact Or.inl (retunes_configure g settings)

theorem rules_prefix_perform (g : Registry) (op : Operation) :
    g.rules <+: (g.perform op).1.rules := by
  rcases perform_effect g op with h | ⟨r, _, h⟩
  · exact ⟨[], by rw [h.rules_eq, List.append_nil]⟩
  · exact ⟨[r], by rw [h]⟩

/-! ## The invariant -/

/-- No selector belongs to two registered rules, and every enabled code is that of a registered
rule. -/
structure IsSound (g : Registry) : Prop where
  apart : g.rules.Pairwise fun r r' => List.Disjoint r.selectors r'.selectors
  registered : ∀ c ∈ g.enabled, ∃ r ∈ g.rules, r.code = c

theorem isSound_empty (messages : Catalog) : IsSound { messages } :=
  ⟨List.Pairwise.nil, fun c hc => by cases hc⟩

theorem Retunes.isSound (h : Retunes g g') (hg : IsSound g) : IsSound g' := by
  refine ⟨by rw [h.rules_eq]; exact hg.apart, ?_⟩
  intro c hc
  rw [h.rules_eq]
  rcases h.enabled c hc with hc | hc
  · exact hg.registered c hc
  · exact hc

theorem isSound_register (hg : IsSound g)
    (hfree : ∀ s ∈ r.selectors, ∀ r' ∈ g.rules, s ∉ r'.selectors) :
    IsSound { g with rules := g.rules ++ [r] } := by
  constructor
  · refine List.pairwise_append.2 ⟨hg.apart, List.pairwise_singleton _ _, ?_⟩
    intro r' hr' r'' hr'' s hs' hs
    rw [List.mem_singleton.1 hr''] at hs
    exact hfree s hs r' hr' hs'
  · intro c hc
    obtain ⟨r', hr', hcode⟩ := hg.registered c hc
    exact ⟨r', List.mem_append_left _ hr', hcode⟩

theorem isSound_perform (hg : IsSound g) (op : Operation) : IsSound (g.perform op).1 := by
  rcases perform_effect g op with h | ⟨r, hfree, h⟩
  · exact h.isSound hg
  · rw [h]
    exact isSound_register hg hfree

/-- What every operation keeps holds after any history. -/
theorem after_induction {P : Registry → Prop} (next : ∀ g op, P g → P (g.perform op).1)
    (history : List Operation) (hg : P g) : P (g.after history) := by
  unfold after
  induction history generalizing g with
  | nil => exact hg
  | cons op history ih => exact ih (next g op hg)

theorem isSound_after (hg : IsSound g) (history : List Operation) : IsSound (g.after history) :=
  after_induction (P := IsSound) (fun _ op h => isSound_perform h op) history hg

theorem rules_prefix_after (g : Registry) (history : List Operation) :
    g.rules <+: (g.after history).rules :=
  after_induction (P := fun g' => g.rules <+: g'.rules)
    (fun g' op h => h.trans (rules_prefix_perform g' op)) history (List.prefix_refl _)

instance : Std.Symm fun r r' : Rule => List.Disjoint r.selectors r'.selectors :=
  ⟨fun _ _ h => List.disjoint_symm h⟩

/-- A selector finds the one rule that it selects. -/
theorem get?_eq_some_iff (hg : IsSound g) :
    g.get? s = some r ↔ r ∈ g.rules ∧ s ∈ r.selectors := by
  constructor
  · exact mem_of_get?
  · rintro ⟨hr, hs⟩
    obtain ⟨r', hr'⟩ := Option.isSome_iff_exists.1 (get?_isSome_iff.2 ⟨r, hr, hs⟩)
    obtain ⟨hmem, hs'⟩ := mem_of_get? hr'
    -- two rules that differ would be apart, and both are selected
    by_cases heq : r' = r
    · rw [← heq]
      exact hr'
    · exact absurd hs (hg.apart.forall hmem hr heq hs')

theorem get?_perm (hg : IsSound g) {rules : List Rule} (h : rules.Perm g.rules) :
    ({ g with rules } : Registry).get? s = g.get? s := by
  have hperm : IsSound { g with rules } := by
    refine ⟨h.symm.pairwise hg.apart fun hd => List.disjoint_symm hd, ?_⟩
    intro c hc
    obtain ⟨r, hr, hcode⟩ := hg.registered c hc
    exact ⟨r, h.mem_iff.2 hr, hcode⟩
  apply Option.ext
  intro r
  rw [get?_eq_some_iff hperm, get?_eq_some_iff hg]
  show r ∈ rules ∧ _ ↔ _
  rw [h.mem_iff]

theorem isEnabled_iff (hg : IsSound g) (c : Text) :
    g.isEnabled c = true ↔ c ∈ g.enabledRules.map (·.code) := by
  unfold isEnabled enabledRules
  simp only [List.contains_iff_mem, List.mem_map, List.mem_filter, isEnabled]
  constructor
  · intro hc
    obtain ⟨r, hr, rfl⟩ := hg.registered c hc
    exact ⟨r, ⟨hr, hc⟩, rfl⟩
  · rintro ⟨r, ⟨_, hc⟩, rfl⟩
    exact hc

theorem perform_add (g : Registry) (r : Rule) :
    ((g.perform (.add r)).2.isSome = true ↔
        ∃ s ∈ r.selectors, ∃ r' ∈ g.rules, s ∈ r'.selectors) ∧
      ∀ e, (g.perform (.add r)).2 = some e →
        (g.perform (.add r)).1 = g ∧ ∃ s ∈ r.selectors, e = .taken s := by
  show ((g.addAll [r]).2.isSome = true ↔ _) ∧ ∀ e, (g.addAll [r]).2 = some e → (g.addAll [r]).1 = g ∧ _
  rw [← add_eq_error_iff]
  rcases addAll_singleton g r with ⟨e, herror, h⟩ | ⟨g', hok, h⟩
  · rw [h, herror]
    refine ⟨⟨fun _ => ⟨e, rfl⟩, fun _ => rfl⟩, ?_⟩
    intro e' he
    cases he
    refine ⟨rfl, ?_⟩
    unfold add at herror
    split at herror
    · rename_i s hs
      cases herror
      exact ⟨s, List.mem_of_find?_eq_some hs, rfl⟩
    · cases herror
  · rw [h, hok]
    simp

/-- **A registry stays sound over every history.** After any operations on an empty registry:
selectors belong to one rule each, so that a look-up finds the rule that its selector selects
whatever the order of registration; enabled codes are those of the enabled rules; the rules
registered so far stay in front and the enabled ones are some of them in order; and a rule is
refused exactly when one of its selectors is taken, which changes nothing. -/
theorem sound_after (messages : Catalog) (history : List Operation) :
    let g := ({ messages } : Registry).after history
    (g.rules.Pairwise fun r r' => List.Disjoint r.selectors r'.selectors) ∧
    (∀ s r, g.get? s = some r ↔ r ∈ g.rules ∧ s ∈ r.selectors) ∧
    (∀ s rules, rules.Perm g.rules → ({ g with rules } : Registry).get? s = g.get? s) ∧
    (∀ c ∈ g.enabled, ∃ r ∈ g.rules, r.code = c) ∧
    (∀ c, g.isEnabled c = true ↔ c ∈ g.enabledRules.map (·.code)) ∧
    (∀ more, g.rules <+: (g.after more).rules) ∧
    g.enabledRules.Sublist g.rules ∧
    (∀ r, ((g.perform (.add r)).2.isSome = true ↔
        ∃ s ∈ r.selectors, ∃ r' ∈ g.rules, s ∈ r'.selectors) ∧
      ∀ e, (g.perform (.add r)).2 = some e →
        (g.perform (.add r)).1 = g ∧ ∃ s ∈ r.selectors, e = .taken s) := by
  intro g
  have hg : IsSound g := isSound_after (isSound_empty messages) history
  refine ⟨hg.apart, fun s r => get?_eq_some_iff hg, fun s rules h => get?_perm hg h,
    hg.registered, isEnabled_iff hg, rules_prefix_after g, List.filter_sublist, perform_add g⟩

end Registry

end DocLint
