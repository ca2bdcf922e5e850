import DocLint.Proofs.LastWriter
import Mathlib.Data.List.Nodup

/-!
# The order of the settings of rules

Settings are a table: nothing is said about the order in which its entries are applied. Two entries
with different keys can still address one rule, by its code and by an alias.

* `SameState`: registries that cannot be told apart.
* `Coherent`: entries that address one rule say the same about it.
* `configure_order_free_iff`: the order of the entries does not matter exactly if they are coherent.
-/

namespace DocLint

namespace Registry

/-- The registries have the same rules, enable the same codes and give the same severities and
messages. -/
structure SameState (g g' : Registry) : Prop where
  rules_eq : g.rules = g'.rules
  isEnabled_eq : ∀ c, g.isEnabled c = g'.isEnabled c
  severity_eq : ∀ c, g.severities.get? c = g'.severities.get? c
  message_eq : ∀ key, g.messages.get? key = g'.messages.get? key

/-- No two entries that address one rule disagree on whether it is enabled or on its severity. -/
def Coherent (g : Registry) (entries : List (Text × RuleSetting)) : Prop :=
  ∀ r ∈ g.rules, ∀ e ∈ entries, ∀ e' ∈ entries, e.1 ∈ r.selectors → e'.1 ∈ r.selectors →
    (∀ on ∈ e.2.enabled, ∀ on' ∈ e'.2.enabled, on = on') ∧
      ∀ v ∈ e.2.severity, ∀ v' ∈ e'.2.severity, v = v'

variable {g : Registry} {r : Rule} {c : Text}

/-! ## Last values and permutations -/

/-- Permuted lists of one value, however often, end in the same way. -/
theorem getLast?_eq_of_perm {α : Type} {l l' : List α} (h : l.Perm l')
    (hconst : ∀ a ∈ l, ∀ b ∈ l, a = b) : l.getLast? = l'.getLast? := by
  cases hl : l.getLast? with
  | none =>
      rw [List.getLast?_eq_none_iff] at hl
      rw [hl, List.nil_perm] at h
      rw [h]
      rfl
  | some a =>
      have ha := List.mem_of_getLast? hl
      cases hl' : l'.getLast? with
      | none =>
          rw [List.getLast?_eq_none_iff.1 hl'] at h
          rw [h.mem_iff] at ha
          cases ha
      | some b => rw [hconst a ha b (h.mem_iff.2 (List.mem_of_getLast? hl'))]

/-- What the entries with one of the names say last, if they all say the same. -/
theorem getLast?_filterMap_perm {α : Type} (f : RuleSetting → Option α) (names : List Text)
    {entries entries' : List (Text × RuleSetting)} (h : entries'.Perm entries)
    (hconst : ∀ e ∈ entries, ∀ e' ∈ entries, e.1 ∈ names → e'.1 ∈ names →
      ∀ a ∈ f e.2, ∀ b ∈ f e'.2, a = b) :
    (entries'.filterMap fun e => if names.contains e.1 then f e.2 else none).getLast? =
      (entries.filterMap fun e => if names.contains e.1 then f e.2 else none).getLast? := by
  refine (getLast?_eq_of_perm (h.symm.filterMap _) ?_).symm
  intro a ha b hb
  obtain ⟨e, he, hea⟩ := List.mem_filterMap.1 ha
  obtain ⟨e', he', heb⟩ := List.mem_filterMap.1 hb
  rw [Option.ite_none_right_eq_some, List.contains_iff_mem] at hea heb
  exact hconst e he e' he' hea.1 heb.1 a hea.2 b heb.2

/-- An entry can be moved to the end, where it has the last word. -/
theorem exists_perm_last {α : Type} (f : RuleSetting → Option α) {names : List Text} {a : α}
    {entries : List (Text × RuleSetting)} {e : Text × RuleSetting} (he : e ∈ entries)
    (hname : e.1 ∈ names) (ha : a ∈ f e.2) :
    ∃ entries' : List (Text × RuleSetting), entries'.Perm entries ∧
      (entries'.filterMap fun e => if names.contains e.1 then f e.2 else none).getLast? =
        some a := by
  refine ⟨entries.erase e ++ [e], ?_, ?_⟩
  · exact (List.perm_append_singleton e _).trans (List.perm_cons_erase he).symm
  · simp [hname, Option.mem_def.1 ha]

/-! ## What a configuration leaves -/

theorem messages_configureRule (g : Registry) (entry : Text × RuleSetting) :
    (g.configureRule entry).messages = g.messages := by
  obtain ⟨selector, ⟨enabled, severity⟩⟩ := entry
  have henable : ∀ on, (g.enable selector on).messages = g.messages := by
    intro on
    unfold enable
    split <;> rfl
  cases enabled with
  | none => cases severity <;> rfl
  | some on => cases severity <;> exact henable on

theorem messages_configure (g : Registry) (s : Settings) :
    (g.configure s).messages = g.messages.extend s.messages := by
  have hfold : ∀ (entries : List (Text × RuleSetting)) (g : Registry),
      (entries.foldl configureRule g).messages = g.messages := by
    intro entries
    induction entries with
    | nil => exact fun _ => rfl
    | cons e entries ih =>
        intro g
        exact (ih _).trans (messages_configureRule g e)
  exact congrArg (·.extend s.messages) (hfold s.rules g)

/-- Two selectors that stand for one code are the same or select one rule. -/
theorem eq_or_selected_of_canonical_eq (hg : IsSound g) {s s' : Text}
    (h : g.canonical s = g.canonical s') :
    s = s' ∨ ∃ r ∈ g.rules, s ∈ r.selectors ∧ s' ∈ r.selectors := by
  cases hs : g.get? s with
  | none =>
      rw [canonical_of_none hs] at h
      exact Or.inl (List.mem_singleton.1 ((canonical_eq_free_iff hs).1 h.symm)).symm
  | some r =>
      obtain ⟨hr, hmem⟩ := mem_of_get? hs
      rw [canonical_of_get? hs] at h
      exact Or.inr ⟨r, hr, hmem, (canonical_eq_code_iff hg hr).1 h.symm⟩

/-- The selectors that stand for a code: those of the rule with this code, the code itself if it is
not taken, and none if it is an alias. -/
theorem exists_names (hg : IsSound g) (c : Text) :
    ∃ names : List Text, ∀ s, g.canonical s = c ↔ s ∈ names := by
  cases hc : g.get? c with
  | none => exact ⟨[c], fun s => canonical_eq_free_iff hc⟩
  | some r =>
      obtain ⟨hr, hmem⟩ := mem_of_get? hc
      by_cases hcode : r.code = c
      · exact ⟨r.selectors, fun s => hcode ▸ canonical_eq_code_iff hg hr⟩
      · refine ⟨[], fun s => ⟨fun h => ?_, fun h => by cases h⟩⟩
        cases hs : g.get? s with
        | none =>
            rw [canonical_of_none hs] at h
            rw [h, hc] at hs
            cases hs
        | some r' =>
            rw [canonical_of_get? hs] at h
            have hr' := (mem_of_get? hs).1
            rw [eq_of_selected hg hr' hr (h ▸ code_mem_selectors r') hmem] at h
            exact absurd h hcode

section Order

variable (hg : IsSound g) {s : Settings} {entries : List (Text × RuleSetting)}

include hg

theorem isEnabled_configure_perm (hcoherent : Coherent g s.rules) (h : entries.Perm s.rules)
    (c : Text) :
    (g.configure { s with rules := entries }).isEnabled c = (g.configure s).isEnabled c := by
  by_cases hc : ∃ r ∈ g.rules, r.code = c
  · obtain ⟨r, hr, rfl⟩ := hc
    rw [isEnabled_configure hg hr, isEnabled_configure hg hr]
    have hlast := getLast?_filterMap_perm (·.enabled) r.selectors h
      fun e he e' he' hs hs' => (hcoherent r hr e he e' he' hs hs').1
    exact congrArg (·.getD (g.isEnabled r.code)) hlast
  · -- the code of no rule is enabled in neither registry
    have hoff : ∀ s : Settings, (g.configure s).isEnabled c = false := by
      intro s
      have hsound := (retunes_configure g s).isSound hg
      by_contra hne
      have hon : c ∈ (g.configure s).enabled :=
        List.contains_iff_mem.1 (Bool.of_not_eq_false hne)
      obtain ⟨r, hr, hcode⟩ := hsound.registered c hon
      rw [(retunes_configure g s).rules_eq] at hr
      exact hc ⟨r, hr, hcode⟩
    rw [hoff, hoff]

theorem severities_configure_perm (hkeys : (s.rules.map (·.1)).Nodup)
    (hcoherent : Coherent g s.rules) (h : entries.Perm s.rules) (c : Text) :
    (g.configure { s with rules := entries }).severities.get? c =
      (g.configure s).severities.get? c := by
  obtain ⟨names, hnames⟩ := exists_names hg c
  refine (severities_perform hnames (.configure { s with rules := entries })).trans ?_
  refine Eq.trans ?_ (severities_perform hnames (.configure s)).symm
  have hlast := getLast?_filterMap_perm (·.severity) names h ?_
  · exact congrArg (Option.or · (g.severities.get? c)) hlast
  intro e he e' he' hn hn'
  have hsame : g.canonical e.1 = g.canonical e'.1 :=
    ((hnames _).2 hn).trans ((hnames _).2 hn').symm
  rcases eq_or_selected_of_canonical_eq hg hsame with hkey | ⟨r, hr, hs, hs'⟩
  · -- a key has one entry
    rw [List.inj_on_of_nodup_map hkeys he he' hkey]
    intro a ha b hb
    exact Option.mem_unique ha hb
  · exact (hcoherent r hr e he e' he' hs hs').2

/-- Entries that can be applied in any order are coherent. -/
theorem coherent_of_order_free
    (h : ∀ entries : List (Text × RuleSetting), entries.Perm s.rules →
      SameState (g.configure { s with rules := entries }) (g.configure s)) :
    Coherent g s.rules := by
  intro r hr e he e' he' hs hs'
  constructor
  · have hlast : ∀ e ∈ s.rules, e.1 ∈ r.selectors → ∀ on ∈ e.2.enabled,
        (g.configure s).isEnabled r.code = on := by
      intro e he hs on hon
      obtain ⟨entries, hperm, hlast⟩ := exists_perm_last (·.enabled) he hs hon
      rw [← (h entries hperm).isEnabled_eq, isEnabled_configure hg hr]
      exact congrArg (·.getD (g.isEnabled r.code)) hlast
    intro on hon on' hon'
    rw [← hlast e he hs on hon, ← hlast e' he' hs' on' hon']
  · have hlast : ∀ e ∈ s.rules, e.1 ∈ r.selectors → ∀ v ∈ e.2.severity,
        (g.configure s).severities.get? r.code = some v := by
      intro e he hs v hv
      obtain ⟨entries, hperm, hlast⟩ := exists_perm_last (·.severity) he hs hv
      rw [← (h entries hperm).severity_eq]
      refine (severities_perform (fun _ => canonical_eq_code_iff hg hr)
        (.configure { s with rules := entries })).trans ?_
      exact congrArg (Option.or · (g.severities.get? r.code)) hlast
    intro v hv v' hv'
    exact Option.some.inj ((hlast e he hs v hv).symm.trans (hlast e' he' hs' v' hv'))

end Order

/-- **The order of settings matters only where they contradict each other.** Settings with distinct
keys, applied to a registry after any operations on an empty one, leave the same rules enabled, the
same severities and the same messages in every order of their entries exactly if no two entries that
address one rule disagree about it. -/
theorem configure_order_free_iff (messages : Catalog) (history : List Operation) (s : Settings)
    (hkeys : (s.rules.map (·.1)).Nodup) :
    let g := ({ messages } : Registry).after history
    (∀ entries : List (Text × RuleSetting), entries.Perm s.rules →
      SameState (g.configure { s with rules := entries }) (g.configure s)) ↔
      Coherent g s.rules := by
  intro g
  have hg : IsSound g := isSound_after (isSound_empty messages) history
  constructor
  · exact coherent_of_order_free hg
  · intro hcoherent entries hperm
    refine ⟨?_, isEnabled_configure_perm hg hcoherent hperm,
      severities_configure_perm hg hkeys hcoherent hperm, ?_⟩
    · rw [(retunes_configure g _).rules_eq, (retunes_configure g s).rules_eq]
    · intro key
      rw [messages_configure, messages_configure]

/-- Entries for the old and the new name of a rule that say different things about it. -/
theorem configure_order_free_summaries :
    let s : Settings := { rules := [("phpdocsfirstline", { enabled := some true }),
      ("phpdocsfistline", { severity := some .info })] }
    let g := ({ } : Registry).after [.add Rule.summaries]
    (s.rules.map (·.1)).Nodup ∧
    ((∀ entries : List (Text × RuleSetting), entries.Perm s.rules →
      SameState (g.configure { s with rules := entries }) (g.configure s)) ↔
      Coherent g s.rules) ∧
    SameState (g.configure { s with rules := s.rules.reverse }) (g.configure s) := by
  intro s g
  have hkeys : (s.rules.map (·.1)).Nodup := by decide
  have hiff := configure_order_free_iff Catalog.english [.add Rule.summaries] s hkeys
  refine ⟨hkeys, hiff, hiff.2 ?_ _ (List.reverse_perm _)⟩
  intro r _ e he e' he' _ _
  simp only [s, List.mem_cons, List.not_mem_nil, or_false] at he he'
  rcases he with rfl | rfl <;> rcases he' with rfl | rfl <;> simp

/-- Entries for the old and the new name of a rule that contradict each other: whether the rule is
enabled depends on which of them comes first. -/
theorem configure_order_matters :
    let s : Settings := { rules := [("phpdocsfirstline", { enabled := some true }),
      ("phpdocsfistline", { enabled := some false })] }
    let g := ({ } : Registry).after (Rule.builtin.map .add)
    (s.rules.map (·.1)).Nodup ∧ s.rules.reverse.Perm s.rules ∧
      (g.configure s).isEnabled "phpdocsfirstline" = false ∧
      (g.configure { s with rules := s.rules.reverse }).isEnabled "phpdocsfirstline" = true ∧
      ¬ SameState (g.configure { s with rules := s.rules.reverse }) (g.configure s) := by
  intro s g
  have hfirst : (g.configure s).isEnabled "phpdocsfirstline" = false := by decide +kernel
  have hlast : (g.configure { s with rules := s.rules.reverse }).isEnabled "phpdocsfirstline" =
      true := by decide +kernel
  refine ⟨by decide, List.reverse_perm _, hfirst, hlast, ?_⟩
  intro hsame
  have h := hsame.isEnabled_eq "phpdocsfirstline"
  rw [hfirst, hlast] at h
  cases h

end Registry

end DocLint
