import DocLint.Analysis.Plan
import DocLint.Proofs.LastWriter

/-!
# Selected rules

A request can select rules by their selectors, whatever the registry or the settings enable.

* `enabledRules_selectOnly`: the enabled rules are the selected ones.
* `check_selectOnly`: rules do not interfere. What a selection of them reports is what all of them
  report, without the violations of the others.
* `validate_eq_messages`: the messages of a file are those of its violations.
* `plan_ok_iff`: a request can be worked out if its exclude patterns are well-formed.
-/

namespace DocLint

/-- A class of results that goes by where they come from is that of the sources that give it. -/
theorem flatMap_filter {α β : Type} {p : α → Bool} {q : β → Bool} {f : α → List β} {l : List α}
    (h : ∀ a ∈ l, ∀ b ∈ f a, q b = p a) : (l.filter p).flatMap f = (l.flatMap f).filter q := by
  induction l with
  | nil => rfl
  | cons a l ih =>
      have htail := ih fun a' ha' => h a' (List.mem_cons_of_mem a ha')
      have hhead := h a List.mem_cons_self
      rw [List.flatMap_cons, List.filter_append, ← htail]
      cases hp : p a with
      | true =>
          have hall : (f a).filter q = f a := by
            refine List.filter_eq_self.2 fun b hb => ?_
            rw [hhead b hb, hp]
          rw [List.filter_cons_of_pos hp, List.flatMap_cons, hall]
      | false =>
          have hnone : (f a).filter q = [] := by
            refine List.filter_eq_nil_iff.2 fun b hb => ?_
            rw [hhead b hb, hp]
            exact Bool.false_ne_true
          rw [List.filter_cons_of_neg (Bool.eq_false_iff.1 hp), hnone, List.nil_append]

namespace Registry

variable {g : Registry} {r : Rule}

/-! ## Enabled rules -/

theorem enable_eq (g : Registry) (s : Text) (on : Bool) :
    g.enable s on = { g with enabled := (g.enable s on).enabled } := by
  unfold enable
  split <;> rfl

theorem selectOnly_eq (g : Registry) (selectors : List Text) :
    g.selectOnly selectors = { g with enabled := (g.selectOnly selectors).enabled } := by
  have hfold : ∀ (selectors : List Text) (g : Registry),
      selectors.foldl (fun g s => g.enable s true) g =
        { g with enabled := (selectors.foldl (fun g s => g.enable s true) g).enabled } := by
    intro selectors
    induction selectors with
    | nil => exact fun _ => rfl
    | cons s selectors ih =>
        intro g
        rw [List.foldl_cons, ih, enable_eq g s true]
  exact hfold selectors g.disableAll

/-- Enabling one selector after another enables the rules that they select. -/
theorem isEnabled_foldl_enable (hg : IsSound g) (hr : r ∈ g.rules) (selectors : List Text) :
    (selectors.foldl (fun g s => g.enable s true) g).isEnabled r.code =
      (g.isEnabled r.code || selectors.any r.isSelectedBy) := by
  induction selectors generalizing g with
  | nil => simp
  | cons s selectors ih =>
      have htune := retunes_enable g s true
      rw [List.foldl_cons, ih (htune.isSound hg) (htune.rules_eq ▸ hr), isEnabled_enable hg hr,
        List.any_cons]
      cases r.isSelectedBy s <;> simp

theorem isEnabled_selectOnly (hg : IsSound g) (hr : r ∈ g.rules) (selectors : List Text) :
    (g.selectOnly selectors).isEnabled r.code = selectors.any r.isSelectedBy := by
  have hoff := (retunes_disableAll g).isSound hg
  exact (isEnabled_foldl_enable hoff hr selectors).trans (Bool.false_or _)

/-- The enabled rules are the selected ones, in the order in which they were registered. -/
theorem enabledRules_selectOnly (hg : IsSound g) (selectors : List Text) :
    (g.selectOnly selectors).enabledRules =
      g.rules.filter fun r => selectors.any r.isSelectedBy := by
  unfold enabledRules
  rw [show (g.selectOnly selectors).rules = g.rules by rw [selectOnly_eq]]
  apply List.filter_congr
  intro r hr
  exact isEnabled_selectOnly hg hr selectors

theorem enabledRules_enableAll (g : Registry) : g.enableAll.enabledRules = g.rules := by
  unfold enabledRules
  refine List.filter_eq_self.2 ?_
  intro r hr
  exact List.contains_iff_mem.2 (List.mem_map_of_mem hr)

/-! ## Violations -/

/-- What a rule reports of a file. -/
def report (g : Registry) (f : SourceFile) (r : Rule) : List Violation :=
  (r.findings f).map (g.violation f r)

theorem code_of_mem_report {f : SourceFile} {v : Violation} (h : v ∈ g.report f r) :
    v.code = r.code := by
  obtain ⟨x, _, rfl⟩ := List.mem_map.1 h
  rfl

theorem check_selectOnly (hg : IsSound g) (selectors : List Text) (f : SourceFile) :
    (g.selectOnly selectors).check f = (g.enableAll.check f).filter fun v =>
      g.rules.any fun r => selectors.any r.isSelectedBy && r.code == v.code := by
  have hselected : (g.selectOnly selectors).check f =
      (g.selectOnly selectors).enabledRules.flatMap (g.report f) := by
    rw [selectOnly_eq]
    rfl
  have hall : g.enableAll.check f = g.enableAll.enabledRules.flatMap (g.report f) := rfl
  rw [hselected, hall, enabledRules_selectOnly hg, enabledRules_enableAll]
  apply flatMap_filter
  intro r hr v hv
  rw [code_of_mem_report hv, Bool.eq_iff_iff, List.any_eq_true]
  constructor
  · -- the selected rule with this code is the one that reports
    rintro ⟨r', hr', h⟩
    rw [Bool.and_eq_true, beq_iff_eq] at h
    rw [eq_of_selected hg hr hr' (code_mem_selectors r) (h.2 ▸ code_mem_selectors r')]
    exact h.1
  · intro h
    exact ⟨r, hr, by simp [h]⟩

/-- The messages of a file are those of its violations, in the same order. -/
theorem validate_eq_messages (g : Registry) (f : SourceFile) :
    g.validate f = (g.check f).map (·.message) := by
  unfold validate check
  rw [List.map_flatMap]
  simp only [List.map_map]
  rfl

end Registry

/-! ## Requests -/

theorem mapM_ok_iff {ε α β : Type} {f : α → Except ε β} {l : List α} :
    (∃ ys, l.mapM f = .ok ys) ↔ ∀ x ∈ l, ∃ y, f x = .ok y := by
  induction l with
  | nil =>
      constructor
      · intro _ x hx
        cases hx
      · intro _
        exact ⟨[], rfl⟩
  | cons a l ih =>
      rw [List.mapM_cons, List.forall_mem_cons, ← ih]
      cases f a with
      | error e => simp [bind, Except.bind]
      | ok y => cases l.mapM f <;> simp [bind, Except.bind, pure, Except.pure]

namespace Request

theorem registry_of_plan {request : Request} {p : Plan} (h : request.plan = .ok p) :
    p.registry = request.chosenRules := by
  unfold plan at h
  cases hx : (request.excludes ++ request.settings.exclude).mapM Exclude.parse with
  | error e =>
      rw [hx] at h
      cases h
  | ok excludes =>
      rw [hx] at h
      cases h
      rfl

theorem plan_ok_iff {request : Request} :
    (∃ p, request.plan = .ok p) ↔
      ∀ x ∈ request.excludes ++ request.settings.exclude, ∃ e, Exclude.parse x = .ok e := by
  rw [← mapM_ok_iff]
  unfold plan
  cases (request.excludes ++ request.settings.exclude).mapM Exclude.parse <;>
    simp [bind, Except.bind, pure, Except.pure]

/-- **Rules do not interfere.** A request that selects rules is worked out if its exclude patterns
are well-formed. Whatever is enabled before and whatever the settings say, the rules selected are
the ones enabled, in the order in which they were registered; and what they report of a file is what
all registered rules, configured in the same way, report of it, without the violations of the
others. In every registry the messages of a file are those of its violations. -/
theorem selection_exact (messages : Catalog) (history : List Registry.Operation)
    (request : Request) (selectors : List Text)
    (hregistry : request.registry = ({ messages } : Registry).after history)
    (hselection : request.selection = some selectors) :
    ((∃ p, request.plan = .ok p) ↔
      ∀ x ∈ request.excludes ++ request.settings.exclude, ∃ e, Exclude.parse x = .ok e) ∧
    (∀ p, request.plan = .ok p →
      p.registry.enabledRules =
        request.registry.rules.filter (fun r => selectors.any r.isSelectedBy) ∧
      ∀ f, p.registry.check f =
        ((request.registry.configure request.settings).enableAll.check f).filter fun v =>
          request.registry.rules.any fun r => selectors.any r.isSelectedBy && r.code == v.code) ∧
    ∀ (g : Registry) (f : SourceFile), g.validate f = (g.check f).map (·.message) := by
  refine ⟨plan_ok_iff, ?_, Registry.validate_eq_messages⟩
  intro p hp
  have hsound : Registry.IsSound request.registry :=
    hregistry ▸ Registry.isSound_after (Registry.isSound_empty messages) history
  have htune := Registry.retunes_configure request.registry request.settings
  have hchosen : p.registry =
      (request.registry.configure request.settings).selectOnly selectors := by
    rw [registry_of_plan hp]
    unfold chosenRules
    rw [hselection]
  rw [hchosen, ← htune.rules_eq]
  exact ⟨Registry.enabledRules_selectOnly (htune.isSound hsound) selectors,
    Registry.check_selectOnly (htune.isSound hsound) selectors⟩

/-- A rule selected twice by its old name, beside a selector that selects nothing, where another
rule is enabled and the settings disable the selected one. -/
theorem selection_exact_alias :
    let history : List Registry.Operation :=
      [.add Rule.classesDocumented, .add Rule.summaries, .enableAll]
    let selectors : List Text := ["phpdocsfistline", "unknown", "phpdocsfistline"]
    let request : Request := {
      settings := { exclude := ["vendor"],
                    rules := [("phpdocsfirstline", { enabled := some false })] }
      registry := ({ } : Registry).after history
      selection := some selectors }
    ∃ p, request.plan = .ok p ∧ p.registry.enabledRules.map (·.code) = ["phpdocsfirstline".toList] ∧
      ∀ f, p.registry.check f =
        ((request.registry.configure request.settings).enableAll.check f).filter fun v =>
          request.registry.rules.any fun r => selectors.any r.isSelectedBy && r.code == v.code := by
  intro history selectors request
  obtain ⟨hok, hplan, _⟩ := selection_exact Catalog.english history request selectors rfl rfl
  obtain ⟨p, hp⟩ := hok.2 fun x hx => by
    rw [List.mem_singleton.1 hx]
    exact ⟨.name "vendor", rfl⟩
  refine ⟨p, hp, ?_, (hplan p hp).2⟩
  rw [(hplan p hp).1]
  decide +kernel

end Request

end DocLint
