import LayerLint.Config.Rules
import LayerLint.Proofs.Analysis.PerPath

/-!
# The rules of a configuration

The rules of a configuration are the six rules in some settings, and each signs what it finds. So a
selection of them reports its part of the full report.
-/

namespace LayerLint

/-! ## Six rules -/

/-- What holds of each rule, however it is set up, holds of all rules of a configuration. -/
theorem Config.forall_mem_ruleSet (config : Config) {P : Rule → Prop}
    (hboundaries : ∀ severity, P (LayerBoundaries.rule severity))
    (hcycles : ∀ settings, P (NoCycles.rule settings))
    (hdependencies : ∀ settings, P (MaxDependencies.rule settings))
    (hdepth : ∀ settings, P (MaxDepth.rule settings))
    (hforbidden : ∀ settings, P (Forbidden.rule settings))
    (horphans : ∀ settings, P (Orphans.rule settings)) : ∀ rule ∈ config.ruleSet, P rule := by
  intro rule hrule
  simp only [ruleSet, List.mem_cons, List.mem_append] at hrule
  rcases hrule with rfl | ((((h | h) | h) | h) | h)
  · exact hboundaries .error
  · simp only [cycleRule] at h
    split at h
    · exact List.mem_singleton.1 h ▸ hcycles _
    · cases h
  · simp only [dependenciesRule] at h
    split at h
    · exact List.mem_singleton.1 h ▸ hdependencies _
    · cases h
  · simp only [depthRule] at h
    split at h
    · exact List.mem_singleton.1 h ▸ hdepth _
    · cases h
  · simp only [forbiddenRule] at h
    split at h
    · cases h
    · exact List.mem_singleton.1 h ▸ hforbidden _
  · simp only [orphanRule] at h
    split at h
    · exact List.mem_singleton.1 h ▸ horphans _
    · cases h

/-! ## Signed violations -/

/-- All that a rule finds carries its name and its code. -/
def Rule.Signs (rule : Rule) : Prop :=
  ∀ scene, ∀ found ∈ rule.check scene, found.rule = rule.name ∧ found.code = rule.code

theorem LayerBoundaries.signs (severity : Severity) : (rule severity).Signs := by
  intro scene found hfound
  obtain ⟨e, _, hfound⟩ := List.mem_filterMap.1 hfound
  obtain ⟨source, _, hfound⟩ := Option.bind_eq_some_iff.1 hfound
  obtain ⟨target, _, hfound⟩ := Option.bind_eq_some_iff.1 hfound
  split at hfound
  · cases hfound
  · cases hfound
    exact ⟨rfl, rfl⟩

theorem NoCycles.signs (settings : Settings) : (rule settings).Signs := by
  intro scene found hfound
  rcases List.mem_append.1 hfound with hcycle | hcomponent
  · obtain ⟨c, _, hfound⟩ := List.mem_filterMap.1 hcycle
    obtain ⟨closing, _, rfl⟩ := Option.map_eq_some_iff.1 hfound
    exact ⟨rfl, rfl⟩
  · split at hcomponent
    · obtain ⟨k, _, hfound⟩ := List.mem_filterMap.1 hcomponent
      obtain ⟨first, _, rfl⟩ := Option.map_eq_some_iff.1 hfound
      exact ⟨rfl, rfl⟩
    · cases hcomponent

theorem MaxDependencies.signs (settings : Settings) : (rule settings).Signs := by
  intro scene found hfound
  obtain ⟨node, _, hfound⟩ := List.mem_filterMap.1 hfound
  dsimp only at hfound
  split at hfound
  · cases hfound
  · cases hfound
    exact ⟨rfl, rfl⟩

theorem MaxDepth.signs (settings : Settings) : (rule settings).Signs := by
  intro scene found hfound
  obtain ⟨entry, _, rfl⟩ := List.mem_map.1 hfound
  exact ⟨rfl, rfl⟩

theorem Forbidden.signs (settings : Settings) : (rule settings).Signs := by
  intro scene found hfound
  obtain ⟨text, _, hfound⟩ := List.mem_flatMap.1 hfound
  cases hentry : Entry.parse text with
  | ok entry =>
      rw [hentry] at hfound
      obtain ⟨node, _, hfound⟩ := List.mem_flatMap.1 hfound
      obtain ⟨target, _, rfl⟩ := List.mem_map.1 hfound
      exact ⟨rfl, rfl⟩
  | error error =>
      rw [hentry, List.mem_singleton] at hfound
      cases error <;> exact hfound ▸ ⟨rfl, rfl⟩

theorem Orphans.signs (settings : Settings) : (rule settings).Signs := by
  intro scene found hfound
  obtain ⟨path, _, rfl⟩ := List.mem_map.1 hfound
  exact ⟨rfl, rfl⟩

theorem Config.signs_ruleSet (config : Config) : ∀ rule ∈ config.ruleSet, rule.Signs :=
  config.forall_mem_ruleSet LayerBoundaries.signs NoCycles.signs MaxDependencies.signs
    MaxDepth.signs Forbidden.signs Orphans.signs

/-! ## Selections -/

namespace Analyzer

theorem create_ok {config : Config} (hvalid : config.validate = .ok ()) (rules : List Rule)
    (matcher : Matcher) : create config rules matcher = .ok { rules, config, matcher } := by
  rw [create, hvalid]
  rfl

/-- Another severity does not change who signed. -/
theorem signed_runRule (analyzer : Analyzer) {scene : Scene} {rule : Rule} (h : rule.Signs)
    {found : Violation} (hfound : found ∈ analyzer.runRule scene rule) :
    found.rule = rule.name ∧ found.code = rule.code := by
  unfold runRule at hfound
  split at hfound
  · cases hseverity : analyzer.config.severityOf rule.name with
    | none =>
        rw [hseverity] at hfound
        exact h scene found hfound
    | some severity =>
        rw [hseverity] at hfound
        obtain ⟨original, horiginal, rfl⟩ := List.mem_map.1 hfound
        exact h scene original horiginal
  · cases hfound

theorem flatMap_selectRules (analyzer : Analyzer) (scene : Scene) {rules : List Rule}
    (h : ∀ rule ∈ rules, rule.Signs) (names : List String) :
    (selectRules rules names).flatMap (analyzer.runRule scene) =
      (rules.flatMap (analyzer.runRule scene)).filter fun found =>
        names.contains found.rule || names.contains found.code := by
  rw [selectRules, Keyed.flatMap_filter, List.filter_flatMap]
  refine List.flatMap_congr fun rule hrule => ?_
  -- All that one rule finds is kept, or nothing of it.
  have hkeep : ∀ found ∈ analyzer.runRule scene rule,
      (names.contains found.rule || names.contains found.code) =
        (names.contains rule.name || names.contains rule.code) := by
    intro found hfound
    obtain ⟨hname, hcode⟩ := analyzer.signed_runRule (h rule hrule) hfound
    rw [hname, hcode]
  rw [List.filter_congr hkeep]
  cases names.contains rule.name || names.contains rule.code <;> simp

/-- The report of the rules that are called by some names looks at the same files and lists, in the
same order, the violations of the full report that are signed by one of the names. -/
theorem analyze_selectRules (config : Config) (hvalid : config.validate = .ok ())
    (matcher : Matcher) (project : Project) (names : List String) :
    ∃ full part, create config config.ruleSet matcher = .ok full ∧
      create config (selectRules config.ruleSet names) matcher = .ok part ∧
      (part.analyze project).filesChecked = (full.analyze project).filesChecked ∧
      (part.analyze project).violations = (full.analyze project).violations.filter fun found =>
        names.contains found.rule || names.contains found.code := by
  refine ⟨_, _, create_ok hvalid _ matcher, create_ok hvalid _ matcher, rfl, ?_⟩
  rw [analyze, analyze, reportOn, reportOn, filter_sortByPath]
  exact congrArg sortByPath (flatMap_selectRules _ _ config.signs_ruleSet names)

/-- An example: two layers, and a limit for everything that can have one. -/
def strictConfig : Config :=
  { layers := [⟨"web", "web/**", ["core"]⟩, ⟨"core", "core/**", []⟩]
    properties :=
      { maxDependencies := some 1, maxDepth := some 1, forbidden := ["web/** -> core/**", "->"]
        detectOrphans := true } }

/-- An example: files in some order, with imports that break every limit. -/
def layeredProject (files : List String) : Project :=
  { files := files.map .ofPath
    imports :=
      [("web/page.go", [.ofSpecifier "view.go", .ofSpecifier "../core/model"]),
        ("web/view.go", [.ofSpecifier "core/model.go"]),
        ("core/model.go", [.ofSpecifier "core/store.go", .ofSpecifier "fmt"]),
        ("core/store.go", [.ofSpecifier "web/style.go"])] }

theorem analyze_selectRules_layered :
    strictConfig.validate = .ok () ∧
    ∃ full part, create strictConfig strictConfig.ruleSet Pattern.isMatch = .ok full ∧
      create strictConfig (selectRules strictConfig.ruleSet ["AG005", "no-cycles", "style"])
        Pattern.isMatch = .ok part ∧
      (part.analyze (layeredProject ["web/page.go", "core/model.go"])).filesChecked =
        (full.analyze (layeredProject ["web/page.go", "core/model.go"])).filesChecked ∧
      (part.analyze (layeredProject ["web/page.go", "core/model.go"])).violations =
        (full.analyze (layeredProject ["web/page.go", "core/model.go"])).violations.filter
          fun found => ["AG005", "no-cycles", "style"].contains found.rule ||
            ["AG005", "no-cycles", "style"].contains found.code := by
  have hvalid : strictConfig.validate = .ok () := by decide +kernel
  exact ⟨hvalid, analyze_selectRules strictConfig hvalid Pattern.isMatch _ _⟩

end Analyzer

end LayerLint
