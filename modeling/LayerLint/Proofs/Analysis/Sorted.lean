import LayerLint.Proofs.Analysis.RuleSet
import LayerLint.Proofs.Text.Bytes

/-!
# Reports as sorted findings

A report lists what the enabled rules found, all of it and nothing else. It is sorted by the bytes
of the paths, and at each path the findings stand in the order of the rules.
-/

namespace LayerLint

/-- What the enabled rules find, one rule after the other, with the severities set for them. -/
def Config.findings (config : Config) (rules : List Rule) (scene : Scene) : List Violation :=
  (rules.filter fun rule => config.isEnabled rule.name).flatMap fun rule =>
    (rule.check scene).map fun found =>
      { found with severity := (config.severityOf rule.name).getD found.severity }

namespace Analyzer

theorem overrideSeverity_eq (severity : Option Severity) (found : List Violation) :
    overrideSeverity severity found =
      found.map fun v => { v with severity := severity.getD v.severity } := by
  cases severity with
  | none => exact (List.map_id' found).symm
  | some severity => rfl

theorem flatMap_runRule (analyzer : Analyzer) (rules : List Rule) (scene : Scene) :
    rules.flatMap (analyzer.runRule scene) = analyzer.config.findings rules scene := by
  rw [Config.findings, Keyed.flatMap_filter]
  refine List.flatMap_congr fun rule _ => ?_
  rw [runRule, overrideSeverity_eq]

/-! ## Sorting by path -/

theorem sortByPath_perm (found : List Violation) : (sortByPath found).Perm found :=
  List.mergeSort_perm found _

theorem sorted_sortByPath (found : List Violation) :
    (sortByPath found).Pairwise fun v w => Text.bytes v.path ≤ Text.bytes w.path := by
  have hsorted : (sortByPath found).Pairwise fun v w =>
      Text.notAfter v.path.toList w.path.toList = true :=
    Text.linear_notAfter.sorted_mergeSort found
  exact hsorted.imp fun hle => (Text.notAfter_iff_bytes _ _).1 hle

theorem samePerPath_sortByPath (found : List Violation) : SamePerPath (sortByPath found) found :=
  Text.linear_notAfter.filter_key_mergeSort found

/-! ## Reports -/

/-- Whatever the rules are, a report under a valid configuration holds the findings of the enabled
ones, with their severities: each as often as it was found, sorted by the bytes of the paths, and at
each path in the order of the rules. It counts the nodes of the graph. -/
theorem analyze_sorts_findings (config : Config) (hvalid : config.validate = .ok ())
    (rules : List Rule) (matcher : Matcher) (project : Project) :
    ∃ analyzer, create config rules matcher = .ok analyzer ∧
      (analyzer.analyze project).violations.Perm
        (config.findings rules (analyzer.prepare project)) ∧
      (analyzer.analyze project).violations.Pairwise
        (fun v w => Text.bytes v.path ≤ Text.bytes w.path) ∧
      (∀ path, ((analyzer.analyze project).violations.filter fun v => v.path = path) =
        (config.findings rules (analyzer.prepare project)).filter fun v => v.path = path) ∧
      (analyzer.analyze project).filesChecked = (Graph.build project).size := by
  refine ⟨_, create_ok hvalid rules matcher, ?_⟩
  rw [analyze, reportOn, flatMap_runRule]
  exact ⟨sortByPath_perm _, sorted_sortByPath _, samePerPath_sortByPath _, rfl⟩

/-- An example: one rule switched off, another with a severity of its own. -/
def mutedConfig : Config :=
  { strictConfig with
    rules :=
      [(NoCycles.name, { enabled := some false }),
        (LayerBoundaries.name, { severity := some .warning })] }

/-- An example: a rule that is given twice, before and behind others. -/
def repeatedRules : List Rule :=
  [LayerBoundaries.rule .error, MaxDependencies.rule { limit := 0 }, NoCycles.rule {},
    LayerBoundaries.rule .error]

theorem analyze_sorts_findings_muted :
    mutedConfig.validate = .ok () ∧
    ∃ analyzer, create mutedConfig repeatedRules Pattern.isMatch = .ok analyzer ∧
      (((analyzer.analyze (layeredProject ["core/store.go", "web/style.go"])).violations.filter
        fun v => v.path = "core/store.go").map fun v => (v.rule, v.severity)) =
          [("layer-boundaries", .warning), ("max-dependencies", .error),
            ("layer-boundaries", .warning)] ∧
      (analyzer.analyze (layeredProject ["core/store.go", "web/style.go"])).violations.Pairwise
        (fun v w => Text.bytes v.path ≤ Text.bytes w.path) := by
  have hvalid : mutedConfig.validate = .ok () := by decide +kernel
  obtain ⟨analyzer, hcreate, _, hsorted, hpaths, _⟩ := analyze_sorts_findings mutedConfig hvalid
    repeatedRules Pattern.isMatch (layeredProject ["core/store.go", "web/style.go"])
  refine ⟨hvalid, analyzer, hcreate, ?_, hsorted⟩
  rw [create_ok hvalid] at hcreate
  cases hcreate
  rw [hpaths]
  decide +kernel

end Analyzer

end LayerLint
