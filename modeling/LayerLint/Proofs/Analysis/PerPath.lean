import LayerLint.Analysis
import LayerLint.Proofs.Text.Order

/-!
# Violations by path

A report lists violations in the order of their paths and keeps those of one path in the order they
were found. So it is settled by what was found at each path.
-/

namespace LayerLint

/-! ## The same at each path -/

/-- The same violations at each path, in the same order. -/
def SamePerPath (found found' : List Violation) : Prop :=
  ∀ path, (found.filter fun v => v.path = path) = found'.filter fun v => v.path = path

namespace SamePerPath

variable {α : Type} {found found' : List Violation}

theorem refl (found : List Violation) : SamePerPath found found :=
  fun _ => rfl

theorem flatMap {parts : List α} {items items' : α → List Violation}
    (h : ∀ a ∈ parts, SamePerPath (items a) (items' a)) :
    SamePerPath (parts.flatMap items) (parts.flatMap items') := by
  intro path
  rw [List.filter_flatMap, List.filter_flatMap]
  exact List.flatMap_congr fun a ha => h a ha path

theorem map (h : SamePerPath found found') {f : Violation → Violation}
    (hf : ∀ v, (f v).path = v.path) : SamePerPath (found.map f) (found'.map f) := by
  intro path
  simp only [List.filter_map, Function.comp_def, hf]
  rw [h path]

/-- Going through the paths in another order finds the same at each. -/
theorem of_paths {paths paths' : List String} (hnodup : paths.Nodup) (hnodup' : paths'.Nodup)
    (hpaths : ∀ path, path ∈ paths ↔ path ∈ paths') {items items' : String → List Violation}
    (hitems : ∀ path, ∀ v ∈ items path, v.path = path)
    (hsame : ∀ path ∈ paths, items path = items' path) :
    SamePerPath (paths.flatMap items) (paths'.flatMap items') := by
  have hitems' : paths'.flatMap items' = paths'.flatMap items :=
    List.flatMap_congr fun path hpath => (hsame path ((hpaths path).2 hpath)).symm
  have hpart : ∀ {l : List String} {path : String}, l.Nodup → path ∈ l →
      ((l.flatMap items).filter fun v => v.path = path) = items path :=
    fun hl hpath => Keyed.filter_flatMap_part (by simpa using hl) hitems hpath
  have hother : ∀ {l : List String} {path : String}, path ∉ l →
      ((l.flatMap items).filter fun v => v.path = path) = [] :=
    fun hpath => Keyed.filter_flatMap_other hitems (by simpa using hpath)
  intro path
  rw [hitems']
  by_cases hpath : path ∈ paths
  · rw [hpart hnodup hpath, hpart hnodup' ((hpaths path).1 hpath)]
  · rw [hother hpath, hother fun hpath' => hpath ((hpaths path).2 hpath')]

theorem overrideSeverity (h : SamePerPath found found') (severity : Option Severity) :
    SamePerPath (Analyzer.overrideSeverity severity found)
      (Analyzer.overrideSeverity severity found') := by
  cases severity with
  | none => exact h
  | some severity => exact h.map fun _ => rfl

theorem sortByPath_eq (h : SamePerPath found found') :
    Analyzer.sortByPath found = Analyzer.sortByPath found' :=
  Text.linear_notAfter.mergeSort_congr h

end SamePerPath

theorem Analyzer.filter_sortByPath (p : Violation → Bool) (found : List Violation) :
    (sortByPath found).filter p = sortByPath (found.filter p) :=
  Text.linear_notAfter.filter_mergeSort p found

/-- Two scenes in which each rule finds the same at each path give the same violations. -/
theorem Analyzer.sortByPath_runRule (analyzer : Analyzer) {scene scene' : Scene}
    (h : ∀ rule ∈ analyzer.rules, SamePerPath (rule.check scene) (rule.check scene')) :
    sortByPath (analyzer.rules.flatMap (analyzer.runRule scene)) =
      sortByPath (analyzer.rules.flatMap (analyzer.runRule scene')) := by
  refine (SamePerPath.flatMap fun rule hrule => ?_).sortByPath_eq
  unfold runRule
  split
  · exact (h rule hrule).overrideSeverity _
  · exact SamePerPath.refl []

end LayerLint
