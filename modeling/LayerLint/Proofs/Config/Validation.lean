import LayerLint.Config.Basic
import LayerLint.Proofs.Keyed
import LayerLint.Proofs.Text.Blank

/-!
# Validation

The validation stops at a fault. All faults of declared layers are listed here, and the fault it
stops at is the first of them; a configuration without faults has well-declared layers.
-/

namespace LayerLint

/-! ## All faults -/

/-- The faults of a declaration, given the names in front of it. -/
def declarationFaults (earlier : List String) (index : Nat) (layer : Layer) : List LayerFault :=
  (if Text.isBlankText layer.name then [.blankName index] else []) ++
    (if Text.isBlankText layer.pattern then [.blankPattern layer.name] else []) ++
    (if layer.name ∈ earlier then [.repeatedName layer.name] else [])

/-- The faults of a layer's dependencies, given the names of all layers. -/
def dependencyFaults (names : List String) (layer : Layer) : List LayerFault :=
  (layer.dependsOn.filter fun name => name ≠ Layer.anyName ∧ name ∉ names).map
    (.unknownDependency layer.name)

/-- All faults of declared layers: those of the declarations, layer by layer, and behind them those
of the dependencies. -/
def layersFaults (layers : List Layer) : List LayerFault :=
  (layers.zipIdx.flatMap fun place =>
    declarationFaults ((layers.take place.2).map Layer.name) place.2 place.1) ++
  layers.flatMap (dependencyFaults (layers.map Layer.name))

variable {earlier names : List String} {index : Nat} {layer : Layer} {layers : List Layer}

theorem declarationFaults_congr {earlier' : List String}
    (h : ∀ name, name ∈ earlier ↔ name ∈ earlier') :
    declarationFaults earlier index layer = declarationFaults earlier' index layer := by
  simp only [declarationFaults, h]

/-! ## The first fault -/

theorem declarationFault?_cons :
    declarationFault? earlier index (layer :: layers) =
      (declarationFaults earlier index layer).head?.or
        (declarationFault? (layer.name :: earlier) (index + 1) layers) := by
  rw [declarationFault?, declarationFaults]
  split_ifs <;> rfl

/-- The names that the scan has gathered are those of the layers in front of where it stands. -/
theorem declarationFault?_eq (front : List Layer)
    (hearlier : ∀ name, name ∈ earlier ↔ name ∈ front.map Layer.name) :
    declarationFault? earlier front.length layers =
      ((layers.zipIdx front.length).flatMap fun place =>
        declarationFaults (((front ++ layers).take place.2).map Layer.name) place.2
          place.1).head? := by
  induction layers generalizing front earlier with
  | nil => rfl
  | cons layer layers ih =>
      have hnext : ∀ name, name ∈ layer.name :: earlier ↔
          name ∈ (front ++ [layer]).map Layer.name := by
        intro name
        simp [hearlier, or_comm]
      have hrest := ih (front ++ [layer]) hnext
      rw [List.length_append, List.length_singleton, List.append_assoc, List.singleton_append]
        at hrest
      rw [declarationFault?_cons, List.zipIdx_cons, List.flatMap_cons, List.head?_append,
        declarationFaults_congr hearlier, List.take_left, hrest]

theorem dependencyFault?_eq :
    dependencyFault? names layer = (dependencyFaults names layer).head? := by
  rw [dependencyFault?, dependencyFaults, List.head?_map, List.head?_filter]

theorem layersFault?_eq_or (layers : List Layer) :
    layersFault? layers = (declarationFault? [] 0 layers).or
      (layers.findSome? (dependencyFault? (layers.map Layer.name))) := by
  rw [layersFault?]
  cases declarationFault? [] 0 layers <;> rfl

theorem layersFault?_eq (layers : List Layer) :
    layersFault? layers = (layersFaults layers).head? := by
  have hdeclared : declarationFault? [] 0 layers = _ := declarationFault?_eq [] fun name => Iff.rfl
  have hdependencies : dependencyFault? (layers.map Layer.name) = fun layer =>
      (dependencyFaults (layers.map Layer.name) layer).head? :=
    funext fun layer => dependencyFault?_eq
  rw [layersFault?_eq_or, hdeclared, hdependencies, ← List.head?_flatMap, layersFaults,
    List.head?_append, List.nil_append]
  rfl

/-! ## Well-declared layers -/

/-- Layers without faults. A dependency may name a layer that is declared behind it. -/
structure WellDeclared (layers : List Layer) : Prop where
  name_visible : ∀ layer ∈ layers, ∃ c ∈ layer.name.toList, Text.isBlank c = false
  pattern_visible : ∀ layer ∈ layers, ∃ c ∈ layer.pattern.toList, Text.isBlank c = false
  names_nodup : (layers.map Layer.name).Nodup
  dependencies_known : ∀ layer ∈ layers, ∀ name ∈ layer.dependsOn,
    name = "*" ∨ ∃ other ∈ layers, other.name = name

theorem declarationFaults_eq_nil_iff :
    declarationFaults earlier index layer = [] ↔
      (∃ c ∈ layer.name.toList, Text.isBlank c = false) ∧
      (∃ c ∈ layer.pattern.toList, Text.isBlank c = false) ∧ layer.name ∉ earlier := by
  simp [declarationFaults, ← Text.isBlankText_eq_false_iff]

theorem dependencyFaults_eq_nil_iff :
    dependencyFaults names layer = [] ↔ ∀ name ∈ layer.dependsOn, name = "*" ∨ name ∈ names := by
  simp only [dependencyFaults, List.map_eq_nil_iff, List.filter_eq_nil_iff, decide_eq_true_eq,
    not_and, not_not, or_iff_not_imp_left]
  rfl

theorem layersFaults_eq_nil_iff : layersFaults layers = [] ↔ WellDeclared layers := by
  rw [layersFaults, List.append_eq_nil_iff, List.flatMap_eq_nil_iff, List.flatMap_eq_nil_iff]
  simp only [declarationFaults_eq_nil_iff, dependencyFaults_eq_nil_iff,
    List.mem_zipIdx_iff_getElem?, Prod.forall]
  constructor
  · rintro ⟨hdeclared, hknown⟩
    refine ⟨fun layer hlayer => ?_, fun layer hlayer => ?_, Keyed.nodup_iff_notMem_take.2 ?_, ?_⟩
    · obtain ⟨i, hi⟩ := List.mem_iff_getElem?.1 hlayer
      exact (hdeclared layer i hi).1
    · obtain ⟨i, hi⟩ := List.mem_iff_getElem?.1 hlayer
      exact (hdeclared layer i hi).2.1
    · intro i name hname
      rw [List.getElem?_map] at hname
      obtain ⟨layer, hlayer, rfl⟩ := Option.map_eq_some_iff.1 hname
      rw [← List.map_take]
      exact (hdeclared layer i hlayer).2.2
    · intro layer hlayer name hname
      exact (hknown layer hlayer name hname).imp_right List.mem_map.1
  · intro h
    refine ⟨fun layer i hi => ?_, fun layer hlayer name hname => ?_⟩
    · have hlayer := List.mem_of_getElem? hi
      have hname : (layers.map Layer.name)[i]? = some layer.name := by
        rw [List.getElem?_map, hi]
        rfl
      refine ⟨h.name_visible layer hlayer, h.pattern_visible layer hlayer, ?_⟩
      rw [List.map_take]
      exact Keyed.nodup_iff_notMem_take.1 h.names_nodup i layer.name hname
    · exact (h.dependencies_known layer hlayer name hname).imp_right List.mem_map.2

/-! ## Accepted configurations -/

namespace Config

variable {config : Config}

theorem validate_eq_error_iff {fault : LayerFault} :
    config.validate = .error fault ↔ (layersFaults config.layers).head? = some fault := by
  rw [validate, ← layersFault?_eq]
  cases layersFault? config.layers <;> simp

theorem validate_eq_ok_iff : config.validate = .ok () ↔ WellDeclared config.layers := by
  rw [← layersFaults_eq_nil_iff, ← List.head?_eq_none_iff, ← layersFault?_eq, validate]
  cases layersFault? config.layers <;> simp

/-- Validation accepts exactly the well-declared layers. Otherwise it reports the first of all their
faults: declarations come before dependencies, and within a declaration the name comes before the
pattern and the pattern before a repetition. -/
theorem validate_reports_first_fault (config : Config) :
    (config.validate = .ok () ↔ WellDeclared config.layers) ∧
    ∀ fault, config.validate = .error fault ↔ (layersFaults config.layers).head? = some fault :=
  ⟨validate_eq_ok_iff, fun _ => validate_eq_error_iff⟩

/-- The unknown dependency of the first layer is not looked at before the second declaration. -/
example : validate { layers := [⟨"web", "web/**", ["store"]⟩, ⟨"core", " ", ["web"]⟩] } =
    .error (.blankPattern "core") := rfl

end Config

end LayerLint
