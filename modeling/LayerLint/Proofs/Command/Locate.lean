import LayerLint.Command.Locate
import LayerLint.Proofs.Disk.Location

/-!
# The nearest configuration

Which configuration is located, told by the files that are there: the nearest directory decides,
then the order of the names in it, then the global directory.
-/

namespace LayerLint

open Location

variable {isFile : String → Bool} {dir path : String} {dirs : List String}

/-! ## One directory -/

/-- A directory holds a configuration, under one name or the other. -/
def HoldsConfig (isFile : String → Bool) (dir : String) : Prop :=
  isFile (below dir "archgraph.toml") = true ∨ isFile (below dir ".archgraph.toml") = true

/-- The configuration that a directory gives. Of the two names, the hidden one comes last. -/
def GivesConfig (isFile : String → Bool) (dir path : String) : Prop :=
  path = below dir "archgraph.toml" ∧ isFile path = true ∨
    path = below dir ".archgraph.toml" ∧ isFile path = true ∧
      isFile (below dir "archgraph.toml") = false

theorem configIn?_eq_some_iff : configIn? isFile dir = some path ↔ GivesConfig isFile dir path := by
  simp only [configIn?, projectConfigNames, GivesConfig, List.map_cons, List.map_nil,
    List.find?_cons, List.find?_nil]
  cases hplain : isFile (below dir "archgraph.toml") with
  | true => grind
  | false => cases hhidden : isFile (below dir ".archgraph.toml") <;> grind

theorem configIn?_eq_none_iff : configIn? isFile dir = none ↔ ¬HoldsConfig isFile dir := by
  simp [configIn?, projectConfigNames, HoldsConfig]

/-! ## The directories upwards -/

/-- The first directory of a list that holds a configuration, with its place. -/
structure IsNearest (isFile : String → Bool) (dirs : List String) (i : Nat) (dir : String) :
    Prop where
  getElem?_eq : dirs[i]? = some dir
  holds : HoldsConfig isFile dir
  not_before : ∀ j < i, ∀ nearer ∈ dirs[j]?, ¬HoldsConfig isFile nearer

theorem isNearest_zero (h : HoldsConfig isFile dir) (dirs : List String) :
    IsNearest isFile (dir :: dirs) 0 dir :=
  ⟨rfl, h, fun _ hj => absurd hj (Nat.not_lt_zero _)⟩

theorem IsNearest.of_holds {i : Nat} {first : String} (h : IsNearest isFile (first :: dirs) i dir)
    (hfirst : HoldsConfig isFile first) : dir = first := by
  cases i with
  | zero => exact (Option.some.inj h.getElem?_eq).symm
  | succ i => exact absurd hfirst (h.not_before 0 (Nat.succ_pos i) first rfl)

theorem isNearest_succ_iff {i : Nat} {first : String} (h : ¬HoldsConfig isFile first) :
    IsNearest isFile (first :: dirs) (i + 1) dir ↔ IsNearest isFile dirs i dir := by
  constructor
  · rintro ⟨hdir, hholds, hbefore⟩
    exact ⟨hdir, hholds, fun j hj => hbefore (j + 1) (Nat.succ_lt_succ hj)⟩
  · rintro ⟨hdir, hholds, hbefore⟩
    refine ⟨hdir, hholds, fun j hj nearer hnearer => ?_⟩
    cases j with
    | zero => exact Option.some.inj hnearer ▸ h
    | succ j => exact hbefore j (Nat.lt_of_succ_lt_succ hj) nearer hnearer

theorem GivesConfig.holds (h : GivesConfig isFile dir path) : HoldsConfig isFile dir := by
  rcases h with ⟨rfl, hfile⟩ | ⟨rfl, hfile, _⟩
  · exact Or.inl hfile
  · exact Or.inr hfile

theorem findSome?_configIn?_eq_some_iff : dirs.findSome? (configIn? isFile) = some path ↔
    ∃ i dir, IsNearest isFile dirs i dir ∧ GivesConfig isFile dir path := by
  induction dirs with
  | nil =>
      constructor
      · intro h
        cases h
      · rintro ⟨i, dir, hnearest, _⟩
        cases hnearest.getElem?_eq
  | cons first dirs ih =>
      rw [List.findSome?_cons]
      cases hfirst : configIn? isFile first with
      | some found =>
          have hgives := configIn?_eq_some_iff.1 hfirst
          constructor
          · intro heq
            obtain rfl := Option.some.inj heq
            exact ⟨0, first, isNearest_zero hgives.holds dirs, hgives⟩
          · rintro ⟨i, dir, hnearest, hdir⟩
            obtain rfl := hnearest.of_holds hgives.holds
            rw [← configIn?_eq_some_iff, hfirst] at hdir
            exact hdir
      | none =>
          have hnone := configIn?_eq_none_iff.1 hfirst
          refine ih.trans ?_
          constructor
          · rintro ⟨i, dir, hnearest, hdir⟩
            exact ⟨i + 1, dir, (isNearest_succ_iff hnone).2 hnearest, hdir⟩
          · rintro ⟨i, dir, hnearest, hdir⟩
            cases i with
            | zero =>
                obtain rfl := Option.some.inj hnearest.getElem?_eq
                exact absurd hnearest.holds hnone
            | succ i => exact ⟨i, dir, (isNearest_succ_iff hnone).1 hnearest, hdir⟩

theorem findSome?_configIn?_eq_none_iff :
    dirs.findSome? (configIn? isFile) = none ↔ ∀ dir ∈ dirs, ¬HoldsConfig isFile dir := by
  simp only [List.findSome?_eq_none_iff, configIn?_eq_none_iff]

/-! ## The whole search -/

/-- The directories that are searched: the start, by its canonical path where it has one, and those
above it. -/
def searchedDirs (canonical : String → Option String) (start : String) : List String :=
  ancestors ((canonical start).getD start)

section Search

variable {canonical : String → Option String} {start : String} {globalDir : Option String}

theorem locateConfig_of_found
    (h : (searchedDirs canonical start).findSome? (configIn? isFile) = some path) :
    locateConfig isFile canonical start globalDir none = some (.project, path) := by
  unfold searchedDirs at h
  simp only [locateConfig, h]

theorem locateConfig_of_none
    (h : (searchedDirs canonical start).findSome? (configIn? isFile) = none) :
    locateConfig isFile canonical start globalDir none =
      ((globalDir.map (below · globalConfigName)).filter isFile).map (.global, ·) := by
  unfold searchedDirs at h
  simp only [locateConfig, h]

theorem globalConfig_eq_some_iff :
    (globalDir.map (below · globalConfigName)).filter isFile = some path ↔
      ∃ base ∈ globalDir, path = below base "config.toml" ∧ isFile path = true := by
  cases globalDir with
  | none => simp
  | some base =>
      rw [Option.map_some, Option.filter_eq_some_iff]
      simp only [Option.some.injEq, Option.mem_def, exists_eq_left', globalConfigName,
        eq_comm (a := path)]

theorem globalConfig_eq_none_iff :
    (globalDir.map (below · globalConfigName)).filter isFile = none ↔
      ∀ base ∈ globalDir, isFile (below base "config.toml") = false := by
  cases globalDir with
  | none => simp
  | some base => simp [Option.filter_eq_none_iff, globalConfigName]

end Search

/-- Of the directories from the start upwards, the nearest that holds a configuration gives it. If
none does, the global directory gives its own, if it has one. A named configuration is taken
whatever files there are. -/
theorem nearest_configuration_wins (isFile : String → Bool) (canonical : String → Option String)
    (start : String) (globalDir : Option String) :
    IsAncestry ((canonical start).getD start) (searchedDirs canonical start) ∧
    (∀ path, locateConfig isFile canonical start globalDir none = some (.project, path) ↔
      ∃ i dir, IsNearest isFile (searchedDirs canonical start) i dir ∧
        GivesConfig isFile dir path) ∧
    (∀ path, locateConfig isFile canonical start globalDir none = some (.global, path) ↔
      (∀ dir ∈ searchedDirs canonical start, ¬HoldsConfig isFile dir) ∧
        ∃ base ∈ globalDir, path = below base "config.toml" ∧ isFile path = true) ∧
    (locateConfig isFile canonical start globalDir none = none ↔
      (∀ dir ∈ searchedDirs canonical start, ¬HoldsConfig isFile dir) ∧
        ∀ base ∈ globalDir, isFile (below base "config.toml") = false) ∧
    ∀ named, locateConfig isFile canonical start globalDir (some named) = some (.flag, named) := by
  refine ⟨isAncestry_ancestors _, ?_⟩
  simp only [← findSome?_configIn?_eq_some_iff, ← findSome?_configIn?_eq_none_iff,
    ← globalConfig_eq_some_iff, ← globalConfig_eq_none_iff]
  cases hfound : (searchedDirs canonical start).findSome? (configIn? isFile) with
  | some found =>
      rw [locateConfig_of_found hfound]
      simp [locateConfig]
  | none =>
      rw [locateConfig_of_none hfound]
      simp [locateConfig]

example : locateConfig (["/w/archgraph.toml", "/w/api/.archgraph.toml"].contains ·) (fun _ => none)
    "/w/api/v1" none none = some (.project, "/w/api/.archgraph.toml") := by
  decide +kernel

end LayerLint
