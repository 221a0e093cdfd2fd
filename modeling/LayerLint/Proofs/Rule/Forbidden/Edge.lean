import LayerLint.Proofs.Graph.Views
import LayerLint.Rule.Forbidden

/-!
# Edges of forbidden dependencies

What the rule reports on an entry is told by the entry alone: one violation of the configuration, or
one for each edge that the entry forbids.
-/

namespace LayerLint.Forbidden

variable {g : Graph} {settings : Settings}

/-- The edges that an entry forbids, in the order of the nodes and then of their dependencies. -/
def forbiddenEdges (matcher : Matcher) (g : Graph) (entry : Entry) : List (Nat × Nat) :=
  (g.nodes.flatMap fun u => (g.deps u).map (u, ·)).filter fun e =>
    matcher (g.path e.1) entry.source && matcher (g.path e.2) entry.target

theorem nodup_forbiddenEdges (h : g.WellFormed) (matcher : Matcher) (entry : Entry) :
    (forbiddenEdges matcher g entry).Nodup := by
  rw [forbiddenEdges, ← h.edges_eq]
  exact h.edges_nodup.filter _

theorem mem_forbiddenEdges_iff (h : g.WellFormed) {matcher : Matcher} {entry : Entry} {u v : Nat} :
    (u, v) ∈ forbiddenEdges matcher g entry ↔ (u, v) ∈ g.edges ∧
      matcher (g.path u) entry.source = true ∧ matcher (g.path v) entry.target = true := by
  rw [forbiddenEdges, ← h.edges_eq, List.mem_filter, Array.mem_toList_iff, Bool.and_eq_true]

theorem checkEntry_eq_map (settings : Settings) (g : Graph) (entry : Entry) :
    checkEntry settings g entry = (forbiddenEdges settings.matcher g entry).map fun e =>
      edgeViolation settings.severity entry (g.path e.1) (g.path e.2) := by
  rw [checkEntry, forbiddenEdges, Keyed.flatMap_filter, List.filter_flatMap, List.map_flatMap]
  refine List.flatMap_congr fun u _ => ?_
  cases hsource : settings.matcher (g.path u) entry.source with
  | true => simp [List.filter_map, hsource, Function.comp_def]
  | false => simp [List.filter_map, hsource]

theorem check_singleton_error {text : String} {error : EntryError}
    (h : Entry.parse text = .error error) (scene : Scene) :
    check { settings with entries := [text] } scene =
      [entryViolation settings.severity text error] := by
  rw [check, List.flatMap_singleton, h]

theorem check_singleton_ok {text : String} {entry : Entry} (h : Entry.parse text = .ok entry)
    (scene : Scene) :
    check { settings with entries := [text] } scene =
      checkEntry settings scene.graph entry := by
  rw [check, List.flatMap_singleton, h]
  rfl

theorem check_eq_flatMap (settings : Settings) (scene : Scene) :
    check settings scene =
      settings.entries.flatMap fun text => check { settings with entries := [text] } scene := by
  simp only [check, List.flatMap_singleton]
  rfl

theorem check_append (settings : Settings) (before behind : List String) (scene : Scene) :
    check { settings with entries := before ++ behind } scene =
      check { settings with entries := before } scene ++
        check { settings with entries := behind } scene :=
  List.flatMap_append

theorem path_entryViolation (severity : Severity) (text : String) (error : EntryError) :
    (entryViolation severity text error).path = "configuration" := by
  cases error <;> rfl

/-- For every project, entries, matcher and severity, the rule reports on one entry after the other
what it reports on each alone. An entry that cannot be read gives one violation of the
configuration. Any other gives one for each edge that it forbids, at the path of the importing file
and with both files in the context. -/
theorem entries_flag_forbidden_edges (settings : Settings) (project : Project) (layers : LayerMap)
    {g : Graph} (hg : g = Graph.build project) :
    (check settings ⟨g, layers⟩ = settings.entries.flatMap fun text =>
      check { settings with entries := [text] } ⟨g, layers⟩) ∧
    (∀ before behind, check { settings with entries := before ++ behind } ⟨g, layers⟩ =
      check { settings with entries := before } ⟨g, layers⟩ ++
        check { settings with entries := behind } ⟨g, layers⟩) ∧
    (∀ text error, Entry.parse text = .error error →
      check { settings with entries := [text] } ⟨g, layers⟩ =
        [entryViolation settings.severity text error] ∧
      (entryViolation settings.severity text error).path = "configuration") ∧
    ∀ text entry, Entry.parse text = .ok entry →
      (check { settings with entries := [text] } ⟨g, layers⟩ =
        (forbiddenEdges settings.matcher g entry).map fun e =>
          edgeViolation settings.severity entry (g.path e.1) (g.path e.2)) ∧
      (forbiddenEdges settings.matcher g entry).Nodup ∧
      (∀ u v, (u, v) ∈ forbiddenEdges settings.matcher g entry ↔ (u, v) ∈ g.edges ∧
        settings.matcher (g.path u) entry.source = true ∧
        settings.matcher (g.path v) entry.target = true) ∧
      ∀ importing imported,
        (edgeViolation settings.severity entry importing imported).path = importing ∧
        (edgeViolation settings.severity entry importing imported).context =
          some ("file '" ++ importing ++ "' imports '" ++ imported ++ "'") := by
  have hwell : g.WellFormed := hg ▸ Graph.build_wellFormed project
  refine ⟨check_eq_flatMap settings _, fun before behind => check_append settings before behind _,
    fun text error hread => ⟨check_singleton_error hread _, path_entryViolation _ _ _⟩,
    fun text entry hread => ⟨?_, nodup_forbiddenEdges hwell _ entry,
      fun u v => mem_forbiddenEdges_iff hwell, fun importing imported => ⟨rfl, ?_⟩⟩⟩
  · rw [check_singleton_ok hread, checkEntry_eq_map]
  · simp [edgeViolation, toString]

/-- An example: imports between two directories, in both directions. -/
def backAndForth : Project :=
  { files := ["internal/a.go", "internal/b.go", "cmd/main.go"].map .ofPath
    imports :=
      [("internal/a.go", [.ofSpecifier "cmd/main.go", .ofSpecifier "./b"]),
        ("cmd/main.go", [.ofSpecifier "internal/a.go"])] }

theorem entries_flag_forbidden_edges_backAndForth :
    Entry.parse "bogus" = .error .arrow ∧
    Entry.parse "internal/** -> cmd/**" = .ok ⟨"internal/**", "cmd/**"⟩ ∧
    check { entries := ["bogus", "internal/** -> cmd/**"] } ⟨Graph.build backAndForth, ⟨[], #[]⟩⟩ =
      [entryViolation .error "bogus" .arrow,
        edgeViolation .error ⟨"internal/**", "cmd/**"⟩ "internal/a.go" "cmd/main.go"] := by
  have hbogus : Entry.parse "bogus" = .error .arrow := rfl
  have hread : Entry.parse "internal/** -> cmd/**" = .ok ⟨"internal/**", "cmd/**"⟩ := rfl
  obtain ⟨hapart, _, herror, hok⟩ := entries_flag_forbidden_edges
    { entries := ["bogus", "internal/** -> cmd/**"] } backAndForth ⟨[], #[]⟩ rfl
  obtain ⟨hedges, hsource, htarget⟩ : forbiddenEdges Pattern.isMatch (Graph.build backAndForth)
        ⟨"internal/**", "cmd/**"⟩ = [(0, 2)] ∧
      (Graph.build backAndForth).path 0 = "internal/a.go" ∧
      (Graph.build backAndForth).path 2 = "cmd/main.go" := by decide +kernel
  refine ⟨hbogus, hread, ?_⟩
  rw [hapart]
  simp only [List.flatMap_cons, List.flatMap_nil, List.append_nil]
  rw [(herror "bogus" .arrow hbogus).1, (hok _ _ hread).1, hedges, List.map_singleton, hsource,
    htarget]
  rfl

end LayerLint.Forbidden
