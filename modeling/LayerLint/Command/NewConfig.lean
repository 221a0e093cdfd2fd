import LayerLint.Text.Split

/-!
# A configuration to start from
-/

namespace LayerLint

/-- The name of the configuration that is set up for a project. -/
def newConfigName : String := "archgraph.toml"

/-- The configuration that is set up for a project. -/
def newConfig : String :=
  Text.unlines
    ["# archgraph configuration", "",
      "# Layers, most stable first. A file belongs to the first layer whose",
      "# pattern matches its project-relative path.", "[[layers]]", "name = \"domain\"",
      "path = \"internal/domain/**\"", "depends_on = []", "", "[[layers]]",
      "name = \"application\"", "path = \"internal/app/**\"", "depends_on = [\"domain\"]", "",
      "[[layers]]", "name = \"presentation\"", "path = \"internal/presentation/**\"",
      "depends_on = [\"application\", \"domain\"]", "", "[properties]", "detect_cycles = true",
      "# report_components = true      # Also report each strongly connected component",
      "# max_dependencies_per_file = 12", "# max_dependency_depth = 8",
      "# skip_cyclic_depth = false     # Do not flag depth of files inside cycles",
      "# detect_orphans = true         # Warn about files nothing imports",
      "# entry_points = [\"cmd/**\"]     # Never reported as orphaned", "",
      "# \"<source glob> -> <target glob>\"", "forbidden_patterns = [",
      "    # \"internal/** -> cmd/**\",", "]", "", "# Per-rule overrides",
      "# [rules.max-dependencies]", "# enabled = true", "# severity = \"warning\""]

/-- What is said after a configuration was set up. -/
def initText : String :=
  Text.unlines
    [s!"Created {newConfigName}", "", "Next steps:",
      s!"  1. Edit {newConfigName} to declare your layers",
      "  2. Produce archgraph.json listing files and their imports", "  3. Run: archgraph check"]

end LayerLint
