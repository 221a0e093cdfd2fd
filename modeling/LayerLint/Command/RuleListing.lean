import LayerLint.Config.Rules

/-!
# The list of rules
-/

namespace LayerLint

/-- A text filled up with blanks to a width. -/
def padRight (width : Nat) (text : String) : String :=
  text ++ String.ofList (List.replicate (width - text.length) ' ')

/-- The line of a rule in the list of rules. -/
def Rule.listing (rule : Rule) : String :=
  padRight 10 rule.code ++ " " ++ padRight 25 rule.name ++ " " ++ rule.description

/-- The list of rules. -/
def ruleListing : String :=
  Text.unlines
    (["Available rules:", "", padRight 10 "Code" ++ " " ++ padRight 25 "Name" ++ " Description",
        String.ofList (List.replicate 80 '-')] ++ allRules.map Rule.listing ++
      ["", "Rules are enabled by archgraph.toml:",
        "  layer-boundaries        - always, when [[layers]] are declared",
        "  no-cycles               - properties.detect_cycles (default: true)",
        "  max-dependencies        - properties.max_dependencies_per_file",
        "  max-dependency-depth    - properties.max_dependency_depth",
        "  forbidden-dependencies  - properties.forbidden_patterns",
        "  orphaned-files          - properties.detect_orphans (entry_points exempt)",
        "", "Use --rules to run a subset, e.g.:",
        "  archgraph check --rules no-cycles,layer-boundaries",
        "  archgraph check --rules AG001,AG002"])

end LayerLint
