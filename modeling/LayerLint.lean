import LayerLint.Analysis
import LayerLint.Command.Run
import LayerLint.Config.Reader
import LayerLint.Config.Rules
import LayerLint.Figure.Dot
import LayerLint.Figure.Mermaid
import LayerLint.Main
import LayerLint.Manifest
import LayerLint.Proofs.Analysis.LayerPartition
import LayerLint.Proofs.Analysis.Sorted
import LayerLint.Proofs.Analysis.WalkOrder
import LayerLint.Proofs.Command.Locate
import LayerLint.Proofs.CycleWalk.Distinct
import LayerLint.Proofs.CycleWalk.Induced
import LayerLint.Proofs.CycleWalk.Once
import LayerLint.Proofs.DepthWalk.Calls
import LayerLint.Proofs.DepthWalk.Closure
import LayerLint.Proofs.DepthWalk.OffCycle
import LayerLint.Proofs.DepthWalk.Trail
import LayerLint.Proofs.Figure.CycleEdges
import LayerLint.Proofs.Figure.DepthLimit
import LayerLint.Proofs.Figure.Renderings
import LayerLint.Proofs.Graph.NewFile
import LayerLint.Proofs.Graph.RelativeImport
import LayerLint.Proofs.Json.Printed
import LayerLint.Proofs.Manifest
import LayerLint.Proofs.Pattern.Segments
import LayerLint.Proofs.Report.Json
import LayerLint.Proofs.Rule.Forbidden.Edge
import LayerLint.Proofs.Rule.Forbidden.Entry
import LayerLint.Proofs.Rule.LayerBoundaries
import LayerLint.Proofs.Rule.MaxDependencies
import LayerLint.Proofs.Rule.NoCycles
import LayerLint.Proofs.Rule.Orphans
import LayerLint.Report.Json
