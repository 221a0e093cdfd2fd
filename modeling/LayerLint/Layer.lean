import LayerLint.Graph.Basic
import LayerLint.Pattern.Basic

/-!
# Layers

A layer names a part of the project by a path pattern and lists the layers it may depend on. A file
belongs to the first layer whose pattern its path matches; a file of no layer is free in both
directions.
-/

namespace LayerLint

/-- A declared layer. -/
structure Layer where
  name : String
  /-- Pattern of the paths in the layer. -/
  pattern : String
  /-- Names of the layers it may depend on, or `*` for all. -/
  dependsOn : List String := []
  deriving DecidableEq, Repr

namespace Layer

/-- The name that stands for every layer. -/
def anyName : String := "*"

/-- Whether a file of the layer may depend on a file of the layer called `other`. -/
def allows (layer : Layer) (other : String) : Bool :=
  layer.name == other || layer.dependsOn.any fun name => name == other || name == anyName

/-- Whether a file may depend on another, given their layers. -/
def mayDepend : Option Layer → Option Layer → Bool
  | some source, some target => source.allows target.name
  | _, _ => true

end Layer

/-- Declared layers with the way their patterns are matched. -/
structure Layering where
  layers : List Layer
  matcher : Matcher := Pattern.isMatch

/-- The layer of each node of a graph, by its position among the declared ones. -/
structure LayerMap where
  layers : List Layer
  positions : Array (Option Nat)
  deriving Repr

namespace Layering

/-- The position of the first layer that a path matches. -/
def position (layering : Layering) (path : String) : Option Nat :=
  layering.layers.findIdx? fun layer => layering.matcher path layer.pattern

/-- The first layer that a path matches. -/
def layerAt (layering : Layering) (path : String) : Option Layer :=
  (layering.position path).bind (layering.layers[·]?)

/-- The first layer of a name. -/
def find (layering : Layering) (name : String) : Option Layer :=
  layering.layers.find? (·.name == name)

/-- The layers of a graph's nodes. -/
def assign (layering : Layering) (g : Graph) : LayerMap :=
  { layers := layering.layers, positions := g.files.map fun file => layering.position file.path }

end Layering

namespace LayerMap

/-- The layer of a node. -/
def layerOf (map : LayerMap) (node : Nat) : Option Layer :=
  (map.positions[node]?.join).bind (map.layers[·]?)

/-- The name of a node's layer. -/
def nameOf (map : LayerMap) (node : Nat) : Option String :=
  (map.layerOf node).map Layer.name

/-- The nodes in a layer of this name. -/
def members (map : LayerMap) (name : String) : List Nat :=
  (List.range map.positions.size).filter fun node => map.nameOf node == some name

/-- Whether an edge crosses a boundary that the layers do not allow. -/
def isViolation (map : LayerMap) (source target : Nat) : Bool :=
  match map.layerOf source, map.layerOf target with
  | some source, some target => !source.allows target.name
  | _, _ => false

/-- The number of nodes that have a layer. -/
def assignedCount (map : LayerMap) : Nat :=
  map.positions.toList.countP Option.isSome

end LayerMap

end LayerLint
