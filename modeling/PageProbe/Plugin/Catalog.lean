import PageProbe.Plugin.Builtin.BrokenHtml
import PageProbe.Plugin.Builtin.Combinations
import PageProbe.Plugin.Builtin.Difference
import PageProbe.Plugin.Builtin.SpecialChars

namespace PageProbe

inductive ModuleKind where
  | generation
  | detection
  | brain
deriving DecidableEq, Repr, Inhabited

namespace ModuleKind

def text : ModuleKind → String
  | generation => "generation"
  | detection => "detection"
  | brain => "brain"

def title : ModuleKind → String
  | generation => "Generation"
  | detection => "Detection"
  | brain => "Brain"

private def endsWith (ending id : String) : Bool := ending.toList.isSuffixOf id.toList

/-- The kind that the ending of an id tells. -/
def ofId? (id : String) : Option ModuleKind :=
  if endsWith "GenModule" id then some generation
  else if endsWith "DetecModule" id then some detection
  else if endsWith "BrainModule" id || endsWith "brainModule" id then some brain
  else none

end ModuleKind

/-- A module that a catalog does not know. -/
structure UnknownModule where
  kind : ModuleKind
  id : String
deriving DecidableEq, Repr, Inhabited

def UnknownModule.message (u : UnknownModule) : String :=
  "unknown " ++ u.kind.text ++ " module: " ++ u.id

/-- Plugins by the ids of their modules; each list is sorted by id and has every id once. -/
structure Catalog where
  seed : Nat
  /-- A generator is made from a seed. -/
  generators : List (String × (Nat → Generator))
  detectors : List (String × Detector)
  brains : List (String × Brain)

namespace Catalog

def empty (seed : Nat) : Catalog := ⟨seed, [], [], []⟩

/-- The list with one module more, in place of one with the same id. -/
def put (id : String) (plugin : α) : List (String × α) → List (String × α)
  | [] => [(id, plugin)]
  | (i, p) :: rest =>
    if id = i then (id, plugin) :: rest
    else if id < i then (id, plugin) :: (i, p) :: rest
    else (i, p) :: put id plugin rest

def addGenerator (c : Catalog) (id : String) (make : Nat → Generator) : Catalog :=
  { c with generators := put id make c.generators }

def addDetector (c : Catalog) (id : String) (detector : Detector) : Catalog :=
  { c with detectors := put id detector c.detectors }

def addBrain (c : Catalog) (id : String) (brain : Brain) : Catalog :=
  { c with brains := put id brain c.brains }

/-- The plugins that come with the library. -/
def builtin (seed : Nat) : Catalog :=
  ((((empty seed).addGenerator SpecialChars.moduleId SpecialChars.generator).addGenerator
    BrokenHtml.moduleId BrokenHtml.generator).addDetector
    Difference.moduleId Difference.detector).addBrain Combinations.moduleId Combinations.brain

/-- The seed of an argument position. Each position gets one of its own. -/
def seedAt (c : Catalog) (slot : Nat) : Nat := (c.seed + slot) % Nat.pow 2 64

/-- A fresh generator for an argument position. -/
def generator (c : Catalog) (id : String) (slot : Nat) : Except UnknownModule Generator :=
  match c.generators.lookup id with
  | some make => .ok (make (c.seedAt slot))
  | none => .error ⟨.generation, id⟩

def detector (c : Catalog) (id : String) : Except UnknownModule Detector :=
  match c.detectors.lookup id with
  | some d => .ok d
  | none => .error ⟨.detection, id⟩

def brain (c : Catalog) (id : String) : Except UnknownModule Brain :=
  match c.brains.lookup id with
  | some b => .ok b
  | none => .error ⟨.brain, id⟩

end Catalog
end PageProbe
