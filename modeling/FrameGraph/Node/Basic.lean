import FrameGraph.Node.BuiltIn

/-! Node types and nodes. A type declares ports, features, pipeline parameters and
defaults; a node is one use of a type, with parameters, outputs and loop
subscriptions of its own. -/

namespace FrameGraph

/-- The number of a registered node type, in order of registration. -/
structure TypeId where
  index : Nat
  deriving DecidableEq, Repr

namespace TypeId

def bridge : TypeId := ⟨0⟩
def boolOp : TypeId := ⟨1⟩
def constant : TypeId := ⟨2⟩

def debugText (id : TypeId) : String := s!"NodeTypeId({id.index})"

end TypeId

/-- Features of a node type. -/
structure Features where
  /-- Nodes of the same configuration may share a pipeline. -/
  instancing : Bool := true
  /-- Free of side effects, so it runs on every pass whatever its gate. -/
  combinational : Bool := false
  /-- Sees the graph's loops when it runs. -/
  loopAccess : Bool := false
  deriving DecidableEq, Repr

namespace Features

/-- The features as a set of bits, the first with weight one. -/
def bits (t : Features) : Nat :=
  t.instancing.toNat + 2 * t.combinational.toNat + 4 * t.loopAccess.toNat

end Features

/-- A category of work. -/
structure NodeType (β : Type) where
  name : String
  inputs : List InputPort := []
  outputs : List OutputPort := []
  features : Features := {}
  maxInstances : Option Nat := none
  /-- Parameters that decide which nodes may share a pipeline. -/
  pipelineParams : List String := []
  defaults : Params := {}
  /-- The work that a new node begins with. -/
  work : Option (Work β) := none
  check : ParamCheck := fun _ _ => none

namespace NodeType

variable {β : Type}

def isPipelineParam (t : NodeType β) (name : String) : Bool := t.pipelineParams.contains name

def bridge : NodeType β where
  name := "LoopBridge"
  outputs := [{ name := "triggered", type := .bool }]
  features := { combinational := true, loopAccess := true }
  work := some .bridge
  check := .bridge

def boolOp : NodeType β where
  name := "BoolOp"
  inputs := [{ name := "a", type := .bool, isOptional := true },
    { name := "b", type := .bool, isOptional := true }]
  outputs := [{ name := "result", type := .bool }]
  features := { combinational := true }
  defaults := .ofList [(operationParam, .text BoolOp.and.name)]
  work := some .boolOp
  check := .boolOp

def constant : NodeType β where
  name := "Constant"
  outputs := [{ name := "value", type := .bool }]
  features := { combinational := true }
  defaults := .ofList [(valueParam, .bool false)]
  work := some .constant
  check := .constant

/-- The types that every graph begins with, in the order of their reserved numbers. -/
def builtIn : List (NodeType β) := [bridge, boolOp, constant]

end NodeType

/-- One use of a node type in a graph. -/
structure Node (β : Type) where
  id : NodeId
  name : String
  type : TypeId
  /-- The device the node is pinned to, if it is. -/
  device : Option Device := none
  params : Params
  /-- The last value written to each output. -/
  outputs : List Value
  /-- The loops that reach the node over loop connections, in order of arrival. -/
  subscriptions : List LoopId := []
  work : Option (Work β)

namespace Node

variable {β : Type}

def ofType (id : NodeId) (name : String) (typeId : TypeId) (type : NodeType β) : Node β where
  id := id
  name := name
  type := typeId
  params := type.defaults
  outputs := List.replicate type.outputs.length .empty
  work := type.work

/-- A debugging text of a record with these fields. -/
def recordText (name : String) (fields : List (String × String)) : String :=
  name ++ " \x7b " ++ ", ".intercalate (fields.map fun (k, v) => k ++ ": " ++ v) ++ " \x7d"

def debugText (n : Node β) : String :=
  recordText "NodeInstance"
    [("handle", n.id.debugText),
      ("name", Text.quoted n.name),
      ("type_id", n.type.debugText),
      ("device", match n.device with
        | none => "None"
        | some d => "Some(" ++ d.debugText ++ ")"),
      ("params", "\x7b" ++ ", ".intercalate
        (n.params.entries.map fun (k, v) => Text.quoted k ++ ": " ++ v.debugText) ++ "\x7d"),
      ("connected_loops", Text.bracketed (n.subscriptions.map fun l => s!"LoopId({l.index})")),
      ("has_behavior", toString n.work.isSome)]

end Node

end FrameGraph
