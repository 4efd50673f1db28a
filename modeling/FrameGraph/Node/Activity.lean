import FrameGraph.Loop.Table
import FrameGraph.Node.Params
import FrameGraph.Port

/-! What a node does when it runs. A behavior is a state with an `act` that, given the
node's context, yields an activity: a finite dialogue in which the node writes and
reads its outputs, leaves notes, and at the end hands over its next state with an
error or without. Outputs change only through checked writes, so whatever a behavior
does, every output holds a value that fits its port. -/

namespace FrameGraph

/-- Storage class of an output. -/
inductive Lifetime
  /-- Supplied from outside, never allocated. -/
  | external
  /-- Owned by its producer and consumed downstream. -/
  | product
  /-- Dead after its last consumer in the frame; may share storage with other transients. -/
  | transient
  /-- Kept across frames. -/
  | persistent
  deriving DecidableEq, Repr

namespace Lifetime

def name : Lifetime → String
  | external => "variable"
  | product => "product"
  | transient => "transient"
  | persistent => "persistent"

end Lifetime

structure InputPort where
  name : String
  type : PortType
  /-- An optional input may stay unconnected. -/
  isOptional : Bool := false
  deriving DecidableEq, Repr

structure OutputPort where
  name : String
  type : PortType
  lifetime : Lifetime := .product
  /-- Storage footprint in bytes. -/
  size : Nat := 0
  deriving DecidableEq, Repr

/-- A failure that a behavior reports. -/
inductive NodeError
  | missingInput (input : String)
  | invalidParam (name reason : String)
  | invalidOutput (index : Nat) (reason : String)
  | failed (text : String)
  deriving DecidableEq, Repr

namespace NodeError

def message : NodeError → String
  | missingInput input => s!"missing input '{input}'"
  | invalidParam name reason => s!"invalid parameter '{name}': {reason}"
  | invalidOutput index reason => s!"cannot write output {index}: {reason}"
  | failed text => text

end NodeError

/-- The timing of one invocation: that of the loop which drives it, or else the frame's. -/
structure Timing where
  loop : Option LoopId
  delta : Float
  steps : Nat
  isCatchUp : Bool

/-- What a node sees while it runs. -/
structure Context where
  node : NodeId
  name : String
  device : Device
  frame : Nat
  timing : Timing
  params : Params
  inputs : List Value
  /-- The graph's loops, for types that have access to them. -/
  loops : Option (LoopTable Float)

namespace Context

/-- The value at a data input, empty when there is none. -/
def input (c : Context) (index : Nat) : Value := c.inputs.getD index .empty

/-- The value at a data input that must have been produced. -/
def require (c : Context) (index : Nat) : Except NodeError Value :=
  match c.input index with
  | .empty => .error (.missingInput s!"{c.name}[{index}]")
  | value => .ok value

end Context

/-- A remark of a behavior: a line for the log, or its context laid open. -/
inductive Note
  | notice (n : Notice)
  | sample (context : Context) (inputs : Nat)

/-- The dialogue of one invocation. -/
inductive Activity (β : Type)
  /-- The end: the next state, and the error if the invocation failed. -/
  | finish (next : β) (failure : Option NodeError)
  /-- Write an output and go on with the refusal, if there is one. -/
  | write (index : Nat) (value : Value) (rest : Option NodeError → Activity β)
  /-- Read an output as it is now. -/
  | read (index : Nat) (rest : Option Value → Activity β)
  | note (remark : Note) (rest : Activity β)

/-- Types whose values can be the work of a node. -/
class Behavior (β : Type) where
  act : β → Context → Activity β

/-- Why an output does not accept a value. -/
def OutputPort.refusal? (ports : List OutputPort) (index : Nat) (value : Value) :
    Option NodeError :=
  match ports[index]? with
  | none => some (.invalidOutput index "no such output")
  | some port =>
    if value.fits port.type then none
    else some (.invalidOutput index
      (s!"'{port.name}' expects " ++ port.type.name ++ ", got " ++ value.debugText))

namespace Activity

variable {β γ : Type}

/-- What an invocation leaves behind. -/
structure Result (β : Type) where
  next : β
  outputs : List Value
  notes : List Note
  failure : Option NodeError

/-- Carry the dialogue out on the outputs of a node with these ports. -/
def run (ports : List OutputPort) : Activity β → List Value → Result β
  | finish next failure, outputs => ⟨next, outputs, [], failure⟩
  | write index value rest, outputs =>
    match OutputPort.refusal? ports index value with
    | some e => (rest (some e)).run ports outputs
    | none => (rest none).run ports (outputs.set index value)
  | read index rest, outputs => (rest outputs[index]?).run ports outputs
  | note remark rest, outputs =>
    let result := rest.run ports outputs
    { result with notes := remark :: result.notes }

/-- Change the state that is handed over. -/
def map (f : β → γ) : Activity β → Activity γ
  | finish next failure => finish (f next) failure
  | write index value rest => write index value fun e => (rest e).map f
  | read index rest => read index fun v => (rest v).map f
  | note remark rest => note remark (rest.map f)

theorem run_map (f : β → γ) (a : Activity β) (ports : List OutputPort) (outputs : List Value) :
    (a.map f).run ports outputs = ⟨f (a.run ports outputs).next, (a.run ports outputs).outputs,
      (a.run ports outputs).notes, (a.run ports outputs).failure⟩ := by
  induction a generalizing outputs with
  | finish next failure => rfl
  | write index value rest ih =>
    simp only [map, run]
    split <;> exact ih _ _
  | read index rest ih => exact ih _ _
  | note remark rest ih => simp only [map, run, ih]

/-- Write one output and end, with the refusal as the failure. -/
def put (next : β) (index : Nat) (value : Value) : Activity β :=
  write index value fun refusal => finish next refusal

end Activity

end FrameGraph
