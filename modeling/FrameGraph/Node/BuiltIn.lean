import FrameGraph.Node.Activity

/-! Built-in work: bridges that show a loop to the graph, boolean composition and
boolean constants. `Work` adds it to the behaviors of an application. -/

namespace FrameGraph

/-- A boolean operator. -/
inductive BoolOp
  | and
  | or
  | xor
  /-- Negates the first operand and ignores the second. -/
  | not
  | nand
  | nor
  deriving DecidableEq, Repr

namespace BoolOp

def all : List BoolOp := [and, or, xor, not, nand, nor]

/-- The spelling in parameters. -/
def name : BoolOp → String
  | and => "AND"
  | or => "OR"
  | xor => "XOR"
  | not => "NOT"
  | nand => "NAND"
  | nor => "NOR"

def apply : BoolOp → Bool → Bool → Bool
  | and, a, b => a && b
  | or, a, b => a || b
  | xor, a, b => a != b
  | not, a, _ => !a
  | nand, a, b => !(a && b)
  | nor, a, b => !(a || b)

def ofName? (text : String) : Option BoolOp := all.find? fun op => op.name == text

/-- What is said of a text that names no operator. -/
def unknown (text : String) : String := s!"unknown operation '{text}'"

theorem ofName?_name (op : BoolOp) : ofName? op.name = some op := by
  cases op <;> decide

end BoolOp

/-- The parameter of a bridge that holds its loop. -/
def loopParam : String := "loop"

/-- The parameter of a composition that names its operator. -/
def operationParam : String := "operation"

/-- The parameter of a constant that holds its value. -/
def valueParam : String := "value"

/-- Why a type does not accept a value for one of its parameters, if it does not. -/
abbrev ParamCheck := String → Value → Option String

namespace ParamCheck

def bridge : ParamCheck := fun name value =>
  if name = loopParam ∧ value.asLoop = none then some ("expected a loop, got " ++ value.debugText)
  else none

def boolOp : ParamCheck := fun name value =>
  if name = operationParam then
    match value.asText with
    | none => some ("expected an operation name, got " ++ value.debugText)
    | some text => if (BoolOp.ofName? text).isSome then none else some (BoolOp.unknown text)
  else none

def constant : ParamCheck := fun name value =>
  if name = valueParam ∧ value.asBool = none then some ("expected a bool, got " ++ value.debugText)
  else none

end ParamCheck

/-- The work of a node: built in, or the application's own. -/
inductive Work (β : Type)
  | bridge
  | boolOp
  | constant
  | custom (behavior : β)

namespace Work

variable {β : Type}

/-- Shows whether the loop in the parameter triggered. -/
def actBridge (c : Context) : Activity (Work β) :=
  match (c.params.get? loopParam).bind Value.asLoop with
  | none => .finish bridge (some (.invalidParam loopParam "no loop assigned"))
  | some id => .put bridge 0 (.bool (c.loops.any fun loops => loops.isTriggered id))

/-- Applies the operator to the first two inputs; an input that is no boolean counts as false. -/
def actBoolOp (c : Context) : Activity (Work β) :=
  let text := ((c.params.get? operationParam).bind Value.asText).getD ""
  match BoolOp.ofName? text with
  | none => .finish boolOp (some (.invalidParam operationParam (BoolOp.unknown text)))
  | some op =>
    .put boolOp 0 (.bool (op.apply ((c.input 0).asBool.getD false) ((c.input 1).asBool.getD false)))

def actConstant (c : Context) : Activity (Work β) :=
  .put constant 0 (.bool (((c.params.get? valueParam).bind Value.asBool).getD false))

instance [Behavior β] : Behavior (Work β) where
  act
    | bridge, c => actBridge c
    | boolOp, c => actBoolOp c
    | constant, c => actConstant c
    | custom behavior, c => (Behavior.act behavior c).map custom

end Work

end FrameGraph
