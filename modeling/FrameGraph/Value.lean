import FrameGraph.Loop.Basic
import FrameGraph.Text.Quoted
import FrameGraph.Text.Column

/-! Values that flow through ports and are stored as parameters. A value is empty or
carries one payload of a port type; the empty value fits every port. Doubles are kept
as their bits, so values have a decidable equality and a total order, by which
pipeline configurations are compared; `same` is the coarser equality of numbers. -/

namespace FrameGraph

/-- The type of a port. -/
inductive PortType
  | bool
  | int
  | float
  | text
  | loop
  /-- A buffer or image that the application manages. -/
  | resource
  deriving DecidableEq, Repr

namespace PortType

def name : PortType → String
  | bool => "bool"
  | int => "int"
  | float => "float"
  | text => "text"
  | loop => "loop"
  | resource => "resource"

def all : List PortType := [bool, int, float, text, loop, resource]

end PortType

/-- A double by its 64 bits. Different bits are different doubles, also where both are NaN. -/
structure Double where
  bits : UInt64
  deriving DecidableEq, Repr

namespace Double

def ofFloat (x : Float) : Double := ⟨x.toBits⟩

/-- The number that the bits denote. All NaNs denote one. -/
def toFloat (d : Double) : Float := Float.ofBits d.bits

end Double

/-- A payload, or nothing produced yet. -/
inductive Value
  | empty
  | bool (b : Bool)
  | int (n : Int64)
  | float (x : Double)
  | text (s : String)
  | loop (id : LoopId)
  | resource (handle : UInt64)
  deriving DecidableEq, Inhabited, Repr

namespace Value

/-- The type of the payload. -/
def type? : Value → Option PortType
  | empty => none
  | bool _ => some .bool
  | int _ => some .int
  | float _ => some .float
  | text _ => some .text
  | loop _ => some .loop
  | resource _ => some .resource

/-- Whether a port of this type may hold the value. -/
def fits (v : Value) (type : PortType) : Bool :=
  match v.type? with
  | none => true
  | some own => own == type

def isEmpty : Value → Bool
  | empty => true
  | _ => false

def asBool : Value → Option Bool
  | bool b => some b
  | _ => none

def asInt : Value → Option Int64
  | int n => some n
  | _ => none

/-- A float payload, or an integer widened to the nearest double. -/
def asFloat : Value → Option Float
  | float x => some x.toFloat
  | int n => some n.toFloat
  | _ => none

def asText : Value → Option String
  | text s => some s
  | _ => none

def asLoop : Value → Option LoopId
  | loop id => some id
  | _ => none

def asResource : Value → Option UInt64
  | resource handle => some handle
  | _ => none

/-- Equality of payloads, doubles by their own equality: NaN differs from itself and the two zeros
are the same. -/
def same : Value → Value → Bool
  | empty, empty => true
  | bool a, bool b => a == b
  | int a, int b => a == b
  | float a, float b => a.toFloat == b.toFloat
  | text a, text b => a == b
  | loop a, loop b => a == b
  | resource a, resource b => a == b
  | _, _ => false

def debugText : Value → String
  | empty => "Empty"
  | bool b => s!"Bool({b})"
  | int n => s!"Int({n})"
  | float x => "Float(" ++ Decimal.render .precise x.toFloat ++ ")"
  | text s => "Text(" ++ Text.quoted s ++ ")"
  | loop id => s!"Loop(LoopId({id.index}))"
  | resource handle => s!"Resource(ResourceHandle({handle}))"

/-- The place of the variant in the order of values. -/
def rank : Value → Nat
  | empty => 0
  | bool _ => 1
  | int _ => 2
  | float _ => 3
  | text _ => 4
  | loop _ => 5
  | resource _ => 6

/-- Values of one variant are ordered by their payload, doubles by their bits, and others by their
variant. -/
def le : Value → Value → Bool
  | bool a, bool b => a ≤ b
  | int a, int b => a ≤ b
  | float a, float b => a.bits ≤ b.bits
  | text a, text b => a ≤ b
  | loop a, loop b => a.index ≤ b.index
  | resource a, resource b => a ≤ b
  | a, b => a.rank ≤ b.rank

end Value

end FrameGraph
