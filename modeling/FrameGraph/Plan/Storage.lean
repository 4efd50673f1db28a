import FrameGraph.Plan.Routing

/-! Storage of resource outputs. A product or persistent output gets a slot of its own,
an external one gets none, and transients share slots: each takes the first shared
slot on its device whose latest resident is last used before the transient is
produced, or opens a new one. Small transients, or all of them when aliasing is off,
get slots of their own. -/

namespace FrameGraph

/-- Compiler settings. -/
structure CompileConfig where
  /-- Let transients that are never live together share storage. -/
  aliasing : Bool := true
  /-- The device of nodes with neither a device of their own nor producers. -/
  defaultDevice : Device := .primary
  /-- Transients of fewer bytes than this get slots of their own. -/
  minAliasSize : Nat := 0
  deriving DecidableEq, Repr

/-- A step of a plan: the run of a node, or a transfer by number. -/
inductive Step
  | node (id : NodeId)
  | transfer (number : Nat)
  deriving DecidableEq, Repr

namespace Step

def node? : Step → Option NodeId
  | node id => some id
  | transfer _ => none

end Step

/-- Where a resource lives. -/
inductive Binding
  | external
  /-- A slot of its own. -/
  | dedicated (slot : Nat)
  /-- A slot of the shared pool. -/
  | aliased (slot : Nat)
  deriving DecidableEq, Repr

namespace Binding

def slot? : Binding → Option Nat
  | external => none
  | dedicated slot | aliased slot => some slot

end Binding

/-- An output that asks for storage, live from its producer's position in the plan to that of its
last reader. -/
structure Request where
  producer : Step
  output : Nat
  lifetime : Lifetime
  device : Device
  size : Nat
  firstUse : Nat
  lastUse : Nat
  deriving DecidableEq, Repr

namespace Request

/-- Both are live at some position. -/
def overlaps (a b : Request) : Bool := a.firstUse ≤ b.lastUse && b.firstUse ≤ a.lastUse

/-- A transient that the settings let share storage. -/
def isPooled (r : Request) (config : CompileConfig) : Bool :=
  r.lifetime == .transient && config.aliasing && config.minAliasSize ≤ r.size

end Request

structure Allocation extends Request where
  binding : Binding
  deriving DecidableEq, Repr

/-- A physical slot. -/
structure Slot where
  /-- The number by which bindings name it. -/
  number : Nat
  device : Device
  /-- The largest footprint among its residents. -/
  size : Nat
  isPersistent : Bool
  /-- How many resources are bound to it. -/
  residents : Nat
  /-- For a shared slot, the position at which its latest resident is last used. -/
  busyUntil : Option Nat
  deriving DecidableEq, Repr

namespace Slot

/-- A new slot. -/
def ofRequest (number : Nat) (r : Request) (busyUntil : Option Nat) : Slot :=
  ⟨number, r.device, r.size, r.lifetime == .persistent, 1, busyUntil⟩

/-- A shared slot on the right device whose latest resident is dead. -/
def accepts (s : Slot) (r : Request) : Bool :=
  s.device == r.device && s.busyUntil.any fun last => last < r.firstUse

/-- The slot with one more resident. -/
def join (s : Slot) (r : Request) : Slot :=
  { s with size := max s.size r.size, residents := s.residents + 1, busyUntil := some r.lastUse }

end Slot

structure Storage where
  allocations : List Allocation := []
  slots : List Slot := []
  deriving DecidableEq, Repr

namespace Storage

def bind (s : Storage) (r : Request) (binding : Binding) (slots : List Slot) : Storage :=
  ⟨s.allocations ++ [{ toRequest := r, binding }], slots⟩

/-- Give storage to one request. -/
def place (config : CompileConfig) (s : Storage) (r : Request) : Storage :=
  if r.lifetime = .external then s.bind r .external s.slots
  else if r.isPooled config then
    match s.slots.findIdx? fun slot => slot.accepts r with
    | some i => s.bind r (.aliased i) (s.slots.modify i fun slot => slot.join r)
    | none =>
      s.bind r (.aliased s.slots.length)
        (s.slots ++ [.ofRequest s.slots.length r (some r.lastUse)])
  else
    s.bind r (.dedicated s.slots.length) (s.slots ++ [.ofRequest s.slots.length r none])

/-- Give storage to all requests, in the order of their first use. -/
def allocate (config : CompileConfig) (requests : List Request) : Storage :=
  requests.foldl (place config) {}

def find? (s : Storage) (producer : Step) (output : Nat) : Option Allocation :=
  s.allocations.find? fun a => a.producer == producer && a.output == output

/-- Bytes across all slots. -/
def size (s : Storage) : Nat := s.slots.foldl (fun n slot => n + slot.size) 0

/-- The size as a 64-bit word. -/
def sizeWord (s : Storage) : UInt64 := s.size.toUInt64

/-- The number of transients that share their slot with another resource. -/
def aliasedCount (s : Storage) : Nat :=
  s.allocations.countP fun a =>
    match a.binding with
    | .aliased i => s.slots[i]?.any fun slot => 1 < slot.residents
    | _ => false

/-- The pairs of allocations that are live together, by their places. -/
def overlaps (s : Storage) : List (Nat × Nat) :=
  s.allocations.zipIdx.flatMap fun (a, i) =>
    (s.allocations.zipIdx.filter fun (b, j) => i < j && a.overlaps b.toRequest).map fun (_, j) =>
      (i, j)

end Storage

end FrameGraph
