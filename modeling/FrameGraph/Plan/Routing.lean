import FrameGraph.Plan.Devices

/-! Routing across devices. A data edge between devices passes through a transfer; one
transfer serves all edges from one output to one device. Transfers are numbered in
the order of the first edge that needs them and, as steps of the schedule, follow the
cells. A use says that one step reads an output of another. -/

namespace FrameGraph

/-- A copy of a cell's output to a device. -/
structure Crossing where
  source : Nat
  output : Nat
  target : Device
  deriving DecidableEq, Repr

/-- The step `reader` reads an output of the step `producer`. -/
structure Use where
  producer : Nat
  output : Nat
  reader : Nat
  deriving DecidableEq, Repr

/-- A netlist with the device of every cell. -/
structure Layout where
  net : Netlist
  devices : List Device
  deriving DecidableEq

namespace Layout

def deviceOf (l : Layout) (cell : Nat) : Device := l.devices.getD cell .primary

/-- The crossing that an edge needs when its ends are on different devices. -/
def crossing? (l : Layout) (e : DataEdge) : Option Crossing :=
  if l.deviceOf e.source = l.deviceOf e.sink then none
  else some ⟨e.source, e.output, l.deviceOf e.sink⟩

/-- The transfers, in order of the first edge that needs them. -/
def transfers (l : Layout) : List Crossing := (l.net.data.filterMap l.crossing?).eraseDups

/-- The number of the transfer that an edge passes through. -/
def route (l : Layout) (e : DataEdge) : Option Nat :=
  (l.crossing? e).map fun c => l.transfers.idxOf c

/-- The number of cells, which is the step number of the first transfer. -/
def size (l : Layout) : Nat := l.net.cells.length

/-- The uses of one data edge: direct, or a read by its transfer and a read of that. -/
def usesOf (l : Layout) (transfers : List Crossing) (e : DataEdge) : List Use :=
  match l.crossing? e with
  | none => [⟨e.source, e.output, e.sink⟩]
  | some c =>
    let t := l.size + transfers.idxOf c
    [⟨e.source, e.output, t⟩, ⟨t, 0, e.sink⟩]

/-- The number of steps, transfers included. -/
def stepCount (l : Layout) : Nat := l.size + l.transfers.length

theorem usesOf_transfers (l : Layout) (e : DataEdge) :
    l.usesOf l.transfers e =
      match l.route e with
      | none => [⟨e.source, e.output, e.sink⟩]
      | some t => [⟨e.source, e.output, l.size + t⟩, ⟨l.size + t, 0, e.sink⟩] := by
  cases h : l.crossing? e <;> simp [usesOf, route, size, h]

/-- What is read where: data edges as routed, then gate edges. -/
def uses (l : Layout) : List Use :=
  let transfers := l.transfers
  l.net.data.flatMap (l.usesOf transfers) ++
    l.net.gates.map fun e => ⟨e.source, e.output, e.sink⟩

/-- The order that uses put on steps. -/
def stepEdges (l : Layout) : List Edge := l.uses.map fun u => ⟨u.producer, u.reader⟩

end Layout

end FrameGraph
