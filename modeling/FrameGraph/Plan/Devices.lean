import FrameGraph.Plan.Netlist

/-! Device inference. A pinned cell keeps its device; any other takes the one device
of its data producers, or the default when it has none. Producers on different
devices are a conflict. Cells are visited in an order that puts producers first. -/

namespace FrameGraph

namespace Devices

/-- Ascending, each device once. -/
def distinct (devices : List Device) : List Device :=
  (devices.mergeSort fun a b => a.index ≤ b.index).eraseDups

/-- A cell whose producers disagree, and their devices. -/
structure Conflict where
  cell : Nat
  devices : List Device
  deriving DecidableEq, Repr

/-- Resolve one cell, given the devices found so far. -/
def visit (net : Netlist) (fallback : Device) (found : List (Option Device)) (i : Nat) :
    Except Conflict (List (Option Device)) :=
  if (net.cells[i]?.bind Cell.pinned).isSome then .ok found
  else
    match distinct ((net.producers i).filterMap fun p => (found[p]?).join) with
    | [] => .ok (found.set i (some fallback))
    | [device] => .ok (found.set i (some device))
    | several => .error ⟨i, several⟩

/-- The device of every cell. -/
def infer (net : Netlist) (fallback : Device) (order : List Nat) :
    Except Conflict (List Device) := do
  let found ← order.foldlM (visit net fallback) (net.cells.map Cell.pinned)
  return found.map fun d => d.getD fallback

end Devices

end FrameGraph
