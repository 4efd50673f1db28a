/-! Layered topological sort. The indices `0 … n-1` are placed wave by wave: a wave
holds, in ascending order, the indices whose predecessors all lie in earlier waves.
Each index carries the number of edges into it from unplaced indices; placing a wave
lowers the numbers at the ends of its edges, and those that reach zero are the next
wave. Indices that are never freed contain a cycle, which is found by walking from
the least of them to least predecessors until an index repeats. -/

namespace FrameGraph

/-- An edge between two indices. -/
structure Edge where
  source : Nat
  sink : Nat
  deriving DecidableEq, Repr

namespace Waves

/-- For each index below `n`, the number of edges into it. -/
def indegrees (n : Nat) (edges : List Edge) : List Nat :=
  (List.range n).map fun i => edges.countP fun e => e.sink == i

/-- The number of edges from a wave into `i`. -/
def relief (edges : List Edge) (wave : List Nat) (i : Nat) : Nat :=
  edges.countP fun e => e.sink == i && wave.contains e.source

/-- The numbers after a wave is placed. -/
def lower (edges : List Edge) (wave degrees : List Nat) : List Nat :=
  degrees.mapIdx fun i d => d - relief edges wave i

/-- The indices whose number is zero and was not. -/
def freed (before after : List Nat) : List Nat :=
  (List.range before.length).filter fun i => before.getD i 0 != 0 && after.getD i 0 == 0

/-- The indices with no edge into them. -/
def sources (degrees : List Nat) : List Nat :=
  (List.range degrees.length).filter fun i => degrees.getD i 0 == 0

/-- Place `wave` and all that it frees, in at most so many waves; the waves and the numbers left. -/
def place (edges : List Edge) : Nat → List Nat → List Nat → List (List Nat) × List Nat
  | 0, _, degrees => ([], degrees)
  | fuel + 1, wave, degrees =>
    if wave.isEmpty then ([], degrees)
    else
      let after := lower edges wave degrees
      let (waves, left) := place edges fuel (freed degrees after) after
      (wave :: waves, left)

/-- The least source of an edge into `i` among the indices with a number left. -/
def predecessor? (edges : List Edge) (left : List Nat) (i : Nat) : Option Nat :=
  ((edges.filter fun e => e.sink == i && left.getD e.source 0 != 0 && left.getD i 0 != 0).map
    Edge.source).min?

/-- Walk predecessors, newest first, until one repeats, and keep the part since its first visit. -/
def chase (next : Nat → Option Nat) : Nat → List Nat → Nat → List Nat
  | 0, path, _ => path.reverse
  | fuel + 1, path, current =>
    if path.contains current then path.take (path.idxOf current + 1)
    else
      match next current with
      | some previous => chase next fuel (current :: path) previous
      | none => (current :: path).reverse

/-- A cycle among the indices with a number left, in the direction of the edges. -/
def cycle (edges : List Edge) (left : List Nat) : List Nat :=
  match left.findIdx? (· != 0) with
  | none => []
  | some start => chase (predecessor? edges left) (left.length + 1) [] start

/-- The waves of the indices below `n`, or a cycle. -/
def sort (n : Nat) (edges : List Edge) : Except (List Nat) (List (List Nat)) :=
  let degrees := indegrees n edges
  let (waves, left) := place edges n (sources degrees) degrees
  if waves.flatten.length = n then .ok waves else .error (cycle edges left)

end Waves

end FrameGraph
