import FrameGraph.Graph.Edit

/-! Loop subscriptions. A bridge publishes the loop in its parameter; any other node
passes on the loops it is subscribed to. Sweeping the loop connections in order until
nothing changes gives every node the loops that reach it. A loop that reaches a node
does so over a path that visits each node at most once, so as many sweeps as there
are nodes always suffice. -/

namespace FrameGraph

namespace Graph

variable {β : Type} (g : Graph β)

/-- The loops that each slot's node is subscribed to, in order of arrival. -/
abbrev Subscribed := List (List LoopId)

/-- What a node passes on over its loop connections. -/
def published (subscribed : Subscribed) (id : NodeId) : List LoopId :=
  match g.node? id with
  | none => []
  | some node =>
    if node.type = .bridge then ((node.params.get? loopParam).bind Value.asLoop).toList
    else subscribed.getD id.index []

/-- Pass on the loops of the source of a connection to its sink, if that is live. -/
def deliver (subscribed : Subscribed) (c : Connection) : Subscribed :=
  if (g.node? c.sink).isSome then
    let arriving := g.published subscribed c.source
    subscribed.modify c.sink.index fun own => own ++ arriving.filter fun l => !own.contains l
  else subscribed

/-- Deliver over every loop connection once. -/
def sweep (subscribed : Subscribed) : Subscribed :=
  (g.connections.filter Connection.carriesLoops).foldl g.deliver subscribed

/-- Sweep until nothing changes, at most so many times. -/
def sweeps : Nat → Subscribed → Subscribed
  | 0, subscribed => subscribed
  | n + 1, subscribed =>
    let next := g.sweep subscribed
    if next = subscribed then subscribed else sweeps n next

/-- The subscriptions that the loop connections give. -/
def subscribed : Subscribed :=
  g.sweeps (g.slots.length + 1) (List.replicate g.slots.length [])

/-- Refresh the subscriptions of every node. -/
def propagate : Graph β :=
  { g with
    slots := (g.slots.zip g.subscribed).map fun (slot, subscriptions) =>
      slot.map fun node => { node with subscriptions } }

end Graph

end FrameGraph
