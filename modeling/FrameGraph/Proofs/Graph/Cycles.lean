import FrameGraph.Proofs.Graph.Acceptance
import FrameGraph.Proofs.Plan.Cycles

/-! The cycle that a compilation reports, seen from its graph. Only the first sort can fail,
so what is reported is a circle of cells under the names of their nodes, and each name is
that of a live node which data and gate connections lead back to. -/

namespace FrameGraph

namespace Netlist

variable {net : Netlist}

/-- The name of a step in a reported cycle. -/
def label (net : Netlist) (i : Nat) : String := (net.cells[i]?.map Cell.name).getD "<transfer>"

theorem cycleError_eq (c : List Nat) :
    net.cycleError c = .cycle (c.map net.label ++ (c.map net.label).take 1) := rfl

/-- A reported cycle is a circle of cells. -/
theorem schedule_cycle (hs : net.Sound) {fallback : Device} {names : List String}
    (h : net.schedule fallback = .error (.cycle names)) :
    ∃ c, IsCircle (Waves.Joined net.dependencies) c ∧ (∀ i ∈ c, i < net.cells.length) ∧
      names = c.map net.label ++ (c.map net.label).take 1 := by
  have hends := net.schedule_scheduled fallback
  generalize hresult : net.schedule fallback = result at hends
  cases hends with
  | missing | conflict | ok => exact nomatch h.symm.trans hresult
  | cyclic _ hsort =>
    obtain ⟨hcircle, hlt⟩ := Waves.sort_error_isCircle hs.dependencies_within hsort
    rw [cycleError_eq] at hresult
    exact ⟨_, hcircle, hlt, CompileError.cycle.inj (Except.error.inj (h.symm.trans hresult))⟩
  | @tangled first devices _ _ sorted _ hsort =>
    have hs' : (Layout.mk net devices).net.Sound := hs
    obtain ⟨waves, hwaves⟩ := Layout.sort_steps hs' sorted
    exact nomatch hsort.symm.trans hwaves

end Netlist

namespace Graph

variable {β : Type} {g : Graph β}

def FeedsNamed (g : Graph β) (u v : String) : Prop :=
  ∃ c ∈ g.dependencies, g.nameOf c.source = u ∧ g.nameOf c.sink = v

/-- The names of live nodes along a cycle of their connections, the first repeated at the end. -/
structure IsCycle (g : Graph β) (names : List String) : Prop where
  length : 2 ≤ names.length
  closed : names.head? = names.getLast?
  distinct : names.dropLast.Nodup
  live : ∀ name ∈ names, ∃ n ∈ g.nodes, n.name = name
  linked : names.IsChain g.FeedsNamed
  /-- A node that only follows a cycle is not named. -/
  cyclic : ∀ n ∈ g.nodes, n.name ∈ names → Relation.TransGen g.Feeds n.id n.id

theorem nameOf_eq {id : NodeId} {n : Node β} (hn : g.node? id = some n) : g.nameOf id = n.name := by
  rw [nameOf, hn]
  rfl

theorem Integral.nameOf_inj (hg : g.Integral) {a b : NodeId} {m n : Node β}
    (hm : g.node? a = some m) (hn : g.node? b = some n) (h : g.nameOf a = g.nameOf b) : a = b := by
  rw [nameOf_eq hm, nameOf_eq hn] at h
  have ha := (hg.named m.name a).mpr ⟨m, hm, rfl⟩
  have hb := (hg.named m.name b).mpr ⟨n, hn, h.symm⟩
  exact Option.some.inj (ha.symm.trans hb)

theorem Integral.label_cellIndex (hg : g.Integral) {id : NodeId} {n : Node β}
    (hn : g.node? id = some n) : g.wiring.label (g.cellIndex id) = g.nameOf id := by
  obtain ⟨type, htype⟩ := hg.type?_isSome (mem_nodes_of_node? hn)
  have hcell : g.wiring.cells[g.cellIndex id]? = _ := hg.cells_cellIndex hn htype
  rw [nameOf_eq hn, Netlist.label, hcell]
  rfl

theorem Integral.exists_cellIndex (hg : g.Integral) {i : Nat} (hi : i < g.wiring.cells.length) :
    ∃ id n, g.node? id = some n ∧ g.cellIndex id = i := by
  obtain ⟨n, _, hn, _, _, hindex⟩ := hg.node?_of_cell (List.getElem?_eq_getElem hi)
  exact ⟨_, n, hn, hindex⟩

/-- A node whose cell leads back to itself does so over its connections. -/
theorem Integral.feeds_self (hg : g.Integral) {id : NodeId} {n : Node β}
    (hn : g.node? id = some n)
    (h : Relation.TransGen (Waves.Joined g.wiring.dependencies) (g.cellIndex id)
      (g.cellIndex id)) : Relation.TransGen g.Feeds id id := by
  obtain ⟨x, y, _, _, hx, hy, hpath⟩ := hg.transGen_wiring h
  obtain rfl := cellIndex_inj hg hn hx.symm
  obtain rfl := cellIndex_inj hg hn hy.symm
  exact hpath

theorem Integral.feedsNamed (hg : g.Integral) {a b : Nat}
    (h : Waves.Joined g.wiring.dependencies a b) :
    g.FeedsNamed (g.wiring.label a) (g.wiring.label b) := by
  obtain ⟨c, hc, rfl, rfl⟩ := joined_wiring.mp h
  obtain ⟨⟨n, hn⟩, m, hm⟩ := hg.ends_live (mem_connections_of_dependency hc)
  exact ⟨c, hc, (hg.label_cellIndex hn).symm, (hg.label_cellIndex hm).symm⟩

/-- A circle of cells is a cycle of names. -/
theorem Integral.isCycle (hg : g.Integral) {c : List Nat}
    (hc : IsCircle (Waves.Joined g.wiring.dependencies) c)
    (hlt : ∀ i ∈ c, i < g.wiring.cells.length) :
    g.IsCycle (c.map g.wiring.label ++ (c.map g.wiring.label).take 1) := by
  have hnamed : IsCircle g.FeedsNamed (c.map g.wiring.label) := by
    refine hc.map g.wiring.label (fun _ _ => hg.feedsNamed) fun i hi j hj hsame => ?_
    obtain ⟨a, m, hm, rfl⟩ := hg.exists_cellIndex (hlt i hi)
    obtain ⟨b, n, hn, rfl⟩ := hg.exists_cellIndex (hlt j hj)
    rw [hg.label_cellIndex hm, hg.label_cellIndex hn] at hsame
    rw [hg.nameOf_inj hm hn hsame]
  -- a name on the way around is that of a node on the circle
  have hnode {name : String}
      (hname : name ∈ c.map g.wiring.label ++ (c.map g.wiring.label).take 1) :
      ∃ id n, g.node? id = some n ∧ g.nameOf id = name ∧ g.cellIndex id ∈ c := by
    obtain ⟨i, hi, rfl⟩ := List.mem_map.mp
      ((List.mem_append.mp hname).elim id List.mem_of_mem_take)
    obtain ⟨id, n, hn, rfl⟩ := hg.exists_cellIndex (hlt i hi)
    exact ⟨id, n, hn, (hg.label_cellIndex hn).symm, hi⟩
  constructor
  case length => exact hnamed.two_le_length
  case closed => exact hnamed.ends.1
  case distinct =>
    rw [hnamed.ends.2]
    exact hnamed.nodup
  case live =>
    intro name hname
    obtain ⟨id, n, hn, rfl, _⟩ := hnode hname
    exact ⟨n, mem_nodes_of_node? hn, (nameOf_eq hn).symm⟩
  case linked => exact hnamed.around
  case cyclic =>
    intro n hn hname
    have hlive := hg.node?_id hn
    obtain ⟨id, m, hm, hsame, hmem⟩ := hnode hname
    obtain rfl := hg.nameOf_inj hm hlive (hsame.trans (nameOf_eq hlive).symm)
    exact hg.feeds_self hlive (hc.transGen hmem)

/-- Cycle reports are genuine. Edges among indices fail to sort exactly when they have a cycle, and
what is reported then is a circle of them; and a reachable graph that does not compile over a cycle
names live nodes along one. -/
theorem Reachable.cycle_genuine [Behavior β] (hg : Reachable g) :
    (∀ n edges, Waves.Within n edges →
      ((∃ c, Waves.sort n edges = .error c) ↔
        ∃ i, Relation.TransGen (Waves.Joined edges) i i) ∧
      ∀ c, Waves.sort n edges = .error c →
        IsCircle (Waves.Joined edges) c ∧ ∀ i ∈ c, i < n) ∧
    ∀ config names, g.planFor config = .error (.cycle names) → g.IsCycle names := by
  refine ⟨fun n edges hw => ⟨Waves.sort_error_iff_cycle hw, fun _ => Waves.sort_error_isCircle hw⟩,
    fun config names h => ?_⟩
  have hi := hg.integral
  obtain ⟨c, hcircle, hlt, rfl⟩ := Netlist.schedule_cycle hi.wiring_sound (hi.planFor_eq_error.mp h)
  exact hi.isCycle hcircle hlt

def eddyNodes : Graph Script :=
  let typed := (Command.run ({} : Graph Script) (.registerType passType)).graph
  ["outlet", "left", "right", "basin"].foldl
    (fun g name => (Command.run g (.create ⟨3⟩ name)).graph) typed

/-- Two passes that read each other. The first pass reads one of them and feeds the last. -/
def eddy : Graph Script :=
  List.foldl (fun g c => (Command.run g c).graph) eddyNodes
    [.connect ⟨⟨1⟩, .data 0, ⟨2⟩, .data 0⟩, .connect ⟨⟨2⟩, .data 0, ⟨1⟩, .data 0⟩,
      .connect ⟨⟨2⟩, .data 0, ⟨0⟩, .data 0⟩, .connect ⟨⟨0⟩, .data 0, ⟨3⟩, .data 0⟩]

theorem eddy_reachable : Reachable eddy := by
  have hnodes : Reachable eddyNodes :=
    (((((Reachable.new _ _).run _).run _).run _).run _).run _
  exact hnodes.edits _

/-- The walk begins at the first pass, which follows the cycle and is not reported. -/
theorem eddy_cycle : Reachable eddy ∧
    eddy.planFor {} = .error (.cycle ["left", "right", "left"]) ∧
    eddy.IsCycle ["left", "right", "left"] ∧
    Waves.Within 4 [⟨1, 2⟩, ⟨2, 1⟩, ⟨2, 0⟩, ⟨0, 3⟩] ∧
    Waves.sort 4 [⟨1, 2⟩, ⟨2, 1⟩, ⟨2, 0⟩, ⟨0, 3⟩] = .error [1, 2] ∧
    IsCircle (Waves.Joined [⟨1, 2⟩, ⟨2, 1⟩, ⟨2, 0⟩, ⟨0, 3⟩]) [1, 2] := by
  have hplan : eddy.planFor {} = .error (.cycle ["left", "right", "left"]) := by decide +kernel
  have hwithin : Waves.Within 4 [⟨1, 2⟩, ⟨2, 1⟩, ⟨2, 0⟩, ⟨0, 3⟩] := by
    unfold Waves.Within
    decide
  have hsort : Waves.sort 4 [⟨1, 2⟩, ⟨2, 1⟩, ⟨2, 0⟩, ⟨0, 3⟩] = .error [1, 2] := by decide +kernel
  obtain ⟨hsorts, hplans⟩ := eddy_reachable.cycle_genuine
  exact ⟨eddy_reachable, hplan, hplans _ _ hplan, hwithin, hsort,
    ((hsorts _ _ hwithin).2 _ hsort).1⟩

end Graph

end FrameGraph
