import FrameGraph.Proofs.Graph.Outputs
import FrameGraph.Proofs.Graph.Supply

/-! What sources supply. The type of a source is that of its output's port or of its transfer. A
plan that fits its graph lets every input and every gate read a source of its own type, and
every transfer copy an output of its own type. So where the outputs of nodes and the carried
values are of their types, whatever is read is as well. -/

namespace FrameGraph

namespace Graph

variable {β : Type} {g h : Graph β} {p : Plan}

def Supplies (g : Graph β) (p : Plan) (type : PortType) : Source → Prop
  | .output id output => ∃ owner port, g.typeOf? id = some owner ∧
      owner.outputs[output]? = some port ∧ port.type = type
  | .transfer t => ∃ transfer, p.transfers[t]? = some transfer ∧ transfer.type = type

/-- Each transfer has carried a value of its type, or none. -/
def Conveys (g : Graph β) (p : Plan) : Prop :=
  Value.Fill g.carried (p.transfers.map Transfer.type)

/-- A source holds a value of its type, or none. -/
theorem Supplies.read {type : PortType} {source : Source} (h : g.Supplies p type source)
    (hfilled : g.Filled) (hconveys : g.Conveys p) :
    g.read source = .empty ∨ (g.read source).type? = some type := by
  cases source with
  | output id output =>
    obtain ⟨owner, port, howner, hport, rfl⟩ := h
    obtain ⟨n, hn, htype⟩ := typeOf?_isSome howner
    rw [Graph.read, hn, Option.bind_some]
    cases hv : n.outputs[output]? with
    | none => exact .inl rfl
    | some v =>
      have hdeclared : (owner.outputs.map OutputPort.type)[output]? = some port.type := by
        rw [List.getElem?_map, hport]
        rfl
      exact (hfilled.fill hn htype).typed output v port.type hv hdeclared
  | transfer t =>
    obtain ⟨transfer, htransfer, rfl⟩ := h
    rw [Graph.read, List.getD_eq_getElem?_getD]
    cases hv : g.carried[t]? with
    | none => exact .inl rfl
    | some v => exact hconveys.typed t v _ hv (by rw [List.getElem?_map, htransfer]; rfl)

theorem SameShape.supplies (hs : SameShape g h) {type : PortType} {source : Source}
    (hg : g.Supplies p type source) : h.Supplies p type source := by
  cases source with
  | output id output => simpa only [Supplies, hs.typeOf?] using hg
  | transfer t => exact hg

/-- Inputs, gates and transfers read sources of their own types. -/
structure TypedBy (g : Graph β) (p : Plan) : Prop where
  input : ∀ id input source owner expected, p.inputSource? id input = some source →
    g.typeOf? id = some owner → owner.inputs[input]? = some expected →
    g.Supplies p expected.type source
  gate : ∀ id source, p.gateSource? id = some source → g.Supplies p .bool source
  transfer : ∀ transfer ∈ p.transfers,
    g.Supplies p transfer.type (.output transfer.source transfer.output)

theorem Supplies.output_unique {type other : PortType} {id : NodeId} {output : Nat}
    (hg : g.Supplies p type (.output id output)) (hother : g.Supplies p other (.output id output)) :
    type = other := by
  obtain ⟨owner, port, howner, hport, rfl⟩ := hg
  obtain ⟨owner', port', howner', hport', rfl⟩ := hother
  obtain rfl := Option.some.inj (howner.symm.trans howner')
  obtain rfl := Option.some.inj (hport.symm.trans hport')
  rfl

/-! ### Plans of the graph -/

variable {s : Schedule} {config : CompileConfig}

theorem Integral.feeder_supplies (hg : g.Integral) {id : NodeId} {input : Nat} {source : Source}
    {owner : NodeType β} {expected : InputPort}
    (hfeeder : g.feeder? id (.data input) = some source) (howner : g.typeOf? id = some owner)
    (hexpected : owner.inputs[input]? = some expected) : g.Supplies p expected.type source := by
  obtain ⟨c, hc, output, rfl, hsink, hsource, rfl⟩ := hg.feeder?_eq_some.mp hfeeder
  obtain ⟨source, sink, carried, hst, hkt, hcarried, hports⟩ := hg.fits c (List.mem_filter.mp hc).1
  obtain rfl := Option.some.inj
    ((Connection.carries_data_iff.mpr ⟨hsource, hsink⟩).symm.trans hcarried)
  obtain rfl := Option.some.inj (howner.symm.trans hkt)
  obtain ⟨port, declared, hport, hdeclared, htype⟩ := hports
  obtain rfl := Option.some.inj (hexpected.symm.trans hdeclared)
  exact ⟨source, port, hst, hport, htype⟩

theorem Integral.gate_supplies (hg : g.Integral) {id : NodeId} {source : Source}
    (hfeeder : g.feeder? id .gate = some source) : g.Supplies p .bool source := by
  obtain ⟨c, hc, output, rfl, hsink, hsource, rfl⟩ := hg.feeder?_eq_some.mp hfeeder
  obtain ⟨source, sink, carried, hst, _, hcarried, hports⟩ := hg.fits c (List.mem_filter.mp hc).1
  obtain rfl := Option.some.inj
    ((Connection.carries_gate_iff.mpr ⟨hsource, hsink⟩).symm.trans hcarried)
  obtain ⟨port, hport, htype⟩ := hports
  exact ⟨source, port, hst, hport, htype⟩

theorem Integral.transfer_supplies (hg : g.Integral) (hnet : s.layout.net = g.wiring)
    (hv : s.Valid) {transfer : Transfer} (h : transfer ∈ (s.plan config).transfers) :
    g.Supplies p transfer.type (.output transfer.source transfer.output) := by
  obtain ⟨c, hc, rfl⟩ := List.mem_map.mp h
  obtain ⟨e, he, hcross⟩ := Layout.mem_transfers.mp hc
  obtain ⟨_, rfl⟩ := Layout.crossing?_eq_some.mp hcross
  obtain ⟨cell, _, port, _, hcell, _, hport, _⟩ := hv.sound.data e he
  have houtput : s.outputPort? e.source e.output = some port := by
    rw [Schedule.outputPort?, Schedule.cell?, hcell, Option.bind_some, hport]
  rw [hnet] at hcell
  obtain ⟨n, type, hn, htype, rfl, _⟩ := hg.node?_of_cell hcell
  refine ⟨type, port, ?_, hport, by rw [houtput]; rfl⟩
  rw [Schedule.nodeOf_eq (hnet ▸ hcell)]
  exact Option.bind_eq_some_iff.mpr ⟨n, hn, htype⟩

/-- The plan to which a graph compiles fits the types of its ports. -/
theorem Integral.typedBy (hg : g.Integral) (h : g.planFor config = .ok p) : g.TypedBy p := by
  obtain ⟨s, rfl, hnet, hv⟩ := hg.exists_schedule h
  refine ⟨fun id input source owner expected hsource howner hexpected => ?_,
    fun id source hsource => ?_, fun _ => hg.transfer_supplies hnet hv⟩
  · have hbrings := hg.brings config hnet hv id input
    rw [hsource] at hbrings
    cases hfeeder : g.feeder? id (.data input) with
    | none =>
      rw [hfeeder] at hbrings
      cases hbrings
    | some feeder =>
      rw [hfeeder] at hbrings
      have hsupplies := hg.feeder_supplies (p := s.plan config) hfeeder howner hexpected
      obtain ⟨rfl | ⟨t, transfer, rfl, htransfer, rfl⟩⟩ := hbrings
      · exact hsupplies
      · refine ⟨transfer, htransfer, Supplies.output_unique ?_ hsupplies⟩
        exact hg.transfer_supplies hnet hv (List.mem_of_getElem? htransfer)
  · exact hg.gate_supplies (hg.gateSource?_eq config hnet hv id ▸ hsource)

end Graph

end FrameGraph
