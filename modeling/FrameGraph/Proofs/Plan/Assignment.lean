import FrameGraph.Proofs.Plan.Acceptance
import FrameGraph.Proofs.Plan.Tables

/-! Devices and routes on tables. Inference reads pins and producers of a cell and the devices found
so far from tables with a place for each cell, and routing reads the devices at both ends of an
edge. A read or a change outside a table has no answer. The edges of a sound netlist lie within its
cells, so there is always one, and it is the device, the conflict or the route that inference and
layout give. -/

namespace FrameGraph

section Passes

variable {α γ σ ε : Type}

theorem change?_const {l : List α} {i : Nat} (hi : i < l.length) (a : α) :
    change? l i (fun _ => a) = some (l.set i a) := by
  rw [change?, if_pos hi, List.set_eq_modify]

/-- A pass that may be refused has an answer where each of its steps has one, and it is the answer
of the steps in turn. -/
theorem foldlM_run {P : σ → Prop} {f : σ → γ → ExceptT ε Option σ} {g : σ → γ → Except ε σ}
    {l : List γ} (hstep : ∀ s, P s → ∀ c ∈ l, f s c = some (g s c))
    (hkeep : ∀ s, P s → ∀ c ∈ l, ∀ s', g s c = .ok s' → P s') {s : σ} (hs : P s) :
    l.foldlM f s = some (l.foldlM g s) := by
  induction l generalizing s with
  | nil => rfl
  | cons c l ih =>
    rw [List.foldlM_cons, List.foldlM_cons, hstep s hs c List.mem_cons_self]
    cases hc : g s c with
    | error e => rfl
    | ok next =>
      exact ih (fun s hs c hc => hstep s hs c (List.mem_cons_of_mem _ hc))
        (fun s hs c hc => hkeep s hs c (List.mem_cons_of_mem _ hc))
        (hkeep s hs c List.mem_cons_self next hc)

end Passes

namespace Devices

def producers? (net : Netlist) : Option (List (List Nat)) :=
  net.data.foldlM (fun table e => change? table e.sink (· ++ [e.source]))
    (List.replicate net.cells.length [])

def inherited? (producers : List (List Nat)) (found : List (Option Device)) (i : Nat) :
    Option (List Device) := do
  let sources ← producers[i]?
  let devices ← sources.mapM fun p => found[p]?
  return distinct (devices.filterMap id)

def visit? (pins : List (Option Device)) (producers : List (List Nat)) (fallback : Device)
    (found : List (Option Device)) (i : Nat) : Option (Except Conflict (List (Option Device))) := do
  if (← pins[i]?).isSome then return .ok found
  else
    match ← inherited? producers found i with
    | [] => return .ok (← change? found i fun _ => some fallback)
    | [device] => return .ok (← change? found i fun _ => some device)
    | several => return .error ⟨i, several⟩

def infer? (net : Netlist) (fallback : Device) (order : List Nat) :
    Option (Except Conflict (List Device)) := do
  let pins := net.cells.map Cell.pinned
  let producers ← producers? net
  let visits : ExceptT Conflict Option (List (Option Device)) :=
    order.foldlM (visit? pins producers fallback) pins
  return (← visits).map fun found => found.map fun d => d.getD fallback

variable {net : Netlist} {fallback : Device}

theorem producers?_eq (hs : net.Sound) :
    producers? net = some (tabulate net.cells.length net.producers) := by
  rw [producers?, replicate_eq_tabulate]
  refine foldlM_prefix (fun data => tabulate net.cells.length fun i =>
    (data.filter fun e => e.sink == i).map DataEdge.source) fun before e after hsplit => ?_
  have hsink := (hs.data_lt (show e ∈ net.data by simp [hsplit])).2
  rw [change?_tabulate hsink]
  refine congrArg some (tabulate_congr fun i _ => ?_)
  by_cases hi : e.sink = i
  · simp [hi]
  · simp [hi, Ne.symm hi]

theorem inherited?_eq (hs : net.Sound) {found : List (Option Device)}
    (hfound : found.length = net.cells.length) {i : Nat} (hi : i < net.cells.length) :
    inherited? (tabulate net.cells.length net.producers) found i =
      some (distinct ((net.producers i).filterMap fun p => (found[p]?).join)) := by
  have hread : ∀ p ∈ net.producers i, found[p]? = some ((found[p]?).join) := by
    intro p hp
    obtain ⟨e, he, rfl, _⟩ := Netlist.mem_producers.mp hp
    simp [hfound, (hs.data_lt he).1]
  simp only [inherited?, tabulate_getElem? hi, mapM_eq_some hread, Option.bind_eq_bind,
    Option.bind_some, List.filterMap_map]
  rfl

theorem visit?_eq (hs : net.Sound) {found : List (Option Device)}
    (hfound : found.length = net.cells.length) {i : Nat} (hi : i < net.cells.length) :
    visit? (net.cells.map Cell.pinned) (tabulate net.cells.length net.producers) fallback found i =
      some (visit net fallback found i) := by
  have hlt : i < found.length := hfound ▸ hi
  have hpin : (net.cells.map Cell.pinned)[i]? = some (net.cells[i]?.bind Cell.pinned) := by
    simp [hi]
  simp only [visit?, visit, hpin, inherited?_eq hs hfound hi, Option.bind_eq_bind, Option.bind_some,
    change?_const hlt]
  split
  · rfl
  · generalize distinct ((net.producers i).filterMap fun p => (found[p]?).join) = devices
    rcases devices with _ | ⟨device, _ | _⟩ <;> rfl

theorem length_visit {found next : List (Option Device)} {i : Nat}
    (h : visit net fallback found i = .ok next) : next.length = found.length := by
  unfold visit at h
  split at h
  · rw [Except.ok.inj h]
  · split at h
    · rw [← Except.ok.inj h, List.length_set]
    · rw [← Except.ok.inj h, List.length_set]
    · cases h

/-- Inference on tables answers what inference does. -/
theorem infer?_eq (hs : net.Sound) {order : List Nat} (horder : ∀ i ∈ order, i < net.cells.length) :
    infer? net fallback order = some (infer net fallback order) := by
  have hvisit (found : List (Option Device)) (hfound : found.length = net.cells.length) (i : Nat)
      (hi : i ∈ order) : visit? (net.cells.map Cell.pinned)
        (tabulate net.cells.length net.producers) fallback found i =
          some (visit net fallback found i) := visit?_eq hs hfound (horder i hi)
  have hfold := foldlM_run hvisit
    (fun found hfound i _ next hnext => (length_visit hnext).trans hfound)
    (show (net.cells.map Cell.pinned).length = net.cells.length from List.length_map _)
  simp only [infer?, infer, producers?_eq hs, Option.bind_eq_bind, Option.bind_some, hfold]
  cases order.foldlM (visit net fallback) (net.cells.map Cell.pinned) <;> rfl

end Devices

/-- The transfers found so far, and the transfer that each edge so far passes through. -/
structure Routing where
  transfers : List Crossing := []
  via : List (Option Nat) := []

namespace Routing

/-- Route one more edge. A crossing that is new becomes the last transfer. -/
def add? (devices : List Device) (r : Routing) (e : DataEdge) : Option Routing := do
  let origin ← devices[e.source]?
  let target ← devices[e.sink]?
  if origin = target then return { r with via := r.via ++ [none] }
  else
    let c : Crossing := ⟨e.source, e.output, target⟩
    let t := r.transfers.idxOf c
    return { transfers := if t = r.transfers.length then r.transfers ++ [c] else r.transfers
             via := r.via ++ [some t] }

def route? (data : List DataEdge) (devices : List Device) : Option Routing :=
  data.foldlM (add? devices) {}

/-- What is read where by edges that are routed so, when there are `n` cells. -/
def uses (r : Routing) (net : Netlist) : List Use :=
  (net.data.zip r.via).flatMap (fun (e, via) =>
    match via with
    | none => [⟨e.source, e.output, e.sink⟩]
    | some t => [⟨e.source, e.output, net.cells.length + t⟩, ⟨net.cells.length + t, 0, e.sink⟩]) ++
  net.gates.map fun e => ⟨e.source, e.output, e.sink⟩

def ofLayout (l : Layout) : Routing := ⟨l.transfers, l.net.data.map l.route⟩

variable {l : Layout}

theorem zip_via (l : Layout) :
    l.net.data.zip (ofLayout l).via = l.net.data.map fun e => (e, l.route e) := by
  have hzip := List.zip_map' (f := id) (g := l.route) (l := l.net.data)
  rwa [List.map_id] at hzip

theorem uses_ofLayout (l : Layout) : (ofLayout l).uses l.net = l.uses := by
  rw [uses, zip_via, List.flatMap_map, Layout.uses]
  congr 1
  exact List.flatMap_congr fun e _ => (l.usesOf_transfers e).symm

def crossings (l : Layout) (data : List DataEdge) : List Crossing :=
  (data.filterMap l.crossing?).eraseDups

theorem crossings_append (l : Layout) (before after : List DataEdge) :
    crossings l (before ++ after) =
      crossings l before ++ ((after.filterMap l.crossing?).removeAll
        (before.filterMap l.crossing?)).eraseDups := by
  rw [crossings, List.filterMap_append, List.eraseDups_append]
  rfl

theorem crossings_concat (before : List DataEdge) {e : DataEdge} {c : Crossing}
    (hc : l.crossing? e = some c) :
    crossings l (before ++ [e]) =
      if (crossings l before).idxOf c = (crossings l before).length then crossings l before ++ [c]
      else crossings l before := by
  have hmem : c ∈ crossings l before ↔ c ∈ before.filterMap l.crossing? := List.mem_eraseDups
  have hnew : [e].filterMap l.crossing? = [c] := by simp [hc]
  rw [crossings_append, hnew, List.removeAll]
  by_cases h : c ∈ before.filterMap l.crossing?
  · have hlt := List.idxOf_lt_length_of_mem (hmem.mpr h)
    rw [if_neg (Nat.ne_of_lt hlt), List.filter_cons_of_neg (by simpa using h)]
    simp
  · rw [if_pos (List.idxOf_eq_length (mt hmem.mp h)), List.filter_cons_of_pos (by simpa using h)]
    simp [List.eraseDups_cons]

/-- A crossing keeps its number when more edges are routed. -/
theorem idxOf_crossings (before after : List DataEdge) {e : DataEdge} {c : Crossing}
    (hc : l.crossing? e = some c) :
    (crossings l (before ++ e :: after)).idxOf c = (crossings l before).idxOf c := by
  have hconcat := crossings_concat before hc
  have hmem : c ∈ crossings l (before ++ [e]) := List.mem_eraseDups.mpr (by simp [hc])
  have hsplit : before ++ e :: after = before ++ [e] ++ after := by simp
  rw [hsplit, crossings_append, List.idxOf_append_of_mem hmem, hconcat]
  split
  · next h =>
    have hnew : c ∉ crossings l before := fun hold =>
      Nat.ne_of_lt (List.idxOf_lt_length_of_mem hold) h
    rw [List.idxOf_append_of_notMem hnew, List.idxOf_cons_self, Nat.add_zero, h]
  · rfl

theorem add?_crossings (hdevices : l.devices.length = l.net.cells.length)
    {before after : List DataEdge} {e : DataEdge} (hsplit : l.net.data = before ++ e :: after)
    (hsource : e.source < l.net.cells.length) (hsink : e.sink < l.net.cells.length) :
    add? l.devices ⟨crossings l before, before.map l.route⟩ e =
      some ⟨crossings l (before ++ [e]), (before ++ [e]).map l.route⟩ := by
  have hread {i : Nat} (hi : i < l.net.cells.length) : l.devices[i]? = some (l.deviceOf i) := by
    simp [Layout.deviceOf, hdevices, hi]
  simp only [add?, hread hsource, hread hsink, Option.bind_eq_bind, Option.bind_some]
  split
  · next h =>
    have hc : l.crossing? e = none := if_pos h
    simp [crossings_append, hc, List.removeAll, Layout.route]
  · next h =>
    have hc : l.crossing? e = some ⟨e.source, e.output, l.deviceOf e.sink⟩ := if_neg h
    have hroute : l.route e = some ((crossings l before).idxOf
        ⟨e.source, e.output, l.deviceOf e.sink⟩) := by
      rw [Layout.route, hc, Option.map_some, ← idxOf_crossings before after hc, ← hsplit]
      rfl
    rw [crossings_concat before hc, List.map_append, List.map_singleton, hroute]
    rfl

/-- Routing on tables gives the routes of the layout. -/
theorem route?_eq (hs : l.net.Sound) (hdevices : l.devices.length = l.net.cells.length) :
    route? l.net.data l.devices = some (ofLayout l) := by
  refine foldlM_prefix (fun data => Routing.mk (crossings l data) (data.map l.route))
    fun before e after hsplit => ?_
  obtain ⟨hsource, hsink⟩ := hs.data_lt (show e ∈ l.net.data by simp [hsplit])
  exact add?_crossings hdevices hsplit hsource hsink

end Routing

end FrameGraph
