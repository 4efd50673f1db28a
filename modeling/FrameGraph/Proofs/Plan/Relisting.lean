import Mathlib.Data.List.Perm.Basic
import FrameGraph.Proofs.Plan.Sources

/-! Edges in another order. A sort counts edges, and on its way out of a failure looks for
least predecessors; a search for devices sorts what it finds; a search for a feeder finds
the only one. None of them depends on the order in which edges are listed. So two netlists
that list the same edges fail with the same error, cycles and conflicts included, or both
have schedules, with the same devices. -/

namespace FrameGraph

namespace Waves

variable {n : Nat} {edges edges' : List Edge}

theorem indegrees_perm (h : edges'.Perm edges) : indegrees n edges' = indegrees n edges :=
  List.map_congr_left fun _ _ => h.countP_eq _

theorem lower_perm (h : edges'.Perm edges) (wave degrees : List Nat) :
    lower edges' wave degrees = lower edges wave degrees := by
  have hrelief (i : Nat) : relief edges' wave i = relief edges wave i := h.countP_eq _
  simp only [lower, hrelief]

theorem place_perm (h : edges'.Perm edges) (fuel : Nat) (wave degrees : List Nat) :
    place edges' fuel wave degrees = place edges fuel wave degrees := by
  induction fuel generalizing wave degrees with
  | zero => rfl
  | succ fuel ih => simp only [place, lower_perm h, ih]

theorem min?_perm {l l' : List Nat} (h : l'.Perm l) : l'.min? = l.min? := by
  refine Option.ext fun a => ?_
  rw [List.min?_eq_some_iff, List.min?_eq_some_iff, h.mem_iff]
  simp only [h.mem_iff]

theorem predecessor?_perm (h : edges'.Perm edges) (left : List Nat) :
    predecessor? edges' left = predecessor? edges left :=
  funext fun _ => min?_perm ((h.filter _).map _)

/-- The waves of a sort, and the cycle over which it fails, do not depend on the order of the
edges. -/
theorem sort_perm (h : edges'.Perm edges) : sort n edges' = sort n edges := by
  simp only [sort, cycle, indegrees_perm h, place_perm h, predecessor?_perm h]

end Waves

namespace Devices

/-- Sorted without repetition, devices are in the only order there is. -/
theorem distinct_perm {devices devices' : List Device} (h : devices'.Perm devices) :
    distinct devices' = distinct devices := by
  have hperm : (distinct devices').Perm (distinct devices) :=
    (List.perm_ext_iff_of_nodup (nodup_distinct _) (nodup_distinct _)).mpr fun d => by
      rw [mem_distinct, mem_distinct, h.mem_iff]
  exact hperm.eq_of_pairwise (fun d e _ _ hde hed => absurd hde (Nat.lt_asymm hed))
    (distinct_sorted _) (distinct_sorted _)

end Devices

namespace Netlist

/-- The same cells and the same edges, listed in another order. -/
structure Relisted (net net' : Netlist) : Prop where
  cells : net'.cells = net.cells
  data : net'.data.Perm net.data
  gates : net'.gates.Perm net.gates

namespace Relisted

variable {net net' : Netlist} {fallback : Device}

theorem sound (h : net.Relisted net') (hs : net.Sound) : net'.Sound where
  ids_nodup := h.cells ▸ hs.ids_nodup
  data e he := h.cells ▸ hs.data e (h.data.mem_iff.mp he)
  gates e he := h.cells ▸ hs.gates e (h.gates.mem_iff.mp he)
  single_data :=
    (h.data.pairwise_iff fun hne heq => hne ⟨heq.1.symm, heq.2.symm⟩).mpr hs.single_data
  single_gate := (h.gates.pairwise_iff Ne.symm).mpr hs.single_gate

theorem dependencies (h : net.Relisted net') : net'.dependencies.Perm net.dependencies :=
  (h.data.map _).append (h.gates.map _)

theorem feeder?_isNone (h : net.Relisted net') (sink input : Nat) :
    (net'.feeder? sink input).isNone = (net.feeder? sink input).isNone := by
  rw [Bool.eq_iff_iff, Option.isNone_iff_eq_none, Option.isNone_iff_eq_none]
  simp only [feeder?, List.find?_eq_none, h.data.mem_iff]

theorem missing? (h : net.Relisted net') : net'.missing? = net.missing? := by
  simp only [Netlist.missing?, h.cells, h.feeder?_isNone]

theorem visit (h : net.Relisted net') :
    Devices.visit net' fallback = Devices.visit net fallback := by
  funext found i
  have hproducers : (net'.producers i).Perm (net.producers i) := (h.data.filter _).map _
  simp only [Devices.visit, h.cells, Devices.distinct_perm (hproducers.filterMap _)]

theorem infer (h : net.Relisted net') (order : List Nat) :
    Devices.infer net' fallback order = Devices.infer net fallback order := by
  simp only [Devices.infer, h.visit, h.cells]

theorem cycleError (h : net.Relisted net') : net'.cycleError = net.cycleError := by
  funext cycle
  simp only [Netlist.cycleError, h.cells]

end Relisted

end Netlist

structure Schedule.Relisted (s s' : Schedule) : Prop where
  net : s.layout.net.Relisted s'.layout.net
  devices : s'.layout.devices = s.layout.devices
  valid : s.Valid
  valid' : s'.Valid

namespace Netlist.Relisted

variable {net net' : Netlist}

theorem schedule (h : net.Relisted net') (hs : net.Sound) (fallback : Device) :
    (∃ e, net.schedule fallback = .error e ∧ net'.schedule fallback = .error e) ∨
      ∃ s s', net.schedule fallback = .ok s ∧ net'.schedule fallback = .ok s' ∧ s.Relisted s' := by
  have hsort : Waves.sort net'.cells.length net'.dependencies =
      Waves.sort net.cells.length net.dependencies := by
    rw [h.cells, Waves.sort_perm h.dependencies]
  generalize hresult : net.schedule fallback = result
  have hends := net.schedule_scheduled fallback
  rw [hresult] at hends
  cases hends with
  | missing hmissing =>
    exact .inl ⟨_, rfl, Scheduled.schedule_eq (.missing (h.missing?.trans hmissing))⟩
  | cyclic complete hcycle =>
    refine .inl ⟨_, rfl, ?_⟩
    rw [← h.cycleError]
    exact Scheduled.schedule_eq (.cyclic (h.missing?.trans complete) (hsort.trans hcycle))
  | conflict complete sorted hconflict =>
    refine .inl ⟨_, rfl, ?_⟩
    rw [← h.cells]
    exact Scheduled.schedule_eq (.conflict (h.missing?.trans complete) (hsort.trans sorted)
      ((h.infer _).trans hconflict))
  | @tangled first devices cycle complete sorted inferred htangled =>
    have hs' : (Layout.mk net devices).net.Sound := hs
    obtain ⟨waves, hwaves⟩ := Layout.sort_steps hs' sorted
    exact nomatch htangled.symm.trans hwaves
  | @ok first devices waves complete sorted inferred hsteps =>
    have hs' : (Layout.mk net' devices).net.Sound := h.sound hs
    obtain ⟨waves', hsteps'⟩ := Layout.sort_steps hs' (hsort.trans sorted)
    exact .inr ⟨_, ⟨⟨net', devices⟩, waves'⟩, rfl,
      Scheduled.schedule_eq (.ok (h.missing?.trans complete) (hsort.trans sorted)
        ((h.infer _).trans inferred) hsteps'),
      h, rfl, ⟨hs, hsteps⟩, h.sound hs, hsteps'⟩

end Netlist.Relisted

end FrameGraph
