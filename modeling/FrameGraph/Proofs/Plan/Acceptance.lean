import FrameGraph.Proofs.Plan.Schedule

/-! Which netlists are accepted. Scheduling checks three things in turn: that every
required input is fed, that the dependencies have no cycle, and that the devices of
producers agree wherever a cell inherits its device. The first check that fails decides
the error. A netlist that passes all three has a schedule, since routing across devices
leaves nothing for the second sort to stumble on. -/

namespace FrameGraph

/-- The first hit of a search through a list with places. -/
theorem findSome?_zipIdx_eq_some {α γ : Type*} (f : α × Nat → Option γ) (l : List α) (n : Nat)
    {b : γ} : (l.zipIdx n).findSome? f = some b ↔ ∃ i a, l[i]? = some a ∧ f (a, n + i) = some b ∧
      ∀ j < i, ∀ a', l[j]? = some a' → f (a', n + j) = none := by
  induction l generalizing n with
  | nil => simp
  | cons a l ih =>
    rw [List.zipIdx_cons, List.findSome?_cons]
    cases hf : f (a, n) with
    | some c =>
      constructor
      · intro h
        exact ⟨0, a, rfl, hf.trans h, fun j hj => absurd hj (Nat.not_lt_zero j)⟩
      · rintro ⟨i, a', ha', hb, hbefore⟩
        cases i with
        | zero =>
          obtain rfl : a = a' := Option.some.inj ha'
          exact hf.symm.trans hb
        | succ i => exact absurd (hbefore 0 (Nat.succ_pos i) a rfl) (by simp [hf])
    | none =>
      have hshift (i : Nat) : n + 1 + i = n + (i + 1) := by omega
      simp only [ih, hshift]
      constructor
      · rintro ⟨i, a', ha', hb, hbefore⟩
        refine ⟨i + 1, a', ha', hb, fun j hj a'' ha'' => ?_⟩
        cases j with
        | zero =>
          obtain rfl : a = a'' := Option.some.inj ha''
          exact hf
        | succ j => exact hbefore j (by omega) a'' ha''
      · rintro ⟨i, a', ha', hb, hbefore⟩
        cases i with
        | zero =>
          obtain rfl : a = a' := Option.some.inj ha'
          exact nomatch hf.symm.trans hb
        | succ i => exact ⟨i, a', ha', hb, fun j hj => hbefore (j + 1) (by omega)⟩

theorem findSome?_zipIdx_eq_none {α γ : Type*} (f : α × Nat → Option γ) (l : List α) :
    l.zipIdx.findSome? f = none ↔ ∀ i a, l[i]? = some a → f (a, i) = none := by
  rw [List.findSome?_eq_none_iff]
  constructor
  · intro h i a ha
    exact h (a, i) (List.mem_zipIdx_iff_getElem?.mpr ha)
  · intro h x hx
    exact h x.2 x.1 (List.mem_zipIdx_iff_getElem?.mp hx)

namespace Netlist

variable {net : Netlist} {fallback : Device}

/-! ### Missing inputs -/

/-- The cell at a place has a required input that no data edge feeds. -/
structure Missing (net : Netlist) (i : Nat) (cell : Cell) (input : Nat) (port : InputPort) :
    Prop where
  hasCell : net.cells[i]? = some cell
  hasPort : cell.inputs[input]? = some port
  required : port.isOptional = false
  unfed : ∀ e ∈ net.data, ¬(e.sink = i ∧ e.input = input)

/-- Places in the order in which inputs are checked: cell by cell, input by input. -/
def Before (i input j other : Nat) : Prop := i < j ∨ i = j ∧ input ≤ other

def missingOf? (net : Netlist) (i : Nat) (cell : Cell) : Option (Cell × InputPort) :=
  cell.inputs.zipIdx.findSome? fun (port, input) =>
    if !port.isOptional && (net.feeder? i input).isNone then some (cell, port) else none

theorem missing?_eq (net : Netlist) :
    net.missing? = net.cells.zipIdx.findSome? fun (cell, i) => net.missingOf? i cell := rfl

theorem required_unfed_iff {i input : Nat} {cell : Cell} {port : InputPort}
    (hcell : net.cells[i]? = some cell) (hport : cell.inputs[input]? = some port) :
    (!port.isOptional && (net.feeder? i input).isNone) = true ↔ net.Missing i cell input port := by
  have hfeeder : net.feeder? i input = none ↔ ∀ e ∈ net.data, ¬(e.sink = i ∧ e.input = input) := by
    simp [feeder?, List.find?_eq_none]
  rw [Bool.and_eq_true, Option.isNone_iff_eq_none, hfeeder, Bool.not_eq_true']
  exact ⟨fun h => ⟨hcell, hport, h.1, h.2⟩, fun h => ⟨h.required, h.unfed⟩⟩

theorem missingOf?_eq_none {i : Nat} {cell : Cell} (hcell : net.cells[i]? = some cell) :
    net.missingOf? i cell = none ↔ ∀ input port, ¬net.Missing i cell input port := by
  rw [missingOf?, findSome?_zipIdx_eq_none]
  constructor
  · intro h input port hmissing
    have hnone := h input port hmissing.hasPort
    dsimp only at hnone
    rw [if_pos ((required_unfed_iff hcell hmissing.hasPort).mpr hmissing)] at hnone
    cases hnone
  · intro h input port hport
    exact if_neg fun hm => h input port ((required_unfed_iff hcell hport).mp hm)

theorem missingOf?_eq_some {i : Nat} {cell : Cell} (hcell : net.cells[i]? = some cell)
    {pair : Cell × InputPort} :
    net.missingOf? i cell = some pair ↔ ∃ input, net.Missing i cell input pair.2 ∧ pair.1 = cell ∧
      ∀ other port, net.Missing i cell other port → input ≤ other := by
  rw [missingOf?, findSome?_zipIdx_eq_some]
  simp only [Nat.zero_add]
  constructor
  · rintro ⟨input, port, hport, hfound, hbefore⟩
    split at hfound
    · next h =>
      obtain rfl := Option.some.inj hfound
      refine ⟨input, (required_unfed_iff hcell hport).mp h, rfl, fun other port' hother => ?_⟩
      by_contra hlt
      have hnone := hbefore other (by omega) port' hother.hasPort
      rw [if_pos ((required_unfed_iff hcell hother.hasPort).mpr hother)] at hnone
      cases hnone
    · cases hfound
  · obtain ⟨cell', port⟩ := pair
    rintro ⟨input, h, rfl, hfirst⟩
    refine ⟨input, port, h.hasPort, if_pos ((required_unfed_iff hcell h.hasPort).mpr h),
      fun j hj port' hport' => if_neg fun hj' => ?_⟩
    have := hfirst j port' ((required_unfed_iff hcell hport').mp hj')
    omega

theorem missing?_eq_some {cell : Cell} {port : InputPort} :
    net.missing? = some (cell, port) ↔ ∃ i input, net.Missing i cell input port ∧
      ∀ j cell' other port', net.Missing j cell' other port' → Before i input j other := by
  rw [missing?_eq, findSome?_zipIdx_eq_some]
  simp only [Nat.zero_add]
  constructor
  · rintro ⟨i, cell', hcell, hfound, hbefore⟩
    obtain ⟨input, hmissing, rfl, hfirst⟩ := (missingOf?_eq_some hcell).mp hfound
    refine ⟨i, input, hmissing, fun j cell' other port' hother => ?_⟩
    rcases Nat.lt_trichotomy i j with hij | rfl | hji
    · exact .inl hij
    · obtain rfl := Option.some.inj (hcell.symm.trans hother.hasCell)
      exact .inr ⟨rfl, hfirst other port' hother⟩
    · have hnone := hbefore j hji cell' hother.hasCell
      exact absurd hother ((missingOf?_eq_none hother.hasCell).mp hnone other port')
  · rintro ⟨i, input, hmissing, hfirst⟩
    refine ⟨i, cell, hmissing.hasCell, (missingOf?_eq_some hmissing.hasCell).mpr
      ⟨input, hmissing, rfl, fun other port' hother => ?_⟩, fun j hj cell' hcell' => ?_⟩
    · rcases hfirst i cell other port' hother with hlt | ⟨_, hle⟩
      · omega
      · exact hle
    · apply (missingOf?_eq_none hcell').mpr
      intro other port' hother
      rcases hfirst j cell' other port' hother with hlt | ⟨rfl, _⟩ <;> omega

theorem missing?_eq_none :
    net.missing? = none ↔ ∀ i cell input port, ¬net.Missing i cell input port := by
  rw [missing?_eq, findSome?_zipIdx_eq_none]
  constructor
  · intro h i cell input port hmissing
    exact (missingOf?_eq_none hmissing.hasCell).mp (h i cell hmissing.hasCell) input port hmissing
  · intro h i cell hcell
    exact (missingOf?_eq_none hcell).mpr (h i cell)

/-! ### The three checks -/

def IsCyclic (net : Netlist) : Prop := ∃ i, Relation.TransGen (Waves.Joined net.dependencies) i i

/-- An unpinned cell has producers that resolve to different devices. -/
def HasConflict (net : Netlist) (fallback : Device) : Prop :=
  ∃ i, net.pinned? i = none ∧ ∃ p ∈ net.producers i, ∃ q ∈ net.producers i, ∃ d e,
    net.Resolves fallback p d ∧ net.Resolves fallback q e ∧ d ≠ e

/-- In the order of the first sort producers come before the cells that they feed. -/
theorem producers_before (hs : net.Sound) {first : List (List Nat)}
    (h : Waves.sort net.cells.length net.dependencies = .ok first) {before after : List Nat}
    {i : Nat} (hsplit : first.flatten = before ++ i :: after) {p : Nat}
    (hp : p ∈ net.producers i) : p ∈ before := by
  obtain ⟨e, he, hsource, hsink⟩ := mem_producers.mp hp
  exact Waves.source_mem_of_split hs.dependencies_within h hsplit
    (joined_dependencies.mpr (.inl ⟨e, he, hsource, hsink⟩))

theorem infer_ok_iff_agree (hs : net.Sound) {first : List (List Nat)}
    (h : Waves.sort net.cells.length net.dependencies = .ok first) :
    (∃ devices, Devices.infer net fallback first.flatten = .ok devices) ↔
      ¬net.HasConflict fallback := by
  refine Devices.infer_ok_iff _ (Waves.flatten_perm hs.dependencies_within h) (fun i p hp => ?_)
    fun _ _ _ hsplit p hp => producers_before hs h hsplit hp
  obtain ⟨e, he, _, hsink⟩ := mem_producers.mp hp
  rw [← hsink]
  exact (hs.data_lt he).2

/-- How the scheduling of a sound netlist ends, by its three checks. -/
theorem schedule_cases (hs : net.Sound) (fallback : Device) :
    (∃ cell port, net.missing? = some (cell, port) ∧
      net.schedule fallback = .error (.missingInput cell.name port.name)) ∨
    (net.missing? = none ∧ net.IsCyclic ∧ ∃ names, net.schedule fallback = .error (.cycle names)) ∨
    (net.missing? = none ∧ ¬net.IsCyclic ∧ net.HasConflict fallback ∧
      ∃ name devices, net.schedule fallback = .error (.deviceConflict name devices)) ∨
    (net.missing? = none ∧ ¬net.IsCyclic ∧ ¬net.HasConflict fallback ∧
      ∃ s, net.schedule fallback = .ok s) := by
  have hcyclic := Waves.sort_error_iff_cycle hs.dependencies_within
  have hacyclic {first : List (List Nat)}
      (h : Waves.sort net.cells.length net.dependencies = .ok first) : ¬net.IsCyclic := by
    intro hc
    obtain ⟨cycle, hcycle⟩ := hcyclic.mpr hc
    exact nomatch h.symm.trans hcycle
  generalize hresult : net.schedule fallback = result
  have hends := net.schedule_scheduled fallback
  rw [hresult] at hends
  cases hends with
  | missing h => exact .inl ⟨_, _, h, rfl⟩
  | cyclic complete h => exact .inr (.inl ⟨complete, hcyclic.mp ⟨_, h⟩, _, rfl⟩)
  | conflict complete sorted h =>
    refine .inr (.inr (.inl ⟨complete, hacyclic sorted, ?_, _, _, rfl⟩))
    by_contra hnone
    obtain ⟨devices, hdevices⟩ := (infer_ok_iff_agree hs sorted).mpr hnone
    exact nomatch h.symm.trans hdevices
  | @tangled first devices cycle complete sorted inferred h =>
    have hs' : (Layout.mk net devices).net.Sound := hs
    obtain ⟨waves, hwaves⟩ := Layout.sort_steps hs' sorted
    exact nomatch h.symm.trans hwaves
  | ok complete sorted inferred h =>
    exact .inr (.inr (.inr ⟨complete, hacyclic sorted,
      (infer_ok_iff_agree hs sorted).mp ⟨_, inferred⟩, _, rfl⟩))

end Netlist

end FrameGraph
