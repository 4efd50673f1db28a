import Mathlib.Data.List.Nodup
import Mathlib.Order.Basic
import FrameGraph.Plan.Devices

/-! Device inference as a recursion. `Resolves` says which device something resolves to:
the one that it is pinned to, else the one that all its producers resolve to, else, when
it has none, the default. The relation is functional but not total, for producers may
disagree. Visiting cells after their producers finds the device of every cell, or stops
at an unpinned one whose producers resolve to different devices. -/

namespace FrameGraph

theorem nodup_eraseDups {α : Type*} [BEq α] [LawfulBEq α] : (l : List α) → l.eraseDups.Nodup
  | [] => by simp
  | b :: l => by
    have ih := nodup_eraseDups (l.filter fun x => !x == b)
    rw [List.eraseDups_cons, List.nodup_cons, List.mem_eraseDups]
    exact ⟨by simp, ih⟩
termination_by l => l.length
decreasing_by
  have := List.length_filter_le (fun x => !x == b) l
  simp only [List.length_cons]
  omega

theorem eraseDups_sublist {α : Type*} [BEq α] [LawfulBEq α] : (l : List α) →
    l.eraseDups.Sublist l
  | [] => by simp
  | b :: l => by
    have ih := eraseDups_sublist (l.filter fun x => !x == b)
    rw [List.eraseDups_cons]
    exact (ih.trans List.filter_sublist).cons_cons b
termination_by l => l.length
decreasing_by
  have := List.length_filter_le (fun x => !x == b) l
  simp only [List.length_cons]
  omega

namespace Devices

theorem mem_distinct {d : Device} {devices : List Device} : d ∈ distinct devices ↔ d ∈ devices := by
  rw [distinct, List.mem_eraseDups, List.mem_mergeSort]

theorem nodup_distinct (devices : List Device) : (distinct devices).Nodup := nodup_eraseDups _

theorem distinct_sorted (devices : List Device) :
    (distinct devices).Pairwise fun d e => d.index < e.index := by
  have hsorted : (devices.mergeSort fun d e => d.index ≤ e.index).Pairwise fun d e =>
      d.index ≤ e.index := by
    have h := @List.pairwise_mergeSort Device (fun d e => d.index ≤ e.index)
      (fun a b c hab hbc => by simp only [decide_eq_true_eq] at hab hbc ⊢; omega)
      (fun a b => by simp only [Bool.or_eq_true, decide_eq_true_eq]; omega) devices
    simpa using h
  refine ((hsorted.sublist (eraseDups_sublist _)).and (nodup_distinct devices)).imp ?_
  rintro ⟨d⟩ ⟨e⟩ ⟨hle, hne⟩
  exact Nat.lt_of_le_of_ne hle fun h => hne (congrArg Device.mk h)

/-! ### The recursion -/

/-- The device that something resolves to. -/
inductive Resolves {ι : Type*} (pinned : ι → Option Device) (feeds : ι → ι → Prop)
    (fallback : Device) : ι → Device → Prop
  | pinned {i : ι} {d : Device} (h : pinned i = some d) : Resolves pinned feeds fallback i d
  | inherited {i : ι} {d : Device} (h : pinned i = none) (fed : ∃ p, feeds p i)
      (agree : ∀ p, feeds p i → Resolves pinned feeds fallback p d) :
      Resolves pinned feeds fallback i d
  | unfed {i : ι} (h : pinned i = none) (unfed : ∀ p, ¬feeds p i) :
      Resolves pinned feeds fallback i fallback

namespace Resolves

variable {ι κ : Type*} {pinned : ι → Option Device} {feeds : ι → ι → Prop} {fallback : Device}
  {pinned' : κ → Option Device} {feeds' : κ → κ → Prop} {i : ι} {d e : Device}

theorem unique (hd : Resolves pinned feeds fallback i d) (he : Resolves pinned feeds fallback i e) :
    d = e := by
  induction hd generalizing e with
  | pinned h =>
    cases he with
    | pinned h' => exact Option.some.inj (h.symm.trans h')
    | inherited h' => exact nomatch h.symm.trans h'
    | unfed h' => exact nomatch h.symm.trans h'
  | inherited h fed agree ih =>
    obtain ⟨p, hp⟩ := fed
    cases he with
    | pinned h' => exact nomatch h.symm.trans h'
    | inherited _ _ agree' => exact ih p hp (agree' p hp)
    | unfed _ unfed => exact absurd hp (unfed p)
  | unfed h unfed =>
    cases he with
    | pinned h' => exact nomatch h.symm.trans h'
    | inherited _ fed => exact absurd fed.choose_spec (unfed _)
    | unfed => rfl

/-- An unpinned one with a producer has the device of that producer. -/
theorem of_feeds (h : pinned i = none) {p : ι} (hp : feeds p i)
    (hd : Resolves pinned feeds fallback i d) : Resolves pinned feeds fallback p d := by
  cases hd with
  | pinned h' => exact nomatch h.symm.trans h'
  | inherited _ _ agree => exact agree p hp
  | unfed _ unfed => exact absurd hp (unfed p)

/-- Resolution carries over along a map that keeps pins and producers, in both directions. -/
theorem map_iff (f : ι → κ) (hpinned : ∀ i, pinned' (f i) = pinned i)
    (hfeeds : ∀ p i, feeds p i → feeds' (f p) (f i))
    (hback : ∀ q i, feeds' q (f i) → ∃ p, f p = q ∧ feeds p i) :
    Resolves pinned' feeds' fallback (f i) d ↔ Resolves pinned feeds fallback i d := by
  constructor
  · generalize hj : f i = j
    intro h
    induction h generalizing i with
    | pinned h => exact .pinned ((hpinned i).symm.trans (hj ▸ h))
    | inherited h fed agree ih =>
      subst hj
      obtain ⟨q, hq⟩ := fed
      obtain ⟨p, _, hp⟩ := hback q i hq
      exact .inherited ((hpinned i).symm.trans h) ⟨p, hp⟩ fun p hp => ih (f p) (hfeeds p i hp) rfl
    | unfed h unfed =>
      subst hj
      exact .unfed ((hpinned i).symm.trans h) fun p hp => unfed (f p) (hfeeds p i hp)
  · intro h
    induction h with
    | pinned h => exact .pinned ((hpinned _).trans h)
    | @inherited i d h fed agree ih =>
      obtain ⟨p, hp⟩ := fed
      refine .inherited ((hpinned i).trans h) ⟨f p, hfeeds p i hp⟩ fun q hq => ?_
      obtain ⟨p, rfl, hp⟩ := hback q i hq
      exact ih p hp
    | @unfed i h unfed =>
      refine .unfed ((hpinned i).trans h) fun q hq => ?_
      obtain ⟨p, _, hp⟩ := hback q i hq
      exact unfed p hp

end Resolves

end Devices

namespace Netlist

def pinned? (net : Netlist) (i : Nat) : Option Device := net.cells[i]?.bind Cell.pinned

def Resolves (net : Netlist) (fallback : Device) : Nat → Device → Prop :=
  Devices.Resolves net.pinned? (fun p i => p ∈ net.producers i) fallback

end Netlist

namespace Devices

variable {net : Netlist} {fallback : Device}

/-- What has been found when the cells of `done` are visited. -/
structure Found (net : Netlist) (fallback : Device) (done : List Nat)
    (found : List (Option Device)) : Prop where
  length : found.length = net.cells.length
  resolves : ∀ i d, found[i]? = some (some d) → net.Resolves fallback i d
  pinned : ∀ i d, net.pinned? i = some d → found[i]? = some (some d)
  visited : ∀ i ∈ done, ∃ d, found[i]? = some (some d)

/-- An unpinned cell whose producers resolve to the listed devices, which are several. -/
structure IsConflict (net : Netlist) (fallback : Device) (c : Conflict) : Prop where
  lt : c.cell < net.cells.length
  unpinned : net.pinned? c.cell = none
  mem_devices : ∀ d, d ∈ c.devices ↔ ∃ p ∈ net.producers c.cell, net.Resolves fallback p d
  several : ∃ d ∈ c.devices, ∃ e ∈ c.devices, d ≠ e

theorem IsConflict.not_resolves {c : Conflict} (hc : IsConflict net fallback c) (d : Device) :
    ¬net.Resolves fallback c.cell d := by
  intro hd
  obtain ⟨a, ha, b, hb, hne⟩ := hc.several
  obtain ⟨p, hp, hpa⟩ := (hc.mem_devices a).mp ha
  obtain ⟨q, hq, hqb⟩ := (hc.mem_devices b).mp hb
  exact hne ((hpa.unique (hd.of_feeds hc.unpinned hp)).trans
    (hqb.unique (hd.of_feeds hc.unpinned hq)).symm)

theorem Found.new (net : Netlist) (fallback : Device) :
    Found net fallback [] (net.cells.map Cell.pinned) := by
  have hget (i : Nat) : (net.cells.map Cell.pinned)[i]? = net.cells[i]?.map Cell.pinned :=
    List.getElem?_map
  refine ⟨List.length_map _, fun i d h => .pinned ?_, fun i d h => ?_, fun i hi => nomatch hi⟩
  · rw [hget] at h
    obtain ⟨cell, hcell, hd⟩ := Option.map_eq_some_iff.mp h
    simp [Netlist.pinned?, hcell, hd]
  · obtain ⟨cell, hcell, hd⟩ := Option.bind_eq_some_iff.mp h
    rw [hget, hcell, ← hd]
    rfl

theorem Found.set {done : List Nat} {found : List (Option Device)}
    (hf : Found net fallback done found) {i : Nat} (hi : i < net.cells.length)
    (hunpinned : net.pinned? i = none) {d : Device} (hd : net.Resolves fallback i d) :
    Found net fallback (done ++ [i]) (found.set i (some d)) := by
  have hlt : i < found.length := hf.length ▸ hi
  have hget (j : Nat) : (found.set i (some d))[j]? =
      if i = j then some (some d) else found[j]? := by
    rw [List.getElem?_set, if_pos hlt]
  refine ⟨by rw [List.length_set, hf.length], fun j e hj => ?_, fun j e hj => ?_, fun j hj => ?_⟩
  · rw [hget] at hj
    split at hj
    · next heq => cases hj; exact heq ▸ hd
    · exact hf.resolves j e hj
  · rw [hget, if_neg]
    · exact hf.pinned j e hj
    · rintro rfl
      exact nomatch hunpinned.symm.trans hj
  · rw [hget]
    by_cases heq : i = j
    · exact ⟨d, if_pos heq⟩
    · rw [if_neg heq]
      rcases List.mem_append.mp hj with hj | hj
      · exact hf.visited j hj
      · exact absurd (List.mem_singleton.mp hj).symm heq

theorem Found.mono {done : List Nat} {found : List (Option Device)} {i : Nat}
    (hf : Found net fallback done found) (hi : ∃ d, found[i]? = some (some d)) :
    Found net fallback (done ++ [i]) found := by
  refine { hf with visited := fun j hj => ?_ }
  rcases List.mem_append.mp hj with hj | hj
  · exact hf.visited j hj
  · exact List.mem_singleton.mp hj ▸ hi

theorem exists_ne_of_distinct {devices several : List Device} (h : distinct devices = several)
    (hnil : several ≠ []) (hone : ∀ d, several ≠ [d]) :
    ∃ d ∈ several, ∃ e ∈ several, d ≠ e := by
  match several with
  | [] => exact absurd rfl hnil
  | [d] => exact absurd rfl (hone d)
  | d :: e :: rest =>
    have hnodup := nodup_distinct devices
    rw [h, List.nodup_cons] at hnodup
    exact ⟨d, by simp, e, by simp, fun heq => hnodup.1 (by simp [heq])⟩

/-- Visiting a cell after its producers finds its device or a conflict. -/
theorem visit_found {done : List Nat} {found : List (Option Device)}
    (hf : Found net fallback done found) {i : Nat} (hi : i < net.cells.length)
    (hproducers : ∀ p ∈ net.producers i, p ∈ done) :
    match visit net fallback found i with
    | .ok next => Found net fallback (done ++ [i]) next
    | .error c => IsConflict net fallback c := by
  have hpinned : (net.cells[i]?.bind Cell.pinned) = net.pinned? i := rfl
  unfold visit
  rw [hpinned]
  cases hpin : net.pinned? i with
  | some d => exact hf.mono ⟨d, hf.pinned i d hpin⟩
  | none =>
    have hmem (d : Device) : d ∈ distinct ((net.producers i).filterMap fun p => (found[p]?).join) ↔
        ∃ p ∈ net.producers i, found[p]? = some (some d) := by
      simp [mem_distinct, Option.join_eq_some_iff]
    simp only [Option.isSome_none, Bool.false_eq_true, if_false]
    split
    · next next heq =>
      split at heq
      · next hnil =>
        obtain rfl := Except.ok.inj heq
        refine hf.set hi hpin (.unfed hpin fun p hp => ?_)
        obtain ⟨d, hd⟩ := hf.visited p (hproducers p hp)
        exact absurd ((hmem d).mpr ⟨p, hp, hd⟩) (by simp [hnil])
      · next device hone =>
        obtain rfl := Except.ok.inj heq
        obtain ⟨p, hp, _⟩ := (hmem device).mp (by simp [hone])
        refine hf.set hi hpin (.inherited hpin ⟨p, hp⟩ fun q hq => ?_)
        obtain ⟨d, hd⟩ := hf.visited q (hproducers q hq)
        obtain rfl : d = device := by simpa [hone] using (hmem d).mpr ⟨q, hq, hd⟩
        exact hf.resolves q d hd
      · cases heq
    · next c heq =>
      split at heq
      · cases heq
      · cases heq
      · next hnil hone =>
        obtain rfl := Except.error.inj heq
        refine ⟨hi, hpin, fun d => ?_, exists_ne_of_distinct rfl hnil hone⟩
        rw [hmem]
        refine exists_congr fun p => and_congr_right fun hp => ?_
        obtain ⟨e, he⟩ := hf.visited p (hproducers p hp)
        constructor
        · exact hf.resolves p d
        · intro hd
          rw [he, (hf.resolves p e he).unique hd]

/-- Visiting cells in an order that puts producers first. -/
theorem foldlM_visit {done : List Nat} {found : List (Option Device)}
    (hf : Found net fallback done found) (rest : List Nat)
    (hlt : ∀ i ∈ rest, i < net.cells.length)
    (hproducers : ∀ before i after, rest = before ++ i :: after →
      ∀ p ∈ net.producers i, p ∈ done ++ before) :
    match rest.foldlM (visit net fallback) found with
    | .ok last => Found net fallback (done ++ rest) last
    | .error c => IsConflict net fallback c := by
  induction rest generalizing done found with
  | nil =>
    rw [List.append_nil]
    exact hf
  | cons i rest ih =>
    have hvisit := visit_found hf (hlt i (by simp)) (by simpa using hproducers [] i rest rfl)
    rw [List.foldlM_cons]
    cases hv : visit net fallback found i with
    | error c =>
      rw [hv] at hvisit
      exact hvisit
    | ok next =>
      rw [hv] at hvisit
      have hrest := ih hvisit (fun j hj => hlt j (by simp [hj])) fun before j after hsplit => by
        simpa using hproducers (i :: before) j after (by rw [hsplit]; rfl)
      rw [List.append_assoc] at hrest
      exact hrest

theorem visit_error {found : List (Option Device)} {i : Nat} {c : Conflict}
    (h : visit net fallback found i = .error c) :
    c.cell = i ∧ c.devices = distinct ((net.producers i).filterMap fun p => (found[p]?).join) := by
  unfold visit at h
  split at h
  · cases h
  · split at h
    · cases h
    · cases h
    · obtain rfl := Except.error.inj h
      exact ⟨rfl, rfl⟩

/-- Visiting stops at the first conflict: the devices of all cells before it have been found. -/
theorem foldlM_visit_error {done : List Nat} {found : List (Option Device)}
    (hf : Found net fallback done found) {rest : List Nat}
    (hlt : ∀ i ∈ rest, i < net.cells.length)
    (hproducers : ∀ before i after, rest = before ++ i :: after →
      ∀ p ∈ net.producers i, p ∈ done ++ before)
    {c : Conflict} (h : rest.foldlM (visit net fallback) found = .error c) :
    ∃ before after last, rest = before ++ c.cell :: after ∧
      Found net fallback (done ++ before) last ∧ visit net fallback last c.cell = .error c := by
  induction rest generalizing done found with
  | nil => cases h
  | cons i rest ih =>
    have hvisit := visit_found hf (hlt i (by simp)) (by simpa using hproducers [] i rest rfl)
    rw [List.foldlM_cons] at h
    cases hv : visit net fallback found i with
    | error e =>
      rw [hv] at h
      obtain rfl := Except.error.inj h
      obtain ⟨rfl, _⟩ := visit_error hv
      exact ⟨[], rest, found, rfl, by rwa [List.append_nil], hv⟩
    | ok next =>
      rw [hv] at h hvisit
      obtain ⟨before, after, last, rfl, hlast, herror⟩ :=
        ih hvisit (fun j hj => hlt j (by simp [hj])) (fun before j after hsplit => by
          simpa using hproducers (i :: before) j after (by rw [hsplit]; rfl)) h
      exact ⟨i :: before, after, last, rfl, by simpa using hlast, herror⟩

/-- A conflict is the first: every cell before it in the order resolves, its producers among them.
Its devices are listed in ascending order. -/
theorem infer_error (order : List Nat) (hperm : order.Perm (List.range net.cells.length))
    (hproducers : ∀ before i after, order = before ++ i :: after →
      ∀ p ∈ net.producers i, p ∈ before) {c : Conflict} (h : infer net fallback order = .error c) :
    (∃ before after, order = before ++ c.cell :: after ∧
      (∀ i ∈ before, ∃ d, net.Resolves fallback i d) ∧ ∀ p ∈ net.producers c.cell, p ∈ before) ∧
    c.devices.Pairwise fun d e => d.index < e.index := by
  unfold infer at h
  cases hv : order.foldlM (visit net fallback) (net.cells.map Cell.pinned) with
  | ok found =>
    rw [hv] at h
    cases h
  | error e =>
    rw [hv] at h
    obtain rfl := Except.error.inj h
    obtain ⟨before, after, last, hsplit, hlast, herror⟩ :=
      foldlM_visit_error (Found.new net fallback)
        (fun i hi => List.mem_range.mp (hperm.mem_iff.mp hi)) (by simpa using hproducers) hv
    refine ⟨⟨before, after, hsplit, fun i hi => ?_, hproducers before _ after hsplit⟩, ?_⟩
    · obtain ⟨d, hd⟩ := hlast.visited i (by simpa using hi)
      exact ⟨d, hlast.resolves i d hd⟩
    · rw [(visit_error herror).2]
      exact distinct_sorted _

/-- Inference over such an order of all cells finds the device that each resolves to, or a
conflict. -/
theorem infer_spec (net : Netlist) (fallback : Device) (order : List Nat)
    (hperm : order.Perm (List.range net.cells.length))
    (hproducers : ∀ before i after, order = before ++ i :: after →
      ∀ p ∈ net.producers i, p ∈ before) :
    match infer net fallback order with
    | .ok devices => devices.length = net.cells.length ∧
        ∀ i < net.cells.length, net.Resolves fallback i (devices.getD i .primary)
    | .error c => IsConflict net fallback c := by
  have hfold := foldlM_visit (Found.new net fallback) order
    (fun i hi => List.mem_range.mp (hperm.mem_iff.mp hi)) (by simpa using hproducers)
  unfold infer
  cases hv : order.foldlM (visit net fallback) (net.cells.map Cell.pinned) with
  | error c =>
    rw [hv] at hfold
    exact hfold
  | ok found =>
    rw [hv] at hfold
    refine ⟨(List.length_map _).trans hfold.length, fun i hi => ?_⟩
    obtain ⟨d, hd⟩ := hfold.visited i (by simpa using hperm.mem_iff.mpr (List.mem_range.mpr hi))
    have hget : (found.map fun d => d.getD fallback).getD i .primary = d := by
      simp [List.getD, hd]
    change net.Resolves fallback i ((found.map fun d => d.getD fallback).getD i .primary)
    rw [hget]
    exact hfold.resolves i d hd

theorem infer_eq_ok (order : List Nat) (hperm : order.Perm (List.range net.cells.length))
    (hproducers : ∀ before i after, order = before ++ i :: after →
      ∀ p ∈ net.producers i, p ∈ before) {devices : List Device}
    (hlength : devices.length = net.cells.length)
    (hres : ∀ i < net.cells.length, net.Resolves fallback i (devices.getD i .primary)) :
    infer net fallback order = .ok devices := by
  have hspec := infer_spec net fallback order hperm hproducers
  cases hv : infer net fallback order with
  | error c =>
    rw [hv] at hspec
    exact absurd (hres c.cell hspec.lt) (hspec.not_resolves _)
  | ok found =>
    rw [hv] at hspec
    obtain ⟨hfound, hresolves⟩ := hspec
    refine congrArg Except.ok (List.ext_getElem (hfound.trans hlength.symm) fun i hi hi' => ?_)
    have hlt : i < net.cells.length := hlength ▸ hi'
    have hsame := (hresolves i hlt).unique (hres i hlt)
    simpa only [List.getD_eq_getElem?_getD, List.getElem?_eq_getElem hi,
      List.getElem?_eq_getElem hi', Option.getD_some] using hsame

/-- Inference fails exactly where some unpinned cell has producers that resolve to different
devices. -/
theorem infer_ok_iff (order : List Nat) (hperm : order.Perm (List.range net.cells.length))
    (hsources : ∀ i, ∀ p ∈ net.producers i, i < net.cells.length)
    (hproducers : ∀ before i after, order = before ++ i :: after →
      ∀ p ∈ net.producers i, p ∈ before) :
    (∃ devices, infer net fallback order = .ok devices) ↔
      ¬∃ i, net.pinned? i = none ∧ ∃ p ∈ net.producers i, ∃ q ∈ net.producers i, ∃ d e,
        net.Resolves fallback p d ∧ net.Resolves fallback q e ∧ d ≠ e := by
  have hspec := infer_spec net fallback order hperm hproducers
  cases hv : infer net fallback order with
  | ok devices =>
    rw [hv] at hspec
    refine iff_of_true ⟨devices, rfl⟩ ?_
    rintro ⟨i, hpin, p, hp, q, hq, d, e, hd, he, hne⟩
    have hi := hspec.2 i (hsources i p hp)
    exact hne ((hd.unique (hi.of_feeds hpin hp)).trans (he.unique (hi.of_feeds hpin hq)).symm)
  | error c =>
    rw [hv] at hspec
    refine iff_of_false (fun ⟨_, h⟩ => nomatch h) (not_not_intro ?_)
    obtain ⟨d, hd, e, he, hne⟩ := hspec.several
    obtain ⟨p, hp, hpd⟩ := (hspec.mem_devices d).mp hd
    obtain ⟨q, hq, hqe⟩ := (hspec.mem_devices e).mp he
    exact ⟨c.cell, hspec.unpinned, p, hp, q, hq, d, e, hpd, hqe, hne⟩

end Devices

end FrameGraph
