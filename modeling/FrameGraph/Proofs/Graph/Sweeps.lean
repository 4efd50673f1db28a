import FrameGraph.Proofs.Graph.Shape
import Mathlib.Data.Finset.Card
import Mathlib.Data.List.GetD
import Mathlib.Data.List.Perm.Subperm
import Mathlib.Logic.Function.Iterate
import Mathlib.Order.Monotone.Basic

/-! Sweeps of the loop connections. Deliveries only append to lists, and where a loop is after a
sweep depends only on where that loop was before. So the nodes that hold a loop become more with
every sweep until they stay, which they do after as many sweeps as there are slots, and from then
on nothing changes. -/

namespace FrameGraph

variable {β : Type}

def Node.loop? (n : Node β) : Option LoopId := (n.params.get? loopParam).bind Value.asLoop

namespace Graph

variable {g h : Graph β} {s t u : Subscribed} {l : LoopId} {c : Connection} {id : NodeId} {i : Nat}

/-- The slots whose nodes are subscribed to a loop. -/
def Subscribed.holders (s : Subscribed) (l : LoopId) : Finset Nat :=
  (Finset.range s.length).filter fun i => l ∈ s.getD i []

structure Subscribed.Grows (s t : Subscribed) : Prop where
  length : t.length = s.length
  appended : ∀ i, s.getD i [] <+: t.getD i []

/-- Sweeping until a sweep changes nothing comes to an end, with this result. -/
inductive SweepsTo (g : Graph β) : Subscribed → Subscribed → Prop
  | still {s : Subscribed} (unchanged : g.sweep s = s) : SweepsTo g s s
  | again {s t : Subscribed} (changed : g.sweep s ≠ s) (rest : SweepsTo g (g.sweep s) t) :
    SweepsTo g s t

namespace Subscribed

theorem mem_holders : i ∈ s.holders l ↔ l ∈ s.getD i [] := by
  rw [holders, Finset.mem_filter, Finset.mem_range, and_iff_right_iff_imp]
  intro hl
  by_contra hge
  rw [List.getD_eq_default _ _ (Nat.le_of_not_lt hge)] at hl
  cases hl

theorem card_holders_le (s : Subscribed) (l : LoopId) : (s.holders l).card ≤ s.length :=
  (Finset.card_filter_le _ _).trans_eq (Finset.card_range _)

namespace Grows

theorem refl (s : Subscribed) : Grows s s := ⟨rfl, fun _ => List.prefix_refl _⟩

theorem trans (hst : Grows s t) (htu : Grows t u) : Grows s u :=
  ⟨htu.length.trans hst.length, fun i => (hst.appended i).trans (htu.appended i)⟩

theorem eq_of_length_le (hst : Grows s t)
    (hle : ∀ i, (t.getD i []).length ≤ (s.getD i []).length) : t = s := by
  refine List.ext_getElem hst.length fun i hi hj => ?_
  have heq := (hst.appended i).eq_of_length_le (hle i)
  rwa [List.getD_eq_getElem _ _ hi, List.getD_eq_getElem _ _ hj, eq_comm] at heq

theorem antisymm (hst : Grows s t) (hts : Grows t s) : t = s :=
  hst.eq_of_length_le fun i => (hts.appended i).length_le

theorem holders_subset (hst : Grows s t) (l : LoopId) : s.holders l ⊆ t.holders l :=
  fun i hi => mem_holders.mpr ((hst.appended i).subset (mem_holders.mp hi))

theorem eq_of_holders (hst : Grows s t) (hnodup : ∀ i, (t.getD i []).Nodup)
    (hsame : ∀ l, t.holders l = s.holders l) : t = s :=
  hst.eq_of_length_le fun i => ((hnodup i).subperm fun l hl =>
    mem_holders.mp (hsame l ▸ mem_holders.mpr hl)).length_le

end Grows

end Subscribed

open Subscribed

/-! ### One delivery -/

/-- A bridge publishes its loop, any other node what it is subscribed to. -/
theorem mem_published : l ∈ g.published s id ↔ ∃ n, g.node? id = some n ∧
    (n.type = .bridge ∧ n.loop? = some l ∨ n.type ≠ .bridge ∧ l ∈ s.getD id.index []) := by
  unfold published
  cases g.node? id with
  | none => simp
  | some n => by_cases hbridge : n.type = .bridge <;> simp [hbridge, Node.loop?]

theorem nodup_published (hnodup : ∀ i, (s.getD i []).Nodup) (id : NodeId) :
    (g.published s id).Nodup := by
  unfold published
  split
  · exact List.nodup_nil
  · next n _ =>
    split
    · cases (n.params.get? loopParam).bind Value.asLoop with
      | none => exact List.nodup_nil
      | some l => exact List.nodup_singleton l
    · exact hnodup _

theorem getD_deliver (hlength : s.length = g.slots.length) (c : Connection) (i : Nat) :
    (g.deliver s c).getD i [] = s.getD i [] ++
      if i = c.sink.index ∧ (g.node? c.sink).isSome then
        (g.published s c.source).filter fun l => !(s.getD i []).contains l
      else [] := by
  unfold deliver
  by_cases hlive : (g.node? c.sink).isSome
  · have hlt : c.sink.index < s.length := by
      obtain ⟨n, hn⟩ := Option.isSome_iff_exists.mp hlive
      obtain ⟨hlt, _⟩ := List.getElem?_eq_some_iff.mp (Option.join_eq_some_iff.mp hn)
      exact hlength ▸ hlt
    by_cases hi : i = c.sink.index
    · subst hi
      simp [hlive, List.getD_eq_getElem?_getD, hlt]
    · simp [hlive, hi, List.getD_eq_getElem?_getD, Ne.symm hi]
  · simp [hlive]

/-- A delivery adds what the source publishes to what the sink holds. -/
theorem mem_deliver (hlength : s.length = g.slots.length) : l ∈ (g.deliver s c).getD i [] ↔
    l ∈ s.getD i [] ∨
      i = c.sink.index ∧ (g.node? c.sink).isSome ∧ l ∈ g.published s c.source := by
  rw [getD_deliver hlength, List.mem_append]
  split
  · next harrives => simp [harrives.1, harrives.2, List.mem_filter]; tauto
  · next hmisses => simp; tauto

theorem grows_deliver (hlength : s.length = g.slots.length) (c : Connection) :
    Grows s (g.deliver s c) :=
  ⟨length_deliver g s c, fun i => getD_deliver hlength c i ▸ List.prefix_append _ _⟩

theorem nodup_deliver (hlength : s.length = g.slots.length) (hnodup : ∀ i, (s.getD i []).Nodup)
    (c : Connection) (i : Nat) : ((g.deliver s c).getD i []).Nodup := by
  rw [getD_deliver hlength]
  refine (hnodup i).append ?_ fun l hl hnew => ?_
  · split
    · exact (nodup_published hnodup c.source).filter _
    · exact List.nodup_nil
  · split at hnew
    · have hfresh := (List.mem_filter.mp hnew).2
      rw [List.contains_iff_mem.mpr hl] at hfresh
      cases hfresh
    · cases hnew

theorem holders_deliver (hs : s.length = g.slots.length) (ht : t.length = g.slots.length)
    (hsame : t.holders l = s.holders l) (c : Connection) :
    (g.deliver t c).holders l = (g.deliver s c).holders l := by
  have hmem (i : Nat) : l ∈ t.getD i [] ↔ l ∈ s.getD i [] := by
    rw [← mem_holders, hsame, mem_holders]
  ext i
  simp only [mem_holders, mem_deliver hs, mem_deliver ht, mem_published, hmem]

/-! ### One sweep -/

theorem sweep_invariant {P : Subscribed → Prop}
    (hdeliver : ∀ s : Subscribed, s.length = g.slots.length → ∀ c ∈ g.connections,
      c.carriesLoops = true → P s → P (g.deliver s c))
    (hlength : s.length = g.slots.length) (hs : P s) : P (g.sweep s) := by
  have hloops : ∀ c ∈ g.connections.filter Connection.carriesLoops,
      c ∈ g.connections ∧ c.carriesLoops = true := fun _ hc => List.mem_filter.mp hc
  unfold sweep
  generalize g.connections.filter Connection.carriesLoops = loops at hloops ⊢
  induction loops generalizing s with
  | nil => exact hs
  | cons c rest ih =>
    obtain ⟨hc, hcarries⟩ := hloops c List.mem_cons_self
    exact ih (by rw [length_deliver, hlength]) (hdeliver s hlength c hc hcarries hs)
      fun d hd => hloops d (List.mem_cons_of_mem c hd)

theorem grows_sweep (hlength : s.length = g.slots.length) : Grows s (g.sweep s) :=
  sweep_invariant (P := Grows s) (fun _ ht c _ _ hgrows => hgrows.trans (grows_deliver ht c))
    hlength (.refl s)

/-- Where a loop is after a sweep depends only on where it was before. -/
theorem holders_sweep (hs : s.length = g.slots.length) (ht : t.length = g.slots.length)
    (hsame : t.holders l = s.holders l) : (g.sweep t).holders l = (g.sweep s).holders l := by
  unfold sweep
  induction g.connections.filter Connection.carriesLoops generalizing s t with
  | nil => exact hsame
  | cons c rest ih =>
    exact ih (by rw [length_deliver, hs]) (by rw [length_deliver, ht])
      (holders_deliver hs ht hsame c)

/-- Where a sweep changes nothing, neither does any of its deliveries. -/
theorem deliver_eq_of_sweep_eq (hlength : s.length = g.slots.length) (hsweep : g.sweep s = s)
    (hc : c ∈ g.connections) (hcarries : c.carriesLoops = true) : g.deliver s c = s := by
  have hgrows (cs : List Connection) {s : Subscribed} (hlength : s.length = g.slots.length) :
      Grows s (cs.foldl g.deliver s) := by
    induction cs generalizing s with
    | nil => exact .refl s
    | cons d rest ih => exact (grows_deliver hlength d).trans (ih (by rw [length_deliver, hlength]))
  obtain ⟨before, after, hsplit⟩ := List.append_of_mem (List.mem_filter.mpr ⟨hc, hcarries⟩)
  rw [sweep, hsplit, List.foldl_append, List.foldl_cons] at hsweep
  have hbefore := hgrows before hlength
  have hat := hbefore.length.trans hlength
  have hafter := hgrows after ((length_deliver g _ c).trans hat)
  rw [hsweep] at hafter
  -- what holds before the delivery lies between equals
  have hsame := hbefore.antisymm ((grows_deliver hat c).trans hafter)
  rw [hsame] at hafter
  exact (grows_deliver hlength c).antisymm hafter

/-! ### Until nothing changes -/

theorem sweeps_eq_iterate (n : Nat) (s : Subscribed) : g.sweeps n s = g.sweep^[n] s := by
  induction n generalizing s with
  | zero => rfl
  | succ n ih =>
    simp only [sweeps]
    split
    · next hsame => exact (Function.iterate_fixed hsame _).symm
    · exact ih _

theorem length_iterate_sweep (hlength : s.length = g.slots.length) (n : Nat) :
    (g.sweep^[n] s).length = g.slots.length := by
  rw [← sweeps_eq_iterate, length_sweeps, hlength]

theorem iterate_sweep_invariant {P : Subscribed → Prop}
    (hdeliver : ∀ s : Subscribed, s.length = g.slots.length → ∀ c ∈ g.connections,
      c.carriesLoops = true → P s → P (g.deliver s c))
    (hlength : s.length = g.slots.length) (hs : P s) (n : Nat) : P (g.sweep^[n] s) := by
  induction n with
  | zero => exact hs
  | succ n ih =>
    rw [Function.iterate_succ_apply']
    exact sweep_invariant hdeliver (length_iterate_sweep hlength n) ih

theorem nodup_iterate_sweep (hlength : s.length = g.slots.length)
    (hnodup : ∀ i, (s.getD i []).Nodup) (n : Nat) : ∀ i, ((g.sweep^[n] s).getD i []).Nodup :=
  iterate_sweep_invariant (P := fun s => ∀ i, (s.getD i []).Nodup)
    (fun _ ht c _ _ hnodup => nodup_deliver ht hnodup c) hlength hnodup n

/-- A loop is where it stays after as many sweeps as there are slots. -/
theorem holders_iterate_sweep (hlength : s.length = g.slots.length) (l : LoopId) :
    (g.sweep^[g.slots.length + 1] s).holders l = (g.sweep^[g.slots.length] s).holders l := by
  have hstep (n : Nat) : Grows (g.sweep^[n] s) (g.sweep^[n + 1] s) := by
    rw [Function.iterate_succ_apply']
    exact grows_sweep (length_iterate_sweep hlength n)
  have hsubset (n : Nat) := (hstep n).holders_subset l
  have hsame {n : Nat}
      (h : ((g.sweep^[n] s).holders l).card = ((g.sweep^[n + 1] s).holders l).card) :
      (g.sweep^[n + 1] s).holders l = (g.sweep^[n] s).holders l :=
    (Finset.eq_of_subset_of_card_le (hsubset n) h.ge).symm
  refine hsame (Nat.stabilises_of_monotone (f := fun n => ((g.sweep^[n] s).holders l).card)
    (monotone_nat_of_le_succ fun n => Finset.card_le_card (hsubset n)) (fun n => ?_)
    (fun n hn => ?_) (Nat.le_succ _)).symm
  · exact (card_holders_le _ l).trans_eq (length_iterate_sweep hlength n)
  · have hnext := holders_sweep (length_iterate_sweep hlength n)
      (length_iterate_sweep hlength (n + 1)) (hsame hn)
    rw [← Function.iterate_succ_apply' g.sweep, ← Function.iterate_succ_apply' g.sweep] at hnext
    exact (congrArg Finset.card hnext).symm

theorem iterate_sweep_eq (hlength : s.length = g.slots.length)
    (hnodup : ∀ i, (s.getD i []).Nodup) :
    g.sweep^[g.slots.length + 1] s = g.sweep^[g.slots.length] s := by
  refine Grows.eq_of_holders ?_ (nodup_iterate_sweep hlength hnodup _)
    (holders_iterate_sweep hlength)
  rw [Function.iterate_succ_apply']
  exact grows_sweep (length_iterate_sweep hlength _)

theorem sweepsTo_iterate {n : Nat} (hfixed : g.sweep^[n + 1] s = g.sweep^[n] s) :
    SweepsTo g s (g.sweep^[n] s) := by
  induction n generalizing s with
  | zero => exact .still hfixed
  | succ n ih =>
    by_cases hsame : g.sweep s = s
    · rw [Function.iterate_fixed hsame]
      exact .still hsame
    · exact .again hsame (ih hfixed)

/-! ### From empty lists -/

theorem getD_replicate_nil (n i : Nat) : (List.replicate n ([] : List LoopId)).getD i [] = [] := by
  rcases Nat.lt_or_ge i n with hlt | hge
  · exact List.getD_replicate [] hlt
  · exact List.getD_eq_default _ _ (List.length_replicate.trans_le hge)

theorem nodup_replicate_nil (n i : Nat) :
    ((List.replicate n ([] : List LoopId)).getD i []).Nodup := by
  rw [getD_replicate_nil]
  exact List.nodup_nil

theorem subscribed_eq_iterate (g : Graph β) :
    g.subscribed = g.sweep^[g.slots.length] (List.replicate g.slots.length []) := by
  rw [subscribed, sweeps_eq_iterate]
  exact iterate_sweep_eq List.length_replicate (nodup_replicate_nil _)

/-- Sweeping from empty lists ends, and the subscriptions are what it ends with. -/
theorem sweepsTo_subscribed (g : Graph β) :
    SweepsTo g (List.replicate g.slots.length []) g.subscribed := by
  rw [subscribed_eq_iterate]
  exact sweepsTo_iterate (iterate_sweep_eq List.length_replicate (nodup_replicate_nil _))

theorem sweep_subscribed (g : Graph β) : g.sweep g.subscribed = g.subscribed := by
  rw [subscribed_eq_iterate, ← Function.iterate_succ_apply' g.sweep]
  exact iterate_sweep_eq List.length_replicate (nodup_replicate_nil _)

theorem nodup_subscribed (g : Graph β) (i : Nat) : (g.subscribed.getD i []).Nodup := by
  rw [subscribed_eq_iterate]
  exact nodup_iterate_sweep List.length_replicate (nodup_replicate_nil _) _ i

theorem node?_propagate (g : Graph β) (id : NodeId) : g.propagate.node? id =
    (g.node? id).map fun n => { n with subscriptions := g.subscribed.getD id.index [] } := by
  rw [node?, node?, propagate, List.getElem?_map, List.zip_eq_zipWith, List.getElem?_zipWith]
  cases hslot : g.slots[id.index]? with
  | none => rfl
  | some slot =>
    obtain ⟨hlt, _⟩ := List.getElem?_eq_some_iff.mp hslot
    have hlt : id.index < g.subscribed.length := by rwa [length_subscribed]
    rw [List.getElem?_eq_getElem hlt, List.getD_eq_getElem _ _ hlt]
    rfl

/-- What holds of the loop of each bridge at the end of its connections, and is passed on by nodes
that are no bridges, holds of all subscriptions. -/
theorem subscribed_induct {motive : LoopId → NodeId → Prop}
    (bridge : ∀ c ∈ g.connections, c.carriesLoops = true → ∀ n, g.node? c.source = some n →
      n.type = .bridge → ∀ l, n.loop? = some l → motive l c.sink)
    (onward : ∀ c ∈ g.connections, c.carriesLoops = true → ∀ n, g.node? c.source = some n →
      n.type ≠ .bridge → ∀ l, motive l c.source → motive l c.sink)
    (hl : l ∈ g.subscribed.getD id.index []) : motive l id := by
  suffices hall : ∀ l id, l ∈ g.subscribed.getD id.index [] → motive l id from hall l id hl
  rw [subscribed_eq_iterate]
  refine iterate_sweep_invariant
    (P := fun s => ∀ l (id : NodeId), l ∈ s.getD id.index [] → motive l id)
    (fun s hlength c hc hcarries ih l id hl => ?_) List.length_replicate
    (fun l id hl => nomatch getD_replicate_nil _ id.index ▸ hl) _
  rcases (mem_deliver hlength).mp hl with hold | ⟨hid, _, harrives⟩
  · exact ih l id hold
  · obtain rfl : id = c.sink := congrArg NodeId.mk hid
    obtain ⟨n, hn, ⟨htype, hloop⟩ | ⟨htype, hmem⟩⟩ := mem_published.mp harrives
    · exact bridge c hc hcarries n hn htype l hloop
    · exact onward c hc hcarries n hn htype l (ih l c.source hmem)

/-- Whatever a node publishes over a loop connection, the node at its end is subscribed to. -/
theorem mem_subscribed_of_published (hc : c ∈ g.connections) (hcarries : c.carriesLoops = true)
    (hlive : (g.node? c.sink).isSome) (hl : l ∈ g.published g.subscribed c.source) :
    l ∈ g.subscribed.getD c.sink.index [] := by
  have hlength := length_subscribed g
  rw [← deliver_eq_of_sweep_eq hlength g.sweep_subscribed hc hcarries, mem_deliver hlength]
  exact .inr ⟨rfl, hlive, hl⟩

/-- Subscriptions depend only on the connections and on which nodes are bridges of which loops. -/
theorem subscribed_congr (hlength : h.slots.length = g.slots.length)
    (hnodes : ∀ id, (h.node? id).map (fun n => (n.type, n.loop?)) =
      (g.node? id).map fun n => (n.type, n.loop?))
    (hconnections : h.connections = g.connections) : h.subscribed = g.subscribed := by
  have hlive (id : NodeId) : (h.node? id).isSome = (g.node? id).isSome := by
    simpa using congrArg Option.isSome (hnodes id)
  have hseen (k : Graph β) (s : Subscribed) (id : NodeId) : k.published s id =
      (((k.node? id).map fun n => (n.type, n.loop?)).map fun seen =>
        if seen.1 = .bridge then seen.2.toList else s.getD id.index []).getD [] := by
    rw [published]
    cases k.node? id <;> rfl
  have hdeliver : h.deliver = g.deliver := by
    funext s c
    rw [deliver, deliver, hlive, hseen, hseen, hnodes]
  have hsweep : h.sweep = g.sweep := by
    funext s
    rw [sweep, sweep, hdeliver, hconnections]
  rw [subscribed_eq_iterate, subscribed_eq_iterate, hsweep, hlength]

end Graph

end FrameGraph
