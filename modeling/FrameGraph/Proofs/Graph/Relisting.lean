import FrameGraph.Proofs.Graph.Devices
import FrameGraph.Proofs.Plan.Renumbering

/-! Connections made in another order. The list of connections gives the edges of the netlist
their order, and nothing else. So a graph whose connections were made in another order
fails to compile with the same error, or compiles to the same plan up to the numbers of
transfers; and to the very same plan where nothing crosses between devices. -/

namespace FrameGraph

namespace Graph

variable {β : Type} {g : Graph β} {p : Plan} {config : CompileConfig}

theorem IsRouted.transfers_eq_nil (hr : g.IsRouted p) (hg : g.Integral)
    (hwithin : ∀ c ∈ g.connections, (∃ output input, c.carries? = some (.data output input)) →
      p.deviceOf? c.source = p.deviceOf? c.sink) : p.transfers = [] := by
  by_contra hne
  obtain ⟨id, input, hread⟩ := (hr.used 0).mp (List.length_pos_iff.mpr hne)
  obtain ⟨c, hc, rfl, hport⟩ : ∃ c ∈ g.connections, c.sink = id ∧ c.sinkPort = .data input := by
    by_contra hnone
    have hunfed := hr.unfed id input fun c hc hsink => hnone ⟨c, hc, hsink⟩
    exact nomatch hread.symm.trans hunfed
  obtain ⟨output, hcarries⟩ := hg.carries_of_sinkPort hc hport
  have hdirect := (hr.direct c hc output input hcarries).mpr (hwithin c hc ⟨_, _, hcarries⟩)
  exact nomatch hread.symm.trans hdirect

/-- A transfer is told from the others by its source, output and target. -/
theorem IsRouted.transfer_unique (hr : g.IsRouted p) {t u : Nat} {a b : Transfer}
    (ha : p.transfers[t]? = some a) (hb : p.transfers[u]? = some b)
    (hkey : a.source = b.source ∧ a.output = b.output ∧ a.target = b.target) : t = u := by
  obtain ⟨ht, rfl⟩ := List.getElem?_eq_some_iff.mp ha
  obtain ⟨hu, rfl⟩ := List.getElem?_eq_some_iff.mp hb
  have hshared := List.pairwise_iff_getElem.mp hr.shared
  obtain hlt | heq | hgt := Nat.lt_trichotomy t u
  · exact absurd hkey (hshared t u ht hu hlt)
  · exact heq
  · exact absurd ⟨hkey.1.symm, hkey.2.1.symm, hkey.2.2.symm⟩ (hshared u t hu ht hgt)

variable {connections : List Connection}

theorem Integral.perm (hg : g.Integral) (h : connections.Perm g.connections) :
    ({ g with connections } : Graph β).Integral := by
  refine hg.of_connections g.isOutdated (fun c hc => hg.fits c (h.mem_iff.mp hc))
    (h.nodup_iff.mpr hg.connections_nodup) ?_
  refine ((h.filter _).pairwise_iff fun hne heq => hne ?_).mpr hg.single_producer
  exact ⟨heq.1.symm, heq.2.symm⟩

theorem wiring_relisted (h : connections.Perm g.connections) :
    g.wiring.Relisted ({ g with connections } : Graph β).wiring :=
  ⟨rfl, h.filterMap _, h.filterMap _⟩

/-- Whatever the order in which the connections of a reachable graph were made, it fails to compile
with the same error, or compiles to plans that differ in the numbers of transfers alone, which are
told apart by source, output and target; and if no data connection leads to another device, the
plans are equal. -/
theorem Reachable.planFor_perm [Behavior β] (hg : Reachable g) (config : CompileConfig)
    (h : connections.Perm g.connections) :
    (∃ e, g.planFor config = .error e ∧
      ({ g with connections } : Graph β).planFor config = .error e) ∨
    ∃ p q, g.planFor config = .ok p ∧ ({ g with connections } : Graph β).planFor config = .ok q ∧
      (∃ σ, p.Renumbered σ q ∧
        ∀ t u a b, p.transfers[t]? = some a → q.transfers[u]? = some b →
          (u = σ t ↔ a.source = b.source ∧ a.output = b.output ∧ a.target = b.target)) ∧
      ((∀ c ∈ g.connections, (∃ output input, c.carries? = some (.data output input)) →
        p.deviceOf? c.source = p.deviceOf? c.sink) → q = p) := by
  have hi := hg.integral
  have hi' := hi.perm h
  rcases (wiring_relisted h).schedule hi.wiring_sound config.defaultDevice with
    ⟨e, he, he'⟩ | ⟨s, s', hs, hs', hrelisted⟩
  · exact .inl ⟨e, hi.planFor_eq_error.mpr he, hi'.planFor_eq_error.mpr he'⟩
  obtain ⟨hnet, hv⟩ := Netlist.schedule_valid hi.wiring_sound hs
  obtain ⟨hnet', hv'⟩ := Netlist.schedule_valid hi'.wiring_sound hs'
  have hrouted := hi.isRouted config hnet hv
  have hrouted' := hi'.isRouted config hnet' hv'
  obtain ⟨σ, hσ⟩ := hrelisted.exists_renumbered
  have hsame := hσ.plan config
  have hplan := hi.planFor_eq_ok.mpr ⟨s, hs, rfl⟩
  have hplan' := hi'.planFor_eq_ok.mpr ⟨s', hs', rfl⟩
  refine .inr ⟨_, _, hplan, hplan', ⟨σ, hsame, fun t u a b ha hb => ?_⟩,
    fun hwithin => hrelisted.plan_eq ?_ config⟩
  · have hmoved := (hsame.transfers t).trans ha
    refine ⟨?_, fun hkey => (hrouted'.transfer_unique hmoved hb hkey).symm⟩
    rintro rfl
    obtain rfl := Option.some.inj (hmoved.symm.trans hb)
    exact ⟨rfl, rfl, rfl⟩
  · have hnil : s.layout.transfers = [] :=
      List.map_eq_nil_iff.mp (hrouted.transfers_eq_nil hi hwithin)
    have hperm := hrelisted.transfers_perm
    rw [hnil] at hperm ⊢
    exact hperm.eq_nil

/-- The fan with its connections made in the opposite order has its transfers in the opposite
order. -/
theorem fan_perm : ∃ p q σ, fan.planFor {} = .ok p ∧
    ({ fan with connections := fan.connections.reverse } : Graph Script).planFor {} = .ok q ∧
    p.transfers.map Transfer.target = [⟨2⟩, ⟨1⟩] ∧ q.transfers.map Transfer.target = [⟨1⟩, ⟨2⟩] ∧
    p.Renumbered σ q := by
  have htargets : (fan.planFor {}).map (fun p => p.transfers.map Transfer.target) =
      .ok [⟨2⟩, ⟨1⟩] := by decide +kernel
  have htargets' : (({ fan with connections := fan.connections.reverse } : Graph Script).planFor
      {}).map (fun p => p.transfers.map Transfer.target) = .ok [⟨1⟩, ⟨2⟩] := by decide +kernel
  obtain ⟨p, hp, htargets⟩ := exists_of_map_eq_ok htargets
  obtain ⟨q, hq, htargets'⟩ := exists_of_map_eq_ok htargets'
  rcases fan_reachable.planFor_perm {} fan.connections.reverse_perm with
    ⟨e, he, _⟩ | ⟨p', q', hp', hq', ⟨σ, hsame, _⟩, _⟩
  · exact nomatch hp.symm.trans he
  · obtain rfl := Except.ok.inj (hp.symm.trans hp')
    obtain rfl := Except.ok.inj (hq.symm.trans hq')
    exact ⟨p, q, σ, hp, hq, htargets, htargets', hsame⟩

end Graph

end FrameGraph
