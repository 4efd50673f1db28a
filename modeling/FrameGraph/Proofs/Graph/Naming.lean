import FrameGraph.Proofs.Graph.Integrity
import FrameGraph.Proofs.Graph.Sweeps

/-! The bridges of a loop. Only bridges publish loops, so a loop that no bridge names reaches no
node, and running does not make bridges of other nodes. -/

namespace FrameGraph

variable {β : Type}

/-- A node publishes the loop in its parameter over connections or shows it in its output. -/
def Node.IsBridge (n : Node β) : Prop := n.type = .bridge ∨ n.work = some .bridge

/-- Only the work of a bridge becomes that of a bridge. -/
theorem Work.next_bridge [Behavior β] {work : Work β} {c : Context} {ports : List OutputPort}
    {outputs : List Value} (h : ((Behavior.act work c).run ports outputs).next = .bridge) :
    work = .bridge := by
  cases work with
  | bridge => rfl
  | custom behavior =>
    change (((Behavior.act behavior c).map custom).run ports outputs).next = .bridge at h
    rw [Activity.run_map] at h
    cases h
  | boolOp =>
    change ((Work.actBoolOp c).run ports outputs).next = .bridge at h
    unfold Work.actBoolOp at h
    dsimp only at h
    split at h
    · cases h
    · simp only [Activity.put, Activity.run] at h
      split at h <;> cases h
  | constant =>
    change ((Work.actConstant c).run ports outputs).next = .bridge at h
    simp only [Work.actConstant, Activity.put, Activity.run] at h
    split at h <;> cases h

namespace Graph

def Unnamed (g : Graph β) (l : LoopId) : Prop := ∀ n ∈ g.nodes, n.IsBridge → n.loop? ≠ some l

variable {g h : Graph β} {l : LoopId}

/-! ### Subscriptions -/

/-- A loop that no bridge names reaches no node. -/
theorem Unnamed.subscribed (hg : g.Unnamed l) (id : NodeId) :
    l ∉ g.subscribed.getD id.index [] := fun hl =>
  subscribed_induct (motive := fun other _ => other ≠ l)
    (fun _ _ _ n hn hbridge _ hloop heq =>
      hg n (mem_nodes_of_node? hn) (.inl hbridge) (heq ▸ hloop))
    (fun _ _ _ _ _ _ _ hne => hne) hl rfl

theorem Unnamed.propagate (hg : g.Unnamed l) {id : NodeId} {n : Node β}
    (hn : g.propagate.node? id = some n) : l ∉ n.subscriptions := by
  rw [node?_propagate] at hn
  obtain ⟨_, _, rfl⟩ := Option.map_eq_some_iff.mp hn
  exact hg.subscribed id

/-! ### Running -/

/-- Where every node that becomes a bridge was one with the same parameter, the loop stays unnamed.
-/
theorem Unnamed.of_nodes (hg : g.Unnamed l)
    (hnodes : ∀ n ∈ h.nodes, ∃ m ∈ g.nodes, (n.IsBridge → m.IsBridge) ∧ n.loop? = m.loop?) :
    h.Unnamed l := by
  intro n hn hbridge
  obtain ⟨m, hm, hkept, hloop⟩ := hnodes n hn
  rw [hloop]
  exact hg m hm (hkept hbridge)

variable [Behavior β]

theorem Unnamed.effect (hg : g.Unnamed l) (e : Effect g h) : h.Unnamed l := by
  cases e with
  | time | carry => exact hg
  | propagate =>
    refine hg.of_nodes fun n hn => ?_
    obtain ⟨m, hm, hsame⟩ := mem_nodes_of_view
      (propagate_map g (fun n => (n.type, n.work, n.loop?)) fun _ _ => rfl) hn
    obtain ⟨htype, hwork, hloop⟩ : m.type = n.type ∧ m.work = n.work ∧ m.loop? = n.loop? := by
      simpa using hsame
    exact ⟨m, hm, fun hbridge => by rwa [Node.IsBridge, htype, hwork], hloop.symm⟩
  | invoke id n type work c live known works params =>
    refine hg.of_nodes fun m hm => ?_
    rcases mem_nodes_modifyNode live hm with rfl | hold
    · refine ⟨n, mem_nodes_of_node? live, fun hbridge => hbridge.imp_right fun hwork => ?_, rfl⟩
      rw [works, Work.next_bridge (Option.some.inj hwork)]
    · exact ⟨m, hold, fun hbridge => hbridge, rfl⟩

theorem Unnamed.effects (hg : g.Unnamed l) (e : Effects g h) : h.Unnamed l := by
  induction e with
  | refl => exact hg
  | tail _ e ih => exact ih.effect e

end Graph

end FrameGraph
