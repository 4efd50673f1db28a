import FrameGraph.Proofs.Loop.Settling

/-! Loops are independent. The loops of a table share the rounds in which it catches up, and each
may have to wait while another one steps; but what is left of a loop when the frame settles is
what would be left of it alone. So after every frame each loop is where it would be in a table
of its own. -/

namespace FrameGraph

variable {τ : Type} [Seconds τ] [LT τ] [LE τ] [DecidableLT τ] [DecidableLE τ] [Add τ] [Sub τ]

namespace LoopTable

variable {s t u v : LoopTable τ} {i j : LoopId} {l : Loop τ} {frames : List (Nat × τ)}
  {tables : List (LoopTable τ)}

/-- One step after the other leads to a table in which no loop is behind. -/
def CatchesUp (t u : LoopTable τ) : Prop := ∃ limit, (t.drain limit).2 = u ∧ u.catchUp? = none

/-- Frames by their index and time, each an update, catching up to the end and settling, with the
tables after each of them. -/
inductive Frames : LoopTable τ → List (Nat × τ) → List (LoopTable τ) → Prop
  | nil (t : LoopTable τ) : Frames t [] []
  | cons {t u : LoopTable τ} {index : Nat} {frameTime : τ} {frames : List (Nat × τ)}
      {tables : List (LoopTable τ)} (caught : CatchesUp ((t.setFrame index).update frameTime) u)
      (rest : Frames u.settle frames tables) :
      Frames t ((index, frameTime) :: frames) (u.settle :: tables)

def registering (configs : List (LoopConfig τ)) : LoopTable τ := run {} (configs.map .register)

/-! ### Catching up -/

/-- A table catches up by the rounds of its loops, after which none of them is behind. -/
theorem CatchesUp.get? (h : CatchesUp t u) (hl : t.get? i = some l) :
    ∃ n, u.get? i = some (Loop.catchUp^[n] l) ∧ (Loop.catchUp^[n] l).isBehind = false := by
  obtain ⟨limit, rfl, hended⟩ := h
  have hget := t.drain_get? i limit
  rw [hl, Option.map_some] at hget
  exact ⟨_, hget, catchUp?_eq_none.mp hended _ (List.mem_of_getElem? hget)⟩

theorem CatchesUp.settle_get? (ht : CatchesUp t u) (hs : CatchesUp s v)
    (hl : t.get? i = some l) (hsame : s.get? j = some l) :
    v.settle.get? j = u.settle.get? i := by
  obtain ⟨m, hm, hcaught⟩ := ht.get? hl
  obtain ⟨n, hn, hcaught'⟩ := hs.get? hsame
  rw [LoopTable.settle_get?, LoopTable.settle_get?, hm, hn, Option.map_some, Option.map_some,
    Loop.settle_iterate_catchUp hcaught hcaught']

/-- A loop that catches up in some number of rounds does so in a table of its own. -/
theorem catchesUp_alone {n : Nat} (hs : s.loops = [l])
    (h : (Loop.catchUp^[n] l).isBehind = false) : ∃ v, CatchesUp s v ∧ v.loops.length = 1 := by
  induction n generalizing s l with
  | zero =>
    have hended : s.catchUp? = none := by
      rw [catchUp?_eq_none, hs]
      simpa using h
    exact ⟨s, ⟨0, rfl, hended⟩, by simp [hs]⟩
  | succ n ih =>
    cases hnext : s.catchUp? with
    | none => exact ⟨s, ⟨0, rfl, hnext⟩, by simp [hs]⟩
    | some next =>
      have hloops : next.loops = [l.catchUp] := by
        obtain ⟨_, rfl⟩ := catchUp?_eq_some hnext
        rw [hs]
        rfl
      obtain ⟨v, ⟨limit, hv, hended⟩, hlength⟩ := ih hloops h
      exact ⟨v, ⟨limit + 1, by rw [drain_of_some hnext, hv], hended⟩, hlength⟩

/-! ### Frames -/

/-- In a table of its own a loop takes part in the same frames, to the same end in each. -/
theorem Frames.alone (h : Frames t frames tables) (hl : t.get? i = some l) (hs : s.loops = [l]) :
    ∃ own, Frames s frames own ∧
      List.Forall₂ (fun u v => ∃ l, u.get? i = some l ∧ v.loops = [l]) tables own := by
  induction h generalizing s l with
  | nil t => exact ⟨[], .nil s, .nil⟩
  | @cons t u index frameTime frames tables caught rest ih =>
    have hadvanced : ((t.setFrame index).update frameTime).get? i =
        some (l.advance frameTime index) := by
      rw [update_get?]
      exact congrArg (Option.map fun l => l.advance frameTime index) hl
    have hown : ((s.setFrame index).update frameTime).loops = [l.advance frameTime index] := by
      simp [update, setFrame, hs]
    obtain ⟨n, hget, hcaught⟩ := caught.get? hadvanced
    obtain ⟨v, hv, hlength⟩ := catchesUp_alone hown hcaught
    have hsettled : v.settle.get? ⟨0⟩ = u.settle.get? i :=
      caught.settle_get? hv hadvanced (by simp [LoopTable.get?, hown])
    -- one loop is left in each of the two tables, and it is the same
    obtain ⟨l', hl'⟩ : ∃ l', v.loops = [l'] := List.length_eq_one_iff.mp hlength
    have hloops : v.settle.loops = [l'.settle] := by simp [settle, hl']
    have hleft : u.settle.get? i = some l'.settle := by
      rw [← hsettled, LoopTable.get?, hloops]
      rfl
    obtain ⟨own, hframes, hsame⟩ := ih hleft hloops
    exact ⟨_, .cons hv hframes, .cons ⟨_, hleft, hloops⟩ hsame⟩

/-- What new loops have, all loops of a table have when nothing is done but to register them. -/
theorem forall_mem_registered {P : Loop τ → Prop}
    (hnew : ∀ config : LoopConfig τ, config.check = .ok () → P (Loop.ofConfig config))
    (configs : List (LoopConfig τ)) (ht : ∀ l ∈ t.loops, P l) :
    ∀ l ∈ (t.run (configs.map .register)).loops, P l := by
  induction configs generalizing t with
  | nil => exact ht
  | cons config configs ih =>
    apply ih
    intro l hl
    simp only [apply] at hl
    split at hl
    · next next id hregister =>
      obtain ⟨hcheck, _, rfl⟩ := register_eq_ok hregister
      rcases List.mem_append.mp hl with hold | hlast
      · exact ht l hold
      · rw [List.mem_singleton.mp hlast]
        exact hnew config hcheck
    · exact ht l hl

theorem mem_registering {configs : List (LoopConfig τ)} (hl : l ∈ (registering configs).loops) :
    l.config.check = .ok () ∧ l = Loop.ofConfig l.config := by
  apply forall_mem_registered (P := fun l => l.config.check = .ok () ∧ l = Loop.ofConfig l.config)
    (fun config hcheck => ⟨hcheck, rfl⟩) configs (t := {}) ?_ l hl
  exact fun l hl => absurd hl List.not_mem_nil

/-- Whatever other loops are registered, in every frame that catches up to its end a loop comes out
as it does in a table in which it alone is registered and which has the same frames. -/
theorem loops_independent (configs : List (LoopConfig τ)) {config : LoopConfig τ} {id : LoopId}
    (registered : ((registering configs).get? id).map Loop.config = some config)
    (caughtUp : Frames (registering configs) frames tables) :
    ∃ alone own, ({} : LoopTable τ).register config = .ok (alone, ⟨0⟩) ∧ alone.size = 1 ∧
      Frames alone frames own ∧
      List.Forall₂ (fun u v => ∃ l, u.get? id = some l ∧ v.loops = [l]) tables own := by
  obtain ⟨l, hl, rfl⟩ := Option.map_eq_some_iff.mp registered
  obtain ⟨hcheck, hfresh⟩ := mem_registering (List.mem_of_getElem? hl)
  have hregister : ({} : LoopTable τ).register l.config =
      .ok ({ loops := [Loop.ofConfig l.config] }, ⟨0⟩) := register_of_free rfl hcheck
  obtain ⟨own, hframes, hsame⟩ := caughtUp.alone hl (s := { loops := [Loop.ofConfig l.config] })
    (by rw [← hfresh])
  exact ⟨_, own, hregister, rfl, hframes, hsame⟩

/-- A loop that catches up beside one of twice its rate and one that runs every frame. -/
def ensemble : List (LoopConfig Float) :=
  [{ name := "physics", timestep := 0.125, cap := 0.25 },
    { name := "network", timestep := 0.0625, cap := 0.25 }, .everyFrame "render"]

/-- In the first frame the loop takes two steps and then waits for two more of the other one. -/
theorem ensemble_independent : ∃ tables alone own,
    Frames (registering ensemble) [(1, 0.25), (2, 0.0625)] tables ∧
    tables.map (fun t => (t.stepsOf ⟨0⟩, t.stepsOf ⟨1⟩)) = [(2, 4), (2, 5)] ∧
    alone.size = 1 ∧ Frames alone [(1, 0.25), (2, 0.0625)] own ∧
    List.Forall₂ (fun u v => ∃ l, u.get? ⟨0⟩ = some l ∧ v.loops = [l]) tables own := by
  have hended {t : LoopTable Float} (h : t.isBehind = false) : t.catchUp? = none := by
    rw [catchUp?, h]
    rfl
  obtain ⟨tables, hframes, hsteps⟩ : ∃ tables,
      Frames (registering ensemble) [(1, 0.25), (2, 0.0625)] tables ∧
      tables.map (fun t => (t.stepsOf ⟨0⟩, t.stepsOf ⟨1⟩)) = [(2, 4), (2, 5)] :=
    ⟨_, .cons ⟨3, rfl, hended (by decide +kernel)⟩
      (.cons ⟨0, rfl, hended (by decide +kernel)⟩ (.nil _)), by decide +kernel⟩
  have hconfig : ((registering ensemble).get? ⟨0⟩).map Loop.config =
      some { name := "physics", timestep := 0.125, cap := 0.25 } := rfl
  obtain ⟨alone, own, _, hsize, hown, hsame⟩ := loops_independent ensemble hconfig hframes
  exact ⟨tables, alone, own, hframes, hsteps, hsize, hown, hsame⟩

end LoopTable

end FrameGraph
