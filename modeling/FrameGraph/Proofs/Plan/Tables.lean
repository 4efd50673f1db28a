import FrameGraph.Proofs.Plan.Cycles

/-! Sorting on tables. Here the sort keeps its numbers in tables with a place for each index: edges
are entered one by one, placing an index takes one from the number at the end of each of its edges,
and an index is freed when its number reaches zero. A read or a change outside a table has no
answer, nor has taking one from zero, nor a loop that has not ended of itself when its bound is
reached. Where the edges lie within the indices there is always an answer, and it is that of the
layered sort. -/

namespace FrameGraph

section Tables

variable {α γ : Type*}

/-- A table whose place `i` holds `f i`. -/
def tabulate (n : Nat) (f : Nat → α) : List α := (List.range n).map f

/-- Change one place of a table, if it has that place. -/
def change? (table : List α) (i : Nat) (f : α → α) : Option (List α) :=
  if i < table.length then some (table.modify i f) else none

variable {n i : Nat} {f g : Nat → α} {l : List γ}

@[simp] theorem length_tabulate : (tabulate n f).length = n := by simp [tabulate]

@[simp] theorem getElem_tabulate (h : i < (tabulate n f).length) : (tabulate n f)[i] = f i := by
  simp [tabulate]

theorem tabulate_congr (h : ∀ i < n, f i = g i) : tabulate n f = tabulate n g :=
  List.map_congr_left fun i hi => h i (List.mem_range.mp hi)

theorem tabulate_getElem? (hi : i < n) : (tabulate n f)[i]? = some (f i) := by
  simp [tabulate, hi]

theorem replicate_eq_tabulate (n : Nat) (a : α) : List.replicate n a = tabulate n fun _ => a := by
  simp [tabulate]

/-- A change within a table is one of the function that it holds. -/
theorem change?_tabulate (hi : i < n) (c : α → α) :
    change? (tabulate n f) i c = some (tabulate n fun j => if j = i then c (f j) else f j) := by
  rw [change?, if_pos (by simpa using hi), Option.some.injEq]
  apply List.ext_getElem (by simp)
  intro j hj _
  by_cases hij : i = j
  · simp [hij]
  · simp [hij, Ne.symm hij]

theorem mapM_eq_some {f : γ → Option α} {g : γ → α} (h : ∀ c ∈ l, f c = some (g c)) :
    l.mapM f = some (l.map g) := by
  induction l with
  | nil => rfl
  | cons c l ih =>
    rw [List.mapM_cons, h c List.mem_cons_self, ih fun d hd => h d (List.mem_cons_of_mem c hd)]
    rfl

/-- A pass that holds `state` of the part behind it, step by step, ends with `state` of the whole.
-/
theorem foldlM_prefix {step : α → γ → Option α} (state : List γ → α)
    (hstep : ∀ before c after, l = before ++ c :: after →
      step (state before) c = some (state (before ++ [c]))) :
    l.foldlM step (state []) = some (state l) := by
  have hpart (before after : List γ) (hsplit : l = before ++ after) :
      after.foldlM step (state before) = some (state l) := by
    induction after generalizing before with
    | nil => rw [hsplit, List.append_nil]; rfl
    | cons c after ih =>
      rw [List.foldlM_cons, hstep before c after hsplit]
      exact ih (before ++ [c]) (by simpa using hsplit)
  exact hpart [] l rfl

end Tables

namespace Waves

variable {n : Nat} {edges : List Edge}

/-- For each index, where its edges lead and the number of edges into it. -/
structure Counts where
  successors : List (List Nat)
  degrees : List Nat

def enter? (c : Counts) (e : Edge) : Option Counts := do
  let successors ← change? c.successors e.source (· ++ [e.sink])
  let degrees ← change? c.degrees e.sink (· + 1)
  return ⟨successors, degrees⟩

/-- Take one edge from the number of an index, and note the index when nothing is left. -/
def relax? (s : List Nat × List Nat) (i : Nat) : Option (List Nat × List Nat) :=
  match s.1[i]? with
  | none | some 0 => none
  | some (degree + 1) =>
    (change? s.1 i fun _ => degree).map fun degrees =>
      (degrees, if degree = 0 then s.2 ++ [i] else s.2)

def release? (successors : List (List Nat)) (s : List Nat × List Nat) (i : Nat) :
    Option (List Nat × List Nat) := do
  let sinks ← successors[i]?
  sinks.foldlM relax? s

/-- Place `wave` and all that it frees, which must take no more than so many waves. -/
def place? (successors : List (List Nat)) :
    Nat → List Nat → List Nat → Option (List (List Nat) × List Nat)
  | 0, wave, degrees => if wave.isEmpty then some ([], degrees) else none
  | fuel + 1, wave, degrees =>
    if wave.isEmpty then some ([], degrees)
    else do
      let (after, freed) ← wave.foldlM (release? successors) (degrees, [])
      let (waves, left) ← place? successors fuel freed.mergeSort after
      return (wave :: waves, left)

/-- Keep the lesser of the known predecessor of the sink and the source, if a number is left at both
ends. -/
def tighten? (left : List Nat) (table : List (Option Nat)) (e : Edge) :
    Option (List (Option Nat)) := do
  let known ← table[e.sink]?
  if left.getD e.source 0 != 0 && left.getD e.sink 0 != 0 && known.all (e.source < ·) then
    change? table e.sink fun _ => some e.source
  else return table

/-- Walk the predecessors in a table, newest first, until one repeats, which must take fewer steps
than so many. -/
def chase? (table : List (Option Nat)) : Nat → List Nat → Nat → Option (List Nat)
  | 0, _, _ => none
  | fuel + 1, path, current =>
    if path.contains current then some (path.take (path.idxOf current + 1))
    else do
      match ← table[current]? with
      | some previous => chase? table fuel (current :: path) previous
      | none => return (current :: path).reverse

def cycle? (n : Nat) (edges : List Edge) (left : List Nat) : Option (List Nat) := do
  let table ← edges.foldlM (tighten? left) (List.replicate n none)
  match left.findIdx? (· != 0) with
  | none => return []
  | some start => chase? table (left.length + 1) [] start

/-- The waves of the indices below `n`, or a cycle. -/
def sort? (n : Nat) (edges : List Edge) : Option (Except (List Nat) (List (List Nat))) := do
  let counts ← edges.foldlM enter? ⟨List.replicate n [], List.replicate n 0⟩
  let numbered ← (List.range n).mapM fun i => (counts.degrees[i]?).map (i, ·)
  let first := (numbered.filter fun (_, degree) => degree == 0).map Prod.fst
  let (waves, left) ← place? counts.successors n first counts.degrees
  if waves.flatten.length = n then return .ok waves
  else return .error (← cycle? n edges left)

/-! ### Counting -/

def sinksOf (edges : List Edge) (i : Nat) : List Nat :=
  (edges.filter fun e => e.source == i).map Edge.sink

/-- Entering one more edge in the tables of some edges. -/
theorem enter?_tables {e : Edge} (hsource : e.source < n) (hsink : e.sink < n) :
    enter? ⟨tabulate n (sinksOf edges), indegrees n edges⟩ e =
      some ⟨tabulate n (sinksOf (edges ++ [e])), indegrees n (edges ++ [e])⟩ := by
  have hdegrees (edges : List Edge) :
      indegrees n edges = tabulate n fun i => edges.countP fun e => e.sink == i := rfl
  simp only [enter?, hdegrees, change?_tabulate hsource, change?_tabulate hsink,
    Option.bind_eq_bind, Option.bind_some, Option.pure_def]
  congr 2
  · refine tabulate_congr fun i _ => ?_
    by_cases hi : e.source = i
    · simp [sinksOf, hi]
    · simp [sinksOf, hi, Ne.symm hi]
  · refine tabulate_congr fun i _ => ?_
    by_cases hi : e.sink = i
    · simp [hi]
    · simp [hi, Ne.symm hi]

theorem foldlM_enter (hw : Within n edges) :
    edges.foldlM enter? ⟨List.replicate n [], List.replicate n 0⟩ =
      some ⟨tabulate n (sinksOf edges), indegrees n edges⟩ := by
  rw [replicate_eq_tabulate, replicate_eq_tabulate]
  refine foldlM_prefix (fun edges => Counts.mk (tabulate n (sinksOf edges)) (indegrees n edges))
    fun before e after hsplit => ?_
  obtain ⟨hsource, hsink⟩ := hw e (by simp [hsplit])
  exact enter?_tables hsource hsink

/-! ### Placing -/

theorem relax?_tabulate {D : Nat → Nat} {i : Nat} (hi : i < n) (hpos : 0 < D i)
    (ready : List Nat) :
    relax? (tabulate n D, ready) i =
      some (tabulate n fun j => if j = i then D i - 1 else D j,
        if D i = 1 then ready ++ [i] else ready) := by
  obtain ⟨d, hd⟩ : ∃ d, D i = d + 1 := ⟨D i - 1, by omega⟩
  have hread : (tabulate n D)[i]? = some (d + 1) := by rw [tabulate_getElem? hi, hd]
  simp only [relax?, hread, change?_tabulate hi, Option.map_some, hd]
  congr 2
  simp

/-- Taking edges from numbers that cover them. The indices freed are those of which nothing is
left. -/
theorem foldlM_relax {sinks : List Nat} {D : Nat → Nat} (hlt : ∀ i ∈ sinks, i < n)
    (hcount : ∀ i, sinks.count i ≤ D i) (ready : List Nat) :
    ∃ freed, sinks.foldlM relax? (tabulate n D, ready) =
        some (tabulate n fun i => D i - sinks.count i, ready ++ freed) ∧
      freed.Nodup ∧ ∀ i, i ∈ freed ↔ D i ≠ 0 ∧ D i - sinks.count i = 0 := by
  induction sinks generalizing D ready with
  | nil => exact ⟨[], by simp, List.nodup_nil, by simp⟩
  | cons s sinks ih =>
    have hs : s < n := hlt s List.mem_cons_self
    have hpos : 0 < D s := by
      have := hcount s
      rw [List.count_cons_self] at this
      omega
    have hafter (i : Nat) : (if i = s then D s - 1 else D i) - sinks.count i =
        D i - (s :: sinks).count i := by
      by_cases hi : i = s
      · simp [hi]
        omega
      · simp [hi, Ne.symm hi]
    have hcount' (i : Nat) : sinks.count i ≤ if i = s then D s - 1 else D i := by
      have hle := hcount i
      by_cases hi : i = s
      · simp only [hi, List.count_cons_self, if_true] at hle ⊢
        omega
      · simpa [hi, List.count_cons, Ne.symm hi] using hle
    obtain ⟨freed, hfold, hnodup, hmem⟩ := ih (fun i hi => hlt i (List.mem_cons_of_mem s hi))
      hcount' (if D s = 1 then ready ++ [s] else ready)
    refine ⟨if D s = 1 then s :: freed else freed, ?_, ?_, fun i => ?_⟩
    · rw [List.foldlM_cons, relax?_tabulate hs hpos]
      simp only [Option.bind_eq_bind, Option.bind_some, hfold, hafter]
      split
      · rw [List.append_assoc, List.singleton_append]
      · rfl
    · split
      · next hone => exact List.nodup_cons.mpr ⟨fun h => by simp [hmem, hone] at h, hnodup⟩
      · exact hnodup
    · rw [← hafter i]
      have hi := hmem i
      by_cases his : i = s
      · subst his
        split <;> simp_all
        omega
      · split <;> simp_all

/-- Placing a wave takes the edges of its indices one after the other. -/
theorem foldlM_release {wave : List Nat} (hwave : ∀ w ∈ wave, w < n) (s : List Nat × List Nat) :
    wave.foldlM (release? (tabulate n (sinksOf edges))) s =
      (wave.flatMap (sinksOf edges)).foldlM relax? s := by
  induction wave generalizing s with
  | nil => rfl
  | cons w wave ih =>
    rw [List.foldlM_cons, List.flatMap_cons, List.foldlM_append, release?,
      tabulate_getElem? (hwave w List.mem_cons_self)]
    exact bind_congr fun s => ih (fun v hv => hwave v (List.mem_cons_of_mem w hv)) s

theorem count_sinks {wave : List Nat} (hwave : wave.Nodup) (i : Nat) :
    (wave.flatMap (sinksOf edges)).count i = relief edges wave i := by
  induction wave with
  | nil => simp [relief]
  | cons w wave ih =>
    obtain ⟨hw, hwave⟩ := List.nodup_cons.mp hwave
    have hfirst : (sinksOf edges w).count i =
        edges.countP fun e => e.sink == i && e.source == w := by
      rw [sinksOf, List.count, List.countP_map, List.countP_filter]
      exact List.countP_congr fun e _ => by simp [and_comm]
    rw [List.flatMap_cons, List.count_append, ih hwave, hfirst]
    refine (countP_split _ _ _ _ (fun e _ => ?_) fun e _ => ?_).symm
    · rw [Bool.eq_iff_iff]
      simp [and_or_left]
    · by_cases he : e.source = w
      · simp [he, hw]
      · simp [he]

/-- Placing a wave whose edges the numbers cover leaves the numbers of the sort, and frees the
indices that the sort frees. -/
theorem release?_wave (hw : Within n edges) {wave : List Nat} (hnodup : wave.Nodup)
    (hwave : ∀ w ∈ wave, w < n) {D : Nat → Nat} (hcount : ∀ i, relief edges wave i ≤ D i) :
    ∃ ready, wave.foldlM (release? (tabulate n (sinksOf edges))) (tabulate n D, []) =
        some (lower edges wave (tabulate n D), ready) ∧
      ready.mergeSort = freed (tabulate n D) (lower edges wave (tabulate n D)) := by
  have hlower :
      lower edges wave (tabulate n D) = tabulate n fun i => D i - relief edges wave i := by
    apply List.ext_getElem (by simp [lower])
    intro i _ _
    simp [lower, tabulate]
  have hsinks : ∀ i ∈ wave.flatMap (sinksOf edges), i < n := by
    intro i hi
    obtain ⟨w, _, hi⟩ := List.mem_flatMap.mp hi
    obtain ⟨e, he, rfl⟩ := List.mem_map.mp hi
    exact (hw e (List.mem_of_mem_filter he)).2
  obtain ⟨ready, hfold, hready, hmem⟩ := foldlM_relax (D := D) hsinks
    (fun i => count_sinks hnodup i ▸ hcount i) []
  simp only [count_sinks hnodup, List.nil_append] at hfold hmem
  refine ⟨ready, by rw [foldlM_release hwave, hfold, hlower], ?_⟩
  have hfreed : (freed (tabulate n D) (lower edges wave (tabulate n D))).Pairwise (· < ·) :=
    List.pairwise_lt_range.filter _
  have hperm : ready.mergeSort.Perm (freed (tabulate n D) (lower edges wave (tabulate n D))) := by
    refine (List.mergeSort_perm _ _).trans ?_
    rw [List.perm_ext_iff_of_nodup hready (hfreed.imp fun h => Nat.ne_of_lt h)]
    intro i
    have hready : i ∈ ready → i < n := by
      rw [hmem, ← count_sinks hnodup]
      intro hi
      exact hsinks i (List.count_pos_iff.mp (by omega))
    by_cases hi : i < n
    · simp [hmem, hlower, freed, hi]
    · simp [freed, hi, mt hready hi]
  have hsorted : ready.mergeSort.Pairwise (· ≤ ·) := by
    have htrans (a b c : Nat) : decide (a ≤ b) → decide (b ≤ c) → decide (a ≤ c) := by
      simpa using Nat.le_trans
    have htotal (a b : Nat) : decide (a ≤ b) || decide (b ≤ a) := by simpa using Nat.le_total a b
    simpa using List.pairwise_mergeSort htrans htotal ready
  exact hperm.eq_of_pairwise (fun _ _ _ _ => Nat.le_antisymm) hsorted (hfreed.imp Nat.le_of_lt)

/-! ### The sort -/

theorem relief_level_le (n : Nat) (edges : List Edge) (k i : Nat) :
    relief edges (level n edges k) i ≤
      edges.countP fun e => e.sink == i && deep edges k e.source := by
  refine List.countP_mono_left fun e _ he => ?_
  rw [Bool.and_eq_true, List.contains_iff_mem] at he
  rw [he.1, (mem_level.mp he.2).2.1]
  rfl

/-- There are no more levels than indices. -/
theorem exists_level_eq_nil (hw : Within n edges) : ∃ m ≤ n, level n edges m = [] := by
  obtain ⟨m, hm, _, hne, hlast⟩ := place_level hw n 0
  rw [← List.range_eq_range'] at hne
  rw [Nat.zero_add] at hlast
  by_cases hlt : m < n
  · exact ⟨m, hm, hlast hlt⟩
  · have hle := le_length_flatten _ hne
    have hbound := ((levels_nodup n edges m).subperm (levels_subset n edges m)).length_le
    rw [List.length_map, List.length_range] at hle
    rw [List.length_range] at hbound
    exact ⟨m, hm, level_eq_nil (length_levels_eq_iff.mp (by omega))⟩

/-- From a level on, placing has an answer when the bound reaches as far as an empty level, and it
is that of the sort. -/
theorem place?_level (hw : Within n edges) {fuel k m : Nat} (hempty : level n edges m = [])
    (hkm : k ≤ m) (hm : m ≤ k + fuel) :
    place? (tabulate n (sinksOf edges)) fuel (level n edges k) (pending n edges k) =
      some (place edges fuel (level n edges k) (pending n edges k)) := by
  induction fuel generalizing k with
  | zero =>
    obtain rfl : k = m := by omega
    simp [place?, place, hempty]
  | succ fuel ih =>
    by_cases hlast : (level n edges k).isEmpty = true
    · simp [place?, place, hlast]
    · have hne : k ≠ m := by
        rintro rfl
        simp [hempty] at hlast
      have ih := ih (k := k + 1) (by omega) (by omega)
      have hnodup : (level n edges k).Nodup := (level_sorted k).imp fun h => Nat.ne_of_lt h
      obtain ⟨ready, hfold, hready⟩ := release?_wave hw hnodup (fun w hw => (mem_level.mp hw).1)
        (relief_level_le n edges k)
      have hpending : (tabulate n fun i =>
          edges.countP fun e => e.sink == i && deep edges k e.source) = pending n edges k := rfl
      rw [hpending, lower_pending hw] at hfold hready
      rw [freed_pending] at hready
      simp only [place?, place, hlast, Bool.false_eq_true, if_false, hfold, Option.bind_eq_bind,
        Option.bind_some, hready, ih, lower_pending hw, freed_pending, Option.pure_def]

theorem mapM_degrees {degrees : List Nat} (h : degrees.length = n) :
    ((List.range n).mapM fun i => (degrees[i]?).map (i, ·)) =
      some ((List.range n).map fun i => (i, degrees.getD i 0)) := by
  refine mapM_eq_some fun i hi => ?_
  rw [← h, List.mem_range] at hi
  simp [hi]

theorem filter_degrees {degrees : List Nat} (h : degrees.length = n) :
    (((List.range n).map fun i => (i, degrees.getD i 0)).filter fun p => p.2 == 0).map Prod.fst =
      sources degrees := by
  rw [List.filter_map, List.map_map, sources, h]
  exact List.map_id _

/-! ### Cycles -/

theorem min?_concat (l : List Nat) (a : Nat) :
    (l ++ [a]).min? = some (l.min?.elim a (min · a)) := by
  cases l <;> simp [List.min?]

theorem predecessor?_concat (edges : List Edge) (left : List Nat) (e : Edge) (i : Nat) :
    predecessor? (edges ++ [e]) left i =
      if e.sink = i ∧ left.getD e.source 0 ≠ 0 ∧ left.getD i 0 ≠ 0 then
        some ((predecessor? edges left i).elim e.source (min · e.source))
      else predecessor? edges left i := by
  rw [predecessor?, List.filter_append, List.map_append]
  split
  · next h =>
    rw [List.filter_cons_of_pos]
    · exact min?_concat _ _
    · simp only [Bool.and_eq_true, beq_iff_eq, bne_iff_ne, and_assoc]
      exact h
  · next h =>
    rw [List.filter_cons_of_neg]
    · rw [List.filter_nil, List.map_nil, List.append_nil, predecessor?]
    · simp only [Bool.and_eq_true, beq_iff_eq, bne_iff_ne, and_assoc]
      exact h

theorem tighten?_tabulate {e : Edge} (hsink : e.sink < n) (left : List Nat) :
    tighten? left (tabulate n (predecessor? edges left)) e =
      some (tabulate n (predecessor? (edges ++ [e]) left)) := by
  simp only [tighten?, tabulate_getElem? hsink, change?_tabulate hsink, Option.bind_eq_bind,
    Option.bind_some, Option.pure_def]
  split
  · next h =>
    simp only [Bool.and_eq_true, bne_iff_ne] at h
    obtain ⟨⟨hsource, hleft⟩, hless⟩ := h
    refine congrArg some (tabulate_congr fun i _ => ?_)
    rw [predecessor?_concat]
    by_cases hi : i = e.sink
    · subst hi
      rw [if_pos rfl, if_pos ⟨rfl, hsource, hleft⟩]
      cases hknown : predecessor? edges left e.sink with
      | none => rfl
      | some p =>
        have : e.source < p := by simpa [hknown] using hless
        simp
        omega
    · rw [if_neg hi, if_neg fun h => hi h.1.symm]
  · next h =>
    refine congrArg some (tabulate_congr fun i _ => ?_)
    rw [predecessor?_concat]
    split
    · next hmatch =>
      obtain ⟨rfl, hsource, hleft⟩ := hmatch
      simp only [Bool.and_eq_true, bne_iff_ne, not_and] at h
      have hless := h ⟨hsource, hleft⟩
      cases hknown : predecessor? edges left e.sink with
      | none => simp [hknown] at hless
      | some p =>
        have : p ≤ e.source := by simpa [hknown] using hless
        simp
        omega
    · rfl

theorem foldlM_tighten (hw : Within n edges) (left : List Nat) :
    edges.foldlM (tighten? left) (List.replicate n none) =
      some (tabulate n (predecessor? edges left)) := by
  rw [replicate_eq_tabulate]
  exact foldlM_prefix (fun edges => tabulate n (predecessor? edges left))
    fun before e after hsplit => tighten?_tabulate (hw e (by simp [hsplit])).2 left

/-- The walk over a table of predecessors is the walk of the sort. The path does not repeat, so it
closes before it is longer than there are indices. -/
theorem chase?_eq {next : Nat → Option Nat} (hnext : ∀ i j, next i = some j → j < n) {fuel : Nat}
    {path : List Nat} {i : Nat} (hnodup : path.Nodup) (hlt : ∀ j ∈ i :: path, j < n)
    (hfuel : n < fuel + path.length) :
    chase? (tabulate n next) fuel path i = some (chase next fuel path i) := by
  induction fuel generalizing path i with
  | zero =>
    have hsub : path ⊆ List.range n := fun j hj =>
      List.mem_range.mpr (hlt j (List.mem_cons_of_mem _ hj))
    have hle := (hnodup.subperm hsub).length_le
    rw [List.length_range] at hle
    omega
  | succ fuel ih =>
    simp only [chase?, chase, tabulate_getElem? (hlt i List.mem_cons_self), Option.bind_eq_bind,
      Option.bind_some]
    split
    · rfl
    · next hnew =>
      cases hj : next i with
      | none => rfl
      | some j =>
        refine ih (List.nodup_cons.mpr ⟨by simpa using hnew, hnodup⟩) ?_ ?_
        · exact List.forall_mem_cons.mpr ⟨hnext i j hj, hlt⟩
        · rw [List.length_cons]
          omega

theorem cycle?_eq (hw : Within n edges) {left : List Nat} (hleft : left.length = n) :
    cycle? n edges left = some (cycle edges left) := by
  have hnext (i j : Nat) (h : predecessor? edges left i = some j) : j < n :=
    (hw _ (predecessor?_eq_some h).1).1
  simp only [cycle?, cycle, foldlM_tighten hw, Option.bind_eq_bind, Option.bind_some]
  cases hstart : left.findIdx? (· != 0) with
  | none => rfl
  | some start =>
    have hlt : start < n := hleft ▸ (List.findIdx?_eq_some_iff_findIdx_eq.mp hstart).1
    exact chase?_eq hnext List.nodup_nil (by simpa using hlt) (by simp [hleft])

/-- Sorting on tables answers what the sort does, if the edges lie within the indices. -/
theorem sort?_eq (hw : Within n edges) : sort? n edges = some (sort n edges) := by
  have hlength : (indegrees n edges).length = n := by simp [indegrees]
  obtain ⟨_, _, hplace, _⟩ := place_level hw n 0
  obtain ⟨m, hm, hempty⟩ := exists_level_eq_nil hw
  simp only [sort?, sort, foldlM_enter hw, Option.bind_eq_bind, Option.bind_some,
    mapM_degrees hlength, filter_degrees hlength]
  rw [indegrees_eq, sources_pending, place?_level hw hempty (Nat.zero_le m) (by omega),
    Option.bind_some, hplace]
  split
  · rfl
  · rw [cycle?_eq hw (length_pending _)]
    rfl

/-- An edge that leads out of the indices has no place in the tables. -/
example : sort? 2 [⟨0, 1⟩, ⟨1, 2⟩] = none := by decide

end Waves

end FrameGraph
