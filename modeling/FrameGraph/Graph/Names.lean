import FrameGraph.Port

/-! An index of nodes by name. Names are entered when nodes are created and erased when nodes
are removed; the newest entry of a name counts. -/

namespace FrameGraph

/-- The numbers of nodes by name. -/
structure NameIndex where
  entries : List (String × NodeId) := []

namespace NameIndex

def find? (index : NameIndex) (name : String) : Option NodeId := index.entries.lookup name

def insert (index : NameIndex) (name : String) (id : NodeId) : NameIndex :=
  ⟨(name, id) :: index.entries⟩

def erase (index : NameIndex) (name : String) : NameIndex :=
  ⟨index.entries.filter fun entry => entry.1 != name⟩

@[simp] theorem find?_empty (name : String) : ({} : NameIndex).find? name = none := rfl

theorem find?_insert (index : NameIndex) (name other : String) (id : NodeId) :
    (index.insert name id).find? other = if other = name then some id else index.find? other := by
  rw [insert, find?, List.lookup_cons]
  split <;> simp_all [find?]

theorem find?_erase (index : NameIndex) (name other : String) :
    (index.erase name).find? other = if other = name then none else index.find? other := by
  obtain ⟨entries⟩ := index
  simp only [erase, find?]
  induction entries with
  | nil => simp
  | cons entry rest ih =>
    obtain ⟨k, id⟩ := entry
    by_cases hk : k = name
    · rw [List.filter_cons_of_neg (by simp [hk]), ih, List.lookup_cons, hk]
      split
      · rfl
      · next hne => rw [beq_eq_false_iff_ne.mpr hne]
    · rw [List.filter_cons_of_pos (by simp [hk]), List.lookup_cons, List.lookup_cons, ih]
      split <;> simp_all

end NameIndex

end FrameGraph
