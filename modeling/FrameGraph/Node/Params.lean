import FrameGraph.Value

/-! Parameters of a node: values by name, kept in ascending order of their names. -/

namespace FrameGraph

structure Params where
  entries : List (String × Value) := []

namespace Params

/-- Place an entry before the first greater name, in place of one of the same name. -/
def place (name : String) (value : Value) : List (String × Value) → List (String × Value)
  | [] => [(name, value)]
  | (k, v) :: rest =>
    if name = k then (name, value) :: rest
    else if name < k then (name, value) :: (k, v) :: rest
    else (k, v) :: place name value rest

def insert (params : Params) (name : String) (value : Value) : Params :=
  ⟨place name value params.entries⟩

def get? (params : Params) (name : String) : Option Value := params.entries.lookup name

def ofList (entries : List (String × Value)) : Params :=
  entries.foldl (fun params (name, value) => params.insert name value) {}

theorem lookup_place (name other : String) (value : Value) (entries : List (String × Value)) :
    (place name value entries).lookup other =
      if other = name then some value else entries.lookup other := by
  have hb : (other == name) = decide (other = name) := rfl
  induction entries with
  | nil => by_cases h : other = name <;> simp [place, List.lookup_cons, hb, h]
  | cons entry rest ih =>
    obtain ⟨k, v⟩ := entry
    unfold place
    split
    · next hk =>
      subst hk
      by_cases h : other = name <;> simp [List.lookup_cons, hb, h]
    · next hk =>
      split
      · by_cases h : other = name <;> simp [List.lookup_cons, hb, h]
      · by_cases h : other = name
        · subst h
          simp [List.lookup_cons, ih, beq_eq_false_iff_ne.mpr hk]
        · simp [List.lookup_cons, ih, h]

/-- A read after a write gives the value written, and other names are as before. -/
theorem get?_insert (params : Params) (name other : String) (value : Value) :
    (params.insert name value).get? other =
      if other = name then some value else params.get? other :=
  lookup_place name other value params.entries

end Params

end FrameGraph
