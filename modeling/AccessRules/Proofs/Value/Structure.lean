import AccessRules.Value

/-! Induction over values, with a hypothesis for every item of a list and every entry of a map, and
the keys, paths and numbers that stand anywhere inside a value. -/

namespace AccessRules.Value

@[elab_as_elim, induction_eliminator]
theorem ind {motive : Value → Prop} (null : motive .null) (bool : ∀ b, motive (.bool b))
    (int : ∀ n, motive (.int n)) (float : ∀ x, motive (.float x)) (string : ∀ s, motive (.string s))
    (list : ∀ items, (∀ v ∈ items, motive v) → motive (.list items))
    (map : ∀ entries, (∀ e ∈ entries, motive e.2) → motive (.map entries))
    (path : ∀ p, motive (.path p)) (v : Value) : motive v := by
  refine @Value.rec motive (fun vs => ∀ v ∈ vs, motive v) (fun es => ∀ e ∈ es, motive e.2)
    (fun e => motive e.2) null bool int float string list map path ?_ ?_ ?_ ?_ ?_ v
  · exact fun v h => nomatch h
  · intro v vs hv hvs w hw
    rcases List.mem_cons.mp hw with rfl | hw
    · exact hv
    · exact hvs w hw
  · exact fun e h => nomatch h
  · intro e es he hes f hf
    rcases List.mem_cons.mp hf with rfl | hf
    · exact he
    · exact hes f hf
  · exact fun _ _ h => h

section
variable {α : Type} (key : String → List α) (leaf : Value → List α)

mutual
/-- What the keys of a value and the values inside of it that hold no others yield, in order. -/
def gather : Value → List α
  | .list items => gatherItems items
  | .map entries => gatherEntries entries
  | v => leaf v

def gatherItems : List Value → List α
  | [] => []
  | v :: vs => v.gather ++ gatherItems vs

def gatherEntries : List (String × Value) → List α
  | [] => []
  | (k, v) :: es => key k ++ v.gather ++ gatherEntries es
end

theorem gather_list (items : List Value) :
    (Value.list items).gather key leaf = items.flatMap fun v => v.gather key leaf := by
  rw [gather]
  induction items with
  | nil => rfl
  | cons v vs ih => rw [gatherItems, ih, List.flatMap_cons]

theorem gather_map (entries : List (String × Value)) :
    (Value.map entries).gather key leaf =
      entries.flatMap fun e => key e.1 ++ e.2.gather key leaf := by
  rw [gather]
  induction entries with
  | nil => rfl
  | cons e es ih => rw [gatherEntries, ih, List.flatMap_cons]

end

/-- The keys of all maps inside a value. -/
def keys (v : Value) : List String :=
  v.gather (fun k => [k]) fun _ => []

/-- The captured paths inside a value. -/
def paths (v : Value) : List Path :=
  v.gather (fun _ => []) fun
    | .path p => [p]
    | _ => []

/-- The numbers inside a value that may have a fraction. -/
def floats (v : Value) : List Binary64 :=
  v.gather (fun _ => []) fun
    | .float x => [x]
    | _ => []

@[simp] theorem keys_null : Value.null.keys = [] := rfl

@[simp] theorem keys_bool : (Value.bool b).keys = [] := rfl

@[simp] theorem keys_string : (Value.string s).keys = [] := rfl

@[simp] theorem keys_path : (Value.path p).keys = [] := rfl

@[simp] theorem keys_list (items : List Value) : (Value.list items).keys = items.flatMap keys :=
  gather_list _ _ items

@[simp] theorem keys_map (entries : List (String × Value)) :
    (Value.map entries).keys = entries.flatMap fun e => e.1 :: e.2.keys :=
  gather_map _ _ entries

@[simp] theorem paths_null : Value.null.paths = [] := rfl

@[simp] theorem paths_bool : (Value.bool b).paths = [] := rfl

@[simp] theorem paths_string : (Value.string s).paths = [] := rfl

@[simp] theorem paths_list (items : List Value) : (Value.list items).paths = items.flatMap paths :=
  gather_list _ _ items

@[simp] theorem paths_map (entries : List (String × Value)) :
    (Value.map entries).paths = entries.flatMap fun e => e.2.paths :=
  gather_map _ _ entries

@[simp] theorem paths_path (p : Path) : (Value.path p).paths = [p] := rfl

@[simp] theorem floats_list (items : List Value) :
    (Value.list items).floats = items.flatMap floats :=
  gather_list _ _ items

@[simp] theorem floats_map (entries : List (String × Value)) :
    (Value.map entries).floats = entries.flatMap fun e => e.2.floats :=
  gather_map _ _ entries

@[simp] theorem floats_float (x : Binary64) : (Value.float x).floats = [x] := rfl

end AccessRules.Value
