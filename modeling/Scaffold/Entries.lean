/-!
# Entries in order of insertion

Association lists with text keys that remember the order in which their keys first came.
`put` gives an old key a new value in its old place and a new key the last place, so a list
built by `ofList` holds every key once, at the place of its first and with the value of its
last mention.
-/

namespace Scaffold.Entries

variable {α : Type}

def put (entries : List (String × α)) (key : String) (value : α) : List (String × α) :=
  match entries with
  | [] => [(key, value)]
  | (k, v) :: rest => if k == key then (k, value) :: rest else (k, v) :: put rest key value

def putAll (entries more : List (String × α)) : List (String × α) :=
  more.foldl (fun acc e ↦ put acc e.1 e.2) entries

def ofList (entries : List (String × α)) : List (String × α) := putAll [] entries

def get? (entries : List (String × α)) (key : String) : Option α := entries.lookup key

@[simp] theorem put_nil (key : String) (value : α) : put [] key value = [(key, value)] := rfl

/-- An old key keeps its place, a new one comes last. -/
theorem keys_put (entries : List (String × α)) (key : String) (value : α) :
    (put entries key value).map Prod.fst =
      if key ∈ entries.map Prod.fst then entries.map Prod.fst
      else entries.map Prod.fst ++ [key] := by
  induction entries with
  | nil => simp
  | cons e rest ih =>
    by_cases h : e.1 = key
    · simp [put, h]
    · have h' : ¬ key = e.1 := fun k ↦ h k.symm
      simp only [put, beq_iff_eq, h, if_false, List.map_cons, ih, List.mem_cons, h', false_or]
      split <;> simp_all

theorem get?_put_self (entries : List (String × α)) (key : String) (value : α) :
    get? (put entries key value) key = some value := by
  induction entries with
  | nil => simp [get?]
  | cons e rest ih =>
    unfold get? at ih ⊢
    by_cases h : e.1 = key
    · simp [put, h]
    · have h' : (key == e.1) = false := by simpa using fun k ↦ h k.symm
      rw [put, if_neg (by simpa using h), List.lookup_cons, h']
      exact ih

end Scaffold.Entries
