/-!
Lists of named values. Read as an ordered document a list keeps the first place of a name and its last
value; read as an unordered one it is kept in ascending order of names, so that equal documents are
equal lists.
-/
namespace DocClient

abbrev Fields (α : Type) := List (String × α)

namespace Fields

variable {α : Type}

def names (fields : Fields α) : List String := fields.map Prod.fst

def get? (fields : Fields α) (name : String) : Option α :=
  match fields with
  | [] => none
  | (k, v) :: rest => if k = name then some v else get? rest name

def has (fields : Fields α) (name : String) : Bool := (fields.get? name).isSome

/-- Replaces the value of a name in place, or adds the name at the end. -/
def put (fields : Fields α) (name : String) (value : α) : Fields α :=
  match fields with
  | [] => [(name, value)]
  | (k, v) :: rest => if k = name then (k, value) :: rest else (k, v) :: put rest name value

/-- Puts pair by pair: each name at its first place with its last value. -/
def collect (pairs : Fields α) : Fields α :=
  pairs.foldl (fun fields (k, v) => fields.put k v) []

/-- Puts a name at its place in the ascending order, in place of an equal one. -/
def putSorted (fields : Fields α) (name : String) (value : α) : Fields α :=
  match fields with
  | [] => [(name, value)]
  | (k, v) :: rest =>
    if name = k then (name, value) :: rest
    else if name < k then (name, value) :: (k, v) :: rest
    else (k, v) :: putSorted rest name value

/-- The unordered document of some pairs: ascending names, each with its last value. -/
def collectSorted (pairs : Fields α) : Fields α :=
  pairs.foldl (fun fields (k, v) => fields.putSorted k v) []

/-- Whether no name occurs twice. -/
def distinct (fields : Fields α) : Bool :=
  match fields with
  | [] => true
  | (k, _) :: rest => !has rest k && distinct rest

def ascending (fields : Fields α) : Bool :=
  match fields with
  | [] => true
  | (k, _) :: rest => (names rest).head?.all (k < ·) && ascending rest

/-- In ascending order of names, those of one name as they were. -/
def byName (fields : Fields α) : Fields α := fields.mergeSort fun a b => a.1 ≤ b.1

@[simp] theorem names_nil : names ([] : Fields α) = [] := rfl

@[simp] theorem names_cons (k : String) (v : α) (rest : Fields α) :
    names ((k, v) :: rest) = k :: names rest := rfl

@[simp] theorem get?_nil (name : String) : get? ([] : Fields α) name = none := rfl

@[simp] theorem put_nil (name : String) (v : α) : put [] name v = [(name, v)] := rfl

theorem get?_put_self (fields : Fields α) (name : String) (v : α) :
    (fields.put name v).get? name = some v := by
  induction fields with
  | nil => simp [put, get?]
  | cons p rest ih => by_cases h : p.1 = name <;> simp [put, get?, h, ih]

/-- Other names keep what they had. -/
theorem get?_put_of_ne (fields : Fields α) {name other : String} (v : α) (h : other ≠ name) :
    (fields.put name v).get? other = fields.get? other := by
  induction fields with
  | nil => simp [put, get?, Ne.symm h]
  | cons p rest ih =>
    obtain ⟨k, w⟩ := p
    by_cases hk : k = name
    · subst hk
      simp [put, get?, Ne.symm h]
    · simp [put, get?, hk, ih]

end Fields
end DocClient
