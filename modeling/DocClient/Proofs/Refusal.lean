import DocClient.Query.Basic
import DocClient.Update

/-! Which arguments are refused, and with what error. What a caller passes is lifted; where a document is
wanted, the lifted value has to be one, or null. -/
namespace DocClient

/-- An argument of any type that callers may pass. -/
structure Given : Type 1 where
  type : Type
  [argument : Argument type]
  value : type

attribute [instance] Given.argument

/-- What an argument is for. -/
inductive Arg : Type 1
  /-- A selector, a projection, a command, an inserted document or an update of a batch. -/
  | document (a : Given)
  /-- An identifier, or an update that may be a plain value. -/
  | value (a : Given)
  | stages (a : Given)
  | sortField (field : String)

/-- The error that an outcome is, if it is one. -/
def errorOf {α : Type} : Except Error α → Option Error
  | .error e => some e
  | .ok _ => none

namespace Value

def isDocument : Value → Bool
  | .unordered _ => true
  | .ordered _ => true
  | .other (.document _) => true
  | _ => false

/-- Where a document is wanted, anything but a document or null is refused. -/
def refusal (v : Value) : Option Error :=
  if v.isNull || v.isDocument then none else some (.invalidArgument (.notDocument v))

end Value

/-- The error that an argument is refused with. -/
def Arg.refusal : Arg → Option Error
  | .document a =>
    match lift a.value with
    | .error e => some e
    | .ok v => v.refusal
  | .value a => errorOf (lift a.value)
  | .stages a =>
    match lift a.value with
    | .error e => some e
    | .ok (.array items) => items.findSome? Value.refusal
    | .ok v => v.refusal
  | .sortField field =>
    if field ∈ ["", "+", "-"] then some (.invalidArgument (.sortKey field)) else none

section Outcomes

variable {α β : Type}

@[simp] theorem errorOf_ok (a : α) : errorOf (.ok a : Except Error α) = none := rfl

@[simp] theorem errorOf_error (e : Error) : errorOf (.error e : Except Error α) = some e := rfl

theorem errorOf_eq_some_iff {r : Except Error α} {e : Error} : errorOf r = some e ↔ r = .error e := by
  cases r <;> simp

theorem errorOf_eq_none_iff {r : Except Error α} : errorOf r = none ↔ ∃ a, r = .ok a := by
  cases r <;> simp

theorem errorOf_bind (r : Except Error α) (f : α → Except Error β) :
    errorOf (r >>= f) =
      match r with
      | .ok a => errorOf (f a)
      | .error e => some e := by
  cases r <;> rfl

theorem errorOf_map (r : Except Error α) (f : α → β) : errorOf (r.map f) = errorOf r := by
  cases r <;> rfl

/-- Of several items the first that fails is reported. -/
theorem errorOf_eachItem (f : α → Except Error β) (items : List α) :
    errorOf (eachItem f items) = items.findSome? fun a => errorOf (f a) := by
  induction items with
  | nil => rfl
  | cons a rest ih =>
    rw [eachItem, errorOf_bind, List.findSome?_cons]
    cases f a with
    | error e => rfl
    | ok b =>
      dsimp only [errorOf_ok]
      rw [errorOf_bind, ← ih]
      cases eachItem f rest <;> rfl

theorem errorOf_mapM (f : α → Except Error β) (items : List α) :
    errorOf (items.mapM f) = items.findSome? fun a => errorOf (f a) := by
  induction items with
  | nil => rfl
  | cons a rest ih =>
    rw [List.mapM_cons, errorOf_bind, List.findSome?_cons]
    cases f a with
    | error e => rfl
    | ok b =>
      dsimp only [errorOf_ok]
      rw [errorOf_bind, ← ih]
      cases rest.mapM f <;> rfl

end Outcomes

section Lifting

variable {α : Type} [Argument α] (a : α)

theorem errorOf_toDocument (v : Value) : errorOf v.toDocument = v.refusal := by
  cases v with
  | other b => cases b <;> rfl
  | _ => rfl

theorem errorOf_liftDocument : errorOf (liftDocument a) = (Arg.document ⟨α, a⟩).refusal := by
  dsimp only [liftDocument, Arg.refusal]
  rw [errorOf_bind]
  cases lift a with
  | error e => rfl
  | ok v => exact errorOf_toDocument v

theorem errorOf_idFilter : errorOf (idFilter a) = (Arg.value ⟨α, a⟩).refusal := by
  dsimp only [idFilter, Arg.refusal]
  rw [errorOf_bind]
  cases lift a <;> rfl

/-- A value that is no document is refused by no update: it is set as a whole. -/
theorem errorOf_updateDocument : errorOf (updateDocument a) = (Arg.value ⟨α, a⟩).refusal := by
  dsimp only [updateDocument, Arg.refusal]
  rw [errorOf_bind]
  cases lift a with
  | error e => rfl
  | ok v =>
    have hwrap : v.wrapInSet.isDocument = true := by
      unfold Value.wrapInSet
      split
      case isTrue h =>
        cases v with
        | other b => cases b <;> first | rfl | exact absurd h (by simp [Value.hasOperators])
        | _ => first | rfl | exact absurd h (by simp [Value.hasOperators])
      case isFalse => rfl
    dsimp only [errorOf_ok]
    rw [errorOf_toDocument, Value.refusal, hwrap, Bool.or_true, if_pos rfl]

theorem errorOf_liftPipeline : errorOf (liftPipeline a) = (Arg.stages ⟨α, a⟩).refusal := by
  have hone : ∀ v : Value, errorOf (v.toDocument >>= fun doc => .ok [doc]) = v.refusal := by
    intro v
    rw [errorOf_bind, ← errorOf_toDocument]
    cases v.toDocument <;> rfl
  dsimp only [liftPipeline, Arg.refusal]
  rw [errorOf_bind]
  cases lift a with
  | error e => rfl
  | ok v =>
    cases v with
    | array items =>
      dsimp only
      rw [errorOf_mapM]
      simp only [errorOf_toDocument]
    | null => rfl
    | _ => exact hone _

/-- A field without a name is refused. -/
theorem errorOf_parseSortField (field : String) :
    errorOf (parseSortField field) = (Arg.sortField field).refusal := by
  have hmem : field ∈ ["", "+", "-"] ↔ field.toList ∈ [[], ['+'], ['-']] := by
    simp only [List.mem_cons, List.not_mem_nil, or_false, ← String.toList_inj]
    rfl
  dsimp only [parseSortField, Arg.refusal]
  simp only [hmem]
  rcases field.toList with _ | ⟨c, rest⟩
  · rfl
  by_cases hminus : c = '-'
  · subst hminus
    cases rest <;> rfl
  by_cases hplus : c = '+'
  · subst hplus
    cases rest <;> rfl
  simp [hminus, hplus]

/-- An order keeps the error that it is given, or else the first of its own. -/
theorem sortOrder_err (fields : List String) (order : Document) (err : Option Error) :
    (Query.sortOrder fields (order, err)).2 =
      err.or (fields.findSome? fun field => (Arg.sortField field).refusal) := by
  induction fields generalizing order err with
  | nil => simp [Query.sortOrder]
  | cons field rest ih =>
    rw [List.findSome?_cons, ← errorOf_parseSortField, Query.sortOrder]
    cases parseSortField field with
    | ok parsed => exact ih _ _
    | error e =>
      dsimp only [errorOf_error]
      rw [ih]
      cases err <;> rfl

end Lifting
end DocClient
