import DocClient.Destination
import DocClient.Wire.Cursor

/-!
Iterators: the documents of a result one at a time. The first error is kept and ends the iteration; the
end of the result is no error.
-/
namespace DocClient

/-- An iterator over a source. A closed one has let go of its source. -/
structure Iter (σ : Type) where
  source : Option σ
  err : Option Error
  ended : Bool

namespace Iter

variable {σ α : Type}

def ofSource (source : σ) : Iter σ := ⟨some source, none, false⟩

def failed (e : Error) : Iter σ := ⟨none, some e, true⟩

def ofOpened : Except Error σ → Iter σ
  | .ok source => ofSource source
  | .error e => failed e

def isOpen (it : Iter σ) : Bool := it.source.isSome

def isDone (it : Iter σ) : Bool := it.ended || it.err.isSome

def pulled (it : Iter σ) : Except Error (Option Document) × σ → Option Value × Iter σ
  | (.ok (some doc), source) => (some (Value.ofDocument doc), { it with source := some source })
  | (.ok none, source) => (none, { it with source := some source, ended := true })
  | (.error e, source) => (none, { it with source := some source, err := some e })

def nextValue [Source σ] (it : Iter σ) : Program (Option Value × Iter σ) :=
  if it.isDone then .done (none, it)
  else
    match it.source with
    | none => .done (none, { it with ended := true })
    | some source => (Source.pull source).bind fun r => .done (it.pulled r)

/-- Decodes the next document into a place: whether there was one, and what the place holds now. -/
def next [Source σ] [Destination α] (it : Iter σ) (previous : α) : Program (Bool × α × Iter σ) := do
  let (v, it) ← it.nextValue
  match v with
  | none => return (false, previous, it)
  | some v =>
    match decodeInto v previous with
    | (.ok (), a) => return (true, a, it)
    | (.error e, a) => return (false, a, { it with err := some e })

def close (it : Iter σ) : Except Error Unit × Iter σ :=
  (match it.err with
    | some e => .error e
    | none => .ok (),
   { it with source := none, ended := true })

def drain [Source σ] (rounds : Nat) (it : Iter σ) : Program (List Value × Iter σ) :=
  match rounds with
  | 0 => .exhausted
  | rounds + 1 => do
    let (v, it) ← it.nextValue
    match v with
    | none => return ([], it)
    | some v =>
      let (vs, it) ← drain rounds it
      return (v :: vs, it)

/-- Decodes the documents that are left into a list, and closes. -/
def all [Source σ] [Destination α] (rounds : Nat) (it : Iter σ) (previous : List α) :
    Program (Except Error Unit × List α × Iter σ) := do
  let (vs, it) ← it.drain rounds
  match it.close with
  | (.error e, it) => return (.error e, previous, it)
  | (.ok (), it) =>
    let (outcome, as) := decodeEachInto vs previous
    return (outcome, as, it)

end Iter

structure Delayed where
  millis : Nat
  outcome : Except Failure Document

/-- Delayed documents in a row. One that comes too late is gone all the same. -/
instance : Source (List Delayed) :=
  ⟨fun
    | [] => .done (.ok none, [])
    | d :: rest => .done (Deadline.short.bounded d.millis (d.outcome.map some), rest)⟩

end DocClient
