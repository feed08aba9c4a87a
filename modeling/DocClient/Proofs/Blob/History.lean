import DocClient.Blob.Store
import DocClient.Proofs.Collection.Insert
import Mathlib.Data.List.TakeWhile

/-! Histories of files that are written: writes, setters and closes in any order, with what came of them. -/
namespace DocClient.Blob

/-- What is done with a file, and what came of it. -/
inductive Event : Type 1
  | write (data : Bytes) (outcome : Except Error Nat)
  | setId {α : Type} [Argument α] (id : α)
  | setName (name : String)
  | setContentType (contentType : String)
  | setUploaded (uploaded : Time)
  | setChunkSize (size : Nat)
  | setMetadata {α : Type} [Argument α] (metadata : α)
  | close (log : List Exchange) (outcome : Except Error Unit)

namespace Event

def accepted : Event → Bytes
  | write data (.ok _) => data
  | _ => []

def isClose : Event → Bool
  | close _ _ => true
  | _ => false

def finishes : Event → Bool
  | close _ (.ok ()) => true
  | _ => false

/-- An event that no argument of a caller can make fail. -/
def isPlain : Event → Bool
  | setId _ => false
  | setMetadata _ => false
  | _ => true

def log : Event → List Exchange
  | close log _ => log
  | _ => []

/-- The identifier in force after an event. -/
def identify (e : Event) (id : Value) : Value :=
  match e with
  | @setId _ _ v => match lift v with
    | .ok id => id
    | .error _ => id
  | _ => id

/-- The size that is asked for after an event. -/
def resize (e : Event) (size : Nat) : Nat :=
  match e with
  | setChunkSize n => if 0 < n then n else size
  | _ => size

@[simp] theorem finishes_close (log : List Exchange) (r : Except Error Unit) :
    (close log r).finishes = true ↔ r = .ok () := by
  cases r <;> simp [finishes]

def Stores (e : Event) (s : Store) : Prop := ∃ x ∈ e.log, x.Completes s.chunks

end Event

def accepted (es : List Event) : Bytes := es.flatMap Event.accepted

/-- The data that was accepted before the first close. -/
def early (es : List Event) : Bytes := accepted (es.takeWhile (!·.isClose))

/-- The size of chunks that is asked for before the first data. -/
def requested (es : List Event) : Nat :=
  (es.takeWhile (·.accepted.isEmpty)).foldl (fun size e => e.resize size) defaultChunkSize

def identified (id : Value) (es : List Event) : Value := es.foldl (fun id e => e.identify id) id

namespace File

/-- An event that happens to a file and what it makes of it. -/
def Does (f : File) : Event → File → Prop
  | .write data outcome, g => f.write data = (outcome, g)
  | @Event.setId _ _ id, g => g = f.setId id
  | .setName name, g => g = f.setName name
  | .setContentType contentType, g => g = f.setContentType contentType
  | .setUploaded uploaded, g => g = f.setUploaded uploaded
  | .setChunkSize size, g => g = f.setChunkSize size
  | @Event.setMetadata _ _ metadata, g => g = f.setMetadata metadata
  | .close log outcome, g => ∃ fresh, (f.close fresh).Plays log (outcome, g)

/-- A history of a file and what it makes of it. -/
inductive Ran (f : File) : List Event → File → Prop
  | nil : Ran f [] f
  | snoc {es : List Event} {e : Event} {g h : File} (before : Ran f es g) (last : g.Does e h) :
      Ran f (es ++ [e]) h

end File

theorem accepted_append (es es' : List Event) : accepted (es ++ es') = accepted es ++ accepted es' :=
  List.flatMap_append

theorem accepted_snoc (es : List Event) (e : Event) : accepted (es ++ [e]) = accepted es ++ e.accepted := by
  simp [accepted]

theorem identified_snoc (id : Value) (es : List Event) (e : Event) :
    identified id (es ++ [e]) = e.identify (identified id es) := by
  simp [identified]

theorem identified_of_plain {es : List Event} (h : ∀ e ∈ es, e.isPlain = true) (id : Value) :
    identified id es = id := by
  induction es generalizing id with
  | nil => rfl
  | cons e es ih =>
    simp only [List.forall_mem_cons] at h
    have he : e.identify id = id := by
      cases e with
      | @setId α inst v => cases h.1
      | _ => rfl
    rw [identified, List.foldl_cons, he]
    exact ih h.2 id

theorem early_append_of_forall {es : List Event} (h : ∀ e ∈ es, e.isClose = false) (more : List Event) :
    early (es ++ more) = accepted es ++ early more := by
  unfold early
  rw [List.takeWhile_append_of_pos (by simpa using h), accepted_append]

private theorem takeWhile_append_of_exists {p : Event → Bool} {es : List Event} (h : ∃ e ∈ es, p e = false)
    (more : List Event) : (es ++ more).takeWhile p = es.takeWhile p := by
  induction es with
  | nil => simp at h
  | cons e es ih =>
    cases he : p e with
    | false => simp [he]
    | true =>
      have hrest : ∃ e ∈ es, p e = false := by simpa [he] using h
      simp [he, ih hrest]

theorem early_append_of_exists {es : List Event} (h : ∃ e ∈ es, e.isClose = true) (more : List Event) :
    early (es ++ more) = early es :=
  congrArg accepted (takeWhile_append_of_exists (by simpa using h) more)

/-- A size that is asked for after the first data does not count. -/
theorem requested_snoc (es : List Event) (e : Event) :
    requested (es ++ [e]) = if accepted es = [] then e.resize (requested es) else requested es := by
  -- The sizes that count end with the first data, so it matters whether there was any.
  by_cases h : ∃ e ∈ es, e.accepted.isEmpty = false
  · have hne : accepted es ≠ [] := by
      simpa [accepted, List.flatMap_eq_nil_iff] using h
    rw [if_neg hne, requested, takeWhile_append_of_exists h]
    rfl
  · have hall : ∀ e ∈ es, e.accepted.isEmpty = true := by simpa using h
    have hnil : accepted es = [] := by
      simpa [accepted, List.flatMap_eq_nil_iff] using hall
    have hsame : es.takeWhile (·.accepted.isEmpty) = es := List.takeWhile_eq_self_iff.mpr hall
    rw [if_pos hnil, requested, requested, List.takeWhile_append_of_pos hall, hsame, List.foldl_append]
    cases e with
    | write data outcome =>
      cases hdata : (Event.write data outcome).accepted.isEmpty <;> simp [hdata, Event.resize]
    | _ => rfl

@[simp] theorem accepted_snoc_close (es : List Event) (log : List Exchange) (r : Except Error Unit) :
    accepted (es ++ [.close log r]) = accepted es := by
  rw [accepted_snoc]
  exact List.append_nil _

@[simp] theorem early_snoc_close (es : List Event) (log : List Exchange) (r : Except Error Unit) :
    early (es ++ [.close log r]) = early es := by
  by_cases h : ∃ e ∈ es, e.isClose = true
  · exact early_append_of_exists h _
  · have hall : ∀ e ∈ es, e.isClose = false := by simpa using h
    have hnone := early_append_of_forall hall []
    rw [List.append_nil] at hnone
    rw [early_append_of_forall hall, hnone]
    rfl

theorem early_prefix (es : List Event) : early es <+: accepted es := by
  refine ⟨accepted (es.dropWhile (!·.isClose)), ?_⟩
  rw [early, ← accepted_append, List.takeWhile_append_dropWhile]

namespace File

variable {f g : File} {e : Event} {es : List Event}

theorem ran_snoc {h : File} : f.Ran (es ++ [e]) h ↔ ∃ g, f.Ran es g ∧ g.Does e h := by
  constructor
  · intro hran
    generalize hall : es ++ [e] = all at hran
    cases hran with
    | nil => simp at hall
    | @snoc es' e' g h before last =>
      obtain ⟨rfl, he⟩ := List.append_inj' hall rfl
      obtain rfl := List.singleton_inj.mp he
      exact ⟨g, before, last⟩
  · rintro ⟨g, before, last⟩
    exact .snoc before last

theorem ran_append {es' : List Event} : f.Ran (es ++ es') g ↔ ∃ k, f.Ran es k ∧ k.Ran es' g := by
  constructor
  · intro hran
    generalize hall : es ++ es' = all at hran
    induction hran generalizing es' with
    | nil =>
      obtain ⟨rfl, rfl⟩ := List.append_eq_nil_iff.mp hall
      exact ⟨f, .nil, .nil⟩
    | @snoc all e g h before last ih =>
      obtain rfl | ⟨rest, e', rfl⟩ := List.eq_nil_or_concat es'
      · rw [List.append_nil] at hall
        exact ⟨h, hall ▸ .snoc before last, .nil⟩
      · rw [List.concat_eq_append, ← List.append_assoc] at hall
        obtain ⟨hinit, he⟩ := List.append_inj' hall rfl
        obtain rfl := List.singleton_inj.mp he
        obtain ⟨k, hfirst, hrest⟩ := ih hinit
        rw [List.concat_eq_append]
        exact ⟨k, hfirst, .snoc hrest last⟩
  · rintro ⟨k, hfirst, hrest⟩
    induction hrest with
    | nil => rw [List.append_nil]; exact hfirst
    | snoc before last ih =>
      rw [← List.append_assoc]
      exact .snoc ih last

end File
end DocClient.Blob
