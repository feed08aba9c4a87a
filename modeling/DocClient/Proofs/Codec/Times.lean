import DocClient.Example.Records
import DocClient.Proofs.Codec.Marked
import DocClient.Proofs.Codec.Records
import DocClient.Proofs.NormalForm

/-! Values that are read as times, alone, in a list and in the fields of a record. Main statement:
`Value.times_agree`, by which every way gives the same time up to whole milliseconds, or none does. Documents with a
marked name are apart: fields are read from the node that the codec takes such a document for. -/
namespace DocClient

/-! ### Values that were sent, and server values that were read -/

namespace Bson

/-- What an optional time is read as. -/
def toTimeOrNone? : Bson → Option (Option Time)
  | .null | .undefined => some none
  | b => b.toTime?.map some

/-- A server value is the same time once it was read. -/
theorem toTime?_inbound (b : Bson) : b.inbound.toTime? = b.toTime? := by
  cases b with
  | binary subtype bytes =>
    rw [inbound]
    split <;> rfl
  | _ => rfl

theorem toTime?_written (b : Bson) : b.written.toTime? = b.toTime? := by
  cases b <;> rfl

theorem toTimeOrNone?_written (b : Bson) : b.written.toTimeOrNone? = b.toTimeOrNone? := by
  cases b <;> rfl

theorem toTime?_of_hasParts {b : Bson} (h : b.hasParts = true) : b.toTime? = none := by
  cases b <;> first | rfl | cases h

theorem toTimeOrNone?_of_hasParts {b : Bson} (h : b.hasParts = true) : b.toTimeOrNone? = none := by
  cases b <;> first | rfl | cases h

/-- The time of what the codec makes of a node. -/
def seenTime? (b : Bson) : Option Time := b.visited.toOption.bind toTime?

/-- The optional time of what the codec makes of a node. -/
def seenTimeOrNone? (b : Bson) : Option (Option Time) := b.visited.toOption.bind toTimeOrNone?

section Seen

variable {b : Bson} (h : b.isMarked = false)

include h

/-- The codec sees another time only in documents with a marked name. -/
theorem seenTime?_of_not_isMarked : b.seenTime? = b.toTime? := by
  unfold seenTime?
  by_cases hparts : b.hasParts = true
  · rw [toTime?_of_hasParts hparts]
    cases hnode : b.visited with
    | error cause => rfl
    | ok node => exact toTime?_of_hasParts (hasParts_of_visited hparts h hnode)
  · rw [visited_of_not_hasParts (Bool.not_eq_true _ ▸ hparts)]
    rfl

theorem seenTimeOrNone?_of_not_isMarked : b.seenTimeOrNone? = b.toTimeOrNone? := by
  unfold seenTimeOrNone?
  by_cases hparts : b.hasParts = true
  · rw [toTimeOrNone?_of_hasParts hparts]
    cases hnode : b.visited with
    | error cause => rfl
    | ok node => exact toTimeOrNone?_of_hasParts (hasParts_of_visited hparts h hnode)
  · rw [visited_of_not_hasParts (Bool.not_eq_true _ ▸ hparts)]
    rfl

end Seen

end Bson

namespace Value

/-- The time that a value is read as after it was sent: times have whole milliseconds then. -/
def keptTime? : Value → Option Time
  | .time t => some t.keptMillis
  | v => v.toTime?

/-- The optional time that a value is read as after it was sent. -/
def keptTimeOrNone? : Value → Option (Option Time)
  | .null | .other .null | .other .undefined => some none
  | v => v.keptTime?.map some

variable {v : Value}

theorem toTime?_outbound (h : v.isWellFormed = true) : v.outbound.toTime? = v.keptTime? := by
  cases v with
  | time t =>
    rw [isWellFormed, decide_eq_true_eq] at h
    have hclamped : Time.ofMillisClamped (Int64.ofInt t.millis).toInt = t.keptMillis := by
      rw [Time.toInt_millis h, Time.ofMillisClamped_millis h]
    exact congrArg some hclamped
  | objectId id =>
    rw [outbound]
    split <;> rfl
  | _ => rfl

theorem toTimeOrNone?_outbound (h : v.isWellFormed = true) : v.outbound.toTimeOrNone? = v.keptTimeOrNone? := by
  cases v with
  | time t => exact congrArg (Option.map some) (toTime?_outbound h)
  | objectId id =>
    rw [outbound]
    split <;> rfl
  | other b => cases b <;> rfl
  | _ => rfl

end Value

/-! ### Times alone and in lists -/

namespace Value

theorem toOption_toTime (v : Value) : v.toTime.toOption = v.toTime? := by
  unfold toTime
  cases v.toTime? <;> rfl

theorem toOption_decode_time (v : Value) : (decode v : Except Error Time).toOption = v.toTime? := by
  rw [← v.toOption_toTime]
  cases v <;> rfl

theorem toOption_decode_times (vs : List Value) :
    (decode (.array vs) : Except Error (List Time)).toOption = vs.mapM toTime? := by
  have hitems : (decode (.array vs) : Except Error (List Time)) = eachItem toTime vs := rfl
  rw [hitems, toOption_eachItem]
  exact congrArg (vs.mapM ·) (funext toOption_toTime)

end Value

/-! ### Times in the fields of a record -/

section Outcomes

variable {α β γ : Type}

theorem toOption_bind {ε : Type} (outcome : Except ε α) (f : α → Except ε β) :
    (outcome >>= f).toOption = outcome.toOption.bind fun a => (f a).toOption := by
  cases outcome <;> rfl

/-- Two traversals, one after the other, are one traversal. -/
theorem mapM_bind_mapM (f : α → Option β) (g : β → Option γ) (as : List α) :
    (as.mapM f).bind (·.mapM g) = as.mapM fun a => (f a).bind g := by
  induction as with
  | nil => rfl
  | cons a rest ih =>
    rw [List.mapM_cons, List.mapM_cons, ← ih]
    cases f a with
    | none => rfl
    | some b =>
      cases hrest : rest.mapM f with
      | none => cases hb : g b <;> simp [hb]
      | some bs => simp [List.mapM_cons]

end Outcomes

theorem TimeField.toOption_ofBson (b : Bson) : (ofBson b).toOption = b.toTime? := by
  unfold ofBson
  cases b.toTime? <;> rfl

theorem TimeField.toOption_read (b : Bson) : (read b).toOption = b.seenTime? := by
  unfold read
  rw [toOption_bind]
  exact congrArg b.visited.toOption.bind (funext toOption_ofBson)

theorem OptionalTimeField.toOption_ofBson (b : Bson) : (ofBson b).toOption = b.toTimeOrNone? := by
  have hmap : ((TimeField.ofBson b).map some).toOption = b.toTime?.map some := by
    rw [← TimeField.toOption_ofBson]
    cases TimeField.ofBson b <;> rfl
  cases b with
  | null => rfl
  | undefined => rfl
  | _ => exact hmap

theorem OptionalTimeField.toOption_read (b : Bson) : (read b).toOption = b.seenTimeOrNone? := by
  unfold read
  rw [toOption_bind]
  exact congrArg b.visited.toOption.bind (funext toOption_ofBson)

theorem Bson.toOption_visitedItems (items : List Bson) :
    (visitedItems items).toOption = items.mapM fun b => b.visited.toOption := by
  rw [visitedItems_eq_eachItem, toOption_eachItem]

theorem TimesField.toOption_read_array (items : List Bson) :
    (read (.array items)).toOption = items.mapM Bson.seenTime? := by
  have hitems (seen : List Bson) : (ofBson (.array seen)).toOption = seen.mapM Bson.toTime? := by
    rw [ofBson, decodeItems_eq_eachItem, toOption_eachItem]
    exact congrArg (seen.mapM ·) (funext TimeField.toOption_ofBson)
  unfold read
  rw [toOption_bind, Bson.visited]
  calc
    ((Bson.visitedItems items).map Bson.array).toOption.bind (fun b => (ofBson b).toOption)
      = (Bson.visitedItems items).toOption.bind fun seen => seen.mapM Bson.toTime? := by
        cases Bson.visitedItems items with
        | error cause => rfl
        | ok seen => exact hitems seen
    _ = items.mapM Bson.seenTime? := by
        rw [Bson.toOption_visitedItems, mapM_bind_mapM]
        rfl

namespace Value

/-- The time that a field is read from once a value was sent for it. -/
def fieldTime? (v : Value) : Option Time := v.outbound.written.seenTime?

/-- The optional time that a field is read from once a value was sent for it. -/
def fieldTimeOrNone? (v : Value) : Option (Option Time) := v.outbound.written.seenTimeOrNone?

section Field

variable {v : Value} (h : v.isWellFormed = true) (hmarked : v.outbound.isMarked = false)

include h hmarked

theorem fieldTime?_of_not_isMarked : v.fieldTime? = v.keptTime? := by
  unfold fieldTime?
  rw [Bson.seenTime?_of_not_isMarked (v.outbound.isMarked_written.trans hmarked), Bson.toTime?_written,
    toTime?_outbound h]

theorem fieldTimeOrNone?_of_not_isMarked : v.fieldTimeOrNone? = v.keptTimeOrNone? := by
  unfold fieldTimeOrNone?
  rw [Bson.seenTimeOrNone?_of_not_isMarked (v.outbound.isMarked_written.trans hmarked), Bson.toTimeOrNone?_written,
    toTimeOrNone?_outbound h]

end Field

theorem mapM_seenTime?_outboundItems (vs : List Value) :
    (Bson.writtenItems (outboundItems vs)).mapM Bson.seenTime? = vs.mapM fieldTime? := by
  rw [Bson.writtenItems_eq_map, outboundItems_eq_map, List.map_map, List.mapM_map]
  rfl

/-- A value is the same time before and after it is sent, but for what a time has beyond whole milliseconds; a
server value is the same time before and after it is read. Alone and in a list a value is decoded to its own time.
From a document that is sent with the value under a name, a record is decoded to the time that a field is read from,
wherever it declares a time, an optional time or a list of times under that name. That is the time after sending,
unless the value is sent as a document with a marked name. -/
theorem times_agree {v : Value} (h : v.isWellFormed = true) :
    v.outbound.toTime? = v.keptTime? ∧ (∀ b : Bson, b.inbound.toTime? = b.toTime?) ∧
      (decode v : Except Error Time).toOption = v.toTime? ∧
      (∀ vs : List Value, (decode (.array vs) : Except Error (List Time)).toOption = vs.mapM toTime?) ∧
      (∀ w : Value, w.isWellFormed = true → w.outbound.isMarked = false →
        w.fieldTime? = w.keptTime? ∧ w.fieldTimeOrNone? = w.keptTimeOrNone?) ∧
      ∀ (ρ : Type) [Destination ρ] (name : String) (src : Value) (doc : Document), src.isWellFormed = true →
        src.outboundDocument? = some doc → doc.get? name = some v.outbound →
          (∀ (held : ρ → Time) (decl : DeclaresField ρ name TimeField.read held), decl.OthersReadable doc.written →
            (decode src : Except Error ρ).toOption.map held = v.fieldTime?) ∧
          (∀ (held : ρ → Option Time) (decl : DeclaresField ρ name OptionalTimeField.read held),
            decl.OthersReadable doc.written →
              (decode src : Except Error ρ).toOption.map held = v.fieldTimeOrNone?) ∧
          ∀ (held : ρ → List Time) (decl : DeclaresField ρ name TimesField.read held),
            decl.OthersReadable doc.written → ∀ vs, v = .array vs →
              (decode src : Except Error ρ).toOption.map held = vs.mapM fieldTime? := by
  refine ⟨toTime?_outbound h, Bson.toTime?_inbound, v.toOption_decode_time, toOption_decode_times, ?kept, ?fields⟩
  case kept =>
    intro w hw hmarked
    exact ⟨fieldTime?_of_not_isMarked hw hmarked, fieldTimeOrNone?_of_not_isMarked hw hmarked⟩
  case fields =>
    intro ρ _ name src doc hsrc hdoc hget
    have houtbound : src.outbound = .ofDocument doc := outbound_of_outboundDocument? hdoc
    have hnodup : doc.names.Nodup := nodup_of_outboundDocument? hsrc hdoc
    refine ⟨?time, ?optional, ?times⟩
    case time =>
      intro held decl hothers
      rw [decl.toOption_decode houtbound hnodup hget hothers, TimeField.toOption_read]
      rfl
    case optional =>
      intro held decl hothers
      rw [decl.toOption_decode houtbound hnodup hget hothers, OptionalTimeField.toOption_read]
      rfl
    case times =>
      rintro held decl hothers vs rfl
      rw [decl.toOption_decode houtbound hnodup hget hothers, outbound, Bson.written, TimesField.toOption_read_array,
        mapM_seenTime?_outboundItems]

end Value

namespace Example.Event

def declaresStart : DeclaresField Event "at" TimeField.read Event.start where
  default := .default
  records := fields
  set t e := { e with start := t }
  required := true
  decoded := rfl
  reads _ := rfl
  field := rfl
  held_set _ _ := rfl
  frame := by
    intro f hf hne
    simp only [fields, List.mem_cons, List.not_mem_nil, or_false] at hf
    rcases hf with rfl | rfl | rfl
    · exact absurd rfl hne
    · exact RecordField.frame_optional fun _ _ => rfl
    · exact RecordField.frame_optional fun _ _ => rfl

def declaresEnds : DeclaresField Event "ends" OptionalTimeField.read Event.ends where
  default := .default
  records := fields
  set ends e := { e with ends }
  required := false
  decoded := rfl
  reads _ := rfl
  field := rfl
  held_set _ _ := rfl
  frame := by
    intro f hf hne
    simp only [fields, List.mem_cons, List.not_mem_nil, or_false] at hf
    rcases hf with rfl | rfl | rfl
    · exact RecordField.frame_mandatory fun _ _ => rfl
    · exact absurd rfl hne
    · exact RecordField.frame_optional fun _ _ => rfl

def declaresReminders : DeclaresField Event "reminders" TimesField.read Event.reminders where
  default := .default
  records := fields
  set reminders e := { e with reminders }
  required := false
  decoded := rfl
  reads _ := rfl
  field := rfl
  held_set _ _ := rfl
  frame := by
    intro f hf hne
    simp only [fields, List.mem_cons, List.not_mem_nil, or_false] at hf
    rcases hf with rfl | rfl | rfl
    · exact RecordField.frame_mandatory fun _ _ => rfl
    · exact RecordField.frame_optional fun _ _ => rfl
    · exact absurd rfl hne

/-- A document under whose only name, a marked one, is a whole number as text. -/
def marked : Value := .ordered [("$numberLong", .string "1000")]

/-- A leap second at the end of the calendar is sent as a date beyond it, and a document with a marked name is a time
in a record's field alone. -/
theorem routes_part :
    ((Value.time ⟨8210266876799, 1500000000⟩).isWellFormed = true ∧
        (Value.time ⟨8210266876799, 1500000000⟩).outbound.toTime? = some .latest ∧
        Time.wholeMillis ⟨8210266876799, 1500000000⟩ ≠ .latest) ∧
      marked.isWellFormed = true ∧ (decode marked : Except Error Time).toOption = none ∧
      (decode (.ordered [("at", marked)]) : Except Error Event).toOption.map Event.start = some ⟨1, 0⟩ := by
  refine ⟨⟨by decide, by decide, by decide⟩, by decide, rfl, rfl⟩

/-- An event with a leap second, no time of its end, and reminders in three forms. -/
def leap : Value := .ordered [("at", .time ⟨59, 1500000000⟩), ("ends", .other .undefined),
  ("reminders", .array [.int32 5, .time ⟨59, 1500000000⟩, .string "1970-01-01T00:01:00Z"])]

def leapSent : Document := ⟨[("at", .dateTime 60500), ("ends", .undefined),
  ("reminders", .array [.int32 5, .dateTime 60500, .string "1970-01-01T00:01:00Z"])]⟩

theorem leapSent_readable : ∀ f ∈ fields, (f.required = true → f.name ∈ leapSent.written.names) ∧
    ∀ b, leapSent.written.get? f.name = some b → ∀ r, ∃ r', f.set b r = .ok r' := by
  intro f hf
  simp only [fields, List.mem_cons, List.not_mem_nil, or_false] at hf
  rcases hf with rfl | rfl | rfl
  all_goals
    refine ⟨fun _ => by decide, ?_⟩
    intro b hb r
    obtain rfl := Option.some.inj hb
    exact ⟨_, rfl⟩

/-- The leap second runs on into the next second wherever it was sent, and an undefined end is none. -/
theorem leap_times_agree :
    (decode (.time ⟨59, 1500000000⟩) : Except Error Time).toOption = some ⟨59, 1500000000⟩ ∧
      (decode leap : Except Error Event).toOption.map Event.start = some ⟨60, 500000000⟩ ∧
      (decode leap : Except Error Event).toOption.map Event.ends = some none ∧
      (decode leap : Except Error Event).toOption.map Event.reminders =
        some [⟨0, 5000000⟩, ⟨60, 500000000⟩, ⟨60, 0⟩] := by
  have hleap : leap.isWellFormed = true := by decide
  have hsent : leap.outboundDocument? = some leapSent := by decide
  obtain ⟨-, -, hdecoded, -, -, hstart⟩ := Value.times_agree (v := .time ⟨59, 1500000000⟩) (by decide)
  obtain ⟨-, -, -, -, -, hends⟩ := Value.times_agree (v := .other .undefined) rfl
  obtain ⟨-, -, -, -, -, hreminders⟩ := Value.times_agree
    (v := .array [.int32 5, .time ⟨59, 1500000000⟩, .string "1970-01-01T00:01:00Z"]) (by decide)
  refine ⟨hdecoded, ?start, ?ends, ?reminders⟩
  case start =>
    exact (hstart Event "at" leap leapSent hleap hsent rfl).1 _ declaresStart fun f hf _ => leapSent_readable f hf
  case ends =>
    exact (hends Event "ends" leap leapSent hleap hsent rfl).2.1 _ declaresEnds fun f hf _ => leapSent_readable f hf
  case reminders =>
    exact (hreminders Event "reminders" leap leapSent hleap hsent rfl).2.2 _ declaresReminders
      (fun f hf _ => leapSent_readable f hf) _ rfl

end Example.Event

end DocClient
