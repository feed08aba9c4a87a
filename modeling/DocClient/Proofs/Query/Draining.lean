import DocClient.Proofs.Outcomes
import DocClient.Proofs.Query.Iteration

/-! What is left of an iterator, read at once or document by document, against a server in any state. Main
statement: `drained_as_stepped`, by which both ways give the same values, and one fails exactly if the other does. -/
namespace DocClient
namespace Iter

section Draining

variable {σ τ α : Type} [Source σ] [Destination α] {answer : Command → Deadline → τ → Reply × τ}
  {it it' it'' : Iter σ} {s s' s'' : τ} {docs : List Document}

/-- The documents that are still to come of an iterator, and what it is when there are no more: its stream has
ended or failed, or it was over before. -/
inductive Remaining (answer : Command → Deadline → τ → Reply × τ) : Iter σ → τ → List Document → Iter σ → τ → Prop
  | ended {it it' : Iter σ} {s s' : τ} (next : it.nextValue.run answer s = some ((none, it'), s')) :
      Remaining answer it s [] it' s'
  | document {it it' it'' : Iter σ} {s s' s'' : τ} {doc : Document} {docs : List Document}
      (next : it.nextValue.run answer s = some ((some (.ofDocument doc), it'), s'))
      (rest : Remaining answer it' s' docs it'' s'') : Remaining answer it s (doc :: docs) it'' s''

/-- Calls for one document after another: the values that they find, and what the first call leaves that finds
none. Every call is given the place as the one before it left it. -/
inductive Stepped (answer : Command → Deadline → τ → Reply × τ) :
    Iter σ → τ → α → List α → Iter σ → τ → Prop
  | ended {it it' : Iter σ} {s s' : τ} {place held : α}
      (next : (it.next place).run answer s = some ((false, held, it'), s')) : Stepped answer it s place [] it' s'
  | found {it it' it'' : Iter σ} {s s' s'' : τ} {place a : α} {as : List α}
      (next : (it.next place).run answer s = some ((true, a, it'), s'))
      (rest : Stepped answer it' s' a as it'' s'') : Stepped answer it s place (a :: as) it'' s''

/-! ### One document -/

/-- An iterator that gives a value has not failed, and the value is a document. -/
theorem of_run_nextValue {v : Value} (h : it.nextValue.run answer s = some ((some v, it'), s')) :
    ∃ doc, v = .ofDocument doc ∧ it'.err = none := by
  unfold nextValue at h
  split at h
  next => cases h
  next hopen =>
    have herr : it.err = none := err_of_not_isDone hopen
    cases hsource : it.source with
    | none =>
      rw [hsource] at h
      cases h
    | some source =>
      simp only [hsource, Program.run_bind] at h
      obtain ⟨⟨⟨outcome, left⟩, t⟩, -, hpulled⟩ := Option.bind_eq_some_iff.mp h
      have hpulled : it.pulled (outcome, left) = (some v, it') := (Prod.mk.inj (Option.some.inj hpulled)).1
      match outcome, hpulled with
      | .ok (some doc), hpulled =>
        obtain ⟨hv, rfl⟩ := Prod.mk.inj hpulled
        exact ⟨doc, (Option.some.inj hv).symm, herr⟩
      | .ok none, hpulled => cases hpulled
      | .error e, hpulled => cases hpulled

/-- What a call makes of a document that has come, or of none. -/
def stepped (place : α) (doc : Option Document) (it : Iter σ) : Bool × α × Iter σ :=
  match doc with
  | none => (false, place, it)
  | some doc =>
    match (decodeFresh (.ofDocument doc) : Except Error α) with
    | .ok a => (true, a, it)
    | .error e => (false, place, { it with err := some e })

omit [Source σ] in
theorem stepped_of_ok {doc : Document} {a : α} (h : decodeFresh (.ofDocument doc) = .ok a) (place : α) :
    stepped place (some doc) it = (true, a, it) := by
  simp only [stepped, h]

omit [Source σ] in
theorem stepped_of_error {doc : Document} {e : Error}
    (h : (decodeFresh (.ofDocument doc) : Except Error α) = .error e) (place : α) :
    stepped place (some doc) it = (false, place, { it with err := some e }) := by
  simp only [stepped, h]

/-- A call is a call for the next value and what it makes of it. -/
theorem run_next (doc : Option Document) (place : α)
    (h : it.nextValue.run answer s = some ((doc.map .ofDocument, it'), s')) :
    (it.next place).run answer s = some (stepped place doc it', s') := by
  unfold next
  rw [Program.bind_eq, Program.run_bind, h]
  cases doc with
  | none => rfl
  | some doc =>
    have hdecode : decode (Value.ofDocument doc) = (decodeFresh (.ofDocument doc) : Except Error α) := rfl
    simp only [Option.map_some, Option.bind_some, decodeInto, hdecode, stepped]
    cases decodeFresh (α := α) (Value.ofDocument doc) <;> rfl

theorem exists_of_run_next {place : α} {r : Bool × α × Iter σ} (h : (it.next place).run answer s = some (r, s')) :
    ∃ doc it', it.nextValue.run answer s = some ((Option.map .ofDocument doc, it'), s') ∧
      stepped place doc it' = r := by
  have hbind := h
  unfold next at hbind
  rw [Program.bind_eq, Program.run_bind] at hbind
  obtain ⟨⟨⟨v, it'⟩, t⟩, hnext, -⟩ := Option.bind_eq_some_iff.mp hbind
  have hdoc : ∃ doc, v = Option.map Value.ofDocument doc := by
    cases v with
    | none => exact ⟨none, rfl⟩
    | some v =>
      obtain ⟨doc, rfl, -⟩ := of_run_nextValue hnext
      exact ⟨some doc, rfl⟩
  obtain ⟨doc, rfl⟩ := hdoc
  cases h.symm.trans (run_next doc place hnext)
  exact ⟨doc, it', hnext, rfl⟩

/-! ### All documents -/

theorem exists_run_drain (h : Remaining answer it s docs it' s') :
    ∃ rounds, (it.drain rounds).run answer s = some ((docs.map .ofDocument, it'), s') := by
  induction h with
  | ended next =>
    refine ⟨1, ?_⟩
    rw [drain, Program.bind_eq, Program.run_bind, next]
    rfl
  | document next rest ih =>
    obtain ⟨rounds, hrest⟩ := ih
    refine ⟨rounds + 1, ?_⟩
    rw [drain, Program.bind_eq, Program.run_bind, next]
    simp only [Option.bind_some, Program.bind_eq, Program.run_bind, hrest]
    rfl

theorem remaining_of_run_drain {rounds : Nat} {vs : List Value}
    (h : (it.drain rounds).run answer s = some ((vs, it'), s')) :
    ∃ docs, vs = docs.map .ofDocument ∧ Remaining answer it s docs it' s' := by
  induction rounds generalizing it s vs with
  | zero => cases h
  | succ rounds ih =>
    rw [drain, Program.bind_eq, Program.run_bind] at h
    obtain ⟨⟨⟨v, left⟩, t⟩, hnext, hrest⟩ := Option.bind_eq_some_iff.mp h
    cases v with
    | none =>
      cases hrest
      exact ⟨[], rfl, .ended hnext⟩
    | some v =>
      obtain ⟨doc, rfl, -⟩ := of_run_nextValue hnext
      simp only [Program.bind_eq, Program.run_bind] at hrest
      obtain ⟨⟨⟨vs', it''⟩, t'⟩, hdrain, hlast⟩ := Option.bind_eq_some_iff.mp hrest
      cases hlast
      obtain ⟨docs, rfl, hdocs⟩ := ih hdrain
      exact ⟨doc :: docs, rfl, .document hnext hdocs⟩

/-- What is made of the documents that were left: nothing if the iterator has failed. -/
def collected (previous : List α) (docs : List Document) (it : Iter σ) : Except Error Unit × List α :=
  match it.err with
  | some e => (.error e, previous)
  | none => decodeEachInto (docs.map .ofDocument) previous

theorem exists_run_all_iff {previous : List α} {outcome : Except Error Unit} {held : List α} :
    (∃ rounds it' s', (it.all rounds previous).run answer s = some ((outcome, held, it'), s')) ↔
      ∃ docs it' s', Remaining answer it s docs it' s' ∧ collected previous docs it' = (outcome, held) := by
  have hall : ∀ (docs : List Document) (it' : Iter σ) (s' : τ) (rounds : Nat),
      (it.drain rounds).run answer s = some ((docs.map .ofDocument, it'), s') →
        (it.all rounds previous).run answer s = some (((collected previous docs it').1,
          (collected previous docs it').2, it'.close.2), s') := by
    intro docs it' s' rounds hdrain
    unfold all
    rw [Program.bind_eq, Program.run_bind, hdrain]
    obtain ⟨source, _ | e, ended⟩ := it' <;> rfl
  constructor
  · rintro ⟨rounds, it', s', h⟩
    have hbind := h
    unfold all at hbind
    rw [Program.bind_eq, Program.run_bind] at hbind
    obtain ⟨⟨⟨vs, left⟩, t⟩, hdrain, -⟩ := Option.bind_eq_some_iff.mp hbind
    obtain ⟨docs, rfl, hdocs⟩ := remaining_of_run_drain hdrain
    cases h.symm.trans (hall docs left t rounds hdrain)
    exact ⟨docs, left, _, hdocs, rfl⟩
  · rintro ⟨docs, it', s', hdocs, hcollected⟩
    obtain ⟨rounds, hdrain⟩ := exists_run_drain hdocs
    refine ⟨rounds, it'.close.2, s', ?_⟩
    rw [hall docs it' s' rounds hdrain, hcollected]

omit [Source σ] in
theorem collected_eq_ok_iff {previous ys : List α} : collected previous docs it = (.ok (), ys) ↔
    it.err = none ∧ eachItem decodeFresh (docs.map .ofDocument) = .ok ys := by
  unfold collected decodeEachInto decodeEach
  cases it.err with
  | some e => simp
  | none => cases eachItem (decodeFresh (α := α)) (docs.map .ofDocument) <;> simp [Except.map, assigned]

omit [Source σ] in
theorem held_of_collected {previous held : List α} {e : Error}
    (h : collected previous docs it = (.error e, held)) : held = previous := by
  unfold collected decodeEachInto decodeEach at h
  cases herr : it.err with
  | some e' =>
    rw [herr] at h
    exact (Prod.mk.inj h).2.symm
  | none =>
    rw [herr] at h
    cases heach : eachItem (decodeFresh (α := α)) (docs.map .ofDocument) with
    | ok ys =>
      rw [heach] at h
      cases (Prod.mk.inj h).1
    | error e' =>
      rw [heach] at h
      exact (Prod.mk.inj h).2.symm

/-! ### Document by document -/

theorem Stepped.unique {place : α} {as as' : List α} (h : Stepped answer it s place as it' s')
    (h' : Stepped answer it s place as' it'' s'') : as = as' ∧ it' = it'' ∧ s' = s'' := by
  induction h generalizing as' with
  | ended next =>
    cases h' with
    | ended next' =>
      cases next.symm.trans next'
      exact ⟨rfl, rfl, rfl⟩
    | found next' rest' => cases next.symm.trans next'
  | found next rest ih =>
    cases h' with
    | ended next' => cases next.symm.trans next'
    | found next' rest' =>
      cases next.symm.trans next'
      obtain ⟨rfl, rfl, rfl⟩ := ih rest'
      exact ⟨rfl, rfl, rfl⟩

/-- Documents that come to an end are stepped through up to the first that cannot be decoded. -/
theorem exists_stepped (h : Remaining answer it s docs it' s') (place : α) :
    ∃ as left t, Stepped answer it s place as left t ∧
      ∀ ys, left.err = none ∧ as = ys ↔ it'.err = none ∧ eachItem decodeFresh (docs.map .ofDocument) = .ok ys := by
  induction h generalizing place with
  | @ended it it' s s' next =>
    refine ⟨[], it', s', .ended (run_next none place next), fun ys => and_congr_right fun _ => ?_⟩
    exact ⟨congrArg Except.ok, Except.ok.inj⟩
  | @document it left it' s t s' doc docs next rest ih =>
    have hnext := run_next (some doc) place next
    cases hdoc : decodeFresh (α := α) (Value.ofDocument doc) with
    | error e =>
      rw [stepped_of_error hdoc] at hnext
      refine ⟨[], { left with err := some e }, t, .ended hnext, fun ys => iff_of_false nofun ?_⟩
      rintro ⟨-, hall⟩
      rw [List.map_cons, eachItem, hdoc] at hall
      cases hall
    | ok a =>
      rw [stepped_of_ok hdoc] at hnext
      obtain ⟨as, last, u, hstepped, hsame⟩ := ih a
      refine ⟨a :: as, last, u, .found hnext hstepped, fun ys => ?_⟩
      rw [List.map_cons, eachItem, hdoc]
      constructor
      · rintro ⟨herr, rfl⟩
        obtain ⟨herr', hall⟩ := (hsame as).mp ⟨herr, rfl⟩
        exact ⟨herr', by rw [hall]; rfl⟩
      · rintro ⟨herr, hall⟩
        obtain ⟨a', ha, hrest⟩ := bind_eq_ok_iff.mp hall
        obtain ⟨as', has, hys⟩ := bind_eq_ok_iff.mp hrest
        obtain ⟨herr', rfl⟩ := (hsame as').mpr ⟨herr, has⟩
        cases ha
        exact ⟨herr', Except.ok.inj hys⟩

/-- Steps that end without an error have taken every document. -/
theorem Stepped.exists_remaining {place : α} {as : List α} (h : Stepped answer it s place as it' s')
    (herr : it'.err = none) : ∃ docs, Remaining answer it s docs it' s' := by
  induction h with
  | ended next =>
    obtain ⟨_ | doc, left, hnext, hr⟩ := exists_of_run_next next
    · cases hr
      exact ⟨[], .ended hnext⟩
    · cases hdoc : decodeFresh (α := α) (Value.ofDocument doc) with
      | ok a =>
        rw [stepped_of_ok hdoc] at hr
        cases hr
      | error e =>
        rw [stepped_of_error hdoc] at hr
        cases hr
        cases herr
  | found next rest ih =>
    obtain ⟨docs, hdocs⟩ := ih herr
    obtain ⟨_ | doc, left, hnext, hr⟩ := exists_of_run_next next
    · cases hr
    · cases hdoc : decodeFresh (α := α) (Value.ofDocument doc) with
      | ok a =>
        rw [stepped_of_ok hdoc] at hr
        cases hr
        exact ⟨doc :: docs, .document hnext hdocs⟩
      | error e =>
        rw [stepped_of_error hdoc] at hr
        cases hr

/-! ### Both ways -/

/-- The stream of an iterator comes to its end, or fails, after finitely many documents. -/
def Ends (answer : Command → Deadline → τ → Reply × τ) (it : Iter σ) (s : τ) : Prop :=
  ∃ docs it' s', Remaining answer it s docs it' s'

/-- A source whose streams all come to an end or fail, whatever is answered. -/
class FiniteSource (σ : Type) [Source σ] : Prop where
  ends : ∀ {τ : Type} (answer : Command → Deadline → τ → Reply × τ) (it : Iter σ) (s : τ), it.Ends answer s

/-- Every stream of finitely many outcomes ends. -/
theorem ends_delayed (answer : Command → Deadline → τ → Reply × τ) (it : Iter (List Delayed)) (s : τ) :
    it.Ends answer s := by
  by_cases hdone : it.isDone = true
  · exact ⟨[], it, s, .ended (by rw [nextValue_of_done hdone]; rfl)⟩
  cases hsource : it.source with
  | none =>
    refine ⟨[], { it with ended := true }, s, .ended ?_⟩
    unfold nextValue
    rw [if_neg hdone, hsource]
    rfl
  | some stream =>
    induction stream generalizing it with
    | nil =>
      refine ⟨[], { it with source := some [], ended := true }, s, .ended ?_⟩
      unfold nextValue
      rw [if_neg hdone, hsource]
      rfl
    | cons d rest ih =>
      have hnext : it.nextValue = .done (it.pulled (Deadline.short.bounded d.millis (d.outcome.map some), rest)) := by
        unfold nextValue
        rw [if_neg hdone, hsource]
        rfl
      match hpulled : Deadline.short.bounded d.millis (d.outcome.map some) with
      | .error e =>
        refine ⟨[], { it with source := some rest, err := some e }, s, .ended ?_⟩
        rw [hnext, hpulled]
        rfl
      | .ok none =>
        refine ⟨[], { it with source := some rest, ended := true }, s, .ended ?_⟩
        rw [hnext, hpulled]
        rfl
      | .ok (some doc) =>
        obtain ⟨docs, it', s', hdocs⟩ := ih { it with source := some rest } hdone rfl
        refine ⟨doc :: docs, it', s', .document ?_ hdocs⟩
        rw [hnext, hpulled]
        rfl

instance : FiniteSource (List Delayed) := ⟨ends_delayed⟩

/-- How reading all that is left goes, compared with calls for one document after another. -/
structure DrainedAsStepped (answer : Command → Deadline → τ → Reply × τ) (it : Iter σ) (s : τ) (place : α)
    (previous : List α) : Prop where
  /-- All values are given exactly if the calls find just these and then none, and no error is recorded. -/
  values : ∀ ys, (∃ rounds it' s', (it.all rounds previous).run answer s = some ((.ok (), ys, it'), s')) ↔
    ∃ it' s', Stepped answer it s place ys it' s' ∧ it'.err = none
  /-- An error is reported and the list left as it was exactly if the calls come to a recorded error. To report
  anything the stream must be read to its end, so it has to have one. -/
  failure : (∃ rounds e it' s', (it.all rounds previous).run answer s = some ((.error e, previous, it'), s')) ↔
    it.Ends answer s ∧ ∃ ys it' s', Stepped answer it s place ys it' s' ∧ it'.err ≠ none
  /-- If all streams of the source have an end, it is exactly the recorded errors that are reported. -/
  failure_of_finite : FiniteSource σ →
    ((∃ rounds e it' s', (it.all rounds previous).run answer s = some ((.error e, previous, it'), s')) ↔
      ∃ ys it' s', Stepped answer it s place ys it' s' ∧ it'.err ≠ none)
  /-- No error is reported with another list. -/
  kept : ∀ rounds e held it' s', (it.all rounds previous).run answer s = some ((.error e, held, it'), s') →
    held = previous

/-- Reading all of a stream that ends fails exactly if the calls come to a recorded error. -/
theorem fails_iff (place : α) {previous : List α} :
    (∃ rounds e it' s', (it.all rounds previous).run answer s = some ((.error e, previous, it'), s')) ↔
      it.Ends answer s ∧ ∃ ys it' s', Stepped answer it s place ys it' s' ∧ it'.err ≠ none := by
  constructor
  · rintro ⟨rounds, e, it', s', h⟩
    obtain ⟨docs, left, t, hdocs, hcollected⟩ := exists_run_all_iff.mp ⟨rounds, it', s', h⟩
    obtain ⟨as, last, u, hstepped, hsame⟩ := exists_stepped hdocs place
    refine ⟨⟨docs, left, t, hdocs⟩, as, last, u, hstepped, fun herr => ?_⟩
    have hok : collected previous docs left = (.ok (), as) := collected_eq_ok_iff.mpr ((hsame as).mp ⟨herr, rfl⟩)
    cases (Prod.mk.inj (hok.symm.trans hcollected)).1
  · rintro ⟨⟨docs, it', s', hdocs⟩, ys, left, t, hstepped, herr⟩
    obtain ⟨as, last, u, hagain, hsame⟩ := exists_stepped hdocs place
    obtain ⟨rfl, rfl, rfl⟩ := hstepped.unique hagain
    rcases hcollected : collected previous docs it' with ⟨outcome, held⟩
    cases outcome with
    | ok u => exact absurd ((hsame held).mpr (collected_eq_ok_iff.mp hcollected)).1 herr
    | error e =>
      obtain rfl := held_of_collected hcollected
      obtain ⟨rounds, it'', s'', h⟩ := exists_run_all_iff.mpr ⟨docs, it', s', hdocs, hcollected⟩
      exact ⟨rounds, e, it'', s'', h⟩

theorem drained_as_stepped (answer : Command → Deadline → τ → Reply × τ) (it : Iter σ) (s : τ) (place : α)
    (previous : List α) : DrainedAsStepped answer it s place previous := by
  constructor
  case values =>
    intro ys
    rw [exists_run_all_iff]
    constructor
    · rintro ⟨docs, it', s', hdocs, hcollected⟩
      obtain ⟨as, left, t, hstepped, hsame⟩ := exists_stepped hdocs place
      obtain ⟨herr, rfl⟩ := (hsame ys).mpr (collected_eq_ok_iff.mp hcollected)
      exact ⟨left, t, hstepped, herr⟩
    · rintro ⟨it', s', hstepped, herr⟩
      obtain ⟨docs, hdocs⟩ := hstepped.exists_remaining herr
      obtain ⟨as, left, t, hagain, hsame⟩ := exists_stepped hdocs place
      obtain ⟨rfl, rfl, rfl⟩ := hstepped.unique hagain
      exact ⟨docs, it', s', hdocs, collected_eq_ok_iff.mpr ((hsame ys).mp ⟨herr, rfl⟩)⟩
  case failure => exact fails_iff place
  case failure_of_finite =>
    intro hfinite
    rw [fails_iff place]
    exact and_iff_right (FiniteSource.ends answer it s)
  case kept =>
    intro rounds e held it' s' h
    obtain ⟨docs, left, t, -, hcollected⟩ := exists_run_all_iff.mp ⟨rounds, it', s', h⟩
    exact held_of_collected hcollected

/-- The second document cannot be decoded. Calls find one value and then record an error, and reading both documents
at once reports the same error and keeps the list. -/
example :
    let it : Iter (List Delayed) := .ofSource [⟨0, .ok ⟨[("n", .int32 1)]⟩⟩, ⟨0, .ok ⟨[("n", .boolean true)]⟩⟩]
    let run {α : Type} (p : Program α) : Option α := (p.run (fun _ _ u => (.dropped, u)) ()).map Prod.fst
    let e : Error := .decode (.wrongType "a 32-bit integer" "Boolean")
    let held : Dictionary String Int32 := ⟨[("n", 7)]⟩
    ((run (it.next held)).bind fun (found, m, it) => (run (it.next m)).map fun (more, n, it) =>
        (found, m, more, n, it.err)) = some (true, ⟨[("n", 1)]⟩, false, ⟨[("n", 1)]⟩, some e) ∧
      (run (it.all 3 [held])).map (fun (outcome, ms, _) => (outcome, ms)) = some (.error e, [held]) :=
  ⟨rfl, rfl⟩

end Draining

end Iter
end DocClient
