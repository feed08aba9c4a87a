import DocClient.Proofs.Wire.Transcript
import DocClient.Query.Iter

/-! Iterators over streams of any outcomes, under any sequence of calls. Main statement: `settles_of_ran`, by
which an iterator that has failed, was closed or has met the end stays as it is and leaves its stream alone. -/
namespace DocClient

/-- A stream whose outcomes are decided outside. Every poll is an exchange, and what comes back is read as a
document, as the end or as an error. -/
structure Feed where
  poll : Command
  read : Reply → Except Error (Option Document)

instance : Source Feed := ⟨fun feed => .send feed.poll .short fun reply => .done (feed.read reply, feed)⟩

namespace Feed

/-- The stream of some outcomes, whose replies are numbered by their lengths. -/
def ofOutcomes (outcomes : Nat → Except Error (Option Document)) : Feed where
  poll := { database := "", body := ⟨[]⟩, readPreference := .primary }
  read
    | .document doc => outcomes doc.fields.length
    | _ => .ok none

def numbered (n : Nat) : Reply := .document ⟨List.replicate n ("", .null)⟩

/-- Any outcomes whatever can come of a stream, one after another. -/
theorem read_ofOutcomes (outcomes : Nat → Except Error (Option Document)) (n : Nat) :
    (ofOutcomes outcomes).read (numbered n) = outcomes n :=
  congrArg outcomes List.length_replicate

end Feed

namespace Iter

variable {σ : Type}

/-- What an iterator has to report when it is closed. -/
def report (it : Iter σ) : Except Error Unit :=
  match it.err with
  | some e => .error e
  | none => .ok ()

/-- A call and what came of it. -/
inductive Event : Type 1
  | next {α : Type} [Destination α] (log : List Exchange) (previous : α) (found : Bool) (held : α)
  | all {α : Type} [Destination α] (log : List Exchange) (previous : List α) (outcome : Except Error Unit)
      (held : List α)
  | close (outcome : Except Error Unit)
  | err (e : Option Error)
  | done (answer : Bool)

namespace Event

/-- The polls of the stream that a call makes. -/
def polls : Event → List Exchange
  | @next _ _ log _ _ _ => log
  | @all _ _ log _ _ _ => log
  | _ => []

def closes : Event → Bool
  | @all _ _ _ _ _ _ => true
  | close _ => true
  | _ => false

/-- A call that is told the end of the stream. -/
def MeetsEnd (feed : Feed) (e : Event) : Prop := ∃ x ∈ e.polls, feed.read x.reply = .ok none

/-- A call for a document finds none and leaves its place alone, and the iterator says that it is done. -/
def IsVain : Event → Prop
  | @next _ _ _ previous found held => found = false ∧ held = previous
  | done answer => answer = true
  | _ => True

end Event

/-- A call on an iterator and what it makes of it. -/
def Does (it : Iter Feed) : Event → Iter Feed → Prop
  | @Event.next _ _ log previous found held, it' => (it.next previous).Plays log (found, held, it')
  | @Event.all _ _ log previous outcome held, it' =>
    ∃ rounds, (it.all rounds previous).Plays log (outcome, held, it')
  | .close outcome, it' => it.close = (outcome, it')
  | .err e, it' => it.err = e ∧ it' = it
  | .done answer, it' => it.isDone = answer ∧ it' = it

/-- Calls in a row and what they make of an iterator. -/
inductive Ran (it : Iter Feed) : List Event → Iter Feed → Prop
  | nil : Ran it [] it
  | snoc {es : List Event} {e : Event} {it' it'' : Iter Feed} (before : Ran it es it')
      (last : it'.Does e it'') : Ran it (es ++ [e]) it''

/-- An iterator as it is opened on a stream, or fails to be opened. -/
inductive Starts (feed : Feed) : Iter Feed → Prop
  | opened : Starts feed (ofSource feed)
  | failed (e : Error) : Starts feed (failed e)

/-- An iterator has failed, was closed or was told the end of its stream, or says itself that it is done. -/
def IsOver (feed : Feed) (before : List Event) (it : Iter Feed) : Prop :=
  it.err ≠ none ∨ (∃ e ∈ before, e.closes = true) ∨ (∃ e ∈ before, e.MeetsEnd feed) ∨ it.isDone = true

theorem isDone_iff {it : Iter σ} : it.isDone = true ↔ it.ended = true ∨ it.err ≠ none := by
  unfold isDone
  rw [Bool.or_eq_true, Option.isSome_iff_ne_none]

theorem isDone_of_err {it : Iter σ} {e : Error} (h : it.err = some e) : it.isDone = true :=
  isDone_iff.mpr (.inr (by simp [h]))

theorem err_of_not_isDone {it : Iter σ} (h : ¬ it.isDone = true) : it.err = none := by
  rw [isDone_iff, not_or] at h
  exact Decidable.not_not.mp h.2

/-! ### One call -/

theorem nextValue_of_done [Source σ] {it : Iter σ} (h : it.isDone = true) :
    it.nextValue = .done (none, it) := by
  unfold nextValue
  rw [if_pos h]

theorem next_of_done [Source σ] {α : Type} [Destination α] {it : Iter σ} (h : it.isDone = true)
    (previous : α) : it.next previous = .done (false, previous, it) := by
  unfold next
  rw [nextValue_of_done h]
  rfl

section Polling

variable {feed : Feed} {it it' : Iter Feed} {log : List Exchange}

/-- What the poll of a call for the next value comes to. -/
inductive Polled (feed : Feed) (it : Iter Feed) (reply : Reply) : Option Value → Iter Feed → Prop
  | document {doc : Document} (read : feed.read reply = .ok (some doc)) :
      Polled feed it reply (some (Value.ofDocument doc)) it
  | ended (read : feed.read reply = .ok none) : Polled feed it reply none { it with ended := true }
  | failed {e : Error} (read : feed.read reply = .error e) :
      Polled feed it reply none { it with err := some e }

theorem plays_nextValue {v : Option Value} (hopen : ¬ it.isDone = true) (hsource : it.source = some feed)
    (h : it.nextValue.Plays log (v, it')) :
    ∃ reply, log = [⟨feed.poll, .short, reply⟩] ∧ Polled feed it reply v it' := by
  unfold nextValue at h
  rw [if_neg hopen, hsource] at h
  obtain ⟨reply, rest, rfl, hrest⟩ := Program.plays_send.mp h
  obtain ⟨rfl, hresult⟩ := Program.plays_done.mp hrest
  have hsame : { it with source := some feed } = it := by rw [← hsource]
  refine ⟨reply, rfl, ?_⟩
  cases hread : feed.read reply with
  | error e =>
    rw [hread] at hresult
    obtain ⟨rfl, rfl⟩ := Prod.mk.inj hresult
    rw [← hsource]
    exact .failed hread
  | ok found =>
    rw [hread] at hresult
    cases found with
    | none =>
      obtain ⟨rfl, rfl⟩ := Prod.mk.inj hresult
      rw [← hsource]
      exact .ended hread
    | some doc =>
      obtain ⟨rfl, rfl⟩ := Prod.mk.inj hresult
      rw [hsame]
      exact .document hread

/-- What a call leaves of the stream and of the error: an iterator that is not done keeps its stream, and
one that was told the end is done with no error. -/
structure Leaves (feed : Feed) (log : List Exchange) (it' : Iter Feed) : Prop where
  source : ¬ it'.isDone = true → it'.source = some feed
  ended : (∃ x ∈ log, feed.read x.reply = .ok none) → it'.isDone = true ∧ it'.err = none

theorem leaves_of_polled {reply : Reply} {v : Option Value} (hopen : ¬ it.isDone = true)
    (hsource : it.source = some feed) (h : Polled feed it reply v it') :
    Leaves feed [⟨feed.poll, .short, reply⟩] it' := by
  have herr := err_of_not_isDone hopen
  cases h with
  | document read => exact ⟨fun _ => hsource, by simp [read]⟩
  | ended read => exact ⟨fun _ => hsource, fun _ => ⟨isDone_iff.mpr (.inl rfl), herr⟩⟩
  | failed read => exact ⟨fun _ => hsource, by simp [read]⟩

/-- A program that begins with a call for the next value polls once, and goes on with what came of it. -/
theorem plays_nextValue_bind {β : Type} {b : β} {go : Option Value × Iter Feed → Program β}
    (hopen : ¬ it.isDone = true) (hsource : it.source = some feed) (h : (it.nextValue >>= go).Plays log b) :
    ∃ v polled reply rest, log = [⟨feed.poll, .short, reply⟩] ++ rest ∧ Polled feed it reply v polled ∧
      Leaves feed [⟨feed.poll, .short, reply⟩] polled ∧ (go (v, polled)).Plays rest b := by
  obtain ⟨⟨v, polled⟩, first, rest, rfl, hfirst, hrest⟩ := Program.plays_bind.mp h
  obtain ⟨reply, rfl, hpolled⟩ := plays_nextValue hopen hsource hfirst
  exact ⟨v, polled, reply, rest, rfl, hpolled, leaves_of_polled hopen hsource hpolled, hrest⟩

theorem plays_next {α : Type} [Destination α] {previous held : α} {found : Bool}
    (hopen : ¬ it.isDone = true) (hsource : it.source = some feed)
    (h : (it.next previous).Plays log (found, held, it')) : Leaves feed log it' := by
  obtain ⟨v, polled, reply, rest, rfl, hpolled, hleaves, hrest⟩ := plays_nextValue_bind hopen hsource h
  cases v with
  | none =>
    obtain ⟨rfl, hresult⟩ := Program.plays_done.mp hrest
    cases hresult
    exact hleaves
  | some v =>
    dsimp only at hrest
    rcases hdecoded : decodeInto v previous with ⟨outcome, a⟩
    rw [hdecoded] at hrest
    cases outcome with
    | ok u =>
      obtain ⟨rfl, hresult⟩ := Program.plays_done.mp hrest
      cases hresult
      exact hleaves
    | error e =>
      -- The document that was polled cannot be decoded; this error is kept too.
      obtain ⟨rfl, hresult⟩ := Program.plays_done.mp hrest
      cases hresult
      cases hpolled with
      | document read => exact ⟨fun _ => hsource, by simp [read]⟩

theorem drain_of_done {rounds : Nat} {vs : List Value} (hdone : it.isDone = true)
    (h : (it.drain rounds).Plays log (vs, it')) : log = [] ∧ it' = it := by
  cases rounds with
  | zero => exact absurd h Program.not_plays_exhausted
  | succ rounds =>
    unfold drain at h
    rw [nextValue_of_done hdone] at h
    obtain ⟨rfl, hresult⟩ := Program.plays_done.mp h
    cases hresult
    exact ⟨rfl, rfl⟩

theorem plays_drain {rounds : Nat} {vs : List Value} (hopen : ¬ it.isDone = true)
    (hsource : it.source = some feed) (h : (it.drain rounds).Plays log (vs, it')) :
    Leaves feed log it' := by
  induction rounds generalizing log vs with
  | zero => exact absurd h Program.not_plays_exhausted
  | succ rounds ih =>
    obtain ⟨v, polled, reply, rest, rfl, hpolled, hleaves, hrest⟩ := plays_nextValue_bind hopen hsource h
    cases v with
    | none =>
      obtain ⟨rfl, hresult⟩ := Program.plays_done.mp hrest
      cases hresult
      exact hleaves
    | some v =>
      obtain ⟨⟨vs', left⟩, drained, last, rfl, hdrained, hlast⟩ := Program.plays_bind.mp hrest
      obtain ⟨rfl, hresult⟩ := Program.plays_done.mp hlast
      cases hresult
      cases hpolled with
      | document read =>
        have hrest := ih hdrained
        refine ⟨hrest.source, ?_⟩
        rintro ⟨x, hx, hend⟩
        rw [List.append_nil, List.singleton_append, List.mem_cons] at hx
        rcases hx with rfl | hx
        · rw [read] at hend
          cases hend
        · exact hrest.ended ⟨x, hx, hend⟩

theorem plays_all {α : Type} [Destination α] {rounds : Nat} {previous held : List α}
    {outcome : Except Error Unit} (h : (it.all rounds previous).Plays log (outcome, held, it')) :
    ∃ vs drained, (it.drain rounds).Plays log (vs, drained) ∧ it' = drained.close.2 := by
  obtain ⟨⟨vs, drained⟩, first, rest, rfl, hfirst, hrest⟩ := Program.plays_bind.mp h
  dsimp only at hrest
  suffices hrest : rest = [] ∧ it' = drained.close.2 by
    obtain ⟨rfl, rfl⟩ := hrest
    exact ⟨vs, drained, by rwa [List.append_nil], rfl⟩
  rcases hclosed : drained.close with ⟨outcome', closed⟩
  rw [hclosed] at hrest
  cases outcome' with
  | error e =>
    obtain ⟨rfl, hresult⟩ := Program.plays_done.mp hrest
    cases hresult
    exact ⟨rfl, rfl⟩
  | ok u =>
    obtain ⟨rfl, hresult⟩ := Program.plays_done.mp hrest
    cases hresult
    exact ⟨rfl, rfl⟩

end Polling

/-! ### Calls in a row -/

section Running

variable {feed : Feed} {start it it' : Iter Feed} {e : Event} {es before after : List Event}

/-- A call on an iterator that is done leaves the stream alone, finds nothing and changes no error. -/
theorem does_of_done (hdone : it.isDone = true) (h : it.Does e it') :
    e.polls = [] ∧ e.IsVain ∧ it'.isDone = true ∧ it'.err = it.err := by
  cases e with
  | next log previous found held =>
    have hnext : (it.next previous).Plays log (found, held, it') := h
    rw [next_of_done hdone] at hnext
    obtain ⟨rfl, hresult⟩ := Program.plays_done.mp hnext
    cases hresult
    exact ⟨rfl, ⟨rfl, rfl⟩, hdone, rfl⟩
  | all log previous outcome held =>
    obtain ⟨rounds, hall⟩ := h
    obtain ⟨vs, drained, hdrained, rfl⟩ := plays_all hall
    obtain ⟨rfl, rfl⟩ := drain_of_done hdone hdrained
    exact ⟨rfl, trivial, isDone_iff.mpr (.inl rfl), rfl⟩
  | close outcome =>
    cases h
    exact ⟨rfl, trivial, isDone_iff.mpr (.inl rfl), rfl⟩
  | err answer =>
    obtain ⟨-, rfl⟩ := h
    exact ⟨rfl, trivial, hdone, rfl⟩
  | done answer =>
    obtain ⟨rfl, rfl⟩ := h
    exact ⟨rfl, hdone, hdone, rfl⟩

/-- A call on an iterator that is not done: what it leaves, and that a close is final. -/
theorem does_of_open (hopen : ¬ it.isDone = true) (hsource : it.source = some feed) (h : it.Does e it') :
    Leaves feed e.polls it' ∧ (e.closes = true → it'.isDone = true) := by
  have hsame : Leaves feed [] it := ⟨fun _ => hsource, by simp⟩
  cases e with
  | next log previous found held => exact ⟨plays_next hopen hsource h, nofun⟩
  | all log previous outcome held =>
    obtain ⟨rounds, hall⟩ := h
    obtain ⟨vs, drained, hdrained, rfl⟩ := plays_all hall
    have hleaves := plays_drain hopen hsource hdrained
    have hclosed : drained.close.2.isDone = true := isDone_iff.mpr (.inl rfl)
    exact ⟨⟨fun hnot => absurd hclosed hnot, fun hend => ⟨hclosed, (hleaves.ended hend).2⟩⟩,
      fun _ => hclosed⟩
  | close outcome =>
    cases h
    have hclosed : it.close.2.isDone = true := isDone_iff.mpr (.inl rfl)
    exact ⟨⟨fun hnot => absurd hclosed hnot, by simp [Event.polls]⟩, fun _ => hclosed⟩
  | err answer =>
    obtain ⟨-, rfl⟩ := h
    exact ⟨hsame, nofun⟩
  | done answer =>
    obtain ⟨-, rfl⟩ := h
    exact ⟨hsame, nofun⟩

theorem close_does {outcome : Except Error Unit} (h : it.Does (.close outcome) it') :
    outcome = it'.report ∧ it'.isDone = true := by
  cases h
  exact ⟨rfl, isDone_iff.mpr (.inl rfl)⟩

theorem report_congr (h : it'.err = it.err) : it'.report = it.report := by
  unfold report
  rw [h]

/-- What holds of an iterator after any calls. -/
structure Tracks (feed : Feed) (es : List Event) (it : Iter Feed) : Prop where
  source : ¬ it.isDone = true → it.source = some feed
  closed : (∃ e ∈ es, e.closes = true) → it.isDone = true
  ended : (∃ e ∈ es, e.MeetsEnd feed) → it.isDone = true ∧ it.err = none
  reported : ∀ outcome, Event.close outcome ∈ es → outcome = it.report ∧ it.isDone = true

theorem tracks_of_starts (h : Starts feed start) : Tracks feed [] start := by
  refine ⟨?_, by simp, by simp, by simp⟩
  cases h with
  | opened => exact fun _ => rfl
  | failed e => exact fun hopen => absurd (isDone_of_err rfl) hopen

theorem tracks_snoc (h : Tracks feed es it) (hdoes : it.Does e it') : Tracks feed (es ++ [e]) it' := by
  have hreported : ∀ outcome, Event.close outcome ∈ es ++ [e] → outcome = it'.report ∧ it'.isDone = true := by
    intro outcome hmem
    rcases List.mem_append.mp hmem with hmem | hmem
    · obtain ⟨rfl, hdone⟩ := h.reported outcome hmem
      obtain ⟨-, -, hdone', herr⟩ := does_of_done hdone hdoes
      exact ⟨(report_congr herr).symm, hdone'⟩
    · rw [← List.mem_singleton.mp hmem] at hdoes
      exact close_does hdoes
  by_cases hdone : it.isDone = true
  · obtain ⟨hpolls, -, hdone', herr⟩ := does_of_done hdone hdoes
    refine ⟨fun hopen => absurd hdone' hopen, fun _ => hdone', ?_, hreported⟩
    rintro ⟨e', hmem, hend⟩
    rcases List.mem_append.mp hmem with hmem | hmem
    · exact ⟨hdone', herr.trans (h.ended ⟨e', hmem, hend⟩).2⟩
    · obtain ⟨x, hx, -⟩ := hend
      rw [List.mem_singleton.mp hmem, hpolls] at hx
      cases hx
  · obtain ⟨hleaves, hclosed⟩ := does_of_open hdone (h.source hdone) hdoes
    refine ⟨hleaves.source, ?_, ?_, hreported⟩
    · rintro ⟨e', hmem, hcloses⟩
      rcases List.mem_append.mp hmem with hmem | hmem
      · exact absurd (h.closed ⟨e', hmem, hcloses⟩) hdone
      · rw [List.mem_singleton.mp hmem] at hcloses
        exact hclosed hcloses
    · rintro ⟨e', hmem, hend⟩
      rcases List.mem_append.mp hmem with hmem | hmem
      · exact absurd (h.ended ⟨e', hmem, hend⟩).1 hdone
      · rw [List.mem_singleton.mp hmem] at hend
        exact hleaves.ended hend

theorem tracks_of_ran (hstart : Starts feed start) (h : Ran start es it) : Tracks feed es it := by
  induction h with
  | nil => exact tracks_of_starts hstart
  | snoc before last ih => exact tracks_snoc ih last

theorem ran_of_done (hdone : it.isDone = true) (h : Ran it es it') :
    it'.isDone = true ∧ it'.err = it.err ∧ ∀ e ∈ es, e.polls = [] ∧ e.IsVain := by
  induction h with
  | nil => exact ⟨hdone, rfl, by simp⟩
  | snoc before last ih =>
    obtain ⟨hmid, herr, hquiet⟩ := ih
    obtain ⟨hpolls, hvain, hdone', herr'⟩ := does_of_done hmid last
    refine ⟨hdone', herr'.trans herr, ?_⟩
    intro x hx
    rcases List.mem_append.mp hx with hx | hx
    · exact hquiet x hx
    · rw [List.mem_singleton.mp hx]
      exact ⟨hpolls, hvain⟩

theorem isDone_of_isOver (htracks : Tracks feed es it) (h : IsOver feed es it) : it.isDone = true := by
  rcases h with herr | hclosed | hended | hdone
  · exact isDone_iff.mpr (.inr herr)
  · exact htracks.closed hclosed
  · exact (htracks.ended hended).1
  · exact hdone

/-- What the calls before a moment and the calls after it say of an iterator. -/
structure Settles (feed : Feed) (before : List Event) (it : Iter Feed) (after : List Event)
    (it' : Iter Feed) : Prop where
  /-- The error that is recorded stays. -/
  kept : ∀ e, it.err = some e → it'.err = some e
  /-- An iterator that is over stays done, polls no more, and finds nothing. -/
  quiet : IsOver feed before it → it'.isDone = true ∧ (∀ e ∈ after, e.polls = [] ∧ e.IsVain) ∧
    ∀ (α : Type) [Destination α] (previous : α), it'.next previous = .done (false, previous, it')
  /-- The end of the stream is no error. -/
  natural : (∃ e ∈ before, e.MeetsEnd feed) → it.err = none
  /-- Every close returned the error that is recorded now. -/
  reported : ∀ outcome, Event.close outcome ∈ before → outcome = it.report

theorem settles_of_ran (hstart : Starts feed start) (hbefore : Ran start before it)
    (hafter : Ran it after it') : Settles feed before it after it' := by
  have htracks := tracks_of_ran hstart hbefore
  constructor
  case kept =>
    intro e herr
    rw [← herr]
    exact (ran_of_done (isDone_of_err herr) hafter).2.1
  case quiet =>
    intro hover
    obtain ⟨hdone, -, hquiet⟩ := ran_of_done (isDone_of_isOver htracks hover) hafter
    exact ⟨hdone, hquiet, fun α _ previous => next_of_done hdone previous⟩
  case natural => exact fun hend => (htracks.ended hend).2
  case reported => exact fun outcome hmem => (htracks.reported outcome hmem).1

end Running

/-- A stream of one empty document, a failure and the end. -/
def brokenFeed : Feed := Feed.ofOutcomes fun
  | 0 => .ok (some ⟨[]⟩)
  | 1 => .error (.transport .io)
  | _ => .ok none

def brokenIter : Iter Feed := ⟨some brokenFeed, some (.transport .io), false⟩

def foundOnce : List Event :=
  [.next [⟨brokenFeed.poll, .short, Feed.numbered 0⟩] Value.null true (.unordered []),
   .next [⟨brokenFeed.poll, .short, Feed.numbered 1⟩] Value.null false Value.null]

def closedTwice : List Event :=
  [.close (.error (.transport .io)), .next [] Value.null false Value.null,
   .close (.error (.transport .io))]

theorem settles_after_failure : Settles brokenFeed foundOnce brokenIter closedTwice brokenIter.close.2 := by
  have hfound : (ofSource brokenFeed).Does (.next [⟨brokenFeed.poll, .short, Feed.numbered 0⟩] Value.null true
      (.unordered [])) (ofSource brokenFeed) := .send _ (.done _)
  have hfailed : (ofSource brokenFeed).Does (.next [⟨brokenFeed.poll, .short, Feed.numbered 1⟩] Value.null
      false Value.null) brokenIter := .send _ (.done _)
  have hclosed : brokenIter.Does (.close (.error (.transport .io))) brokenIter.close.2 := rfl
  have hvain : brokenIter.close.2.Does (.next [] Value.null false Value.null) brokenIter.close.2 := .done _
  have hagain : brokenIter.close.2.Does (.close (.error (.transport .io))) brokenIter.close.2 := rfl
  have hstart : Starts brokenFeed (ofSource brokenFeed) := .opened
  exact settles_of_ran hstart (.snoc (.snoc .nil hfound) hfailed)
    (.snoc (.snoc (.snoc .nil hclosed) hvain) hagain)

end Iter
end DocClient
