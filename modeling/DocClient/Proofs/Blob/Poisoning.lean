import DocClient.Blob.Store
import DocClient.Proofs.Blob.Tracking
import DocClient.Proofs.Refusal

/-! Files that are written after a setter refused its argument. Main statement: `poisoned_of_refused`, by which such
a file only reports the error, is shut by the next close, and asks nobody again. -/
namespace DocClient.Blob

/-- What is wrong with the argument of a setter, if anything is. -/
def Event.refusal : Event → Option Error
  | @setId _ _ id => errorOf (lift id)
  | @setMetadata _ _ metadata => errorOf (lift metadata)
  | _ => none

namespace File

variable {f g : File} {e : Error} {event : Event} {es : List Event}

/-- A file that answers every write with an error, and the next close too, which shuts it. -/
structure Poisoned (f : File) (e : Error) : Prop where
  write : ∀ data, f.write data = (.error e, f)
  close : ∀ fresh, ∃ g, f.close fresh = .done (.error e, g) ∧ g.closed = true

/-- A shut file, which takes nothing and has nothing to report. -/
structure Spent (f : File) : Prop where
  write : ∀ data, f.write data = (.error .fileClosed, f)
  close : ∀ fresh, f.close fresh = .done (.ok (), f)

theorem poisoned_of_err (hopen : f.closed = false) (hwriting : f.access = .writing) (herr : f.err = some e) :
    f.Poisoned e where
  write data := by simp [File.write, hopen, hwriting, herr]
  close fresh := ⟨{ f with err := none }.shut, by simp [File.close, hopen, herr], rfl⟩

theorem spent_of_closed (h : f.closed = true) : f.Spent where
  write data := by simp [File.write, h]
  close fresh := by simp [File.close, h]

/-! ### What events leave of an error -/

theorem err_refuse (f : File) (e : Error) : (f.refuse e).err = f.err.or (some e) := by
  cases h : f.err <;> simp [refuse, h]

/-- The first error of a setter is kept until a close. -/
theorem err_of_does (h : f.Does event g) (hclose : event.isClose = false) : g.err = f.err.or event.refusal := by
  have htouched := touched_of_does h hclose
  cases event with
  | @setId α inst id =>
    obtain rfl := h
    change _ = f.err.or (errorOf (lift id))
    unfold setId
    cases lift id with
    | error e => exact err_refuse f e
    | ok v => exact Option.or_none.symm
  | @setMetadata α inst metadata =>
    obtain rfl := h
    change _ = f.err.or (errorOf (lift metadata))
    unfold setMetadata
    cases lift metadata with
    | error e => exact err_refuse f e
    | ok v => exact Option.or_none.symm
  | close log outcome => cases hclose
  | _ => exact (htouched.err rfl).trans Option.or_none.symm

/-- A close leaves no error where there was none. -/
theorem Attempt.err_eq_none {fresh : Nat → Oid} {log : List Exchange} {r : Except Error Unit}
    (h : f.Attempt fresh log r g) (htrusted : f.err = none) : g.err = none := by
  obtain ⟨md5, ids, hprepared⟩ := prepared_eq f fresh
  cases h with
  | again => exact htrusted
  | refused => rfl
  | empty => exact htrusted
  | failed => simp [hprepared, htrusted]
  | stored => cases r <;> simp [hprepared, settle, marked, shut, htrusted]
  | described => cases r <;> exact htrusted

/-- The close of an open file with an error asks nobody, and shuts the file. -/
theorem Attempt.shut_of_err {fresh : Nat → Oid} {log : List Exchange} {r : Except Error Unit}
    (h : f.Attempt fresh log r g) (hopen : f.closed = false) (herr : f.err = some e) : log = [] ∧ g.closed = true := by
  cases h with
  | again closed => cases closed.symm.trans hopen
  | refused => exact ⟨rfl, rfl⟩
  | empty _ trusted => cases herr.symm.trans trusted
  | failed pending => cases herr.symm.trans pending.trusted
  | stored pending => cases herr.symm.trans pending.trusted
  | described pending => cases herr.symm.trans pending.trusted

theorem err_of_ran (h : f.Ran es g) (htrusted : f.err = none) (hfine : ∀ y ∈ es, y.refusal = none) :
    g.err = none := by
  induction h with
  | nil => exact htrusted
  | snoc before last ih =>
    simp only [List.forall_mem_append, List.forall_mem_singleton] at hfine
    have hbefore := ih hfine.1
    obtain htouched | ⟨log, r, fresh, rfl, hattempt⟩ := does_cases last
    · rw [err_of_does last htouched.isClose, hbefore, hfine.2]
      rfl
    · exact hattempt.err_eq_none hbefore

theorem log_of_not_isClose (h : event.isClose = false) : event.log = [] := by
  cases event with
  | close log outcome => cases h
  | _ => rfl

/-- How far a file has come since a setter was refused: the error is still to be reported, or a close has shut the
file. -/
inductive Stage (e : Error) (es : List Event) (f : File) : Prop
  | unreported (opened : f.closed = false) (err : f.err = some e) (none_closes : ∀ y ∈ es, y.isClose = false)
  | reported (closed : f.closed = true) (one_closes : ∃ y ∈ es, y.isClose = true)

theorem Stage.step (h : Stage e es f) (hdoes : f.Does event g) : event.log = [] ∧ Stage e (es ++ [event]) g := by
  cases h with
  | unreported opened err none_closes =>
    obtain htouched | ⟨log, r, fresh, rfl, hattempt⟩ := does_cases hdoes
    · refine ⟨log_of_not_isClose htouched.isClose, .unreported (htouched.closed.trans opened) ?_ ?_⟩
      · rw [err_of_does hdoes htouched.isClose, err]
        rfl
      · simp only [List.forall_mem_append, List.forall_mem_singleton]
        exact ⟨none_closes, htouched.isClose⟩
    · have hshut := hattempt.shut_of_err opened err
      exact ⟨hshut.1, .reported hshut.2 ⟨_, List.mem_append_right _ List.mem_cons_self, rfl⟩⟩
  | reported closed one_closes =>
    obtain ⟨y, hy, hclose⟩ := one_closes
    refine ⟨?_, .reported (closed_of_does hdoes closed) ⟨y, List.mem_append_left _ hy, hclose⟩⟩
    obtain htouched | ⟨log, r, fresh, rfl, hattempt⟩ := does_cases hdoes
    · exact log_of_not_isClose htouched.isClose
    · exact (hattempt.again_of_closed closed).1

theorem stage_of_ran (h : f.Ran es g) (hopen : f.closed = false) (herr : f.err = some e) :
    (∀ y ∈ es, y.log = []) ∧ Stage e es g := by
  induction h with
  | nil => exact ⟨nofun, .unreported hopen herr nofun⟩
  | snoc before last ih =>
    obtain ⟨hlogs, hstage⟩ := ih
    obtain ⟨hlog, hnext⟩ := hstage.step last
    simp only [List.forall_mem_append, List.forall_mem_singleton]
    exact ⟨⟨hlogs, hlog⟩, hnext⟩

/-- From the first setter on whose argument was refused, a file that was still open asks nobody. Until the next close
it answers every write with the error of that setter, and so does that close, which shuts it, whatever setters
come after; from then on it takes no data, and closing it again succeeds. -/
theorem poisoned_of_refused {s : Store} {fresh : Oid} {now : Time} {name : String} {before after : List Event}
    {bad : Event} {h : File} (hbefore : (File.create s fresh now name).Ran before f) (hopen : f.closed = false)
    (hfine : ∀ y ∈ before, y.refusal = none) (hrefused : bad.refusal = some e) (hbad : f.Does bad g)
    (hafter : g.Ran after h) :
    (∀ y ∈ after, y.log = []) ∧ ((∀ y ∈ after, y.isClose = false) → h.Poisoned e) ∧
      ((∃ y ∈ after, y.isClose = true) → h.Spent) := by
  have hclose : bad.isClose = false := by
    cases bad with
    | close log outcome => cases hrefused
    | _ => rfl
  have htrusted := err_of_ran hbefore rfl hfine
  have herr : g.err = some e := by
    rw [err_of_does hbad hclose, htrusted, hrefused]
    rfl
  have hopen' : g.closed = false := (touched_of_does hbad hclose).closed.trans hopen
  obtain ⟨hlogs, hstage⟩ := stage_of_ran hafter hopen' herr
  refine ⟨hlogs, ?_, ?_⟩
  · intro hnone
    cases hstage with
    | unreported opened err =>
      have hran := ran_append.mpr ⟨g, ran_snoc.mpr ⟨f, hbefore, hbad⟩, hafter⟩
      exact poisoned_of_err opened (tracks_of_ran hran opened).writing err
    | reported closed one_closes =>
      obtain ⟨y, hy, hyclose⟩ := one_closes
      cases (hnone y hy).symm.trans hyclose
  · rintro ⟨y, hy, hyclose⟩
    cases hstage with
    | unreported opened err none_closes => cases (none_closes y hy).symm.trans hyclose
    | reported closed => exact spent_of_closed closed

/-- A number that no document can hold is refused as an identifier, after some data and before another setter. -/
theorem poisoned_by_large_number :
    let f := File.create (Database.blobs ⟨"app", .primary, none, 8⟩ "fs") default .epoch "a.bin"
    let large : UInt64 := 0xffffffffffffffff
    let renamed := ((f.write [97]).2.setId large).setName "b.bin"
    ∃ e h, renamed.Poisoned e ∧ (renamed.close fun _ => default) = .done (.error e, h) ∧ h.Spent := by
  intro f large renamed
  obtain ⟨e, hrefused⟩ : ∃ e, (Event.setId large).refusal = some e := ⟨_, rfl⟩
  have hwritten : f.Ran [.write [97] (.ok 1)] (f.write [97]).2 := .snoc .nil rfl
  have hfine : ∀ y ∈ [Event.write [97] (.ok 1)], y.refusal = none := by simp [Event.refusal]
  have hrenamed : ((f.write [97]).2.setId large).Ran [.setName "b.bin"] renamed := .snoc .nil rfl
  obtain ⟨-, hpoisoned, -⟩ := poisoned_of_refused hwritten rfl hfine hrefused rfl hrenamed
  have hpoisoned := hpoisoned (by simp [Event.isClose])
  obtain ⟨h, hclose, -⟩ := hpoisoned.close fun _ => default
  have hshut : renamed.Does (.close [] (.error e)) h := ⟨fun _ => default, by rw [hclose]; exact .done _⟩
  obtain ⟨-, -, hspent⟩ := poisoned_of_refused hwritten rfl hfine hrefused rfl (hrenamed.snoc hshut)
  exact ⟨e, h, hpoisoned, hclose, hspent (by simp [Event.isClose])⟩

end File
end DocClient.Blob
