import DocClient.Proofs.Blob.Truncation

/-! Reading a file whose reads may fail. Main statement: `undisturbed`, by which a read that fails might as well not
have been made, and nobody is asked again once the chunks are loaded. -/
namespace DocClient.Blob

/-- A way to read on from where the last read stopped. -/
inductive Reading
  | read (room : Nat)
  | readToEnd

/-- A read that was made: what was exchanged for it, and what came of it. -/
structure Read where
  way : Reading
  log : List Exchange
  outcome : Except Error Bytes

namespace Read

def succeeded (r : Read) : Bool := r.outcome.isOk

/-- A read and what the server had to say to it. -/
def replies (r : Read) : Reading × List Reply := (r.way, r.log.map Exchange.reply)

end Read

namespace File

variable {f g : File} {log : List Exchange} {r : Except Error Bytes}

def answer (f : File) : Reading → Program (Except Error Bytes × File)
  | .read room => f.read room
  | .readToEnd => f.readToEnd

/-- Reads one after the other, and the file that they leave. -/
def Reads (f : File) : List Read → File → Prop
  | [], g => g = f
  | r :: rs, g => ∃ k, (f.answer r.way).Plays r.log (r.outcome, k) ∧ k.Reads rs g

/-- A file that is closed or written refuses every read. -/
theorem exists_read_refused (h : ¬ (f.closed = false ∧ f.access = .reading)) :
    ∃ e, ∀ room, f.read room = .done (.error e, f) := by
  unfold read
  by_cases hclosed : f.closed = true
  · exact ⟨_, fun _ => if_pos hclosed⟩
  · have haccess : f.access ≠ .reading := fun haccess => h ⟨by simpa using hclosed, haccess⟩
    exact ⟨_, fun _ => by rw [if_neg hclosed, if_pos haccess]⟩

/-- A read fails and leaves the file, or the chunks are loaded after it. -/
theorem plays_read {room : Nat} (h : (f.read room).Plays log (r, g)) :
    (∃ e, r = .error e) ∧ g = f ∨ (∃ data, r = .ok data) ∧ g.Ready := by
  by_cases hopen : f.closed = false ∧ f.access = .reading
  · obtain ⟨hopened, hreading⟩ := hopen
    by_cases hloaded : f.loaded = true
    · have hready : f.Ready := ⟨hopened, hreading, hloaded⟩
      rw [read_of_ready hready] at h
      cases (Program.plays_done.mp h).2
      exact .inr ⟨⟨_, rfl⟩, hready.copyNext room⟩
    · rw [read_of_unloaded hopened hreading (by simpa using hloaded)] at h
      obtain ⟨_ | chunks, _, _, -, -, hrest⟩ := Program.plays_bind.mp h
      · cases (Program.plays_done.mp hrest).2
        exact .inl ⟨⟨_, rfl⟩, rfl⟩
      · have hready : ({ f with chunks, loaded := true } : File).Ready := ⟨hopened, hreading, rfl⟩
        dsimp only at hrest
        rw [read_of_ready hready] at hrest
        cases (Program.plays_done.mp hrest).2
        exact .inr ⟨⟨_, rfl⟩, hready.copyNext room⟩
  · obtain ⟨e, he⟩ := exists_read_refused hopen
    rw [he] at h
    cases (Program.plays_done.mp h).2
    exact .inl ⟨⟨e, rfl⟩, rfl⟩

/-- Once the chunks are loaded, reading on needs nobody and cannot fail. -/
theorem readUpTo_of_ready (h : f.Ready) (room : Nat) :
    ∃ data g, f.readUpTo room = .done (.ok data, g) ∧ g.Ready := by
  induction room using Nat.strongRecOn generalizing f with
  | _ room ih =>
    by_cases hzero : room = 0
    · subst hzero
      exact ⟨[], f, by rw [readUpTo, if_pos rfl], h⟩
    rw [readUpTo_of_ne_zero hzero, read_of_ready h, Program.done_bind, fillUp]
    by_cases hmore : 0 < (f.copyNext room).1.length ∧ (f.copyNext room).1.length < room
    · obtain ⟨data, g, hrest, hg⟩ := ih (room - (f.copyNext room).1.length) (by omega) (h.copyNext room)
      rw [if_pos hmore, hrest]
      exact ⟨_, g, rfl, hg⟩
    · rw [if_neg hmore]
      exact ⟨_, _, rfl, h.copyNext room⟩

/-- What comes of reading on: it fails and leaves the file, there was no room, or the chunks are loaded after it. -/
inductive Answered (f : File) (log : List Exchange) : Except Error Bytes → File → Prop
  | failed (e : Error) : Answered f log (.error e) f
  | idle (unasked : log = []) : Answered f log (.ok []) f
  | given (data : Bytes) {g : File} (ready : g.Ready) : Answered f log (.ok data) g

theorem answered_of_plays_readUpTo {room : Nat} (h : (f.readUpTo room).Plays log (r, g)) : Answered f log r g := by
  by_cases hzero : room = 0
  · rw [readUpTo, if_pos hzero] at h
    obtain ⟨rfl, hresult⟩ := Program.plays_done.mp h
    cases hresult
    exact .idle rfl
  rw [readUpTo_of_ne_zero hzero] at h
  obtain ⟨⟨outcome, k⟩, first, rest, rfl, hread, hrest⟩ := Program.plays_bind.mp h
  obtain ⟨⟨e, rfl⟩, rfl⟩ | ⟨⟨data, rfl⟩, hk⟩ := plays_read hread
  · cases (Program.plays_done.mp hrest).2
    exact .failed e
  rw [fillUp] at hrest
  split at hrest
  · -- Only the first read could fail: what is read on is read from loaded chunks.
    obtain ⟨more, k', hmore, hk'⟩ := readUpTo_of_ready hk (room - data.length)
    rw [hmore, Program.done_bind] at hrest
    cases (Program.plays_done.mp hrest).2
    exact .given _ hk'
  · cases (Program.plays_done.mp hrest).2
    exact .given _ hk

theorem answered_of_plays {way : Reading} (h : (f.answer way).Plays log (r, g)) : Answered f log r g := by
  cases way with
  | read room =>
    obtain ⟨⟨e, rfl⟩, rfl⟩ | ⟨⟨data, rfl⟩, hg⟩ := plays_read h
    · exact .failed e
    · exact .given data hg
  | readToEnd => exact answered_of_plays_readUpTo h

/-- A file whose chunks are loaded answers without asking anyone, also if it is closed. -/
theorem exists_answer_of_loaded (h : f.loaded = true) (way : Reading) : ∃ a, f.answer way = .done a := by
  by_cases hopen : f.closed = false ∧ f.access = .reading
  · have hready : f.Ready := ⟨hopen.1, hopen.2, h⟩
    cases way with
    | read room => exact ⟨_, read_of_ready hready room⟩
    | readToEnd =>
      obtain ⟨data, g, hall, -⟩ := readUpTo_of_ready hready (f.length - f.position.consumed)
      exact ⟨_, hall⟩
  · obtain ⟨e, he⟩ := exists_read_refused hopen
    cases way with
    | read room => exact ⟨_, he room⟩
    | readToEnd =>
      unfold answer readToEnd
      by_cases hzero : f.length - f.position.consumed = 0
      · exact ⟨_, by rw [readUpTo, if_pos hzero]⟩
      · exact ⟨_, by rw [readUpTo_of_ne_zero hzero, he, Program.done_bind, fillUp]⟩

namespace Answered

theorem eq_of_error {e : Error} (h : Answered f log (.error e) g) : g = f := by
  cases h
  rfl

/-- Chunks that are loaded stay so. -/
theorem loaded (h : Answered f log r g) (hloaded : f.loaded = true) : g.loaded = true := by
  cases h with
  | failed e => exact hloaded
  | idle unasked => exact hloaded
  | given data ready => exact ready.loaded

/-- Whoever was asked and answered has loaded the chunks. -/
theorem loaded_of_asked (h : Answered f log r g) (hok : r.isOk = true) (hasked : log ≠ []) : g.loaded = true := by
  cases h with
  | failed e => cases hok
  | idle unasked => exact absurd unasked hasked
  | given data ready => exact ready.loaded

end Answered

variable {rs : List Read}

/-- The reads that fail can be left out. -/
theorem Reads.succeeded (h : f.Reads rs g) : f.Reads (rs.filter Read.succeeded) g := by
  induction rs generalizing f with
  | nil => exact h
  | cons r rs ih =>
    obtain ⟨k, hr, hrs⟩ := h
    have hrest := ih hrs
    obtain ⟨way, log, outcome⟩ := r
    cases outcome with
    | error e =>
      obtain rfl := (answered_of_plays hr).eq_of_error
      exact hrest
    | ok data => exact ⟨k, hr, hrest⟩

/-- The same reads with the same replies give the same, and leave the same file. -/
theorem Reads.unique {rs' : List Read} {g' : File} (h : f.Reads rs g) (h' : f.Reads rs' g')
    (hreplies : rs'.map Read.replies = rs.map Read.replies) : rs' = rs ∧ g' = g := by
  induction rs generalizing f rs' with
  | nil =>
    obtain rfl := List.map_eq_nil_iff.mp hreplies
    obtain rfl := h
    exact ⟨rfl, h'⟩
  | cons r rs ih =>
    cases rs' with
    | nil => cases hreplies
    | cons r' rs' =>
      obtain ⟨way, log, outcome⟩ := r
      obtain ⟨way', log', outcome'⟩ := r'
      obtain ⟨hfirst, hrest⟩ := List.cons.inj hreplies
      obtain ⟨rfl, hlog⟩ := Prod.mk.inj hfirst
      obtain ⟨k, hr, hrs⟩ := h
      obtain ⟨k', hr', hrs'⟩ := h'
      obtain ⟨rfl, hsame⟩ := hr.unique hr' hlog
      obtain ⟨rfl, rfl⟩ := Prod.mk.inj hsame
      obtain ⟨rfl, rfl⟩ := ih hrs hrs' hrest
      exact ⟨rfl, rfl⟩

theorem Reads.loaded (h : f.Reads rs g)
    (hloaded : f.loaded = true ∨ ∃ r ∈ rs, r.succeeded = true ∧ r.log ≠ []) : g.loaded = true := by
  induction rs generalizing f with
  | nil =>
    obtain rfl := h
    simpa using hloaded
  | cons r rs ih =>
    obtain ⟨k, hr, hrs⟩ := h
    have hanswered := answered_of_plays hr
    refine ih hrs ?_
    obtain hf | ⟨r', hr', hok, hasked⟩ := hloaded
    · exact .inl (hanswered.loaded hf)
    obtain rfl | hmem := List.mem_cons.mp hr'
    · exact .inl (hanswered.loaded_of_asked hok hasked)
    · exact .inr ⟨r', hmem, hok, hasked⟩

/-- After any reads, a read that fails leaves the file as it was. The reads that succeeded are what would have been
read without those that failed, and the file is the same. Once the chunks are loaded, which they are when a read that
succeeded has asked for anything, every read is answered without asking anyone. -/
theorem undisturbed (h : f.Reads rs g) :
    (∀ way log e k, (g.answer way).Plays log (.error e, k) → k = g) ∧
      f.Reads (rs.filter Read.succeeded) g ∧
      (∀ rs' g', f.Reads rs' g' → rs'.map Read.replies = (rs.filter Read.succeeded).map Read.replies →
        rs' = rs.filter Read.succeeded ∧ g' = g) ∧
      (g.loaded = true ∨ (∃ r ∈ rs, r.succeeded = true ∧ r.log ≠ []) → ∀ way, ∃ a, g.answer way = .done a) := by
  refine ⟨?_, h.succeeded, ?_, ?_⟩
  · intro way log e k hfails
    exact (answered_of_plays hfails).eq_of_error
  · intro rs' g' h' hreplies
    exact h.succeeded.unique h' hreplies
  · intro hloaded way
    refine exists_answer_of_loaded ?_ way
    obtain hg | hasked := hloaded
    · exact hg
    · exact h.loaded (.inr hasked)

namespace Sample

/-- The chunks of the file are asked for, and the connection is dropped. -/
theorem exists_plays_read_dropped : ∃ log k, ((ofDescription shelf (description 2)).read 2).Plays log
    (.error (.transport .io), k) := by
  have hrun : (Program.run (Program.recorded Program.prepared) ((ofDescription shelf (description 2)).read 2)
      ([.dropped], [])).map (fun end_ => end_.1.1) = some (.error (.transport .io)) := rfl
  obtain ⟨⟨⟨outcome, k⟩, replies, log⟩, hend, rfl⟩ := Option.map_eq_some_iff.mp hrun
  obtain ⟨rest, -, hplays⟩ := Program.plays_of_run Program.prepared hend
  exact ⟨rest, k, hplays⟩

end Sample

/-- A file whose first read is dropped is then read as if it had not been. -/
theorem undisturbed_by_dropped :
    ∃ dropped asked g,
      (ofDescription Sample.shelf (Sample.description 2)).Reads
        [⟨.read 2, dropped, .error (.transport .io)⟩, ⟨.readToEnd, asked, .ok [97, 98]⟩] g ∧
      (ofDescription Sample.shelf (Sample.description 2)).Reads [⟨.readToEnd, asked, .ok [97, 98]⟩] g := by
  obtain ⟨dropped, k, hdropped⟩ := Sample.exists_plays_read_dropped
  obtain ⟨asked, g, hasked⟩ := Sample.exists_plays_readToEnd 2 (by decide)
  have hanswered : Answered _ dropped (.error (.transport .io)) k := @answered_of_plays _ _ _ _ (.read 2) hdropped
  obtain rfl := hanswered.eq_of_error
  have hreads : (ofDescription Sample.shelf (Sample.description 2)).Reads
      [⟨.read 2, dropped, .error (.transport .io)⟩, ⟨.readToEnd, asked, .ok [97, 98]⟩] g :=
    ⟨_, hdropped, _, hasked, rfl⟩
  exact ⟨dropped, asked, g, hreads, (undisturbed hreads).2.1⟩

end File
end DocClient.Blob
