import DocClient.Proofs.Blob.Content
import DocClient.Blob.File

/-! Reading out of chunks. A read gives what comes next of the content, however the content is cut into
chunks and the reads into rooms. Main statements: `copyOut_eq` and `readEach_of_loaded`. -/
namespace DocClient.Blob

/-- A place in chunks with what is left of their content from there on. -/
structure Position.Stands (p : Position) (chunks : List Bytes) (left : Bytes) : Prop where
  offset : p.offset ≤ ((chunks.drop p.chunk).headD []).length
  content : (chunks.drop p.chunk).flatten.drop p.offset = left

theorem Position.stands_start (chunks : List Bytes) : Position.start.Stands chunks chunks.flatten :=
  ⟨Nat.zero_le _, rfl⟩

/-- At the beginning of a chunk all of what comes from there on is left. -/
theorem Position.stands_next {chunks rest : List Bytes} {chunk : Nat} (hrest : chunks.drop chunk = rest)
    (consumed : Nat) : Position.Stands ⟨chunk, 0, consumed⟩ chunks rest.flatten :=
  ⟨Nat.zero_le _, congrArg List.flatten hrest⟩

/-- A place in chunks that are as long together as is said, with what is left of their content from there on. -/
structure Position.Before (p : Position) (chunks : List Bytes) (length : Nat) (left : Bytes) : Prop
    extends p.Stands chunks left where
  consumed : p.consumed + left.length = length

theorem Position.before_start (chunks : List Bytes) :
    Position.start.Before chunks chunks.flatten.length chunks.flatten :=
  ⟨Position.stands_start chunks, Nat.zero_add _⟩

/-- Copying gives the beginning of what is left, as much as the room holds and the length allows, and stops before
the rest. -/
theorem copyFrom_of_stands {chunks rest : List Bytes} {p : Position} {left : Bytes}
    (hp : p.Stands chunks left) (hrest : chunks.drop p.chunk = rest) (length room : Nat) :
    (copyFrom length rest p room).1 = left.take (min room (length - p.consumed)) ∧
      (copyFrom length rest p room).2.Stands chunks (left.drop (min room (length - p.consumed))) ∧
      (copyFrom length rest p room).2.consumed = p.consumed + (copyFrom length rest p room).1.length := by
  -- By induction on the chunks from the position on: it moves over a chunk that was read to its end.
  induction rest generalizing p left room with
  | nil =>
    have hnil : left = [] := by
      rw [← hp.content, hrest]
      simp
    simp only [copyFrom, hnil, List.take_nil, List.drop_nil, List.length_nil, Nat.add_zero, true_and, and_true]
    exact hnil ▸ hp
  | cons chunk rest ih =>
    have hoffset : p.offset ≤ chunk.length := by simpa [hrest] using hp.offset
    have hleft : chunk.drop p.offset ++ rest.flatten = left := by
      rw [← hp.content, hrest, List.flatten_cons, List.drop_append_of_le_length hoffset]
    have hnext : chunks.drop (p.chunk + 1) = rest := by
      rw [← List.drop_drop, hrest]
      rfl
    rw [copyFrom]
    by_cases hstop : room = 0 ∨ length ≤ p.consumed
    · have hzero : min room (length - p.consumed) = 0 := by omega
      rw [if_pos (by simpa using hstop), hzero]
      exact ⟨rfl, hp, rfl⟩
    rw [if_neg (by simpa using hstop)]
    obtain ⟨hroom, hover⟩ := not_or.mp hstop
    by_cases hend : chunk.length ≤ p.offset
    · rw [if_pos hend]
      have hall : rest.flatten = left := by
        rw [← hleft, List.drop_of_length_le hend]
        rfl
      exact ih (hall ▸ Position.stands_next hnext p.consumed) hnext room
    rw [if_neg hend]
    dsimp only
    generalize hn : min (chunk.length - p.offset) (min room (length - p.consumed)) = n
    have hinside : n ≤ (chunk.drop p.offset).length := by
      rw [List.length_drop]
      omega
    have hpiece : (chunk.drop p.offset).take n = left.take n := by
      rw [← hleft, List.take_append_of_le_length hinside]
    have hlength : ((chunk.drop p.offset).take n).length = n := List.length_take_of_le hinside
    by_cases hfull : room = n ∨ length ≤ p.consumed + n
    · have hall : min room (length - p.consumed) = n := by omega
      rw [if_pos (by simpa using hfull), hall]
      refine ⟨hpiece, ⟨?_, ?_⟩, congrArg (p.consumed + ·) hlength.symm⟩
      · rw [hrest]
        change p.offset + n ≤ chunk.length
        omega
      · rw [← List.drop_drop, hp.content]
    · rw [if_neg (by simpa using hfull)]
      obtain ⟨hroom', hover'⟩ := not_or.mp hfull
      have hn' : n = (chunk.drop p.offset).length := by
        rw [List.length_drop]
        omega
      have hbehind : left.drop n = rest.flatten := by rw [← hleft, hn', List.drop_left]
      have hp' : Position.Stands ⟨p.chunk + 1, 0, p.consumed + n⟩ chunks (left.drop n) :=
        hbehind ▸ Position.stands_next hnext _
      have hsum : min room (length - p.consumed) = n + min (room - n) (length - (p.consumed + n)) := by omega
      obtain ⟨hmore, hafter, hconsumed⟩ := ih hp' hnext (room - n)
      rw [List.drop_drop, ← hsum] at hafter
      refine ⟨?_, hafter, ?_⟩
      · rw [hpiece, hmore, hsum, List.take_add]
      · rw [hconsumed, List.length_append, hlength, Nat.add_assoc]

/-- Copying gives the beginning of what is left, and stops before the rest. -/
theorem copyFrom_eq {chunks rest : List Bytes} {length : Nat} {p : Position} {left : Bytes}
    (hp : p.Before chunks length left) (hrest : chunks.drop p.chunk = rest) (room : Nat) :
    (copyFrom length rest p room).1 = left.take room ∧
      (copyFrom length rest p room).2.Before chunks length (left.drop room) := by
  have hconsumed := hp.consumed
  have hallowed : min room (length - p.consumed) = min room left.length := by omega
  obtain ⟨hdata, hstands, htold⟩ := copyFrom_of_stands hp.toStands hrest length room
  rw [hallowed, ← List.take_eq_take_min] at hdata
  have hdrop : left.drop (min room left.length) = left.drop room := by
    rw [List.drop_eq_drop_iff, Nat.min_assoc, Nat.min_self]
  rw [hallowed, hdrop] at hstands
  refine ⟨hdata, hstands, ?_⟩
  rw [htold, hdata, List.length_take, List.length_drop]
  omega

/-- A copy gives the beginning of what is left, and the next one goes on from there. -/
theorem copyOut_eq {chunks : List Bytes} {length : Nat} {p : Position} {left : Bytes}
    (hp : p.Before chunks length left) (room : Nat) :
    (copyOut chunks length p room).1 = left.take room ∧
      (copyOut chunks length p room).2.Before chunks length (left.drop room) :=
  copyFrom_eq hp rfl room

/-- What reads with some rooms make of data, one after the other: each gets as much as its room holds or as
is left. -/
def pieces (data : Bytes) : List Nat → List Bytes
  | [] => []
  | room :: rooms => data.take room :: pieces (data.drop room) rooms

/-- Reads with some rooms give data in its order: each begins where the one before it ended, and gets as much
as its room holds or as is left. -/
structure Delivers (data : Bytes) (rooms : List Nat) (reads : List Bytes) : Prop where
  count : reads.length = rooms.length
  content : reads.flatten <+: data
  each : ∀ i room, rooms[i]? = some room →
    reads[i]? = some ((data.drop (reads.take i).flatten.length).take room)

theorem delivers_pieces (data : Bytes) (rooms : List Nat) : Delivers data rooms (pieces data rooms) := by
  induction rooms generalizing data with
  | nil => exact ⟨rfl, List.nil_prefix, nofun⟩
  | cons room rooms ih =>
    obtain ⟨hcount, hcontent, heach⟩ := ih (data.drop room)
    have hdrop : data.drop (data.take room).length = data.drop room := by
      rw [List.length_take, List.drop_eq_drop_iff]
      omega
    refine ⟨congrArg (· + 1) hcount, ?_, ?_⟩
    · obtain ⟨rest, hrest⟩ := hcontent
      refine ⟨rest, ?_⟩
      rw [pieces, List.flatten_cons, List.append_assoc, hrest, List.take_append_drop]
    · intro i room' hroom
      cases i with
      | zero =>
        obtain rfl : room = room' := by simpa using hroom
        simp [pieces]
      | succ i =>
        have hnext := heach i room' (by simpa using hroom)
        rw [← hdrop, List.drop_drop] at hnext
        rw [pieces, List.getElem?_cons_succ, List.take_succ_cons, List.flatten_cons, List.length_append,
          ← hdrop]
        exact hnext

namespace File

def readEach (f : File) : List Nat → Program (List (Except Error Bytes) × File)
  | [] => .done ([], f)
  | room :: rooms =>
    (f.read room).bind fun (outcome, f) => (f.readEach rooms).bind fun (outcomes, f) =>
      .done (outcome :: outcomes, f)

/-- An open file whose chunks are loaded. -/
structure Ready (f : File) : Prop where
  opened : f.closed = false
  reading : f.access = .reading
  loaded : f.loaded = true

/-- A file whose chunks are loaded asks nobody for what comes next. -/
theorem read_of_ready {f : File} (h : f.Ready) (room : Nat) :
    f.read room = .done (.ok (f.copyNext room).1, (f.copyNext room).2) := by
  unfold read
  rw [h.opened, h.reading, h.loaded]
  rfl

theorem Ready.copyNext {f : File} (h : f.Ready) (room : Nat) : (f.copyNext room).2.Ready :=
  ⟨h.opened, h.reading, h.loaded⟩

/-- An open file whose chunks are loaded, with what is left to read. -/
structure Loaded (f : File) (left : Bytes) : Prop extends f.Ready where
  position : f.position.Before f.chunks f.length left

variable {f : File} {left : Bytes}

/-- A loaded file gives its content piece by piece and asks nobody. -/
theorem readEach_of_loaded (h : f.Loaded left) (rooms : List Nat) :
    ∃ g, f.readEach rooms = .done ((pieces left rooms).map .ok, g) := by
  induction rooms generalizing f left with
  | nil => exact ⟨f, rfl⟩
  | cons room rooms ih =>
    obtain ⟨hdata, hafter⟩ := copyOut_eq h.position room
    have hread : f.read room = .done (.ok (left.take room), (f.copyNext room).2) := by
      rw [read_of_ready h.toReady, ← hdata]
      rfl
    have hloaded : (f.copyNext room).2.Loaded (left.drop room) := ⟨h.toReady.copyNext room, hafter⟩
    obtain ⟨g, hg⟩ := ih hloaded
    refine ⟨g, ?_⟩
    rw [readEach, hread, Program.done_bind]
    dsimp only
    rw [hg]
    rfl

end File
end DocClient.Blob
