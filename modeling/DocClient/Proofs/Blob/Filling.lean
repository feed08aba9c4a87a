import DocClient.Proofs.Blob.Reading
import DocClient.Proofs.Loop

/-! Copying out of chunks into a buffer, piece by piece. Main statement: `fills_of_reached`, by which the loop that
fills a buffer comes to its end, gives exactly what comes next of the content, and stops where the next copy goes
on. -/
namespace DocClient.Blob

/-! ### The loop -/

/-- A copy under way: where it reads next, how much it has written, and the buffer that it writes to. -/
structure Filling where
  position : Position
  written : Nat
  buffer : Bytes

/-- One round moves over a chunk that was read to its end, or copies what is left of one, as far as the buffer
and the length allow. -/
def fillNext? (chunks : List Bytes) (length : Nat) (s : Filling) : Option Filling := do
  let p := s.position
  let chunk ← chunks[p.chunk]?
  if chunk.length ≤ p.offset then
    some { s with position := ⟨p.chunk + 1, 0, p.consumed⟩ }
  else do
    let ofChunk ← minus? chunk.length p.offset
    let ofBuffer ← minus? s.buffer.length s.written
    let ofLength ← minus? length p.consumed
    let n := min (min ofChunk ofBuffer) ofLength
    let piece ← slice? chunk p.offset (p.offset + n)
    let buffer ← overwrite? s.buffer s.written (s.written + n) piece
    some ⟨⟨p.chunk, p.offset + n, p.consumed + n⟩, s.written + n, buffer⟩

/-- Fills the buffer, as long as there is room in it, the length is not reached, and chunks are left. -/
def filling (chunks : List Bytes) (length : Nat) : Loop Filling where
  goesOn s := s.written < s.buffer.length && s.position.consumed < length && s.position.chunk < chunks.length
  round? := fillNext? chunks length

namespace Filling

/-- What becomes of a copy by writing a piece and going on to a position. -/
def write (s : Filling) (r : Bytes × Position) : Filling :=
  ⟨r.2, s.written + r.1.length, overwrite s.buffer s.written r.1⟩

variable {s : Filling}

theorem write_nil (s : Filling) : s.write ([], s.position) = s := by
  simp [write]

theorem length_write {r : Bytes × Position} (h : s.written + r.1.length ≤ s.buffer.length) :
    (s.write r).buffer.length = s.buffer.length := length_overwrite h

theorem write_write {piece : Bytes} (h : s.written + piece.length ≤ s.buffer.length) (p : Position)
    (r : Bytes × Position) : (s.write (piece, p)).write r = s.write (piece ++ r.1, r.2) := by
  simp only [write, overwrite_overwrite h, List.length_append, Nat.add_assoc]

end Filling

section Rounds

variable {chunks : List Bytes} {chunk : Bytes} {length : Nat} {s : Filling}

theorem goesOn_filling_iff :
    (filling chunks length).goesOn s = true ↔
      s.written < s.buffer.length ∧ s.position.consumed < length ∧ s.position.chunk < chunks.length := by
  simp [filling, and_assoc]

theorem ends_of_done
    (h : s.buffer.length ≤ s.written ∨ length ≤ s.position.consumed ∨ chunks.length ≤ s.position.chunk) :
    (filling chunks length).Ends s s := by
  refine .stop (Bool.eq_false_iff.mpr fun hgoes => ?_)
  obtain ⟨hroom, hlength, hchunk⟩ := goesOn_filling_iff.mp hgoes
  omega

theorem fillNext?_of_end (hchunk : chunks[s.position.chunk]? = some chunk) (hend : chunk.length ≤ s.position.offset) :
    fillNext? chunks length s =
      some { s with position := ⟨s.position.chunk + 1, 0, s.position.consumed⟩ } := by
  unfold fillNext?
  dsimp only
  rw [hchunk]
  exact if_pos hend

theorem fillNext?_of_piece (hchunk : chunks[s.position.chunk]? = some chunk)
    (hoffset : s.position.offset < chunk.length) (hroom : s.written ≤ s.buffer.length)
    (hlength : s.position.consumed ≤ length) {n : Nat}
    (hn : min (chunk.length - s.position.offset)
      (min (s.buffer.length - s.written) (length - s.position.consumed)) = n) :
    fillNext? chunks length s = some (s.write ((chunk.drop s.position.offset).take n,
      ⟨s.position.chunk, s.position.offset + n, s.position.consumed + n⟩)) := by
  have hpiece : slice? chunk s.position.offset (s.position.offset + n) =
      some ((chunk.drop s.position.offset).take n) := by
    rw [slice?_of_le (Nat.le_add_right _ _) (by omega), Nat.add_sub_cancel_left]
  have hsize : ((chunk.drop s.position.offset).take n).length = n := by
    rw [List.length_take, List.length_drop]
    omega
  have hbuffer := overwrite?_of_le (congrArg (s.written + ·) hsize) (show s.written + n ≤ s.buffer.length by omega)
  unfold fillNext?
  simp only [hchunk, Option.bind_eq_bind, Option.bind_some, if_neg (Nat.not_le_of_lt hoffset),
    minus?_of_le (Nat.le_of_lt hoffset), minus?_of_le hroom, minus?_of_le hlength, Nat.min_assoc, hn, hpiece, hbuffer,
    Filling.write, hsize]

end Rounds

/-- From wherever it begins, the loop copies what is copied chunk by chunk. -/
theorem ends_copyFrom {chunks rest : List Bytes} {s : Filling} (hrest : chunks.drop s.position.chunk = rest)
    (hroom : s.written ≤ s.buffer.length) (length : Nat) :
    (filling chunks length).Ends s
      (s.write (copyFrom length rest s.position (s.buffer.length - s.written))) := by
  -- By induction on the chunks from the position on, as the copy itself. A piece that leaves room and length to
  -- spare ends with its chunk, so that the loop takes one more round to go on to the next.
  induction rest generalizing s with
  | nil =>
    rw [copyFrom, s.write_nil]
    exact ends_of_done (.inr (.inr (List.drop_eq_nil_iff.mp hrest)))
  | cons chunk rest ih =>
    have hchunk : chunks[s.position.chunk]? = some chunk := by
      rw [← List.head?_drop, hrest, List.head?_cons]
    have hnext : chunks.drop (s.position.chunk + 1) = rest := by
      rw [← List.drop_drop, hrest, List.drop_one, List.tail_cons]
    have hinside : s.position.chunk < chunks.length := (List.getElem?_eq_some_iff.mp hchunk).1
    rw [copyFrom]
    by_cases hstop : s.buffer.length - s.written = 0 ∨ length ≤ s.position.consumed
    · rw [if_pos (by simpa using hstop), s.write_nil]
      exact ends_of_done (by omega)
    have hgoes : (filling chunks length).goesOn s = true := goesOn_filling_iff.mpr (by omega)
    rw [if_neg (by simpa using hstop)]
    by_cases hend : chunk.length ≤ s.position.offset
    · rw [if_pos hend]
      exact .round hgoes (fillNext?_of_end hchunk hend) (ih hnext hroom)
    rw [if_neg hend]
    dsimp only
    generalize hn : min (chunk.length - s.position.offset)
      (min (s.buffer.length - s.written) (length - s.position.consumed)) = n
    have hpiece := fillNext?_of_piece hchunk (by omega) hroom (by omega) hn
    have hsize : ((chunk.drop s.position.offset).take n).length = n := by
      rw [List.length_take, List.length_drop]
      omega
    generalize (chunk.drop s.position.offset).take n = piece at hpiece hsize
    have hfits : s.written + piece.length ≤ s.buffer.length := by omega
    have hbuffer (p : Position) : (s.write (piece, p)).buffer.length = s.buffer.length := s.length_write hfits
    have hwritten (p : Position) : (s.write (piece, p)).written = s.written + n := congrArg (s.written + ·) hsize
    refine .round hgoes hpiece ?_
    by_cases hfull : s.buffer.length - s.written = n ∨ length ≤ s.position.consumed + n
    · rw [if_pos (by simpa using hfull)]
      refine ends_of_done (hfull.imp (fun h => ?_) .inl)
      rw [hbuffer, hwritten]
      omega
    · rw [if_neg (by simpa using hfull)]
      have hover : chunk.length ≤ s.position.offset + n := by omega
      refine .round (goesOn_filling_iff.mpr ?_) (fillNext?_of_end hchunk hover) ?_
      · rw [hbuffer, hwritten]
        exact ⟨by omega, Nat.lt_of_not_le (mt .inr hfull), hinside⟩
      have hmore := ih (s := s.write (piece, ⟨s.position.chunk + 1, 0, s.position.consumed + n⟩)) hnext (by
        rw [hbuffer, hwritten]
        omega)
      rwa [Filling.write_write hfits, hbuffer, hwritten, Nat.sub_add_eq] at hmore

/-! ### Positions in turn -/

/-- The positions that copies lead to, one after another from the start. -/
inductive Position.Reached (chunks : List Bytes) (length : Nat) : Position → Prop
  | start : Reached chunks length .start
  | copied {p : Position} (h : Reached chunks length p) (room : Nat) :
      Reached chunks length (copyOut chunks length p room).2

/-- A position before what is left of the content behind the bytes that were read. -/
structure Position.Resumes (p : Position) (chunks : List Bytes) (length : Nat) : Prop where
  stands : p.Stands chunks (chunks.flatten.drop p.consumed)
  within : p.consumed ≤ min length chunks.flatten.length

section Copies

variable {chunks : List Bytes} {length : Nat} {p : Position}

/-- A copy takes what the room, the length and the content allow, and the next one resumes behind it. -/
theorem Position.Resumes.copyOut (h : p.Resumes chunks length) (room : Nat) :
    (copyOut chunks length p room).1 =
        (chunks.flatten.drop p.consumed).take (min room (min length chunks.flatten.length - p.consumed)) ∧
      (copyOut chunks length p room).2.consumed =
        p.consumed + min room (min length chunks.flatten.length - p.consumed) ∧
      (copyOut chunks length p room).2.Resumes chunks length := by
  have hwithin := h.within
  generalize hn : min room (min length chunks.flatten.length - p.consumed) = n
  have hleft : (chunks.flatten.drop p.consumed).length = chunks.flatten.length - p.consumed := List.length_drop
  have hcount : min (min room (length - p.consumed)) (chunks.flatten.drop p.consumed).length = n := by omega
  obtain ⟨hdata, hafter, hconsumed⟩ := copyFrom_of_stands h.stands rfl length room
  rw [List.take_eq_take_min, hcount] at hdata
  have hdrop : (chunks.flatten.drop p.consumed).drop (min room (length - p.consumed)) =
      chunks.flatten.drop (p.consumed + n) := by
    rw [← List.drop_drop, List.drop_eq_drop_iff]
    omega
  rw [hdrop] at hafter
  rw [hdata, List.length_take_of_le (by omega)] at hconsumed
  refine ⟨hdata, hconsumed, ?_, ?_⟩
  · change (copyFrom _ _ _ _).2.Stands chunks (chunks.flatten.drop (copyFrom _ _ _ _).2.consumed)
    rwa [hconsumed]
  · change (copyFrom _ _ _ _).2.consumed ≤ _
    omega

theorem Position.Reached.resumes (h : p.Reached chunks length) : p.Resumes chunks length := by
  induction h with
  | start => exact ⟨Position.stands_start chunks, Nat.zero_le _⟩
  | copied _ room ih => exact (ih.copyOut room).2.2

/-- What was read ends at the place in the chunks where the position is. -/
theorem Position.Resumes.consumed_eq (h : p.Resumes chunks length) :
    p.consumed = (chunks.take p.chunk).flatten.length + p.offset := by
  have hwithin := h.within
  have hleft := congrArg List.length h.stands.content
  have hall : (chunks.take p.chunk).flatten.length + (chunks.drop p.chunk).flatten.length = chunks.flatten.length := by
    rw [← List.length_append, ← List.flatten_append, List.take_append_drop]
  have hinside : p.offset ≤ (chunks.drop p.chunk).flatten.length := by
    refine Nat.le_trans h.stands.offset ?_
    cases chunks.drop p.chunk with
    | nil => exact Nat.zero_le _
    | cons chunk rest =>
      rw [List.headD_cons, List.flatten_cons, List.length_append]
      exact Nat.le_add_right _ _
  rw [List.length_drop, List.length_drop] at hleft
  omega

end Copies

/-! ### What a copy comes to -/

/-- A buffer that was filled from a position: how much was written, which bytes they are, what is left of the buffer,
and where the next copy goes on. -/
structure Fills (chunks : List Bytes) (length : Nat) (p : Position) (buffer : Bytes) (s : Filling) : Prop where
  written : s.written = min buffer.length (min length chunks.flatten.length - p.consumed)
  size : s.buffer.length = buffer.length
  filled : s.buffer.take s.written = (chunks.flatten.drop p.consumed).take s.written
  untouched : s.buffer.drop s.written = buffer.drop s.written
  consumed : s.position.consumed = p.consumed + s.written
  within : s.position.consumed ≤ length
  placed : s.position.consumed = (chunks.take s.position.chunk).flatten.length + s.position.offset

/-- From every position that earlier copies led to, filling a buffer comes to an end without a failure and in one
state only: that has exactly what comes next of the content, as a copy gives it, in front of what was in the buffer
before. -/
theorem fills_of_reached {chunks : List Bytes} {length : Nat} {p : Position} (h : p.Reached chunks length)
    (buffer : Bytes) :
    ∃ s : Filling, (∀ t, (filling chunks length).Ends ⟨p, 0, buffer⟩ t ↔ t = s) ∧
      Fills chunks length p buffer s ∧
      copyOut chunks length p buffer.length = (s.buffer.take s.written, s.position) := by
  have hends : (filling chunks length).Ends ⟨p, 0, buffer⟩
      (Filling.write ⟨p, 0, buffer⟩ (copyOut chunks length p buffer.length)) :=
    ends_copyFrom rfl (Nat.zero_le _) length
  obtain ⟨hpiece, hconsumed, hafter⟩ := h.resumes.copyOut buffer.length
  have hwithin := h.resumes.within
  generalize hn : min buffer.length (min length chunks.flatten.length - p.consumed) = n at hpiece hconsumed
  generalize copyOut chunks length p buffer.length = copy at hends hpiece hconsumed hafter ⊢
  obtain ⟨piece, after⟩ := copy
  dsimp only at hpiece hconsumed hafter
  have hsize : piece.length = n := by
    rw [hpiece, List.length_take, List.length_drop]
    omega
  have hwrite : Filling.write ⟨p, 0, buffer⟩ (piece, after) = ⟨after, n, piece ++ buffer.drop n⟩ := by
    simp [Filling.write, overwrite, hsize]
  rw [hwrite] at hends
  have hfilled : (piece ++ buffer.drop n).take n = piece := List.take_left' hsize
  refine ⟨_, fun t => hends.iff_eq, ?fills, Prod.ext hfilled.symm rfl⟩
  case fills =>
    constructor
    case written => exact hn.symm
    case size =>
      rw [List.length_append, hsize, List.length_drop]
      omega
    case filled => exact hfilled.trans hpiece
    case untouched => exact List.drop_left' hsize
    case consumed => exact hconsumed
    case within => exact Nat.le_trans hafter.within (Nat.min_le_left _ _)
    case placed => exact hafter.consumed_eq

/-- Into a chunk behind an empty one, up to a length that ends before the content does. -/
theorem fills_up_to_length :
    let chunks : List Bytes := [[1], [], [2, 3, 4]]
    let p : Position := ⟨0, 1, 1⟩
    p.Reached chunks 3 ∧
      (∀ t, (filling chunks 3).Ends ⟨p, 0, [9, 9, 9]⟩ t ↔ t = ⟨⟨2, 2, 3⟩, 2, [2, 3, 9]⟩) ∧
      Fills chunks 3 p [9, 9, 9] ⟨⟨2, 2, 3⟩, 2, [2, 3, 9]⟩ := by
  intro chunks p
  have hreached : p.Reached chunks 3 := .copied .start 1
  have hrun : (filling chunks 3).Ends ⟨p, 0, [9, 9, 9]⟩ ⟨⟨2, 2, 3⟩, 2, [2, 3, 9]⟩ :=
    .round rfl rfl (.round rfl rfl (.round rfl rfl (.stop rfl)))
  obtain ⟨s, hends, hfills, -⟩ := fills_of_reached hreached [9, 9, 9]
  obtain rfl := (hends _).mp hrun
  exact ⟨hreached, hends, hfills⟩

end DocClient.Blob
