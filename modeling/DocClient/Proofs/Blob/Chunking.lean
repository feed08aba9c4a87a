import DocClient.Proofs.Blob.Content
import DocClient.Proofs.Loop

/-! Adding data to chunks, round by round. Main statement: `chunked_of_calls`, by which the loop that adds data comes
to its end, and chunks that were begun with none are full up to the last, whatever the calls that the data came
in. -/
namespace DocClient.Blob

/-! ### The loop -/

/-- Data that is being added to chunks: the chunks so far and the data that is left. -/
structure Appending where
  chunks : List Bytes
  left : Bytes

/-- Whether there is no last chunk with room in it. -/
def isFull (size : Nat) (chunks : List Bytes) : Bool := chunks.getLast?.all fun last => size ≤ last.length

/-- One round fills up the last chunk, after another was begun if there is no room in it. -/
def appendNext? (size : Nat) (s : Appending) : Option Appending := do
  let chunks := if isFull size s.chunks then s.chunks ++ [[]] else s.chunks
  let place ← minus? chunks.length 1
  let last ← chunks[place]?
  let room ← minus? size last.length
  let n := min room s.left.length
  let piece ← slice? s.left 0 n
  let left ← slice? s.left n s.left.length
  some ⟨chunks.set place (last ++ piece), left⟩

def appending (size : Nat) : Loop Appending where
  goesOn s := !s.left.isEmpty
  round? := appendNext? size

section Rounds

variable {size : Nat} {before : List Bytes} {last data : Bytes} {chunks : List Bytes}

theorem isFull_concat (size : Nat) (before : List Bytes) (last : Bytes) :
    isFull size (before ++ [last]) = decide (size ≤ last.length) := by
  simp [isFull]

/-- The data goes to the last chunk of those that are there or were begun. -/
theorem appendNext?_of_last (hlast : last.length ≤ size)
    (hchunks : (if isFull size chunks then chunks ++ [[]] else chunks) = before ++ [last]) :
    appendNext? size ⟨chunks, data⟩ =
      some ⟨before ++ [last ++ data.take (size - last.length)], data.drop (size - last.length)⟩ := by
  have hplace : minus? (before ++ [last]).length 1 = some before.length := by
    rw [List.length_append]
    exact minus?_of_le (Nat.le_add_left _ _)
  have hget : (before ++ [last])[before.length]? = some last := List.getElem?_concat_length
  have hset : ∀ piece, (before ++ [last]).set before.length piece = before ++ [piece] := by
    simp
  unfold appendNext?
  simp only [hchunks, hplace, hget, minus?_of_le hlast, slice?_min_left,
    slice?_min_right, hset, Option.bind_eq_bind, Option.bind_some]

theorem appendNext?_of_room (h : last.length < size) (data : Bytes) :
    appendNext? size ⟨before ++ [last], data⟩ =
      some ⟨before ++ [last ++ data.take (size - last.length)], data.drop (size - last.length)⟩ := by
  refine appendNext?_of_last (Nat.le_of_lt h) (if_neg ?_)
  rw [isFull_concat]
  exact mt of_decide_eq_true (Nat.not_le_of_lt h)

theorem appendNext?_of_full (h : isFull size chunks = true) (data : Bytes) :
    appendNext? size ⟨chunks, data⟩ = some ⟨chunks ++ [data.take size], data.drop size⟩ :=
  appendNext?_of_last (Nat.zero_le size) (if_pos h)

end Rounds

section Runs

variable {size : Nat} {chunks : List Bytes}

private theorem goesOn_of_ne_nil (chunks : List Bytes) {data : Bytes} (h : data ≠ []) :
    (appending size).goesOn ⟨chunks, data⟩ = true := by
  simpa [appending] using h

/-- After a piece of data, either the chunk that takes it is full or no data is left. -/
private theorem full_or_done (chunk data : Bytes) (h : chunk.length ≤ size) :
    size ≤ (chunk ++ data.take (size - chunk.length)).length ∨ data.drop (size - chunk.length) = [] := by
  rw [List.length_append, List.length_take, List.drop_eq_nil_iff]
  omega

/-- Behind a full chunk the loop cuts data as it is cut by itself. -/
theorem ends_split (hsize : 0 < size) (before : List Bytes) {last data : Bytes}
    (h : size ≤ last.length ∨ data = []) :
    (appending size).Ends ⟨before ++ [last], data⟩ ⟨before ++ last :: split size data, []⟩ := by
  induction data using split.induct size generalizing before last with
  | case1 data hdata =>
    obtain rfl : data = [] := hdata.resolve_left (Nat.ne_of_gt hsize)
    rw [split_nil]
    exact .stop rfl
  | case2 data hdata ih =>
    have hne : data ≠ [] := (not_or.mp hdata).2
    have hfull : isFull size (before ++ [last]) = true :=
      (isFull_concat size before last).trans (decide_eq_true (h.resolve_right hne))
    rw [split_of_ne_nil hsize hne, List.append_cons before last (_ :: _)]
    exact .round (goesOn_of_ne_nil _ hne) (appendNext?_of_full hfull data)
      (ih _ (full_or_done [] data (Nat.zero_le size)))

theorem append_concat (size : Nat) (before : List Bytes) (last data : Bytes) :
    append size (before ++ [last]) data = before ++ append size [last] data := by
  induction before with
  | nil => rfl
  | cons chunk before ih =>
    cases before with
    | nil => rfl
    | cons next rest => exact congrArg (chunk :: ·) ih

/-- The loop adds data to whatever chunks as it is added to them. -/
theorem ends_append (hsize : 0 < size) (chunks : List Bytes) (data : Bytes) :
    (appending size).Ends ⟨chunks, data⟩ ⟨append size chunks data, []⟩ := by
  obtain rfl | ⟨before, last, rfl⟩ := List.eq_nil_or_concat' chunks
  · by_cases hdata : data = []
    · rw [hdata, append, split_nil]
      exact .stop rfl
    · rw [append, split_of_ne_nil hsize hdata]
      exact .round (goesOn_of_ne_nil _ hdata) (appendNext?_of_full rfl data)
        (ends_split hsize [] (full_or_done [] data (Nat.zero_le size)))
  rw [append_concat, append]
  by_cases hfull : size ≤ last.length
  · rw [if_pos hfull]
    exact ends_split hsize before (.inl hfull)
  rw [if_neg hfull]
  have hroom : last.length < size := Nat.lt_of_not_le hfull
  by_cases hdata : data = []
  · subst hdata
    simp only [List.take_nil, List.drop_nil, List.append_nil, split_nil]
    exact .stop rfl
  · exact .round (goesOn_of_ne_nil _ hdata) (appendNext?_of_room hroom data)
      (ends_split hsize before (full_or_done last data (Nat.le_of_lt hroom)))

end Runs

/-! ### The chunks -/

/-- Data in chunks of a size, of which only the last may hold less, but not nothing. -/
structure Chunked (size : Nat) (data : Bytes) (chunks : List Bytes) : Prop where
  content : chunks.flatten = data
  full : ∀ chunk ∈ chunks.dropLast, chunk.length = size
  last : ∀ chunk ∈ chunks.getLast?, 1 ≤ chunk.length ∧ chunk.length ≤ size

namespace Chunked

variable {size : Nat} {chunk data : Bytes} {rest : List Bytes}

theorem nil (size : Nat) : Chunked size [] [] := ⟨rfl, nofun, nofun⟩

theorem singleton (h : 1 ≤ chunk.length) (h' : chunk.length ≤ size) : Chunked size chunk [chunk] := by
  refine ⟨List.flatten_singleton, nofun, ?_⟩
  intro last hlast
  obtain rfl : chunk = last := by simpa using hlast
  exact ⟨h, h'⟩

theorem cons (hchunk : chunk.length = size) (h : Chunked size data rest) (hrest : rest ≠ []) :
    Chunked size (chunk ++ data) (chunk :: rest) := by
  constructor
  case content => rw [List.flatten_cons, h.content]
  case full =>
    rw [List.dropLast_cons_of_ne_nil hrest, List.forall_mem_cons]
    exact ⟨hchunk, h.full⟩
  case last =>
    rw [List.getLast?_cons_of_ne_nil hrest]
    exact h.last

end Chunked

section Calls

variable {size : Nat}

theorem chunked_split (hsize : 0 < size) (data : Bytes) : Chunked size data (split size data) := by
  induction data using split.induct size with
  | case1 data hdata =>
    obtain rfl : data = [] := hdata.resolve_left (Nat.ne_of_gt hsize)
    rw [split_nil]
    exact .nil size
  | case2 data hdata ih =>
    have hne : data ≠ [] := (not_or.mp hdata).2
    by_cases hlength : data.length ≤ size
    · rw [split_of_length_le hne hlength]
      exact .singleton (List.length_pos_iff.mpr hne) hlength
    · have hrest : split size (data.drop size) ≠ [] := by
        rwa [Ne, split_eq_nil_iff hsize, List.drop_eq_nil_iff]
      have hcons := Chunked.cons (List.length_take_of_le (Nat.le_of_not_le hlength)) ih hrest
      rwa [List.take_append_drop, ← split_of_ne_nil hsize hne] at hcons

theorem foldl_append (hsize : 0 < size) (data : Bytes) (calls : List Bytes) :
    calls.foldl (append size) (split size data) = split size (data ++ calls.flatten) := by
  induction calls generalizing data with
  | nil => rw [List.foldl_nil, List.flatten_nil, List.append_nil]
  | cons call calls ih => rw [List.foldl_cons, append_split hsize, ih, List.flatten_cons, List.append_assoc]

/-- After any calls from no chunks on, the loop of one more comes to an end without a failure and in one state only,
with the data added. The chunks hold the data of all calls, they are full up to the last, which is not empty, and
other calls with the same data make the same chunks. -/
theorem chunked_of_calls (hsize : 1 ≤ size) (calls : List Bytes) :
    (∀ data s, (appending size).Ends ⟨calls.foldl (append size) [], data⟩ s ↔
        s = ⟨append size (calls.foldl (append size) []) data, []⟩) ∧
      Chunked size calls.flatten (calls.foldl (append size) []) ∧
      ∀ others : List Bytes, others.flatten = calls.flatten →
        others.foldl (append size) [] = calls.foldl (append size) [] := by
  have hall (calls : List Bytes) : calls.foldl (append size) [] = split size calls.flatten := by
    have hfold := foldl_append hsize [] calls
    rwa [split_nil, List.nil_append] at hfold
  refine ⟨fun data s => (ends_append hsize _ data).iff_eq, ?_, ?_⟩
  · rw [hall]
    exact chunked_split hsize _
  · intro others hsame
    rw [hall, hall, hsame]

/-- A chunk that is partial after a call is filled up by the next one that has data. -/
theorem chunked_of_three_calls :
    let calls : List Bytes := [[1, 2, 3], [], [4, 5, 6, 7, 8, 9]]
    1 ≤ 4 ∧ calls.foldl (append 4) [] = [[1, 2, 3, 4], [5, 6, 7, 8], [9]] ∧
      Chunked 4 [1, 2, 3, 4, 5, 6, 7, 8, 9] (calls.foldl (append 4) []) ∧
      [[1, 2, 3, 4, 5, 6, 7, 8, 9]].foldl (append 4) [] = calls.foldl (append 4) [] := by
  intro calls
  have hsize : 1 ≤ 4 := by decide
  obtain ⟨-, hchunked, hother⟩ := chunked_of_calls hsize calls
  exact ⟨hsize, by simp [calls, append, split], hchunked, hother _ rfl⟩

end Calls

end DocClient.Blob
