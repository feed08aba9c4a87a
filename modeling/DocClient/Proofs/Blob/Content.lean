import DocClient.Blob.Chunks

/-! Data in chunks. Main statements: adding data to chunks depends on the bytes alone (`append_split`), and
the first chunks of data hold its beginning (`flatten_take_split`). -/
namespace DocClient.Blob

variable {size : Nat}

@[simp] theorem split_nil (size : Nat) : split size [] = [] := by
  unfold split
  simp

theorem split_of_ne_nil (hsize : 0 < size) {data : Bytes} (h : data ≠ []) :
    split size data = data.take size :: split size (data.drop size) := by
  rw [split, dif_neg (by simp [h, Nat.ne_of_gt hsize])]

theorem split_eq_nil_iff (hsize : 0 < size) {data : Bytes} : split size data = [] ↔ data = [] := by
  constructor
  · intro h
    by_cases hne : data = []
    · exact hne
    · rw [split_of_ne_nil hsize hne] at h
      cases h
  · rintro rfl
    exact split_nil size

theorem split_of_length_le {data : Bytes} (h : data ≠ []) (hle : data.length ≤ size) :
    split size data = [data] := by
  have hsize : 0 < size := Nat.lt_of_lt_of_le (List.length_pos_iff.mpr h) hle
  rw [split_of_ne_nil hsize h, List.take_of_length_le hle, List.drop_of_length_le hle, split_nil]

/-- The first chunks hold the beginning of the data. -/
theorem flatten_take_split (hsize : 0 < size) (data : Bytes) (k : Nat) :
    ((split size data).take k).flatten = data.take (size * k) := by
  induction k generalizing data with
  | zero => simp
  | succ k ih =>
    by_cases h : data = []
    · simp [h]
    · rw [split_of_ne_nil hsize h, List.take_succ_cons, List.flatten_cons, ih, Nat.mul_succ,
        Nat.add_comm, List.take_add]

theorem flatten_split (hsize : 0 < size) (data : Bytes) : (split size data).flatten = data := by
  induction data using split.induct size with
  | case1 data h =>
    obtain h | rfl := h
    · omega
    · simp
  | case2 data h ih =>
    rw [split_of_ne_nil hsize (by simp_all), List.flatten_cons, ih, List.take_append_drop]

/-- So many chunks hold so much data. -/
theorem length_split_le_iff (hsize : 0 < size) {data : Bytes} {k : Nat} :
    (split size data).length ≤ k ↔ data.length ≤ size * k := by
  constructor
  · intro h
    have hall := flatten_take_split hsize data k
    rw [List.take_of_length_le h, flatten_split hsize] at hall
    rw [hall]
    exact List.length_take_le _ _
  · induction k generalizing data with
    | zero =>
      intro h
      obtain rfl : data = [] := List.eq_nil_of_length_eq_zero (by omega)
      simp
    | succ k ih =>
      intro h
      by_cases hne : data = []
      · simp [hne]
      · rw [split_of_ne_nil hsize hne, List.length_cons]
        have hrest : (data.drop size).length ≤ size * k := by
          rw [List.length_drop]
          rw [Nat.mul_succ] at h
          omega
        have := ih hrest
        omega

private theorem append_cons {chunk : Bytes} {rest : List Bytes} (h : rest ≠ []) (size : Nat)
    (data : Bytes) : append size (chunk :: rest) data = chunk :: append size rest data := by
  cases rest with
  | nil => exact absurd rfl h
  | cons next others => rfl

private theorem append_singleton (hsize : 0 < size) {last : Bytes} (h : last ≠ [])
    (hle : last.length ≤ size) (data : Bytes) : append size [last] data = split size (last ++ data) := by
  have hne : last ++ data ≠ [] := by simp [h]
  rw [split_of_ne_nil hsize hne, List.take_append, List.drop_append, List.take_of_length_le hle,
    List.drop_of_length_le hle, List.nil_append, append]
  by_cases hfull : size ≤ last.length
  · have hroom : size - last.length = 0 := by omega
    simp [hfull, hroom]
  · simp [hfull]

theorem length_split_mono (hsize : 0 < size) {data more : Bytes} (h : data.length ≤ more.length) :
    (split size data).length ≤ (split size more).length :=
  (length_split_le_iff hsize).mpr (Nat.le_trans h ((length_split_le_iff hsize).mp (Nat.le_refl _)))

/-- Chunks that are filled up as data comes in are the chunks of all the data. -/
theorem append_split (hsize : 0 < size) (data more : Bytes) :
    append size (split size data) more = split size (data ++ more) := by
  induction data using split.induct size with
  | case1 data h =>
    obtain h | rfl := h
    · omega
    · rw [split_nil, List.nil_append]
      rfl
  | case2 data h ih =>
    have hne : data ≠ [] := by simp_all
    by_cases hle : data.length ≤ size
    · rw [split_of_length_le hne hle, append_singleton hsize hne hle]
    · have hrest : split size (data.drop size) ≠ [] := by
        rw [Ne, split_eq_nil_iff hsize, List.drop_eq_nil_iff]
        exact hle
      have hlt : size ≤ data.length := by omega
      have hall : data ++ more ≠ [] := by simp [hne]
      rw [split_of_ne_nil hsize hne, append_cons hrest, ih, split_of_ne_nil hsize hall,
        List.take_append_of_le_length hlt, List.drop_append_of_le_length hlt]

end DocClient.Blob
