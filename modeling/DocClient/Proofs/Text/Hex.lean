import DocClient.Proofs.Outcomes
import Mathlib.Data.String.Basic

/-! Hexadecimal text, read and written. Main statements: `decode_eq_ok_iff`, by which a text of digits is read as the
bytes that are written as the text in lower case, and `decode_encode`. -/
namespace DocClient.Hex

/-! ### Digits -/

/-- Whether a character is a digit, of either case. -/
def isDigit (c : Char) : Bool :=
  ('0' ≤ c && c ≤ '9') || ('a' ≤ c && c ≤ 'f') || ('A' ≤ c && c ≤ 'F')

theorem digit_lt_digit_iff : ∀ m < 16, ∀ n < 16, (digit m < digit n ↔ m < n) := by decide

theorem digit_inj : ∀ m < 16, ∀ n < 16, (digit m = digit n ↔ m = n) := by decide

theorem isDigit_digit : ∀ n < 16, isDigit (digit n) = true := by decide

theorem toLower_digit : ∀ n < 16, (digit n).toLower = digit n := by decide

theorem lt_of_digitValue? {b : UInt8} {n : Nat} (h : digitValue? b = some n) : n < 16 := by
  unfold digitValue? at h
  grind

/-- A byte stands for a digit, which is written in lower case. -/
def StandsFor (b : UInt8) (d : Char) : Prop := (digitValue? b).map digit = some d

theorem lt_ascii_of_isDigit {c : Char} (h : isDigit c = true) : c.toNat < 128 := by
  have hle {d : Char} (hc : c ≤ d) (hd : d.toNat < 128) : c.toNat < 128 :=
    lt_of_le_of_lt (UInt32.le_iff_toNat_le.mp (Char.le_def.mp hc)) hd
  simp only [isDigit, Bool.or_eq_true, Bool.and_eq_true, decide_eq_true_eq] at h
  obtain (⟨-, h⟩ | ⟨-, h⟩) | ⟨-, h⟩ := h
  · exact hle h (by decide)
  · exact hle h (by decide)
  · exact hle h (by decide)

/-- What is true of all characters of one byte is checked one by one. -/
theorem forall_ascii {P : Char → Prop} (h : ∀ n < 128, P (Char.ofNat n)) {c : Char} (hc : c.toNat < 128) : P c := by
  have hp := h c.toNat hc
  rwa [Char.ofNat_toNat] at hp

theorem standsFor_ascii {c : Char} (hc : c.toNat < 128) (d : Char) :
    StandsFor (UInt8.ofNat c.toNat) d ↔ isDigit c = true ∧ d = c.toLower := by
  have hvalue : (digitValue? (UInt8.ofNat c.toNat)).map digit = if isDigit c then some c.toLower else none :=
    forall_ascii (P := fun c => (digitValue? (UInt8.ofNat c.toNat)).map digit =
      if isDigit c then some c.toLower else none) (by decide) hc
  unfold StandsFor
  rw [hvalue]
  split
  case isTrue h => simp [h, eq_comm]
  case isFalse h => simp [h]

theorem ne_none_of_forall₂ {text : Bytes} {ds : List Char} (h : List.Forall₂ StandsFor text ds) :
    ∀ b ∈ text, digitValue? b ≠ none := by
  induction h with
  | nil => simp
  | @cons b d text ds hb _ ih =>
    rw [List.forall_mem_cons]
    refine ⟨fun hnone => ?_, ih⟩
    unfold StandsFor at hb
    rw [hnone] at hb
    cases hb

/-! ### Characters in bytes -/

theorem utf8_of_ascii {c : Char} (hc : c.toNat < 128) : String.utf8EncodeChar c = [UInt8.ofNat c.toNat] := by
  have hle : c.val.toNat ≤ 127 := Nat.le_of_lt_succ hc
  rw [String.utf8EncodeChar.eq_1, if_pos hle]
  rfl

/-- A character of several bytes begins with a byte that is no digit. -/
theorem exists_of_not_ascii {c : Char} (hc : ¬ c.toNat < 128) :
    ∃ b rest, String.utf8EncodeChar c = b :: rest ∧ digitValue? b = none := by
  have hnone {n : Nat} (hlow : 128 ≤ n) (hhigh : n < 256) : digitValue? (UInt8.ofNat n) = none := by
    have hn : (UInt8.ofNat n).toNat = n := Nat.mod_eq_of_lt hhigh
    unfold digitValue?
    rw [hn, if_neg (by omega), if_neg (by omega), if_neg (by omega)]
  have hle : ¬ c.val.toNat ≤ 127 := fun h => hc (Nat.lt_succ_of_le h)
  rw [String.utf8EncodeChar.eq_1, if_neg hle]
  split_ifs
  · exact ⟨_, _, rfl, hnone (by omega) (by omega)⟩
  · exact ⟨_, _, rfl, hnone (by omega) (by omega)⟩
  · exact ⟨_, _, rfl, hnone (by omega) (by omega)⟩

theorem toList_loop (bytes : ByteArray) (i : Nat) (before : Bytes) :
    ByteArray.toList.loop bytes i before = before.reverse ++ bytes.data.toList.drop i := by
  induction i, before using ByteArray.toList.loop.induct bytes with
  | case1 i before h ih =>
    have hi : i < bytes.data.toList.length := by simpa using h
    have hget : bytes.get! i = bytes.data.toList[i] := by simp [ByteArray.get!, h]
    rw [ByteArray.toList.loop.eq_1, if_pos h, ih, List.drop_eq_getElem_cons hi, hget, List.reverse_cons,
      List.append_assoc, List.singleton_append]
  | case2 i before h =>
    have hlength : bytes.data.toList.length ≤ i := by simpa using h
    rw [ByteArray.toList.loop.eq_1, if_neg h, List.drop_eq_nil_of_le hlength, List.append_nil]

theorem toList_toUTF8 (text : String) : text.toUTF8.toList = text.toList.flatMap String.utf8EncodeChar := by
  have hbytes : text.toUTF8 = (text.toList.flatMap String.utf8EncodeChar).toByteArray := String.utf8Encode_toList.symm
  rw [hbytes, ByteArray.toList, toList_loop, List.toList_data_toByteArray]
  rfl

/-- Characters are read as digits one by one, and none but digits of one byte can be read. -/
theorem forall₂_utf8_iff {cs ds : List Char} :
    List.Forall₂ StandsFor (cs.flatMap String.utf8EncodeChar) ds ↔
      (∀ c ∈ cs, isDigit c = true) ∧ ds = cs.map Char.toLower := by
  induction cs generalizing ds with
  | nil => simp
  | cons c cs ih =>
    rw [List.flatMap_cons, List.forall_mem_cons, List.map_cons]
    by_cases hc : c.toNat < 128
    · rw [utf8_of_ascii hc, List.singleton_append]
      cases ds with
      | nil => simp
      | cons d ds =>
        rw [List.forall₂_cons, standsFor_ascii hc, ih, List.cons.injEq]
        tauto
    · obtain ⟨b, rest, hb, hnone⟩ := exists_of_not_ascii hc
      have hdigit : isDigit c = false := by
        by_contra h
        exact hc (lt_ascii_of_isDigit (eq_true_of_ne_false h))
      rw [hb, hdigit]
      cases ds with
      | nil => simp
      | cons d ds => simp [StandsFor, hnone]

/-! ### Bytes -/

theorem encodeChars_nil : encodeChars [] = [] := rfl

theorem encodeChars_cons (b : UInt8) (bytes : Bytes) :
    encodeChars (b :: bytes) = digit (b.toNat / 16) :: digit (b.toNat % 16) :: encodeChars bytes := rfl

theorem halves_lt (b : UInt8) : b.toNat / 16 < 16 ∧ b.toNat % 16 < 16 := by
  have hb := b.toNat_lt
  omega

theorem length_encodeChars (bytes : Bytes) : (encodeChars bytes).length = 2 * bytes.length := by
  induction bytes with
  | nil => rfl
  | cons b bytes ih => rw [encodeChars_cons, List.length_cons, List.length_cons, List.length_cons, ih, Nat.mul_succ]

theorem isDigit_of_mem_encodeChars {bytes : Bytes} {c : Char} (h : c ∈ encodeChars bytes) :
    isDigit c = true ∧ c.toLower = c := by
  induction bytes with
  | nil => cases h
  | cons b bytes ih =>
    have hdigit : ∀ n < 16, isDigit (digit n) = true ∧ (digit n).toLower = digit n :=
      fun n hn => ⟨isDigit_digit n hn, toLower_digit n hn⟩
    rw [encodeChars_cons, List.mem_cons, List.mem_cons] at h
    obtain rfl | rfl | h := h
    · exact hdigit _ (halves_lt b).1
    · exact hdigit _ (halves_lt b).2
    · exact ih h

theorem standsFor_digit {b : UInt8} {v n : Nat} (hv : digitValue? b = some v) (hn : n < 16) :
    StandsFor b (digit n) ↔ v = n := by
  unfold StandsFor
  rw [hv, Option.map_some, Option.some.injEq, digit_inj v (lt_of_digitValue? hv) n hn]

/-- Bytes are read in pairs, as the digits that are written for what they are read as. -/
theorem decodePairs_eq_ok_iff {index : Nat} {text bytes : Bytes} :
    decodePairs index text = .ok bytes ↔ List.Forall₂ StandsFor text (encodeChars bytes) := by
  induction index, text using decodePairs.induct generalizing bytes with
  | case1 index =>
    cases bytes with
    | nil => simp [decodePairs, encodeChars]
    | cons b bytes => simp [decodePairs, encodeChars_cons]
  | case2 index c =>
    cases bytes with
    | nil => simp [decodePairs, encodeChars]
    | cons b bytes => simp [decodePairs, encodeChars_cons]
  | case3 index hi lo rest h l hlo hhi ih =>
    have hh := lt_of_digitValue? hhi
    have hl := lt_of_digitValue? hlo
    have hpair : decodePairs index (hi :: lo :: rest) =
        (decodePairs (index + 2) rest).map (UInt8.ofNat (16 * h + l) :: ·) := by rw [decodePairs, hhi, hlo]
    rw [hpair, map_eq_ok_iff]
    cases bytes with
    | nil => simp [encodeChars]
    | cons b bytes =>
      obtain ⟨hhigh, hlow⟩ := halves_lt b
      have hbyte : UInt8.ofNat (16 * h + l) = b ↔ h = b.toNat / 16 ∧ l = b.toNat % 16 := by
        rw [← UInt8.toNat_inj, UInt8.toNat_ofNat', Nat.mod_eq_of_lt (by omega)]
        omega
      simp only [List.cons.injEq, hbyte, encodeChars_cons, List.forall₂_cons, standsFor_digit hhi hhigh,
        standsFor_digit hlo hlow, ← ih]
      constructor
      · rintro ⟨_, hrest, ⟨hh, hl⟩, rfl⟩
        exact ⟨hh, hl, hrest⟩
      · rintro ⟨hh, hl, hrest⟩
        exact ⟨bytes, hrest, ⟨hh, hl⟩, rfl⟩
  | case4 index hi lo rest hhi =>
    rw [decodePairs, hhi]
    exact iff_of_false nofun fun hread => ne_none_of_forall₂ hread hi (by simp) hhi
  | case5 index hi lo rest h hlo hhi =>
    rw [decodePairs, hhi, hlo]
    exact iff_of_false nofun fun hread => ne_none_of_forall₂ hread lo (by simp) hlo

theorem encode_eq_toLower_iff {text : String} {bytes : Bytes} :
    encode bytes = text.toLower ↔ encodeChars bytes = text.toList.map Char.toLower := by
  have hlower : text.toLower = text.map Char.toLower := rfl
  rw [hlower, ← String.toList_inj, encode, String.toList_ofList, String.toList_map]

/-- A text is read as the bytes that are written as the text in lower case, if it is all digits. -/
theorem decode_eq_ok_iff {text : String} {bytes : Bytes} :
    decode text = .ok bytes ↔ (∀ c ∈ text.toList, isDigit c = true) ∧ encode bytes = text.toLower := by
  have hread : decode text = .ok bytes ↔ decodePairs 0 text.toUTF8.toList = .ok bytes := by
    unfold decode decodeBytes
    split
    case isTrue hodd =>
      refine iff_of_false nofun fun hread => ?_
      rw [(decodePairs_eq_ok_iff.mp hread).length_eq, length_encodeChars] at hodd
      omega
    case isFalse => rfl
  rw [hread, decodePairs_eq_ok_iff, toList_toUTF8, forall₂_utf8_iff, encode_eq_toLower_iff]

/-- Digits in pairs are written for some bytes. -/
theorem exists_encodeChars {cs : List Char} (h : ∀ c ∈ cs, isDigit c = true) (heven : cs.length % 2 = 0) :
    ∃ bytes, encodeChars bytes = cs.map Char.toLower := by
  match cs with
  | [] => exact ⟨[], rfl⟩
  | [c] => cases heven
  | c :: d :: cs =>
    have hdigit : ∀ c, isDigit c = true → ∃ n < 16, digit n = c.toLower := by
      intro c hc
      have hstands := (standsFor_ascii (lt_ascii_of_isDigit hc) c.toLower).mpr ⟨hc, rfl⟩
      obtain ⟨n, hn, hdigit⟩ := Option.map_eq_some_iff.mp hstands
      exact ⟨n, lt_of_digitValue? hn, hdigit⟩
    simp only [List.forall_mem_cons] at h
    obtain ⟨m, hm, hc⟩ := hdigit c h.1
    obtain ⟨n, hn, hd⟩ := hdigit d h.2.1
    have hrest : cs.length % 2 = 0 := by
      rw [List.length_cons, List.length_cons] at heven
      omega
    obtain ⟨bytes, hbytes⟩ := exists_encodeChars h.2.2 hrest
    have hbyte : (UInt8.ofNat (16 * m + n)).toNat = 16 * m + n := Nat.mod_eq_of_lt (by omega)
    have hhigh : (16 * m + n) / 16 = m := by omega
    have hlow : (16 * m + n) % 16 = n := by omega
    refine ⟨UInt8.ofNat (16 * m + n) :: bytes, ?_⟩
    rw [encodeChars_cons, hbyte, hhigh, hlow, hc, hd, hbytes, List.map_cons, List.map_cons]

theorem decode_encode (bytes : Bytes) : decode (encode bytes) = .ok bytes := by
  have hlower : (encodeChars bytes).map Char.toLower = encodeChars bytes :=
    (List.map_congr_left fun c hc => (isDigit_of_mem_encodeChars hc).2).trans (List.map_id _)
  rw [decode_eq_ok_iff, encode_eq_toLower_iff, encode, String.toList_ofList, hlower]
  exact ⟨fun c hc => (isDigit_of_mem_encodeChars hc).1, rfl⟩

theorem encode_inj {as bs : Bytes} : encode as = encode bs ↔ as = bs := by
  refine ⟨fun h => ?_, congrArg encode⟩
  have hread := decode_encode as
  rw [h, decode_encode] at hread
  exact (Except.ok.inj hread).symm

end DocClient.Hex
