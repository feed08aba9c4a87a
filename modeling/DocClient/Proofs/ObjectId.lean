import DocClient.ObjectId
import DocClient.Proofs.Text.Hex

/-! Identifiers and their texts. Main statement: `hex_ordered_bijection`, by which identifiers of twelve bytes and
texts of twenty-four digits stand for each other, but for the case of the digits, and identifiers of all lengths have
the order of their texts. -/
namespace DocClient.ObjectId

/-! ### The order of bytes and of digits -/

theorem compareBytes_eq_eq_iff {as bs : Bytes} : compareBytes as bs = .eq ↔ as = bs := by
  induction as, bs using compareBytes.induct with
  | case1 => simp [compareBytes]
  | case2 b bs => simp [compareBytes]
  | case3 a as => simp [compareBytes]
  | case4 a as b bs hlt =>
    rw [compareBytes, if_pos hlt]
    exact iff_of_false nofun fun h => UInt8.ne_of_lt hlt (List.cons.inj h).1
  | case5 a as b bs hnlt hgt =>
    rw [compareBytes, if_neg hnlt, if_pos hgt]
    exact iff_of_false nofun fun h => UInt8.ne_of_lt hgt (List.cons.inj h).1.symm
  | case6 a as b bs hnlt hngt ih =>
    have hab : a = b := UInt8.le_antisymm (UInt8.not_lt.mp hngt) (UInt8.not_lt.mp hnlt)
    rw [compareBytes, if_neg hnlt, if_neg hngt, ih, List.cons.injEq]
    exact (and_iff_right hab).symm

/-- Two byte strings are told apart by their first bytes, and so are their digits. -/
theorem encodeChars_cons_lt_iff {a b : UInt8} {as bs : Bytes} :
    Hex.encodeChars (a :: as) < Hex.encodeChars (b :: bs) ↔
      a < b ∨ a = b ∧ Hex.encodeChars as < Hex.encodeChars bs := by
  obtain ⟨hahigh, halow⟩ := Hex.halves_lt a
  obtain ⟨hbhigh, hblow⟩ := Hex.halves_lt b
  have hlt : a < b ↔ a.toNat / 16 < b.toNat / 16 ∨ a.toNat / 16 = b.toNat / 16 ∧ a.toNat % 16 < b.toNat % 16 := by
    rw [UInt8.lt_iff_toNat_lt]
    omega
  have heq : a = b ↔ a.toNat / 16 = b.toNat / 16 ∧ a.toNat % 16 = b.toNat % 16 := by
    rw [← UInt8.toNat_inj]
    omega
  rw [Hex.encodeChars_cons, Hex.encodeChars_cons, List.cons_lt_cons_iff, List.cons_lt_cons_iff,
    Hex.digit_lt_digit_iff _ hahigh _ hbhigh, Hex.digit_inj _ hahigh _ hbhigh,
    Hex.digit_lt_digit_iff _ halow _ hblow, Hex.digit_inj _ halow _ hblow, hlt, heq]
  tauto

/-- The digits of byte strings have the order of the bytes. -/
theorem encodeChars_lt_iff {as bs : Bytes} :
    Hex.encodeChars as < Hex.encodeChars bs ↔ compareBytes as bs = .lt := by
  induction as, bs using compareBytes.induct with
  | case1 => simp [compareBytes]
  | case2 b bs => simp [compareBytes, Hex.encodeChars_cons, Hex.encodeChars_nil]
  | case3 a as => simp [compareBytes, Hex.encodeChars_nil]
  | case4 a as b bs hlt =>
    rw [compareBytes, if_pos hlt, encodeChars_cons_lt_iff]
    exact iff_of_true (.inl hlt) rfl
  | case5 a as b bs hnlt hgt =>
    rw [compareBytes, if_neg hnlt, if_pos hgt, encodeChars_cons_lt_iff]
    refine iff_of_false ?_ nofun
    rintro (hlt | ⟨hab, -⟩)
    · exact hnlt hlt
    · exact UInt8.ne_of_lt hgt hab.symm
  | case6 a as b bs hnlt hngt ih =>
    have hab : a = b := UInt8.le_antisymm (UInt8.not_lt.mp hngt) (UInt8.not_lt.mp hnlt)
    rw [compareBytes, if_neg hnlt, if_neg hngt, encodeChars_cons_lt_iff, ← ih]
    simp [hab]

/-- Identifiers are compared as their texts are. -/
theorem compare_eq_compare_hex (a b : ObjectId) : a.compare b = Ord.compare a.hex b.hex := by
  have hlt : a.hex < b.hex ↔ compareBytes a.bytes b.bytes = .lt := by
    rw [String.lt_iff_toList_lt, ← encodeChars_lt_iff, hex, hex, Hex.encode, Hex.encode, String.toList_ofList,
      String.toList_ofList]
  have heq : a.hex = b.hex ↔ compareBytes a.bytes b.bytes = .eq := by
    rw [hex, hex, Hex.encode_inj, compareBytes_eq_eq_iff]
  rw [LinearOrder.compare_eq_compareOfLessAndEq, compareOfLessAndEq]
  unfold ObjectId.compare
  cases hcompare : compareBytes a.bytes b.bytes with
  | lt => rw [if_pos (hlt.mpr hcompare)]
  | eq => simp [hlt, heq, hcompare]
  | gt => simp [hlt, heq, hcompare]

/-! ### Reading -/

theorem ofHex_eq_ok_iff {text : String} {id : ObjectId} :
    ofHex text = .ok id ↔
      (∀ c ∈ text.toList, Hex.isDigit c = true) ∧ id.hex = text.toLower ∧ id.bytes.length = 12 := by
  have hread : ofHex text = .ok id ↔ Hex.decode text = .ok id.bytes ∧ id.bytes.length = 12 := by
    obtain ⟨bytes⟩ := id
    unfold ofHex
    cases Hex.decode text with
    | error fault => simp
    | ok read =>
      dsimp only
      split
      case isTrue hlength => simp +contextual [hlength, eq_comm]
      case isFalse hlength => simp +contextual [hlength, eq_comm]
  rw [hread, Hex.decode_eq_ok_iff, and_assoc]
  rfl

/-- There are two digits to a byte. -/
theorem length_of_hex {text : String} {id : ObjectId} (h : id.hex = text.toLower) :
    text.length = 2 * id.bytes.length := by
  have hchars := congrArg List.length (Hex.encode_eq_toLower_iff.mp h)
  rw [Hex.length_encodeChars, List.length_map, String.length_toList] at hchars
  exact hchars.symm

theorem exists_ofHex_iff {text : String} :
    (∃ id, ofHex text = .ok id) ↔ text.length = 24 ∧ ∀ c ∈ text.toList, Hex.isDigit c = true := by
  constructor
  · rintro ⟨id, hread⟩
    obtain ⟨hdigits, hhex, hlength⟩ := ofHex_eq_ok_iff.mp hread
    rw [length_of_hex hhex, hlength]
    exact ⟨rfl, hdigits⟩
  · rintro ⟨hlength, hdigits⟩
    have heven : text.toList.length % 2 = 0 := by rw [String.length_toList, hlength]
    obtain ⟨bytes, hbytes⟩ := Hex.exists_encodeChars hdigits heven
    have hhex : (⟨bytes⟩ : ObjectId).hex = text.toLower := Hex.encode_eq_toLower_iff.mpr hbytes
    have hcount : 24 = 2 * bytes.length := hlength ▸ length_of_hex hhex
    exact ⟨⟨bytes⟩, ofHex_eq_ok_iff.mpr ⟨hdigits, hhex, by dsimp only; omega⟩⟩

/-- Just the texts of twenty-four digits of either case can be read, as an identifier whose text is the same in lower
case. An identifier of twelve bytes is read back from its text, and identifiers of all lengths have the order of
their texts. -/
theorem hex_ordered_bijection (text : String) (id other : ObjectId) :
    ((∃ read, ofHex text = .ok read) ↔ text.length = 24 ∧ ∀ c ∈ text.toList, Hex.isDigit c = true) ∧
      (ofHex text = .ok id → id.hex = text.toLower) ∧
      (id.bytes.length = 12 → ofHex id.hex = .ok id) ∧
      id.compare other = Ord.compare id.hex other.hex := by
  refine ⟨exists_ofHex_iff, ?lower, ?again, compare_eq_compare_hex id other⟩
  case lower => exact fun hread => (ofHex_eq_ok_iff.mp hread).2.1
  case again =>
    intro hlength
    have hread : Hex.decode id.hex = .ok id.bytes := Hex.decode_encode id.bytes
    obtain ⟨hdigits, hlower⟩ := Hex.decode_eq_ok_iff.mp hread
    exact ofHex_eq_ok_iff.mpr ⟨hdigits, hlower, hlength⟩

/-- Digits of either case, and an identifier of three bytes behind one of twelve. -/
theorem hex_ordered_mixed :
    let text := "5F1a2B3c4D5e6F7a8B9c0D1e"
    let id : ObjectId := ⟨[0x5f, 0x1a, 0x2b, 0x3c, 0x4d, 0x5e, 0x6f, 0x7a, 0x8b, 0x9c, 0x0d, 0x1e]⟩
    ofHex text = .ok id ∧ id.hex = "5f1a2b3c4d5e6f7a8b9c0d1e" ∧ ofHex id.hex = .ok id ∧
      id.compare ⟨[0x5f, 0x1b, 0]⟩ = .lt ∧ Ord.compare id.hex "5f1b00" = .lt := by
  intro text id
  have hread : ofHex text = .ok id := ofHex_eq_ok_iff.mpr ⟨by simp [text, Hex.isDigit], by decide +kernel, rfl⟩
  obtain ⟨-, hlower, hagain, horder⟩ := hex_ordered_bijection text id ⟨[0x5f, 0x1b, 0]⟩
  have hcompare : id.compare ⟨[0x5f, 0x1b, 0]⟩ = .lt := by decide
  refine ⟨hread, (hlower hread).trans (by decide +kernel), hagain rfl, hcompare, ?_⟩
  rw [hcompare] at horder
  exact horder.symm

end DocClient.ObjectId
