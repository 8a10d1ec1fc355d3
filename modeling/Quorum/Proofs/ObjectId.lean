import Quorum.ObjectId
import Quorum.Proofs.Hex
import Quorum.Proofs.Wire.Reader

/-!
# Texts for identifiers

A text stands for an identifier exactly if, after one marker, it consists of one to 64
hexadecimal digits, and the identifier is then the number that these denote.  The length is
counted in bytes and the zeros in front in characters, but the two counts differ only for texts
that are refused anyway: where all characters are digits they agree, and where one is not, it
is found among the bytes.
-/

namespace Quorum

theorem ofLittleEndian_eq_ofDigits (bytes : List UInt8) :
    ofLittleEndian bytes = Nat.ofDigits 256 (bytes.map UInt8.toNat) := by
  induction bytes with
  | nil => rfl
  | cons byte rest ih => rw [ofLittleEndian, ih, List.map_cons, Nat.ofDigits_cons]

/-- Byte strings of one length are told apart by the numbers that they stand for. -/
theorem Bytes.toNat_inj {n : Nat} {a b : Bytes n} : a.toNat = b.toNat ↔ a = b := by
  constructor
  · intro h
    have hdigits (bytes : Bytes n) :
        ∀ digit ∈ bytes.toList.reverse.map UInt8.toNat, digit < 256 := by
      intro digit hdigit
      obtain ⟨byte, -, rfl⟩ := List.mem_map.1 hdigit
      exact byte.toNat_lt
    rw [toNat, toNat, ofBigEndian, ofBigEndian, ofLittleEndian_eq_ofDigits,
      ofLittleEndian_eq_ofDigits] at h
    have hmap := Nat.ofDigits_inj_of_len_eq (by omega) (by simp) (hdigits a) (hdigits b) h
    have hinj : Function.Injective UInt8.toNat := fun _ _ => UInt8.toNat_inj.1
    have hlist : a.toList = b.toList :=
      List.reverse_injective (List.map_injective_iff.2 hinj hmap)
    exact Vector.toList_inj.1 hlist
  · rintro rfl
    rfl

namespace ObjectId

open Json (hexValue?)

theorem toNat_inj {a b : ObjectId} : a.toNat = b.toNat ↔ a = b := by
  rw [toNat, toNat, Bytes.toNat_inj]
  constructor
  · intro h
    cases a
    cases b
    cases h
    rfl
  · rintro rfl
    rfl

/-- Digits take one byte each. -/
theorem length_utf8_of_number? {digits : List Char} {number : Nat}
    (h : Hex.number? digits = some number) :
    (utf8 (String.ofList digits)).length = digits.length := by
  obtain ⟨values, hvalues, -⟩ := Option.map_eq_some_iff.1 h
  have hbytes := Hex.mapM_codeValue?_utf8 digits
  rw [hvalues] at hbytes
  rw [(Outcome.mapM_eq_some_iff.1 hbytes).length_eq, (Outcome.mapM_eq_some_iff.1 hvalues).length_eq]

section Parse

variable {text : String} {digits : List Char}

theorem parse_of_wrong_size (hdigits : dropMarker text.toList = digits)
    (hsize : digits = [] ∨ 64 < (utf8 (String.ofList digits)).length) : parse text =
      .error (.invalidLength 32 (((utf8 (String.ofList digits)).length + 1) / 2)) := by
  have hwrong : (utf8 (String.ofList digits)).length = 0 ∨
      (utf8 (String.ofList digits)).length > 64 := by
    rcases hsize with rfl | hlong
    · exact .inl rfl
    · exact .inr hlong
  unfold parse
  rw [hdigits]
  exact if_pos hwrong

/-- What is left once the length is accepted: the digits with zeros in front are read. -/
theorem parse_of_right_size (hdigits : dropMarker text.toList = digits) (hne : digits ≠ [])
    (hsize : (utf8 (String.ofList digits)).length ≤ 64) : parse text =
      match Hex.decode (String.ofList (List.replicate (64 - digits.length) '0' ++ digits)) with
      | .ok bytes => ofBytes bytes
      | .error fault => .error (.invalidHex fault) := by
  have hpos := length_le_length_utf8 digits
  have hlength := List.length_pos_iff.2 hne
  unfold parse
  rw [hdigits]
  exact if_neg (by omega)

/-- Up to 64 digits stand for the number that they denote. -/
theorem exists_parse_eq_ok (hdigits : dropMarker text.toList = digits) (hne : digits ≠ [])
    (hle : digits.length ≤ 64) {number : Nat} (hnumber : Hex.number? digits = some number) :
    ∃ id, parse text = .ok id ∧ id.toNat = number := by
  have hpadded := Hex.number?_replicate_append (64 - digits.length) digits
  rw [hnumber] at hpadded
  obtain ⟨values, hvalues, rfl⟩ := Option.map_eq_some_iff.1 hpadded
  have hlength : values.length = 2 * 32 := by
    rw [← (Outcome.mapM_eq_some_iff.1 hvalues).length_eq]
    simp
    omega
  -- With the zeros in front there are 64 digits, for 32 bytes.
  rw [← String.toList_ofList (l := List.replicate _ _ ++ digits)] at hvalues
  obtain ⟨bytes, hdecode, hhalves⟩ := Hex.exists_decode_eq_ok hvalues hlength
  have hbytes : bytes.length = 32 := by
    rw [← hhalves, Hex.length_halves] at hlength
    omega
  have hsome : Bytes.ofList? 32 bytes = some ⟨bytes.toArray, by simpa using hbytes⟩ := by
    rw [Bytes.ofList?, dif_pos hbytes]
  refine ⟨⟨⟨bytes.toArray, by simpa using hbytes⟩⟩, ?_, ?_⟩
  · rw [parse_of_right_size hdigits hne (by rwa [length_utf8_of_number? hnumber]), hdecode]
    simp only [ofBytes, Bytes.ofList, hsome]
    rfl
  · rw [← hhalves, Hex.ofDigits_halves]
    rfl

/-- Where a character is no digit, a fault is found among the bytes. -/
theorem exists_parse_eq_invalidHex (hdigits : dropMarker text.toList = digits) (hne : digits ≠ [])
    (hsize : (utf8 (String.ofList digits)).length ≤ 64) (hnumber : Hex.number? digits = none) :
    ∃ fault, parse text = .error (.invalidHex fault) := by
  rw [parse_of_right_size hdigits hne hsize]
  cases hdecode :
      Hex.decode (String.ofList (List.replicate (64 - digits.length) '0' ++ digits)) with
  | error fault => exact ⟨fault, rfl⟩
  | ok bytes =>
      -- Digits in all places would denote a number.
      have hvalues := Hex.decode_eq_ok_iff.1 hdecode
      rw [String.toList_ofList] at hvalues
      rw [← Hex.number?_replicate_append (64 - digits.length), Hex.number?, hvalues] at hnumber
      cases hnumber

/-- What a text stands for is decided by its digits. -/
theorem parse_cases (hdigits : dropMarker text.toList = digits) :
    ((digits = [] ∨ 64 < (utf8 (String.ofList digits)).length) ∧ parse text =
      .error (.invalidLength 32 (((utf8 (String.ofList digits)).length + 1) / 2))) ∨
    (digits ≠ [] ∧ (utf8 (String.ofList digits)).length ≤ 64) ∧
      (Hex.number? digits = none ∧ (∃ fault, parse text = .error (.invalidHex fault)) ∨
        ∃ id, Hex.number? digits = some id.toNat ∧ parse text = .ok id) := by
  by_cases hsize : digits = [] ∨ 64 < (utf8 (String.ofList digits)).length
  · exact .inl ⟨hsize, parse_of_wrong_size hdigits hsize⟩
  · obtain ⟨hne, hle⟩ := not_or.1 hsize
    rw [not_lt] at hle
    refine .inr ⟨⟨hne, hle⟩, ?_⟩
    cases hnumber : Hex.number? digits with
    | none => exact .inl ⟨rfl, exists_parse_eq_invalidHex hdigits hne hle hnumber⟩
    | some number =>
        rw [length_utf8_of_number? hnumber] at hle
        obtain ⟨id, hid, rfl⟩ := exists_parse_eq_ok hdigits hne hle hnumber
        exact .inr ⟨id, rfl, hid⟩

theorem parse_eq_ok_iff (hdigits : dropMarker text.toList = digits) {id : ObjectId} :
    parse text = .ok id ↔
      0 < digits.length ∧ digits.length ≤ 64 ∧ Hex.number? digits = some id.toNat := by
  constructor
  · intro h
    rcases parse_cases hdigits with
      ⟨-, herror⟩ | ⟨⟨hne, hle⟩, ⟨-, fault, herror⟩ | ⟨other, hother, hok⟩⟩
    · simp [h] at herror
    · simp [h] at herror
    · obtain rfl : id = other := by simpa [h] using hok
      have hchars := length_le_length_utf8 digits
      exact ⟨List.length_pos_iff.2 hne, by omega, hother⟩
  · rintro ⟨hpos, hle, hnumber⟩
    obtain ⟨other, hok, hother⟩ :=
      exists_parse_eq_ok hdigits (List.length_pos_iff.1 hpos) hle hnumber
    rw [hok, toNat_inj.1 hother]

theorem exists_parse_eq_ok_iff (hdigits : dropMarker text.toList = digits) :
    (∃ id, parse text = .ok id) ↔
      0 < digits.length ∧ digits.length ≤ 64 ∧ ∀ c ∈ digits, (hexValue? c).isSome = true := by
  rw [← Hex.isSome_number?_iff, Option.isSome_iff_exists]
  constructor
  · rintro ⟨id, hid⟩
    obtain ⟨hpos, hle, hnumber⟩ := (parse_eq_ok_iff hdigits).1 hid
    exact ⟨hpos, hle, _, hnumber⟩
  · rintro ⟨hpos, hle, number, hnumber⟩
    obtain ⟨id, hid, -⟩ := exists_parse_eq_ok hdigits (List.length_pos_iff.1 hpos) hle hnumber
    exact ⟨id, hid⟩

theorem parse_eq_invalidLength_iff (hdigits : dropMarker text.toList = digits)
    {expected got : Nat} : parse text = .error (.invalidLength expected got) ↔
      (digits = [] ∨ 64 < (utf8 (String.ofList digits)).length) ∧ expected = 32 ∧
        got = ((utf8 (String.ofList digits)).length + 1) / 2 := by
  rcases parse_cases hdigits with ⟨hwrong, herror⟩ | ⟨⟨hne, hle⟩, hother⟩
  · rw [herror, and_iff_right hwrong]
    simp [eq_comm]
  · refine iff_of_false (fun h => ?_) fun h => h.1.elim hne (by omega)
    rcases hother with ⟨-, fault, herror⟩ | ⟨id, -, hok⟩
    · simp [h] at herror
    · simp [h] at hok

theorem exists_parse_eq_invalidHex_iff (hdigits : dropMarker text.toList = digits) :
    (∃ fault, parse text = .error (.invalidHex fault)) ↔
      digits ≠ [] ∧ (utf8 (String.ofList digits)).length ≤ 64 ∧
        ∃ c ∈ digits, hexValue? c = none := by
  have hnone : (∃ c ∈ digits, hexValue? c = none) ↔ Hex.number? digits = none := by
    rw [← Option.not_isSome_iff_eq_none, Hex.isSome_number?_iff]
    simp
  rw [hnone]
  rcases parse_cases hdigits with
    ⟨hwrong, herror⟩ | ⟨⟨hne, hle⟩, ⟨hnumber, hfault⟩ | ⟨id, hnumber, hok⟩⟩
  · refine iff_of_false (by simp [herror]) ?_
    rintro ⟨hne, hle, -⟩
    exact hwrong.elim hne (by omega)
  · exact iff_of_true hfault ⟨hne, hle, hnumber⟩
  · exact iff_of_false (by simp [hok]) (by simp [hnumber])

end Parse

/-- The written form of an identifier is read as that identifier. -/
theorem parse_text (id : ObjectId) : parse id.text = .ok id := by
  have hdigits : dropMarker id.text.toList = Hex.digits id.bytes.toList := by
    simp [text, Hex.encode, dropMarker]
  have hvalues := Hex.mapM_hexValue?_digits id.bytes.toList
  have hlength : (Hex.digits id.bytes.toList).length = 64 := by
    rw [(Outcome.mapM_eq_some_iff.1 hvalues).length_eq]
    simp
  refine (parse_eq_ok_iff hdigits).2 ⟨by omega, by omega, ?_⟩
  rw [Hex.number?, hvalues, Option.map_some, Hex.ofDigits_halves]
  rfl

/-- A text stands for an identifier exactly if one to 64 digits are left of it after one marker,
and for the number that these denote.  Its length is refused exactly if no byte or more than 64
are left, and in all other cases it is refused because a character is no digit.  So the written
form of an identifier stands for it, and two texts stand for one identifier exactly if both
stand for one and denote the same number. -/
theorem parse_classification (text : String) :
    let digits := dropMarker text.toList
    let size := (utf8 (String.ofList digits)).length
    ((∃ id, parse text = .ok id) ↔
      0 < digits.length ∧ digits.length ≤ 64 ∧ ∀ c ∈ digits, (hexValue? c).isSome = true) ∧
    (∀ id, parse text = .ok id ↔
      0 < digits.length ∧ digits.length ≤ 64 ∧ Hex.number? digits = some id.toNat) ∧
    (∀ expected got, parse text = .error (.invalidLength expected got) ↔
      (digits = [] ∨ 64 < size) ∧ expected = 32 ∧ got = (size + 1) / 2) ∧
    ((∃ fault, parse text = .error (.invalidHex fault)) ↔
      digits ≠ [] ∧ size ≤ 64 ∧ ∃ c ∈ digits, hexValue? c = none) ∧
    (∀ id : ObjectId, parse id.text = .ok id) ∧
    ∀ other, (∃ id, parse text = .ok id ∧ parse other = .ok id) ↔
      (∃ id, parse text = .ok id) ∧ (∃ id, parse other = .ok id) ∧
        Hex.number? digits = Hex.number? (dropMarker other.toList) := by
  intro digits size
  have hdigits : dropMarker text.toList = digits := rfl
  refine ⟨exists_parse_eq_ok_iff hdigits, fun id => parse_eq_ok_iff hdigits,
    fun expected got => parse_eq_invalidLength_iff hdigits,
    exists_parse_eq_invalidHex_iff hdigits, parse_text, fun other => ?_⟩
  constructor
  · rintro ⟨id, hid, hother⟩
    refine ⟨⟨id, hid⟩, ⟨id, hother⟩, ?_⟩
    rw [((parse_eq_ok_iff hdigits).1 hid).2.2, ((parse_eq_ok_iff rfl).1 hother).2.2]
  · rintro ⟨⟨id, hid⟩, hother, hnumber⟩
    rw [((parse_eq_ok_iff hdigits).1 hid).2.2] at hnumber
    obtain ⟨hpos, hle, -⟩ := (exists_parse_eq_ok_iff rfl).1 hother
    exact ⟨id, hid, (parse_eq_ok_iff rfl).2 ⟨hpos, hle, hnumber.symm⟩⟩

end ObjectId
end Quorum
