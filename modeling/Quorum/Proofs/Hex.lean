import Mathlib.Data.List.Induction
import Mathlib.Data.Nat.Digits.Defs
import Quorum.Hex
import Quorum.Json.Parser
import Quorum.Proofs.Outcome
import Quorum.Proofs.Text

/-!
# Numbers in hexadecimal digits

A text is read pairwise, but all its bytes are read in one way: a byte string is read from a
text exactly if the characters of the text are digits for the halves of its bytes.  Characters
that are not ASCII take several bytes, the first of which is no digit, so pairs never matter.

The digits of a byte string denote the number that its bytes are the big-endian form of.
-/

namespace Quorum
namespace Hex

open Json (hexValue?)

/-- The number that a digit with the given code stands for. -/
def codeValue? (code : Nat) : Option Nat :=
  if 48 ≤ code ∧ code ≤ 57 then some (code - 48)
  else if 97 ≤ code ∧ code ≤ 102 then some (code - 87)
  else if 65 ≤ code ∧ code ≤ 70 then some (code - 55)
  else none

theorem codeValue?_eq_none_of_le {code : Nat} (h : 128 ≤ code) : codeValue? code = none := by
  unfold codeValue?
  rw [if_neg (by omega), if_neg (by omega), if_neg (by omega)]

theorem lt_of_codeValue? {code value : Nat} (h : codeValue? code = some value) : value < 16 := by
  unfold codeValue? at h
  split at h
  · simp at h
    omega
  split at h
  · simp at h
    omega
  split at h
  · simp at h
    omega
  · simp at h

theorem hexValue?_eq (c : Char) : hexValue? c = codeValue? c.toNat := by
  simp only [hexValue?, codeValue?, Char.le_def, UInt32.le_iff_toNat_le]
  rfl

theorem map_toNat_digitValue? (byte : UInt8) :
    (digitValue? byte).map UInt8.toNat = codeValue? byte.toNat := by
  have hsub (low : UInt8) (h : low.toNat ≤ byte.toNat) :
      (byte - low).toNat = byte.toNat - low.toNat :=
    UInt8.toNat_sub_of_le _ _ (UInt8.le_iff_toNat_le.2 h)
  simp only [digitValue?, codeValue?, UInt8.le_iff_toNat_le, UInt8.reduceToNat]
  split
  · rename_i h
    simpa using hsub 48 h.1
  split
  · rename_i h
    have := hsub 87 (by show 87 ≤ _; omega)
    simpa using this
  split
  · rename_i h
    have := hsub 55 (by show 55 ≤ _; omega)
    simpa using this
  · rfl

theorem readDigit_eq_ok_iff {byte value : UInt8} {position : Nat} :
    readDigit byte position = .ok value ↔ codeValue? byte.toNat = some value.toNat := by
  rw [← map_toNat_digitValue?, readDigit]
  cases digitValue? byte with
  | none => simp
  | some other => simp [UInt8.toNat_inj]

/-! ## Digits in a text -/

/-- The first byte of a character tells whether the character is a digit, and a digit has no
other. -/
theorem exists_utf8EncodeChar (c : Char) : ∃ byte rest, String.utf8EncodeChar c = byte :: rest ∧
    codeValue? byte.toNat = hexValue? c ∧ (rest = [] ∨ hexValue? c = none) := by
  rw [hexValue?_eq, String.utf8EncodeChar]
  simp only [Char.toNat_val]
  by_cases hascii : c.toNat ≤ 127
  · rw [if_pos hascii]
    refine ⟨_, _, rfl, ?_, .inl rfl⟩
    rw [UInt8.toNat_ofNat_of_lt' (show c.toNat < 256 by omega)]
  · -- The first byte of a character that is not ASCII is not ASCII either.
    have hnone : codeValue? c.toNat = none := codeValue?_eq_none_of_le (by omega)
    rw [if_neg hascii, hnone]
    split
    · refine ⟨_, _, rfl, codeValue?_eq_none_of_le ?_, .inr rfl⟩
      simp
      omega
    split
    · refine ⟨_, _, rfl, codeValue?_eq_none_of_le ?_, .inr rfl⟩
      simp
      omega
    · refine ⟨_, _, rfl, codeValue?_eq_none_of_le ?_, .inr rfl⟩
      simp
      omega

/-- Whether the bytes of a text are digits is decided by its characters. -/
theorem mapM_codeValue?_utf8 (chars : List Char) :
    (utf8 (String.ofList chars)).mapM (fun byte => codeValue? byte.toNat) =
      chars.mapM hexValue? := by
  rw [utf8_ofList]
  induction chars with
  | nil => rfl
  | cons c rest ih =>
      obtain ⟨byte, others, hbytes, hvalue, hsingle⟩ := exists_utf8EncodeChar c
      rw [List.flatMap_cons, hbytes, List.cons_append, List.mapM_cons, List.mapM_cons, hvalue]
      rcases hsingle with rfl | hnone
      · rw [List.nil_append, ih]
      · rw [hnone]
        rfl

/-! ## Pairs of digits -/

/-- The halves of each byte, the high one first. -/
def halves (bytes : List UInt8) : List Nat :=
  bytes.flatMap fun byte => [byte.toNat / 16, byte.toNat % 16]

@[simp]
theorem halves_nil : halves [] = [] := rfl

@[simp]
theorem halves_cons (byte : UInt8) (bytes : List UInt8) :
    halves (byte :: bytes) = byte.toNat / 16 :: byte.toNat % 16 :: halves bytes := rfl

@[simp]
theorem length_halves (bytes : List UInt8) : (halves bytes).length = 2 * bytes.length := by
  induction bytes with
  | nil => rfl
  | cons byte rest ih => simp [ih, Nat.mul_add]

theorem joined_eq_iff {high low byte : UInt8} (hhigh : high.toNat < 16) (hlow : low.toNat < 16) :
    high <<< 4 ||| low = byte ↔
      byte.toNat / 16 = high.toNat ∧ byte.toNat % 16 = low.toNat := by
  have hall : ∀ high low : Fin 16,
      (UInt8.ofNat high.val <<< 4 ||| UInt8.ofNat low.val).toNat = 16 * high.val + low.val := by
    decide
  have hjoined : (high <<< 4 ||| low).toNat = 16 * high.toNat + low.toNat := by
    simpa using hall ⟨high.toNat, hhigh⟩ ⟨low.toNat, hlow⟩
  rw [← UInt8.toNat_inj, hjoined]
  omega

theorem readPairs_eq_ok_iff {position : Nat} {text bytes : List UInt8}
    (heven : text.length % 2 = 0) : readPairs position text = .ok bytes ↔
      List.Forall₂ (fun byte value => codeValue? byte.toNat = some value) text (halves bytes) := by
  fun_induction readPairs position text generalizing bytes with
  | case1 position high low rest ih =>
      have hrest : rest.length % 2 = 0 := by
        simp at heven
        omega
      simp only [Outcome.bind_eq_ok_iff, readDigit_eq_ok_iff, Outcome.pure_eq_ok, Except.ok.injEq,
        ih hrest]
      constructor
      · -- The byte that two digits make has their values as its halves.
        rintro ⟨first, hfirst, second, hsecond, others, hothers, rfl⟩
        obtain ⟨hdiv, hmod⟩ :=
          (joined_eq_iff (lt_of_codeValue? hfirst) (lt_of_codeValue? hsecond)).1 rfl
        rw [halves_cons, hdiv, hmod]
        exact .cons hfirst (.cons hsecond hothers)
      · intro h
        cases bytes with
        | nil => cases h
        | cons byte bytes =>
            obtain ⟨hfirst, hsecond, hothers⟩ : _ ∧ _ ∧ _ := by simpa using h
            have hbound := byte.toNat_lt
            have hhigh : (UInt8.ofNat (byte.toNat / 16)).toNat = byte.toNat / 16 :=
              UInt8.toNat_ofNat_of_lt' (show _ < 256 by omega)
            have hlow : (UInt8.ofNat (byte.toNat % 16)).toNat = byte.toNat % 16 :=
              UInt8.toNat_ofNat_of_lt' (show _ < 256 by omega)
            refine ⟨_, by rw [hfirst, hhigh], _, by rw [hsecond, hlow], bytes, hothers, ?_⟩
            rw [(joined_eq_iff (by omega) (by omega)).2 ⟨hhigh.symm, hlow.symm⟩]
  | case2 text position h =>
      -- A single digit cannot be left, because the number of digits is even.
      have htext : text = [] := by
        cases text with
        | nil => rfl
        | cons first rest =>
            cases rest with
            | nil => simp at heven
            | cons second rest => exact absurd rfl (h first second rest)
      subst htext
      cases bytes with
      | nil => simp
      | cons byte bytes => simp

/-- A byte string is read exactly from the texts whose characters are digits for its halves. -/
theorem decode_eq_ok_iff {text : String} {bytes : List UInt8} :
    decode text = .ok bytes ↔ text.toList.mapM hexValue? = some (halves bytes) := by
  rw [← mapM_codeValue?_utf8, String.ofList_toList, Outcome.mapM_eq_some_iff, decode, decodeBytes]
  split
  · rename_i hodd
    refine iff_of_false (by simp) fun h => ?_
    have hlength := h.length_eq
    rw [length_halves] at hlength
    omega
  · exact readPairs_eq_ok_iff (by omega)

theorem exists_halves_eq {count : Nat} {values : List Nat} (hlength : values.length = 2 * count)
    (hlt : ∀ value ∈ values, value < 16) : ∃ bytes, halves bytes = values := by
  induction count generalizing values with
  | zero => exact ⟨[], (List.length_eq_zero_iff.1 hlength).symm⟩
  | succ count ih =>
      obtain ⟨high, low, rest, rfl⟩ : ∃ high low rest, values = high :: low :: rest := by
        cases values with
        | nil => simp at hlength
        | cons high values =>
            cases values with
            | nil =>
                simp at hlength
                omega
            | cons low rest => exact ⟨high, low, rest, rfl⟩
      have hrest : rest.length = 2 * count := by
        simp at hlength
        omega
      obtain ⟨bytes, hbytes⟩ := ih hrest fun value hvalue => hlt value (by simp [hvalue])
      have hhigh : high < 16 := hlt high (by simp)
      have hlow : low < 16 := hlt low (by simp)
      have hbyte : (UInt8.ofNat (16 * high + low)).toNat = 16 * high + low :=
        UInt8.toNat_ofNat_of_lt' (show _ < 256 by omega)
      refine ⟨UInt8.ofNat (16 * high + low) :: bytes, ?_⟩
      rw [halves_cons, hbyte, hbytes]
      congr 2
      · omega
      · omega

/-- Every text with an even number of digits is read. -/
theorem exists_decode_eq_ok {text : String} {values : List Nat}
    (hvalues : text.toList.mapM hexValue? = some values) {count : Nat}
    (hlength : values.length = 2 * count) :
    ∃ bytes, decode text = .ok bytes ∧ halves bytes = values := by
  have hlt : ∀ value ∈ values, value < 16 := by
    intro value hvalue
    obtain ⟨c, -, hc⟩ :=
      Outcome.exists_item_of_mem (Outcome.mapM_eq_some_iff.1 hvalues) hvalue
    rw [hexValue?_eq] at hc
    exact lt_of_codeValue? hc
  obtain ⟨bytes, hbytes⟩ := exists_halves_eq hlength hlt
  exact ⟨bytes, decode_eq_ok_iff.2 (hbytes ▸ hvalues), hbytes⟩

theorem hexValue?_digit {value : UInt8} (h : value.toNat < 16) :
    hexValue? (digit value) = some value.toNat := by
  have hall : ∀ value : Fin 16,
      hexValue? (digit (UInt8.ofNat value.val)) = some value.val := by decide
  simpa using hall ⟨value.toNat, h⟩

theorem mapM_hexValue?_digits (bytes : List UInt8) :
    (digits bytes).mapM hexValue? = some (halves bytes) := by
  induction bytes with
  | nil => rfl
  | cons byte rest ih =>
      have hbound := byte.toNat_lt
      have hhigh : (byte >>> 4).toNat = byte.toNat / 16 := by
        simp [Nat.shiftRight_eq_div_pow]
      have hlow : (byte &&& 15).toNat = byte.toNat % 16 := by
        simpa using Nat.and_two_pow_sub_one_eq_mod byte.toNat 4
      rw [show digits (byte :: rest) = digit (byte >>> 4) :: digit (byte &&& 15) :: digits rest
        from rfl, List.mapM_cons, List.mapM_cons, ih, hexValue?_digit (by omega),
        hexValue?_digit (by omega), hhigh, hlow]
      rfl

/-- The written form of a byte string is read as that byte string. -/
theorem decode_encode (bytes : List UInt8) : decode (encode bytes) = .ok bytes := by
  rw [decode_eq_ok_iff, encode, String.toList_ofList, mapM_hexValue?_digits]

/-! ## Numbers -/

/-- The number that a text of digits denotes; the first digit counts most. -/
def number? (digits : List Char) : Option Nat :=
  (digits.mapM hexValue?).map fun values => Nat.ofDigits 16 values.reverse

theorem ofDigits_halves (bytes : List UInt8) :
    Nat.ofDigits 16 (halves bytes).reverse = ofBigEndian bytes := by
  induction bytes using List.reverseRecOn with
  | nil => rfl
  | append_singleton bytes byte ih =>
      have hhalves : (halves (bytes ++ [byte])).reverse =
          byte.toNat % 16 :: byte.toNat / 16 :: (halves bytes).reverse := by
        simp [halves]
      have hbytes : ofBigEndian (bytes ++ [byte]) = byte.toNat + 256 * ofBigEndian bytes := by
        simp [ofBigEndian, ofLittleEndian]
      rw [hhalves, hbytes, Nat.ofDigits_cons, Nat.ofDigits_cons, ih]
      omega

/-- Zeros in front do not change a number. -/
theorem number?_replicate_append (count : Nat) (digits : List Char) :
    number? (List.replicate count '0' ++ digits) = number? digits := by
  have hzeros : (List.replicate count '0').mapM hexValue? = some (List.replicate count 0) := by
    induction count with
    | zero => rfl
    | succ count ih =>
        rw [List.replicate_succ, List.mapM_cons, ih]
        rfl
  rw [number?, number?, List.mapM_append, hzeros]
  cases digits.mapM hexValue? with
  | none => rfl
  | some values => simp [Nat.ofDigits_append_replicate_zero]

theorem isSome_number?_iff {digits : List Char} :
    (number? digits).isSome = true ↔ ∀ c ∈ digits, (hexValue? c).isSome = true := by
  simp only [number?, Option.isSome_map, Option.isSome_iff_exists, Outcome.mapM_eq_some_iff]
  constructor
  · rintro ⟨values, hvalues⟩ c hc
    obtain ⟨value, -, hvalue⟩ := Outcome.exists_result_of_mem hvalues hc
    exact ⟨value, hvalue⟩
  · exact Outcome.exists_forall₂

end Hex
end Quorum
