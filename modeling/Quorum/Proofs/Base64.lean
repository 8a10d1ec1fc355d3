import Mathlib.Data.List.TakeWhile
import Quorum.Base64
import Quorum.Blank
import Quorum.Proofs.Outcome
import Quorum.Proofs.Text

/-!
# Base 64 texts are read back

The base 64 form of a byte string consists of the symbols of numbers of six bits, with at most
two bytes of padding behind them.  The padding is part of the last piece of the text, so the
pieces before it are symbols alone, and reading gives back all of the numbers.

No symbol is white space, so white space that surrounds the text is told from it.
-/

namespace Quorum
namespace Base64

/-! ## Numbers of six bits -/

/-- The numbers of six bits that a byte string is divided into. -/
def sextets : List UInt8 → List Nat
  | [] => []
  | [a] => [a.toNat * 16 / 64, a.toNat * 16 % 64]
  | [a, b] =>
    let value := (a.toNat * 256 + b.toNat) * 4
    [value / 64 / 64, value / 64 % 64, value % 64]
  | a :: b :: c :: rest =>
    let value := (a.toNat * 256 + b.toNat) * 256 + c.toNat
    value / 64 / 64 / 64 :: value / 64 / 64 % 64 :: value / 64 % 64 :: value % 64 :: sextets rest

/-- The number of bytes that fill up the last group. -/
def pads (bytes : List UInt8) : Nat := (3 - bytes.length % 3) % 3

theorem pads_add_three (a b c : UInt8) (rest : List UInt8) :
    pads (a :: b :: c :: rest) = pads rest := by
  simp only [pads, List.length_cons]
  omega

theorem encodeBytes_eq (bytes : List UInt8) :
    encodeBytes bytes = (sextets bytes).map symbol ++ List.replicate (pads bytes) pad := by
  induction bytes using encodeBytes.induct with
  | case1 => rfl
  | case2 a => rfl
  | case3 a b => rfl
  | case4 a b c rest ih => simp [encodeBytes, sextets, pads_add_three, ih]

theorem lt_of_mem_sextets (bytes : List UInt8) : ∀ value ∈ sextets bytes, value < 64 := by
  induction bytes using encodeBytes.induct with
  | case1 => simp [sextets]
  | case2 a =>
      have ha := a.toNat_lt
      simp [sextets]
      omega
  | case3 a b =>
      have ha := a.toNat_lt
      have hb := b.toNat_lt
      simp [sextets]
      omega
  | case4 a b c rest ih =>
      have ha := a.toNat_lt
      have hb := b.toNat_lt
      have hc := c.toNat_lt
      simp [sextets]
      exact ⟨by omega, by omega, by omega, by omega, ih⟩

theorem length_sextets_add_pads (bytes : List UInt8) :
    ((sextets bytes).length + pads bytes) % 4 = 0 := by
  induction bytes using encodeBytes.induct with
  | case1 => rfl
  | case2 a => simp [sextets, pads]
  | case3 a b => simp [sextets, pads]
  | case4 a b c rest ih =>
      rw [pads_add_three]
      simp [sextets]
      omega

theorem ofNat_eq {value : Nat} (byte : UInt8) (h : value = byte.toNat) :
    UInt8.ofNat value = byte := by
  rw [h, UInt8.ofNat_toNat]

/-- A byte string is made from the numbers that it is divided into. -/
theorem join_sextets (bytes : List UInt8) : join (sextets bytes) = some bytes := by
  induction bytes using encodeBytes.induct with
  | case1 => rfl
  | case2 a =>
      have hvalue : a.toNat * 16 / 64 * 64 + a.toNat * 16 % 64 = a.toNat * 16 := by omega
      simp only [sextets, join, hvalue]
      rw [if_pos (by omega), ofNat_eq a (by omega)]
  | case3 a b =>
      have hb := b.toNat_lt
      simp only [sextets]
      generalize hvalue : (a.toNat * 256 + b.toNat) * 4 = value
      have hjoined : (value / 64 / 64 * 64 + value / 64 % 64) * 64 + value % 64 = value := by omega
      simp only [join, hjoined]
      rw [if_pos (by omega), ofNat_eq a (by omega), ofNat_eq b (by omega)]
  | case4 a b c rest ih =>
      have hb := b.toNat_lt
      have hc := c.toNat_lt
      simp only [sextets]
      generalize hvalue : (a.toNat * 256 + b.toNat) * 256 + c.toNat = value
      have hjoined : ((value / 64 / 64 / 64 * 64 + value / 64 / 64 % 64) * 64 +
          value / 64 % 64) * 64 + value % 64 = value := by omega
      simp only [join, hjoined, ih]
      rw [ofNat_eq a (by omega), ofNat_eq b (by omega),
        ofNat_eq c (by omega)]
      rfl

/-! ## Symbols -/

theorem symbolValue?_symbol {value : Nat} (h : value < 64) :
    symbolValue? (symbol value) = some value := by
  revert value
  decide

theorem symbol_ne_pad {value : Nat} (h : value < 64) : symbol value ≠ pad := by
  revert value
  decide

theorem readSymbols_map_symbol {values : List Nat} (hvalues : ∀ value ∈ values, value < 64)
    (offset : Nat) : readSymbols offset (values.map symbol) = .ok values := by
  induction values generalizing offset with
  | nil => rfl
  | cons value values ih =>
      obtain ⟨hvalue, hvalues⟩ := List.forall_mem_cons.1 hvalues
      rw [List.map_cons, readSymbols, symbolValue?_symbol hvalue]
      simp only [ih hvalues]
      rfl

/-- Padding is read where a group is filled up by it. -/
theorem readLast_replicate_pad (start : Nat) {place count : Nat} (firstPad : Option Nat)
    (hcount : count ≤ 2) (hplace : (place + count) % 4 = 0) :
    readLast start place firstPad (List.replicate count pad) = .ok ([], count) := by
  induction count generalizing place firstPad with
  | zero => rfl
  | succ count ih =>
      have hsecond : ¬ place % 4 < 2 := by omega
      unfold readLast
      simp only [List.replicate_succ, if_pos, if_neg hsecond]
      rw [ih _ (by omega) (by omega)]
      rfl

theorem readLast_map_symbol (start : Nat) {place count : Nat} {values : List Nat}
    (hvalues : ∀ value ∈ values, value < 64) (hcount : count ≤ 2)
    (hplace : (place + values.length + count) % 4 = 0) :
    readLast start place none (values.map symbol ++ List.replicate count pad) =
      .ok (values, count) := by
  induction values generalizing place with
  | nil => exact readLast_replicate_pad start none hcount hplace
  | cons value values ih =>
      obtain ⟨hvalue, hvalues⟩ := List.forall_mem_cons.1 hvalues
      rw [List.length_cons] at hplace
      unfold readLast
      simp only [List.map_cons, List.cons_append, if_neg (symbol_ne_pad hvalue),
        symbolValue?_symbol hvalue]
      rw [ih hvalues (by omega)]
      rfl

/-! ## Texts -/

theorem decodeBytes_encodeBytes (bytes : List UInt8) :
    decodeBytes (encodeBytes bytes) = .ok bytes := by
  have hvalues := lt_of_mem_sextets bytes
  have hgroups := length_sextets_add_pads bytes
  have hpads : pads bytes ≤ 2 := by
    unfold pads
    omega
  have hlength : (encodeBytes bytes).length = (sextets bytes).length + pads bytes := by
    simp [encodeBytes_eq]
  generalize hstart : (encodeBytes bytes).length - lastSize (encodeBytes bytes).length = start
  -- The last piece starts where a group does, and no padding is in front of it.
  have hwhole : start % 4 = 0 ∧ start ≤ (sextets bytes).length := by
    rw [hlength] at hstart
    unfold lastSize at hstart
    split at hstart <;> omega
  have htake : (encodeBytes bytes).take start = ((sextets bytes).take start).map symbol := by
    rw [encodeBytes_eq, List.take_append_of_le_length (by simpa using hwhole.2), List.map_take]
  have hdrop : (encodeBytes bytes).drop start =
      ((sextets bytes).drop start).map symbol ++ List.replicate (pads bytes) pad := by
    rw [encodeBytes_eq, List.drop_append_of_le_length (by simpa using hwhole.2), List.map_drop]
  have hfront : readSymbols 0 (((sextets bytes).take start).map symbol) =
      .ok ((sextets bytes).take start) :=
    readSymbols_map_symbol (fun value hvalue => hvalues value (List.mem_of_mem_take hvalue)) 0
  have hlast : readLast start 0 none
      (((sextets bytes).drop start).map symbol ++ List.replicate (pads bytes) pad) =
        .ok ((sextets bytes).drop start, pads bytes) := by
    refine readLast_map_symbol start
      (fun value hvalue => hvalues value (List.mem_of_mem_drop hvalue)) hpads ?_
    rw [List.length_drop]
    omega
  have hfilled : ((sextets bytes).drop start).length + pads bytes =
      (sextets bytes).length + pads bytes - start := by
    rw [List.length_drop]
    omega
  unfold decodeBytes
  rw [if_neg (by omega)]
  simp only [hstart, htake, hdrop, hfront, hlast, Outcome.ok_bind]
  rw [if_neg (by omega), List.take_append_drop, join_sextets]
  rfl

/-- The symbols are bytes below 128, each of which is a character. -/
theorem lt_of_mem_encodeBytes {bytes : List UInt8} {byte : UInt8} (h : byte ∈ encodeBytes bytes) :
    byte.toNat < 128 ∧ isBlank (Char.ofNat byte.toNat) = false := by
  have hsymbol : ∀ value < 64, (symbol value).toNat < 128 ∧
      isBlank (Char.ofNat (symbol value).toNat) = false := by
    decide
  rw [encodeBytes_eq, List.mem_append] at h
  rcases h with hmem | hmem
  · obtain ⟨value, hvalue, rfl⟩ := List.mem_map.1 hmem
    exact hsymbol value (lt_of_mem_sextets bytes value hvalue)
  · obtain rfl := List.eq_of_mem_replicate hmem
    decide

/-- The bytes of a text in base 64 are its symbols. -/
theorem utf8_encode (bytes : List UInt8) : utf8 (encode bytes) = encodeBytes bytes := by
  have hascii : ∀ value < 128, String.utf8EncodeChar (Char.ofNat value) = [UInt8.ofNat value] := by
    decide
  have hchar : ∀ byte ∈ encodeBytes bytes,
      String.utf8EncodeChar (Char.ofNat byte.toNat) = [byte] := by
    intro byte hbyte
    rw [hascii byte.toNat (lt_of_mem_encodeBytes hbyte).1, UInt8.ofNat_toNat]
  rw [encode, utf8_ofList, List.flatMap_map, List.flatMap_congr hchar]
  exact List.flatMap_singleton' _

/-- A byte string is read back from its base 64 form. -/
theorem decode_encode (bytes : List UInt8) : decode (encode bytes) = .ok bytes := by
  rw [decode, utf8_encode, decodeBytes_encodeBytes]

/-! ## White space -/

theorem isBlank_of_mem_encode {bytes : List UInt8} {c : Char} (h : c ∈ (encode bytes).toList) :
    isBlank c = false := by
  rw [encode, String.toList_ofList] at h
  obtain ⟨byte, hbyte, rfl⟩ := List.mem_map.1 h
  exact (lt_of_mem_encodeBytes hbyte).2

end Base64

theorem dropWhile_isBlank {text : List Char} (htext : ∀ c ∈ text, isBlank c = false) :
    text.dropWhile isBlank = text := by
  cases text with
  | nil => rfl
  | cons c text => simp [htext]

/-- White space at both ends is taken off a text that has none of its own. -/
theorem trim_surrounded {front text back : List Char} (hfront : ∀ c ∈ front, isBlank c = true)
    (htext : ∀ c ∈ text, isBlank c = false) (hback : ∀ c ∈ back, isBlank c = true) :
    trim (String.ofList (front ++ (text ++ back))) = String.ofList text := by
  have hstart : (text ++ back).dropWhile isBlank = if text = [] then [] else text ++ back := by
    cases text with
    | nil => exact List.dropWhile_eq_nil_iff.2 hback
    | cons c text => simp [htext]
  have hend : ∀ c ∈ back.reverse, isBlank c = true := by simpa using hback
  have hreversed : ∀ c ∈ text.reverse, isBlank c = false := by simpa using htext
  rw [trim, String.toList_ofList, List.dropWhile_append_of_pos hfront, hstart]
  split
  · subst_vars
    rfl
  · rw [trimEnd, List.reverse_append, List.dropWhile_append_of_pos hend,
      dropWhile_isBlank hreversed, List.reverse_reverse]

end Quorum
