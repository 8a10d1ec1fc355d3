import Quorum.Json.Printer
import Quorum.Proofs.Hex

/-!
# Written values are read back

A value that is written at any depth is read back from the front of a text, whatever follows it.
This is a property of values that strings of text have, and that arrays and objects have if all
their parts do; the statements here say so one by one, and nothing is said of numbers.

Reading takes a step for each value and for each item of an array or an object.  Every item is
written with characters of its own, so a step for every character is enough.
-/

namespace Quorum
namespace Json

/-! ## White space -/

theorem skipBlanks_newLine (depth : Nat) (text : List Char) :
    skipBlanks (newLine depth ++ text) = skipBlanks text := by
  have hspaces (count : Nat) :
      skipBlanks (List.replicate count ' ' ++ text) = skipBlanks text := by
    induction count with
    | zero => rfl
    | succ count ih => simp [List.replicate_succ, skipBlanks, ih]
  simp [newLine, skipBlanks, hspaces]

theorem value?_newLine (fuel depth : Nat) (text : List Char) :
    value? fuel (newLine depth ++ text) = value? fuel text := by
  cases fuel with
  | zero => rfl
  | succ fuel => rw [value?, value?, skipBlanks_newLine]

theorem items?_newLine (fuel depth : Nat) (text : List Char) :
    items? fuel (newLine depth ++ text) = items? fuel text := by
  cases fuel with
  | zero => rfl
  | succ fuel => rw [items?, items?, value?_newLine]

theorem members?_newLine (fuel depth : Nat) (text : List Char) :
    members? fuel (newLine depth ++ text) = members? fuel text := by
  cases fuel with
  | zero => rfl
  | succ fuel => rw [members?, members?, skipBlanks_newLine]

/-! ## Strings -/

theorem hexValue?_lastDigit (value : Nat) : hexValue? (lastDigit value) = some (value % 16) := by
  have hlt : (UInt8.ofNat (value % 16)).toNat = value % 16 :=
    UInt8.toNat_ofNat_of_lt' (show value % 16 < 256 by omega)
  rw [lastDigit, Hex.hexValue?_digit (by omega), hlt]

theorem escapeCode?_lastDigits {code : Nat} (h : code < 65536) :
    escapeCode? (lastDigit (code / 4096)) (lastDigit (code / 256)) (lastDigit (code / 16))
      (lastDigit code) = some code := by
  simp [escapeCode?, hexValue?_lastDigit]
  omega

section Characters

variable {text rest : List Char} {symbols : List Symbol}

/-- A character after a backslash. -/
theorem characters?_short {letter c : Char} (hletter : letter ≠ 'u')
    (h : shortEscape? letter = some c) (htext : characters? text = some (symbols, rest)) :
    characters? ('\\' :: letter :: text) = some (.char c :: symbols, rest) := by
  rw [characters?]
  · simp [h, htext]
  · intro a b c d rest hu
    exact absurd hu hletter

/-- A character that is written by its number. -/
theorem characters?_numericEscape {c : Char} (h : c.toNat < 32)
    (htext : characters? text = some (symbols, rest)) :
    characters? (numericEscape c.toNat ++ text) = some (.char c :: symbols, rest) := by
  have hcode := escapeCode?_lastDigits (show c.toNat < 65536 by omega)
  have hsymbol : Symbol.ofCode c.toNat = .char c := by
    rw [Symbol.ofCode, if_neg (by omega), Char.ofNat_toNat]
  simp only [numericEscape, List.cons_append, List.nil_append]
  rw [characters?, hcode]
  simp [hsymbol, htext]

/-- The three ways in which a character is written. -/
theorem escape_char_cases (c : Char) :
    (∃ letter, letter ≠ 'u' ∧ shortEscape? letter = some c ∧ escape (.char c) = ['\\', letter]) ∨
      (c.toNat < 32 ∧ escape (.char c) = numericEscape c.toNat) ∨
      (32 ≤ c.toNat ∧ c ≠ '"' ∧ c ≠ '\\' ∧ escape (.char c) = [c]) := by
  by_cases hshort : c ∈ ['"', '\\', '\x08', '\x0c', '\n', '\r', '\t']
  · simp only [List.mem_cons, List.not_mem_nil, or_false] at hshort
    refine .inl ?_
    obtain rfl | rfl | rfl | rfl | rfl | rfl | rfl := hshort
    all_goals exact ⟨_, by decide, rfl, rfl⟩
  · simp at hshort
    by_cases hcontrol : c.toNat < 32
    · exact .inr (.inl ⟨hcontrol, by simp [escape, hshort, hcontrol]⟩)
    · exact .inr (.inr ⟨by omega, hshort.1, hshort.2.1, by simp [escape, hshort, hcontrol]⟩)

/-- A written character is read as that character. -/
theorem characters?_escape (c : Char) (htext : characters? text = some (symbols, rest)) :
    characters? (escape (.char c) ++ text) = some (.char c :: symbols, rest) := by
  obtain ⟨letter, hletter, hshort, hescape⟩ | ⟨hcontrol, hescape⟩ |
    ⟨hprinted, hquote, hbackslash, hescape⟩ := escape_char_cases c
  · rw [hescape]
    exact characters?_short hletter hshort htext
  · rw [hescape]
    exact characters?_numericEscape hcontrol htext
  · rw [hescape, List.singleton_append, characters?]
    · rw [if_neg (by simp [hbackslash]; omega)]
      simp [htext]
    · exact hquote
    · intro a b c d rest h
      exact absurd h hbackslash
    · intro c rest h
      exact absurd h hbackslash

theorem characters?_flatMap_escape (chars : List Char) (rest : List Char) :
    characters? ((chars.map Symbol.char).flatMap escape ++ '"' :: rest) =
      some (chars.map Symbol.char, rest) := by
  induction chars with
  | nil => rfl
  | cons c chars ih =>
      rw [List.map_cons, List.flatMap_cons, List.append_assoc]
      exact characters?_escape c ih

end Characters

/-- Characters are never halves of a surrogate pair. -/
theorem joinHalves_map_char (chars : List Char) :
    joinHalves (chars.map Symbol.char) = chars.map Symbol.char := by
  induction chars with
  | nil => rfl
  | cons c chars ih => simp [joinHalves, ih]

theorem symbols?_quoted (text : String) (rest : List Char) :
    symbols? ((symbols text).flatMap escape ++ '"' :: rest) = some (symbols text, rest) := by
  simp [symbols?, symbols, characters?_flatMap_escape, joinHalves_map_char]

/-! ## Values -/

/-- A character with which a value can start: no white space, and not the end of an array. -/
def Starts (c : Char) : Prop := c ∉ [' ', '\n', '\t', '\r', ']']

theorem Starts.skipBlanks_cons {c : Char} (h : Starts c) (text : List Char) :
    skipBlanks (c :: text) = c :: text := by
  simp [Starts] at h
  simp [skipBlanks, h]

/-- A value that is read back wherever it is written, by a step for each of its characters. -/
structure ReadBack (value : Json) : Prop where
  starts : ∀ depth, ∃ c text, render depth value = c :: text ∧ Starts c
  reads : ∀ depth fuel rest, (render depth value).length < fuel →
    value? fuel (render depth value ++ rest) = some (value, rest)

theorem readBack_ofText (text : String) : ReadBack (.ofText text) where
  starts depth := ⟨_, _, rfl, by simp [Starts]⟩
  reads depth fuel rest hfuel := by
    cases fuel with
    | zero => omega
    | succ fuel =>
        have hquoted : render depth (.ofText text) ++ rest =
            '"' :: ((symbols text).flatMap escape ++ '"' :: rest) := by
          simp [ofText, render, quote]
        rw [hquoted, value?, Starts.skipBlanks_cons (by simp [Starts])]
        simp only [symbols?_quoted]
        rfl

/-! ## Arrays -/

/-- The items of an array are read up to its end. -/
theorem items?_of_readBack {items : List Json} (hitems : ∀ item ∈ items, ReadBack item)
    {item : Json} (hitem : ReadBack item) (depth outer fuel : Nat) (rest : List Char)
    (hfuel : (render depth item ++ renderItems depth items).length + 1 < fuel) :
    items? fuel (render depth item ++ renderItems depth items ++ newLine outer ++ ']' :: rest) =
      some (item :: items, rest) := by
  induction items generalizing item fuel with
  | nil =>
      cases fuel with
      | zero => omega
      | succ fuel =>
          simp [renderItems] at hfuel ⊢
          rw [items?, hitem.reads depth fuel _ (by omega)]
          simp [skipBlanks_newLine, skipBlanks]
  | cons next items ih =>
      cases fuel with
      | zero => omega
      | succ fuel =>
          -- The rest starts with the next item, after a comma and a new line.
          have hnext := ih (fun other hother => hitems other (by simp [hother]))
            (hitems next (by simp)) fuel
          simp [renderItems] at hfuel hnext ⊢
          rw [items?, hitem.reads depth fuel _ (by omega)]
          simp [skipBlanks, items?_newLine, hnext (by omega)]

theorem value?_items {c : Char} (hc : Starts c) (fuel depth : Nat) (text : List Char) :
    value? (fuel + 1) ('[' :: (newLine depth ++ c :: text)) =
      (items? fuel (c :: text)).map fun (items, rest) => (.array items, rest) := by
  have hend : c ≠ ']' := by
    rintro rfl
    simp [Starts] at hc
  have hskip : skipBlanks (newLine depth ++ c :: text) = c :: text := by
    rw [skipBlanks_newLine, hc.skipBlanks_cons]
  rw [value?, Starts.skipBlanks_cons (by simp [Starts])]
  simp only [hskip]
  split
  · simp_all
  · simp_all

theorem readBack_array {items : List Json} (hitems : ∀ item ∈ items, ReadBack item) :
    ReadBack (.array items) where
  starts depth := by
    cases items with
    | nil => exact ⟨_, _, rfl, by simp [Starts]⟩
    | cons item items => exact ⟨_, _, rfl, by simp [Starts]⟩
  reads depth fuel rest hfuel := by
    cases fuel with
    | zero => omega
    | succ fuel =>
        cases items with
        | nil => simp [render, value?, skipBlanks]
        | cons item items =>
            obtain ⟨c, text, htext, hc⟩ := (hitems item (by simp)).starts (depth + 1)
            have hread := items?_of_readBack
              (fun other hother => hitems other (List.mem_cons_of_mem _ hother))
              (hitems item (by simp)) (depth + 1) depth fuel rest
            simp [render, newLine] at hfuel
            simp [render, htext] at hread ⊢
            rw [value?_items hc, hread]
            · rfl
            · simp [htext] at hfuel
              omega

/-! ## Objects -/

section Members

variable {fuel : Nat} {text left rest : List Char} {value : Json}

/-- A member starts with its name, and its value is what follows. -/
theorem members?_named (name : String) (hvalue : value? fuel text = some (value, left)) :
    members? (fuel + 1) (quote (symbols name) ++ ':' :: ' ' :: text) =
      match skipBlanks left with
      | ',' :: rest => (members? fuel rest).map fun (members, rest) =>
          ((symbols name, value) :: members, rest)
      | '\x7d' :: rest => some ([(symbols name, value)], rest)
      | _ => none := by
  have hblank : value? fuel (' ' :: text) = some (value, left) := by
    cases fuel with
    | zero => simp [value?] at hvalue
    | succ fuel => simpa [value?, skipBlanks] using hvalue
  have hquoted : quote (symbols name) ++ ':' :: ' ' :: text =
      '"' :: ((symbols name).flatMap escape ++ '"' :: (':' :: ' ' :: text)) := by
    simp [quote]
  rw [hquoted, members?, Starts.skipBlanks_cons (by simp [Starts])]
  simp only [symbols?_quoted, Option.bind_eq_bind, Option.bind_some]
  rw [Starts.skipBlanks_cons (by simp [Starts])]
  simp only [hblank, Option.bind_some]
  split <;> simp_all [Option.map_eq_bind]

end Members

/-- Members of an object, with names that are texts. -/
def named (members : List (String × Json)) : List (List Symbol × Json) :=
  members.map fun (name, value) => (symbols name, value)

/-- The members of an object are read up to its end. -/
theorem members?_of_readBack {members : List (String × Json)}
    (hmembers : ∀ member ∈ members, ReadBack member.2) (name : String) {value : Json}
    (hvalue : ReadBack value) (depth outer fuel : Nat) (rest : List Char)
    (hfuel : (render depth value ++ renderMembers depth (named members)).length + 1 < fuel) :
    members? fuel (quote (symbols name) ++ ':' :: ' ' :: (render depth value ++
        (renderMembers depth (named members) ++ (newLine outer ++ '\x7d' :: rest)))) =
      some ((symbols name, value) :: named members, rest) := by
  induction members generalizing name value fuel with
  | nil =>
      cases fuel with
      | zero => omega
      | succ fuel =>
          simp [named, renderMembers] at hfuel ⊢
          rw [members?_named name (hvalue.reads depth fuel _ (by omega))]
          simp [skipBlanks_newLine, skipBlanks]
  | cons next members ih =>
      cases fuel with
      | zero => omega
      | succ fuel =>
          have hnext := ih (fun other hother => hmembers other (by simp [hother])) next.1
            (hmembers next (by simp)) fuel
          simp [named, renderMembers] at hfuel hnext ⊢
          rw [members?_named name (hvalue.reads depth fuel _ (by omega))]
          simp [skipBlanks, members?_newLine, hnext (by omega)]

theorem value?_members (fuel depth : Nat) (name : List Symbol) (text : List Char) :
    value? (fuel + 1) ('\x7b' :: (newLine depth ++ (quote name ++ text))) =
      (members? fuel (quote name ++ text)).map fun (members, rest) => (.object members, rest) := by
  have hskip : skipBlanks (newLine depth ++ (quote name ++ text)) = quote name ++ text := by
    rw [skipBlanks_newLine, quote, List.append_assoc, List.cons_append]
    exact Starts.skipBlanks_cons (by simp [Starts]) _
  rw [value?, Starts.skipBlanks_cons (by simp [Starts])]
  simp only [hskip]
  simp [quote]

theorem readBack_ofMembers {members : List (String × Json)}
    (hmembers : ∀ member ∈ members, ReadBack member.2) : ReadBack (.ofMembers members) where
  starts depth := by
    cases members with
    | nil => exact ⟨_, _, rfl, by simp [Starts]⟩
    | cons member members => exact ⟨_, _, rfl, by simp [Starts]⟩
  reads depth fuel rest hfuel := by
    cases fuel with
    | zero => omega
    | succ fuel =>
        cases members with
        | nil => simp [ofMembers, render, value?, skipBlanks]
        | cons member members =>
            have hread := members?_of_readBack
              (fun other hother => hmembers other (List.mem_cons_of_mem _ hother)) member.1
              (hmembers member (by simp)) (depth + 1) depth fuel rest
            simp [ofMembers, render, newLine] at hfuel
            simp [ofMembers, named, render] at hread ⊢
            rw [value?_members, hread]
            · rfl
            · omega

/-! ## Texts -/

/-- A value that is read back wherever it is written is what its written form consists of. -/
theorem parse?_pretty {value : Json} (h : ReadBack value) : parse? value.pretty = some value := by
  have hread := h.reads 0 (2 * (render 0 value).length + 1) [] (by omega)
  simp [parse?, pretty] at hread ⊢
  simp [hread, skipBlanks]

end Json
end Quorum
