import Quorum.Proofs.Wire.Uleb128

/-!
# Which inputs start with a number

Every input is divided at its first digit that no other follows, if there is one among the
first five.  In front of this digit there are only digits that go on, and the two together are
the shortest form of a number, unless the last digit is a zero that could be left out.

So an input starts with a number of 32 bits, or there is one of four causes why it does not,
and the cause decides what is reported.  No form of a number is the beginning of that of
another one.
-/

namespace Quorum
namespace Wire

variable {field : Field} {left place value : Nat} {digits rest : List UInt8}

/-- Another digit follows each of the given ones. -/
def GoOn (digits : List UInt8) : Prop := ∀ digit ∈ digits, ¬ digit < 128

@[simp]
theorem goOn_nil : GoOn [] := fun _ h => absurd h List.not_mem_nil

@[simp]
theorem goOn_cons_iff {digit : UInt8} : GoOn (digit :: digits) ↔ ¬ digit < 128 ∧ GoOn digits :=
  List.forall_mem_cons

/-- Why no number can be read from the front of an input. -/
inductive Unreadable (field : Field) : (input : List UInt8) → Malformation → Prop where
  /-- The input ends before the last digit. -/
  | cut {digits : List UInt8} (hdigits : GoOn digits) (hlength : digits.length < 5) :
      Unreadable field digits (.truncated field)
  /-- The last of several digits is a zero. -/
  | overlong {digits rest : List UInt8} (hdigits : GoOn digits) (hlength : digits.length < 5)
      (hne : digits ≠ []) : Unreadable field (digits ++ 0 :: rest) (.nonCanonical field)
  /-- The number has more than 32 bits. -/
  | tooLarge {value : Nat} {rest : List UInt8} (hsize : UInt32.size ≤ value) :
      Unreadable field (uleb128 value ++ rest) (.overflow field)
  /-- There are more than five digits. -/
  | tooLong {digits rest : List UInt8} (hdigits : GoOn digits) (hlength : digits.length = 5) :
      Unreadable field (digits ++ rest) (.overflow field)

/-! ## What is reported -/

/-- A digit that goes on is taken, and reading goes on behind it. -/
theorem run_uleb128Digits_cons {digit : UInt8} (h : ¬ digit < 128) :
    (uleb128Digits field (left + 1) place value).run (digit :: rest) =
      (uleb128Digits field left (place + 1)
        (value + digit.toNat % 128 * Nat.pow 128 place)).run rest := by
  rw [uleb128Digits, run_bind_of_ok (run_byte_eq_ok_iff.2 rfl)]
  simp only [if_neg h]

theorem exists_run_uleb128Digits_append (field : Field) (h : GoOn digits)
    (left place value : Nat) (rest : List UInt8) : ∃ value',
      (uleb128Digits field (digits.length + left) place value).run (digits ++ rest) =
        (uleb128Digits field left (digits.length + place) value').run rest := by
  induction digits generalizing place value with
  | nil => exact ⟨value, by simp⟩
  | cons digit digits ih =>
      obtain ⟨hdigit, hdigits⟩ := goOn_cons_iff.1 h
      obtain ⟨value', hrun⟩ := ih hdigits (place + 1)
        (value + digit.toNat % 128 * Nat.pow 128 place)
      have hleft : (digit :: digits).length + left = digits.length + left + 1 := by
        rw [List.length_cons]
        omega
      have hplace : (digit :: digits).length + place = digits.length + (place + 1) := by
        rw [List.length_cons]
        omega
      refine ⟨value', ?_⟩
      rw [hleft, hplace, List.cons_append, run_uleb128Digits_cons hdigit, hrun]

/-- Reading breaks off at the digit with which the number gets too large, or before. -/
theorem run_uleb128Digits_of_large {m : Nat} (hne : 0 < place → m ≠ 0)
    (hlarge : UInt32.size ≤ value + m * 128 ^ place) :
    (uleb128Digits field left place value).run (uleb128 m ++ rest) =
      .error (.malformedObject (.overflow field)) := by
  induction left generalizing m place value with
  | zero => rfl
  | succ left ih =>
      obtain ⟨digit, tail, hinput⟩ := exists_uleb128_append_eq_cons m rest
      rw [hinput]
      rcases uleb128_append_eq_cons_iff.1 hinput with
        ⟨hdigit, rfl, rfl⟩ | ⟨hdigit, m', hm', rfl, rfl⟩
      · have hlast : ¬ (0 < place ∧ digit = 0) := by
          rintro ⟨hplace, rfl⟩
          exact hne hplace rfl
        have hlt : digit.toNat < 128 := UInt8.lt_iff_toNat_lt.1 hdigit
        have hsize : ¬ value + digit.toNat % 128 * Nat.pow 128 place < UInt32.size := by
          rw [Nat.mod_eq_of_lt hlt]
          exact Nat.not_lt.2 hlarge
        rw [uleb128Digits, run_bind_of_ok (run_byte_eq_ok_iff.2 rfl)]
        simp only [if_pos hdigit, if_neg hlast, if_neg hsize]
        rfl
      · rw [run_uleb128Digits_cons hdigit]
        refine ih (fun _ => hm') (hlarge.trans_eq ?_)
        rw [Nat.pow_eq, pow_succ]
        ring

/-- A zero that is the last of several digits is refused. -/
theorem run_uleb128Digits_zero (hplace : 0 < place) :
    (uleb128Digits field (left + 1) place value).run (0 :: rest) =
      .error (.malformedObject (.nonCanonical field)) := by
  have hzero : 0 < place ∧ True := ⟨hplace, trivial⟩
  rw [uleb128Digits, run_bind_of_ok (run_byte_eq_ok_iff.2 rfl)]
  simp only [if_pos (show (0 : UInt8) < 128 by decide), if_pos hzero]
  rfl

/-- The cause decides what is reported. -/
theorem run_readUleb128_of_unreadable {input : List UInt8} {malformation : Malformation}
    (h : Unreadable field input malformation) :
    (readUleb128 field).run input = .error (.malformedObject malformation) := by
  unfold readUleb128
  cases h with
  | cut hdigits hlength =>
      obtain ⟨left, hleft⟩ := Nat.exists_eq_add_of_lt hlength
      obtain ⟨value, hrun⟩ :=
        exists_run_uleb128Digits_append field hdigits (left + 1) 0 0 []
      rw [List.append_nil] at hrun
      rw [hleft, Nat.add_assoc, hrun]
      rfl
  | @overlong digits rest hdigits hlength hne =>
      obtain ⟨left, hleft⟩ := Nat.exists_eq_add_of_lt hlength
      obtain ⟨value, hrun⟩ :=
        exists_run_uleb128Digits_append field hdigits (left + 1) 0 0 (0 :: rest)
      rw [hleft, Nat.add_assoc, hrun]
      exact run_uleb128Digits_zero (List.length_pos_iff.2 hne)
  | tooLarge hsize =>
      refine run_uleb128Digits_of_large (fun h => absurd h (by decide)) ?_
      rwa [pow_zero, Nat.mul_one, Nat.zero_add]
  | @tooLong digits rest hdigits hlength =>
      obtain ⟨value, hrun⟩ :=
        exists_run_uleb128Digits_append field hdigits 0 0 0 rest
      rw [← hlength]
      exact hrun

/-! ## Every input is of one of these forms -/

/-- The first digits of an input, up to one that no other follows. -/
theorem divided (left : Nat) (input : List UInt8) :
    (GoOn input ∧ input.length < left) ∨
      (∃ digits rest, input = digits ++ rest ∧ GoOn digits ∧ digits.length = left) ∨
      ∃ digits last rest, input = digits ++ last :: rest ∧ GoOn digits ∧
        digits.length < left ∧ last < 128 := by
  induction left generalizing input with
  | zero => exact .inr (.inl ⟨[], input, rfl, goOn_nil, rfl⟩)
  | succ left ih =>
      cases input with
      | nil => exact .inl ⟨goOn_nil, Nat.succ_pos left⟩
      | cons first input =>
          by_cases hfirst : first < 128
          · exact .inr (.inr ⟨[], first, input, rfl, goOn_nil, Nat.succ_pos left, hfirst⟩)
          · rcases ih input with ⟨hinput, hlength⟩ | ⟨digits, rest, rfl, hdigits, hlength⟩ |
              ⟨digits, last, rest, rfl, hdigits, hlength, hlast⟩
            · exact .inl ⟨goOn_cons_iff.2 ⟨hfirst, hinput⟩, Nat.succ_lt_succ hlength⟩
            · exact .inr (.inl ⟨first :: digits, rest, rfl, goOn_cons_iff.2 ⟨hfirst, hdigits⟩,
                congrArg Nat.succ hlength⟩)
            · exact .inr (.inr ⟨first :: digits, last, rest, rfl,
                goOn_cons_iff.2 ⟨hfirst, hdigits⟩, Nat.succ_lt_succ hlength, hlast⟩)

/-- Digits that go on and one after them are the form of a number, unless that one is a zero
that could be left out. -/
theorem exists_uleb128_eq {last : UInt8} (hdigits : GoOn digits) (hlast : last < 128)
    (hne : digits = [] ∨ last ≠ 0) :
    ∃ value, uleb128 value = digits ++ [last] ∧ (last ≠ 0 → value ≠ 0) := by
  induction digits with
  | nil =>
      exact ⟨last.toNat, uleb128_toNat_of_lt hlast, fun h hzero => h (UInt8.toNat_inj.1 hzero)⟩
  | cons digit digits ih =>
      obtain ⟨hdigit, hdigits⟩ := goOn_cons_iff.1 hdigits
      have hlast0 : last ≠ 0 := hne.resolve_left (List.cons_ne_nil _ _)
      obtain ⟨value, hvalue, hvalue0⟩ := ih hdigits (.inr hlast0)
      refine ⟨digit.toNat % 128 + value * 128, ?_, fun _ => ?_⟩
      · rw [uleb128_toNat_add hdigit (hvalue0 hlast0), hvalue, List.cons_append]
      · have hpos := hvalue0 hlast0
        omega

/-- An input starts with a number of 32 bits, or there is a cause why it does not. -/
theorem readable_or_unreadable (field : Field) (input : List UInt8) :
    (∃ number : UInt32, uleb128 number.toNat <+: input) ∨
      ∃ malformation, Unreadable field input malformation := by
  rcases divided 5 input with ⟨hinput, hlength⟩ | ⟨digits, rest, rfl, hdigits, hlength⟩ |
    ⟨digits, last, rest, rfl, hdigits, hlength, hlast⟩
  · exact .inr ⟨_, .cut hinput hlength⟩
  · exact .inr ⟨_, .tooLong hdigits hlength⟩
  · by_cases hzero : digits = [] ∨ last ≠ 0
    · obtain ⟨value, hvalue, -⟩ := exists_uleb128_eq hdigits hlast hzero
      have hinput : digits ++ last :: rest = uleb128 value ++ rest := by
        rw [hvalue, List.append_assoc, List.singleton_append]
      rw [hinput]
      by_cases hsize : value < UInt32.size
      · refine .inl ⟨UInt32.ofNat value, ?_⟩
        rw [UInt32.toNat_ofNat_of_lt' hsize]
        exact List.prefix_append _ _
      · exact .inr ⟨_, .tooLarge (Nat.not_lt.1 hsize)⟩
    · rw [not_or, not_not] at hzero
      obtain ⟨hne, rfl⟩ := hzero
      exact .inr ⟨_, .overlong hdigits hlength hne⟩

/-- A number is read from an input that starts with its form, and from no other. -/
theorem exists_run_readUleb128_eq_ok_iff (field : Field) {number : UInt32} {input : List UInt8} :
    (∃ rest, (readUleb128 field).run input = .ok (number, rest)) ↔
      uleb128 number.toNat <+: input := by
  simp only [run_readUleb128_eq_ok_iff]
  exact exists_congr fun _ => eq_comm

theorem run_readUleb128_eq_error_iff {input : List UInt8} {error : SealingError} :
    (readUleb128 field).run input = .error error ↔
      ∃ malformation, Unreadable field input malformation ∧
        error = .malformedObject malformation := by
  constructor
  · intro h
    rcases readable_or_unreadable field input with ⟨number, hform⟩ | ⟨malformation, hcause⟩
    · obtain ⟨rest, hrun⟩ := (exists_run_readUleb128_eq_ok_iff field).2 hform
      cases h.symm.trans hrun
    · cases h.symm.trans (run_readUleb128_of_unreadable hcause)
      exact ⟨malformation, hcause, rfl⟩
  · rintro ⟨malformation, hcause, rfl⟩
    exact run_readUleb128_of_unreadable hcause

/-- Forms of which one is the beginning of the other are those of the same number. -/
theorem eq_of_uleb128_isPrefix {a b : UInt32} (h : uleb128 a.toNat <+: uleb128 b.toNat) : a = b := by
  obtain ⟨rest, hrest⟩ := h
  -- Both are read from the front of the longer form.
  have hb : (readUleb128 .version).run (uleb128 b.toNat) = .ok (b, []) :=
    run_readUleb128_eq_ok_iff.2 (List.append_nil _).symm
  have ha : (readUleb128 .version).run (uleb128 b.toNat) = .ok (a, rest) :=
    run_readUleb128_eq_ok_iff.2 hrest.symm
  cases ha.symm.trans hb
  rfl

/-- From a position of a byte string on, a number is read from the next bytes exactly if they
are its shortest form, whatever follows them.  In every other case it is reported why the input
is malformed.  The forms of different numbers are never the beginnings of one another. -/
theorem readUleb128_classification (field : Field) :
    (∀ (bytes : List UInt8) (position taken : Nat) (number : UInt32),
      (readUleb128 field).run (bytes.drop position) =
          .ok (number, bytes.drop (position + taken)) ↔
        (bytes.drop position).take taken = uleb128 number.toNat) ∧
    (∀ (bytes : List UInt8) (position : Nat),
      (∀ number : UInt32, ¬ uleb128 number.toNat <+: bytes.drop position) ↔
        ∃ malformation, (readUleb128 field).run (bytes.drop position) =
          .error (.malformedObject malformation)) ∧
    (∀ (bytes : List UInt8) (position : Nat) (error : SealingError),
      (readUleb128 field).run (bytes.drop position) = .error error ↔
        ∃ malformation, Unreadable field (bytes.drop position) malformation ∧
          error = .malformedObject malformation) ∧
    ∀ a b : UInt32, uleb128 a.toNat <+: uleb128 b.toNat ↔ a = b := by
  refine ⟨fun bytes position taken number => ?_, fun bytes position => ?_,
    fun bytes position error => run_readUleb128_eq_error_iff,
    fun a b => ⟨eq_of_uleb128_isPrefix, fun h => h ▸ List.prefix_rfl⟩⟩
  · rw [run_readUleb128_eq_ok_iff, ← List.drop_drop]
    nth_rewrite 1 [← List.take_append_drop taken (bytes.drop position)]
    exact List.append_left_inj _
  · constructor
    · intro hnone
      rcases readable_or_unreadable field (bytes.drop position) with
        ⟨number, hform⟩ | ⟨malformation, hcause⟩
      · exact absurd hform (hnone number)
      · exact ⟨malformation, run_readUleb128_of_unreadable hcause⟩
    · rintro ⟨malformation, herror⟩ number hform
      obtain ⟨rest, hrun⟩ := (exists_run_readUleb128_eq_ok_iff field).2 hform
      cases herror.symm.trans hrun

end Wire
end Quorum
