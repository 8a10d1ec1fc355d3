import Quorum.Proofs.Wire.Sequence

/-!
# What readers report

Reading bytes, numbers and sequences reports nothing but malformed input.  So when a whole
reading ends with another error, every part before the one that reports it has been read, and
the error can be traced to its place by taking the reading apart.
-/

namespace Quorum
namespace Wire

variable {α β : Type}

theorem run_bind_eq_error_iff {reader : Reader α} {next : α → Reader β} {error : SealingError}
    {input : List UInt8} :
    (reader >>= next).run input = .error error ↔
      reader.run input = .error error ∨
        ∃ a middle, reader.run input = .ok (a, middle) ∧ (next a).run middle = .error error := by
  rw [StateT.run_bind, Outcome.bind_eq_error_iff]
  exact or_congr_right Prod.exists

theorem run_pure_ne_error {a : α} {error : SealingError} {input : List UInt8} :
    (pure a : Reader α).run input ≠ .error error := nofun

theorem run_throw_eq_error_iff {error error' : SealingError} {input : List UInt8} :
    (throw error : Reader α).run input = .error error' ↔ error = error' := by
  change (Except.error error : Except SealingError (α × List UInt8)) = .error error' ↔ _
  rw [Except.error.injEq]

/-- Either what a check refuses is the case, or the error comes from what follows. -/
theorem run_check_eq_error_iff {c : Prop} [Decidable c] {error error' : SealingError}
    {next : β → Reader α} {reader : Reader α} {input : List UInt8} :
    (if c then throw error >>= next else reader).run input = .error error' ↔
      c ∧ error = error' ∨ ¬ c ∧ reader.run input = .error error' := by
  by_cases hc : c
  · rw [if_pos hc, run_bind_eq_error_iff, run_throw_eq_error_iff]
    simp [hc]
  · rw [if_neg hc]
    simp [hc]

/-- The reader reports nothing but malformed input. -/
def OnlyMalformed (reader : Reader α) : Prop :=
  ∀ input error, reader.run input = .error error →
    ∃ malformation, error = .malformedObject malformation

namespace OnlyMalformed

theorem malformed (malformation : Malformation) :
    OnlyMalformed (malformed malformation : Reader α) := by
  intro input error h
  exact ⟨malformation, (run_throw_eq_error_iff.1 h).symm⟩

theorem pure (a : α) : OnlyMalformed (pure a : Reader α) := nofun

theorem get : OnlyMalformed (get : Reader (List UInt8)) := nofun

theorem set (state : List UInt8) : OnlyMalformed (set state : Reader PUnit) := nofun

variable {reader : Reader α} {next : α → Reader β}

theorem bind (h : OnlyMalformed reader) (hnext : ∀ a, OnlyMalformed (next a)) :
    OnlyMalformed (reader >>= next) := by
  intro input error hrun
  rcases run_bind_eq_error_iff.1 hrun with hfirst | ⟨a, middle, -, hrest⟩
  · exact h input error hfirst
  · exact hnext a middle error hrest

/-- An error of another kind is reported after the reader has read its part. -/
theorem run_bind_eq_error_iff (h : OnlyMalformed reader) {error : SealingError}
    (herror : ∀ malformation, error ≠ .malformedObject malformation) {input : List UInt8} :
    (reader >>= next).run input = .error error ↔
      ∃ a middle, reader.run input = .ok (a, middle) ∧ (next a).run middle = .error error := by
  refine Wire.run_bind_eq_error_iff.trans (or_iff_right fun hrun => ?_)
  obtain ⟨malformation, rfl⟩ := h input error hrun
  exact herror malformation rfl

end OnlyMalformed

theorem onlyMalformed_byte (field : Field) : OnlyMalformed (byte field) := by
  refine .bind .get fun input => ?_
  cases input with
  | nil => exact .malformed _
  | cons first rest => exact .bind (.set _) fun _ => .pure _

theorem onlyMalformed_fixed (n : Nat) (field : Field) : OnlyMalformed (fixed n field) := by
  refine .bind .get fun input => ?_
  cases Bytes.ofList? n (input.take n) with
  | none => exact .malformed _
  | some bytes => exact .bind (.set _) fun _ => .pure _

theorem onlyMalformed_uleb128Digits (field : Field) (left place value : Nat) :
    OnlyMalformed (uleb128Digits field left place value) := by
  induction left generalizing place value with
  | zero => exact .malformed _
  | succ left ih =>
      refine .bind (onlyMalformed_byte field) fun digit => ?_
      by_cases hlast : digit < 128
      · simp only [if_pos hlast]
        split
        · exact .malformed _
        · split
          · exact .pure _
          · exact .malformed _
      · simp only [if_neg hlast]
        exact ih _ _

theorem onlyMalformed_readUleb128 (field : Field) : OnlyMalformed (readUleb128 field) :=
  onlyMalformed_uleb128Digits field 5 0 0

theorem onlyMalformed_count (elementSize : Nat) (field : Field) :
    OnlyMalformed (count elementSize field) := by
  refine .bind (onlyMalformed_readUleb128 field) fun number => .bind .get fun rest => ?_
  split
  · exact .malformed _
  · exact .pure _

theorem onlyMalformed_sized (field : Field) : OnlyMalformed (sized field) :=
  .bind (onlyMalformed_count 1 field) fun _ => .bind .get fun _ => .bind (.set _) fun _ => .pure _

theorem onlyMalformed_remainder : OnlyMalformed remainder :=
  .bind .get fun _ => .bind (.set _) fun _ => .pure _

theorem onlyMalformed_elements {element : Reader α} (helement : OnlyMalformed element)
    (number : Nat) : OnlyMalformed (elements element number) := by
  induction number with
  | zero => exact .pure _
  | succ number ih => exact .bind helement fun _ => .bind ih fun _ => .pure _

theorem onlyMalformed_finish : OnlyMalformed finish := by
  refine .bind .get fun rest => ?_
  cases rest with
  | nil => exact .pure _
  | cons first others => exact .malformed _

end Wire
end Quorum
