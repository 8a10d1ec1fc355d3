import Mathlib.Tactic.Ring
import Quorum.Proofs.Outcome
import Quorum.Wire.Reader

/-!
# What readers accept

For every reader there is one statement, an equivalence: it gives a value and
leaves the rest of the input exactly if the input is the encoding of that value,
followed by the rest.  Read from right to left it says that decoding undoes
encoding, and from left to right that nothing else is accepted.

Where a reader looks ahead or reads to the end, the equivalence has a condition on
the rest.
-/

namespace Quorum

theorem Bytes.ofList?_eq_some_iff {n : Nat} {bytes : List UInt8} {result : Bytes n} :
    ofList? n bytes = some result ↔ bytes = result.toList := by
  constructor
  · intro h
    unfold ofList? at h
    split at h
    · cases h
      rfl
    · cases h
  · rintro rfl
    exact ofList?_toList result

namespace Wire

variable {α β : Type}

theorem run_pure_eq_ok_iff {a b : α} {input rest : List UInt8} :
    (pure a : Reader α).run input = .ok (b, rest) ↔ b = a ∧ rest = input := by
  simp [eq_comm]

theorem run_bind_eq_ok_iff {reader : Reader α} {next : α → Reader β} {b : β}
    {input rest : List UInt8} :
    (reader >>= next).run input = .ok (b, rest) ↔
      ∃ a middle, reader.run input = .ok (a, middle) ∧ (next a).run middle = .ok (b, rest) := by
  rw [StateT.run_bind, Outcome.bind_eq_ok_iff]
  exact Prod.exists

theorem run_bind_of_ok {reader : Reader α} {next : α → Reader β} {a : α}
    {input middle : List UInt8} (h : reader.run input = .ok (a, middle)) :
    (reader >>= next).run input = (next a).run middle := by
  rw [StateT.run_bind, h]
  rfl

theorem run_bind_of_error {reader : Reader α} {next : α → Reader β} {error : SealingError}
    {input : List UInt8} (h : reader.run input = .error error) :
    (reader >>= next).run input = .error error := by
  rw [StateT.run_bind, h]
  rfl

theorem run_throw_ne_ok {error : SealingError} {b : β} {input rest : List UInt8} :
    (throw error : Reader β).run input ≠ .ok (b, rest) := by
  intro h
  cases h

theorem run_malformed_ne_ok {malformation : Malformation} {b : β} {input rest : List UInt8} :
    (malformed malformation : Reader β).run input ≠ .ok (b, rest) :=
  run_throw_ne_ok

/-- A check within a reader is passed if what it refuses is not the case. -/
theorem run_check_eq_ok_iff {c : Prop} [Decidable c] {error : SealingError}
    {next : β → Reader α} {reader : Reader α} {a : α} {input rest : List UInt8} :
    (if c then throw error >>= next else reader).run input = .ok (a, rest) ↔
      ¬ c ∧ reader.run input = .ok (a, rest) := by
  by_cases hc : c
  · rw [if_pos hc]
    refine iff_of_false (fun h => ?_) (fun h => h.1 hc)
    obtain ⟨b, middle, hthrow, -⟩ := run_bind_eq_ok_iff.1 h
    exact run_throw_ne_ok hthrow
  · rw [if_neg hc, and_iff_right hc]

theorem run_get_bind {next : List UInt8 → Reader β} {input : List UInt8} :
    (get >>= next).run input = (next input).run input := by
  simp

theorem run_set_bind {state : List UInt8} {next : PUnit → Reader β} {input : List UInt8} :
    (set state >>= next).run input = (next ⟨⟩).run state := by
  simp

/-! ## Bytes -/

theorem run_byte_eq_ok_iff {field : Field} {first : UInt8} {input rest : List UInt8} :
    (byte field).run input = .ok (first, rest) ↔ input = first :: rest := by
  unfold byte
  rw [run_get_bind]
  cases input with
  | nil => exact iff_of_false run_malformed_ne_ok (by simp)
  | cons head tail =>
      change (set tail >>= fun _ => pure head : Reader UInt8).run (head :: tail) = _ ↔ _
      rw [run_set_bind, run_pure_eq_ok_iff, List.cons.injEq, eq_comm, @eq_comm _ rest]

theorem run_fixed_eq_ok_iff {n : Nat} {field : Field} {bytes : Bytes n}
    {input rest : List UInt8} :
    (fixed n field).run input = .ok (bytes, rest) ↔ input = bytes.toList ++ rest := by
  unfold fixed
  rw [run_get_bind]
  cases hbytes : Bytes.ofList? n (input.take n) with
  | none =>
      refine iff_of_false run_malformed_ne_ok ?_
      rintro rfl
      simp at hbytes
  | some taken =>
      change (set (input.drop n) >>= fun _ => pure taken : Reader (Bytes n)).run input = _ ↔ _
      rw [run_set_bind, run_pure_eq_ok_iff]
      have htaken := Bytes.ofList?_eq_some_iff.1 hbytes
      constructor
      · rintro ⟨rfl, rfl⟩
        rw [← htaken, List.take_append_drop]
      · rintro rfl
        have hlength : bytes.toList.length = n := by simp
        rw [List.take_left' hlength, Vector.toList_inj] at htaken
        exact ⟨htaken, (List.drop_left' hlength).symm⟩

theorem run_remainder_eq_ok_iff {bytes input rest : List UInt8} :
    remainder.run input = .ok (bytes, rest) ↔ bytes = input ∧ rest = [] := by
  unfold remainder
  rw [run_get_bind, run_set_bind, run_pure_eq_ok_iff]

theorem run_finish_eq_ok_iff {result : Unit} {input rest : List UInt8} :
    finish.run input = .ok (result, rest) ↔ input = [] ∧ rest = [] := by
  unfold finish
  rw [run_get_bind]
  cases input with
  | nil => exact run_pure_eq_ok_iff.trans (by simp)
  | cons head tail => exact iff_of_false run_malformed_ne_ok (by simp)

end Wire
end Quorum
