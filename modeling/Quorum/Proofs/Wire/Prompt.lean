import Quorum.Proofs.Wire.Sequence

/-!
# Input that ends early or goes on

A reader is prompt on an input if it either finds that the input ends early, or does the same
whatever follows.  The readers of bytes, numbers, lengths and elements are prompt on every
input, also where a length is checked against the rest: with more input a length that has
been accepted still is, and with less input it is refused because the input ends early.

A reader that reads to the end cannot be prompt.  If it takes some parts promptly and then asks
that nothing is left, it is exact: with a part of an input that it accepts it finds that the
input ends early, and with more it counts the bytes that are left.
-/

namespace Quorum
namespace Wire

variable {α β : Type}

/-- The input ends before the part does that is being read. -/
def EndsEarly (reader : Reader α) (input : List UInt8) : Prop :=
  ∃ field, reader.run input = .error (.malformedObject (.truncated field))

/-- Unless the input ends early, what follows it is left as it is and changes nothing. -/
def Prompt (reader : Reader α) (input : List UInt8) : Prop :=
  EndsEarly reader input ∨ ∀ more, reader.run (input ++ more) =
    (reader.run input).map fun (a, rest) => (a, rest ++ more)

theorem EndsEarly.bind {reader : Reader α} {input : List UInt8} (h : EndsEarly reader input)
    (next : α → Reader β) : EndsEarly (reader >>= next) input :=
  h.imp fun _ herror => run_bind_of_error herror

namespace Prompt

theorem pure (a : α) (input : List UInt8) : Prompt (pure a : Reader α) input :=
  .inr fun _ => rfl

theorem throw (error : SealingError) (input : List UInt8) :
    Prompt (throw error : Reader α) input :=
  .inr fun _ => rfl

variable {reader : Reader α} {input : List UInt8}

theorem run_append (h : Prompt reader input) {a : α} {rest : List UInt8}
    (hrun : reader.run input = .ok (a, rest)) (more : List UInt8) :
    reader.run (input ++ more) = .ok (a, rest ++ more) := by
  rcases h with ⟨field, hfield⟩ | h
  · rw [hfield] at hrun
    cases hrun
  · rw [h, hrun]
    rfl

/-- On a part of an input that is accepted, the reader finds that it ends early or takes the
same. -/
theorem endsEarly_or (h : Prompt reader input) {a : α} {more rest : List UInt8}
    (hrun : reader.run (input ++ more) = .ok (a, rest)) :
    EndsEarly reader input ∨ ∃ left, rest = left ++ more ∧ reader.run input = .ok (a, left) := by
  refine h.imp_right fun h => ?_
  rw [h] at hrun
  cases hinput : reader.run input with
  | error error =>
      rw [hinput] at hrun
      cases hrun
  | ok taken =>
      rw [hinput] at hrun
      cases hrun
      exact ⟨taken.2, rfl, rfl⟩

theorem bind {next : α → Reader β} (h : Prompt reader input)
    (hnext : ∀ a middle, reader.run input = .ok (a, middle) → Prompt (next a) middle) :
    Prompt (reader >>= next) input := by
  rcases h with hearly | h
  · exact .inl (hearly.bind next)
  cases hinput : reader.run input with
  | error error =>
      -- What is refused for another reason stays refused, and the second part is not reached.
      right
      intro more
      have hmore : reader.run (input ++ more) = .error error := by
        rw [h, hinput]
        rfl
      rw [run_bind_of_error hmore, run_bind_of_error hinput]
      rfl
  | ok taken =>
      obtain ⟨a, middle⟩ := taken
      -- With more input the second part meets what the first leaves, and the same behind it.
      rcases hnext a middle hinput with ⟨field, hfield⟩ | hprompt
      · left
        exact ⟨field, by rw [run_bind_of_ok hinput, hfield]⟩
      · right
        intro more
        have hmore : reader.run (input ++ more) = .ok (a, middle ++ more) := by
          rw [h, hinput]
          rfl
        rw [run_bind_of_ok hmore, run_bind_of_ok hinput, hprompt]

end Prompt

/-! ## The readers that take from the front -/

theorem prompt_byte (field : Field) (input : List UInt8) : Prompt (byte field) input := by
  cases input with
  | nil => exact .inl ⟨field, rfl⟩
  | cons first rest => exact .inr fun _ => rfl

theorem prompt_fixed (n : Nat) (field : Field) (input : List UInt8) :
    Prompt (fixed n field) input := by
  cases hinput : (fixed n field).run input with
  | error error =>
      -- Nothing is refused but an input with too few bytes.
      left
      refine ⟨field, ?_⟩
      unfold fixed at hinput ⊢
      rw [run_get_bind] at hinput ⊢
      cases hbytes : Bytes.ofList? n (input.take n) with
      | none => rfl
      | some bytes =>
          rw [hbytes] at hinput
          cases hinput
  | ok taken =>
      right
      intro more
      have htaken := run_fixed_eq_ok_iff.1 hinput
      rw [hinput, htaken, List.append_assoc]
      exact run_fixed_eq_ok_iff.2 rfl

theorem prompt_uleb128Digits (field : Field) (left place value : Nat) (input : List UInt8) :
    Prompt (uleb128Digits field left place value) input := by
  induction left generalizing place value input with
  | zero => exact .throw _ _
  | succ left ih =>
      refine .bind (prompt_byte field input) fun digit middle _ => ?_
      by_cases hlast : digit < 128
      · simp only [if_pos hlast]
        split
        · exact .throw _ _
        · split
          · exact .pure _ _
          · exact .throw _ _
      · simp only [if_neg hlast]
        exact ih _ _ _

theorem prompt_readUleb128 (field : Field) (input : List UInt8) :
    Prompt (readUleb128 field) input :=
  prompt_uleb128Digits field 5 0 0 input

theorem prompt_count (elementSize : Nat) (field : Field) (input : List UInt8) :
    Prompt (count elementSize field) input := by
  refine .bind (prompt_readUleb128 field input) fun number middle _ => ?_
  by_cases hroom : number.toNat * elementSize > middle.length
  · -- More input may give the room that is missing, but this one ends early.
    left
    refine ⟨field, ?_⟩
    rw [run_get_bind, if_pos hroom]
    rfl
  · right
    intro more
    have hmore : ¬ number.toNat * elementSize > (middle ++ more).length := by
      rw [List.length_append]
      omega
    rw [run_get_bind, run_get_bind, if_neg hroom, if_neg hmore]
    rfl

theorem prompt_sized (field : Field) (input : List UInt8) : Prompt (sized field) input := by
  refine .bind (prompt_count 1 field input) fun number middle hnumber => ?_
  -- There is room for as many bytes as the length says, so none of those that follow is taken.
  have hroom : number ≤ middle.length := by
    have hcount := (run_count_eq_ok_iff.1 hnumber).2.1
    rwa [Nat.mul_one] at hcount
  right
  intro more
  simp only [run_get_bind, run_set_bind, List.take_append_of_le_length hroom,
    List.drop_append_of_le_length hroom]
  rfl

theorem prompt_elements {element : Reader α} (helement : ∀ input, Prompt element input)
    (number : Nat) (input : List UInt8) : Prompt (elements element number) input := by
  induction number generalizing input with
  | zero => exact .pure _ _
  | succ number ih =>
      exact .bind (helement input) fun _ middle _ =>
        .bind (ih middle) fun _ _ _ => .pure _ _

/-! ## Readers that read to the end -/

/-- Of an input that is read to the end with a result as described, every part ends early, and
what follows it is counted as left over. -/
structure Exact (reader : Reader α) (described : α → Prop) : Prop where
  endsEarly : ∀ input more a, more ≠ [] → described a →
    reader.run (input ++ more) = .ok (a, []) → EndsEarly reader input
  trailing : ∀ input more a, more ≠ [] → described a → reader.run input = .ok (a, []) →
    reader.run (input ++ more) = .error (.malformedObject (.trailing more.length))

namespace Exact

variable {reader : Reader α} {described : α → Prop}

theorem of_not (h : ∀ input a rest, reader.run input = .ok (a, rest) → ¬ described a) :
    Exact reader described where
  endsEarly _ _ _ _ hdescribed hrun := absurd hdescribed (h _ _ _ hrun)
  trailing _ _ _ _ hdescribed hrun := absurd hdescribed (h _ _ _ hrun)

theorem check {c : Prop} [Decidable c] (h : ¬ c → Exact reader described) (error : SealingError)
    (next : β → Reader α) : Exact (if c then throw error >>= next else reader) described := by
  by_cases hc : c
  · refine of_not fun input a rest hrun => ?_
    exact absurd hc (run_check_eq_ok_iff.1 hrun).1
  · rw [if_neg hc]
    exact h hc

theorem bind {part : Reader β} {next : β → Reader α} (hpart : ∀ input, Prompt part input)
    (hnext : ∀ b, Exact (next b) described) : Exact (part >>= next) described where
  endsEarly input more a hmore hdescribed hrun := by
    obtain ⟨b, middle, hfirst, hrest⟩ := run_bind_eq_ok_iff.1 hrun
    -- The cut is in the first part or in what comes after it.
    rcases (hpart input).endsEarly_or hfirst with hearly | ⟨left, rfl, hleft⟩
    · exact hearly.bind next
    · obtain ⟨field, hfield⟩ := (hnext b).endsEarly left more a hmore hdescribed hrest
      exact ⟨field, by rw [run_bind_of_ok hleft, hfield]⟩
  trailing input more a hmore hdescribed hrun := by
    obtain ⟨b, middle, hfirst, hrest⟩ := run_bind_eq_ok_iff.1 hrun
    rw [run_bind_of_ok ((hpart input).run_append hfirst more)]
    exact (hnext b).trailing middle more a hmore hdescribed hrest

theorem finish (next : Unit → Reader α) : Exact (finish >>= next) described where
  endsEarly input more a hmore _ hrun := by
    obtain ⟨_, _, hfinish, -⟩ := run_bind_eq_ok_iff.1 hrun
    exact absurd (List.append_eq_nil_iff.1 (run_finish_eq_ok_iff.1 hfinish).1).2 hmore
  trailing input more a hmore _ hrun := by
    obtain ⟨_, _, hfinish, -⟩ := run_bind_eq_ok_iff.1 hrun
    obtain ⟨rfl, -⟩ := run_finish_eq_ok_iff.1 hfinish
    rw [List.nil_append]
    refine run_bind_of_error ?_
    cases more with
    | nil => exact absurd rfl hmore
    | cons first rest => rfl

end Exact

end Wire
end Quorum
