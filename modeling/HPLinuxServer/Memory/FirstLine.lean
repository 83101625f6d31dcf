import HPLinuxServer.Memory.Buffer

/-!
# The first line of a text

A line ends with a carriage return and a line feed. A text without such an end is a line
of its own.
-/

set_option autoImplicit false

namespace HPLinuxServer.Memory

/-- `"\r\n"` -/
def lineEnd : Text := [13, 10]

def firstLine : Text → Text
  | [] => []
  | byte :: rest => if lineEnd <+: byte :: rest then [] else byte :: firstLine rest

/-- The line end stands at this position of the text. -/
def EndsAt (text : Text) (position : Nat) : Prop :=
  text[position]? = some 13 ∧ text[position + 1]? = some 10

instance (text : Text) (position : Nat) : Decidable (EndsAt text position) :=
  inferInstanceAs (Decidable (_ ∧ _))

variable {text : Text} {position : Nat}

theorem endsAt_zero_iff : EndsAt text 0 ↔ lineEnd <+: text := by
  unfold EndsAt lineEnd
  cases text with
  | nil => simp
  | cons first rest =>
      cases rest with
      | nil => simp
      | cons second rest =>
          simp only [List.cons_prefix_cons, List.nil_prefix, List.getElem?_cons_zero,
            List.getElem?_cons_succ, Option.some_inj, Nat.zero_add]
          exact and_congr eq_comm (eq_comm.trans (and_true _).symm.to_iff)

theorem EndsAt.inside (ends : EndsAt text position) : position + 1 < text.length :=
  (List.getElem?_eq_some_iff.mp ends.2).1

theorem endsAt_append {rest : Text} (inside : position + 1 < text.length) :
    EndsAt (text ++ rest) position ↔ EndsAt text position := by
  unfold EndsAt
  rw [List.getElem?_append_left (by omega), List.getElem?_append_left inside]

theorem exists_endsAt_iff : (∃ position, EndsAt text position) ↔ lineEnd <:+: text := by
  induction text with
  | nil =>
      refine ⟨fun ⟨_, ends⟩ => (Nat.not_lt_zero _ ends.inside).elim, fun whole => ?_⟩
      exact nomatch List.eq_nil_of_infix_nil whole
  | cons byte rest ih =>
      rw [List.infix_cons_iff, ← ih, ← endsAt_zero_iff]
      constructor
      · rintro ⟨position, ends⟩
        cases position with
        | zero => exact .inl ends
        | succ position => exact .inr ⟨position, ends⟩
      · rintro (ends | ⟨position, ends⟩)
        · exact ⟨0, ends⟩
        · exact ⟨position + 1, ends⟩

theorem firstLine_spec (text : Text) :
    (∃ position, EndsAt text position ∧ (∀ earlier < position, ¬ EndsAt text earlier) ∧
      firstLine text = text.take position) ∨
    (∀ position, ¬ EndsAt text position) ∧ firstLine text = text := by
  induction text with
  | nil => exact .inr ⟨fun _ ends => Nat.not_lt_zero _ ends.inside, rfl⟩
  | cons byte rest ih =>
      unfold firstLine
      split
      · next here =>
          exact .inl ⟨0, endsAt_zero_iff.mpr here, fun _ before => absurd before (Nat.not_lt_zero _),
            rfl⟩
      · next elsewhere =>
          have first : ¬ EndsAt (byte :: rest) 0 := mt endsAt_zero_iff.mp elsewhere
          rcases ih with ⟨position, ends, before, line⟩ | ⟨never, line⟩
          · refine .inl ⟨position + 1, ends, ?_, by rw [line, List.take_succ_cons]⟩
            intro earlier below
            cases earlier with
            | zero => exact first
            | succ earlier => exact before earlier (Nat.lt_of_succ_lt_succ below)
          · refine .inr ⟨?_, by rw [line]⟩
            intro position
            cases position with
            | zero => exact first
            | succ position => exact never position

end HPLinuxServer.Memory
