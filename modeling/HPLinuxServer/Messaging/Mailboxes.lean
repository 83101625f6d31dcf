import Mathlib.Data.List.Induction
import HPLinuxServer.Refinement.Runs

/-!
# Mailboxes

Members come and go, and what one of them posts goes to the boxes of all others. A member
that is ready is handed what is in its box. The record of such events is faithful if every
member was handed its whole box, no more and no less.
-/

set_option autoImplicit false

namespace HPLinuxServer.Messaging

open Refinement

variable {κ α : Type} [DecidableEq κ]

inductive Event (κ α : Type) where
  | joined (member : κ)
  | posted (sender : κ) (message : List α)
  | handed (member : κ) (message : List α)
  | left (member : κ)
  deriving DecidableEq, Repr

/-- What the members are still to be handed; nobody else has a box. -/
abbrev Boxes (κ α : Type) := κ → Option (List α)

namespace Boxes

def empty : Boxes κ α := fun _ => none

def step (boxes : Boxes κ α) : Event κ α → Boxes κ α
  | .joined member => fun other => if other = member then some [] else boxes other
  | .posted sender message => fun other =>
      if other = sender then boxes other else (boxes other).map (· ++ message)
  | .handed member _ => fun other =>
      if other = member then (boxes other).map fun _ => [] else boxes other
  | .left member => fun other => if other = member then none else boxes other

variable (boxes : Boxes κ α) (member other : κ) (message : List α)

@[simp] theorem step_joined :
    boxes.step (.joined member) other = if other = member then some [] else boxes other := rfl

@[simp] theorem step_posted :
    boxes.step (.posted member message) other =
      if other = member then boxes other else (boxes other).map (· ++ message) := rfl

@[simp] theorem step_handed :
    boxes.step (.handed member message) other =
      if other = member then (boxes other).map fun _ => [] else boxes other := rfl

@[simp] theorem step_left :
    boxes.step (.left member) other = if other = member then none else boxes other := rfl

/-- A member is handed its whole box. -/
def Allows (boxes : Boxes κ α) : Event κ α → Prop
  | .handed member message => boxes member = some message
  | _ => True

instance [DecidableEq α] (boxes : Boxes κ α) : ∀ event, Decidable (boxes.Allows event)
  | .joined _ => inferInstanceAs (Decidable True)
  | .posted _ _ => inferInstanceAs (Decidable True)
  | .handed member message => inferInstanceAs (Decidable (boxes member = some message))
  | .left _ => inferInstanceAs (Decidable True)

end Boxes

/-- What is in the boxes after these events. -/
def boxesOf (log : List (Event κ α)) : Boxes κ α := log.foldl Boxes.step Boxes.empty

def Faithful (log : List (Event κ α)) : Prop := AllowedRun Boxes.Allows Boxes.step Boxes.empty log

instance [DecidableEq α] (log : List (Event κ α)) : Decidable (Faithful log) :=
  inferInstanceAs (Decidable (AllowedRun Boxes.Allows Boxes.step Boxes.empty log))

variable {log : List (Event κ α)} {event : Event κ α} {boxes : Boxes κ α} {member : κ}

theorem boxesOf_concat : boxesOf (log ++ [event]) = (boxesOf log).step event :=
  List.foldl_append

theorem faithful_concat : Faithful (log ++ [event]) ↔ Faithful log ∧ (boxesOf log).Allows event := by
  unfold Faithful
  rw [allowedRun_append_iff]
  exact and_congr_right fun _ => and_iff_left trivial

/-! ## What the box of a member holds -/

namespace Event

/-- The box of this member has just been opened or emptied. -/
def Opens (member : κ) : Event κ α → Prop
  | .joined other => other = member
  | .handed other _ => other = member
  | _ => False

/-- An event that is not about this member's box. -/
def Apart (member : κ) : Event κ α → Prop
  | .posted _ _ => True
  | .joined other => other ≠ member
  | .handed other _ => other ≠ member
  | .left other => other ≠ member

/-- What goes to the box of this member. -/
def share (member : κ) : Event κ α → List α
  | .posted sender message => if sender = member then [] else message
  | .joined _ => []
  | .handed _ _ => []
  | .left _ => []

end Event

/-- What the others have posted. -/
def posts (member : κ) (log : List (Event κ α)) : List α := log.flatMap (Event.share member)

/-- The box was opened by some event, and holds what the others have posted since. -/
def Collects (member : κ) (log : List (Event κ α)) (content : List α) : Prop :=
  ∃ before opening middle, log = before ++ opening :: middle ∧ opening.Opens member ∧
    (∀ event ∈ middle, event.Apart member) ∧ content = posts member middle

omit [DecidableEq κ] in
theorem Event.Opens.not_apart (opens : event.Opens member) : ¬ event.Apart member := by
  cases event with
  | joined other => exact fun apart => apart opens
  | posted sender message => exact opens.elim
  | handed other message => exact fun apart => apart opens
  | left other => exact opens.elim

theorem Collects.unique {content content' : List α} (collects : Collects member log content)
    (collects' : Collects member log content') : content = content' := by
  obtain ⟨before, opening, middle, rfl, opens, apart, rfl⟩ := collects
  obtain ⟨before', opening', middle', same, opens', apart', rfl⟩ := collects'
  -- the later of the two openings would be among the events behind the other one
  rcases List.append_eq_append_iff.mp same with ⟨between, -, rest⟩ | ⟨between, -, rest⟩
  · cases between with
    | nil =>
        cases rest
        rfl
    | cons first between =>
        cases rest
        exact absurd (apart opening' (by simp)) opens'.not_apart
  · cases between with
    | nil =>
        cases rest
        rfl
    | cons first between =>
        cases rest
        exact absurd (apart' opening (by simp)) opens.not_apart

theorem collects_opening (opens : event.Opens member) : Collects member (log ++ [event]) [] :=
  ⟨log, event, [], rfl, opens, fun _ found => absurd found List.not_mem_nil, rfl⟩

theorem Collects.concat {content : List α} (collects : Collects member log content)
    (event : Event κ α) (apart : event.Apart member) :
    Collects member (log ++ [event]) (content ++ event.share member) := by
  obtain ⟨before, opening, middle, rfl, opens, others, rfl⟩ := collects
  refine ⟨before, opening, middle ++ [event], by simp, opens, ?_, by simp [posts]⟩
  intro other found
  rcases List.mem_append.mp found with inside | last
  · exact others other inside
  · exact List.mem_singleton.mp last ▸ apart

theorem Collects.skip {content : List α} (collects : Collects member log content)
    (event : Event κ α) (apart : event.Apart member) (nothing : event.share member = []) :
    Collects member (log ++ [event]) content := by
  have later := collects.concat event apart
  rwa [nothing, List.append_nil] at later

theorem box_collects {content : List α} (box : boxesOf log member = some content) :
    Collects member log content := by
  induction log using List.reverseRecOn generalizing content with
  | nil => cases box
  | append_singleton log event ih =>
      rw [boxesOf_concat] at box
      cases event with
      | joined other =>
          rw [Boxes.step_joined] at box
          split at box
          · next own =>
              cases box
              exact collects_opening own.symm
          · next apart =>
              exact (ih box).skip (.joined other) (Ne.symm apart) rfl
      | posted sender message =>
          rw [Boxes.step_posted] at box
          split at box
          · next own =>
              exact (ih box).skip (.posted sender message) trivial (if_pos own.symm)
          · next other =>
              obtain ⟨old, held, rfl⟩ := Option.map_eq_some_iff.mp box
              have later := (ih held).concat (.posted sender message) trivial
              rwa [Event.share, if_neg (Ne.symm other)] at later
      | handed other message =>
          rw [Boxes.step_handed] at box
          split at box
          · next own =>
              obtain ⟨old, -, rfl⟩ := Option.map_eq_some_iff.mp box
              exact collects_opening own.symm
          · next apart =>
              exact (ih box).skip (.handed other message) (Ne.symm apart) rfl
      | left other =>
          rw [Boxes.step_left] at box
          split at box
          · cases box
          · next apart =>
              exact (ih box).skip (.left other) (Ne.symm apart) rfl

/-- A member is handed exactly what the others have posted since it joined, or since the last
time that it was handed something. -/
theorem Faithful.handed {front rest : List (Event κ α)} {message : List α}
    (faithful : Faithful (front ++ .handed member message :: rest)) :
    Collects member front message := by
  obtain ⟨-, whole, -⟩ := allowedRun_append_iff.mp faithful
  exact box_collects whole

end HPLinuxServer.Messaging
