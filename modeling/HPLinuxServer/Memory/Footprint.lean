import HPLinuxServer.Memory.Buffer

/-!
# The footprint of a computation on a buffer

Two runs are compared, from buffers that agree on a region. A computation that keeps to
the region does the same in both, whatever stands outside of it, and changes nothing there.
-/

set_option autoImplicit false

namespace HPLinuxServer.Memory.Buffer

variable {size : Nat} {region : Nat → Prop}

def AgreesOn (region : Nat → Prop) (buffer other : Buffer size) : Prop :=
  ∀ index, region index → other.bytes[index]? = buffer.bytes[index]?

/-- From `before` and `other` two runs have got to `after` and `other'`, and neither has
touched anything outside of the region. -/
structure Confined (region : Nat → Prop) (before other after other' : Buffer size) : Prop where
  agrees : AgreesOn region after other'
  kept : ∀ index, ¬ region index → after.bytes[index]? = before.bytes[index]?
  keptOther : ∀ index, ¬ region index → other'.bytes[index]? = other.bytes[index]?

namespace Confined

variable {before other middle middle' after other' : Buffer size}

theorem refl (agrees : AgreesOn region before other) :
    Confined region before other before other :=
  ⟨agrees, fun _ _ => rfl, fun _ _ => rfl⟩

theorem trans (first : Confined region before other middle middle')
    (second : Confined region middle middle' after other') :
    Confined region before other after other' where
  agrees := second.agrees
  kept := fun index outside => (second.kept index outside).trans (first.kept index outside)
  keptOther := fun index outside =>
    (second.keptOther index outside).trans (first.keptOther index outside)

theorem store (agrees : AgreesOn region before other) {index : Nat} (inside : region index)
    (byte : UInt8) :
    Confined region before other (before.store index byte) (other.store index byte) := by
  constructor
  · intro i isInside
    unfold Buffer.store
    simp only [List.getElem?_set, before.length_bytes, other.length_bytes]
    split
    · rfl
    · exact agrees i isInside
  · intro i outside
    exact store_bytes_other (fun same : index = i => outside (same ▸ inside)) byte
  · intro i outside
    exact store_bytes_other (fun same : index = i => outside (same ▸ inside)) byte

end Confined

theorem AgreesOn.holds {buffer other : Buffer size} (agrees : AgreesOn region buffer other)
    {offset : Nat} {text : Text} (holds : buffer.Holds offset text)
    (covers : ∀ index, offset ≤ index → index ≤ offset + text.length → region index) :
    other.Holds offset text := by
  obtain ⟨clean, rest, bytes⟩ := holds
  have front : ∀ index, index ≤ text.length →
      (other.bytes.drop offset)[index]? = (text ++ 0 :: rest)[index]? := by
    intro index inside
    rw [← bytes, List.getElem?_drop, List.getElem?_drop]
    exact agrees _ (covers _ (Nat.le_add_right _ _) (Nat.add_le_add_left inside _))
  refine ⟨clean, (other.bytes.drop offset).drop (text.length + 1), ?_⟩
  have taken : (other.bytes.drop offset).take (text.length + 1) = text ++ [0] := by
    apply List.ext_getElem?
    intro index
    rw [List.getElem?_take]
    split
    · next below =>
        rw [front index (Nat.le_of_lt_succ below), List.append_cons,
          List.getElem?_append_left (by simpa using below)]
    · next above =>
        exact (List.getElem?_eq_none (by simpa using above)).symm
  calc other.bytes.drop offset
      = (other.bytes.drop offset).take (text.length + 1) ++
          (other.bytes.drop offset).drop (text.length + 1) := (List.take_append_drop _ _).symm
    _ = text ++ 0 :: (other.bytes.drop offset).drop (text.length + 1) := by
        rw [taken, List.append_assoc, List.singleton_append]

/-- The buffer with NUL everywhere outside of the region. -/
def cleared (region : Nat → Prop) [DecidablePred region] (buffer : Buffer size) : Buffer size where
  bytes := buffer.bytes.mapIdx fun index byte => if region index then byte else 0
  length_bytes := by rw [List.length_mapIdx, buffer.length_bytes]

variable (region) in
theorem agreesOn_cleared [DecidablePred region] (buffer : Buffer size) :
    AgreesOn region buffer (buffer.cleared region) := by
  intro index inside
  unfold cleared
  rw [List.getElem?_mapIdx]
  simp only [if_pos inside]
  exact Option.map_id'

/-- A byte that a run leaves in a buffer cleared outside of the region is in the region. -/
theorem Confined.inside_of_cleared [DecidablePred region] {before after other' : Buffer size}
    (confined : Confined region before (before.cleared region) after other') {index : Nat}
    {byte : UInt8} (found : other'.bytes[index]? = some byte) (notNul : byte ≠ 0) :
    region index := by
  rcases Decidable.em (region index) with inside | outside
  · exact inside
  · have kept := confined.keptOther index outside
    unfold cleared at kept
    rw [found, List.getElem?_mapIdx] at kept
    cases was : before.bytes[index]? with
    | none =>
        rw [was] at kept
        cases kept
    | some old =>
        rw [was, Option.map_some, if_neg outside] at kept
        exact absurd (Option.some.inj kept) notNul

end HPLinuxServer.Memory.Buffer
