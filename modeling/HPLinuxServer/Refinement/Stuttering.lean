import HPLinuxServer.Refinement.Runs

/-!
# Steps of different size

A machine with small steps next to one with larger ones: a small step stands for one
of the larger steps, or for none. And machines that cannot take steps for ever, since
each step uses up some of a quantity.
-/

set_option autoImplicit false

namespace HPLinuxServer.Refinement

variable {σ τ ι κ ε : Type} {exec : σ → ι → Except ε σ} {meets : σ → ι → Prop}

theorem runOps_append {state middle final : σ} {first second : List ι}
    (before : runOps exec state first = .ok middle)
    (after : runOps exec middle second = .ok final) :
    runOps exec state (first ++ second) = .ok final := by
  induction first generalizing state with
  | nil =>
      cases before
      exact after
  | cons op first ih =>
      unfold runOps at before
      rw [List.cons_append]
      unfold runOps
      cases executed : exec state op with
      | error error =>
          rw [executed] at before
          cases before
      | ok next =>
          rw [executed] at before
          exact ih before

theorem stepsMeet_append {state middle : σ} {first second : List ι}
    (before : StepsMeet meets exec state first)
    (reaches : runOps exec state first = .ok middle)
    (after : StepsMeet meets exec middle second) :
    StepsMeet meets exec state (first ++ second) := by
  induction first generalizing state with
  | nil =>
      cases reaches
      exact after
  | cons op first ih =>
      obtain ⟨met, rest⟩ := before
      refine ⟨met, ?_⟩
      unfold runOps at reaches
      cases executed : exec state op with
      | error error => trivial
      | ok next =>
          rw [executed] at reaches
          simp only [executed] at rest
          exact ih rest reaches

theorem stepsMeet_of_mem {holds : ι → Prop} (state : σ) {ops : List ι}
    (all : ∀ op ∈ ops, holds op) : StepsMeet (fun _ op => holds op) exec state ops := by
  induction ops generalizing state with
  | nil => trivial
  | cons op ops ih =>
      refine ⟨all op List.mem_cons_self, ?_⟩
      cases executed : exec state op with
      | error error => trivial
      | ok next => exact ih next fun other member => all other (List.mem_cons_of_mem _ member)

/-! ## Commit points -/

/-- The larger steps that the steps of a run stand for. -/
def commits (exec : σ → ι → Except ε σ) (commit : σ → ι → Option κ) : σ → List ι → List κ
  | _, [] => []
  | state, op :: ops =>
      (commit state op).toList ++
        match exec state op with
        | .ok next => commits exec commit next ops
        | .error _ => []

/-- If every small step is matched by the larger one that it stands for, or by nothing,
then every run of small steps is matched by a run of larger ones. -/
theorem runOps_commits {commit : σ → ι → Option κ} {larger : τ → κ → Except ε τ}
    {enabled : τ → κ → Prop} {related : σ → τ → Prop}
    (simulates : ∀ state abstract op, related state abstract → meets state op →
      ∃ next abstract', exec state op = .ok next ∧
        StepsMeet enabled larger abstract (commit state op).toList ∧
        runOps larger abstract (commit state op).toList = .ok abstract' ∧ related next abstract')
    {state : σ} {abstract : τ} {ops : List ι} (start : related state abstract)
    (run : StepsMeet meets exec state ops) :
    ∃ final abstract', runOps exec state ops = .ok final ∧
      StepsMeet enabled larger abstract (commits exec commit state ops) ∧
      runOps larger abstract (commits exec commit state ops) = .ok abstract' ∧
      related final abstract' := by
  induction ops generalizing state abstract with
  | nil => exact ⟨state, abstract, rfl, trivial, rfl, start⟩
  | cons op ops ih =>
      obtain ⟨met, rest⟩ := run
      obtain ⟨next, between, executed, allowed, reached, maintained⟩ :=
        simulates state abstract op start met
      simp only [executed] at rest
      obtain ⟨final, abstract', finished, allowedLater, reachedLater, finallyRelated⟩ :=
        ih maintained rest
      have stands : commits exec commit state (op :: ops) =
          (commit state op).toList ++ commits exec commit next ops := by
        simp only [commits, executed]
      rw [stands]
      refine ⟨final, abstract', ?_, stepsMeet_append allowed reached allowedLater,
        runOps_append reached reachedLater, finallyRelated⟩
      simpa only [runOps, executed, bind, Except.bind] using finished

/-! ## Runs that end -/

/-- Where every step of a kind uses up some of a quantity, there are no more of them than
there is of the quantity. -/
theorem StepsMeet.length_le {invariant : σ → Prop} {left : σ → Nat}
    (uses : ∀ state op, invariant state → meets state op →
      ∃ next, exec state op = .ok next ∧ invariant next ∧ left next < left state)
    {state : σ} {ops : List ι} (start : invariant state) (run : StepsMeet meets exec state ops) :
    ops.length ≤ left state := by
  induction ops generalizing state with
  | nil => exact Nat.zero_le _
  | cons op ops ih =>
      obtain ⟨met, rest⟩ := run
      obtain ⟨next, executed, kept, less⟩ := uses state op start met
      simp only [executed] at rest
      have later := ih kept rest
      rw [List.length_cons]
      omega

theorem AllowedRun.length_le {allowed : τ → ι → Prop} {step : τ → ι → τ} {invariant : τ → Prop}
    {left : τ → Nat}
    (uses : ∀ state op, invariant state → allowed state op →
      invariant (step state op) ∧ left (step state op) < left state)
    {state : τ} {ops : List ι} (start : invariant state)
    (run : AllowedRun allowed step state ops) : ops.length ≤ left state := by
  induction ops generalizing state with
  | nil => exact Nat.zero_le _
  | cons op ops ih =>
      obtain ⟨isAllowed, rest⟩ := run
      obtain ⟨kept, less⟩ := uses state op start isAllowed
      have later := ih kept rest
      rw [List.length_cons]
      omega

end HPLinuxServer.Refinement
