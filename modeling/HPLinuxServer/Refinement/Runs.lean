import Mathlib.Algebra.GroupWithZero.Nat
import HPLinuxServer.Refinement.Yields

/-!
# Runs of operations and their abstract counterparts

A concrete machine whose operations can fail is run next to an abstract one
whose operations cannot. Which operation may come next is a condition on the
abstract state alone, so it can be read off the sequence of operations.
-/

set_option autoImplicit false

namespace HPLinuxServer.Refinement

variable {σ τ ι ε : Type}

/-- Execute the operations in order, up to the first failure. -/
def runOps (exec : σ → ι → Except ε σ) : σ → List ι → Except ε σ
  | state, [] => .ok state
  | state, op :: ops => do runOps exec (← exec state op) ops

/-- Every operation is allowed in the abstract state in which its turn comes. -/
def AllowedRun (allowed : τ → ι → Prop) (step : τ → ι → τ) : τ → List ι → Prop
  | _, [] => True
  | state, op :: ops => allowed state op ∧ AllowedRun allowed step (step state op) ops

instance AllowedRun.decidable (allowed : τ → ι → Prop) (step : τ → ι → τ)
    [∀ state op, Decidable (allowed state op)] :
    ∀ state ops, Decidable (AllowedRun allowed step state ops)
  | _, [] => inferInstanceAs (Decidable True)
  | state, op :: ops =>
      have := AllowedRun.decidable allowed step (step state op) ops
      inferInstanceAs (Decidable (allowed state op ∧ AllowedRun allowed step (step state op) ops))

variable {allowed : τ → ι → Prop} {step : τ → ι → τ} {exec : σ → ι → Except ε σ}

theorem allowedRun_append_iff {state : τ} {first second : List ι} :
    AllowedRun allowed step state (first ++ second) ↔
      AllowedRun allowed step state first ∧
        AllowedRun allowed step (first.foldl step state) second := by
  induction first generalizing state with
  | nil => simp [AllowedRun]
  | cons op first ih => simp [AllowedRun, ih, and_assoc]

theorem allowedRun_true (state : τ) (ops : List ι) :
    AllowedRun (fun _ _ => True) step state ops := by
  induction ops generalizing state with
  | nil => trivial
  | cons op ops ih => exact ⟨trivial, ih _⟩

theorem AllowedRun.and_mem {holds : ι → Prop} {state : τ} {ops : List ι}
    (run : AllowedRun allowed step state ops) (all : ∀ op ∈ ops, holds op) :
    AllowedRun (fun state op => allowed state op ∧ holds op) step state ops := by
  induction ops generalizing state with
  | nil => trivial
  | cons op ops ih =>
      obtain ⟨first, rest⟩ := run
      exact ⟨⟨first, all op List.mem_cons_self⟩,
        ih rest fun other member => all other (List.mem_cons_of_mem _ member)⟩

/-- A quantity that grows by at most the weight of each operation stays within a
bound that leaves room for all of them. -/
theorem AllowedRun.and_bound {size : τ → Nat} {weight : ι → Nat} {bound : Nat}
    (grows : ∀ state op, size (step state op) ≤ size state + weight op) {state : τ}
    {ops : List ι} (run : AllowedRun allowed step state ops)
    (room : size state + (ops.map weight).sum ≤ bound) :
    AllowedRun (fun state op => allowed state op ∧ size state + weight op ≤ bound) step state
      ops := by
  induction ops generalizing state with
  | nil => trivial
  | cons op ops ih =>
      have grown := grows state op
      simp only [List.map_cons, List.sum_cons] at room
      exact ⟨⟨run.1, by omega⟩, ih run.2 (by omega)⟩

/-- Whatever the size of the state is along a run, some bound is never exceeded. -/
theorem AllowedRun.exists_bound (size : τ → Nat) {state : τ} {ops : List ι}
    (run : AllowedRun allowed step state ops) :
    ∃ bound, ∀ larger, bound ≤ larger →
      AllowedRun (fun state op => allowed state op ∧ size state ≤ larger) step state ops := by
  induction ops generalizing state with
  | nil => exact ⟨0, fun _ _ => trivial⟩
  | cons op ops ih =>
      obtain ⟨bound, within⟩ := ih run.2
      refine ⟨max (size state) bound, fun larger enough => ⟨⟨run.1, ?_⟩, within larger ?_⟩⟩
      · exact Nat.le_trans (Nat.le_max_left _ _) enough
      · exact Nat.le_trans (Nat.le_max_right _ _) enough

theorem sum_map_one (ops : List ι) : (ops.map fun _ => 1).sum = ops.length := by
  rw [List.map_const', List.sum_replicate_nat, Nat.mul_one]

theorem size_foldl_le (size : τ → Nat) (grows : ∀ state op, size (step state op) ≤ size state + 1)
    (state : τ) (ops : List ι) : size (ops.foldl step state) ≤ size state + ops.length := by
  induction ops generalizing state with
  | nil => exact Nat.le_refl _
  | cons op ops ih =>
      have grown := grows state op
      have later := ih (step state op)
      rw [List.foldl_cons, List.length_cons]
      omega

/-- If every allowed operation succeeds and keeps the two machines related, every
allowed run does. -/
theorem runOps_refines {related : σ → τ → Prop}
    (simulates : ∀ state abstract op, related state abstract → allowed abstract op →
      ∃ next, exec state op = .ok next ∧ related next (step abstract op))
    {state : σ} {abstract : τ} {ops : List ι} (start : related state abstract)
    (run : AllowedRun allowed step abstract ops) :
    ∃ final, runOps exec state ops = .ok final ∧ related final (ops.foldl step abstract) := by
  induction ops generalizing state abstract with
  | nil => exact ⟨state, rfl, start⟩
  | cons op ops ih =>
      obtain ⟨next, executed, maintained⟩ := simulates state abstract op start run.1
      obtain ⟨final, finished, finallyRelated⟩ := ih maintained run.2
      refine ⟨final, ?_, finallyRelated⟩
      simpa only [runOps, executed, bind, Except.bind] using finished

/-! ## Machines that cannot fail -/

/-- Every state of the run is good, the first and the last one included. -/
def Throughout (good : τ → Prop) (step : τ → ι → τ) : τ → List ι → Prop
  | state, [] => good state
  | state, op :: ops => good state ∧ Throughout good step (step state op) ops

theorem Throughout.stays {good : τ → Prop} {state : τ} (isGood : good state)
    (stuck : ∀ op, step state op = state) (ops : List ι) : Throughout good step state ops := by
  induction ops with
  | nil => exact isGood
  | cons op ops ih => exact ⟨isGood, by rw [stuck op]; exact ih⟩

theorem throughout_iff {good : τ → Prop} {state : τ} {ops : List ι} :
    Throughout good step state ops ↔ ∀ done, done <+: ops → good (done.foldl step state) := by
  induction ops generalizing state with
  | nil => simp [Throughout]
  | cons op ops ih =>
      constructor
      · rintro ⟨now, later⟩ done isPrefix
        rcases List.prefix_cons_iff.mp isPrefix with rfl | ⟨rest, rfl, restPrefix⟩
        · exact now
        · exact ih.mp later rest restPrefix
      · intro all
        refine ⟨all [] (List.nil_prefix), ih.mpr fun done isPrefix => ?_⟩
        exact all (op :: done) (List.prefix_cons_iff.mpr (.inr ⟨done, rfl, isPrefix⟩))

instance Throughout.decidable (good : τ → Prop) (step : τ → ι → τ)
    [∀ state, Decidable (good state)] : ∀ state ops, Decidable (Throughout good step state ops)
  | state, [] => inferInstanceAs (Decidable (good state))
  | state, op :: ops =>
      have := Throughout.decidable good step (step state op) ops
      inferInstanceAs (Decidable (good state ∧ Throughout good step (step state op) ops))

theorem Throughout.mono {good other : τ → Prop} (weaker : ∀ state, good state → other state)
    {state : τ} {ops : List ι} (run : Throughout good step state ops) :
    Throughout other step state ops :=
  throughout_iff.mpr fun done isPrefix => weaker _ (throughout_iff.mp run done isPrefix)

theorem AllowedRun.mono {other : τ → ι → Prop}
    (weaker : ∀ state op, allowed state op → other state op) {state : τ} {ops : List ι}
    (run : AllowedRun allowed step state ops) : AllowedRun other step state ops := by
  induction ops generalizing state with
  | nil => trivial
  | cons op ops ih => exact ⟨weaker state op run.1, ih run.2⟩

/-- An invariant that the allowed operations keep holds whenever one of them has its turn. -/
theorem AllowedRun.and_invariant {invariant : τ → Prop}
    (keeps : ∀ state op, invariant state → allowed state op → invariant (step state op))
    {state : τ} {ops : List ι} (start : invariant state)
    (run : AllowedRun allowed step state ops) :
    AllowedRun (fun state op => invariant state ∧ allowed state op) step state ops := by
  induction ops generalizing state with
  | nil => trivial
  | cons op ops ih => exact ⟨⟨start, run.1⟩, ih (keeps state op start run.1) run.2⟩

theorem AllowedRun.throughout {invariant : τ → Prop}
    (keeps : ∀ state op, invariant state → allowed state op → invariant (step state op))
    {state : τ} {ops : List ι} (start : invariant state)
    (run : AllowedRun allowed step state ops) : Throughout invariant step state ops := by
  induction ops generalizing state with
  | nil => exact start
  | cons op ops ih => exact ⟨start, ih (keeps state op start run.1) run.2⟩

/-- What an operation brings about and the allowed operations keep holds at the end of every
run that contains the operation. -/
theorem AllowedRun.since {good : τ → Prop} {cause : ι}
    (causes : ∀ state, allowed state cause → good (step state cause))
    (keeps : ∀ state op, good state → allowed state op → good (step state op))
    {state : τ} {ops : List ι} (run : AllowedRun allowed step state ops) (member : cause ∈ ops) :
    good (ops.foldl step state) := by
  obtain ⟨before, after, rfl⟩ := List.append_of_mem member
  obtain ⟨isAllowed, rest⟩ := (allowedRun_append_iff.mp run).2
  rw [List.foldl_append, List.foldl_cons]
  exact Refinement.throughout_iff.mp (rest.throughout keeps (causes _ isAllowed)) after
    List.prefix_rfl

/-- Where an operation leads from a good state to a good one exactly if it meets a
condition, the states of a run are all good exactly if its operations all meet it. -/
theorem AllowedRun.throughout_iff {invariant good : τ → Prop} {meets : τ → ι → Prop}
    (keeps : ∀ state op, invariant state → allowed state op → invariant (step state op))
    (exactly : ∀ state op, invariant state → good state → allowed state op →
      (good (step state op) ↔ meets state op))
    {state : τ} {ops : List ι} (start : invariant state)
    (run : AllowedRun allowed step state ops) :
    Throughout good step state ops ↔ good state ∧ AllowedRun meets step state ops := by
  induction ops generalizing state with
  | nil => simp [Throughout, AllowedRun]
  | cons op ops ih =>
      obtain ⟨first, rest⟩ := run
      have later := ih (keeps state op start first) rest
      unfold Throughout AllowedRun
      rw [later]
      constructor
      · rintro ⟨isGood, next, rest⟩
        exact ⟨isGood, (exactly state op start isGood first).mp next, rest⟩
      · rintro ⟨isGood, met, rest⟩
        exact ⟨isGood, (exactly state op start isGood first).mpr met, rest⟩

/-! ## Conditions on the concrete state

Where the condition cannot be read off the operations, it is one on the state in
which an operation is executed.
-/

/-- Every operation that is reached meets the condition in the state before it. -/
def StepsMeet (meets : σ → ι → Prop) (exec : σ → ι → Except ε σ) : σ → List ι → Prop
  | _, [] => True
  | state, op :: ops =>
      meets state op ∧
        match exec state op with
        | .ok next => StepsMeet meets exec next ops
        | .error _ => True

instance StepsMeet.decidable (meets : σ → ι → Prop) (exec : σ → ι → Except ε σ)
    [∀ state op, Decidable (meets state op)] :
    ∀ state ops, Decidable (StepsMeet meets exec state ops)
  | _, [] => inferInstanceAs (Decidable True)
  | state, op :: ops =>
      have (result : Except ε σ) : Decidable (match result with
          | .ok next => StepsMeet meets exec next ops
          | .error _ => True) :=
        match result with
        | .ok next => StepsMeet.decidable meets exec next ops
        | .error _ => inferInstanceAs (Decidable True)
      inferInstanceAs (Decidable (meets state op ∧ _))

variable {meets : σ → ι → Prop}

/-- If every operation that meets the condition succeeds and keeps the invariant,
which is about the operations so far, so does a run of such operations. -/
theorem runOps_keeps_from (invariant : List ι → σ → Prop)
    (keeps : ∀ done state op, invariant done state → meets state op →
      ∃ next, exec state op = .ok next ∧ invariant (done ++ [op]) next)
    (done : List ι) {state : σ} {ops : List ι} (start : invariant done state)
    (run : StepsMeet meets exec state ops) :
    ∃ final, runOps exec state ops = .ok final ∧ invariant (done ++ ops) final := by
  induction ops generalizing state done with
  | nil => exact ⟨state, rfl, by simpa using start⟩
  | cons op ops ih =>
      obtain ⟨first, rest⟩ := run
      obtain ⟨next, executed, maintained⟩ := keeps done state op start first
      simp only [executed] at rest
      obtain ⟨final, finished, finallyKept⟩ := ih (done ++ [op]) maintained rest
      refine ⟨final, ?_, by simpa using finallyKept⟩
      simpa only [runOps, executed, bind, Except.bind] using finished

theorem runOps_keeps (invariant : List ι → σ → Prop)
    (keeps : ∀ done state op, invariant done state → meets state op →
      ∃ next, exec state op = .ok next ∧ invariant (done ++ [op]) next)
    {state : σ} {ops : List ι} (start : invariant [] state)
    (run : StepsMeet meets exec state ops) :
    ∃ final, runOps exec state ops = .ok final ∧ invariant ops final :=
  runOps_keeps_from invariant keeps [] start run

theorem runOps_preserves (invariant : σ → Prop)
    (keeps : ∀ state op, invariant state → meets state op →
      ∃ next, exec state op = .ok next ∧ invariant next)
    {state : σ} {ops : List ι} (start : invariant state) (run : StepsMeet meets exec state ops) :
    ∃ final, runOps exec state ops = .ok final ∧ invariant final :=
  runOps_keeps (fun _ => invariant) (fun _ => keeps) start run

/-! ## Machines with choices

A step of the abstract machine may lead to several states.
-/

inductive RunsTo (step : τ → ι → τ → Prop) : τ → List ι → τ → Prop where
  | nil (state : τ) : RunsTo step state [] state
  | cons {state next final : τ} {op : ι} {ops : List ι} (first : step state op next)
      (rest : RunsTo step next ops final) : RunsTo step state (op :: ops) final

/-- If every operation that meets its condition succeeds, and the abstract machine has a choice
that keeps the two related, a run has such choices. The size of the abstract state, which grows
by one at most, stays within a bound that leaves room for all operations. -/
theorem runOps_follows {choose : τ → ι → τ → Prop} {related : σ → τ → Prop} {size : τ → Nat}
    {bound : Nat} (grows : ∀ state op next, choose state op next → size next ≤ size state + 1)
    (simulates : ∀ state abstract op, related state abstract → meets state op →
      size abstract ≤ bound → ∃ next abstract', exec state op = .ok next ∧
        choose abstract op abstract' ∧ related next abstract')
    {state : σ} {abstract : τ} {ops : List ι} (start : related state abstract)
    (room : size abstract + ops.length ≤ bound) (run : StepsMeet meets exec state ops) :
    ∃ final abstract', runOps exec state ops = .ok final ∧ RunsTo choose abstract ops abstract' ∧
      related final abstract' ∧ size abstract' ≤ bound := by
  induction ops generalizing state abstract with
  | nil => exact ⟨state, abstract, rfl, .nil _, start, by simpa using room⟩
  | cons op ops ih =>
      obtain ⟨met, rest⟩ := run
      rw [List.length_cons] at room
      obtain ⟨next, abstract', executed, chosen, maintained⟩ :=
        simulates state abstract op start met (by omega)
      simp only [executed] at rest
      have grown := grows _ _ _ chosen
      obtain ⟨final, abstractFinal, finished, choices, finallyRelated, within⟩ :=
        ih maintained (by omega) rest
      refine ⟨final, abstractFinal, ?_, .cons chosen choices, finallyRelated, within⟩
      simpa only [runOps, executed, bind, Except.bind] using finished

/-! ## Runs that may fail

What holds in every state that a run reaches, whether or not it fails later.
-/

def ReachesOnly (good : σ → Prop) (exec : σ → ι → Except ε σ) : σ → List ι → Prop
  | state, [] => good state
  | state, op :: ops =>
      good state ∧
        match exec state op with
        | .ok next => ReachesOnly good exec next ops
        | .error _ => True

instance ReachesOnly.decidable (good : σ → Prop) (exec : σ → ι → Except ε σ)
    [∀ state, Decidable (good state)] : ∀ state ops, Decidable (ReachesOnly good exec state ops)
  | state, [] => inferInstanceAs (Decidable (good state))
  | state, _ :: ops =>
      have (result : Except ε σ) : Decidable (match result with
          | .ok next => ReachesOnly good exec next ops
          | .error _ => True) :=
        match result with
        | .ok next => ReachesOnly.decidable good exec next ops
        | .error _ => inferInstanceAs (Decidable True)
      inferInstanceAs (Decidable (good state ∧ _))

variable {invariant good : σ → Prop} {permitted : σ → ι → Prop}

theorem ReachesOnly.start {state : σ} {ops : List ι} (run : ReachesOnly good exec state ops) :
    good state := by
  cases ops with
  | nil => exact run
  | cons op ops => exact run.1

theorem ReachesOnly.final {state last : σ} {ops : List ι}
    (run : ReachesOnly good exec state ops) (ends : runOps exec state ops = .ok last) :
    good last := by
  induction ops generalizing state with
  | nil => exact Except.ok.inj ends ▸ run
  | cons op ops ih =>
      obtain ⟨-, rest⟩ := run
      unfold runOps at ends
      cases executed : exec state op with
      | error error =>
          rw [executed] at ends
          exact nomatch ends
      | ok next =>
          rw [executed] at ends
          simp only [executed] at rest
          exact ih rest ends

theorem StepsMeet.reachesOnly
    (keeps : ∀ state op, invariant state → meets state op → Yields (exec state op) invariant)
    {state : σ} {ops : List ι} (start : invariant state) (run : StepsMeet meets exec state ops) :
    ReachesOnly invariant exec state ops := by
  induction ops generalizing state with
  | nil => exact start
  | cons op ops ih =>
      obtain ⟨first, rest⟩ := run
      refine ⟨start, ?_⟩
      cases executed : exec state op with
      | error error => trivial
      | ok next =>
          simp only [executed] at rest
          exact ih (keeps state op start first next executed) rest

/-- Where an operation leads from a good state to good ones exactly if it meets a
condition, a run reaches only good states exactly if its operations all meet it. -/
theorem StepsMeet.reachesOnly_iff
    (keeps : ∀ state op, invariant state → permitted state op → Yields (exec state op) invariant)
    (exactly : ∀ state op, invariant state → good state → permitted state op →
      (Yields (exec state op) good ↔ meets state op))
    {state : σ} {ops : List ι} (start : invariant state)
    (run : StepsMeet permitted exec state ops) :
    ReachesOnly good exec state ops ↔ good state ∧ StepsMeet meets exec state ops := by
  induction ops generalizing state with
  | nil => simp [ReachesOnly, StepsMeet]
  | cons op ops ih =>
      obtain ⟨first, rest⟩ := run
      unfold ReachesOnly StepsMeet
      cases executed : exec state op with
      | error error =>
          have met : good state → meets state op := fun isGood =>
            (exactly state op start isGood first).mp (executed ▸ Yields.error error)
          exact ⟨fun ⟨isGood, _⟩ => ⟨isGood, met isGood, trivial⟩, fun ⟨isGood, _⟩ => ⟨isGood, trivial⟩⟩
      | ok next =>
          simp only [executed] at rest ⊢
          have later := ih (keeps state op start first next executed) rest
          constructor
          · intro ⟨isGood, reached⟩
            have next_good : Yields (exec state op) good := executed ▸ Yields.ok reached.start
            exact ⟨isGood, (exactly state op start isGood first).mp next_good, (later.mp reached).2⟩
          · intro ⟨isGood, met, steps⟩
            have next_good := (exactly state op start isGood first).mpr met next executed
            exact ⟨isGood, later.mpr ⟨next_good, steps⟩⟩

theorem ReachesOnly.mono {other : σ → Prop} (weaker : ∀ state, good state → other state)
    {state : σ} {ops : List ι} (run : ReachesOnly good exec state ops) :
    ReachesOnly other exec state ops := by
  induction ops generalizing state with
  | nil => exact weaker state run
  | cons op ops ih =>
      obtain ⟨isGood, rest⟩ := run
      refine ⟨weaker state isGood, ?_⟩
      cases executed : exec state op with
      | error error => trivial
      | ok next =>
          simp only [executed] at rest
          exact ih rest

theorem StepsMeet.mono {other : σ → ι → Prop} (weaker : ∀ state op, meets state op → other state op)
    {state : σ} {ops : List ι} (run : StepsMeet meets exec state ops) :
    StepsMeet other exec state ops := by
  induction ops generalizing state with
  | nil => trivial
  | cons op ops ih =>
      obtain ⟨met, rest⟩ := run
      refine ⟨weaker state op met, ?_⟩
      cases executed : exec state op with
      | error error => trivial
      | ok next =>
          simp only [executed] at rest
          exact ih rest

theorem StepsMeet.and {state : σ} {ops : List ι} (first : StepsMeet permitted exec state ops)
    (second : StepsMeet meets exec state ops) :
    StepsMeet (fun state op => permitted state op ∧ meets state op) exec state ops := by
  induction ops generalizing state with
  | nil => trivial
  | cons op ops ih =>
      obtain ⟨isPermitted, permittedRest⟩ := first
      obtain ⟨met, rest⟩ := second
      refine ⟨⟨isPermitted, met⟩, ?_⟩
      cases executed : exec state op with
      | error error => trivial
      | ok next =>
          simp only [executed] at permittedRest rest
          exact ih permittedRest rest

/-- A law of single operations that comes to a condition where an invariant holds, which
the operations that meet the condition keep. -/
theorem StepsMeet.iff_of_invariant {law : σ → ι → Prop}
    (keeps : ∀ state op, invariant state → permitted state op → meets state op →
      Yields (exec state op) invariant)
    (exactly : ∀ state op, invariant state → permitted state op → (law state op ↔ meets state op))
    {state : σ} {ops : List ι} (start : invariant state)
    (run : StepsMeet permitted exec state ops) :
    StepsMeet law exec state ops ↔ StepsMeet meets exec state ops := by
  induction ops generalizing state with
  | nil => exact Iff.rfl
  | cons op ops ih =>
      obtain ⟨first, rest⟩ := run
      unfold StepsMeet
      rw [exactly state op start first]
      refine and_congr_right fun met => ?_
      cases executed : exec state op with
      | error error => exact Iff.rfl
      | ok next =>
          simp only [executed] at rest ⊢
          exact ih (keeps state op start first met next executed) rest

/-- A run that succeeds in good states only is one of steps that succeed in good states. -/
theorem succeeds_reachesOnly_iff {state : σ} {ops : List ι} :
    ((∃ final, runOps exec state ops = .ok final) ∧ ReachesOnly good exec state ops) ↔
      good state ∧
        StepsMeet (fun state op => ∃ next, exec state op = .ok next ∧ good next) exec state ops := by
  induction ops generalizing state with
  | nil => exact ⟨fun run => ⟨run.2, trivial⟩, fun run => ⟨⟨state, rfl⟩, run.1⟩⟩
  | cons op ops ih =>
      unfold runOps ReachesOnly StepsMeet
      cases executed : exec state op with
      | error error => simp [bind, Except.bind]
      | ok next =>
          simp only [bind, Except.bind, Except.ok.injEq, exists_eq_left']
          constructor
          · intro ⟨succeeds, isGood, reached⟩
            exact ⟨isGood, ih.mp ⟨succeeds, reached⟩⟩
          · intro ⟨isGood, steps⟩
            obtain ⟨succeeds, reached⟩ := ih.mpr steps
            exact ⟨succeeds, isGood, reached⟩

/-- Where the condition on the concrete state is one on the abstract state, and an operation
that meets it keeps the two related, a run meets it exactly if the abstract run does. -/
theorem stepsMeet_iff_allowedRun {related : σ → τ → Prop}
    (exactly : ∀ state abstract op, related state abstract →
      (meets state op ↔ allowed abstract op))
    (keeps : ∀ state abstract op, related state abstract → allowed abstract op →
      ∃ next, exec state op = .ok next ∧ related next (step abstract op))
    {state : σ} {abstract : τ} {ops : List ι} (start : related state abstract) :
    StepsMeet meets exec state ops ↔ AllowedRun allowed step abstract ops := by
  induction ops generalizing state abstract with
  | nil => exact Iff.rfl
  | cons op ops ih =>
      unfold StepsMeet AllowedRun
      rw [exactly state abstract op start]
      refine and_congr_right fun isAllowed => ?_
      obtain ⟨next, executed, maintained⟩ := keeps state abstract op start isAllowed
      simp only [executed]
      exact ih maintained

theorem stepsMeet_true (state : σ) (ops : List ι) :
    StepsMeet (fun _ _ => True) exec state ops := by
  induction ops generalizing state with
  | nil => trivial
  | cons op ops ih =>
      refine ⟨trivial, ?_⟩
      cases executed : exec state op with
      | error error => trivial
      | ok next => exact ih next

/-- The same where every operation is permitted in every state. -/
theorem reachesOnly_iff_meets
    (exactly : ∀ state op, good state → (Yields (exec state op) good ↔ meets state op)) {state : σ}
    {ops : List ι} :
    ReachesOnly good exec state ops ↔ good state ∧ StepsMeet meets exec state ops := by
  have always : ∀ state op, True → good state → True →
      (Yields (exec state op) good ↔ meets state op) :=
    fun state op _ isGood _ => exactly state op isGood
  exact (stepsMeet_true state ops).reachesOnly_iff (fun _ _ _ _ _ _ => trivial) always trivial

end HPLinuxServer.Refinement
