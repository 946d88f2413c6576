import Mathlib.Order.RelClasses

/-! Runs of a state machine that answers every input with an output.
A property that every step keeps holds after every run, and a rank that every possible step lowers
keeps any schedule from going on for ever.
-/

namespace Transducer

universe u v w x y z
variable {σ : Type u} {ι : Type v} {ω : Type w}

/-- The state after a run. -/
def final (step : σ → ι → σ × ω) (start : σ) (inputs : List ι) : σ :=
  inputs.foldl (fun state input => (step state input).1) start

/-- The outputs of a run, one for each input. -/
def outputs (step : σ → ι → σ × ω) : σ → List ι → List ω
  | _, [] => []
  | state, input :: rest => (step state input).2 :: outputs step (step state input).1 rest

/-- What the steps of a run emit, in order. -/
def emitted {Item : Type x} (step : σ → ι → σ × ω) (emit : σ → ι → List Item)
    : σ → List ι → List Item
  | _, [] => []
  | state, input :: rest => emit state input ++ emitted step emit (step state input).1 rest

variable {step : σ → ι → σ × ω}

@[simp] theorem final_nil (start : σ) : final step start [] = start := rfl

@[simp] theorem final_cons (start : σ) (input : ι) (rest : List ι)
    : final step start (input :: rest) = final step (step start input).1 rest := rfl

@[simp] theorem final_append (start : σ) (first second : List ι)
    : final step start (first ++ second) = final step (final step start first) second :=
  List.foldl_append

@[simp] theorem outputs_nil (start : σ) : outputs step start [] = [] := rfl

@[simp] theorem outputs_cons (start : σ) (input : ι) (rest : List ι)
    : outputs step start (input :: rest)
      = (step start input).2 :: outputs step (step start input).1 rest := rfl

@[simp] theorem emitted_append {Item : Type x} (emit : σ → ι → List Item) (start : σ)
    (first second : List ι)
    : emitted step emit start (first ++ second)
      = emitted step emit start first ++ emitted step emit (final step start first) second := by
  induction first generalizing start with
  | nil => rfl
  | cons input rest ih => simp [emitted, ih]

/-- The last step of a run emits behind all before it. -/
theorem emitted_concat {Item : Type x} (emit : σ → ι → List Item) (start : σ) (past : List ι)
    (input : ι)
    : emitted step emit start (past ++ [input])
      = emitted step emit start past ++ emit (final step start past) input := by
  rw [emitted_append, emitted, emitted, List.append_nil]

/-- Where every step emits at most one item, a run emits each item in a step of its own, behind the
steps that emit the items before it.
-/
theorem emitted_split {Item : Type x} {emit : σ → ι → List Item}
    (single : ∀ state input, (emit state input).length ≤ 1) {start : σ} {inputs : List ι}
    {before after : List Item} {item : Item}
    (equal : emitted step emit start inputs = before ++ item :: after)
    : ∃ past input later,
        inputs = past ++ input :: later
        ∧ emitted step emit start past = before
        ∧ emit (final step start past) input = [item] := by
  induction inputs generalizing start before with
  | nil => simp [emitted] at equal
  | cons input rest ih =>
      have most := single start input
      cases shape : emit start input with
      | nil =>
          rw [emitted, shape, List.nil_append] at equal
          obtain ⟨past, next, later, rfl, first, own⟩ := ih equal
          exact ⟨input :: past, next, later, rfl, by rw [emitted, shape, first]; rfl, own⟩
      | cons one more =>
          rw [shape, List.length_cons] at most
          obtain rfl : more = [] := List.length_eq_zero_iff.mp (by omega)
          rw [emitted, shape, List.singleton_append] at equal
          cases before with
          | nil =>
              obtain ⟨rfl, _⟩ := List.cons.inj equal
              exact ⟨[], input, rest, rfl, rfl, shape⟩
          | cons head tail =>
              obtain ⟨rfl, behind⟩ := List.cons.inj equal
              obtain ⟨past, next, later, rfl, first, own⟩ := ih behind
              exact ⟨input :: past, next, later, rfl, by rw [emitted, shape, first]; rfl, own⟩

/-- A potential pays for what a run emits: where every step emits at most what it is granted and
what it takes from the potential, so does every run.
-/
theorem emitted_length_le {Item : Type x} {Grant : Type y} {emit : σ → ι → List Item}
    {grant : σ → ι → List Grant} (potential : σ → Nat)
    (pays : ∀ state input,
      (emit state input).length + potential (step state input).1
        ≤ (grant state input).length + potential state)
    (start : σ) (inputs : List ι)
    : (emitted step emit start inputs).length + potential (final step start inputs)
      ≤ (emitted step grant start inputs).length + potential start := by
  induction inputs generalizing start with
  | nil => exact Nat.le_refl _
  | cons input rest ih =>
      have first := pays start input
      have others := ih (step start input).1
      rw [emitted, emitted, List.length_append, List.length_append, final_cons]
      omega

/-- An invariant about the inputs so far, kept by every step, holds after every run. -/
theorem final_history {holds : List ι → σ → Prop}
    (kept : ∀ past state input,
      holds past state → holds (past ++ [input]) (step state input).1)
    {start : σ} (initially : holds [] start) (inputs : List ι)
    : holds inputs (final step start inputs) := by
  have general (past rest : List ι) (state : σ) (now : holds past state)
      : holds (past ++ rest) (final step state rest) := by
    induction rest generalizing past state with
    | nil => simpa using now
    | cons input rest ih => simpa using ih _ _ (kept past state input now)
  simpa using general [] inputs start initially

/-- An invariant of every step holds after every run. -/
theorem final_invariant {holds : σ → Prop}
    (kept : ∀ state input, holds state → holds (step state input).1) {start : σ}
    (initially : holds start) (inputs : List ι)
    : holds (final step start inputs) := by
  induction inputs generalizing start with
  | nil => exact initially
  | cons input rest ih => exact ih (kept start input initially)

/-- A refinement mapping: where the image of a state takes the steps that each step performs, the
image of a run is the run of all steps performed.
-/
theorem final_simulates {τ : Type x} {κ : Type y} {χ : Type z} {abstract : τ → κ → τ × χ}
    {image : σ → τ} {performs : σ → ι → List κ}
    (simulates : ∀ state input,
      image (step state input).1 = final abstract (image state) (performs state input))
    (start : σ) (inputs : List ι)
    : image (final step start inputs)
      = final abstract (image start) (emitted step performs start inputs) := by
  induction inputs generalizing start with
  | nil => rfl
  | cons input rest ih => rw [final_cons, ih, simulates, emitted, final_append]

/-- Every schedule of allowed inputs comes to a step that is not possible, where the possible ones
lower the rank.
-/
theorem exists_impossible {Rank : Type x} [LT Rank] [WellFoundedLT Rank]
    {step : σ → ι → σ × Bool} (allowed : ι → Prop) (rank : σ → Rank)
    (lowers : ∀ state input, allowed input → (step state input).2 = true
      → rank (step state input).1 < rank state)
    (start : σ) (schedule : Nat → ι) (scheduled : ∀ count, allowed (schedule count))
    : ∃ count,
        (step (final step start ((List.range count).map schedule)) (schedule count)).2 = false := by
  induction below : rank start using WellFoundedLT.induction generalizing start schedule with
  | ind least ih =>
      subst below
      cases possible : (step start (schedule 0)).2 with
      | false => exact ⟨0, possible⟩
      | true =>
          obtain ⟨count, ends⟩ :=
            ih _ (lowers start (schedule 0) (scheduled 0) possible) (step start (schedule 0)).1
              (fun later => schedule (later + 1)) (fun later => scheduled (later + 1)) rfl
          refine ⟨count + 1, ?_⟩
          rw [List.range_succ_eq_map, List.map_cons, List.map_map, final_cons]
          exact ends

/-- Every input of a run meets a condition on the state it is taken in. -/
def Each (step : σ → ι → σ × ω) (condition : σ → ι → Prop) : σ → List ι → Prop
  | _, [] => True
  | state, input :: rest =>
      condition state input ∧ Each step condition (step state input).1 rest

variable {condition : σ → ι → Prop} {start : σ}

@[simp] theorem each_nil : Each step condition start [] := trivial

@[simp] theorem each_cons {input : ι} {rest : List ι}
    : Each step condition start (input :: rest)
      ↔ condition start input ∧ Each step condition (step start input).1 rest :=
  .rfl

@[simp] theorem each_append {first second : List ι}
    : Each step condition start (first ++ second)
      ↔ Each step condition start first
        ∧ Each step condition (final step start first) second := by
  induction first generalizing start with
  | nil => simp
  | cons input rest ih => simp [ih, and_assoc]

/-- A condition on the inputs alone holds throughout a run when every input meets it. -/
theorem each_of_forall {allowed : ι → Prop} {inputs : List ι}
    (all : ∀ input ∈ inputs, allowed input)
    : Each step (fun _ input => allowed input) start inputs := by
  induction inputs generalizing start with
  | nil => trivial
  | cons input rest ih =>
      exact ⟨all input (by simp), ih (fun later member => all later (.tail _ member))⟩

/-- Conditions that agree on every state and input agree on every run. -/
theorem each_congr {other : σ → ι → Prop}
    (same : ∀ state input, condition state input ↔ other state input) {inputs : List ι}
    : Each step condition start inputs ↔ Each step other start inputs := by
  induction inputs generalizing start with
  | nil => exact .rfl
  | cons input rest ih => exact and_congr (same start input) ih

/-- An invariant of every step whose input meets the condition holds after a run of such
inputs.
-/
theorem Each.invariant {holds : σ → Prop}
    (kept : ∀ state input, condition state input → holds state → holds (step state input).1)
    (initially : holds start) {inputs : List ι} (each : Each step condition start inputs)
    : holds (final step start inputs) := by
  induction inputs generalizing start with
  | nil => exact initially
  | cons input rest ih => exact ih (kept start input each.1 initially) each.2

/-- Where a step keeps a property exactly under a condition, every state of a run has the
property exactly when each of its steps meets the condition. Both may rely on facts that are
known of all states of the run.
-/
theorem each_iff_on_prefixes {known holds : σ → Prop}
    (step_iff : ∀ state input,
      known state → holds state → (holds (step state input).1 ↔ condition state input))
    (initially : holds start) {inputs : List ι}
    (throughout : ∀ past, past <+: inputs → known (final step start past))
    : Each step condition start inputs
      ↔ ∀ past, past <+: inputs → holds (final step start past) := by
  induction inputs generalizing start with
  | nil =>
      refine ⟨fun _ past within => ?_, fun _ => trivial⟩
      rw [List.prefix_nil.mp within]
      exact initially
  | cons input rest ih =>
      have now := throughout [] List.nil_prefix
      have later (past : List ι) (within : past <+: rest)
          : known (final step (step start input).1 past) :=
        throughout (input :: past) (List.cons_prefix_cons.mpr ⟨rfl, within⟩)
      constructor
      · intro each past within
        cases past with
        | nil => exact initially
        | cons first past =>
            obtain ⟨rfl, shorter⟩ := List.cons_prefix_cons.mp within
            have kept := (step_iff start first now initially).mpr each.1
            exact (ih kept later).mp each.2 past shorter
      · intro always
        have kept := always [input] ⟨rest, rfl⟩
        refine ⟨(step_iff start input now initially).mp kept, (ih kept later).mpr ?_⟩
        intro past within
        exact always (input :: past) (List.cons_prefix_cons.mpr ⟨rfl, within⟩)

end Transducer
