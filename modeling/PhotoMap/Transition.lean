/-
This file runs a partial step function over a list of events. A step that
returns `none` is one the system cannot take, so a run is a list of events all
of whose steps are defined. The rules carry a fact along a run: an invariant of
one step is an invariant of the run, and a fact about the events seen so far
and the state they lead to follows from the empty run and one more event. A fact
about every state of one run is followed from its first event to its last.
-/

import Mathlib.Data.Option.Basic
import Mathlib.Data.List.Induction

namespace Transition

variable {State Event : Type*} {step : State → Event → Option State}

/-- The state after all the events, when every step is defined. -/
def run (step : State → Event → Option State) : State → List Event → Option State
  | state, [] => some state
  | state, event :: rest => (step state event).bind fun next => run step next rest

@[simp]
theorem run_nil (state : State) : run step state [] = some state := rfl

theorem run_cons_eq_some {state target : State} {event : Event} {rest : List Event} :
    run step state (event :: rest) = some target ↔
      ∃ next, step state event = some next ∧ run step next rest = some target := by
  rw [run, Option.bind_eq_some_iff]

theorem run_append (state : State) (first second : List Event) :
    run step state (first ++ second) =
      (run step state first).bind fun middle => run step middle second := by
  induction first generalizing state with
  | nil => rfl
  | cons event rest inductionHypothesis =>
    simp only [List.cons_append, run, Option.bind_assoc, inductionHypothesis]

theorem run_append_eq_some {state target : State} {first second : List Event} :
    run step state (first ++ second) = some target ↔
      ∃ middle, run step state first = some middle ∧ run step middle second = some target := by
  rw [run_append, Option.bind_eq_some_iff]

/-- Taking one more step at the end of a run. -/
theorem run_concat_eq_some {state target : State} {events : List Event} {event : Event} :
    run step state (events ++ [event]) = some target ↔
      ∃ middle, run step state events = some middle ∧ step middle event = some target := by
  simp only [run_append_eq_some, run_cons_eq_some, run_nil, Option.some_inj, exists_eq_right]

/-- A fact about the events of a run and the state they lead to holds of every run when it
holds of the empty one and survives one more event. -/
theorem run_induction {start : State} (motive : List Event → State → Prop)
    (empty : motive [] start)
    (concat : ∀ events event middle target, run step start events = some middle →
      motive events middle → step middle event = some target →
        motive (events ++ [event]) target)
    {events : List Event} {target : State} (reached : run step start events = some target) :
    motive events target := by
  induction events using List.reverseRecOn generalizing target with
  | nil =>
    rw [run_nil, Option.some_inj] at reached
    exact reached ▸ empty
  | append_singleton events event inductionHypothesis =>
    obtain ⟨middle, before, last⟩ := run_concat_eq_some.mp reached
    exact concat events event middle target before (inductionHypothesis before) last

/-- What every step preserves, every run preserves. -/
theorem run_invariant {start : State} (invariant : State → Prop) (holds : invariant start)
    (preserved : ∀ state event next, invariant state → step state event = some next →
      invariant next)
    {events : List Event} {target : State} (reached : run step start events = some target) :
    invariant target :=
  run_induction (fun _ state => invariant state) holds
    (fun _ event middle target _ before last => preserved middle event target before last) reached

/-! ### Runs of allowed events -/

/-- Every event of a run is allowed in the state it meets. -/
def Along (step : State → Event → Option State) (allowed : State → Event → Prop) :
    State → List Event → Prop
  | _, [] => True
  | state, event :: rest =>
    allowed state event ∧ ∀ next, step state event = some next → Along step allowed next rest

theorem along_cons_of_eq {state next : State} {event : Event} {rest : List Event}
    {allowed : State → Event → Prop} (here : allowed state event)
    (stepped : step state event = some next) (later : Along step allowed next rest) :
    Along step allowed state (event :: rest) := by
  refine ⟨here, fun reached arrived => ?_⟩
  obtain rfl : next = reached := Option.some.inj (stepped.symm.trans arrived)
  exact later

/-- What every allowed step preserves, every run of allowed events preserves. -/
theorem run_invariant_along {start : State} {allowed : State → Event → Prop}
    (invariant : State → Prop) (holds : invariant start)
    (preserved : ∀ state event next, invariant state → allowed state event →
      step state event = some next → invariant next)
    {events : List Event} (along : Along step allowed start events) {target : State}
    (reached : run step start events = some target) : invariant target := by
  induction events generalizing start with
  | nil =>
    rw [run_nil, Option.some_inj] at reached
    exact reached ▸ holds
  | cons event rest inductionHypothesis =>
    obtain ⟨next, stepped, reached⟩ := run_cons_eq_some.mp reached
    exact inductionHypothesis (preserved start event next holds along.1 stepped)
      (along.2 next stepped) reached

/-! ### Facts about every state of one run -/

/-- A fact holds of every state a run goes through, the first and the last one included. -/
def Always (step : State → Event → Option State) (holds : State → Prop) (start : State)
    (events : List Event) : Prop :=
  ∀ before, before <+: events → ∀ reached, run step start before = some reached → holds reached

theorem always_nil {holds : State → Prop} {start : State} :
    Always step holds start [] ↔ holds start := by
  constructor
  · intro always
    exact always [] List.nil_prefix start rfl
  · intro here before isPrefix reached arrived
    rw [List.prefix_nil.mp isPrefix, run_nil, Option.some_inj] at arrived
    exact arrived ▸ here

/-- A fact that holds of every state holds of the first one, and of every state from the second
one on. -/
theorem always_cons {holds : State → Prop} {start next : State} {event : Event}
    {rest : List Event} (stepped : step start event = some next) :
    Always step holds start (event :: rest) ↔ holds start ∧ Always step holds next rest := by
  constructor
  · intro always
    refine ⟨always [] List.nil_prefix start rfl, fun before isPrefix reached arrived => ?_⟩
    exact always (event :: before) ((List.prefix_cons_inj event).mpr isPrefix) reached
      (run_cons_eq_some.mpr ⟨next, stepped, arrived⟩)
  · intro both before isPrefix reached arrived
    rcases List.prefix_cons_iff.mp isPrefix with rfl | ⟨later, rfl, laterPrefix⟩
    · rw [run_nil, Option.some_inj] at arrived
      exact arrived ▸ both.1
    · obtain ⟨second, first, arrived⟩ := run_cons_eq_some.mp arrived
      rw [stepped, Option.some_inj] at first
      subst first
      exact both.2 later laterPrefix reached arrived

end Transition
