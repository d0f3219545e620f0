/-
This file counts the requests of the sign-in form that have not completed, and
compares them with the activity indicator. A tap starts the indicator and a
completion stops it, and neither looks at how many requests there are; the
button stays enabled while one is outstanding. So a second tap starts a second
request, and the completion of the first one stops the indicator under the
second. The form counts at most one request and tells the truth about it in
every state of a run exactly when no tap starts a request while one is
outstanding.
-/

import PhotoMap.Submissions

namespace PhotoMap

open Transition

namespace AuthentificationViewController

/-! ### What the form shows of its requests -/

/-- At most one request is outstanding, and the indicator is animating exactly when one is. -/
structure TellsTruth (form : AuthentificationViewController) : Prop where
  atMostOne : form.outstanding ≤ 1
  animating : form.activityIndicator.isAnimating = true ↔ form.outstanding = 1

/-- The forms of a run at its taps while a request is outstanding. -/
def pendingTaps (form : AuthentificationViewController) :
    List FormEvent → List AuthentificationViewController
  | [] => []
  | event :: rest =>
    (if event = .touchUpInside ∧ form.outstanding ≠ 0 then [form] else []) ++
      ((form.step event).map fun next => next.pendingTaps rest).getD []

/-! ### One event -/

/-- The end of an editing leaves the indicator as it is. -/
theorem editingDidEnd_indicator (form : AuthentificationViewController) (field : FormField) :
    (form.editingDidEnd field).activityIndicator = form.activityIndicator := by
  have setters : SettersKeep fun before after =>
      after.activityIndicator = before.activityIndicator :=
    { refl := fun _ => rfl
      trans := fun _ _ _ left right => right.trans left
      emailWarning := fun _ _ _ => rfl
      passwordWarning := fun _ _ => rfl
      textColor := fun _ field _ => by cases field <;> rfl
      button := fun _ _ => rfl }
  exact editingDidEnd_keeps setters form field

/-- What an event does to the requests in flight: a submitting tap starts one, a completion ends
one, and nothing else changes their number or the indicator. -/
theorem step_flight {form next : AuthentificationViewController} {event : FormEvent}
    (stepped : form.step event = some next) :
    (event = .touchUpInside ∧ form.Submits ∧ next.outstanding = form.outstanding + 1 ∧
        next.activityIndicator.isAnimating = true) ∨
      (event ≠ .touchUpInside ∧ form.outstanding ≠ 0 ∧
        next.outstanding = form.outstanding - 1 ∧
        next.activityIndicator.isAnimating = false) ∨
      ((event = .touchUpInside → ¬ form.Submits) ∧ next.outstanding = form.outstanding ∧
        next.activityIndicator.isAnimating = form.activityIndicator.isAnimating) := by
  cases event with
  | editingDidBegin field =>
    cases stepped
    cases field <;> exact Or.inr (Or.inr ⟨nofun, rfl, rfl⟩)
  | editingChanged field text =>
    cases stepped
    cases field <;> exact Or.inr (Or.inr ⟨nofun, rfl, rfl⟩)
  | editingDidEnd field =>
    cases stepped
    refine Or.inr (Or.inr ⟨nofun, (editingDidEnd_sameInput form field).outstanding, ?_⟩)
    rw [editingDidEnd_indicator form field]
  | valueChanged selected =>
    cases stepped
    refine Or.inr (Or.inr ⟨nofun, ?_⟩)
    unfold didSingMethodChange
    split <;> exact ⟨rfl, rfl⟩
  | touchUpInside =>
    obtain ⟨-, rfl⟩ := step_touchUpInside.mp stepped
    rcases form.didSignButtonClicked_cases with ⟨submits, kind, called, -⟩ | ⟨stopped, same⟩
    · rw [called]
      exact Or.inl ⟨rfl, submits, rfl, rfl⟩
    · rw [same]
      exact Or.inr (Or.inr ⟨fun _ => stopped, rfl, rfl⟩)
  | completion failed =>
    obtain ⟨pending, rfl⟩ := step_completion.mp stepped
    exact Or.inr (Or.inl ⟨nofun, pending, rfl, rfl⟩)

/-- A form that tells the truth goes on doing so exactly when the event is not a tap that starts
a request beside another one. -/
theorem step_tellsTruth {form next : AuthentificationViewController} {event : FormEvent}
    (truth : form.TellsTruth) (stepped : form.step event = some next) :
    next.TellsTruth ↔
      (event = .touchUpInside → form.outstanding ≠ 0 → ¬ form.Submits) := by
  rcases step_flight stepped with ⟨tap, submits, count, animating⟩ |
    ⟨other, pending, count, animating⟩ | ⟨stopped, count, animating⟩
  · constructor
    · intro after _ pending _
      have bound := after.atMostOne
      omega
    · intro alone
      have none : form.outstanding = 0 := by
        by_contra pending
        exact alone tap pending submits
      exact ⟨by omega, iff_of_true animating (by omega)⟩
  · have single := truth.atMostOne
    refine iff_of_true ⟨by omega, ?_⟩ fun tap => absurd tap other
    rw [animating]
    exact iff_of_false Bool.false_ne_true (by omega)
  · refine iff_of_true ⟨?_, ?_⟩ fun tap _ => stopped tap
    · rw [count]
      exact truth.atMostOne
    · rw [count, animating]
      exact truth.animating

/-! ### Whole runs -/

/-- From a form that tells the truth, every state of a run does exactly when no tap of it starts
a request while another one is outstanding. -/
theorem always_tellsTruth_iff {form final : AuthentificationViewController}
    {events : List FormEvent} (truth : form.TellsTruth)
    (reached : run step form events = some final) :
    Always step TellsTruth form events ↔
      ∀ tapped ∈ form.pendingTaps events, ¬ tapped.Submits := by
  induction events generalizing form with
  | nil =>
    rw [always_nil, pendingTaps]
    exact iff_of_true truth fun _ member => absurd member List.not_mem_nil
  | cons event rest inductionHypothesis =>
    obtain ⟨next, stepped, reached⟩ := run_cons_eq_some.mp reached
    have here : (∀ tapped ∈ if event = .touchUpInside ∧ form.outstanding ≠ 0 then [form] else [],
        ¬ tapped.Submits) ↔ next.TellsTruth := by
      rw [step_tellsTruth truth stepped]
      by_cases pending : event = .touchUpInside ∧ form.outstanding ≠ 0
      · rw [if_pos pending, List.forall_mem_singleton]
        exact ⟨fun stopped _ _ => stopped, fun stopped => stopped pending.1 pending.2⟩
      · rw [if_neg pending]
        exact iff_of_true (fun _ member => absurd member List.not_mem_nil)
          fun tap outstanding => absurd ⟨tap, outstanding⟩ pending
    rw [always_cons stepped, and_iff_right truth, pendingTaps, List.forall_mem_append, here,
      stepped, Option.map_some, Option.getD_some]
    by_cases still : next.TellsTruth
    · rw [inductionHypothesis still reached, and_iff_right still]
    · refine iff_of_false (fun always => still ?_) fun both => still both.1
      exact always [] List.nil_prefix next rfl

/-- In a run of the form at most one request is outstanding and the indicator is animating
exactly when one is, in every state of the run, exactly when each tap made while a request is
outstanding is stopped by a different confirmation. -/
theorem tellsTruth_iff {events : List FormEvent} {final : AuthentificationViewController}
    (reached : run step initial events = some final) :
    Always step TellsTruth initial events ↔
      ∀ tapped ∈ initial.pendingTaps events, ¬ tapped.Submits :=
  always_tellsTruth_iff ⟨by decide, by decide⟩ reached

theorem tellsTruth_iff_careful :
    ∃ final, run step initial (carefulRegistration ++ [.completion true, .touchUpInside]) =
        some final ∧
      (Always step TellsTruth initial (carefulRegistration ++ [.completion true, .touchUpInside]) ↔
        ∀ tapped ∈ initial.pendingTaps
          (carefulRegistration ++ [.completion true, .touchUpInside]), ¬ tapped.Submits) := by
  have reached : run step initial
      (carefulRegistration ++ [.completion true, .touchUpInside]) = some _ := rfl
  exact ⟨_, reached, tellsTruth_iff reached⟩

/-- After a second tap and one completion a request is outstanding and the indicator stands
still. -/
theorem second_tap_stops_indicator :
    ¬ ∀ (events : List FormEvent) (final : AuthentificationViewController),
      run step initial events = some final → final.TellsTruth := by
  intro always
  have truth := always (carefulRegistration ++ [.touchUpInside, .completion true]) _ rfl
  exact absurd (truth.animating.mpr (by decide)) (by decide)

end AuthentificationViewController

end PhotoMap
