/-
This file proves which credentials the form submits. Right after the end of an
editing an enabled button means valid fields; the verdict becomes stale when the
email or the password changes, and a switch of the mode disables the button. A
tap under a fresh verdict submits valid credentials, so the requests of a run
are all valid exactly when the taps under a stale verdict find valid ones, or
are stopped because the confirmation differs.
-/

import PhotoMap.SignForm
import PhotoMap.Transition

namespace PhotoMap

open Transition

/-! ### Fresh and stale verdicts -/

/-- What the service accepts, and what a registration was confirmed with. -/
def Request.Valid (request : Request) : Prop :=
  request.email ≠ [] ∧ 6 ≤ request.password.length ∧
    (request.kind = .createUser → request.password = request.confirmation)

/-- Whether the email or the password has changed since the verdict. -/
def FormEvent.stale (event : FormEvent) (stale : Bool) : Bool :=
  match event with
  | .editingDidBegin .password => true
  | .editingChanged .email _ => true
  | .editingChanged .password _ => true
  | .editingDidEnd _ => false
  | .valueChanged _ => false
  | _ => stale

namespace AuthentificationViewController

/-- The forms of a run at its taps under a stale verdict. -/
def staleTaps (form : AuthentificationViewController) (stale : Bool) :
    List FormEvent → List AuthentificationViewController
  | [] => []
  | event :: rest =>
    (if event = .touchUpInside ∧ stale = true then [form] else []) ++
      ((form.step event).map fun next => next.staleTaps (event.stale stale) rest).getD []

/-! ### One event -/

/-- The end of an editing enables the button exactly when the fields the mode requires are valid,
and the confirmation is when it is the field that was edited. -/
theorem editingDidEnd_isEnabled {form : AuthentificationViewController} {field : FormField} :
    (form.editingDidEnd field).signInButton.isEnabled = true ↔
      form.InputValid ∧ (field = .confirm → 6 ≤ form.confirmPasswordTextView.text.length) := by
  cases field with
  | email =>
    have unasked : FormField.email = .confirm →
        6 ≤ form.confirmPasswordTextView.text.length := nofun
    refine Check.and_fst.trans ?_
    rw [isInputFieldsValid_fst, (isEmailValid_sameInput form).inputValid, isEmailValid_fst,
      and_iff_left unasked]
    exact and_iff_right_of_imp fun valid => valid.1.1
  | password =>
    have unasked : FormField.password = .confirm →
        6 ≤ form.confirmPasswordTextView.text.length := nofun
    refine Check.and_fst.trans ?_
    rw [isInputFieldsValid_fst, (isPasswordValid_sameInput .password form).inputValid,
      isPasswordValid_fst, and_iff_left unasked]
    exact and_iff_right_of_imp fun valid => valid.1.2
  | confirm =>
    refine Check.and_fst.trans ?_
    rw [isInputFieldsValid_fst, (isPasswordValid_sameInput .confirm form).inputValid,
      isPasswordValid_fst, and_comm, imp_iff_right rfl]
    rfl

/-- A switch of the mode disables the button and starts no request. -/
theorem didSingMethodChange_disables (form : AuthentificationViewController) :
    form.didSingMethodChange.signInButton.isEnabled = false ∧
      form.didSingMethodChange.requests = form.requests := by
  unfold didSingMethodChange
  split <;> exact ⟨rfl, rfl⟩

/-- A tap calls the service with the fields, unless a registration is not confirmed. -/
theorem didSignButtonClicked_cases (form : AuthentificationViewController) :
    (form.Submits ∧ ∃ kind, form.didSignButtonClicked =
        form.call kind form.emailTextView.text form.passwordTextView.text ∧
      (kind = .createUser →
        form.passwordTextView.text = form.confirmPasswordTextView.text)) ∨
      (¬ form.Submits ∧ form.didSignButtonClicked = form) := by
  unfold didSignButtonClicked Submits
  by_cases register : form.signInControl = 0
  · rw [if_pos register, imp_iff_right register]
    unfold didSignUpClick
    by_cases confirmed : form.passwordTextView.text = form.confirmPasswordTextView.text
    · rw [if_pos confirmed]
      exact Or.inl ⟨confirmed, .createUser, rfl, fun _ => confirmed⟩
    · rw [if_neg confirmed]
      exact Or.inr ⟨confirmed, rfl⟩
  · rw [if_neg register]
    exact Or.inl ⟨fun isRegister => absurd isRegister register, .signIn, rfl, nofun⟩

/-- A tap leaves the email with its label, the password and the button. -/
theorem didSignButtonClicked_input (form : AuthentificationViewController) :
    form.didSignButtonClicked.emailTextView = form.emailTextView ∧
      form.didSignButtonClicked.emailLabel = form.emailLabel ∧
      form.didSignButtonClicked.passwordTextView = form.passwordTextView ∧
      form.didSignButtonClicked.signInButton = form.signInButton := by
  rcases form.didSignButtonClicked_cases with ⟨-, kind, called, -⟩ | ⟨-, same⟩
  · rw [called]
    exact ⟨rfl, rfl, rfl, rfl⟩
  · rw [same]
    exact ⟨rfl, rfl, rfl, rfl⟩

/-- After an event an enabled button under a fresh verdict means valid credentials again. -/
theorem step_fresh {form next : AuthentificationViewController} {event : FormEvent} {stale : Bool}
    (fresh : stale = false → form.signInButton.isEnabled = true → form.CredentialsValid)
    (stepped : form.step event = some next) (stillFresh : event.stale stale = false)
    (enabled : next.signInButton.isEnabled = true) : next.CredentialsValid := by
  cases event with
  | editingDidBegin field =>
    cases stepped
    cases field with
    | email => exact fresh stillFresh enabled
    | password => cases stillFresh
    | confirm => exact fresh stillFresh enabled
  | editingChanged field text =>
    cases stepped
    cases field with
    | email => cases stillFresh
    | password => cases stillFresh
    | confirm => exact fresh stillFresh enabled
  | editingDidEnd field =>
    cases stepped
    have valid := (editingDidEnd_isEnabled.mp enabled).1
    exact ((editingDidEnd_sameInput form field).inputValid.mpr valid).1
  | valueChanged selected =>
    cases stepped
    rw [(didSingMethodChange_disables _).1] at enabled
    cases enabled
  | touchUpInside =>
    obtain ⟨tappable, rfl⟩ := step_touchUpInside.mp stepped
    have valid := fresh stillFresh tappable
    obtain ⟨email, -, password, -⟩ := form.didSignButtonClicked_input
    rwa [CredentialsValid, email, password]
  | completion failed =>
    obtain ⟨-, rfl⟩ := step_completion.mp stepped
    exact fresh stillFresh enabled

/-- The requests after an event are valid when those before it are, and a submitting tap found
valid credentials. -/
theorem step_requests {form next : AuthentificationViewController} {event : FormEvent}
    (stepped : form.step event = some next) :
    (∀ request ∈ next.requests, request.Valid) ↔
      (∀ request ∈ form.requests, request.Valid) ∧
        (event = .touchUpInside → form.Submits → form.CredentialsValid) := by
  have quiet : next.requests = form.requests → event ≠ .touchUpInside →
      ((∀ request ∈ next.requests, request.Valid) ↔
        (∀ request ∈ form.requests, request.Valid) ∧
          (event = .touchUpInside → form.Submits → form.CredentialsValid)) := by
    intro same other
    rw [same]
    exact (and_iff_left fun tap => absurd tap other).symm
  cases event with
  | editingDidBegin field =>
    cases stepped
    cases field <;> exact quiet rfl (by simp)
  | editingChanged field text =>
    cases stepped
    cases field <;> exact quiet rfl (by simp)
  | editingDidEnd field =>
    cases stepped
    exact quiet (editingDidEnd_sameInput form field).requests (by simp)
  | valueChanged selected =>
    cases stepped
    exact quiet (didSingMethodChange_disables _).2 (by simp)
  | touchUpInside =>
    obtain ⟨-, rfl⟩ := step_touchUpInside.mp stepped
    rcases form.didSignButtonClicked_cases with ⟨submits, kind, called, confirmed⟩ |
      ⟨stopped, same⟩
    · rw [called, call, List.forall_mem_append, List.forall_mem_singleton]
      refine and_congr_right fun _ => ?_
      constructor
      · intro valid _ _
        exact ⟨valid.1, valid.2.1⟩
      · intro credentials
        obtain ⟨email, password⟩ := credentials rfl submits
        exact ⟨email, password, confirmed⟩
    · rw [same]
      exact (and_iff_left fun _ submits => absurd submits stopped).symm
  | completion failed =>
    obtain ⟨-, rfl⟩ := step_completion.mp stepped
    exact quiet rfl (by simp)

/-! ### Whole runs -/

/-- From any form whose verdict is right while it is fresh, the requests of a run are valid
exactly when the first ones are and every submitting tap under a stale verdict found valid
credentials. -/
theorem run_requests {form final : AuthentificationViewController} {stale : Bool}
    {events : List FormEvent}
    (fresh : stale = false → form.signInButton.isEnabled = true → form.CredentialsValid)
    (reached : run step form events = some final) :
    (∀ request ∈ final.requests, request.Valid) ↔
      (∀ request ∈ form.requests, request.Valid) ∧
        ∀ tapped ∈ form.staleTaps stale events, tapped.Submits → tapped.CredentialsValid := by
  induction events generalizing form stale with
  | nil =>
    cases reached
    rw [staleTaps]
    simp
  | cons event rest inductionHypothesis =>
    obtain ⟨next, stepped, reached⟩ := run_cons_eq_some.mp reached
    rw [inductionHypothesis (step_fresh fresh stepped) reached, step_requests stepped, and_assoc,
      staleTaps, stepped, Option.map_some, Option.getD_some, List.forall_mem_append]
    refine and_congr_right fun _ => and_congr_left fun _ => ?_
    by_cases tap : event = .touchUpInside
    · subst tap
      cases stale with
      | true => simp
      | false =>
        -- A tap under a fresh verdict was enabled by valid fields.
        have tappable := (step_touchUpInside.mp stepped).1
        exact iff_of_true (fun _ _ => fresh rfl tappable) (by simp)
    · exact iff_of_true (fun isTap => absurd isTap tap) (by simp [tap])

/-- A run of the form submits only valid credentials exactly when each of its taps under a stale
verdict finds a non-empty email and a long enough password, or is stopped by a different
confirmation. -/
theorem submitsOnlyValid_iff {events : List FormEvent} {final : AuthentificationViewController}
    (reached : run step initial events = some final) :
    (∀ request ∈ final.requests, request.Valid) ↔
      ∀ tapped ∈ initial.staleTaps true events, tapped.Submits → tapped.CredentialsValid := by
  refine (run_requests (fun fresh => by cases fresh) reached).trans (and_iff_right ?_)
  intro request member
  cases member

/-- A registration that ends every editing before the tap. -/
def carefulRegistration : List FormEvent :=
  [.editingDidBegin .email, .editingChanged .email (text "ann@lake"), .editingDidEnd .email,
    .editingDidBegin .password, .editingChanged .password (text "secret"),
    .editingDidEnd .password, .editingDidBegin .confirm,
    .editingChanged .confirm (text "secret"), .editingDidEnd .confirm, .touchUpInside]

theorem submitsOnlyValid_iff_careful :
    ∃ final, run step initial carefulRegistration = some final ∧
      ((∀ request ∈ final.requests, request.Valid) ↔
        ∀ tapped ∈ initial.staleTaps true carefulRegistration,
          tapped.Submits → tapped.CredentialsValid) := by
  have reached : run step initial carefulRegistration = some _ := rfl
  exact ⟨_, reached, submitsOnlyValid_iff reached⟩

/-- The tap in the middle of the first editing submits an empty email. -/
theorem empty_email_submitted :
    ¬ ∀ (events : List FormEvent) (final : AuthentificationViewController),
      run step initial events = some final → ∀ request ∈ final.requests, request.Valid := by
  intro always
  have valid := always [.editingDidBegin .confirm, .editingChanged .confirm (text "Password"),
    .touchUpInside] _ rfl ⟨.createUser, [], text "Password", text "Password"⟩ (by decide)
  exact valid.1 rfl

end AuthentificationViewController

end PhotoMap
