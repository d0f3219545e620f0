/-
This file compares the verdict at the end of an editing with the fields and with
the warnings. Every handler checks the field that was edited and then all the
fields the mode requires, so the three agree unless the edited field is one the
mode does not require: a short confirmation whose editing ends in Login mode
disables the button over valid fields. The warnings are set by the checks as
they run, one label for the email and one for both passwords; when fields are
edited one at a time, the button is disabled exactly when a warning is shown.
-/

import PhotoMap.Submissions

namespace PhotoMap

open Transition

namespace AuthentificationViewController

/-! ### The verdict and the fields -/

/-- One end of an editing judges the fields rightly unless it is the end of a short confirmation
in Login mode, over valid credentials. -/
theorem editingDidEnd_right_iff (form : AuthentificationViewController) (field : FormField) :
    ((form.editingDidEnd field).signInButton.isEnabled = true ↔
        (form.editingDidEnd field).InputValid) ↔
      (field = .confirm → form.signInControl ≠ 0 → form.CredentialsValid →
        6 ≤ form.confirmPasswordTextView.text.length) := by
  rw [editingDidEnd_isEnabled, (editingDidEnd_sameInput form field).inputValid,
    and_iff_left_iff_imp]
  constructor
  · intro implied confirm login credentials
    exact implied ⟨credentials, fun register => absurd register login⟩ confirm
  · intro implied valid confirm
    by_cases register : form.signInControl = 0
    · exact valid.2 register
    · exact implied confirm register valid.1

/-- After every end of an editing in the events, the button is enabled exactly when the fields the
mode requires are valid. -/
def RightVerdicts (start : AuthentificationViewController) (events : List FormEvent) : Prop :=
  ∀ before field form, before ++ [.editingDidEnd field] <+: events →
    run step start (before ++ [.editingDidEnd field]) = some form →
      (form.signInButton.isEnabled = true ↔ form.InputValid)

/-- From any form, the verdicts of a run are right exactly when no editing of a short confirmation
ends in Login mode over a non-empty email and a password of at least six characters. -/
theorem rightVerdicts_iff (start : AuthentificationViewController) (events : List FormEvent) :
    RightVerdicts start events ↔
      ∀ before form, before ++ [.editingDidEnd .confirm] <+: events →
        run step start before = some form →
          form.signInControl ≠ 0 → form.CredentialsValid →
            6 ≤ form.confirmPasswordTextView.text.length := by
  constructor
  · intro right before form isPrefix reached
    have ended : run step start (before ++ [.editingDidEnd .confirm]) =
        some (form.editingDidEnd .confirm) := run_concat_eq_some.mpr ⟨form, reached, rfl⟩
    exact (editingDidEnd_right_iff form .confirm).mp (right before .confirm _ isPrefix ended) rfl
  · intro long before field form isPrefix ended
    obtain ⟨middle, reached, stepped⟩ := run_concat_eq_some.mp ended
    cases stepped
    refine (editingDidEnd_right_iff middle field).mpr ?_
    rintro rfl
    exact long before middle isPrefix reached

/-- A registration that is abandoned for a login while the confirmation is edited. -/
def abandonedRegistration : List FormEvent :=
  [.editingDidBegin .email, .editingChanged .email (text "ann@lake"), .editingDidEnd .email,
    .editingDidBegin .password, .editingChanged .password (text "secret"),
    .editingDidEnd .password, .editingDidBegin .confirm,
    .editingChanged .confirm (text "sec"), .valueChanged (Fin.last 1), .editingDidEnd .confirm]

/-- The confirmation that Login does not ask for disables the button. -/
theorem abandoned_confirmation_disables :
    ¬ ∀ (events : List FormEvent) (final : AuthentificationViewController),
      run step initial events = some final → RightVerdicts initial events := by
  intro always
  have right := always abandonedRegistration _ rfl abandonedRegistration.dropLast .confirm _
    (List.prefix_refl _) rfl
  exact absurd (right.mpr ⟨⟨by decide, by decide⟩, by decide⟩) (by decide)

/-! ### The verdict and the warnings -/

/-- Neither label shows a warning. -/
def Unwarned (form : AuthentificationViewController) : Prop :=
  form.emailLabel.text = [] ∧ form.passWordLabel.text = []

/-- What the form satisfies when a check ends with a verdict. -/
def Check.Leaves (check : Check) (verdict : Bool)
    (post : AuthentificationViewController → Prop) : Prop :=
  ∀ form, (check form).1 = verdict → post (check form).2

/-- A conjunction that holds ends as its second check does. -/
theorem Check.Leaves.and_true {first second : Check}
    {post : AuthentificationViewController → Prop} (last : second.Leaves true post) :
    (first.and second).Leaves true post := by
  intro form held
  have after := last (first form).2 (Check.and_fst.mp held).2
  unfold Check.and at held ⊢
  split
  · rename_i next passed
    rwa [passed] at after
  · rename_i next failed
    rw [failed] at held
    cases held

/-- A conjunction that fails ends as the check that failed does. -/
theorem Check.Leaves.and_false {first second : Check}
    {post : AuthentificationViewController → Prop} (early : first.Leaves false post)
    (late : second.Leaves false post) : (first.and second).Leaves false post := by
  intro form failed
  have after := early form
  unfold Check.and at failed ⊢
  split
  · rename_i next passed
    rw [passed] at failed
    exact late next failed
  · rename_i next stopped
    rw [stopped] at after
    exact after rfl

theorem setEmailWarning_warned (form : AuthentificationViewController) {message : Text}
    (warns : message ≠ []) : ¬ (form.setEmailWarning message).Unwarned :=
  fun unwarned => warns unwarned.1

theorem setPasswordWarning_warned (form : AuthentificationViewController) {message : Text}
    (warns : message ≠ []) : ¬ (form.setPasswordWarning message).Unwarned :=
  fun unwarned => warns unwarned.2

/-- An email check that fails leaves a warning. -/
theorem isEmailValid_warns : isEmailValid.Leaves false fun form => ¬ form.Unwarned := by
  intro form failed
  unfold isEmailValid at failed ⊢
  split
  · exact setEmailWarning_warned form (by decide)
  · rename_i present
    rw [if_neg present] at failed
    cases failed

/-- A password check that fails leaves a warning. -/
theorem isPasswordValid_warns (field : PasswordField) :
    (isPasswordValid field).Leaves false fun form => ¬ form.Unwarned := by
  intro form failed
  unfold isPasswordValid at failed ⊢
  dsimp only at failed ⊢
  split
  · exact setPasswordWarning_warned form (by decide)
  · rename_i present
    rw [if_neg present] at failed
    split
    · rename_i long
      rw [if_pos long] at failed
      cases failed
    · exact setPasswordWarning_warned _ (by decide)

/-- A password check that holds clears its label. -/
theorem isPasswordValid_clears (field : PasswordField) :
    (isPasswordValid field).Leaves true fun form => form.passWordLabel.text = [] := by
  intro form held
  have long := isPasswordValid_fst.mp held
  unfold isPasswordValid
  dsimp only
  split
  · rename_i empty
    rw [List.isEmpty_iff.mp empty] at long
    cases long
  · rfl

theorem isInputFieldsValid_warns :
    isInputFieldsValid.Leaves false fun form => ¬ form.Unwarned := by
  intro form failed
  unfold isInputFieldsValid at failed ⊢
  split
  · rename_i register
    rw [if_pos register] at failed
    exact (isEmailValid_warns.and_false
      ((isPasswordValid_warns .password).and_false (isPasswordValid_warns .confirm))) form failed
  · rename_i login
    rw [if_neg login] at failed
    exact (isEmailValid_warns.and_false (isPasswordValid_warns .password)) form failed

theorem isInputFieldsValid_clears :
    isInputFieldsValid.Leaves true fun form => form.passWordLabel.text = [] := by
  intro form held
  unfold isInputFieldsValid at held ⊢
  split
  · rename_i register
    rw [if_pos register] at held
    exact (isPasswordValid_clears .confirm).and_true.and_true form held
  · rename_i login
    rw [if_neg login] at held
    exact (isPasswordValid_clears .password).and_true form held

/-- A button that the end of an editing disables is explained by a warning. -/
theorem editingDidEnd_warns {form : AuthentificationViewController} {field : FormField}
    (disabled : (form.editingDidEnd field).signInButton.isEnabled = false) :
    ¬ (form.editingDidEnd field).Unwarned := by
  cases field with
  | email => exact (isEmailValid_warns.and_false isInputFieldsValid_warns) form disabled
  | password =>
    exact ((isPasswordValid_warns .password).and_false isInputFieldsValid_warns) form disabled
  | confirm =>
    exact ((isPasswordValid_warns .confirm).and_false isInputFieldsValid_warns) form disabled

/-- A button that the end of an editing enables has no warning about a password. -/
theorem editingDidEnd_clears {form : AuthentificationViewController} {field : FormField}
    (enabled : (form.editingDidEnd field).signInButton.isEnabled = true) :
    (form.editingDidEnd field).passWordLabel.text = [] := by
  cases field with
  | email => exact isInputFieldsValid_clears.and_true form enabled
  | password => exact isInputFieldsValid_clears.and_true form enabled
  | confirm => exact isInputFieldsValid_clears.and_true form enabled

/-- The label of an email that is not empty stays as it is. -/
theorem editingDidEnd_emailLabel {form : AuthentificationViewController} (field : FormField)
    (present : form.emailTextView.text ≠ []) :
    (form.editingDidEnd field).emailLabel = form.emailLabel := by
  have setters : SettersKeep fun before after => after.emailTextView = before.emailTextView ∧
      (before.emailTextView.text ≠ [] → after.emailLabel = before.emailLabel) :=
    { refl := fun _ => ⟨rfl, fun _ => rfl⟩
      trans := fun first second third left right =>
        ⟨right.1.trans left.1, fun present => (right.2 (by rwa [left.1])).trans (left.2 present)⟩
      emailWarning := fun _ _ empty => ⟨rfl, fun present => absurd empty present⟩
      passwordWarning := fun _ _ => ⟨rfl, fun _ => rfl⟩
      textColor := fun _ field _ => by cases field <;> exact ⟨rfl, fun _ => rfl⟩
      button := fun _ _ => ⟨rfl, fun _ => rfl⟩ }
  exact (editingDidEnd_keeps setters form field).2 present

/-! ### Fields edited one at a time -/

/-- The field that is edited after an event. An editing begins when no other one is under way,
only the edited field changes, and only its editing ends. -/
def edit (edited : Option FormField) : FormEvent → Option (Option FormField)
  | .editingDidBegin field => if edited = none then some (some field) else none
  | .editingChanged field _ => if edited = some field then some edited else none
  | .editingDidEnd field => if edited = some field then some none else none
  | _ => some edited

/-- An email that is present, or is being edited, has no warning. -/
def EmailUnwarned (form : AuthentificationViewController) (edited : Option FormField) : Prop :=
  form.emailTextView.text ≠ [] ∨ edited = some .email → form.emailLabel.text = []

/-- A switch of the mode leaves the labels, and the email unless it clears it. -/
theorem didSingMethodChange_email (form : AuthentificationViewController) :
    form.didSingMethodChange.emailLabel = form.emailLabel ∧
      (form.didSingMethodChange.emailTextView.text ≠ [] → form.emailTextView.text ≠ []) := by
  unfold didSingMethodChange
  split
  · exact ⟨rfl, fun present => absurd rfl present⟩
  · exact ⟨rfl, id⟩

theorem step_emailUnwarned {form next : AuthentificationViewController}
    {edited after : Option FormField} {event : FormEvent} (holds : form.EmailUnwarned edited)
    (stepped : form.step event = some next) (allowed : edit edited event = some after) :
    next.EmailUnwarned after := by
  cases event with
  | editingDidBegin field =>
    cases stepped
    obtain ⟨-, same⟩ := Option.ite_none_right_eq_some.mp allowed
    cases same
    cases field with
    | email => exact fun _ => rfl
    | password => exact fun either => holds (either.imp_right nofun)
    | confirm => exact fun either => holds (either.imp_right nofun)
  | editingChanged field text =>
    cases stepped
    obtain ⟨rfl, same⟩ := Option.ite_none_right_eq_some.mp allowed
    cases same
    cases field with
    | email => exact fun _ => holds (Or.inr rfl)
    | password => exact holds
    | confirm => exact holds
  | editingDidEnd field =>
    cases stepped
    obtain ⟨-, same⟩ := Option.ite_none_right_eq_some.mp allowed
    cases same
    intro either
    have present : form.emailTextView.text ≠ [] := by
      rw [← (editingDidEnd_sameInput form field).email]
      exact either.resolve_right nofun
    rw [editingDidEnd_emailLabel field present]
    exact holds (Or.inl present)
  | valueChanged selected =>
    cases stepped
    cases allowed
    obtain ⟨label, kept⟩ := didSingMethodChange_email { form with signInControl := selected }
    intro either
    rw [label]
    exact holds (either.imp_left kept)
  | touchUpInside =>
    obtain ⟨-, rfl⟩ := step_touchUpInside.mp stepped
    cases allowed
    obtain ⟨email, label, -⟩ := form.didSignButtonClicked_input
    rwa [EmailUnwarned, email, label]
  | completion failed =>
    obtain ⟨-, rfl⟩ := step_completion.mp stepped
    cases allowed
    exact holds

/-- Along every run whose fields are edited one at a time, an email that is present, or is being
edited, has no warning. -/
theorem run_emailUnwarned {form : AuthentificationViewController} {edited : Option FormField}
    {events : List FormEvent} (reached : run step initial events = some form)
    (oneAtATime : run edit none events = some edited) : form.EmailUnwarned edited := by
  refine run_induction (fun events form =>
    ∀ edited, run edit none events = some edited → form.EmailUnwarned edited) ?_ ?_ reached
    edited oneAtATime
  · intro edited nothing either
    cases nothing
    exact absurd rfl (either.resolve_right nofun)
  · intro events event middle target _ holds stepped edited allowed
    obtain ⟨before, earlier, last⟩ := run_concat_eq_some.mp allowed
    exact step_emailUnwarned (holds before earlier) stepped last

/-- In every run whose fields are edited one at a time, the end of an editing leaves the button
enabled exactly when the labels of the email and of the passwords are both empty. -/
theorem isEnabled_iff_unwarned {events : List FormEvent} {field : FormField}
    {form : AuthentificationViewController} {edited : Option FormField}
    (reached : run step initial (events ++ [.editingDidEnd field]) = some form)
    (oneAtATime : run edit none (events ++ [.editingDidEnd field]) = some edited) :
    form.signInButton.isEnabled = true ↔
      form.emailLabel.text = [] ∧ form.passWordLabel.text = [] := by
  have holds := run_emailUnwarned reached oneAtATime
  obtain ⟨before, -, stepped⟩ := run_concat_eq_some.mp reached
  cases stepped
  constructor
  · intro enabled
    have present := (editingDidEnd_isEnabled.mp enabled).1.1.1
    rw [← (editingDidEnd_sameInput before field).email] at present
    exact ⟨holds (Or.inl present), editingDidEnd_clears enabled⟩
  · intro unwarned
    by_contra disabled
    exact editingDidEnd_warns (Bool.eq_false_iff.mpr disabled) unwarned

theorem isEnabled_iff_unwarned_email :
    ∃ form, run step initial ([.editingDidBegin .email,
        .editingChanged .email (text "ann@lake")] ++ [.editingDidEnd .email]) = some form ∧
      (form.signInButton.isEnabled = true ↔
        form.emailLabel.text = [] ∧ form.passWordLabel.text = []) := by
  have reached : run step initial ([.editingDidBegin .email,
      .editingChanged .email (text "ann@lake")] ++ [.editingDidEnd .email]) = some _ := rfl
  exact ⟨_, reached, isEnabled_iff_unwarned reached rfl⟩

end AuthentificationViewController

end PhotoMap
