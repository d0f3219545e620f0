/-
This file models the sign-in form: its controls as the storyboard makes them,
every handler of `AuthentificationViewController`, and the requests it starts.
The button is enabled by a verdict that only the end of an editing computes. A
text that changes afterwards, or that the beginning of an editing clears, leaves
the old verdict standing, so the form submits invalid credentials exactly when
the button is tapped while the verdict is stale and the fields are not valid.
-/

import PhotoMap.Swift

namespace PhotoMap

/-! ### The controls -/

inductive UIColor where
  | standard
  | gray
  | black
  | blue
  | red
deriving DecidableEq

/-- A text field. Its `text` is never `nil`. -/
structure UITextField where
  text : Text
  textColor : UIColor
  isHidden : Bool := false

structure UILabel where
  text : Text
  isHidden : Bool := false

structure UIButton where
  title : Text
  isEnabled : Bool
  alpha : Nat

structure UIActivityIndicatorView where
  isAnimating : Bool
  isHidden : Bool

inductive RequestKind where
  | createUser
  | signIn
deriving DecidableEq

/-- A call of the authentication service, and the confirmation in the form at the call. -/
structure Request where
  kind : RequestKind
  email : Text
  password : Text
  confirmation : Text
deriving DecidableEq

/-- The form, the calls it has made, and how many of them have not completed. -/
structure AuthentificationViewController where
  signInControl : Fin 2
  emailLabel : UILabel
  passWordLabel : UILabel
  emailTextView : UITextField
  passwordTextView : UITextField
  confirmPasswordTextView : UITextField
  signInButton : UIButton
  activityIndicator : UIActivityIndicatorView
  requests : List Request
  outstanding : Nat
  mapIsOpen : Bool

/-! ### The handlers -/

namespace SignUpInOut

def signUp : Text := text "Sign up"
def signIn : Text := text "Sign in"
def emailIsRequired : Text := text "Email is required field"
def passwordIsRequired : Text := text "Password is required field"
def didNotSatisfyConditionPasswordWarning : Text := text "Legnth should be more than 6 symbols."

end SignUpInOut

/-- One of the two fields that hold a password. -/
inductive PasswordField where
  | password
  | confirm
deriving DecidableEq

namespace AuthentificationViewController

/-- The form as the storyboard lays it out. -/
def storyboard : AuthentificationViewController where
  signInControl := 0
  emailLabel := { text := text "Email" }
  passWordLabel := { text := text "Password" }
  emailTextView := { text := [], textColor := .standard }
  passwordTextView := { text := text "Password", textColor := .gray }
  confirmPasswordTextView := { text := text "Confirm password", textColor := .gray }
  signInButton := { title := text "Sign in", isEnabled := true, alpha := 1 }
  activityIndicator := { isAnimating := false, isHidden := true }
  requests := []
  outstanding := 0
  mapIsOpen := false

def viewDidLoad (form : AuthentificationViewController) : AuthentificationViewController :=
  { form with activityIndicator := { form.activityIndicator with isHidden := true } }

def setEmailWarning (form : AuthentificationViewController) (message : Text) :
    AuthentificationViewController :=
  { form with emailLabel := { text := message, isHidden := false } }

def setPasswordWarning (form : AuthentificationViewController) (message : Text) :
    AuthentificationViewController :=
  { form with passWordLabel := { text := message, isHidden := false } }

def passwordField (form : AuthentificationViewController) : PasswordField → UITextField
  | .password => form.passwordTextView
  | .confirm => form.confirmPasswordTextView

def setTextColor (form : AuthentificationViewController) (field : PasswordField)
    (color : UIColor) : AuthentificationViewController :=
  match field with
  | .password => { form with passwordTextView := { form.passwordTextView with textColor := color } }
  | .confirm =>
    { form with
      confirmPasswordTextView := { form.confirmPasswordTextView with textColor := color } }

/-- A check of the form, which may set the warnings and the colors. -/
abbrev Check := AuthentificationViewController → Bool × AuthentificationViewController

/-- `&&`: the second check runs when the first one holds. -/
def Check.and (first second : Check) : Check := fun form =>
  match first form with
  | (true, form) => second form
  | (false, form) => (false, form)

def isEmailValid : Check := fun form =>
  if form.emailTextView.text.isEmpty then
    (false, form.setEmailWarning SignUpInOut.emailIsRequired)
  else (true, form)

def isPasswordValid (field : PasswordField) : Check := fun form =>
  let password := (form.passwordField field).text
  if password.isEmpty then (false, form.setPasswordWarning SignUpInOut.passwordIsRequired)
  else if 6 ≤ password.length then
    (true, (form.setTextColor field .blue).setPasswordWarning [])
  else
    (false, (form.setTextColor field .red).setPasswordWarning
      SignUpInOut.didNotSatisfyConditionPasswordWarning)

def isInputFieldsValid : Check := fun form =>
  if form.signInControl = 0 then
    (isEmailValid.and ((isPasswordValid .password).and (isPasswordValid .confirm))) form
  else (isEmailValid.and (isPasswordValid .password)) form

def changeSignButtonState (form : AuthentificationViewController) (isEnabled : Bool) :
    AuthentificationViewController :=
  { form with
    signInButton := { form.signInButton with
      isEnabled := isEnabled
      alpha := if isEnabled then 1 else 0 } }

/-- The button takes the verdict of a check. -/
def judge (check : Check) (form : AuthentificationViewController) :
    AuthentificationViewController :=
  (check form).2.changeSignButtonState (check form).1

def wasEditingBegan (form : AuthentificationViewController) : AuthentificationViewController :=
  { form with
    emailLabel := { form.emailLabel with text := [] }
    emailTextView := { form.emailTextView with textColor := .black } }

def emailEditEnd : AuthentificationViewController → AuthentificationViewController :=
  judge (isEmailValid.and isInputFieldsValid)

def passwordEditBegan (form : AuthentificationViewController) : AuthentificationViewController :=
  { form with
    passwordTextView := { form.passwordTextView with text := [], textColor := .black } }

def passwordEditEnd : AuthentificationViewController → AuthentificationViewController :=
  judge ((isPasswordValid .password).and isInputFieldsValid)

def confirmPasswordEditBegan (form : AuthentificationViewController) :
    AuthentificationViewController :=
  { form with
    confirmPasswordTextView :=
      { form.confirmPasswordTextView with text := [], textColor := .black } }

def confirmPasswordEditEnd : AuthentificationViewController → AuthentificationViewController :=
  judge ((isPasswordValid .confirm).and isInputFieldsValid)

def clearFields (form : AuthentificationViewController) : AuthentificationViewController :=
  { form with
    emailTextView := { form.emailTextView with text := [] }
    passwordTextView := { form.passwordTextView with text := [] }
    confirmPasswordTextView := { form.confirmPasswordTextView with text := [] } }

def setTitle (form : AuthentificationViewController) (title : Text) :
    AuthentificationViewController :=
  { form with signInButton := { form.signInButton with title := title } }

def setConfirmHidden (form : AuthentificationViewController) (isHidden : Bool) :
    AuthentificationViewController :=
  { form with confirmPasswordTextView :=
    { form.confirmPasswordTextView with isHidden := isHidden } }

def setUpSignUp (form : AuthentificationViewController) : AuthentificationViewController :=
  let form := (form.clearFields.setTitle SignUpInOut.signUp).changeSignButtonState false
  { form with signInControl := 0 }.setConfirmHidden false

def setUpSignIn (form : AuthentificationViewController) : AuthentificationViewController :=
  ((form.setTitle SignUpInOut.signIn).changeSignButtonState false).setConfirmHidden true

def didSingMethodChange (form : AuthentificationViewController) : AuthentificationViewController :=
  if form.signInControl = 0 then form.setUpSignUp else form.setUpSignIn

/-- `signUp` and `signIn`: the indicator starts, and the service is called. -/
def call (form : AuthentificationViewController) (kind : RequestKind) (email password : Text) :
    AuthentificationViewController :=
  { form with
    activityIndicator := { form.activityIndicator with isAnimating := true }
    requests := form.requests ++ [⟨kind, email, password, form.confirmPasswordTextView.text⟩]
    outstanding := form.outstanding + 1 }

def didSignUpClick (form : AuthentificationViewController) : AuthentificationViewController :=
  if form.passwordTextView.text = form.confirmPasswordTextView.text then
    form.call .createUser form.emailTextView.text form.passwordTextView.text
  else form

def didSignInClick (form : AuthentificationViewController) : AuthentificationViewController :=
  form.call .signIn form.emailTextView.text form.passwordTextView.text

def didSignButtonClicked (form : AuthentificationViewController) :
    AuthentificationViewController :=
  if form.signInControl = 0 then form.didSignUpClick else form.didSignInClick

/-- The completion of a request: the indicator stops, and a success opens the map. -/
def completion (form : AuthentificationViewController) (failed : Bool) :
    AuthentificationViewController :=
  { form with
    activityIndicator := { form.activityIndicator with isAnimating := false }
    outstanding := form.outstanding - 1
    mapIsOpen := form.mapIsOpen || !failed }

end AuthentificationViewController

/-! ### The events -/

inductive FormField where
  | email
  | password
  | confirm
deriving DecidableEq

/-- What the storyboard wires to the form, a change of a text, and the completion of a
request. -/
inductive FormEvent where
  | editingDidBegin (field : FormField)
  | editingChanged (field : FormField) (text : Text)
  | editingDidEnd (field : FormField)
  | valueChanged (selectedSegmentIndex : Fin 2)
  | touchUpInside
  | completion (failed : Bool)
deriving DecidableEq

namespace AuthentificationViewController

def editingDidBegin (form : AuthentificationViewController) :
    FormField → AuthentificationViewController
  | .email => form.wasEditingBegan
  | .password => form.passwordEditBegan
  | .confirm => form.confirmPasswordEditBegan

def editingChanged (form : AuthentificationViewController) (field : FormField) (text : Text) :
    AuthentificationViewController :=
  match field with
  | .email => { form with emailTextView := { form.emailTextView with text := text } }
  | .password => { form with passwordTextView := { form.passwordTextView with text := text } }
  | .confirm =>
    { form with confirmPasswordTextView := { form.confirmPasswordTextView with text := text } }

def editingDidEnd (form : AuthentificationViewController) :
    FormField → AuthentificationViewController
  | .email => form.emailEditEnd
  | .password => form.passwordEditEnd
  | .confirm => form.confirmPasswordEditEnd

/-- One event. The button can be tapped while it is enabled, and a request completes once. -/
def step (form : AuthentificationViewController) :
    FormEvent → Option AuthentificationViewController
  | .editingDidBegin field => some (form.editingDidBegin field)
  | .editingChanged field text => some (form.editingChanged field text)
  | .editingDidEnd field => some (form.editingDidEnd field)
  | .valueChanged selectedSegmentIndex =>
    some { form with signInControl := selectedSegmentIndex }.didSingMethodChange
  | .touchUpInside =>
    if form.signInButton.isEnabled then some form.didSignButtonClicked else none
  | .completion failed => if form.outstanding = 0 then none else some (form.completion failed)

/-- The form when it appears. -/
def initial : AuthentificationViewController := storyboard.viewDidLoad

theorem step_touchUpInside {form next : AuthentificationViewController} :
    form.step .touchUpInside = some next ↔
      form.signInButton.isEnabled = true ∧ form.didSignButtonClicked = next := by
  rw [step, Option.ite_none_right_eq_some, Option.some_inj]

theorem step_completion {form next : AuthentificationViewController} {failed : Bool} :
    form.step (.completion failed) = some next ↔
      form.outstanding ≠ 0 ∧ form.completion failed = next := by
  rw [step, Option.ite_none_left_eq_some, Option.some_inj]

/-! ### The verdict -/

/-- The email and the password can be submitted. -/
def CredentialsValid (form : AuthentificationViewController) : Prop :=
  form.emailTextView.text ≠ [] ∧ 6 ≤ form.passwordTextView.text.length

/-- The fields the mode requires are valid. -/
def InputValid (form : AuthentificationViewController) : Prop :=
  form.CredentialsValid ∧
    (form.signInControl = 0 → 6 ≤ form.confirmPasswordTextView.text.length)

/-- A tap starts a request: in Register mode the password must equal the confirmation. -/
def Submits (form : AuthentificationViewController) : Prop :=
  form.signInControl = 0 → form.passwordTextView.text = form.confirmPasswordTextView.text

/-! ### What a check leaves -/

/-- The form a check is given and the one it leaves are related. -/
def Check.Keeps (check : Check)
    (relation : AuthentificationViewController → AuthentificationViewController → Prop) : Prop :=
  ∀ form, relation form (check form).2

/-- What the setters of the checks and of the button keep. Only an email that is empty is warned
of. -/
structure SettersKeep
    (relation : AuthentificationViewController → AuthentificationViewController → Prop) :
    Prop where
  refl : ∀ form, relation form form
  trans : ∀ first second third, relation first second → relation second third →
    relation first third
  emailWarning : ∀ form message, form.emailTextView.text = [] →
    relation form (form.setEmailWarning message)
  passwordWarning : ∀ form message, relation form (form.setPasswordWarning message)
  textColor : ∀ form field color, relation form (form.setTextColor field color)
  button : ∀ form isEnabled, relation form (form.changeSignButtonState isEnabled)

section Keeps

variable {relation : AuthentificationViewController → AuthentificationViewController → Prop}
  (setters : SettersKeep relation)

include setters

theorem Check.Keeps.and {first second : Check} (keepsFirst : first.Keeps relation)
    (keepsSecond : second.Keeps relation) : (first.and second).Keeps relation := by
  intro form
  have kept := keepsFirst form
  unfold Check.and
  split
  · rename_i next held
    rw [held] at kept
    exact setters.trans _ _ _ kept (keepsSecond next)
  · rename_i next held
    rw [held] at kept
    exact kept

theorem isEmailValid_keeps : isEmailValid.Keeps relation := by
  intro form
  unfold isEmailValid
  split
  · rename_i empty
    exact setters.emailWarning form _ (List.isEmpty_iff.mp empty)
  · exact setters.refl form

theorem isPasswordValid_keeps (field : PasswordField) :
    (isPasswordValid field).Keeps relation := by
  intro form
  unfold isPasswordValid
  dsimp only
  split
  · exact setters.passwordWarning form _
  · split
    · exact setters.trans _ _ _ (setters.textColor form field _) (setters.passwordWarning _ _)
    · exact setters.trans _ _ _ (setters.textColor form field _) (setters.passwordWarning _ _)

theorem isInputFieldsValid_keeps : isInputFieldsValid.Keeps relation := by
  have email := isEmailValid_keeps setters
  have password := isPasswordValid_keeps setters
  intro form
  unfold isInputFieldsValid
  split
  · exact (email.and setters ((password .password).and setters (password .confirm))) form
  · exact (email.and setters (password .password)) form

/-- The end of an editing keeps what the setters keep. -/
theorem editingDidEnd_keeps (form : AuthentificationViewController) (field : FormField) :
    relation form (form.editingDidEnd field) := by
  have judged : ∀ check : Check, check.Keeps relation → relation form (judge check form) :=
    fun check kept => setters.trans _ _ _ (kept form) (setters.button _ _)
  have fields := isInputFieldsValid_keeps setters
  have password := isPasswordValid_keeps setters
  cases field with
  | email => exact judged _ ((isEmailValid_keeps setters).and setters fields)
  | password => exact judged _ ((password .password).and setters fields)
  | confirm => exact judged _ ((password .confirm).and setters fields)

end Keeps

/-- The forms differ in their warnings, colors and button only. -/
structure SameInput (first second : AuthentificationViewController) : Prop where
  signInControl : second.signInControl = first.signInControl
  email : second.emailTextView.text = first.emailTextView.text
  password : second.passwordTextView.text = first.passwordTextView.text
  confirm : second.confirmPasswordTextView.text = first.confirmPasswordTextView.text
  requests : second.requests = first.requests
  outstanding : second.outstanding = first.outstanding

theorem SameInput.trans {first second third : AuthentificationViewController}
    (left : SameInput first second) (right : SameInput second third) : SameInput first third :=
  ⟨right.signInControl.trans left.signInControl, right.email.trans left.email,
    right.password.trans left.password, right.confirm.trans left.confirm,
    right.requests.trans left.requests, right.outstanding.trans left.outstanding⟩

theorem SameInput.passwordField {first second : AuthentificationViewController}
    (same : SameInput first second) (field : PasswordField) :
    (second.passwordField field).text = (first.passwordField field).text := by
  cases field with
  | password => exact same.password
  | confirm => exact same.confirm

theorem sameInput_setters : SettersKeep SameInput where
  refl _ := ⟨rfl, rfl, rfl, rfl, rfl, rfl⟩
  trans _ _ _ := SameInput.trans
  emailWarning _ _ _ := ⟨rfl, rfl, rfl, rfl, rfl, rfl⟩
  passwordWarning _ _ := ⟨rfl, rfl, rfl, rfl, rfl, rfl⟩
  textColor _ field _ := by cases field <;> exact ⟨rfl, rfl, rfl, rfl, rfl, rfl⟩
  button _ _ := ⟨rfl, rfl, rfl, rfl, rfl, rfl⟩

theorem isEmailValid_sameInput : isEmailValid.Keeps SameInput :=
  isEmailValid_keeps sameInput_setters

theorem isPasswordValid_sameInput (field : PasswordField) :
    (isPasswordValid field).Keeps SameInput :=
  isPasswordValid_keeps sameInput_setters field

theorem editingDidEnd_sameInput (form : AuthentificationViewController) (field : FormField) :
    SameInput form (form.editingDidEnd field) :=
  editingDidEnd_keeps sameInput_setters form field

/-- A conjunction holds when both checks hold, the second one on the form the first one
leaves. -/
theorem Check.and_fst {first second : Check} {form : AuthentificationViewController} :
    (first.and second form).1 = true ↔
      (first form).1 = true ∧ (second (first form).2).1 = true := by
  unfold Check.and
  rcases first form with ⟨held | held, next⟩ <;> simp

theorem isEmailValid_fst {form : AuthentificationViewController} :
    (isEmailValid form).1 = true ↔ form.emailTextView.text ≠ [] := by
  unfold isEmailValid
  split
  · rename_i empty
    exact iff_of_false Bool.false_ne_true fun present => present (List.isEmpty_iff.mp empty)
  · rename_i present
    exact iff_of_true rfl fun empty => present (List.isEmpty_iff.mpr empty)

theorem isPasswordValid_fst {field : PasswordField} {form : AuthentificationViewController} :
    (isPasswordValid field form).1 = true ↔ 6 ≤ (form.passwordField field).text.length := by
  unfold isPasswordValid
  dsimp only
  split
  · rename_i empty
    rw [List.isEmpty_iff.mp empty]
    exact iff_of_false Bool.false_ne_true (by decide)
  · split
    · rename_i long
      exact iff_of_true rfl long
    · rename_i short
      exact iff_of_false Bool.false_ne_true short

/-- The fields are judged as the mode requires. -/
theorem isInputFieldsValid_fst {form : AuthentificationViewController} :
    (isInputFieldsValid form).1 = true ↔ form.InputValid := by
  have afterEmail := isEmailValid_sameInput form
  have afterPassword := isPasswordValid_sameInput .password (isEmailValid form).2
  unfold isInputFieldsValid InputValid CredentialsValid
  split
  · rename_i register
    rw [Check.and_fst, Check.and_fst, isEmailValid_fst, isPasswordValid_fst,
      isPasswordValid_fst, afterEmail.passwordField, (afterEmail.trans afterPassword).passwordField,
      and_assoc]
    exact and_congr_right fun _ => and_congr_right fun _ => (imp_iff_right register).symm
  · rename_i login
    rw [Check.and_fst, isEmailValid_fst, isPasswordValid_fst, afterEmail.passwordField]
    exact (and_iff_left fun register => absurd register login).symm

theorem SameInput.inputValid {first second : AuthentificationViewController}
    (same : SameInput first second) : second.InputValid ↔ first.InputValid := by
  unfold InputValid CredentialsValid
  rw [same.signInControl, same.email, same.password, same.confirm]

end AuthentificationViewController

end PhotoMap
