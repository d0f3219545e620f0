/-
This file holds the Swift values the rest of the development is written with:
strings as sequences of characters, and computations that may trap. A character
is an extended grapheme cluster, kept as its scalars in canonical normal form,
so that the length of a string is Swift's `count` and equality is Swift's `==`.
Strings are joined character by character; a combining mark at the beginning of
a string is a character of its own here, and stays one. A trap ends the process,
so nothing runs after it.
-/

import Mathlib.Data.List.Basic

namespace PhotoMap

/-! ### Strings -/

/-- A Swift `Character`: the scalars of one grapheme cluster. -/
structure Character where
  scalars : List Char
deriving DecidableEq

/-- A Swift `String`. -/
abbrev Text := List Character

/-- The character of one scalar. -/
def Character.ofScalar (scalar : Char) : Character := ⟨[scalar]⟩

/-- An ASCII string literal. -/
def text (literal : String) : Text := literal.toList.map Character.ofScalar

/-- The value of an ASCII digit. -/
def asciiDigit? (character : Character) : Option Nat :=
  match character.scalars with
  | [scalar] => if scalar.isDigit then some (scalar.toNat - '0'.toNat) else none
  | _ => none

/-- The decimal digits of a number, as `%i` prints them. -/
def decimal (number : Nat) : Text := (Nat.toDigits 10 number).map Character.ofScalar

/-! ### Traps -/

/-- What ends the process. -/
inductive Trap where
  /-- `!` on `nil`. -/
  | unwrappedNil
  /-- `as!` to another type. -/
  | castFailed
  /-- `Int(_:)` of a number no `Int` holds. -/
  | integerOverflow
  /-- A subscript outside its array. -/
  | indexOutOfRange
  /-- An exception of the Firebase path validation. -/
  | invalidPath
deriving DecidableEq

/-- The value of an optional that is forced: `!` and `as!`. -/
def force {Value : Type} (trap : Trap) : Option Value → Except Trap Value
  | some value => .ok value
  | none => .error trap

@[simp]
theorem force_some {Value : Type} (trap : Trap) (value : Value) :
    force trap (some value) = .ok value := rfl

@[simp]
theorem force_none {Value : Type} (trap : Trap) :
    force trap (none : Option Value) = .error trap := rfl

/-- An array subscript. -/
def subscript {Value : Type} (array : List Value) (index : Nat) : Except Trap Value :=
  force .indexOutOfRange array[index]?

theorem bind_ok {First Second : Type} (value : First)
    (continuation : First → Except Trap Second) :
    (Except.ok value >>= continuation) = continuation value := rfl

theorem bind_error {First Second : Type} (trap : Trap)
    (continuation : First → Except Trap Second) :
    ((Except.error trap : Except Trap First) >>= continuation) = .error trap := rfl

/-- A computation in two parts succeeds when both do. -/
theorem bind_eq_ok {First Second : Type} {first : Except Trap First}
    {continuation : First → Except Trap Second} {result : Second} :
    first >>= continuation = .ok result ↔
      ∃ value, first = .ok value ∧ continuation value = .ok result := by
  cases first with
  | ok value => simp only [bind_ok, Except.ok.injEq, exists_eq_left']
  | error trap => simp [bind_error]

/-- Forcing an optional computation in two parts forces each part. -/
theorem force_bind {First Second : Type} (trap : Trap) (first : Option First)
    (continuation : First → Option Second) :
    force trap (first.bind continuation) =
      force trap first >>= fun value => force trap (continuation value) := by
  cases first <;> rfl

theorem force_eq_ok {Value : Type} {trap : Trap} {optional : Option Value} {value : Value} :
    force trap optional = .ok value ↔ optional = some value := by
  cases optional <;> simp

theorem subscript_eq_ok {Item : Type} {items : List Item} {index : Nat} {item : Item} :
    subscript items index = .ok item ↔ items[index]? = some item := by
  rw [subscript, force_eq_ok]

theorem subscript_of_lt {Item : Type} {items : List Item} {index : Nat}
    (bound : index < items.length) : subscript items index = .ok items[index] :=
  subscript_eq_ok.mpr (List.getElem?_eq_getElem bound)

end PhotoMap
