/-
This file models `DateArrayConversionHelper.sortDateByMonth` and the numbers of
a date it compares. The array is sorted and walked once, each date being
compared with its neighbour: it joins the last group when year and month are
the same, and opens a group otherwise. Since years and months follow the dates,
a month that has been left does not come back, so the groups are the runs of
the months.
-/

import Mathlib.Data.List.Sort
import PhotoMap.Photo
import PhotoMap.Runs

namespace PhotoMap

open Binary64 Grouping

/-! ### Dates in order -/

/-- Dates are ordered by their seconds. Swift does not say where `sort()` leaves a date that is
not a number; here it comes last. -/
instance : LinearOrder Date :=
  LinearOrder.lift' (fun date => date.timeIntervalSince1970.place) fun first second same => by
    cases first
    cases second
    exact congrArg Date.mk (Double.place_injective same)

/-- `sort()`. Equal dates are the same date, so there is one sorted array. -/
def sort (dates : List Date) : List Date := dates.insertionSort (· ≤ ·)

theorem sort_perm (dates : List Date) : (sort dates).Perm dates :=
  List.perm_insertionSort _ dates

theorem sort_pairwise (dates : List Date) : (sort dates).Pairwise (· ≤ ·) :=
  List.pairwise_insertionSort _ dates

/-- A sorted array is the one that `sort()` makes of any array of the same dates. -/
theorem sort_unique {dates sorted : List Date} (perm : sorted.Perm dates)
    (ascending : sorted.Pairwise (· ≤ ·)) : sort dates = sorted :=
  ((sort_perm dates).trans perm.symm).eq_of_pairwise
    (fun _ _ _ _ le ge => le_antisymm le ge) (sort_pairwise dates) ascending

/-! ### The year and the month of a date -/

/-- The number of a string of ASCII digits. -/
def magnitude? (digits : Text) : Option Nat :=
  if digits.isEmpty then none
  else (digits.mapM asciiDigit?).map (List.foldl (fun number digit => 10 * number + digit) 0)

/-- `Int(_:)` of a string: at least one ASCII digit, perhaps after a sign, within 64 bits. -/
def int? : Text → Option Int64
  | [] => none
  | sign :: digits =>
    if sign = .ofScalar '-' then (magnitude? digits).bind fun magnitude => int64? (-magnitude)
    else if sign = .ofScalar '+' then (magnitude? digits).bind fun magnitude => int64? magnitude
    else (magnitude? (sign :: digits)).bind fun magnitude => int64? magnitude

/-- What the formatters `yyyy` and `LL` print of a date, in the locale of the device. -/
structure Formatter where
  year : Date → Text
  monthInt : Date → Text

namespace Date

def monthInt (formatter : Formatter) (date : Date) : Except Trap Int64 :=
  force .unwrappedNil (int? (formatter.monthInt date))

def yearInt (formatter : Formatter) (date : Date) : Except Trap Int64 :=
  force .unwrappedNil (int? (formatter.year date))

/-- The condition of the loop: the months are only read when the years are the same. -/
def sameMonth (formatter : Formatter) (date previous : Date) : Except Trap Bool := do
  let year ← date.yearInt formatter
  let previousYear ← previous.yearInt formatter
  if year = previousYear then
    let month ← date.monthInt formatter
    let previousMonth ← previous.monthInt formatter
    return decide (month = previousMonth)
  else return false

end Date

/-! ### The grouping -/

namespace DateArrayConversionHelper

/-- `array[index].append(item)`. -/
def appendAt {Item : Type} (array : List (List Item)) (index : Nat) (item : Item) :
    Except Trap (List (List Item)) := do
  let group ← subscript array index
  return array.set index (group ++ [item])

/-- The variables of the loop. -/
structure Loop where
  resultArray : List (List Date)
  k : Nat

/-- The body of the loop over the sorted array. -/
def body (formatter : Formatter) (inputArray : List Date) (loop : Loop) (i : Nat) :
    Except Trap Loop := do
  let date ← subscript inputArray i
  let previous ← subscript inputArray (i - 1)
  let same ← date.sameMonth formatter previous
  if same then
    let resultArray ← appendAt loop.resultArray loop.k date
    return { loop with resultArray := resultArray }
  else
    let k := loop.k + 1
    let resultArray ← appendAt (loop.resultArray ++ [[]]) k date
    return ⟨resultArray, k⟩

/-- `sortDateByMonth(dateArray:)`. An empty array traps at its first date, before the range
`1 ..< 0` would. -/
def sortDateByMonth (formatter : Formatter) (dateArray : List Date) :
    Except Trap (List (List Date)) := do
  let inputArray := sort dateArray
  let first ← subscript inputArray 0
  let resultArray ← appendAt [[]] 0 first
  let loop ← (List.range' 1 (inputArray.length - 1)).foldlM (body formatter inputArray)
    ⟨resultArray, 0⟩
  return loop.resultArray

end DateArrayConversionHelper

/-! ### Neighbours -/

/-- The year of a date, and within a year its month, do not decrease as the dates go on. -/
structure Formatter.Ascending (formatter : Formatter) : Prop where
  year : ∀ first second : Date, first ≤ second → ∀ firstYear secondYear,
    first.yearInt formatter = .ok firstYear → second.yearInt formatter = .ok secondYear →
      firstYear ≤ secondYear
  month : ∀ first second : Date, first ≤ second → ∀ year firstMonth secondMonth,
    first.yearInt formatter = .ok year → second.yearInt formatter = .ok year →
      first.monthInt formatter = .ok firstMonth → second.monthInt formatter = .ok secondMonth →
        firstMonth ≤ secondMonth

variable {formatter : Formatter}

/-- What is read of a date: its year and its month. -/
def Date.yearAndMonth (formatter : Formatter) (date : Date) :
    Except Trap Int64 × Except Trap Int64 :=
  (date.yearInt formatter, date.monthInt formatter)

/-- A comparison that does not trap has read both years, and both months in a common year. -/
theorem Date.sameMonth_eq_ok {date previous : Date} {same : Bool}
    (compared : date.sameMonth formatter previous = .ok same) :
    ∃ year previousYear, date.yearInt formatter = .ok year ∧
      previous.yearInt formatter = .ok previousYear ∧
      ((year ≠ previousYear ∧ same = false) ∨
        (year = previousYear ∧ ∃ month previousMonth, date.monthInt formatter = .ok month ∧
          previous.monthInt formatter = .ok previousMonth ∧
            same = decide (month = previousMonth))) := by
  obtain ⟨year, readYear, compared⟩ := bind_eq_ok.mp compared
  obtain ⟨previousYear, readPrevious, compared⟩ := bind_eq_ok.mp compared
  refine ⟨year, previousYear, readYear, readPrevious, ?_⟩
  by_cases sameYear : year = previousYear
  · rw [if_pos sameYear] at compared
    obtain ⟨month, readMonth, compared⟩ := bind_eq_ok.mp compared
    obtain ⟨previousMonth, readPreviousMonth, compared⟩ := bind_eq_ok.mp compared
    exact Or.inr ⟨sameYear, month, previousMonth, readMonth, readPreviousMonth,
      (Except.ok.inj compared).symm⟩
  · rw [if_neg sameYear] at compared
    exact Or.inl ⟨sameYear, (Except.ok.inj compared).symm⟩

theorem Date.sameMonth_returns (readable : ∀ date : Date, ∃ year month,
      date.yearInt formatter = .ok year ∧ date.monthInt formatter = .ok month)
    (date previous : Date) : ∃ same, date.sameMonth formatter previous = .ok same := by
  obtain ⟨year, month, readYear, readMonth⟩ := readable date
  obtain ⟨previousYear, previousMonth, readPrevious, readPreviousMonth⟩ := readable previous
  rw [sameMonth, readYear, readPrevious, bind_ok, bind_ok]
  by_cases sameYear : year = previousYear
  · rw [if_pos sameYear, readMonth, readPreviousMonth]
    exact ⟨_, rfl⟩
  · rw [if_neg sameYear]
    exact ⟨_, rfl⟩

theorem Date.sameMonth_true {date previous : Date}
    (compared : date.sameMonth formatter previous = .ok true) :
    previous.yearAndMonth formatter = date.yearAndMonth formatter := by
  obtain ⟨year, previousYear, readYear, readPrevious, ⟨-, differ⟩ |
    ⟨sameYear, month, previousMonth, readMonth, readPreviousMonth, sameMonth⟩⟩ :=
    Date.sameMonth_eq_ok compared
  · exact absurd differ.symm Bool.false_ne_true
  · have months : month = previousMonth := of_decide_eq_true sameMonth.symm
    rw [yearAndMonth, yearAndMonth, readYear, readPrevious, readMonth, readPreviousMonth,
      sameYear, months]

/-- When a date is not in the month of its neighbour, it is not in the month of any date before
it either: a year or month between two equal ones is equal to both. -/
theorem Date.sameMonth_false (ascending : formatter.Ascending) {earlier previous date : Date}
    (compared : date.sameMonth formatter previous = .ok false) (before : earlier ≤ previous)
    (after : previous ≤ date) :
    earlier.yearAndMonth formatter ≠ date.yearAndMonth formatter := by
  intro equal
  obtain ⟨sameYear, sameMonth⟩ := Prod.mk.inj equal
  obtain ⟨year, previousYear, readYear, readPrevious, months⟩ := Date.sameMonth_eq_ok compared
  rw [readYear] at sameYear
  have years : year = previousYear :=
    Int64.le_antisymm (ascending.year _ _ before _ _ sameYear readPrevious)
      (ascending.year _ _ after _ _ readPrevious readYear)
  rcases months with ⟨differ, -⟩ |
    ⟨-, month, previousMonth, readMonth, readPreviousMonth, differ⟩
  · exact differ years
  · rw [readMonth] at sameMonth
    rw [← years] at readPrevious
    have monthsEqual : month = previousMonth :=
      Int64.le_antisymm
        (ascending.month _ _ before _ _ _ sameYear readPrevious sameMonth readPreviousMonth)
        (ascending.month _ _ after _ _ _ readPrevious readYear readPreviousMonth readMonth)
    rw [decide_eq_true monthsEqual] at differ
    cases differ

/-! ### The loop -/

namespace DateArrayConversionHelper

theorem appendAt_last {Item : Type} (others : List (List Item)) (group : List Item)
    (item : Item) :
    appendAt (others ++ [group]) others.length item = .ok (others ++ [group ++ [item]]) := by
  rw [appendAt, subscript, List.getElem?_concat_length, force_some, bind_ok,
    List.set_append_right _ _ (Nat.le_refl _), Nat.sub_self]
  rfl

/-- The loop at a date: it compares the date with the one before it, and appends it to the last
group or to a new one. -/
theorem body_eq (formatter : Formatter) {before after : List Date} {previous date : Date}
    (others : List (List Date)) (group : List Date) :
    body formatter (before ++ previous :: date :: after) ⟨others ++ [group], others.length⟩
        (before.length + 1) =
      date.sameMonth formatter previous >>= fun same =>
        .ok (if same then ⟨others ++ [group ++ [date]], others.length⟩
          else ⟨others ++ [group] ++ [[date]], (others ++ [group]).length⟩) := by
  have atDate : (before ++ previous :: date :: after)[before.length + 1]? = some date := by
    rw [List.getElem?_append_right (Nat.le_add_right _ _), Nat.add_sub_cancel_left]
    rfl
  have atPrevious : (before ++ previous :: date :: after)[before.length + 1 - 1]? =
      some previous := by
    rw [Nat.add_sub_cancel, List.getElem?_append_right (Nat.le_refl _), Nat.sub_self]
    rfl
  rw [body, subscript, subscript, atDate, atPrevious, force_some, force_some, bind_ok, bind_ok]
  refine congrArg (Except.bind _) (funext fun same => ?_)
  by_cases joins : same = true
  · rw [if_pos joins, if_pos joins, appendAt_last]
    rfl
  · have opens := appendAt_last (others ++ [group]) [] date
    rw [List.length_append, List.length_singleton] at opens
    rw [if_neg joins, if_neg joins]
    dsimp only
    rw [opens, List.length_append]
    rfl

/-- The groups are the runs of the dates walked so far, and `k` is the index of the last one. -/
def LoopInvariant (formatter : Formatter) (walked : List Date) (loop : Loop) : Prop :=
  ∃ others group, loop = ⟨others ++ [group], others.length⟩ ∧
    Runs (Date.yearAndMonth formatter) walked (others ++ [group])

/-- One date more, when its comparison does not trap. -/
theorem LoopInvariant.body (ascending : formatter.Ascending) {before after : List Date}
    {previous date : Date} {loop : Loop} {same : Bool}
    (sorted : (before ++ previous :: date :: after).Pairwise (· ≤ ·))
    (holds : LoopInvariant formatter (before ++ [previous]) loop)
    (compared : date.sameMonth formatter previous = .ok same) :
    ∃ next, DateArrayConversionHelper.body formatter (before ++ previous :: date :: after) loop
        (before.length + 1) = .ok next ∧
      LoopInvariant formatter (before ++ [previous] ++ [date]) next := by
  obtain ⟨others, group, rfl, runs⟩ := holds
  rw [body_eq, compared, bind_ok]
  refine ⟨_, rfl, ?_⟩
  have last := runs.last_mem
  by_cases joins : same = true
  · rw [if_pos joins]
    subst joins
    refine ⟨others, group ++ [date], rfl, runs.extend fun other inGroup => ?_⟩
    rw [runs.keyed group (List.mem_append_right _ List.mem_cons_self) other inGroup previous last]
    exact Date.sameMonth_true compared
  · rw [if_neg joins]
    rw [Bool.not_eq_true] at joins
    subst joins
    refine ⟨others ++ [group], [date], rfl, runs.opened fun earlier walked => ?_⟩
    obtain ⟨-, tail, fromBefore⟩ := List.pairwise_append.mp sorted
    have after : previous ≤ date := (List.pairwise_cons.mp tail).1 date List.mem_cons_self
    refine Date.sameMonth_false ascending compared ?_ after
    rcases List.mem_append.mp walked with inBefore | isPrevious
    · exact fromBefore earlier inBefore previous List.mem_cons_self
    · exact le_of_eq (List.mem_singleton.mp isPrevious)

/-- The rest of the loop, when it does not trap. -/
theorem LoopInvariant.foldlM (ascending : formatter.Ascending) {before rest : List Date}
    {previous : Date} {loop final : Loop}
    (sorted : (before ++ previous :: rest).Pairwise (· ≤ ·))
    (holds : LoopInvariant formatter (before ++ [previous]) loop)
    (looped : (List.range' (before.length + 1) rest.length).foldlM
      (DateArrayConversionHelper.body formatter (before ++ previous :: rest)) loop = .ok final) :
    LoopInvariant formatter (before ++ previous :: rest) final := by
  induction rest generalizing before previous loop with
  | nil =>
    rw [← Except.ok.inj looped]
    exact holds
  | cons date rest inductionHypothesis =>
    rw [List.length_cons, List.range'_succ, List.foldlM_cons] at looped
    obtain ⟨next, walked, looped⟩ := bind_eq_ok.mp looped
    obtain ⟨same, compared⟩ : ∃ same, date.sameMonth formatter previous = .ok same := by
      obtain ⟨others, group, rfl, -⟩ := holds
      rw [body_eq] at walked
      obtain ⟨same, compared, -⟩ := bind_eq_ok.mp walked
      exact ⟨same, compared⟩
    obtain ⟨found, isNext, holds⟩ := LoopInvariant.body ascending sorted holds compared
    rw [walked, Except.ok.injEq] at isNext
    have split : before ++ previous :: date :: rest = before ++ [previous] ++ date :: rest := by
      rw [List.append_assoc, List.singleton_append]
    rw [split] at sorted looped ⊢
    refine inductionHypothesis sorted (isNext ▸ holds) ?_
    rw [List.length_append, List.length_singleton]
    exact looped

/-- A call that does not trap has dates, and returns the runs of their months. -/
theorem sortDateByMonth_runs (ascending : formatter.Ascending) {dates : List Date}
    {groups : List (List Date)} (returned : sortDateByMonth formatter dates = .ok groups) :
    Runs (Date.yearAndMonth formatter) (sort dates) groups := by
  obtain ⟨first, found, returned⟩ := bind_eq_ok.mp returned
  have sorted := sort_pairwise dates
  cases dates : sort dates with
  | nil =>
    rw [dates] at found
    cases found
  | cons head rest =>
    rw [dates] at found returned sorted
    have isFirst : head = first := Except.ok.inj found
    rw [show appendAt [[]] 0 first = .ok [[first]] from rfl, bind_ok] at returned
    obtain ⟨final, looped, returned⟩ := bind_eq_ok.mp returned
    have started : LoopInvariant formatter ([] ++ [head]) ⟨[[first]], 0⟩ :=
      ⟨[], [first], rfl, isFirst ▸ Runs.single _ head⟩
    have walked : LoopInvariant formatter ([] ++ head :: rest) final :=
      LoopInvariant.foldlM ascending sorted started looped
    obtain ⟨others, group, rfl, runs⟩ := walked
    rw [← Except.ok.inj returned]
    exact runs

/-- The loop does not trap on dates that have a year and a month. -/
theorem loop_returns (readable : ∀ date : Date, ∃ year month,
      date.yearInt formatter = .ok year ∧ date.monthInt formatter = .ok month)
    (before rest : List Date) (previous : Date) (others : List (List Date))
    (group : List Date) :
    ∃ final, (List.range' (before.length + 1) rest.length).foldlM
      (DateArrayConversionHelper.body formatter (before ++ previous :: rest))
        ⟨others ++ [group], others.length⟩ = .ok final := by
  induction rest generalizing before previous others group with
  | nil => exact ⟨_, rfl⟩
  | cons date rest inductionHypothesis =>
    obtain ⟨same, compared⟩ := Date.sameMonth_returns readable date previous
    rw [List.length_cons, List.range'_succ, List.foldlM_cons, body_eq, compared, bind_ok,
      bind_ok, ← List.singleton_append, ← List.append_assoc]
    have length : before.length + 1 + 1 = (before ++ [previous]).length + 1 := by
      rw [List.length_append, List.length_singleton]
    rw [length]
    by_cases joins : same = true
    · rw [if_pos joins]
      exact inductionHypothesis _ date others (group ++ [date])
    · rw [if_neg joins]
      exact inductionHypothesis _ date (others ++ [group]) [date]

theorem sortDateByMonth_returns (readable : ∀ date : Date, ∃ year month,
      date.yearInt formatter = .ok year ∧ date.monthInt formatter = .ok month)
    {dates : List Date} (nonempty : dates ≠ []) :
    ∃ groups, sortDateByMonth formatter dates = .ok groups := by
  have sortedNonempty : sort dates ≠ [] := by
    intro empty
    have perm := sort_perm dates
    rw [empty, List.nil_perm] at perm
    exact nonempty perm
  obtain ⟨first, rest, sorted⟩ := List.exists_cons_of_ne_nil sortedNonempty
  have looped : ∃ final, (List.range' 1 rest.length).foldlM (body formatter (first :: rest))
      ⟨[[first]], 0⟩ = .ok final := loop_returns readable [] rest first [] [first]
  obtain ⟨final, looped⟩ := looped
  refine ⟨final.resultArray, ?_⟩
  rw [sortDateByMonth, sorted]
  show (List.range' 1 rest.length).foldlM (body formatter (first :: rest)) ⟨[[first]], 0⟩ >>= _ =
    _
  rw [looped, bind_ok]
  rfl

/-- The groups of a call that does not trap are the dates in ascending order; none is empty, the
dates of a group have one year and one month, and those of two groups do not. -/
theorem sortDateByMonth_groups (formatter : Formatter) (ascending : formatter.Ascending)
    (dates : List Date) (groups : List (List Date))
    (returned : sortDateByMonth formatter dates = .ok groups) :
    groups.flatten.Perm dates ∧ groups.flatten.Pairwise (· ≤ ·) ∧
      (∀ group ∈ groups, group ≠ []) ∧
      (∀ group ∈ groups, ∀ first ∈ group, ∀ second ∈ group,
        first.yearInt formatter = second.yearInt formatter ∧
          first.monthInt formatter = second.monthInt formatter) ∧
      groups.Pairwise fun earlier later => ∀ first ∈ earlier, ∀ second ∈ later,
        ¬ (first.yearInt formatter = second.yearInt formatter ∧
          first.monthInt formatter = second.monthInt formatter) := by
  have runs := sortDateByMonth_runs ascending returned
  refine ⟨?_, ?_, runs.nonempty, fun group member first inFirst second inSecond => ?_, ?_⟩
  · rw [runs.flatten]
    exact sort_perm dates
  · rw [runs.flatten]
    exact sort_pairwise dates
  · exact Prod.mk.inj (runs.keyed group member first inFirst second inSecond)
  · refine runs.apart.imp fun {_ _} apart first inFirst second inSecond same => ?_
    exact apart first inFirst second inSecond (Prod.ext same.1 same.2)

/-! ### A spring -/

/-- The last second of April 2014. -/
def endOfApril : Date := ⟨.ofInt64 1398902399⟩

/-- Formatters that know two months. -/
def spring : Formatter where
  year _ := text "2014"
  monthInt date := if date ≤ endOfApril then text "04" else text "05"

theorem spring_yearInt (date : Date) : date.yearInt spring = .ok 2014 := rfl

theorem spring_monthInt (date : Date) :
    date.monthInt spring = .ok (if date ≤ endOfApril then 4 else 5) := by
  unfold Date.monthInt spring
  dsimp only
  split <;> rfl

theorem spring_ascending : spring.Ascending where
  year first second _ firstYear secondYear readFirst readSecond := by
    rw [spring_yearInt] at readFirst readSecond
    rw [← Except.ok.inj readFirst, ← Except.ok.inj readSecond]
    exact Int64.le_refl _
  month first second before year firstMonth secondMonth _ _ readFirst readSecond := by
    rw [spring_monthInt] at readFirst readSecond
    rw [← Except.ok.inj readFirst, ← Except.ok.inj readSecond]
    by_cases secondApril : second ≤ endOfApril
    · rw [if_pos secondApril, if_pos (before.trans secondApril)]
      exact Int64.le_refl _
    · rw [if_neg secondApril]
      split <;> decide

/-- A date of May before one of April. -/
def mayAndApril : List Date := [⟨.ofInt64 1399272616⟩, ⟨.ofInt64 1398667816⟩]

theorem sortDateByMonth_groups_spring :
    ∃ groups, sortDateByMonth spring mayAndApril = .ok groups ∧
      groups.flatten.Perm mayAndApril ∧ groups.flatten.Pairwise (· ≤ ·) ∧
      (∀ group ∈ groups, group ≠ []) ∧
      (∀ group ∈ groups, ∀ first ∈ group, ∀ second ∈ group,
        first.yearInt spring = second.yearInt spring ∧
          first.monthInt spring = second.monthInt spring) ∧
      groups.Pairwise fun earlier later => ∀ first ∈ earlier, ∀ second ∈ later,
        ¬ (first.yearInt spring = second.yearInt spring ∧
          first.monthInt spring = second.monthInt spring) := by
  have returned : sortDateByMonth spring mayAndApril =
      .ok [[⟨.ofInt64 1398667816⟩], [⟨.ofInt64 1399272616⟩]] := by decide
  exact ⟨_, returned, sortDateByMonth_groups spring spring_ascending mayAndApril _ returned⟩

end DateArrayConversionHelper

end PhotoMap
