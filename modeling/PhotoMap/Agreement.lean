/-
This file compares the two groupings by month. `sortDateByMonth` scans the
sorted dates and compares numbers, `dividePhotosIntoSections` files the photos
under titles as they arrive. Where titles and numbers tell the same months
apart both cut the dates into the same groups, since there is only one way to
do so. They differ on the empty list, where the first one traps.
-/

import PhotoMap.Months
import PhotoMap.Rows
import PhotoMap.Sections

namespace PhotoMap

open Grouping

/-! ### Titles and numbers -/

/-- Two dates have one title exactly when they have one year and one month, and years and months
follow the dates. -/
structure SameMonths (locale : Locale) (formatter : Formatter) : Prop where
  titles : ∀ first second : Date,
    locale.monthYearDate first = locale.monthYearDate second ↔
      ∃ year month, first.yearInt formatter = .ok year ∧ second.yearInt formatter = .ok year ∧
        first.monthInt formatter = .ok month ∧ second.monthInt formatter = .ok month
  ascending : formatter.Ascending

variable {locale : Locale} {formatter : Formatter}

theorem SameMonths.readable (months : SameMonths locale formatter) (date : Date) :
    ∃ year month, date.yearInt formatter = .ok year ∧ date.monthInt formatter = .ok month := by
  obtain ⟨year, month, readYear, -, readMonth, -⟩ := (months.titles date date).mp rfl
  exact ⟨year, month, readYear, readMonth⟩

theorem SameMonths.titles_iff (months : SameMonths locale formatter) (first second : Date) :
    locale.monthYearDate first = locale.monthYearDate second ↔
      first.yearAndMonth formatter = second.yearAndMonth formatter := by
  rw [months.titles]
  constructor
  · rintro ⟨year, month, firstYear, secondYear, firstMonth, secondMonth⟩
    rw [Date.yearAndMonth, Date.yearAndMonth, firstYear, secondYear, firstMonth, secondMonth]
  · intro same
    obtain ⟨sameYear, sameMonth⟩ := Prod.mk.inj same
    obtain ⟨year, month, readYear, readMonth⟩ := months.readable first
    exact ⟨year, month, readYear, sameYear ▸ readYear, readMonth, sameMonth ▸ readMonth⟩

/-! ### The buckets as dates -/

theorem sort_filter (dates : List Date) (keep : Date → Bool) :
    sort (dates.filter keep) = (sort dates).filter keep :=
  sort_unique ((sort_perm dates).filter keep) ((sort_pairwise dates).filter keep)

namespace CategoryViewController

/-- The sorted dates of each bucket, in the order of the dictionary. -/
def sectionDates (controller : CategoryViewController) : List (List Date) :=
  controller.photosbySection.entries.map fun entry => sort (entry.2.map Photo.date)

/-- The dates of a bucket are those of all the photos that have its title. -/
theorem sectionDates_eq {photos : List Photo} {controller : CategoryViewController}
    (sections : controller.groups.Holds locale.month photos) :
    controller.sectionDates = controller.photosbySection.keys.map fun title =>
      (sort (photos.map Photo.date)).filter fun date => locale.monthYearDate date = title := by
  show _ = (controller.photosbySection.entries.map Sigma.fst).map _
  rw [sectionDates, List.map_map]
  refine List.map_congr_left fun entry member => ?_
  have found : controller.groups.buckets.lookup entry.1 = some entry.2 :=
    AList.mem_lookup_iff.mpr member
  rw [(sections.lookup_eq_some found).2]
  show _ = (sort (photos.map Photo.date)).filter _
  rw [← sort_filter, List.filter_map]
  rfl

/-! ### The groupings -/

/-- The groups of `sortDateByMonth` on the dates of the photos are the buckets of
`dividePhotosIntoSections`, from empty sections, up to their order. -/
def GroupingsAgree (locale : Locale) (formatter : Formatter)
    (controller : CategoryViewController) (photos : List Photo) : Prop :=
  ∃ groups,
    DateArrayConversionHelper.sortDateByMonth formatter (photos.map Photo.date) = .ok groups ∧
      groups.Perm ((controller.withGroups Groups.empty).dividePhotosIntoSections locale
        photos).sectionDates

theorem sortDateByMonth_perm (months : SameMonths locale formatter)
    (controller : CategoryViewController) {photos : List Photo} {groups : List (List Date)}
    (returned : DateArrayConversionHelper.sortDateByMonth formatter (photos.map Photo.date) =
      .ok groups) :
    groups.Perm ((controller.withGroups Groups.empty).dividePhotosIntoSections locale
      photos).sectionDates := by
  have sections := divide_holds locale controller photos
  have runs := (DateArrayConversionHelper.sortDateByMonth_runs months.ascending returned).congr
    months.titles_iff
  rw [sectionDates_eq sections]
  refine runs.perm_titles (AList.keys_nodup _) fun title => ?_
  refine sections.keys_perm.mem_iff.trans (sections.mem_titles.trans ?_)
  constructor
  · rintro ⟨photo, member, titled⟩
    exact ⟨photo.date, (sort_perm _).mem_iff.mpr (List.mem_map_of_mem member), titled⟩
  · rintro ⟨date, member, titled⟩
    obtain ⟨photo, stored, rfl⟩ := List.mem_map.mp ((sort_perm _).mem_iff.mp member)
    exact ⟨photo, stored, titled⟩

/-- The groupings agree exactly on the lists that are not empty. -/
theorem groupingsAgree_iff (locale : Locale) (formatter : Formatter)
    (months : SameMonths locale formatter) (controller : CategoryViewController)
    (photos : List Photo) : GroupingsAgree locale formatter controller photos ↔ photos ≠ [] := by
  constructor
  · rintro ⟨groups, returned, -⟩ rfl
    cases returned
  · intro nonempty
    have dated : photos.map Photo.date ≠ [] := fun none => nonempty (List.map_eq_nil_iff.mp none)
    obtain ⟨groups, returned⟩ :=
      DateArrayConversionHelper.sortDateByMonth_returns months.readable dated
    exact ⟨groups, returned, sortDateByMonth_perm months controller returned⟩

/-! ### A spring with titles -/

/-- A device whose titles are those of the months of `spring`. -/
def springTitles : Locale where
  lowercased := id
  monthYearDate date :=
    if date ≤ DateArrayConversionHelper.endOfApril then text "April 2014" else text "May 2014"

theorem springTitles_months : SameMonths springTitles DateArrayConversionHelper.spring where
  titles first second := by
    simp only [DateArrayConversionHelper.spring_yearInt, DateArrayConversionHelper.spring_monthInt,
      Except.ok.injEq, exists_and_left, exists_eq_left', true_and]
    have distinct : text "April 2014" ≠ text "May 2014" := by decide
    unfold springTitles
    dsimp only
    by_cases firstApril : first ≤ DateArrayConversionHelper.endOfApril <;>
      by_cases secondApril : second ≤ DateArrayConversionHelper.endOfApril <;>
        simp [firstApril, secondApril, distinct, distinct.symm]
  ascending := DateArrayConversionHelper.spring_ascending

theorem groupingsAgree_iff_aprilAndMay :
    GroupingsAgree springTitles DateArrayConversionHelper.spring
      (viewDidLoad springTitles aprilAndMay) aprilAndMay ↔ aprilAndMay ≠ [] :=
  groupingsAgree_iff springTitles DateArrayConversionHelper.spring springTitles_months _ _

/-- The empty list traps `sortDateByMonth`, and leaves no sections otherwise. -/
theorem no_photos_disagree :
    ¬ ∀ (locale : Locale) (formatter : Formatter), SameMonths locale formatter →
      ∀ (controller : CategoryViewController) (photos : List Photo),
        GroupingsAgree locale formatter controller photos := by
  intro always
  obtain ⟨groups, returned, -⟩ := always springTitles DateArrayConversionHelper.spring
    springTitles_months (viewDidLoad springTitles []) []
  cases returned

end CategoryViewController

end PhotoMap
