/-
This file proves that the sections of the table are a stable grouping of the
photos by month. `dividePhotosIntoSections` keeps a list of titles and a
dictionary of buckets in step by two branches, and it can be called again on
more photos: any calls on lists, one after another, leave what one call on the
photos of all the lists leaves.
-/

import PhotoMap.Table

namespace PhotoMap

open Grouping

namespace CategoryViewController

variable {locale : Locale}

/-! ### Division in batches -/

/-- Dividing one list after another is dividing all their photos at once. -/
theorem divide_flatten (controller : CategoryViewController) (batches : List (List Photo)) :
    batches.foldl (dividePhotosIntoSections locale) controller =
      controller.dividePhotosIntoSections locale batches.flatten := by
  induction batches generalizing controller with
  | nil => rfl
  | cons photos rest inductionHypothesis =>
    rw [List.foldl_cons, inductionHypothesis, List.flatten_cons]
    unfold dividePhotosIntoSections
    rw [List.foldl_append]

/-- The sections of photos that were divided from empty ones are their groups by month. -/
theorem divide_holds (locale : Locale) (controller : CategoryViewController)
    (photos : List Photo) :
    ((controller.withGroups Groups.empty).dividePhotosIntoSections locale photos).groups.Holds
      locale.month photos := by
  rw [dividePhotosIntoSections_eq]
  exact (Groups.empty_holds locale.month).placeAll photos

/-- From empty sections, batches leave the state one call on all the photos leaves, and the
sections are the stable grouping of the photos by month. -/
theorem divide_batches (locale : Locale) (controller : CategoryViewController)
    (batches : List (List Photo)) :
    batches.foldl (dividePhotosIntoSections locale) (controller.withGroups Groups.empty) =
        (controller.withGroups Groups.empty).dividePhotosIntoSections locale batches.flatten ∧
      (batches.foldl (dividePhotosIntoSections locale)
        (controller.withGroups Groups.empty)).groups.StablePartition locale.month
          batches.flatten := by
  refine ⟨divide_flatten _ batches, ?_⟩
  rw [divide_flatten]
  exact (divide_holds locale controller batches.flatten).stablePartition

end CategoryViewController

end PhotoMap
