/-
This file follows the date of a photo into the database and back. The encoder
stores the seconds of the date without their fraction, and the decoder rebuilds
a date from them. The rebuilt date is less than a second away, in the order of
the original dates, and stored as the same number again. Dropping the fraction
rounds toward 1970: after it to the beginning of the second, before it to the
end, which is the beginning of the next one. So a date of the last second of a
month before 1970 is rebuilt in the month that follows.
-/

import PhotoMap.Months
import PhotoMap.Record
import PhotoMap.Search

namespace PhotoMap

open Binary64

/-! ### The timestamp of a record -/

namespace Repo

/-- The encoder stores the timestamp for the photo. -/
def Stores (photo : Photo) (timestamp : Int64) : Prop :=
  ∃ entries, parametersForFB photo = .ok entries ∧
    field entries timestampFB Value.asInt? = some timestamp

/-- The decoder rebuilds the photo from a dictionary that has the timestamp. -/
def Rebuilds (timestamp : Int64) (loaded : Photo) : Prop :=
  ∃ key properties, field properties timestampFB Value.asInt? = some timestamp ∧
    getPhotoFromSnapShot key (.dictionary properties) = .ok (some loaded)

theorem stores_iff {photo : Photo} {timestamp : Int64} :
    Stores photo timestamp ↔
      photo.name ≠ none ∧ photo.date.timeIntervalSince1970.toInt64? = some timestamp := by
  constructor
  · rintro ⟨entries, encoded, found⟩
    obtain ⟨name, seconds, named, dated, rfl⟩ := parametersForFB_eq_ok.mp encoded
    have same : some seconds = some timestamp := found
    rw [named, dated, same]
    exact ⟨Option.some_ne_none name, rfl⟩
  · rintro ⟨named, dated⟩
    obtain ⟨name, named⟩ := Option.ne_none_iff_exists'.mp named
    exact ⟨_, parametersForFB_eq_ok.mpr ⟨name, timestamp, named, dated, rfl⟩, rfl⟩

theorem ofEntries?_timestamp {properties : Entries} {record : Record}
    (holds : Record.ofEntries? properties = some record) :
    field properties timestampFB Value.asInt? = some record.timestamp := by
  obtain ⟨imageurl, -, holds⟩ := Option.bind_eq_some_iff.mp holds
  obtain ⟨timestamp, found, holds⟩ := Option.bind_eq_some_iff.mp holds
  obtain ⟨latitude, -, holds⟩ := Option.bind_eq_some_iff.mp holds
  obtain ⟨longitude, -, holds⟩ := Option.bind_eq_some_iff.mp holds
  obtain ⟨category, -, holds⟩ := Option.bind_eq_some_iff.mp holds
  rw [found, ← Option.some.inj holds]

/-- The seconds of the rebuilt date are the timestamp. -/
theorem Rebuilds.seconds {timestamp : Int64} {loaded : Photo}
    (rebuilds : Rebuilds timestamp loaded) :
    loaded.date.timeIntervalSince1970 = .ofInt64 timestamp := by
  obtain ⟨key, properties, found, decoded⟩ := rebuilds
  rw [getPhotoFromSnapShot_dictionary] at decoded
  obtain ⟨record, holds, decoded⟩ := bind_eq_ok.mp decoded
  have read := ofEntries?_timestamp (force_eq_ok.mp holds)
  rw [found, Option.some_inj] at read
  rw [← Option.some.inj (Except.ok.inj decoded), read]
  rfl

/-- Every timestamp is that of some record. -/
theorem rebuilds_exists (timestamp : Int64) : ∃ loaded, Rebuilds timestamp loaded := by
  refine ⟨Record.photo ⟨none, [], timestamp, .ofInt64 53, .ofInt64 27, []⟩ [], [],
    [⟨imageURLFB, .string []⟩, ⟨timestampFB, .integer timestamp⟩,
      ⟨latitudeFB, .double (.ofInt64 53)⟩, ⟨longitudeFB, .double (.ofInt64 27)⟩,
      ⟨categoryFB, .string []⟩], rfl, ?_⟩
  rw [getPhotoFromSnapShot_dictionary]
  rfl

end Repo

/-! ### Seconds and months -/

/-- The months begin on whole seconds: a date has the title of the second it lies in. -/
def Locale.WholeSeconds (locale : Locale) (title : ℤ → Text) : Prop :=
  ∀ date value, date.timeIntervalSince1970.value? = some value →
    locale.monthYearDate date = title ⌊value⌋

/-- A month begins at the second. -/
def BeginsMonth (title : ℤ → Text) (second : ℤ) : Prop := title (second - 1) ≠ title second

/-- Dates are ordered as their seconds are. -/
theorem Date.le_iff {first second : Date} {value other : ℚ}
    (firstValue : first.timeIntervalSince1970.value? = some value)
    (secondValue : second.timeIntervalSince1970.value? = some other) :
    first ≤ second ↔ value ≤ other := by
  show first.timeIntervalSince1970.place ≤ second.timeIntervalSince1970.place ↔ _
  rw [Double.place_of_value? firstValue, Double.place_of_value? secondValue,
    Prod.Lex.toLex_le_toLex]
  simp

/-- What the date that is rebuilt from the timestamp of a photo has in common with its date. -/
structure KeepsDate (photo : Photo) (timestamp : Int64) (loaded : Photo) : Prop where
  near : ∃ seconds rebuilt, photo.date.timeIntervalSince1970.value? = some seconds ∧
    loaded.date.timeIntervalSince1970.value? = some rebuilt ∧ |rebuilt - seconds| < 1
  again : ∀ saved : Photo, saved.name ≠ none → saved.date = loaded.date →
    Repo.Stores saved timestamp
  ordered : ∀ later laterTimestamp laterLoaded, Repo.Stores later laterTimestamp →
    Repo.Rebuilds laterTimestamp laterLoaded → photo.date ≤ later.date →
      loaded.date ≤ laterLoaded.date
  month : ∀ (locale : Locale) title, locale.WholeSeconds title →
    ∀ seconds, photo.date.timeIntervalSince1970.value? = some seconds →
      (locale.monthYearDate loaded.date = locale.monthYearDate photo.date ↔
        (seconds < 0 → (timestamp.toInt : ℚ) ≠ seconds → ¬ BeginsMonth title timestamp.toInt))

/-- The rebuilt date is in the month of the date, unless that is a fraction of a second before
1970 and a month begins at the next whole second. -/
theorem month_iff {locale : Locale} {title : ℤ → Text} (calendar : locale.WholeSeconds title)
    {date rebuilt : Date} {seconds : ℚ}
    (value : date.timeIntervalSince1970.value? = some seconds)
    (whole : rebuilt.timeIntervalSince1970.value? = some (truncate seconds : ℚ)) :
    locale.monthYearDate rebuilt = locale.monthYearDate date ↔
      (seconds < 0 → (truncate seconds : ℚ) ≠ seconds →
        ¬ BeginsMonth title (truncate seconds)) := by
  rw [calendar date seconds value, calendar rebuilt _ whole, Int.floor_intCast]
  by_cases kept : 0 ≤ seconds ∨ (truncate seconds : ℚ) = seconds
  · rw [floor_eq_truncate kept]
    refine iff_of_true rfl fun negative fraction => ?_
    exact absurd kept (not_or.mpr ⟨not_le.mpr negative, fraction⟩)
  · obtain ⟨negative, fraction⟩ := not_or.mp kept
    rw [floor_eq_truncate_sub_one (not_le.mp negative) fraction, imp_iff_right (not_le.mp negative),
      imp_iff_right fraction, BeginsMonth, not_not, eq_comm]

/-- Every date that fits in an `Int` is stored and rebuilt: less than a second away, with the
same timestamp, in the order of the dates, and in its month unless it is a fraction of a second
before 1970 and a month begins at the next whole second. -/
theorem storedDate_kept (photo : Photo) (named : photo.name ≠ none)
    (fits : photo.date.timeIntervalSince1970.toInt64? ≠ none) :
    ∃ timestamp, Repo.Stores photo timestamp ∧ (∃ loaded, Repo.Rebuilds timestamp loaded) ∧
      ∀ loaded, Repo.Rebuilds timestamp loaded → KeepsDate photo timestamp loaded := by
  obtain ⟨timestamp, converted⟩ := Option.ne_none_iff_exists'.mp fits
  obtain ⟨seconds, value, whole, back⟩ := Double.ofInt64_toInt64? converted
  refine ⟨timestamp, Repo.stores_iff.mpr ⟨named, converted⟩, Repo.rebuilds_exists timestamp,
    fun loaded rebuilds => ?_⟩
  rw [← rebuilds.seconds] at back
  refine ⟨⟨seconds, _, value, back, abs_truncate_sub_lt seconds⟩, ?_, ?_, ?_⟩
  · intro saved savedName same
    rw [Repo.stores_iff, same, rebuilds.seconds]
    exact ⟨savedName, Double.toInt64?_ofInt64 converted⟩
  · intro later laterTimestamp laterLoaded stores laterRebuilds le
    obtain ⟨other, otherValue, -, otherBack⟩ :=
      Double.ofInt64_toInt64? (Repo.stores_iff.mp stores).2
    rw [← laterRebuilds.seconds] at otherBack
    rw [Date.le_iff back otherBack]
    exact_mod_cast truncate_mono ((Date.le_iff value otherValue).mp le)
  · intro locale title calendar exactSeconds sameValue
    rw [value, Option.some_inj] at sameValue
    subst sameValue
    rw [whole]
    exact month_iff calendar value back

/-! ### New Year's Eve of 1969 -/

/-- Half a second before 1970. -/
def newYearsEve : Date :=
  ⟨.finite (-1 / 2) ⟨-1, -1, by norm_num, by norm_num, by norm_num, by norm_num⟩⟩

def evePhoto : Photo := { Repo.lakePhoto with date := newYearsEve }

/-- The title of a second: it is 1970 from the second zero on. -/
def yearTitle (second : ℤ) : Text :=
  if second < 0 then text "December 1969" else text "January 1970"

/-- A device whose months begin at the second zero. -/
def newYear : Locale where
  lowercased := id
  monthYearDate date :=
    (date.timeIntervalSince1970.value?.map fun value => yearTitle ⌊value⌋).getD []

theorem newYear_wholeSeconds : newYear.WholeSeconds yearTitle := by
  intro date value finite
  show (date.timeIntervalSince1970.value?.map _).getD [] = _
  rw [finite, Option.map_some, Option.getD_some]

theorem evePhoto_converted : evePhoto.date.timeIntervalSince1970.toInt64? = some 0 := by
  have whole : truncate (-1 / 2) = 0 := by
    rw [truncate_of_nonpos (by norm_num)]
    norm_num
  show int64? (truncate (-1 / 2)) = some 0
  rw [whole]
  decide

theorem storedDate_kept_eve :
    ∃ timestamp, Repo.Stores evePhoto timestamp ∧ (∃ loaded, Repo.Rebuilds timestamp loaded) ∧
      ∀ loaded, Repo.Rebuilds timestamp loaded → KeepsDate evePhoto timestamp loaded :=
  storedDate_kept evePhoto (by decide) (by rw [evePhoto_converted]; decide)

/-- The photo of the last half second of 1969 is rebuilt in 1970. -/
theorem eve_moves_to_new_year :
    ¬ ∀ (locale : Locale) (title : ℤ → Text), locale.WholeSeconds title →
      ∀ (photo : Photo) (timestamp : Int64) (loaded : Photo), Repo.Stores photo timestamp →
        Repo.Rebuilds timestamp loaded →
          locale.monthYearDate loaded.date = locale.monthYearDate photo.date := by
  intro always
  obtain ⟨loaded, rebuilds⟩ := Repo.rebuilds_exists 0
  have stores : Repo.Stores evePhoto 0 :=
    Repo.stores_iff.mpr ⟨by decide, evePhoto_converted⟩
  have same := always newYear yearTitle newYear_wholeSeconds evePhoto 0 loaded stores rebuilds
  obtain ⟨seconds, value, whole, back⟩ := Double.ofInt64_toInt64? evePhoto_converted
  rw [← rebuilds.seconds] at back
  cases value
  have begins := (month_iff newYear_wholeSeconds rfl back).mp same (by norm_num)
  rw [← whole, Int64.toInt_zero] at begins
  have midnight : BeginsMonth yearTitle 0 := by
    show yearTitle (0 - 1) ≠ yearTitle 0
    decide
  exact begins (by norm_num) midnight

end PhotoMap
