/-
This file cuts a list into the runs of its keys: groups that follow one another
in the list, each of one key, and one for each key. Such a cut is grown from the
front: an item joins the last group when it has its key, and opens a group when
its key is new. There is only one cut, so whoever gathers the items of each key
in another way, in any order of the keys, has the same groups.
-/

import Mathlib.Data.List.Basic
import Mathlib.Data.List.Nodup
import Mathlib.Data.List.Perm.Basic

namespace Grouping

variable {Item Key : Type} {key : Item → Key} {items : List Item} {groups : List (List Item)}

/-- The groups are the items again, one group after another; none is empty, the items of a group
have one key, and those of two groups different ones. -/
structure Runs (key : Item → Key) (items : List Item) (groups : List (List Item)) : Prop where
  flatten : groups.flatten = items
  nonempty : ∀ group ∈ groups, group ≠ []
  keyed : ∀ group ∈ groups, ∀ first ∈ group, ∀ second ∈ group, key first = key second
  apart : groups.Pairwise fun earlier later =>
    ∀ first ∈ earlier, ∀ second ∈ later, key first ≠ key second

namespace Runs

/-! ### Growing runs -/

theorem single (key : Item → Key) (item : Item) : Runs key [item] [[item]] where
  flatten := rfl
  nonempty group member := by
    rw [List.mem_singleton.mp member]
    exact List.cons_ne_nil _ _
  keyed group member first inFirst second inSecond := by
    rw [List.mem_singleton.mp member] at inFirst inSecond
    rw [List.mem_singleton.mp inFirst, List.mem_singleton.mp inSecond]
  apart := List.pairwise_singleton _ _

/-- The last item is in the last group. -/
theorem last_mem {before : List Item} {last : Item} {others : List (List Item)}
    {group : List Item} (runs : Runs key (before ++ [last]) (others ++ [group])) :
    last ∈ group := by
  have flatten := runs.flatten
  rw [List.flatten_append, List.flatten_singleton] at flatten
  have nonempty : group ≠ [] := runs.nonempty group (List.mem_append_right _ List.mem_cons_self)
  have same := congrArg List.getLast? flatten
  rw [List.getLast?_append_of_ne_nil _ nonempty, List.getLast?_concat] at same
  exact List.mem_of_getLast? same

/-- An item of the key of the last group joins it. -/
theorem extend {others : List (List Item)} {group : List Item} {item : Item}
    (runs : Runs key items (others ++ [group])) (same : ∀ other ∈ group, key other = key item) :
    Runs key (items ++ [item]) (others ++ [group ++ [item]]) where
  flatten := by
    rw [← runs.flatten]
    simp only [List.flatten_append, List.flatten_singleton, List.append_assoc]
  nonempty found member := by
    rcases List.mem_append.mp member with old | new
    · exact runs.nonempty found (List.mem_append_left _ old)
    · rw [List.mem_singleton.mp new]
      exact List.append_ne_nil_of_right_ne_nil _ (List.cons_ne_nil _ _)
  keyed found member first inFirst second inSecond := by
    rcases List.mem_append.mp member with old | new
    · exact runs.keyed found (List.mem_append_left _ old) first inFirst second inSecond
    · have own : ∀ other ∈ group ++ [item], key other = key item := by
        intro other inGroup
        rcases List.mem_append.mp inGroup with earlier | last
        · exact same other earlier
        · rw [List.mem_singleton.mp last]
      rw [List.mem_singleton.mp new] at inFirst inSecond
      rw [own first inFirst, own second inSecond]
  apart := by
    obtain ⟨old, -, between⟩ := List.pairwise_append.mp runs.apart
    rw [List.pairwise_append]
    refine ⟨old, List.pairwise_singleton _ _, fun earlier inOthers later isLast => ?_⟩
    rw [List.mem_singleton.mp isLast]
    intro first inFirst second inSecond
    have apart := between earlier inOthers group List.mem_cons_self first inFirst
    rcases List.mem_append.mp inSecond with inGroup | last
    · exact apart second inGroup
    · -- The last group has an item, and the new one has its key.
      obtain ⟨other, inGroup⟩ := List.exists_mem_of_ne_nil group
        (runs.nonempty group (List.mem_append_right _ List.mem_cons_self))
      rw [List.mem_singleton.mp last, ← same other inGroup]
      exact apart other inGroup

/-- An item of a new key opens a group. -/
theorem opened {item : Item} (runs : Runs key items groups)
    (fresh : ∀ other ∈ items, key other ≠ key item) :
    Runs key (items ++ [item]) (groups ++ [[item]]) where
  flatten := by rw [List.flatten_append, runs.flatten, List.flatten_singleton]
  nonempty group member := by
    rcases List.mem_append.mp member with old | new
    · exact runs.nonempty group old
    · rw [List.mem_singleton.mp new]
      exact List.cons_ne_nil _ _
  keyed group member first inFirst second inSecond := by
    rcases List.mem_append.mp member with old | new
    · exact runs.keyed group old first inFirst second inSecond
    · rw [List.mem_singleton.mp new] at inFirst inSecond
      rw [List.mem_singleton.mp inFirst, List.mem_singleton.mp inSecond]
  apart := by
    rw [List.pairwise_append]
    refine ⟨runs.apart, List.pairwise_singleton _ _, fun earlier inGroups later isNew => ?_⟩
    rw [List.mem_singleton.mp isNew]
    intro first inFirst second isItem
    rw [List.mem_singleton.mp isItem]
    refine fresh first ?_
    rw [← runs.flatten]
    exact List.mem_flatten.mpr ⟨earlier, inGroups, inFirst⟩

/-! ### There is one cut -/

/-- Runs of one key are runs of any other that tells the same items apart. -/
theorem congr {Other : Type} {other : Item → Other} (runs : Runs key items groups)
    (same : ∀ first second, other first = other second ↔ key first = key second) :
    Runs other items groups where
  flatten := runs.flatten
  nonempty := runs.nonempty
  keyed group member first inFirst second inSecond :=
    (same first second).mpr (runs.keyed group member first inFirst second inSecond)
  apart := runs.apart.imp fun {_ _} apart first inFirst second inSecond equal =>
    apart first inFirst second inSecond ((same first second).mp equal)

theorem nodup (runs : Runs key items groups) : groups.Nodup := by
  refine runs.apart.imp_of_mem fun {earlier later} first _ apart same => ?_
  obtain ⟨item, inGroup⟩ := List.exists_mem_of_ne_nil earlier (runs.nonempty earlier first)
  exact apart item inGroup item (same ▸ inGroup) rfl

variable [DecidableEq Key]

/-- A group is what the key of one of its items leaves of the list. -/
theorem eq_filter {group : List Item} {item : Item} (runs : Runs key items groups)
    (member : group ∈ groups) (inGroup : item ∈ group) :
    group = items.filter fun other => key other = key item := by
  obtain ⟨before, after, rfl⟩ := List.append_of_mem member
  obtain ⟨-, rest, fromBefore⟩ := List.pairwise_append.mp runs.apart
  have none : ∀ others : List (List Item),
      (∀ other ∈ others.flatten, key other ≠ key item) →
        others.flatten.filter (fun other => key other = key item) = [] := by
    intro others different
    rw [List.filter_eq_nil_iff]
    intro other member
    simpa using different other member
  have own : group.filter (fun other => key other = key item) = group := by
    rw [List.filter_eq_self]
    intro other inOwn
    exact decide_eq_true (runs.keyed group member other inOwn item inGroup)
  rw [← runs.flatten, List.flatten_append, List.flatten_cons, List.filter_append,
    List.filter_append, own, none before, none after, List.nil_append, List.append_nil]
  · intro other inAfter
    obtain ⟨later, isLater, inLater⟩ := List.mem_flatten.mp inAfter
    exact ((List.pairwise_cons.mp rest).1 later isLater item inGroup other inLater).symm
  · intro other inBefore
    obtain ⟨earlier, isEarlier, inEarlier⟩ := List.mem_flatten.mp inBefore
    exact fromBefore earlier isEarlier group List.mem_cons_self other inEarlier item inGroup

/-- The runs are the groups of the keys, whatever order the keys are listed in. -/
theorem perm_titles {titles : List Key} (runs : Runs key items groups) (distinct : titles.Nodup)
    (keys : ∀ title, title ∈ titles ↔ ∃ item ∈ items, key item = title) :
    groups.Perm (titles.map fun title => items.filter fun item => key item = title) := by
  have distinctGroups :
      (titles.map fun title => items.filter fun item => key item = title).Nodup := by
    refine List.Nodup.map_on (fun first inFirst second _ same => ?_) distinct
    obtain ⟨item, stored, named⟩ := (keys first).mp inFirst
    have inSecond : item ∈ items.filter fun other => key other = second := by
      rw [← same]
      exact List.mem_filter.mpr ⟨stored, decide_eq_true named⟩
    rw [← named]
    exact of_decide_eq_true (List.mem_filter.mp inSecond).2
  refine (List.perm_ext_iff_of_nodup runs.nodup distinctGroups).mpr fun group => ?_
  rw [List.mem_map]
  constructor
  · intro member
    obtain ⟨item, inGroup⟩ := List.exists_mem_of_ne_nil group (runs.nonempty group member)
    have stored : item ∈ items := by
      rw [← runs.flatten]
      exact List.mem_flatten.mpr ⟨group, member, inGroup⟩
    exact ⟨key item, (keys _).mpr ⟨item, stored, rfl⟩, (runs.eq_filter member inGroup).symm⟩
  · rintro ⟨title, listed, rfl⟩
    obtain ⟨item, stored, rfl⟩ := (keys title).mp listed
    rw [← runs.flatten] at stored
    obtain ⟨group, member, inGroup⟩ := List.mem_flatten.mp stored
    exact runs.eq_filter member inGroup ▸ member

end Runs

end Grouping
