/-
This file groups a list by a key. Items are placed one after another under the
titles of their groups, and the groups remember the order in which the titles
first appeared. Read back in any order of the titles the groups are a stable
permutation of the items, so they are the items themselves exactly when the
items already stand in that order.
-/

import Mathlib.Data.List.AList
import Mathlib.Data.List.Basic
import Mathlib.Data.List.Induction

namespace Grouping

variable {Item Key : Type} [DecidableEq Key]

/-! ### Reading groups in an order -/

/-- The items, group after group in the order of the titles. -/
def regroup (key : Item → Key) (order : List Key) (items : List Item) : List Item :=
  order.flatMap fun title => items.filter fun item => key item = title

/-- The place of a title in an order. -/
def rank (order : List Key) (title : Key) : Nat := order.idxOf title

section Regroup

variable {key : Item → Key} {order : List Key} {items : List Item}

theorem regroup_cons_order (title : Key) (rest : List Key) :
    regroup key (title :: rest) items =
      (items.filter fun item => key item = title) ++ regroup key rest items := rfl

theorem rank_cons_self (title : Key) (rest : List Key) : rank (title :: rest) title = 0 :=
  List.idxOf_cons_self

theorem rank_cons_ne {title other : Key} {rest : List Key} (different : title ≠ other) :
    rank (title :: rest) other = rank rest other + 1 :=
  List.idxOf_cons_ne rest different

theorem mem_regroup {item : Item} :
    item ∈ regroup key order items ↔ item ∈ items ∧ key item ∈ order := by
  simp only [regroup, List.mem_flatMap, List.mem_filter, decide_eq_true_eq]
  constructor
  · rintro ⟨title, ordered, member, rfl⟩
    exact ⟨member, ordered⟩
  · rintro ⟨member, ordered⟩
    exact ⟨key item, ordered, member, rfl⟩

/-- Keeping some items of each group is grouping the items that are kept. -/
theorem regroup_filter (keep : Item → Bool) :
    regroup key order (items.filter keep) =
      order.flatMap fun title => (items.filter fun item => key item = title).filter keep := by
  refine List.flatMap_congr fun title _ => ?_
  rw [List.filter_filter, List.filter_filter]
  exact List.filter_congr fun item _ => Bool.and_comm _ _

/-- Items under titles outside the order are not read. -/
theorem regroup_filter_of_forall (keep : Item → Bool)
    (kept : ∀ item ∈ items, key item ∈ order → keep item = true) :
    regroup key order (items.filter keep) = regroup key order items := by
  refine List.flatMap_congr fun title ordered => ?_
  rw [List.filter_filter]
  refine List.filter_congr fun item member => ?_
  by_cases same : key item = title
  · rw [decide_eq_true same, Bool.true_and]
    exact kept item member (same.symm ▸ ordered)
  · rw [decide_eq_false same, Bool.false_and]

/-- Two lists of one predicate: the items with it come first when none follows one without. -/
theorem filter_append_filter_not_of_pairwise (first : Item → Bool)
    (ordered : items.Pairwise fun earlier later => first later = true → first earlier = true) :
    items.filter first ++ items.filter (fun item => !first item) = items := by
  induction items with
  | nil => rfl
  | cons item rest inductionHypothesis =>
    obtain ⟨head, tail⟩ := List.pairwise_cons.mp ordered
    by_cases holds : first item = true
    · rw [List.filter_cons_of_pos holds, List.filter_cons_of_neg (by simp [holds]),
        List.cons_append, inductionHypothesis tail]
    · have none : rest.filter first = [] := by
        rw [List.filter_eq_nil_iff]
        intro later member found
        exact holds (head later member found)
      have all : rest.filter (fun item => !first item) = rest := by
        have split := inductionHypothesis tail
        rwa [none, List.nil_append] at split
      rw [List.filter_cons_of_neg holds, List.filter_cons_of_pos (by simp [holds]), none, all,
        List.nil_append]

/-- The items are regrouped into a permutation of themselves. -/
theorem regroup_perm (distinct : order.Nodup) (covers : ∀ item ∈ items, key item ∈ order) :
    (regroup key order items).Perm items := by
  induction order generalizing items with
  | nil =>
    cases items with
    | nil => exact List.Perm.refl _
    | cons item rest => cases covers item List.mem_cons_self
  | cons title rest inductionHypothesis =>
    obtain ⟨fresh, distinct⟩ := List.nodup_cons.mp distinct
    rw [regroup_cons_order]
    refine List.Perm.trans (List.Perm.append_left _ ?_)
      (List.filter_append_perm (fun item => decide (key item = title)) items)
    rw [← regroup_filter_of_forall (fun item => !decide (key item = title))]
    · refine inductionHypothesis distinct fun item member => ?_
      obtain ⟨member, other⟩ := List.mem_filter.mp member
      rcases List.mem_cons.mp (covers item member) with same | later
      · simp [same] at other
      · exact later
    · intro item member ordered
      have other : key item ≠ title := fun same => fresh (same ▸ ordered)
      simp [other]

/-- The regrouped items stand in the order of their titles. -/
theorem regroup_pairwise (distinct : order.Nodup) :
    (regroup key order items).Pairwise fun earlier later =>
      rank order (key earlier) ≤ rank order (key later) := by
  induction order with
  | nil => exact List.Pairwise.nil
  | cons title rest inductionHypothesis =>
    obtain ⟨fresh, distinct⟩ := List.nodup_cons.mp distinct
    rw [regroup_cons_order, List.pairwise_append]
    refine ⟨?_, ?_, ?_⟩
    · refine List.pairwise_of_forall_mem_list fun earlier member later _ => ?_
      have same : key earlier = title := by simpa using (List.mem_filter.mp member).2
      rw [same, rank_cons_self]
      exact Nat.zero_le _
    · refine (inductionHypothesis distinct).imp_of_mem fun {earlier later} first second less => ?_
      have otherFirst : title ≠ key earlier := fun same =>
        fresh (same ▸ (mem_regroup.mp first).2)
      have otherSecond : title ≠ key later := fun same =>
        fresh (same ▸ (mem_regroup.mp second).2)
      rw [rank_cons_ne otherFirst, rank_cons_ne otherSecond]
      exact Nat.succ_le_succ less
    · intro earlier member later _
      have same : key earlier = title := by simpa using (List.mem_filter.mp member).2
      rw [same, rank_cons_self]
      exact Nat.zero_le _

/-- Items that already stand in the order of their titles stay where they are. -/
theorem regroup_eq_self (distinct : order.Nodup) (covers : ∀ item ∈ items, key item ∈ order)
    (ordered : items.Pairwise fun earlier later =>
      rank order (key earlier) ≤ rank order (key later)) :
    regroup key order items = items := by
  induction order generalizing items with
  | nil =>
    cases items with
    | nil => rfl
    | cons item rest => cases covers item List.mem_cons_self
  | cons title rest inductionHypothesis =>
    obtain ⟨fresh, distinct⟩ := List.nodup_cons.mp distinct
    have others : ∀ item ∈ items.filter (fun item => !decide (key item = title)),
        key item ∈ rest ∧ title ≠ key item := by
      intro item member
      obtain ⟨member, other⟩ := List.mem_filter.mp member
      have different : key item ≠ title := by simpa using other
      exact ⟨(List.mem_cons.mp (covers item member)).resolve_left different, different.symm⟩
    have tailOrdered : (items.filter fun item => !decide (key item = title)).Pairwise
        fun earlier later => rank rest (key earlier) ≤ rank rest (key later) := by
      refine (ordered.filter _).imp_of_mem fun {earlier later} first second less => ?_
      rw [rank_cons_ne (others earlier first).2,
        rank_cons_ne (others later second).2] at less
      exact Nat.le_of_succ_le_succ less
    have tail := inductionHypothesis distinct (fun item member => (others item member).1)
      tailOrdered
    rw [regroup_filter_of_forall] at tail
    · rw [regroup_cons_order, tail]
      refine filter_append_filter_not_of_pairwise _ (ordered.imp fun {earlier later} less => ?_)
      intro found
      have last : key later = title := by simpa using found
      rw [last, rank_cons_self, Nat.le_zero] at less
      by_contra different
      have other : title ≠ key earlier := by
        intro same
        exact different (by simpa using same.symm)
      rw [rank_cons_ne other] at less
      cases less
    · intro item member laterTitle
      have other : key item ≠ title := fun same => fresh (same ▸ laterTitle)
      simp [other]

/-- The kept items, regrouped, are the first ones of the list exactly when no other item comes
before one of them and they already stand in the order of their titles. -/
theorem regroup_filter_prefix_iff (keep : Item → Bool) (distinct : order.Nodup)
    (covers : ∀ item ∈ items, key item ∈ order) :
    regroup key order (items.filter keep) <+: items ↔
      items.Pairwise fun earlier later => (keep later = true → keep earlier = true) ∧
        (keep earlier = true → keep later = true →
          rank order (key earlier) ≤ rank order (key later)) := by
  have coversKept : ∀ item ∈ items.filter keep, key item ∈ order :=
    fun item member => covers item (List.mem_filter.mp member).1
  constructor
  · rintro ⟨others, split⟩
    have kept : ∀ item ∈ regroup key order (items.filter keep), keep item = true :=
      fun item member => (List.mem_filter.mp (mem_regroup.mp member).1).2
    have same := (regroup_perm distinct coversKept).length_eq
    -- The prefix already has as many items as are kept, so no other item is.
    have none : others.filter keep = [] := by
      have lengths := congrArg (fun items => (items.filter keep).length) split
      rw [List.filter_append, List.filter_eq_self.mpr kept, List.length_append, same] at lengths
      exact List.length_eq_zero_iff.mp (by omega)
    have dropped : ∀ item ∈ others, ¬ keep item = true := List.filter_eq_nil_iff.mp none
    rw [← split, List.pairwise_append]
    refine ⟨?_, ?_, ?_⟩
    · refine (regroup_pairwise distinct).imp_of_mem fun {earlier later} first _ less => ?_
      exact ⟨fun _ => kept earlier first, fun _ _ => less⟩
    · refine List.pairwise_of_forall_mem_list fun earlier first later second => ?_
      exact ⟨fun holds => absurd holds (dropped later second),
        fun holds => absurd holds (dropped earlier first)⟩
    · intro earlier first later second
      exact ⟨fun _ => kept earlier first, fun _ holds => absurd holds (dropped later second)⟩
  · intro ordered
    have keptOrdered : (items.filter keep).Pairwise fun earlier later =>
        rank order (key earlier) ≤ rank order (key later) := by
      refine (ordered.filter keep).imp_of_mem fun {earlier later} first second both => ?_
      exact both.2 (List.mem_filter.mp first).2 (List.mem_filter.mp second).2
    rw [regroup_eq_self distinct coversKept keptOrdered]
    exact ⟨_, filter_append_filter_not_of_pairwise keep (ordered.imp fun both => both.1)⟩

end Regroup

/-! ### Placing items -/

/-- The distinct keys in the order in which they first appear. -/
def appearances (keys : List Key) : List Key :=
  keys.foldl (fun seen key => if key ∈ seen then seen else seen ++ [key]) []

theorem appearances_concat (keys : List Key) (key : Key) :
    appearances (keys ++ [key]) =
      if key ∈ appearances keys then appearances keys else appearances keys ++ [key] := by
  rw [appearances, List.foldl_append]
  rfl

theorem mem_appearances {keys : List Key} {key : Key} : key ∈ appearances keys ↔ key ∈ keys := by
  induction keys using List.reverseRecOn with
  | nil => rfl
  | append_singleton keys last inductionHypothesis =>
    rw [appearances_concat, List.mem_append, ← inductionHypothesis, List.mem_singleton]
    split
    · rename_i seen
      exact (or_iff_left_of_imp fun same => same ▸ seen).symm
    · rw [List.mem_append, List.mem_singleton]

theorem appearances_nodup (keys : List Key) : (appearances keys).Nodup := by
  induction keys using List.reverseRecOn with
  | nil => exact List.nodup_nil
  | append_singleton keys last inductionHypothesis =>
    rw [appearances_concat]
    split
    · exact inductionHypothesis
    · rename_i unseen
      rw [List.nodup_append]
      refine ⟨inductionHypothesis, List.nodup_singleton _, ?_⟩
      rintro key seen other isLast rfl
      exact unseen (List.mem_singleton.mp isLast ▸ seen)

/-- A key that is not among the first ones comes after all of them. -/
theorem appearances_pairwise (keys : List Key) :
    (appearances keys).Pairwise fun earlier later => rank keys earlier < rank keys later := by
  induction keys using List.reverseRecOn with
  | nil => exact List.Pairwise.nil
  | append_singleton keys last inductionHypothesis =>
    have old : ∀ key ∈ appearances keys, rank (keys ++ [last]) key = rank keys key :=
      fun key seen => List.idxOf_append_of_mem (mem_appearances.mp seen)
    have kept : (appearances keys).Pairwise fun earlier later =>
        rank (keys ++ [last]) earlier < rank (keys ++ [last]) later := by
      refine inductionHypothesis.imp_of_mem fun {earlier later} first second less => ?_
      rwa [old earlier first, old later second]
    rw [appearances_concat]
    by_cases seen : last ∈ appearances keys
    · rwa [if_pos seen]
    · rw [if_neg seen, List.pairwise_append]
      refine ⟨kept, List.pairwise_singleton _ _, fun earlier first later isLast => ?_⟩
      have fresh : last ∉ keys := fun member => seen (mem_appearances.mpr member)
      rw [List.mem_singleton.mp isLast, old earlier first]
      calc rank keys earlier < keys.length := List.idxOf_lt_length_of_mem (mem_appearances.mp first)
        _ ≤ rank (keys ++ [last]) last := by
          show _ ≤ (keys ++ [last]).idxOf last
          rw [List.idxOf_append_of_notMem fresh]
          exact Nat.le_add_right _ _

/-- The entries of a dictionary of groups are what its keys look up. -/
theorem flatMap_entries (buckets : AList fun _ : Key => List Item) :
    buckets.entries.flatMap Sigma.snd =
      buckets.keys.flatMap fun title => (buckets.lookup title).getD [] := by
  show _ = (buckets.entries.map Sigma.fst).flatMap _
  rw [List.flatMap_map]
  refine List.flatMap_congr fun entry member => ?_
  have found : buckets.lookup entry.1 = some entry.2 := AList.mem_lookup_iff.mpr member
  rw [found, Option.getD_some]

/-- The titles in the order in which they appeared, and the group of each. -/
structure Groups (Item Key : Type) [DecidableEq Key] where
  titles : List Key
  buckets : AList fun _ : Key => List Item

namespace Groups

def empty : Groups Item Key := ⟨[], ∅⟩

/-- Puts an item at the end of its group, which it opens when there is none. -/
def place (key : Item → Key) (groups : Groups Item Key) (item : Item) : Groups Item Key :=
  match groups.buckets.lookup (key item) with
  | some bucket =>
    ⟨groups.titles, groups.buckets.insert (key item) (bucket ++ [item])⟩
  | none => ⟨groups.titles ++ [key item], groups.buckets.insert (key item) [item]⟩

/-- The groups hold these items: the titles are their keys, and the group of a title has the
items of that key in their order. -/
structure Holds (key : Item → Key) (groups : Groups Item Key) (items : List Item) : Prop where
  titles : groups.titles = appearances (items.map key)
  lookup : ∀ title, groups.buckets.lookup title =
    if title ∈ groups.titles then some (items.filter fun item => key item = title) else none

variable {key : Item → Key} {groups : Groups Item Key} {items : List Item}

theorem empty_holds (key : Item → Key) : (empty : Groups Item Key).Holds key [] :=
  ⟨rfl, fun _ => rfl⟩

theorem Holds.mem_titles (holds : groups.Holds key items) {title : Key} :
    title ∈ groups.titles ↔ ∃ item ∈ items, key item = title := by
  rw [holds.titles, mem_appearances, List.mem_map]

theorem Holds.titles_nodup (holds : groups.Holds key items) : groups.titles.Nodup := by
  rw [holds.titles]
  exact appearances_nodup _

theorem Holds.covers (holds : groups.Holds key items) :
    ∀ item ∈ items, key item ∈ groups.titles :=
  fun item member => holds.mem_titles.mpr ⟨item, member, rfl⟩

theorem Holds.bucket (holds : groups.Holds key items) {title : Key}
    (member : title ∈ groups.titles) :
    groups.buckets.lookup title = some (items.filter fun item => key item = title) := by
  rw [holds.lookup, if_pos member]

/-- The dictionary has the titles as its keys. -/
theorem Holds.keys_perm (holds : groups.Holds key items) :
    groups.buckets.keys.Perm groups.titles := by
  refine (List.perm_ext_iff_of_nodup groups.buckets.keys_nodup holds.titles_nodup).mpr
    fun title => ?_
  rw [← AList.mem_keys, ← AList.lookup_isSome, holds.lookup]
  split
  · rename_i member
    exact iff_of_true rfl member
  · rename_i missing
    exact iff_of_false Bool.false_ne_true missing

/-- Placing one more item. -/
theorem Holds.place (holds : groups.Holds key items) (item : Item) :
    (groups.place key item).Holds key (items ++ [item]) := by
  have others : ∀ title, title ≠ key item →
      (items ++ [item]).filter (fun item => key item = title) =
        items.filter fun item => key item = title := by
    intro title other
    rw [List.filter_append, List.filter_cons_of_neg (by simpa using other.symm), List.filter_nil,
      List.append_nil]
  have own : (items ++ [item]).filter (fun other => key other = key item) =
      (items.filter fun other => key other = key item) ++ [item] := by
    rw [List.filter_append, List.filter_cons_of_pos (by simp), List.filter_nil]
  have known := holds.lookup (key item)
  unfold Groups.place
  by_cases member : key item ∈ groups.titles
  · rw [if_pos member] at known
    rw [known]
    refine ⟨?_, fun title => ?_⟩
    · show groups.titles = _
      rw [List.map_append, List.map_singleton, appearances_concat, ← holds.titles,
        if_pos member]
    · show (groups.buckets.insert (key item) _).lookup title =
        if title ∈ groups.titles then _ else _
      by_cases same : title = key item
      · subst same
        rw [AList.lookup_insert, if_pos member, own]
      · rw [AList.lookup_insert_ne same, holds.lookup, others title same]
  · rw [if_neg member] at known
    rw [known]
    refine ⟨?_, fun title => ?_⟩
    · show groups.titles ++ [key item] = _
      rw [List.map_append, List.map_singleton, appearances_concat, ← holds.titles,
        if_neg member]
    · show (groups.buckets.insert (key item) _).lookup title =
        if title ∈ groups.titles ++ [key item] then _ else _
      by_cases same : title = key item
      · subst same
        have none : (items.filter fun other => key other = key item) = [] := by
          rw [List.filter_eq_nil_iff]
          intro other stored found
          refine member (holds.mem_titles.mpr ⟨other, stored, ?_⟩)
          simpa using found
        rw [AList.lookup_insert, own, none, List.nil_append, if_pos]
        exact List.mem_append_right _ (List.mem_singleton.mpr rfl)
      · rw [AList.lookup_insert_ne same, holds.lookup, others title same]
        refine if_congr ?_ rfl rfl
        rw [List.mem_append, List.mem_singleton, or_iff_left same]

/-- Placing a list of items after those already held. -/
theorem Holds.placeAll (holds : groups.Holds key items) (more : List Item) :
    (more.foldl (Groups.place key) groups).Holds key (items ++ more) := by
  induction more generalizing groups items with
  | nil =>
    rw [List.append_nil]
    exact holds
  | cons item rest inductionHypothesis =>
    have placed := inductionHypothesis (holds.place item)
    rwa [List.append_assoc, List.singleton_append] at placed

/-- What a stable grouping of the items is: each group is what one key leaves of them, in their
order, and the titles are the keys in the order in which they first appear. -/
structure StablePartition (key : Item → Key) (groups : Groups Item Key) (items : List Item) :
    Prop where
  titles_nodup : groups.titles.Nodup
  titles_keys : ∀ title, title ∈ groups.titles ↔ title ∈ groups.buckets
  firstAppearance : groups.titles.Pairwise fun earlier later =>
    rank (items.map key) earlier < rank (items.map key) later
  nonempty : ∀ title bucket, groups.buckets.lookup title = some bucket → bucket ≠ []
  keyed : ∀ title bucket, groups.buckets.lookup title = some bucket →
    ∀ item ∈ bucket, key item = title
  arrival : ∀ title bucket, groups.buckets.lookup title = some bucket → bucket.Sublist items
  complete : (groups.buckets.entries.flatMap Sigma.snd).Perm items

theorem Holds.lookup_eq_some (holds : groups.Holds key items) {title : Key} {bucket : List Item}
    (found : groups.buckets.lookup title = some bucket) :
    title ∈ groups.titles ∧ bucket = items.filter fun item => key item = title := by
  rw [holds.lookup] at found
  split at found
  · rename_i member
    exact ⟨member, (Option.some.inj found).symm⟩
  · cases found

/-- All the groups, one after another, are the items again. -/
theorem Holds.entries_perm (holds : groups.Holds key items) :
    (groups.buckets.entries.flatMap Sigma.snd).Perm items := by
  rw [flatMap_entries]
  have read : (groups.buckets.keys.flatMap fun title => (groups.buckets.lookup title).getD []) =
      regroup key groups.buckets.keys items := by
    refine List.flatMap_congr fun title member => ?_
    rw [holds.bucket (holds.keys_perm.mem_iff.mp member), Option.getD_some]
  rw [read]
  exact regroup_perm groups.buckets.keys_nodup fun item member =>
    holds.keys_perm.mem_iff.mpr (holds.covers item member)

theorem Holds.stablePartition (holds : groups.Holds key items) :
    groups.StablePartition key items where
  titles_nodup := holds.titles_nodup
  titles_keys title := by rw [AList.mem_keys, holds.keys_perm.mem_iff]
  firstAppearance := by
    rw [holds.titles]
    exact appearances_pairwise _
  nonempty title bucket found := by
    obtain ⟨member, rfl⟩ := holds.lookup_eq_some found
    obtain ⟨item, stored, same⟩ := holds.mem_titles.mp member
    exact List.ne_nil_of_mem (List.mem_filter.mpr ⟨stored, decide_eq_true same⟩)
  keyed title bucket found item member := by
    obtain ⟨-, rfl⟩ := holds.lookup_eq_some found
    exact of_decide_eq_true (List.mem_filter.mp member).2
  arrival title bucket found := by
    obtain ⟨-, rfl⟩ := holds.lookup_eq_some found
    exact List.filter_sublist
  complete := holds.entries_perm

end Groups

end Grouping
