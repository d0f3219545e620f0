/-
This file is about writes that are kept while the data under them changes: what
a write leaves at a path depends on what was there alone, so data that is
replaced below one path changes what the writes make of it below that path, and
above it only where an item appears or disappears. The data after the writes is
then brought up to date by overwriting one path, when nothing that is written
removes an item above it.
-/

import Mathlib.Data.List.Pairwise
import PhotoMap.Overlay

namespace Overlay

open Classical

variable {Key Item Node : Type*} {read : Node → Data Key Item} {new : List (List Key × Node)}
  {first second old fresh data : Data Key Item} {path place other : List Key}

namespace Data

/-! ### What a write leaves at a path -/

/-- Nothing is stored below an item. -/
def Solid (data : Data Key Item) : Prop :=
  ∀ path key rest, data path ≠ none → data (path ++ key :: rest) = none

theorem Solid.none_above (solid : data.Solid) (isPrefix : other <+: path) (different : other ≠ path)
    (stored : data path ≠ none) : data other = none := by
  obtain ⟨rest, rfl⟩ := isPrefix
  by_contra item
  cases rest with
  | nil => exact different (List.append_nil other).symm
  | cons key rest => exact stored (solid other key rest item)

theorem Solid.none_at_root {key : Key} (solid : data.Solid) (stored : data (key :: path) ≠ none) :
    data [] = none :=
  solid.none_above List.nil_prefix (List.cons_ne_nil key path).symm stored

/-- Nothing is stored below an item after a write of such data. -/
theorem solid_overwrite {new : Data Key Item} (solid : data.Solid) (newSolid : new.Solid)
    (path : List Key) : (overwrite path new data).Solid := by
  induction path generalizing data with
  | nil => exact newSolid
  | cons front rest inductionHypothesis =>
    have under : (data.under front).Solid := fun path => solid (front :: path)
    intro place key below stored
    cases place with
    | nil =>
      rw [overwrite_cons_nil] at stored
      by_cases nothing : new.IsEmpty
      · rw [if_pos nothing] at stored
        have gone : ∀ path, data (key :: path) = none := fun path => solid [] key path stored
        by_cases same : key = front
        · subst same
          exact (overwrite_cons_self new data).trans (nothing.overwrite gone below)
        · exact (overwrite_cons_ne new data same).trans (gone below)
      · rw [if_neg nothing] at stored
        exact absurd rfl stored
    | cons other place =>
      by_cases same : other = front
      · subst same
        rw [overwrite_cons_self] at stored
        exact (overwrite_cons_self new data).trans (inductionHypothesis under place key below stored)
      · rw [overwrite_cons_ne new data same] at stored
        exact (overwrite_cons_ne new data same).trans (solid (other :: place) key below stored)

theorem solid_afterAll (solid : data.Solid) (each : ∀ write ∈ new, (read write.2).Solid) :
    (afterAll read new data).Solid := by
  induction new generalizing data with
  | nil => exact solid
  | cons write rest inductionHypothesis =>
    obtain ⟨first, later⟩ := List.forall_mem_cons.mp each
    exact inductionHypothesis (solid_overwrite solid first write.1) later

/-- What a write leaves at a path depends on what was there. -/
theorem overwrite_congr (new : Data Key Item) (same : first other = second other) :
    overwrite path new first other = overwrite path new second other := by
  induction path generalizing first second other with
  | nil => rfl
  | cons front rest inductionHypothesis =>
    cases other with
    | nil => rw [overwrite_cons_nil, overwrite_cons_nil, same]
    | cons key other =>
      by_cases here : key = front
      · subst here
        rw [overwrite_cons_self, overwrite_cons_self]
        exact inductionHypothesis same
      · rw [overwrite_cons_ne new first here, overwrite_cons_ne new second here, same]

theorem afterAll_congr (same : first other = second other) :
    afterAll read new first other = afterAll read new second other := by
  induction new generalizing first second with
  | nil => exact same
  | cons write rest inductionHypothesis => exact inductionHypothesis (overwrite_congr _ same)

/-- Above the place of a write an item stays only when nothing is written. -/
theorem overwrite_above (new data : Data Key Item) (isPrefix : other <+: path)
    (different : other ≠ path) :
    overwrite path new data other = if new.IsEmpty then data other else none := by
  induction path generalizing data other with
  | nil => exact absurd (List.prefix_nil.mp isPrefix) different
  | cons front rest inductionHypothesis =>
    cases other with
    | nil => rfl
    | cons key other =>
      obtain ⟨rfl, tail⟩ := List.cons_prefix_cons.mp isPrefix
      rw [overwrite_cons_self]
      exact inductionHypothesis (data.under key) tail fun same => different (same ▸ rfl)

/-- What a write leaves at a path is what was there, or does not depend on it. -/
theorem overwrite_kept_or_fixed (path : List Key) (new : Data Key Item) (other : List Key) :
    (∀ data, overwrite path new data other = data other) ∨
      ∀ first second, overwrite path new first other = overwrite path new second other := by
  by_cases below : path <+: other
  · obtain ⟨rest, rfl⟩ := below
    refine Or.inr fun first second => ?_
    rw [overwrite_append, overwrite_append]
  by_cases isPrefix : other <+: path
  · have different : other ≠ path := fun same => below (same ▸ List.prefix_refl other)
    by_cases nothing : new.IsEmpty
    · refine Or.inl fun data => ?_
      rw [overwrite_above _ _ isPrefix different, if_pos nothing]
    · refine Or.inr fun first second => ?_
      rw [overwrite_above _ _ isPrefix different, overwrite_above _ _ isPrefix different,
        if_neg nothing, if_neg nothing]
  · exact Or.inl fun data => overwrite_of_apart new data ⟨below, isPrefix⟩

theorem afterAll_kept_or_fixed (read : Node → Data Key Item) (new : List (List Key × Node))
    (other : List Key) :
    (∀ data, afterAll read new data other = data other) ∨
      ∀ first second, afterAll read new first other = afterAll read new second other := by
  induction new with
  | nil => exact Or.inl fun _ => rfl
  | cons write rest inductionHypothesis =>
    rcases overwrite_kept_or_fixed write.1 (read write.2) other with kept | fixed
    · rcases inductionHypothesis with restKept | restFixed
      · exact Or.inl fun data => (restKept _).trans (kept data)
      · exact Or.inr fun first second => restFixed _ _
    · refine Or.inr fun first second => ?_
      show afterAll read rest _ other = afterAll read rest _ other
      exact afterAll_congr (fixed first second)

/-- A write whose result at a path does not depend on what was there hides what was there. -/
theorem afterAll_fixed (fixed : ∃ write ∈ new, ∀ first second : Data Key Item,
      overwrite write.1 (read write.2) first other = overwrite write.1 (read write.2) second other) :
    afterAll read new first other = afterAll read new second other := by
  induction new generalizing first second with
  | nil => exact absurd fixed fun ⟨write, member, _⟩ => List.not_mem_nil member
  | cons write rest inductionHypothesis =>
    show afterAll read rest _ other = afterAll read rest _ other
    obtain ⟨found, member, hides⟩ := fixed
    rcases List.mem_cons.mp member with rfl | later
    · exact afterAll_congr (hides first second)
    · exact inductionHypothesis ⟨found, later, hides⟩

theorem overwrite_none_above (new : Data Key Item) (isPrefix : other <+: path)
    (different : other ≠ path) (noItem : data other = none) :
    overwrite path new data other = none := by
  rw [overwrite_above new data isPrefix different, noItem, ite_self]

theorem overwrite_below_of_apart (new : Data Key Item) (data : Data Key Item)
    (apart : Apart place path) : (overwrite place new data).below path = data.below path := by
  funext other
  refine overwrite_of_apart new data ⟨fun isPrefix => ?_, fun isPrefix => ?_⟩
  · rcases List.prefix_or_prefix_of_prefix isPrefix (List.prefix_append path other) with
      before | after
    · exact apart.1 before
    · exact apart.2 after
  · exact apart.2 ((List.prefix_append path other).trans isPrefix)

/-! ### Data that is replaced below a path -/

/-- Two data with the same items at every path that is apart from one. -/
def AgreeBeside (path : List Key) (first second : Data Key Item) : Prop :=
  ∀ other, Apart path other → first other = second other

theorem AgreeBeside.afterAll (agree : AgreeBeside path first second) :
    AgreeBeside path (Data.afterAll read new first) (Data.afterAll read new second) :=
  fun other apart => afterAll_congr (agree other apart)

theorem AgreeBeside.refl (path : List Key) (data : Data Key Item) : AgreeBeside path data data :=
  fun _ _ => rfl

theorem agreeBeside_overwrite (new data : Data Key Item) :
    AgreeBeside path (overwrite path new data) data :=
  fun _ apart => overwrite_of_apart new data apart

theorem AgreeBeside.symm (agree : AgreeBeside path first second) : AgreeBeside path second first :=
  fun other apart => (agree other apart).symm

/-- Data that agrees beside a path is brought up to date by overwriting the path. -/
theorem AgreeBeside.eq_overwrite (agree : AgreeBeside path old fresh) (solid : fresh.Solid)
    (above : (fresh.below path).IsEmpty → ∀ other, other <+: path → other ≠ path →
      old other = fresh other) :
    fresh = overwrite path (fresh.below path) old := by
  funext other
  by_cases below : path <+: other
  · obtain ⟨rest, rfl⟩ := below
    rw [overwrite_append]
    rfl
  · by_cases isPrefix : other <+: path
    · have different : other ≠ path := fun same => below (same ▸ List.prefix_refl other)
      rw [overwrite_above _ _ isPrefix different]
      by_cases empty : (fresh.below path).IsEmpty
      · rw [if_pos empty, above empty other isPrefix different]
      · rw [if_neg empty]
        obtain ⟨rest, stored⟩ := not_forall.mp empty
        refine solid.none_above (isPrefix.trans (List.prefix_append path rest)) ?_ stored
        intro same
        exact below (same ▸ List.prefix_append path rest)
    · rw [overwrite_of_apart _ _ ⟨below, isPrefix⟩, agree other ⟨below, isPrefix⟩]

/-- Writing at a path what is there changes nothing. -/
theorem Solid.overwrite_self (solid : data.Solid) (path : List Key) :
    overwrite path (data.below path) data = data :=
  ((AgreeBeside.refl path data).eq_overwrite solid fun _ _ _ _ => rfl).symm

/-- Writes below a path that are apart from each other are one write at the path. -/
theorem afterAll_eq_overwrite (inside : ∀ write ∈ new, path <+: write.1)
    (apart : new.Pairwise fun first second => Apart first.1 second.1)
    (solid : (afterAll read new data).Solid) :
    afterAll read new data = overwrite path ((afterAll read new data).below path) data := by
  have agree : AgreeBeside path data (afterAll read new data) := by
    intro other beside
    clear apart solid
    induction new generalizing data with
    | nil => rfl
    | cons write rest inductionHypothesis =>
      obtain ⟨first, later⟩ := List.forall_mem_cons.mp inside
      refine Eq.trans ?_ (inductionHypothesis later)
      refine (overwrite_of_apart _ _ ⟨fun above => beside.1 (first.trans above), fun below => ?_⟩).symm
      rcases List.prefix_or_prefix_of_prefix first below with isPrefix | isPrefix
      · exact beside.1 isPrefix
      · exact beside.2 isPrefix
  refine agree.eq_overwrite solid fun gone other isPrefix different => ?_
  clear agree solid
  induction new generalizing data with
  | nil => rfl
  | cons write rest inductionHypothesis =>
    obtain ⟨firstInside, laterInside⟩ := List.forall_mem_cons.mp inside
    obtain ⟨firstApart, laterApart⟩ := List.pairwise_cons.mp apart
    refine Eq.trans ?_ (inductionHypothesis laterInside laterApart gone)
    -- what the first write stores is not hidden by the others, so it stores nothing
    have nothing : (read write.2).IsEmpty := by
      intro tail
      obtain ⟨rest', place⟩ := firstInside
      have kept : afterAll read rest (overwrite write.1 (read write.2) data) (write.1 ++ tail) =
          read write.2 tail := by
        rw [← overwrite_append write.1 tail (read write.2) data]
        generalize overwrite write.1 (read write.2) data = written
        clear inductionHypothesis gone laterApart laterInside apart inside
        induction rest generalizing written with
        | nil => rfl
        | cons next rest restHypothesis =>
          obtain ⟨nextApart, restApart⟩ := List.forall_mem_cons.mp firstApart
          refine (restHypothesis restApart _).trans ?_
          exact congrFun (overwrite_below_of_apart (read next.2) written nextApart.symm) tail
      have vanished : afterAll read rest (overwrite write.1 (read write.2) data)
          (path ++ (rest' ++ tail)) = none := gone (rest' ++ tail)
      rw [← List.append_assoc, place] at vanished
      exact kept.symm.trans vanished
    show data other = overwrite write.1 (read write.2) data other
    rw [overwrite_above _ _ (isPrefix.trans firstInside) (fun same => different ?_), if_pos nothing]
    exact isPrefix.eq_of_length_le (same ▸ firstInside.length_le)

/-! ### Writes that are apart -/

/-- Two writes that are apart can be made in either order. -/
theorem overwrite_comm (apart : Apart path place) (first second data : Data Key Item) :
    overwrite path first (overwrite place second data) =
      overwrite place second (overwrite path first data) := by
  funext other
  by_cases below : path <+: other
  · obtain ⟨rest, rfl⟩ := below
    have beside : Apart place (path ++ rest) := by
      refine ⟨fun above => ?_, fun above => ?_⟩
      · rcases List.prefix_or_prefix_of_prefix above (List.prefix_append path rest) with
          isPrefix | isPrefix
        · exact apart.2 isPrefix
        · exact apart.1 isPrefix
      · exact apart.1 ((List.prefix_append path rest).trans above)
    rw [overwrite_append, overwrite_of_apart _ _ beside, overwrite_append]
  by_cases isPrefix : other <+: path
  · have different : other ≠ path := fun same => below (same ▸ List.prefix_refl other)
    rw [overwrite_above _ _ isPrefix different]
    by_cases nothing : first.IsEmpty
    · rw [if_pos nothing]
      refine overwrite_congr second ?_
      rw [overwrite_above _ _ isPrefix different, if_pos nothing]
    · rw [if_neg nothing]
      have gone : overwrite path first data other = none := by
        rw [overwrite_above _ _ isPrefix different, if_neg nothing]
      by_cases above : other <+: place
      · refine (overwrite_none_above second above (fun same => ?_) gone).symm
        exact apart.2 (same ▸ isPrefix)
      · rw [overwrite_of_apart second _ ⟨fun within => apart.2 (within.trans isPrefix), above⟩, gone]
  · rw [overwrite_of_apart _ _ ⟨below, isPrefix⟩]
    exact overwrite_congr second (overwrite_of_apart _ _ ⟨below, isPrefix⟩).symm

theorem afterAll_of_apart (apart : ∀ write ∈ new, Apart write.1 other) (data : Data Key Item) :
    afterAll read new data other = data other := by
  induction new generalizing data with
  | nil => rfl
  | cons write rest inductionHypothesis =>
    obtain ⟨first, later⟩ := List.forall_mem_cons.mp apart
    exact (inductionHypothesis later _).trans (overwrite_of_apart _ _ first)

/-- Writes that are apart from each other can be made in any order. -/
theorem afterAll_perm {new' : List (List Key × Node)} (same : new.Perm new')
    (apart : new.Pairwise fun first second => Apart first.1 second.1) (data : Data Key Item) :
    afterAll read new data = afterAll read new' data := by
  refine List.Perm.foldl_eq' same (fun first member second secondMember data => ?_) data
  by_cases equal : first = second
  · rw [equal]
  · have symmetric : Std.Symm fun first second : List Key × Node => Apart first.1 second.1 :=
      ⟨fun _ _ => Apart.symm⟩
    exact overwrite_comm (apart.forall member secondMember equal).symm _ _ data

theorem nodup_of_apart (apart : new.Pairwise fun first second => Apart first.1 second.1) :
    new.Nodup :=
  List.Pairwise.imp (fun {first second} apart (same : first = second) =>
    apart.1 (same ▸ List.prefix_refl first.1)) apart

/-- Writes that are apart from each other do the same as others that are the same. -/
theorem afterAll_of_same_members {new' : List (List Key × Node)}
    (apart : new.Pairwise fun first second => Apart first.1 second.1)
    (apart' : new'.Pairwise fun first second => Apart first.1 second.1)
    (same : ∀ write, write ∈ new ↔ write ∈ new') (data : Data Key Item) :
    afterAll read new data = afterAll read new' data :=
  afterAll_perm ((List.perm_ext_iff_of_nodup (nodup_of_apart apart) (nodup_of_apart apart')).mpr
    same) apart data

theorem afterAll_prefixed_below (root : List Key) (new : List (List Key × Node))
    (data : Data Key Item) :
    (afterAll read (new.map fun write => (root ++ write.1, write.2)) data).below root =
      afterAll read new (data.below root) := by
  induction new generalizing data with
  | nil => rfl
  | cons write rest inductionHypothesis =>
    refine (inductionHypothesis _).trans ?_
    rw [overwrite_below]
    rfl

theorem pairwise_prefixed (root : List Key)
    (apart : new.Pairwise fun first second => Apart first.1 second.1) :
    (new.map fun write => (root ++ write.1, write.2)).Pairwise
      fun first second => Apart first.1 second.1 := by
  refine List.pairwise_map.mpr (apart.imp fun apart => ⟨fun isPrefix => ?_, fun isPrefix => ?_⟩)
  · exact apart.1 ((List.prefix_append_right_inj root).mp isPrefix)
  · exact apart.2 ((List.prefix_append_right_inj root).mp isPrefix)

/-- Writes below a root that are apart from each other are one write at the root. -/
theorem afterAll_prefixed (root : List Key)
    (apart : new.Pairwise fun first second => Apart first.1 second.1) (solid : data.Solid)
    (each : ∀ write ∈ new, (read write.2).Solid) :
    afterAll read (new.map fun write => (root ++ write.1, write.2)) data =
      overwrite root (afterAll read new (data.below root)) data := by
  rw [← afterAll_prefixed_below]
  refine afterAll_eq_overwrite ?_ (pairwise_prefixed root apart) (solid_afterAll solid ?_)
  · intro write member
    obtain ⟨found, -, rfl⟩ := List.mem_map.mp member
    exact List.prefix_append root found.1
  · intro write member
    obtain ⟨found, there, rfl⟩ := List.mem_map.mp member
    exact each found there

/-- Writes of what is there change nothing. -/
theorem afterAll_mirrored (solid : data.Solid)
    (mirrored : ∀ write ∈ new, read write.2 = data.below write.1) :
    afterAll read new data = data := by
  induction new with
  | nil => rfl
  | cons write rest inductionHypothesis =>
    obtain ⟨first, later⟩ := List.forall_mem_cons.mp mirrored
    show afterAll read rest (overwrite write.1 (read write.2) data) = data
    rw [first, solid.overwrite_self]
    exact inductionHypothesis later

/-- Writes below a path that store nothing under an item there leave what is at the path. -/
theorem afterAll_above (inside : ∀ write ∈ new, other <+: write.1 ∧ other ≠ write.1)
    (noItem : ∀ write ∈ new, (read write.2).IsEmpty ∨ data other = none) :
    afterAll read new data other = data other := by
  induction new generalizing data with
  | nil => rfl
  | cons write rest inductionHypothesis =>
    obtain ⟨firstInside, laterInside⟩ := List.forall_mem_cons.mp inside
    obtain ⟨first, later⟩ := List.forall_mem_cons.mp noItem
    have kept : overwrite write.1 (read write.2) data other = data other := by
      rw [overwrite_above _ _ firstInside.1 firstInside.2]
      split
      · rfl
      · rename_i stored
        exact (first.resolve_left stored).symm
    exact (inductionHypothesis laterInside fun found member =>
      (later found member).imp_right kept.trans).trans kept

/-- Data that vanishes below a path is removed by one of the writes. -/
theorem exists_removal (stored : ¬ (data.below path).IsEmpty)
    (gone : ((afterAll read new data).below path).IsEmpty) :
    ∃ write ∈ new, write.1 <+: path ∨ path <+: write.1 ∧ (read write.2).IsEmpty := by
  induction new generalizing data with
  | nil => exact absurd gone stored
  | cons write rest inductionHypothesis =>
    by_cases left : ((overwrite write.1 (read write.2) data).below path).IsEmpty
    · refine ⟨write, List.mem_cons_self, ?_⟩
      by_cases above : write.1 <+: path
      · exact Or.inl above
      · by_cases below : path <+: write.1
        · obtain ⟨tail, place⟩ := below
          refine Or.inr ⟨⟨tail, place⟩, ?_⟩
          by_contra something
          rw [← place, overwrite_below] at left
          exact not_isEmpty_overwrite something left
        · rw [overwrite_below_of_apart _ _ ⟨above, below⟩] at left
          exact absurd left stored
    · obtain ⟨found, member, removes⟩ := inductionHypothesis left gone
      exact ⟨found, List.mem_cons_of_mem _ member, removes⟩

/-- A write below the data that removes everything below a path has no item above the path. -/
theorem Safe.none_above_of_gone (safe : data.Safe read new)
    (uncovered : ∀ write ∈ new, ¬ write.1 <+: path) (stored : ¬ (first.below path).IsEmpty)
    (gone : ((afterAll read new first).below path).IsEmpty) (isPrefix : other <+: path)
    (different : other ≠ path) : data other = none := by
  obtain ⟨write, member, removes⟩ := exists_removal stored gone
  obtain ⟨below, nothing⟩ := removes.resolve_left (uncovered write member)
  refine safe write member nothing other (isPrefix.trans below) fun same => different ?_
  subst same
  exact isPrefix.eq_of_length_le below.length_le

/-- When the data is overwritten at a path that no write covers, what the writes make of it is
brought up to date by overwriting the path. -/
theorem Safe.afterAll_overwrite (safe : data.Safe read new)
    (uncovered : ∀ write ∈ new, ¬ write.1 <+: path) (change : Data Key Item)
    (solid : (afterAll read new (overwrite path change data)).Solid) :
    afterAll read new (overwrite path change data) =
      overwrite path ((afterAll read new (overwrite path change data)).below path)
        (afterAll read new data) := by
  refine (agreeBeside_overwrite change data).symm.afterAll.eq_overwrite solid ?_
  intro gone other isPrefix different
  refine afterAll_congr ?_
  rw [overwrite_above _ _ isPrefix different]
  by_cases nothing : change.IsEmpty
  · rw [if_pos nothing]
  · rw [if_neg nothing]
    refine safe.none_above_of_gone uncovered ?_ gone isPrefix different
    have written : (overwrite path change data).below path = change :=
      funext (overwrite_append path · change data)
    rwa [written]

/-- When the data is overwritten at a path that a write covers, the writes make the same of it. -/
theorem Safe.afterAll_covered (safe : data.Safe read new)
    (covered : ∃ write ∈ new, write.1 <+: path) (change : Data Key Item) :
    afterAll read new (overwrite path change data) = afterAll read new data := by
  obtain ⟨write, member, covers⟩ := covered
  funext other
  by_cases hidden : write.1 <+: other
  · obtain ⟨rest, rfl⟩ := hidden
    refine afterAll_fixed ⟨write, member, fun first second => ?_⟩
    rw [overwrite_append, overwrite_append]
  by_cases isPrefix : other <+: path
  · have above : other <+: write.1 :=
      (List.prefix_or_prefix_of_prefix isPrefix covers).resolve_right hidden
    have different : other ≠ write.1 := fun same => hidden (same ▸ List.prefix_refl other)
    by_cases nothing : (read write.2).IsEmpty
    · refine afterAll_congr ?_
      have noItem := safe write member nothing other above different
      rw [noItem]
      refine overwrite_none_above _ isPrefix (fun same => hidden ?_) noItem
      exact same ▸ covers
    · refine afterAll_fixed ⟨write, member, fun first second => ?_⟩
      rw [overwrite_above _ _ above different, overwrite_above _ _ above different, if_neg nothing,
        if_neg nothing]
  · refine afterAll_congr (overwrite_of_apart _ _ ⟨fun below => ?_, isPrefix⟩)
    exact hidden (covers.trans below)

/-- When the data under the writes changes below a path alone, what they make of it is brought up
to date by overwriting the path. -/
theorem afterAll_without (same : ∀ other, ¬ path <+: other → old other = data other)
    (solid : (afterAll read new data).Solid) :
    afterAll read new data =
      overwrite path ((afterAll read new data).below path) (afterAll read new old) := by
  have agree : AgreeBeside path old data := fun other beside => same other beside.1
  refine agree.afterAll.eq_overwrite solid fun _ other isPrefix different => ?_
  refine afterAll_congr (same other fun below => different ?_)
  exact isPrefix.eq_of_length_le below.length_le

/-- When an overwrite is taken from under the writes and they make the same below its path, they
make the same everywhere, if none of them covers the path. -/
theorem Safe.afterAll_without_eq {change : Data Key Item} (safe : data.Safe read new)
    (uncovered : ∀ write ∈ new, ¬ write.1 <+: path)
    (same : (afterAll read new (overwrite path change data)).below path =
      (afterAll read new data).below path)
    (oldSolid : (afterAll read new (overwrite path change data)).Solid)
    (solid : (afterAll read new data).Solid) :
    afterAll read new (overwrite path change data) = afterAll read new data := by
  have written : (overwrite path change data).below path = change :=
    funext (overwrite_append path · change data)
  funext other
  by_cases below : path <+: other
  · obtain ⟨rest, rfl⟩ := below
    exact congrFun same rest
  by_cases isPrefix : other <+: path
  · have different : other ≠ path := fun same => below (same ▸ List.prefix_refl other)
    by_cases gone : ((afterAll read new data).below path).IsEmpty
    · refine afterAll_congr ?_
      rw [overwrite_above _ _ isPrefix different]
      by_cases nothing : change.IsEmpty
      · rw [if_pos nothing]
      · rw [if_neg nothing]
        rw [← written] at nothing
        exact (safe.none_above_of_gone uncovered nothing (same ▸ gone) isPrefix different).symm
    · obtain ⟨rest, stored⟩ := not_forall.mp gone
      have strictly : other ≠ path ++ rest := fun same => below ⟨rest, same.symm⟩
      have within := isPrefix.trans (List.prefix_append path rest)
      rw [solid.none_above within strictly stored]
      refine oldSolid.none_above within strictly ?_
      intro vanished
      exact stored ((congrFun same rest).symm.trans vanished)
  · exact afterAll_congr (overwrite_of_apart _ _ ⟨below, isPrefix⟩)

/-! ### Children brought up to date one by one -/

/-- Overwrites the children under some keys with those of fresh data, unless they are skipped. -/
noncomputable def sweep (fresh : Data Key Item) (skipped : Key → Prop) (keys : List Key)
    (data : Data Key Item) : Data Key Item :=
  keys.foldl (fun data key => if skipped key then data else overwrite [key] (fresh.under key) data)
    data

theorem sweep_cons_skipped (skipped : Key → Prop) {key : Key} (skip : skipped key)
    (fresh : Data Key Item) (keys : List Key) (data : Data Key Item) :
    sweep fresh skipped (key :: keys) data = sweep fresh skipped keys data :=
  congrArg (sweep fresh skipped keys) (if_pos skip)

theorem sweep_cons_swept (skipped : Key → Prop) {key : Key} (skip : ¬ skipped key)
    (fresh : Data Key Item) (keys : List Key) (data : Data Key Item) :
    sweep fresh skipped (key :: keys) data =
      sweep fresh skipped keys (overwrite [key] (fresh.under key) data) :=
  congrArg (sweep fresh skipped keys) (if_neg skip)

/-- Sweeping makes data fresh when the children that are skipped, or not swept, already are. -/
theorem sweep_eq {skipped : Key → Prop} {keys : List Key} (solid : fresh.Solid)
    (root : data [] = fresh [])
    (others : ∀ key, key ∉ keys ∨ skipped key → data.under key = fresh.under key) :
    sweep fresh skipped keys data = fresh := by
  induction keys generalizing data with
  | nil =>
    funext path
    cases path with
    | nil => exact root
    | cons key path => exact congrFun (others key (Or.inl List.not_mem_nil)) path
  | cons key rest inductionHypothesis =>
    by_cases skip : skipped key
    · rw [sweep_cons_skipped skipped skip]
      refine inductionHypothesis root fun other missing => ?_
      rcases missing with missing | skipped
      · by_cases same : other = key
        · exact others other (Or.inr (same ▸ skip))
        · exact others other (Or.inl fun member =>
            (List.mem_cons.mp member).elim same missing)
      · exact others other (Or.inr skipped)
    · rw [sweep_cons_swept skipped skip]
      refine inductionHypothesis ?_ fun other missing => ?_
      · rw [overwrite_cons_nil, root]
        split
        · rfl
        · rename_i stored
          obtain ⟨path, item⟩ := not_forall.mp stored
          exact (solid.none_at_root item).symm
      · by_cases same : other = key
        · subst same
          exact funext fun path => overwrite_cons_self _ _
        · refine (funext fun path => overwrite_cons_ne _ _ same).trans (others other ?_)
          exact missing.imp_left fun missing member =>
            (List.mem_cons.mp member).elim same missing

/-- Data between two safe ones is safe. -/
theorem Safe.between (firstSafe : first.Safe read new) (secondSafe : second.Safe read new)
    (between : ∀ path, data path = first path ∨ data path = second path ∨ data path = none) :
    data.Safe read new := by
  intro write member nothing above isPrefix different
  rcases between above with same | same | same
  · rw [same]
    exact firstSafe write member nothing above isPrefix different
  · rw [same]
    exact secondSafe write member nothing above isPrefix different
  · exact same

end Data

namespace Writes

variable {update : Node → List Key → Node → Node} {Valid : Node → Prop} {writes : Writes Key Node}
  {node : Node}

/-- Every write is of the data at its path. -/
def Mirrors (read : Node → Data Key Item) (writes : Writes Key Node) (data : Data Key Item) : Prop :=
  ∀ path node, writes path = some node → read node = data.below path

theorem mirrors_empty : Mirrors read (Writes.empty : Writes Key Node) data :=
  fun _ _ written => absurd written (Option.some_ne_none _).symm

/-- Adding a write of the data at its path keeps the writes so. -/
theorem Mirrors.add (lawful : Lawful read update Valid) (valid : Valid node)
    (allValid : writes.AllValid Valid) (solid : data.Solid) (mirrors : Mirrors read writes data)
    (same : read node = data.below path) :
    Mirrors read (Writes.add update path node writes) data := by
  induction path generalizing writes data with
  | nil =>
    intro other found written
    cases other with
    | nil => rw [← Option.some.inj written, same]
    | cons key other => cases written
  | cons front rest inductionHypothesis =>
    cases here : writes [] with
    | some shadow =>
      intro other found written
      cases other with
      | nil =>
        rw [(add_shadowed here).1] at written
        rw [← Option.some.inj written, lawful.read_update shadow _ node (allValid [] shadow here) valid,
          mirrors [] shadow here, same]
        exact solid.overwrite_self (front :: rest)
      | cons key other =>
        rw [(add_shadowed here).2] at written
        exact mirrors (key :: other) found written
    | none =>
      intro other found written
      cases other with
      | nil =>
        rw [add_open_nil here] at written
        cases written
      | cons key other =>
        rw [add_open_cons here] at written
        by_cases sameKey : key = front
        · subst sameKey
          rw [if_pos rfl] at written
          exact inductionHypothesis (fun path => allValid (key :: path))
            (fun path => solid (key :: path)) (fun path => mirrors (key :: path)) same other found
            written
        · rw [if_neg sameKey] at written
          exact mirrors (key :: other) found written

theorem mirrors_layer (lawful : Lawful read update Valid) (solid : data.Solid)
    (valid : ∀ write ∈ new, Valid write.2)
    (mirrored : ∀ write ∈ new, read write.2 = data.below write.1)
    (allValid : writes.AllValid Valid) (mirrors : Mirrors read writes data) :
    Mirrors read (layer update new writes) data := by
  induction new generalizing writes with
  | nil => exact mirrors
  | cons write rest inductionHypothesis =>
    obtain ⟨firstValid, laterValid⟩ := List.forall_mem_cons.mp valid
    obtain ⟨first, later⟩ := List.forall_mem_cons.mp mirrored
    rw [layer_cons]
    exact inductionHypothesis laterValid later (allValid.add lawful firstValid)
      (mirrors.add lawful firstValid allValid solid first)

end Writes

end Overlay
