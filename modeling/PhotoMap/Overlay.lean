/-
This file is about data kept in a tree: an item or nothing at every path, and
nothing below an item. Data that is written below an item removes the item, and
writing no data removes what was there. Writes that are not yet part of the
data are kept in a map from paths to nodes, and the map is laid over the data
when it is read. Adding a write to the map does to what is read what writing
does to the data, as long as no write of nothing goes below an item, and a write
can be taken out of the map again when the others are apart from it.
-/

import Mathlib.Data.List.Infix

namespace Overlay

open Classical

variable {Key Item Node : Type*}

/-- Neither path is at or above the other one. -/
def Apart (first second : List Key) : Prop := ¬ first <+: second ∧ ¬ second <+: first

theorem Apart.symm {first second : List Key} (apart : Apart first second) : Apart second first :=
  And.symm apart

theorem apart_cons_iff {key : Key} {first second : List Key} :
    Apart (key :: first) (key :: second) ↔ Apart first second := by
  rw [Apart, Apart, List.prefix_cons_inj, List.prefix_cons_inj]

theorem apart_of_ne {key other : Key} {first second : List Key} (different : key ≠ other) :
    Apart (key :: first) (other :: second) := by
  constructor
  · rintro ⟨tail, same⟩
    exact different (List.cons.inj same).1
  · rintro ⟨tail, same⟩
    exact different (List.cons.inj same).1.symm

/-! ### Data -/

/-- The item at each path. -/
abbrev Data (Key Item : Type*) := List Key → Option Item

namespace Data

def IsEmpty (data : Data Key Item) : Prop := ∀ path, data path = none

/-- What is stored under a key. -/
def under (data : Data Key Item) (key : Key) : Data Key Item := fun path => data (key :: path)

/-- What is stored below a path. -/
def below (data : Data Key Item) (root : List Key) : Data Key Item := fun path => data (root ++ path)

/-- Replaces what is stored at a path. An item above the path stays only when nothing is
written. -/
noncomputable def overwrite : List Key → Data Key Item → Data Key Item → Data Key Item
  | [], new, _ => new
  | front :: rest, new, data => fun
    | [] => if new.IsEmpty then data [] else none
    | key :: path =>
      if key = front then overwrite rest new (data.under front) path else data (key :: path)

/-- No item is stored above the path. -/
def NoItemAbove (data : Data Key Item) (path : List Key) : Prop :=
  ∀ above, above <+: path → above ≠ path → data above = none

/-- Nothing that is written removes an item above it. -/
def Safe (read : Node → Data Key Item) (new : List (List Key × Node)) (data : Data Key Item) :
    Prop :=
  ∀ write ∈ new, (read write.2).IsEmpty → data.NoItemAbove write.1

/-- The data after writes made one after the other. -/
noncomputable def afterAll (read : Node → Data Key Item) (new : List (List Key × Node))
    (data : Data Key Item) : Data Key Item :=
  new.foldl (fun data write => overwrite write.1 (read write.2) data) data

theorem afterAll_append (read : Node → Data Key Item) (first second : List (List Key × Node))
    (data : Data Key Item) :
    afterAll read (first ++ second) data = afterAll read second (afterAll read first data) :=
  List.foldl_append

theorem overwrite_cons_nil {front : Key} {rest : List Key} (new data : Data Key Item) :
    overwrite (front :: rest) new data [] = if new.IsEmpty then data [] else none := rfl

theorem overwrite_cons_self {key : Key} {rest path : List Key} (new data : Data Key Item) :
    overwrite (key :: rest) new data (key :: path) =
      overwrite rest new (data.under key) path := if_pos rfl

theorem overwrite_cons_ne {front key : Key} {rest path : List Key} (new data : Data Key Item)
    (different : key ≠ front) :
    overwrite (front :: rest) new data (key :: path) = data (key :: path) := if_neg different

/-- Writing is read below the path, and leaves everything beside it. -/
theorem overwrite_append (path rest : List Key) (new data : Data Key Item) :
    overwrite path new data (path ++ rest) = new rest := by
  induction path generalizing data with
  | nil => rfl
  | cons front path inductionHypothesis =>
    rw [List.cons_append, overwrite_cons_self]
    exact inductionHypothesis _

theorem overwrite_of_apart {path other : List Key} (new data : Data Key Item)
    (apart : Apart path other) : overwrite path new data other = data other := by
  induction path generalizing data other with
  | nil => exact absurd List.nil_prefix apart.1
  | cons front path inductionHypothesis =>
    cases other with
    | nil => exact absurd List.nil_prefix apart.2
    | cons key other =>
      by_cases same : key = front
      · subst same
        rw [overwrite_cons_self, inductionHypothesis _ (apart_cons_iff.mp apart)]
        rfl
      · exact overwrite_cons_ne new data same

/-- Writing nothing removes at most what is there. -/
theorem IsEmpty.overwrite {path : List Key} {new data : Data Key Item} (nothing : new.IsEmpty)
    (empty : data.IsEmpty) : (Data.overwrite path new data).IsEmpty := by
  induction path generalizing data with
  | nil => exact nothing
  | cons front path inductionHypothesis =>
    intro other
    cases other with
    | nil =>
      rw [overwrite_cons_nil, if_pos nothing]
      exact empty []
    | cons key other =>
      by_cases same : key = front
      · subst same
        rw [overwrite_cons_self]
        exact inductionHypothesis (fun path => empty (key :: path)) other
      · rw [overwrite_cons_ne new data same]
        exact empty (key :: other)

/-- Below a path, a write there or further down is the write of what is left of its path. -/
theorem overwrite_below (root rest : List Key) (new data : Data Key Item) :
    (overwrite (root ++ rest) new data).below root = overwrite rest new (data.below root) := by
  induction root generalizing data with
  | nil => rfl
  | cons key root inductionHypothesis =>
    refine Eq.trans ?_ (inductionHypothesis (data.under key))
    exact funext fun path => overwrite_cons_self new data

/-- The same data with every item replaced by its image. -/
def map {Image : Type*} (image : Item → Image) (data : Data Key Item) : Data Key Image :=
  fun path => (data path).map image

theorem isEmpty_map_iff {Image : Type*} (image : Item → Image) (data : Data Key Item) :
    (data.map image).IsEmpty ↔ data.IsEmpty :=
  forall_congr' fun _ => Option.map_eq_none_iff

theorem map_overwrite {Image : Type*} (image : Item → Image) (path : List Key)
    (new data : Data Key Item) :
    (overwrite path new data).map image = overwrite path (new.map image) (data.map image) := by
  induction path generalizing data with
  | nil => rfl
  | cons front rest inductionHypothesis =>
    funext other
    cases other with
    | nil =>
      rw [map, overwrite_cons_nil, overwrite_cons_nil, if_congr (isEmpty_map_iff image new) rfl rfl]
      split <;> rfl
    | cons key other =>
      by_cases same : key = front
      · subst same
        rw [overwrite_cons_self]
        refine Eq.trans ?_ (congrFun (inductionHypothesis (data.under key)) other)
        rw [map, overwrite_cons_self, map]
      · rw [overwrite_cons_ne _ _ same, map, overwrite_cons_ne _ _ same, map]

theorem not_isEmpty_overwrite {path : List Key} {new data : Data Key Item}
    (something : ¬ new.IsEmpty) : ¬ (Data.overwrite path new data).IsEmpty := by
  intro empty
  refine something fun rest => ?_
  rw [← overwrite_append path rest new data]
  exact empty (path ++ rest)

end Data

/-! ### Writes as they are seen from a path -/

/-- Writes as they are seen from a path: one below it by the rest of its path, one above it as
a write of the part that is below the path, and one beside it not at all. -/
inductive SeenFrom (read : Node → Data Key Item) (root : List Key) :
    List (List Key × Node) → List (List Key × Node) → Prop
  | nil : SeenFrom read root [] []
  | inside (rest : List Key) (node : Node) {new seen : List (List Key × Node)}
    (others : SeenFrom read root new seen) :
    SeenFrom read root ((root ++ rest, node) :: new) ((rest, node) :: seen)
  | above {path rest : List Key} {node part : Node} {new seen : List (List Key × Node)}
    (place : root = path ++ rest) (cut : read part = (read node).below rest)
    (others : SeenFrom read root new seen) :
    SeenFrom read root ((path, node) :: new) (([], part) :: seen)
  | beside {write : List Key × Node} {new seen : List (List Key × Node)}
    (apart : Apart write.1 root) (others : SeenFrom read root new seen) :
    SeenFrom read root (write :: new) seen

namespace SeenFrom

variable {read : Node → Data Key Item} {root : List Key} {new seen : List (List Key × Node)}

theorem append {new' seen' : List (List Key × Node)} (first : SeenFrom read root new seen)
    (second : SeenFrom read root new' seen') :
    SeenFrom read root (new ++ new') (seen ++ seen') := by
  induction first with
  | nil => exact second
  | inside rest node _ inductionHypothesis => exact inductionHypothesis.inside rest node
  | above place cut _ inductionHypothesis => exact inductionHypothesis.above place cut
  | beside apart _ inductionHypothesis => exact inductionHypothesis.beside apart

theorem of_beside (apart : ∀ write ∈ new, Apart write.1 root) : SeenFrom read root new [] := by
  induction new with
  | nil => exact .nil
  | cons write rest inductionHypothesis =>
    exact .beside (apart write List.mem_cons_self)
      (inductionHypothesis fun write member => apart write (List.mem_cons_of_mem _ member))

/-- What is seen covers a path exactly when the writes do. -/
theorem covered_iff (seenFrom : SeenFrom read root new seen) (cut : List Key) :
    (∃ write ∈ seen, write.1 <+: cut) ↔ ∃ write ∈ new, write.1 <+: root ++ cut := by
  induction seenFrom with
  | nil => simp
  | inside rest node _ inductionHypothesis =>
    rw [List.exists_mem_cons_iff, List.exists_mem_cons_iff, inductionHypothesis,
      List.prefix_append_right_inj]
  | above place _ _ inductionHypothesis =>
    rw [List.exists_mem_cons_iff, List.exists_mem_cons_iff, inductionHypothesis, place,
      List.append_assoc]
    simp
  | @beside write _ _ apart _ inductionHypothesis =>
    rw [List.exists_mem_cons_iff, inductionHypothesis]
    refine (or_iff_right fun isPrefix => ?_).symm
    rcases List.prefix_or_prefix_of_prefix isPrefix (List.prefix_append root cut) with
      above | below
    · exact apart.1 above
    · exact apart.2 below

/-- Making the writes is, below the path, making those that are seen from it. -/
theorem afterAll_below (seenFrom : SeenFrom read root new seen) (data : Data Key Item) :
    (Data.afterAll read new data).below root = Data.afterAll read seen (data.below root) := by
  induction seenFrom generalizing data with
  | nil => rfl
  | inside rest node _ inductionHypothesis =>
    refine (inductionHypothesis _).trans (congrArg (Data.afterAll read _) ?_)
    exact Data.overwrite_below root rest (read node) data
  | @above path rest node part _ _ place cut _ inductionHypothesis =>
    refine (inductionHypothesis _).trans (congrArg (Data.afterAll read _) ?_)
    refine Eq.trans ?_ cut.symm
    funext other
    show Data.overwrite path (read node) data (root ++ other) = read node (rest ++ other)
    rw [place, List.append_assoc, Data.overwrite_append]
  | @beside write _ _ apart _ inductionHypothesis =>
    refine (inductionHypothesis _).trans (congrArg (Data.afterAll read _) ?_)
    funext other
    refine Data.overwrite_of_apart _ _ ⟨fun isPrefix => ?_, fun isPrefix => ?_⟩
    · rcases List.prefix_or_prefix_of_prefix isPrefix (List.prefix_append root other) with
        before | after
      · exact apart.1 before
      · exact apart.2 after
    · exact apart.2 ((List.prefix_append root other).trans isPrefix)

/-- What is seen of safe writes is safe. -/
theorem safe (seenFrom : SeenFrom read root new seen) {data : Data Key Item}
    (holds : data.Safe read new) : (data.below root).Safe read seen := by
  induction seenFrom with
  | nil => exact fun write member => absurd member List.not_mem_nil
  | inside rest node _ inductionHypothesis =>
    obtain ⟨first, later⟩ := List.forall_mem_cons.mp holds
    refine List.forall_mem_cons.mpr ⟨fun nothing above isPrefix different => ?_,
      inductionHypothesis later⟩
    refine first nothing (root ++ above) ((List.prefix_append_right_inj root).mpr isPrefix) ?_
    exact fun same => different (List.append_cancel_left same)
  | above place cut _ inductionHypothesis =>
    refine List.forall_mem_cons.mpr ⟨fun _ above isPrefix different => ?_,
      inductionHypothesis (List.forall_mem_cons.mp holds).2⟩
    exact absurd (List.prefix_nil.mp isPrefix) different
  | beside apart _ inductionHypothesis =>
    exact inductionHypothesis (List.forall_mem_cons.mp holds).2

end SeenFrom

/-! ### Writes laid over data -/

/-- The node written at each path. -/
abbrev Writes (Key Node : Type*) := List Key → Option Node

namespace Writes

/-- No write. -/
def empty : Writes Key Node := fun _ => none

def under (writes : Writes Key Node) (key : Key) : Writes Key Node :=
  fun path => writes (key :: path)

/-- Adds a write. One below an earlier write becomes part of it, and the writes below a new one
are forgotten. -/
noncomputable def add (update : Node → List Key → Node → Node) :
    List Key → Node → Writes Key Node → Writes Key Node
  | [], node, _ => fun
    | [] => some node
    | _ :: _ => none
  | front :: rest, node, writes =>
    match writes [] with
    | some shadow => fun
      | [] => some (update shadow (front :: rest) node)
      | key :: path => writes (key :: path)
    | none => fun
      | [] => none
      | key :: path =>
        if key = front then add update rest node (writes.under front) path
        else writes (key :: path)

/-- Adds writes one after the other. -/
noncomputable def layer (update : Node → List Key → Node → Node) (new : List (List Key × Node))
    (writes : Writes Key Node) : Writes Key Node :=
  new.foldl (fun writes write => add update write.1 write.2 writes) writes

/-- Forgets the writes at some paths and below them. -/
noncomputable def forget (paths : List (List Key)) (writes : Writes Key Node) :
    Writes Key Node :=
  fun other => if ∃ path ∈ paths, path <+: other then none else writes other

/-- The write on the way to a path that is closest to the root, and the rest of the way. -/
def find : List Key → Writes Key Node → Option (Node × List Key)
  | [], writes => (writes []).map fun node => (node, [])
  | key :: path, writes =>
    match writes [] with
    | some node => some (node, key :: path)
    | none => find path (writes.under key)

section Over

variable (read : Node → Data Key Item)

/-- One of the writes stores an item. -/
def Stores (writes : Writes Key Node) : Prop :=
  ∃ path node, writes path = some node ∧ ¬ (read node).IsEmpty

/-- The item at a path when the writes are laid over the data. -/
noncomputable def overlaid : List Key → Writes Key Node → Data Key Item → Option Item
  | [], writes, data =>
    match writes [] with
    | some node => read node []
    | none => if writes.Stores read then none else data []
  | key :: path, writes, data =>
    match writes [] with
    | some node => read node (key :: path)
    | none => overlaid path (writes.under key) (data.under key)

end Over

theorem exists_of_find {path rest : List Key} {writes : Writes Key Node} {node : Node}
    (found : find path writes = some (node, rest)) :
    ∃ above, writes above = some node ∧ path = above ++ rest := by
  induction path generalizing writes with
  | nil =>
    obtain ⟨_, written, same⟩ := Option.map_eq_some_iff.mp found
    cases same
    exact ⟨[], written, rfl⟩
  | cons key path inductionHypothesis =>
    cases here : writes [] with
    | some node =>
      rw [find, here] at found
      cases found
      exact ⟨[], here, rfl⟩
    | none =>
      rw [find, here] at found
      obtain ⟨above, written, same⟩ := inductionHypothesis found
      exact ⟨key :: above, written, congrArg (List.cons key) same⟩

/-- No write is found exactly when there is none on the way. -/
theorem find_eq_none_iff {path : List Key} {writes : Writes Key Node} :
    find path writes = none ↔ ∀ above, above <+: path → writes above = none := by
  constructor
  · intro nothing
    induction path generalizing writes with
    | nil =>
      intro above isPrefix
      rw [List.prefix_nil.mp isPrefix]
      exact Option.map_eq_none_iff.mp nothing
    | cons key path inductionHypothesis =>
      cases here : writes [] with
      | some node =>
        rw [find, here] at nothing
        cases nothing
      | none =>
        rw [find, here] at nothing
        intro above isPrefix
        cases above with
        | nil => exact here
        | cons front above =>
          obtain ⟨rfl, tail⟩ := List.cons_prefix_cons.mp isPrefix
          exact inductionHypothesis nothing above tail
  · intro none
    cases found : find path writes with
    | none => rfl
    | some node =>
      obtain ⟨above, written, same⟩ := exists_of_find found
      rw [none above ⟨_, same.symm⟩] at written
      cases written

/-- A write at the path or on the way to it. -/
def Covers (writes : Writes Key Node) (path : List Key) : Prop :=
  ∃ above, above <+: path ∧ writes above ≠ none

/-! ### Adding a write -/

section Add

variable {update : Node → List Key → Node → Node} {writes : Writes Key Node} {node shadow : Node}
  {front key : Key} {rest path other : List Key}

theorem add_shadowed (shadowed : writes [] = some shadow) :
    add update (front :: rest) node writes [] = some (update shadow (front :: rest) node) ∧
      ∀ key path, add update (front :: rest) node writes (key :: path) = writes (key :: path) := by
  rw [add, shadowed]
  exact ⟨rfl, fun _ _ => rfl⟩

theorem add_open_nil (isOpen : writes [] = none) :
    add update (front :: rest) node writes [] = none := by
  rw [add, isOpen]

theorem add_open_cons (isOpen : writes [] = none) :
    add update (front :: rest) node writes (key :: path) =
      if key = front then add update rest node (writes.under front) path
      else writes (key :: path) := by
  rw [add, isOpen]

theorem add_under_same (isOpen : writes [] = none) :
    (add update (front :: rest) node writes).under front =
      add update rest node (writes.under front) := by
  funext path
  rw [under, add_open_cons isOpen, if_pos rfl]

theorem add_under_ne (isOpen : writes [] = none) (different : key ≠ front) :
    (add update (front :: rest) node writes).under key = writes.under key := by
  funext path
  rw [under, add_open_cons isOpen, if_neg different]
  rfl

/-- Adding a write changes only the write at its path, the one above it and those below it. -/
theorem add_of_not_below (notBelow : ¬ path <+: other)
    (isOpen : other <+: path → writes other = none) :
    add update path node writes other = writes other := by
  induction path generalizing writes other with
  | nil => exact absurd List.nil_prefix notBelow
  | cons front rest inductionHypothesis =>
    cases shadowed : writes [] with
    | some shadow =>
      cases other with
      | nil =>
        rw [isOpen List.nil_prefix] at shadowed
        cases shadowed
      | cons key other => exact (add_shadowed shadowed).2 key other
    | none =>
      cases other with
      | nil => rw [add_open_nil shadowed, shadowed]
      | cons key other =>
        rw [add_open_cons shadowed]
        split
        · rename_i same
          subst same
          rw [List.prefix_cons_inj] at notBelow isOpen
          exact inductionHypothesis notBelow isOpen
        · rfl

/-- A write with no other one above it is kept as it is. -/
theorem add_self (isOpen : ∀ above, above <+: path → above ≠ path → writes above = none) :
    add update path node writes path = some node := by
  induction path generalizing writes with
  | nil => rfl
  | cons front rest inductionHypothesis =>
    rw [add_open_cons (isOpen [] List.nil_prefix (List.cons_ne_nil front rest).symm), if_pos rfl]
    refine inductionHypothesis fun above isPrefix different => ?_
    exact isOpen (front :: above) ((List.prefix_cons_inj front).mpr isPrefix)
      fun same => different (List.cons.inj same).2

theorem add_of_below (isOpen : ∀ above, above <+: path → above ≠ path → writes above = none)
    (below : path <+: other) (different : path ≠ other) :
    add update path node writes other = none := by
  induction path generalizing writes other with
  | nil =>
    cases other with
    | nil => exact absurd rfl different
    | cons key other => rfl
  | cons front rest inductionHypothesis =>
    obtain ⟨tail, rfl⟩ := below
    rw [List.cons_append,
      add_open_cons (isOpen [] List.nil_prefix (List.cons_ne_nil front rest).symm), if_pos rfl]
    refine inductionHypothesis (fun above isPrefix different => ?_) (List.prefix_append rest tail)
      fun same => different ?_
    · exact isOpen (front :: above) ((List.prefix_cons_inj front).mpr isPrefix)
        fun same => different (List.cons.inj same).2
    · rw [List.cons_append, ← same]

/-- Adding reads the writes on the way to the path, and the one that is asked for. -/
theorem add_congr {writes' : Writes Key Node}
    (onTheWay : ∀ above, above <+: path → writes above = writes' above)
    (there : writes other = writes' other) :
    add update path node writes other = add update path node writes' other := by
  induction path generalizing writes writes' other with
  | nil => rfl
  | cons front rest inductionHypothesis =>
    have here := onTheWay [] List.nil_prefix
    cases shadowed : writes [] with
    | some shadow =>
      rw [shadowed] at here
      cases other with
      | nil => rw [(add_shadowed shadowed).1, (add_shadowed here.symm).1]
      | cons key other => rw [(add_shadowed shadowed).2, (add_shadowed here.symm).2, there]
    | none =>
      rw [shadowed] at here
      cases other with
      | nil => rw [add_open_nil shadowed, add_open_nil here.symm]
      | cons key other =>
        rw [add_open_cons shadowed, add_open_cons here.symm]
        split
        · rename_i same
          subst same
          exact inductionHypothesis
            (fun above isPrefix => onTheWay (key :: above) ((List.prefix_cons_inj key).mpr isPrefix))
            there
        · exact there

/-- What is written afterwards was written before or is the new write. -/
theorem written_of_add (written : add update path node writes other ≠ none) :
    writes other ≠ none ∨ other = path := by
  induction path generalizing writes other with
  | nil =>
    cases other with
    | nil => exact Or.inr rfl
    | cons key other => exact absurd rfl written
  | cons front rest inductionHypothesis =>
    cases shadowed : writes [] with
    | some shadow =>
      left
      cases other with
      | nil =>
        rw [shadowed]
        exact Option.some_ne_none shadow
      | cons key other => rwa [(add_shadowed shadowed).2] at written
    | none =>
      cases other with
      | nil => exact absurd (add_open_nil shadowed) written
      | cons key other =>
        rw [add_open_cons shadowed] at written
        split at written
        · rename_i same
          subst same
          exact (inductionHypothesis written).imp_right (congrArg (List.cons key))
        · exact Or.inl written

end Add

/-! ### Reading through the writes -/

section Over

variable {read : Node → Data Key Item} {update : Node → List Key → Node → Node}
  {Valid : Node → Prop} {writes : Writes Key Node} {data : Data Key Item} {node shadow : Node}
  {front key : Key} {rest path other : List Key}

theorem overlaid_shadowed (shadowed : writes [] = some shadow) :
    overlaid read other writes data = read shadow other := by
  cases other <;> rw [overlaid, shadowed]

theorem overlaid_open_nil (isOpen : writes [] = none) :
    overlaid read [] writes data = if writes.Stores read then none else data [] := by
  rw [overlaid, isOpen]

theorem overlaid_open_cons (isOpen : writes [] = none) :
    overlaid read (key :: path) writes data =
      overlaid read path (writes.under key) (data.under key) := by
  rw [overlaid, isOpen]

theorem overlaid_empty : overlaid read other empty data = data other := by
  induction other generalizing data with
  | nil =>
    rw [overlaid_open_nil rfl, if_neg]
    rintro ⟨path, node, written, -⟩
    cases written
  | cons key path inductionHypothesis =>
    rw [overlaid_open_cons rfl]
    exact inductionHypothesis

/-- Below a write nothing else is read. -/
theorem overlaid_append_of_find {tail : List Key} (found : find path writes = some (node, rest)) :
    overlaid read (path ++ tail) writes data = read node (rest ++ tail) := by
  induction path generalizing writes data with
  | nil =>
    rw [find, Option.map_eq_some_iff] at found
    obtain ⟨_, shadowed, same⟩ := found
    cases same
    exact overlaid_shadowed shadowed
  | cons key path inductionHypothesis =>
    cases shadowed : writes [] with
    | some shadow =>
      rw [find, shadowed] at found
      cases found
      exact overlaid_shadowed shadowed
    | none =>
      rw [find, shadowed] at found
      rw [List.cons_append, overlaid_open_cons shadowed]
      exact inductionHypothesis found

/-- Where no write is on the way, the writes below the path are laid over the data below it. -/
theorem overlaid_append_of_find_none {tail : List Key} (noWrite : find path writes = none) :
    overlaid read (path ++ tail) writes data =
      overlaid read tail (fun rest => writes (path ++ rest)) fun rest => data (path ++ rest) := by
  induction path generalizing writes data with
  | nil => rfl
  | cons key path inductionHypothesis =>
    cases shadowed : writes [] with
    | some shadow =>
      rw [find, shadowed] at noWrite
      cases noWrite
    | none =>
      rw [find, shadowed] at noWrite
      rw [List.cons_append, overlaid_open_cons shadowed]
      exact inductionHypothesis noWrite

/-- Updating a node writes to what is read from it, and keeps it valid. -/
structure Lawful (read : Node → Data Key Item) (update : Node → List Key → Node → Node)
    (Valid : Node → Prop) : Prop where
  read_update : ∀ node path new, Valid node → Valid new →
    read (update node path new) = Data.overwrite path (read new) (read node)
  valid_update : ∀ node path new, Valid node → Valid new → Valid (update node path new)

/-- Every node that is written is valid. -/
def AllValid (Valid : Node → Prop) (writes : Writes Key Node) : Prop :=
  ∀ path node, writes path = some node → Valid node

theorem AllValid.add (lawful : Lawful read update Valid) (valid : Valid node)
    (allValid : writes.AllValid Valid) : (Writes.add update path node writes).AllValid Valid := by
  induction path generalizing writes with
  | nil =>
    intro other written added
    cases other with
    | nil =>
      cases added
      exact valid
    | cons key other => cases added
  | cons front rest inductionHypothesis =>
    intro other written added
    cases shadowed : writes [] with
    | some shadow =>
      cases other with
      | nil =>
        rw [(add_shadowed shadowed).1] at added
        cases added
        exact lawful.valid_update shadow _ node (allValid [] shadow shadowed) valid
      | cons key other =>
        rw [(add_shadowed shadowed).2] at added
        exact allValid _ _ added
    | none =>
      cases other with
      | nil =>
        rw [add_open_nil shadowed] at added
        cases added
      | cons key other =>
        rw [add_open_cons shadowed] at added
        split at added
        · exact inductionHypothesis (fun path => allValid (front :: path)) other written added
        · exact allValid _ _ added

/-- A write of something is a write of something after it is added. -/
theorem stores_add (lawful : Lawful read update Valid) (valid : Valid node)
    (allValid : writes.AllValid Valid) (something : ¬ (read node).IsEmpty) :
    (add update path node writes).Stores read := by
  induction path generalizing writes with
  | nil => exact ⟨[], node, rfl, something⟩
  | cons front rest inductionHypothesis =>
    cases shadowed : writes [] with
    | some shadow =>
      refine ⟨[], _, (add_shadowed shadowed).1, ?_⟩
      rw [lawful.read_update shadow _ node (allValid [] shadow shadowed) valid]
      exact Data.not_isEmpty_overwrite something
    | none =>
      obtain ⟨path, written, added, stored⟩ :=
        @inductionHypothesis (writes.under front) fun path => allValid (front :: path)
      refine ⟨front :: path, written, ?_, stored⟩
      rw [add_open_cons shadowed, if_pos rfl, added]

/-- A write of nothing stores nothing that was not stored before. -/
theorem Stores.of_add (lawful : Lawful read update Valid) (valid : Valid node)
    (allValid : writes.AllValid Valid) (nothing : (read node).IsEmpty)
    (stores : (Writes.add update path node writes).Stores read) : writes.Stores read := by
  induction path generalizing writes with
  | nil =>
    obtain ⟨path, written, added, stored⟩ := stores
    cases path with
    | nil =>
      cases added
      exact absurd nothing stored
    | cons key path => cases added
  | cons front rest inductionHypothesis =>
    obtain ⟨path, written, added, stored⟩ := stores
    cases shadowed : writes [] with
    | some shadow =>
      cases path with
      | nil =>
        rw [(add_shadowed shadowed).1] at added
        cases added
        rw [lawful.read_update shadow _ node (allValid [] shadow shadowed) valid] at stored
        exact ⟨[], shadow, shadowed, fun empty => stored (nothing.overwrite empty)⟩
      | cons key path =>
        rw [(add_shadowed shadowed).2] at added
        exact ⟨key :: path, written, added, stored⟩
    | none =>
      cases path with
      | nil =>
        rw [add_open_nil shadowed] at added
        cases added
      | cons key path =>
        rw [add_open_cons shadowed] at added
        split at added
        · obtain ⟨path, written, there, stored⟩ := inductionHypothesis
            (fun path => allValid (front :: path)) ⟨path, written, added, stored⟩
          exact ⟨front :: path, written, there, stored⟩
        · exact ⟨key :: path, written, added, stored⟩

/-- Adding a write does to what is read what writing does to the data, when above a write of
nothing there is no item, or whatever is written under that place is kept. -/
theorem overlaid_add_of_kept (lawful : Lawful read update Valid) (valid : Valid node)
    (allValid : writes.AllValid Valid)
    (kept : (read node).IsEmpty → ∀ above, above <+: path → above ≠ path →
      data above = none ∨ ∀ below, writes (above ++ below) ≠ none →
        add update path node writes (above ++ below) = writes (above ++ below)) :
    overlaid read other (add update path node writes) data =
      Data.overwrite path (read node) (fun other => overlaid read other writes data) other := by
  induction path generalizing writes data other with
  | nil => exact overlaid_shadowed rfl
  | cons front rest inductionHypothesis =>
    cases shadowed : writes [] with
    | some shadow =>
      have same : (fun other => overlaid read other writes data) = read shadow :=
        funext fun other => overlaid_shadowed shadowed
      rw [overlaid_shadowed (add_shadowed shadowed).1, same,
        lawful.read_update shadow _ node (allValid [] shadow shadowed) valid]
    | none =>
      cases other with
      | nil =>
        rw [Data.overwrite_cons_nil, overlaid_open_nil (add_open_nil shadowed),
          overlaid_open_nil shadowed]
        by_cases nothing : (read node).IsEmpty
        · rw [if_pos nothing]
          rcases kept nothing [] List.nil_prefix (List.cons_ne_nil front rest).symm with
            noItem | unchanged
          · rw [noItem, ite_self, ite_self]
          · have same : (add update (front :: rest) node writes).Stores read ↔
                writes.Stores read := by
              refine ⟨Stores.of_add lawful valid allValid nothing, ?_⟩
              rintro ⟨path, written, there, stored⟩
              refine ⟨path, written, ?_, stored⟩
              rw [← there]
              refine unchanged path ?_
              rw [List.nil_append, there]
              exact Option.some_ne_none written
            rw [if_congr same rfl rfl]
        · rw [if_neg nothing, if_pos (stores_add lawful valid allValid nothing)]
      | cons key other =>
        rw [overlaid_open_cons (add_open_nil shadowed)]
        by_cases same : key = front
        · subst same
          rw [Data.overwrite_cons_self, add_under_same shadowed]
          have below : Data.under (fun other => overlaid read other writes data) key =
              fun path => overlaid read path (writes.under key) (data.under key) :=
            funext fun path => overlaid_open_cons shadowed
          rw [below]
          refine inductionHypothesis (fun path => allValid (key :: path)) ?_
          intro nothing above isPrefix different
          refine (kept nothing (key :: above) ((List.prefix_cons_inj key).mpr isPrefix)
            fun same => different (List.cons.inj same).2).imp_right fun unchanged below there => ?_
          have kept := unchanged below there
          rwa [List.cons_append, add_open_cons shadowed, if_pos rfl] at kept
        · rw [Data.overwrite_cons_ne _ _ same, overlaid_open_cons shadowed,
            add_under_ne shadowed same]

/-- Adding a write does to what is read what writing does to the data, when a write of nothing
has no item above it. -/
theorem overlaid_add (lawful : Lawful read update Valid) (valid : Valid node)
    (allValid : writes.AllValid Valid) (safe : (read node).IsEmpty → data.NoItemAbove path) :
    overlaid read other (add update path node writes) data =
      Data.overwrite path (read node) (fun other => overlaid read other writes data) other :=
  overlaid_add_of_kept lawful valid allValid fun nothing above isPrefix different =>
    Or.inl (safe nothing above isPrefix different)

/-- Adding a write that is apart from the earlier ones does to what is read what writing does to
the data. -/
theorem overlaid_add_of_apart (lawful : Lawful read update Valid) (valid : Valid node)
    (allValid : writes.AllValid Valid)
    (apart : ∀ other, writes other ≠ none → Apart path other) :
    overlaid read other (add update path node writes) data =
      Data.overwrite path (read node) (fun other => overlaid read other writes data) other :=
  overlaid_add_of_kept lawful valid allValid fun _ _ _ _ => Or.inr fun _ written =>
    add_of_not_below (apart _ written).1 fun isPrefix =>
      absurd isPrefix (apart _ written).2

/-! ### Layers -/

/-- A path stays covered when a write is added, and the write covers its own path. -/
theorem Covers.add {update : Node → List Key → Node → Node} {writes : Writes Key Node} {node : Node}
    {path other : List Key} (covered : writes.Covers other ∨ path <+: other) :
    (Writes.add update path node writes).Covers other := by
  induction path generalizing writes other with
  | nil => exact ⟨[], List.nil_prefix, Option.some_ne_none node⟩
  | cons front rest inductionHypothesis =>
    cases here : writes [] with
    | some shadow =>
      refine ⟨[], List.nil_prefix, ?_⟩
      rw [(add_shadowed here).1]
      exact Option.some_ne_none _
    | none =>
      cases other with
      | nil =>
        rcases covered with ⟨above, isPrefix, written⟩ | isPrefix
        · rw [List.prefix_nil.mp isPrefix] at written
          exact absurd here written
        · exact absurd (List.prefix_nil.mp isPrefix) (List.cons_ne_nil front rest)
      | cons key other =>
        by_cases same : key = front
        · subst same
          obtain ⟨above, isPrefix, written⟩ := @inductionHypothesis (writes.under key) other <| by
            rcases covered with ⟨above, isPrefix, written⟩ | isPrefix
            · cases above with
              | nil => exact absurd here written
              | cons front above =>
                obtain ⟨rfl, tail⟩ := List.cons_prefix_cons.mp isPrefix
                exact Or.inl ⟨above, tail, written⟩
            · exact Or.inr ((List.prefix_cons_inj key).mp isPrefix)
          refine ⟨key :: above, (List.prefix_cons_inj key).mpr isPrefix, ?_⟩
          rw [add_open_cons here, if_pos rfl]
          exact written
        · rcases covered with ⟨above, isPrefix, written⟩ | isPrefix
          · cases above with
            | nil => exact absurd here written
            | cons front' above =>
              obtain ⟨rfl, -⟩ := List.cons_prefix_cons.mp isPrefix
              refine ⟨front' :: above, isPrefix, ?_⟩
              rw [add_open_cons here, if_neg same]
              exact written
          · exact absurd (List.cons_prefix_cons.mp isPrefix).1.symm same

theorem layer_cons {write : List Key × Node} {new : List (List Key × Node)} :
    layer update (write :: new) writes =
      layer update new (add update write.1 write.2 writes) := rfl

theorem layer_append {first second : List (List Key × Node)} :
    layer update (first ++ second) writes = layer update second (layer update first writes) :=
  List.foldl_append

/-- Layering writes does to what is read what making them one after the other does to the
data. -/
theorem overlaid_layer (lawful : Lawful read update Valid) {new : List (List Key × Node)}
    (valid : ∀ write ∈ new, Valid write.2) (allValid : writes.AllValid Valid)
    (safe : data.Safe read new) :
    (fun other => overlaid read other (layer update new writes) data) =
      Data.afterAll read new fun other => overlaid read other writes data := by
  induction new generalizing writes with
  | nil => rfl
  | cons write rest inductionHypothesis =>
    rw [layer_cons, inductionHypothesis
      (fun write member => valid write (List.mem_cons_of_mem _ member))
      (allValid.add lawful (valid write List.mem_cons_self))
      fun write member => safe write (List.mem_cons_of_mem _ member)]
    show Data.afterAll read rest _ = Data.afterAll read rest _
    refine congrArg (Data.afterAll read rest) (funext fun other => ?_)
    exact overlaid_add lawful (valid write List.mem_cons_self) allValid (safe write List.mem_cons_self)

theorem allValid_empty : (empty : Writes Key Node).AllValid Valid :=
  fun _ _ written => absurd written (Option.some_ne_none _).symm

/-- Layered alone, writes are read as if they were made in the data. -/
theorem overlaid_layer_empty (lawful : Lawful read update Valid) {new : List (List Key × Node)}
    (valid : ∀ write ∈ new, Valid write.2) (safe : data.Safe read new) :
    (fun other => overlaid read other (layer update new empty) data) = Data.afterAll read new data := by
  have underneath : (fun other => overlaid read other empty data) = data :=
    funext fun other => overlaid_empty
  rw [overlaid_layer lawful valid allValid_empty safe, underneath]

/-- What is written in a layer is one of its writes. -/
theorem written_of_layer {new : List (List Key × Node)}
    (written : layer update new writes other ≠ none) :
    writes other ≠ none ∨ ∃ write ∈ new, write.1 = other := by
  induction new generalizing writes with
  | nil => exact Or.inl written
  | cons write rest inductionHypothesis =>
    rcases inductionHypothesis written with added | ⟨later, member, same⟩
    · exact (written_of_add added).imp_right fun same =>
        ⟨write, List.mem_cons_self, same.symm⟩
    · exact Or.inr ⟨later, List.mem_cons_of_mem _ member, same⟩

/-- A layer covers what its writes cover. -/
theorem covers_layer_iff {new : List (List Key × Node)} :
    (layer update new writes).Covers other ↔
      writes.Covers other ∨ ∃ write ∈ new, write.1 <+: other := by
  constructor
  · rintro ⟨above, isPrefix, written⟩
    rcases written_of_layer written with before | ⟨write, member, rfl⟩
    · exact Or.inl ⟨above, isPrefix, before⟩
    · exact Or.inr ⟨write, member, isPrefix⟩
  · intro covered
    induction new generalizing writes with
    | nil => exact covered.resolve_right fun ⟨write, member, _⟩ => List.not_mem_nil member
    | cons write rest inductionHypothesis =>
      rw [layer_cons]
      refine inductionHypothesis ?_
      rcases covered with before | ⟨found, member, isPrefix⟩
      · exact Or.inl (Covers.add (Or.inl before))
      · rcases List.mem_cons.mp member with rfl | later
        · exact Or.inl (Covers.add (Or.inr isPrefix))
        · exact Or.inr ⟨found, later, isPrefix⟩

/-- Layering writes that are apart from each other does to what is read what making them one
after the other does to the data, whatever they write. -/
theorem overlaid_layer_of_apart (lawful : Lawful read update Valid) {new : List (List Key × Node)}
    (valid : ∀ write ∈ new, Valid write.2) (allValid : writes.AllValid Valid)
    (apart : new.Pairwise fun first second => Apart first.1 second.1)
    (outside : ∀ write ∈ new, ∀ other, writes other ≠ none → Apart write.1 other) :
    (fun other => overlaid read other (layer update new writes) data) =
      Data.afterAll read new fun other => overlaid read other writes data := by
  induction new generalizing writes with
  | nil => rfl
  | cons write rest inductionHypothesis =>
    obtain ⟨first, later⟩ := List.pairwise_cons.mp apart
    rw [layer_cons, inductionHypothesis
      (fun write member => valid write (List.mem_cons_of_mem _ member))
      (allValid.add lawful (valid write List.mem_cons_self)) later ?_]
    · show Data.afterAll read rest _ = Data.afterAll read rest _
      refine congrArg (Data.afterAll read rest) (funext fun other => ?_)
      exact overlaid_add_of_apart lawful (valid write List.mem_cons_self) allValid
        (outside write List.mem_cons_self)
    · intro next member other written
      rcases written_of_add written with before | rfl
      · exact outside next (List.mem_cons_of_mem _ member) other before
      · exact (first next member).symm

theorem apart_empty (path : List Key) (other : List Key) :
    (empty : Writes Key Node) other ≠ none → Apart path other :=
  fun written => absurd rfl written

/-- Layered alone, writes that are apart are read as if they were made in the data. -/
theorem overlaid_layer_empty_of_apart (lawful : Lawful read update Valid)
    {new : List (List Key × Node)} (valid : ∀ write ∈ new, Valid write.2)
    (apart : new.Pairwise fun first second => Apart first.1 second.1) :
    (fun other => overlaid read other (layer update new empty) data) = Data.afterAll read new data := by
  have underneath : (fun other => overlaid read other empty data) = data :=
    funext fun other => overlaid_empty
  rw [overlaid_layer_of_apart lawful valid allValid_empty apart fun write _ => apart_empty write.1,
    underneath]

/-- Writes that are apart from each other are all there in their layer, and nothing else is. -/
theorem layer_eq_some_iff {new : List (List Key × Node)}
    (apart : new.Pairwise fun first second => Apart first.1 second.1)
    (outside : ∀ write ∈ new, ∀ other, writes other ≠ none → Apart write.1 other) :
    layer update new writes other = some node ↔
      writes other = some node ∨ (other, node) ∈ new := by
  induction new generalizing writes with
  | nil => simp [layer]
  | cons write rest inductionHypothesis =>
    obtain ⟨first, later⟩ := List.pairwise_cons.mp apart
    have outsideFirst := outside write List.mem_cons_self
    have unwritten : ∀ other, write.1 <+: other ∨ other <+: write.1 → writes other = none := by
      intro other related
      by_contra written
      rcases related with below | above
      · exact (outsideFirst other written).1 below
      · exact (outsideFirst other written).2 above
    have added : add update write.1 write.2 writes other = some node ↔
        writes other = some node ∨ (other, node) = write := by
      by_cases below : write.1 <+: other
      · rw [unwritten other (Or.inl below)]
        by_cases same : write.1 = other
        · subst same
          rw [add_self fun above isPrefix _ => unwritten above (Or.inr isPrefix)]
          simp [Prod.ext_iff, eq_comm]
        · rw [add_of_below (fun above isPrefix _ => unwritten above (Or.inr isPrefix)) below same]
          simp [Prod.ext_iff, Ne.symm same]
      · rw [add_of_not_below below fun above => unwritten other (Or.inr above)]
        refine (or_iff_left ?_).symm
        rintro rfl
        exact below (List.prefix_refl _)
    rw [layer_cons, inductionHypothesis later ?_, added, List.mem_cons, or_assoc]
    intro next member other written
    rcases written_of_add written with before | rfl
    · exact outside next (List.mem_cons_of_mem _ member) other before
    · exact (first next member).symm

end Over

/-! ### Taking writes out of a layer -/

/-- Two maps agree outside some paths, and the first one has no write above them. -/
structure AgreeOutside (paths : List (List Key)) (first second : Writes Key Node) : Prop where
  same : ∀ other, (∀ path ∈ paths, ¬ path <+: other) → first other = second other
  noneAbove : ∀ path ∈ paths, ∀ above, above <+: path → above ≠ path → first above = none

section Forget

variable {update : Node → List Key → Node → Node} {first second : Writes Key Node} {node : Node}
  {paths : List (List Key)} {path place : List Key}
  {before removed after : List (List Key × Node)}

/-- What is above a path has no write in the other map either, when the paths are not above each
other. -/
theorem AgreeOutside.noneAbove_second (agree : AgreeOutside [place] first second)
    {above : List Key} (isPrefix : above <+: place) (different : above ≠ place) :
    second above = none := by
  rw [← agree.same above ?_]
  · exact agree.noneAbove place List.mem_cons_self above isPrefix different
  · intro path member back
    rw [List.mem_singleton.mp member] at back
    exact different (isPrefix.eq_of_length_le back.length_le)

/-- A write that is not at one of the paths or above it keeps two maps in agreement. -/
theorem AgreeOutside.add (agree : AgreeOutside paths first second)
    (notAbove : ∀ path ∈ paths, ¬ place <+: path) :
    AgreeOutside paths (Writes.add update place node first)
      (Writes.add update place node second) := by
  constructor
  · intro other outside
    by_cases inside : ∃ path ∈ paths, path <+: place
    · obtain ⟨path, member, isPrefix⟩ := inside
      have notBelow : ¬ place <+: other := fun below => outside path member (isPrefix.trans below)
      have isOpen : other <+: place → first other = none := by
        intro onTheWay
        rcases List.prefix_or_prefix_of_prefix onTheWay isPrefix with above | below
        · exact agree.noneAbove path member other above fun same =>
            outside path member (same ▸ List.prefix_refl other)
        · exact absurd below (outside path member)
      rw [add_of_not_below notBelow isOpen,
        add_of_not_below notBelow fun onTheWay => agree.same other outside ▸ isOpen onTheWay]
      exact agree.same other outside
    · simp only [not_exists, not_and] at inside
      refine add_congr (fun above isPrefix => agree.same above fun path member below => ?_)
        (agree.same other outside)
      exact inside path member (below.trans isPrefix)
  · intro path member above isPrefix different
    have noWrite := agree.noneAbove path member above isPrefix different
    rw [add_of_not_below (fun below => notAbove path member (below.trans isPrefix))
      fun _ => noWrite]
    exact noWrite

/-- A write below one of the paths may be made in the first map alone. -/
theorem AgreeOutside.add_inside (agree : AgreeOutside paths first second)
    (member : path ∈ paths) (below : path <+: place)
    (apart : ∀ other ∈ paths, path <+: other → other = path) :
    AgreeOutside paths (Writes.add update place node first) second := by
  have isOpen : ∀ other, (∀ path ∈ paths, ¬ path <+: other) → other <+: place →
      first other = none := by
    intro other outside onTheWay
    rcases List.prefix_or_prefix_of_prefix onTheWay below with above | back
    · exact agree.noneAbove path member other above fun same =>
        outside path member (same ▸ List.prefix_refl other)
    · exact absurd back (outside path member)
  constructor
  · intro other outside
    rw [add_of_not_below (fun back => outside path member (below.trans back))
      (isOpen other outside)]
    exact agree.same other outside
  · intro next nextMember above isPrefix different
    have noWrite := agree.noneAbove next nextMember above isPrefix different
    rw [add_of_not_below ?_ fun _ => noWrite]
    · exact noWrite
    · intro back
      have same := apart next nextMember ((below.trans back).trans isPrefix)
      subst same
      exact different (isPrefix.eq_of_length_le (below.trans back).length_le)

/-- Writes inside the paths that are layered in the first map alone. -/
theorem AgreeOutside.layer_inside (agree : AgreeOutside paths first second)
    (inside : ∀ write ∈ removed, ∃ path ∈ paths, path <+: write.1)
    (apart : ∀ path ∈ paths, ∀ other ∈ paths, path <+: other → other = path) :
    AgreeOutside paths (layer update removed first) second := by
  induction removed generalizing first with
  | nil => exact agree
  | cons write rest inductionHypothesis =>
    obtain ⟨path, member, below⟩ := inside write List.mem_cons_self
    exact inductionHypothesis (agree.add_inside member below (apart path member))
      fun write member => inside write (List.mem_cons_of_mem _ member)

theorem AgreeOutside.layer (agree : AgreeOutside paths first second)
    (notAbove : ∀ write ∈ after, ∀ path ∈ paths, ¬ write.1 <+: path) :
    AgreeOutside paths (layer update after first) (layer update after second) := by
  induction after generalizing first second with
  | nil => exact agree
  | cons write rest inductionHypothesis =>
    exact inductionHypothesis (agree.add (notAbove write List.mem_cons_self))
      fun write member => notAbove write (List.mem_cons_of_mem _ member)

/-- Writes layered over no write have none above the paths when none of them is above. -/
theorem agreeOutside_layer
    (notAbove : ∀ write ∈ before, ∀ path ∈ paths, write.1 <+: path → write.1 = path) :
    AgreeOutside paths (layer update before empty) (layer update before empty) := by
  refine ⟨fun other _ => rfl, fun path member above isPrefix different => ?_⟩
  by_contra written
  rcases written_of_layer written with earlier | ⟨write, writeMember, rfl⟩
  · exact earlier rfl
  · exact different (notAbove write writeMember path member isPrefix)

theorem forget_nil (writes : Writes Key Node) : forget [] writes = writes := by
  funext other
  exact if_neg (by simp)

theorem forget_cons (path : List Key) (paths : List (List Key)) (writes : Writes Key Node) :
    forget (path :: paths) writes = forget paths (forget [path] writes) := by
  funext other
  simp only [forget, List.exists_mem_cons_iff, List.not_mem_nil, false_and, exists_false, or_false]
  by_cases first : path <+: other <;> by_cases later : ∃ path ∈ paths, path <+: other <;>
    simp only [first, later, true_or, false_or, if_true, if_false]

/-- Writes that are apart from all the others can be forgotten by their paths. -/
theorem forget_layer
    (apart : ∀ write ∈ before ++ after, ∀ gone ∈ removed, Apart write.1 gone.1)
    (separate : ∀ first ∈ removed, ∀ second ∈ removed, first.1 <+: second.1 →
      second.1 = first.1) :
    forget (removed.map Prod.fst) (layer update (before ++ removed ++ after) empty) =
      layer update (before ++ after) empty := by
  have agree : AgreeOutside (removed.map Prod.fst)
      (layer update (before ++ removed ++ after) empty)
      (layer update (before ++ after) empty) := by
    rw [layer_append, layer_append, layer_append]
    refine AgreeOutside.layer (AgreeOutside.layer_inside (agreeOutside_layer ?_) ?_ ?_) ?_
    · intro write member path pathMember isPrefix
      obtain ⟨gone, goneMember, rfl⟩ := List.mem_map.mp pathMember
      exact absurd isPrefix (apart write (List.mem_append_left _ member) gone goneMember).1
    · intro write member
      exact ⟨write.1, List.mem_map_of_mem member, List.prefix_refl _⟩
    · intro path member other otherMember
      obtain ⟨first, firstMember, rfl⟩ := List.mem_map.mp member
      obtain ⟨second, secondMember, rfl⟩ := List.mem_map.mp otherMember
      exact separate first firstMember second secondMember
    · intro write member path pathMember
      obtain ⟨gone, goneMember, rfl⟩ := List.mem_map.mp pathMember
      exact (apart write (List.mem_append_right _ member) gone goneMember).1
  funext other
  by_cases inside : ∃ path ∈ removed.map Prod.fst, path <+: other
  · rw [forget, if_pos inside]
    by_contra written
    obtain ⟨path, member, isPrefix⟩ := inside
    obtain ⟨gone, goneMember, rfl⟩ := List.mem_map.mp member
    rcases written_of_layer (Ne.symm written) with earlier | ⟨write, writeMember, rfl⟩
    · exact earlier rfl
    · exact (apart write writeMember gone goneMember).2 isPrefix
  · rw [forget, if_neg inside]
    simp only [not_exists, not_and] at inside
    exact agree.same other inside

/-- After a write at a place or above it nothing inside the place is left. -/
theorem AgreeOutside.layer_covered (agree : AgreeOutside [place] first second)
    (covered : ∃ write ∈ after, write.1 <+: place) :
    Writes.layer update after first = Writes.layer update after second := by
  induction after generalizing first second with
  | nil =>
    obtain ⟨write, member, -⟩ := covered
    cases member
  | cons write rest inductionHypothesis =>
    by_cases covers : write.1 <+: place
    · have noneAbove : ∀ above, above <+: write.1 → above ≠ write.1 →
          above <+: place ∧ above ≠ place := by
        intro above isPrefix different
        refine ⟨isPrefix.trans covers, fun same => different ?_⟩
        exact isPrefix.eq_of_length_le (same ▸ covers.length_le)
      have openFirst : ∀ above, above <+: write.1 → above ≠ write.1 → first above = none :=
        fun above isPrefix different => agree.noneAbove place List.mem_cons_self above
          (noneAbove above isPrefix different).1 (noneAbove above isPrefix different).2
      have openSecond : ∀ above, above <+: write.1 → above ≠ write.1 → second above = none :=
        fun above isPrefix different => agree.noneAbove_second
          (noneAbove above isPrefix different).1 (noneAbove above isPrefix different).2
      have same : Writes.add update write.1 write.2 first =
          Writes.add update write.1 write.2 second := by
        funext other
        by_cases below : write.1 <+: other
        · by_cases there : write.1 = other
          · rw [← there, add_self openFirst, add_self openSecond]
          · rw [add_of_below openFirst below there, add_of_below openSecond below there]
        · have different : other ≠ write.1 := fun there => below (there ▸ List.prefix_refl _)
          rw [add_of_not_below below fun isPrefix => openFirst other isPrefix different,
            add_of_not_below below fun isPrefix => openSecond other isPrefix different]
          refine agree.same other fun path member inside => below ?_
          rw [List.mem_singleton.mp member] at inside
          exact covers.trans inside
      rw [layer_cons, layer_cons, same]
    · refine inductionHypothesis (agree.add fun path member => ?_) ?_
      · rw [List.mem_singleton.mp member]
        exact covers
      · obtain ⟨later, member, isPrefix⟩ := covered
        rcases List.mem_cons.mp member with rfl | member
        · exact absurd isPrefix covers
        · exact ⟨later, member, isPrefix⟩

/-- Writes inside a place leave no trace when a later write covers the place and no earlier one
is above it. -/
theorem layer_covered (inside : ∀ write ∈ removed, place <+: write.1)
    (notAbove : ∀ write ∈ before, write.1 <+: place → write.1 = place)
    (covered : ∃ write ∈ after, write.1 <+: place) :
    layer update (before ++ removed ++ after) empty =
      layer update (before ++ after) empty := by
  rw [layer_append, layer_append, layer_append]
  have agree : AgreeOutside [place] (layer update removed (layer update before empty))
      (layer update before empty) := by
    refine AgreeOutside.layer_inside (agreeOutside_layer ?_) ?_ ?_
    · intro write member path pathMember
      rw [List.mem_singleton.mp pathMember]
      exact notAbove write member
    · intro write member
      exact ⟨place, List.mem_cons_self, inside write member⟩
    · intro path member other otherMember _
      rw [List.mem_singleton.mp member, List.mem_singleton.mp otherMember]
  exact agree.layer_covered covered

end Forget

end Writes

end Overlay
