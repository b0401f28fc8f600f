import Mathlib.Data.Set.Card
import Mathlib.Order.Interval.Finset.Nat
import TransactionRelay.LogFile.Rolling
import TransactionRelay.Proofs.LogFile.Beside

namespace TransactionRelay

theorem Path.stem_subset (name : List Char) : Path.stem name ⊆ name := by
  have part := List.dropWhile_suffix (l := name.reverse) (· ≠ '.')
  unfold Path.stem
  split
  next => exact List.Subset.refl name
  next dot before rest =>
    rw [rest] at part
    split
    next => exact List.Subset.refl name
    next =>
      intro c member
      exact List.mem_reverse.mp (part.subset (List.mem_cons_of_mem dot (List.mem_reverse.mp member)))

theorem Path.fileName_slashless {path name : List Char} (named : Path.fileName? path = some name) : '/' ∉ name := by
  unfold Path.fileName? at named
  split at named
  next => cases named
  next last before back =>
    split at named
    next => cases named
    next =>
      cases named
      have listed : name ∈ Path.backwards path := back ▸ List.mem_cons_self
      exact Path.segments_slashless name (List.mem_reverse.mp ((Path.dropIdle_suffix _).subset listed))

namespace LogFile

variable {base date : List Char}

def rolledName (base date : List Char) (index : Nat) : List Char :=
  Path.fileStem base ++ ['-'] ++ date ++ ['.'] ++ Text.decimal index ++ ".log".toList

theorem rolledName_injective : Function.Injective (rolledName base date) := by
  intro one other same
  have digits : Text.decimal one = Text.decimal other := List.append_cancel_left (List.append_cancel_right same)
  calc one
      = Nat.ofDigitChars 10 (Text.decimal one) 0 := Nat.ofDigitChars_ten_toDigits.symm
    _ = Nat.ofDigitChars 10 (Text.decimal other) 0 := by rw [digits]
    _ = other := Nat.ofDigitChars_ten_toDigits

theorem fileStem_slashless (base : List Char) : '/' ∉ Path.fileStem base := by
  rw [Path.fileStem]
  cases named : Path.fileName? base with
  | none => exact List.not_mem_nil
  | some name => exact fun member => Path.fileName_slashless named (Path.stem_subset name member)

theorem rolledName_names (base : List Char) (plain : '/' ∉ date) (index : Nat) :
    Path.Names (rolledName base date index) := by
  have dash : '-' ∈ rolledName base date index := by simp [rolledName]
  refine ⟨?slashless, List.ne_nil_of_mem dash, ?moves⟩
  case slashless =>
    have digits : '/' ∉ Text.decimal index := by
      intro member
      have digit : '/'.isDigit = true := Nat.isDigit_of_mem_toDigits (by decide) (by decide) member
      cases digit
    simp [rolledName, fileStem_slashless base, plain, digits]
  case moves =>
    constructor
    all_goals
      intro same
      rw [same] at dash
      revert dash
      decide

theorem rolledChars_push (named : (Path.fileName? base).isSome = true) (index : Nat) :
    rolledChars base date index = Path.push (Path.parent base) (rolledName base date index) := by
  rw [rolledChars, Path.withFileName, if_pos named]
  rfl

theorem rolledChars_beside (named : (Path.fileName? base).isSome = true) (plain : '/' ∉ date) (index : Nat) :
    Path.parent (rolledChars base date index) = Path.parent base ∧
      Path.fileName? (rolledChars base date index) = some (rolledName base date index) := by
  have names := rolledName_names base plain index
  rw [rolledChars_push named]
  exact ⟨Path.parent_push_parent base names, Path.fileName_push_parent base names⟩

-- The search as it is made, without a bound: a usable file ends it, and behind any other the next one is looked at.
inductive Search (sizeOf : List Char → Option Nat) (base date : List Char) (limit : Nat) : Nat → Nat → Prop
  | ends {index} (found : usable sizeOf base date limit index = true) : Search sizeOf base date limit index index
  | further {index last} (full : usable sizeOf base date limit index = false)
      (rest : Search sizeOf base date limit (index + 1) last) : Search sizeOf base date limit index last

variable {sizeOf : List Char → Option Nat} {limit start last tries : Nat}

theorem usable_iff {index : Nat} : usable sizeOf base date limit index = true ↔
    ∀ size ∈ sizeOf (rolledChars base date index), size ≤ limit := by
  rw [usable]
  cases sizeOf (rolledChars base date index) with
  | none => exact iff_of_true rfl nofun
  | some size => simp

theorem Search.least (search : Search sizeOf base date limit start last) :
    IsLeast {index | start ≤ index ∧ usable sizeOf base date limit index = true} last := by
  induction search with
  | ends found => exact ⟨⟨Nat.le_refl _, found⟩, fun _ other => other.1⟩
  | @further index last full rest ih =>
    obtain ⟨⟨later, found⟩, below⟩ := ih
    refine ⟨⟨Nat.le_of_succ_le later, found⟩, fun other ⟨upward, suits⟩ => below ⟨?_, suits⟩⟩
    refine Nat.lt_of_le_of_ne upward ?_
    rintro rfl
    rw [full] at suits
    cases suits

theorem search_firstUsable {index : Nat} (found : usable sizeOf base date limit index = true) (upward : start ≤ index)
    (enough : index < start + tries) :
    Search sizeOf base date limit start (firstUsable sizeOf base date limit tries start) := by
  induction tries generalizing start with
  | zero => omega
  | succ tries ih =>
    rw [firstUsable]
    split
    next suits => exact .ends suits
    next full =>
      have other : start ≠ index := by
        rintro rfl
        exact full found
      exact .further (Bool.eq_false_iff.mpr full) (ih (by omega) (by omega))

end LogFile

namespace LogFile.Tree

variable {base date : List Char} {tree : Tree}

theorem walk_append (place : Place) (front back : List (List Char)) :
    tree.walk place (front ++ back) = (tree.walk place front).bind fun reached => tree.walk reached back := by
  induction front generalizing place with
  | nil => rfl
  | cons segment rest ih =>
    rw [List.cons_append, walk, walk]
    cases tree.step place segment with
    | ok next => exact ih next
    | error fault => rfl

theorem step_name {place reached : Place} {name : List Char} (names : Path.Names name)
    (stepped : tree.step place name = .ok reached) : reached.getLast? = some name := by
  have stays : (name.isEmpty || name == ['.']) = false := by simp [names.held, names.moves.1]
  have up : (name == ['.', '.']) = false := beq_eq_false_iff_ne.mpr names.moves.2
  unfold step at stepped
  rw [stays, up] at stepped
  split at stepped
  next => cases stepped
  next => cases stepped
  next =>
    simp only [Bool.false_eq_true, if_false] at stepped
    split at stepped
    · cases stepped
      exact List.getLast?_concat
    · cases stepped

def taken (tree : Tree) (base date : List Char) : Set Nat :=
  {index | 1 ≤ index ∧ (tree.sizeOf (rolledChars base date index)).isSome}

theorem find_walked {path : List Char} {node : Node} (found : tree.find path = some node) :
    ∃ place, tree.walk [] (Path.segments path) = .ok place ∧ tree.node? place = some node := by
  unfold find at found
  split at found
  next place located =>
    unfold locate at located
    split at located
    · cases located
    · split at located
      · exact ⟨place, located, found⟩
      · cases located
  next => cases found

theorem node_listed {place : Place} {name : List Char} {node : Node} (ends : place.getLast? = some name)
    (stands : tree.node? place = some node) : (place, node) ∈ tree.nodes := by
  have held : place.isEmpty = false := by
    rw [List.isEmpty_eq_false_iff]
    rintro rfl
    cases ends
  rw [node?, held] at stands
  obtain ⟨front, back, form, _⟩ := List.lookup_eq_some_iff.mp stands
  exact form ▸ List.mem_append_right _ List.mem_cons_self

theorem beside_listed {path name : List Char} {node : Node} (names : Path.Names name)
    (found : tree.find (Path.push (Path.parent path) name) = some node) :
    ∃ place, place.getLast? = some name ∧ (place, node) ∈ tree.nodes := by
  obtain ⟨place, walked, held⟩ := find_walked found
  rw [Path.segments_push_parent path names.slashless, walk_append] at walked
  cases reached : tree.walk [] (Path.front path) with
  | error fault => rw [reached] at walked; cases walked
  | ok directory =>
    rw [reached] at walked
    change tree.walk directory [name] = .ok place at walked
    rw [walk] at walked
    cases stepped : tree.step directory name with
    | error fault => rw [stepped] at walked; cases walked
    | ok next =>
      rw [stepped] at walked
      cases walked
      have ends := step_name names stepped
      exact ⟨place, ends, node_listed ends held⟩

theorem taken_named (named : (Path.fileName? base).isSome = true) (plain : '/' ∉ date) {index : Nat}
    (stands : index ∈ tree.taken base date) :
    some (rolledName base date index) ∈ tree.nodes.map fun held => held.1.getLast? := by
  obtain ⟨size, sized⟩ := Option.isSome_iff_exists.mp stands.2
  obtain ⟨node, found, _⟩ := Option.map_eq_some_iff.mp sized
  rw [rolledChars_push named] at found
  obtain ⟨place, ends, listed⟩ := beside_listed (rolledName_names base plain index) found
  exact ends ▸ List.mem_map_of_mem listed

-- The names of rolled files are distinct, so no more of them stand than the tree has nodes.
theorem taken_few (named : (Path.fileName? base).isSome = true) (plain : '/' ∉ date) (tree : Tree) :
    (tree.taken base date).Finite ∧ (tree.taken base date).ncard ≤ tree.nodes.length := by
  let names := (tree.nodes.map fun held => held.1.getLast?).toFinset
  have maps : ∀ index ∈ tree.taken base date, some (rolledName base date index) ∈ (names : Set (Option (List Char))) :=
    fun index stands => List.mem_toFinset.mpr (taken_named named plain stands)
  have apart : Set.InjOn (fun index => some (rolledName base date index)) (tree.taken base date) :=
    fun one _ other _ same => rolledName_injective (Option.some.inj same)
  refine ⟨names.finite_toSet.of_injOn maps apart, ?_⟩
  calc (tree.taken base date).ncard
      ≤ (names : Set (Option (List Char))).ncard := Set.ncard_le_ncard_of_injOn _ maps apart names.finite_toSet
    _ = names.card := Set.ncard_coe_finset names
    _ ≤ tree.nodes.length := by
      have count := List.toFinset_card_le (tree.nodes.map fun held => held.1.getLast?)
      rwa [List.length_map] at count

theorem exists_free {used : Set Nat} (finite : used.Finite) :
    ∃ index, 1 ≤ index ∧ index ≤ used.ncard + 1 ∧ index ∉ used := by
  by_contra none
  have all : (Finset.Icc 1 (used.ncard + 1) : Set Nat) ⊆ used := by
    intro index within
    obtain ⟨first, last⟩ := Finset.mem_Icc.mp within
    by_contra free
    exact none ⟨index, first, last, free⟩
  have count := Set.ncard_le_ncard all finite
  rw [Set.ncard_coe_finset, Nat.card_Icc] at count
  omega

theorem usable_free {limit index : Nat} (first : 1 ≤ index) (free : index ∉ tree.taken base date) :
    usable tree.sizeOf base date limit index = true :=
  usable_iff.mpr fun size held => absurd ⟨first, Option.isSome_iff_exists.mpr ⟨size, held⟩⟩ free

end LogFile.Tree

open LogFile

-- The search without a bound comes to an end, and the next file is the one where it does. All files before it stand,
-- so its index is a word of 32 bits unless files stand at all the indices that are.
theorem next_file_is_first_usable {base date : List Char} (named : (Path.fileName? base).isSome = true)
    (plain : '/' ∉ date) (tree : Tree) (limit : Nat) :
    (∃ index, tree.nextPath base date limit = rolledChars base date index ∧
      Search tree.sizeOf base date limit 1 index ∧
      IsLeast {index | 1 ≤ index ∧ ∀ size ∈ tree.sizeOf (rolledChars base date index), size ≤ limit} index ∧
      (tree.taken base date).Finite ∧ index ≤ (tree.taken base date).ncard + 1 ∧
      ((tree.taken base date ∩ Set.Iio Text.word32).ncard < Text.word32 - 1 → index < Text.word32)) ∧
    (∀ one other, rolledChars base date one = rolledChars base date other ↔ one = other) ∧
    ∀ index, Path.parent (rolledChars base date index) = Path.parent base ∧
      Path.fileName? (rolledChars base date index) = some (rolledName base date index) := by
  refine ⟨?next, fun one other => ?apart, fun index => ?beside⟩
  case next =>
    obtain ⟨finite, few⟩ := Tree.taken_few named plain tree
    obtain ⟨free, first, early, absent⟩ := Tree.exists_free finite
    have suits : usable tree.sizeOf base date limit free = true := Tree.usable_free first absent
    have search : Search tree.sizeOf base date limit 1
        (firstUsable tree.sizeOf base date limit (tree.nodes.length + 1) 1) :=
      search_firstUsable suits first (by omega)
    have least := search.least
    refine ⟨_, rfl, search, ?_, finite, Nat.le_trans (least.2 ⟨first, suits⟩) early, fun room => ?_⟩
    · simpa only [usable_iff] using least
    · obtain ⟨word, first, early, absent⟩ := Tree.exists_free (finite.inter_of_left (Set.Iio Text.word32))
      have small : word < Text.word32 := by omega
      have unused : word ∉ tree.taken base date := fun stands => absent ⟨stands, small⟩
      exact Nat.lt_of_le_of_lt (least.2 ⟨first, Tree.usable_free first unused⟩) small
  case apart =>
    refine ⟨fun same => ?_, congrArg _⟩
    have first := (rolledChars_beside named plain one).2
    rw [same, (rolledChars_beside named plain other).2] at first
    exact (rolledName_injective (Option.some.inj first)).symm
  case beside => exact rolledChars_beside named plain index

def gappedLogs : Tree := ⟨[
  (["logs".toList], .directory),
  (["logs".toList, "app-2024-01-01.1.log".toList], .file 200),
  (["logs".toList, "app-2024-01-01.2.log".toList], .file 101),
  (["logs".toList, "app-2024-01-01.4.log".toList], .file 50)]⟩

theorem gap_is_filled :
    (Path.fileName? "logs/app.log".toList).isSome = true ∧ '/' ∉ "2024-01-01".toList ∧
    gappedLogs.nextPath "logs/app.log".toList "2024-01-01".toList 100 = "logs/app-2024-01-01.3.log".toList ∧
    IsLeast {index | 1 ≤ index ∧ ∀ size ∈ gappedLogs.sizeOf
      (rolledChars "logs/app.log".toList "2024-01-01".toList index), size ≤ 100} 3 ∧
    (gappedLogs.taken "logs/app.log".toList "2024-01-01".toList ∩ Set.Iio Text.word32).ncard < Text.word32 - 1 ∧
    3 < Text.word32 := by
  have named : (Path.fileName? "logs/app.log".toList).isSome = true := by decide +kernel
  have plain : '/' ∉ "2024-01-01".toList := by decide
  have third : gappedLogs.nextPath "logs/app.log".toList "2024-01-01".toList 100 =
      rolledChars "logs/app.log".toList "2024-01-01".toList 3 := by decide +kernel
  obtain ⟨finite, few⟩ := Tree.taken_few named plain gappedLogs
  have room : (gappedLogs.taken "logs/app.log".toList "2024-01-01".toList ∩ Set.Iio Text.word32).ncard <
      Text.word32 - 1 :=
    Nat.lt_of_le_of_lt (Nat.le_trans (Set.ncard_le_ncard Set.inter_subset_left finite) few) (by decide)
  obtain ⟨⟨index, path, _, least, _, _, word⟩, apart, _⟩ := next_file_is_first_usable named plain gappedLogs 100
  cases (apart index 3).mp (path.symm.trans third)
  exact ⟨named, plain, third, least, room, word room⟩

end TransactionRelay
