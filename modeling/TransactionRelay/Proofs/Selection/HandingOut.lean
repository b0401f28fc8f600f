import Mathlib.Algebra.BigOperators.Group.List.Basic
import Mathlib.Data.List.Induction
import TransactionRelay.Proofs.Selection.Places
import TransactionRelay.Proofs.Selection.Slices

namespace TransactionRelay

inductive PoolUse
  | slice (size : Nat)
  | remove (urls : List String)
  deriving DecidableEq, Repr

namespace PoolUse

def size : PoolUse → Nat
  | .slice size => size
  | .remove _ => 0

def removes (url : String) : PoolUse → Bool
  | .slice _ => false
  | .remove urls => urls.contains url

end PoolUse

namespace TierPool

def use (pool : TierPool) : PoolUse → List RelayRecord × TierPool
  | .slice size => pool.nextSlice size
  | .remove urls => ([], pool.removeUrls urls)

def useAll (pool : TierPool) : List PoolUse → List (List RelayRecord) × TierPool
  | [] => ([], pool)
  | use :: rest =>
    let one := pool.use use
    let others := one.2.useAll rest
    (one.1 :: others.1, others.2)

theorem useAll_append (pool : TierPool) (first second : List PoolUse) :
    pool.useAll (first ++ second) =
      ((pool.useAll first).1 ++ ((pool.useAll first).2.useAll second).1,
        ((pool.useAll first).2.useAll second).2) := by
  induction first generalizing pool with
  | nil => rfl
  | cons use rest ih => simp only [List.cons_append, useAll, ih]

theorem useAll_length (pool : TierPool) (uses : List PoolUse) :
    (pool.useAll uses).1.length = uses.length := by
  induction uses generalizing pool with
  | nil => rfl
  | cons use rest ih => simp only [useAll, List.length_cons, ih]

theorem useAll_getElem? (pool : TierPool) (uses : List PoolUse) (n : Nat) : (pool.useAll uses).1[n]? =
    uses[n]?.map fun use => ((pool.useAll (uses.take n)).2.use use).1 := by
  induction uses generalizing pool n with
  | nil => simp [useAll]
  | cons use rest ih =>
    cases n with
    | zero => rfl
    | succ n => simpa [useAll] using ih (pool.use use).2 n

end TierPool

open Placed (board entry between)

namespace Placed

def present (uses : List PoolUse) (p : Placed) : Bool := uses.all fun use => !use.removes p.relay.url

-- How a pool stands after some uses: what no use has removed is left of each tier, in its order, and the
-- records that were handed out are marked.
def Stands (tiers : List (List RelayRecord)) (uses : List PoolUse) (handed : List Placed)
    (pool : TierPool) : Prop :=
  pool.tiers = (board tiers).map fun row =>
    (row.filter (present uses)).map fun p => ⟨p.relay, decide (p ∈ handed)⟩

-- What the next use hands out: records that are left and were not handed out before, no more than asked
-- for, of one tier, while nothing waits in the tiers above.
structure Takes (tiers : List (List RelayRecord)) (uses : List PoolUse) (handed : List Placed)
    (use : PoolUse) (slice : List Placed) : Prop where
  fresh : ∀ p ∈ slice, p ∈ (board tiers).flatten ∧ p.present uses = true ∧ p ∉ handed
  bounded : slice.length ≤ use.size
  level : ∀ p ∈ slice, ∀ q ∈ slice, p.tier = q.tier
  above : ∀ p ∈ slice, ∀ q ∈ (board tiers).flatten, q.tier < p.tier → q.present uses = true → q ∈ handed

-- The cursor of a pool: of the records that are left, those below it are handed out and those from it on
-- are not.
structure Upto (tiers : List (List RelayRecord)) (uses : List PoolUse) (handed : List Placed)
    (cursor : Nat) (pool : TierPool) : Prop where
  pool : pool.tiers = (board tiers).map fun row => (row.filter (present uses)).map (entry cursor)
  ordered : handed.Sublist (board tiers).flatten
  passed : ∀ p ∈ handed, p.place < cursor
  given : ∀ p ∈ (board tiers).flatten, p.present uses = true → p.place < cursor → p ∈ handed

theorem Upto.stands {tiers uses handed cursor pool} (upto : Upto tiers uses handed cursor pool) :
    Stands tiers uses handed pool := by
  rw [Stands, upto.pool]
  refine List.map_congr_left fun row member => List.map_congr_left fun p inside => ?_
  obtain ⟨own, left⟩ := List.mem_filter.mp inside
  have known : p.place < cursor ↔ p ∈ handed :=
    ⟨upto.given p (List.mem_flatten.mpr ⟨row, member, own⟩) left, upto.passed p⟩
  rw [entry, decide_eq_decide.mpr known]

theorem upto_start (tiers : List (List RelayRecord)) : Upto tiers [] [] 0 (TierPool.ofTiers tiers) := by
  refine ⟨?_, List.nil_sublist _, by simp, by simp⟩
  have all (row : List Placed) : row.filter (present []) = row := List.filter_eq_self.mpr fun _ _ => rfl
  rw [TierPool.ofTiers]
  dsimp only
  nth_rewrite 1 [← rows_relays 0 0 tiers]
  simp [all, board, entry]

theorem present_slice (uses : List PoolUse) (size : Nat) :
    present (uses ++ [.slice size]) = present uses := by
  funext p
  simp [present, PoolUse.removes]

theorem present_remove (uses : List PoolUse) (urls : List String) (p : Placed) :
    p.present (uses ++ [.remove urls]) = (p.present uses && !urls.contains p.relay.url) := by
  simp [present, PoolUse.removes]

theorem Upto.remove {tiers uses handed cursor pool} (upto : Upto tiers uses handed cursor pool)
    (urls : List String) : Upto tiers (uses ++ [.remove urls]) handed cursor (pool.removeUrls urls) := by
  refine ⟨?_, upto.ordered, upto.passed, ?_⟩
  · rw [TierPool.removeUrls]
    dsimp only
    rw [upto.pool, List.map_map]
    refine List.map_congr_left fun row _ => ?_
    rw [Function.comp_apply, List.filter_map, List.filter_filter]
    congr 1
    refine List.filter_congr fun p _ => ?_
    rw [present_remove, Bool.and_comm]
    rfl
  · intro p member left below
    rw [present_remove, Bool.and_eq_true] at left
    exact upto.given p member left.1 below

def span (tiers : List (List RelayRecord)) (uses : List PoolUse) (cursor next : Nat) : List Placed :=
  ((board tiers).flatten.filter (present uses)).filter (between cursor next)

theorem mem_span {tiers uses cursor next} {p : Placed} : p ∈ span tiers uses cursor next ↔
    p ∈ (board tiers).flatten ∧ p.present uses = true ∧ cursor ≤ p.place ∧ p.place < next := by
  rw [span, List.mem_filter, List.mem_filter, between, decide_eq_true_iff, and_assoc]

theorem Upto.nextSlice {tiers uses handed cursor pool} (upto : Upto tiers uses handed cursor pool)
    (size : Nat) : ∃ next, cursor ≤ next ∧
      (pool.nextSlice size).1 = (span tiers uses cursor next).map (·.relay) ∧
      (pool.nextSlice size).2.tiers =
        (board tiers).map (fun row => (row.filter (present uses)).map (entry next)) ∧
      ∀ p ∈ span tiers uses cursor next, ∀ q ∈ span tiers uses cursor next, p.tier = q.tier := by
  have left : ((board tiers).map (·.filter (present uses))).flatten =
      (board tiers).flatten.filter (present uses) := List.filter_flatten.symm
  have ordered : ((board tiers).map (·.filter (present uses))).flatten.Pairwise Before := by
    rw [left]
    exact (rows_ordered 0 0 tiers).filter _
  obtain ⟨next, onward, issued, level⟩ :=
    TierPool.issueFirst_places size cursor ((board tiers).map (·.filter (present uses))) ordered (by
      intro row member p first q second
      obtain ⟨whole, among, rfl⟩ := List.mem_map.mp member
      exact rows_level 0 0 tiers whole among p (List.mem_filter.mp first).1 q (List.mem_filter.mp second).1)
  rw [left] at issued level
  have same : pool.tiers = ((board tiers).map (·.filter (present uses))).map (·.map (entry cursor)) := by
    rw [upto.pool, List.map_map]
    rfl
  refine ⟨next, onward, ?_, ?_, level⟩
  · rw [TierPool.nextSlice, same, issued]
    rfl
  · rw [TierPool.nextSlice, same, issued, List.map_map]
    rfl

theorem Upto.takes {tiers uses handed cursor pool} (upto : Upto tiers uses handed cursor pool)
    {next size : Nat} (few : (span tiers uses cursor next).length ≤ size)
    (level : ∀ p ∈ span tiers uses cursor next, ∀ q ∈ span tiers uses cursor next, p.tier = q.tier) :
    Takes tiers uses handed (.slice size) (span tiers uses cursor next) := by
  refine ⟨?_, few, level, ?_⟩
  · intro p member
    obtain ⟨here, left, waiting, _⟩ := mem_span.mp member
    exact ⟨here, left, fun before => absurd (upto.passed p before) (Nat.not_lt.mpr waiting)⟩
  · intro p member q here higher left
    obtain ⟨own, _, _, inside⟩ := mem_span.mp member
    by_cases waiting : cursor ≤ q.place
    · -- What is left above would be in the slice as well, which has one tier.
      have before : q.place < p.place := by
        rcases before_trichotomy (rows_ordered 0 0 tiers) here own with before | rfl | after
        · exact before.1
        · exact absurd higher (Nat.lt_irrefl _)
        · exact absurd higher (Nat.not_lt.mpr after.2)
      have alike := level p member q (mem_span.mpr ⟨here, left, waiting, by omega⟩)
      omega
    · exact upto.given q here left (Nat.lt_of_not_le waiting)

theorem Upto.advance {tiers uses handed cursor pool} (upto : Upto tiers uses handed cursor pool)
    {next : Nat} (onward : cursor ≤ next) (size : Nat) {after : TierPool}
    (moved : after.tiers = (board tiers).map fun row => (row.filter (present uses)).map (entry next)) :
    Upto tiers (uses ++ [.slice size]) (handed ++ span tiers uses cursor next) next after := by
  refine ⟨?_, ?_, ?_, ?_⟩
  · rw [moved, present_slice]
  · have within : (span tiers uses cursor next).Sublist (board tiers).flatten :=
      List.filter_sublist.trans List.filter_sublist
    apply sublist_behind (rows_ordered 0 0 tiers) upto.ordered within
    intro p before q now
    exact Nat.lt_of_lt_of_le (upto.passed p before) (mem_span.mp now).2.2.1
  · intro p member
    rcases List.mem_append.mp member with before | now
    · exact Nat.lt_of_lt_of_le (upto.passed p before) onward
    · exact (mem_span.mp now).2.2.2
  · intro p here left below
    rw [present_slice] at left
    rw [List.mem_append]
    by_cases waiting : cursor ≤ p.place
    · exact .inr (mem_span.mpr ⟨here, left, waiting, below⟩)
    · exact .inl (upto.given p here left (Nat.lt_of_not_le waiting))

theorem Upto.use {tiers uses handed cursor pool} (upto : Upto tiers uses handed cursor pool)
    (use : PoolUse) : ∃ slice next, (pool.use use).1 = slice.map (·.relay) ∧
      Takes tiers uses handed use slice ∧
      Upto tiers (uses ++ [use]) (handed ++ slice) next (pool.use use).2 := by
  cases use with
  | slice size =>
    obtain ⟨next, onward, issued, moved, level⟩ := upto.nextSlice size
    have few := TierPool.nextSlice_length pool size
    rw [issued, List.length_map] at few
    exact ⟨_, next, issued, upto.takes few level, upto.advance onward size moved⟩
  | remove urls =>
    refine ⟨[], cursor, rfl, ⟨by simp, by simp, by simp, by simp⟩, ?_⟩
    rw [List.append_nil]
    exact upto.remove urls

structure Handing (tiers : List (List RelayRecord)) (uses : List PoolUse) (log : List (List Placed)) :
    Prop where
  slices : log.map (·.map (·.relay)) = ((TierPool.ofTiers tiers).useAll uses).1
  takes : ∀ n use slice, uses[n]? = some use → log[n]? = some slice →
    Takes tiers (uses.take n) (log.take n).flatten use slice
  stands : ∀ n, Stands tiers (uses.take n) (log.take n).flatten
    ((TierPool.ofTiers tiers).useAll (uses.take n)).2

theorem Handing.length {tiers uses log} (done : Handing tiers uses log) : log.length = uses.length := by
  rw [← TierPool.useAll_length (TierPool.ofTiers tiers) uses, ← done.slices, List.length_map]

theorem Handing.snoc {tiers uses log use slice} (done : Handing tiers uses log)
    (handed : (((TierPool.ofTiers tiers).useAll uses).2.use use).1 = slice.map (·.relay))
    (takes : Takes tiers uses log.flatten use slice)
    (finish : Stands tiers (uses ++ [use]) (log ++ [slice]).flatten
      ((TierPool.ofTiers tiers).useAll (uses ++ [use])).2) :
    Handing tiers (uses ++ [use]) (log ++ [slice]) := by
  have length := done.length
  refine ⟨?_, ?_, ?_⟩
  · rw [TierPool.useAll_append, List.map_append, done.slices, List.map_singleton, ← handed]
    rfl
  · intro n one part at_use at_slice
    rcases Nat.lt_trichotomy n uses.length with inside | rfl | beyond
    · have within : n < log.length := by omega
      rw [List.getElem?_append_left inside] at at_use
      rw [List.getElem?_append_left within] at at_slice
      rw [List.take_append_of_le_length (Nat.le_of_lt inside),
        List.take_append_of_le_length (Nat.le_of_lt within)]
      exact done.takes n one part at_use at_slice
    · rw [List.getElem?_concat_length] at at_use
      rw [← length, List.getElem?_concat_length] at at_slice
      obtain rfl := Option.some.inj at_use
      obtain rfl := Option.some.inj at_slice
      rw [List.take_left, List.take_left' length]
      exact takes
    · rw [List.getElem?_eq_none (by simp; omega)] at at_use
      cases at_use
  · intro n
    by_cases inside : n ≤ uses.length
    · rw [List.take_append_of_le_length inside, List.take_append_of_le_length (length ▸ inside)]
      exact done.stands n
    · rw [List.take_of_length_le (by simp; omega), List.take_of_length_le (by simp; omega)]
      exact finish

theorem handing (tiers : List (List RelayRecord)) (uses : List PoolUse) :
    ∃ log cursor, Handing tiers uses log ∧
      Upto tiers uses log.flatten cursor ((TierPool.ofTiers tiers).useAll uses).2 := by
  -- From the back: the cursor after a run is the one that its next use starts from.
  induction uses using List.reverseRecOn with
  | nil =>
    refine ⟨[], 0, ⟨rfl, by simp, ?_⟩, upto_start tiers⟩
    intro n
    rw [List.take_nil, List.take_nil]
    exact (upto_start tiers).stands
  | append_singleton uses use ih =>
    obtain ⟨log, cursor, done, upto⟩ := ih
    obtain ⟨slice, next, handed, takes, after⟩ := upto.use use
    have finish : Upto tiers (uses ++ [use]) (log ++ [slice]).flatten next
        ((TierPool.ofTiers tiers).useAll (uses ++ [use])).2 := by
      rw [TierPool.useAll_append, List.flatten_concat]
      exact after
    exact ⟨log ++ [slice], next, done.snoc handed takes finish.stands, finish⟩

theorem Stands.exhausted_iff {tiers uses handed pool} (stands : Stands tiers uses handed pool) :
    pool.exhausted = true ↔ ∀ p ∈ (board tiers).flatten, p.present uses = true → p ∈ handed := by
  rw [TierPool.exhausted, stands, List.all_map, List.all_eq_true]
  simp only [Function.comp_apply, List.all_map, List.all_eq_true, decide_eq_true_eq, List.mem_filter,
    List.mem_flatten]
  constructor
  · rintro all p ⟨row, member, inside⟩ left
    exact all row member p ⟨inside, left⟩
  · rintro all row member p ⟨inside, left⟩
    exact all p ⟨row, member, inside⟩ left

theorem Stands.waits {tiers uses handed pool} (stands : Stands tiers uses handed pool) {p : Placed}
    (here : p ∈ (board tiers).flatten) (left : p.present uses = true) (kept : p ∉ handed) :
    ⟨p.relay, false⟩ ∈ pool.tiers.flatten := by
  obtain ⟨row, member, inside⟩ := List.mem_flatten.mp here
  rw [stands, List.mem_flatten]
  refine ⟨_, List.mem_map_of_mem member, ?_⟩
  rw [List.mem_map]
  exact ⟨p, List.mem_filter.mpr ⟨inside, left⟩, by rw [decide_eq_false kept]⟩

theorem board_nodup (tiers : List (List RelayRecord)) : ((board tiers).flatten.map (·.place)).Nodup := by
  have rising : ((board tiers).flatten.map (·.place)).Pairwise (· < ·) := by
    rw [List.pairwise_map]
    exact (rows_ordered 0 0 tiers).imp And.left
  exact rising.nodup

theorem board_relays (tiers : List (List RelayRecord)) :
    (board tiers).flatten.map (·.relay) = tiers.flatten := by
  rw [List.map_flatten]
  exact congrArg List.flatten (rows_relays 0 0 tiers)

theorem present_slices {uses : List PoolUse} (slices : ∀ use ∈ uses, ∃ size, use = .slice size ∧ 0 < size)
    (p : Placed) : p.present uses = true := by
  rw [present, List.all_eq_true]
  intro use member
  obtain ⟨size, rfl, _⟩ := slices use member
  rfl

section

variable {tiers : List (List RelayRecord)} {uses : List PoolUse} {log : List (List Placed)}

theorem Handing.empty_iff (done : Handing tiers uses log) {n size : Nat}
    (slicing : uses[n]? = some (.slice size)) (positive : 0 < size) :
    log[n]? = some [] ↔ ((TierPool.ofTiers tiers).useAll (uses.take n)).2.exhausted = true := by
  have handed := TierPool.useAll_getElem? (TierPool.ofTiers tiers) uses n
  rw [← done.slices, slicing, List.getElem?_map, Option.map_some] at handed
  obtain ⟨slice, at_slice, same⟩ := Option.map_eq_some_iff.mp handed
  have empty : slice = [] ↔ slice.map (·.relay) = [] := List.map_eq_nil_iff.symm
  rw [at_slice, Option.some_inj, empty, same]
  exact TierPool.nextSlice_eq_nil positive _

-- Slices without removals, up to an empty one, are all the records.
theorem Handing.covers (done : Handing tiers uses log) (ordered : log.flatten.Sublist (board tiers).flatten)
    (slices : ∀ use ∈ uses, ∃ size, use = .slice size ∧ 0 < size) (empty : [] ∈ log) :
    log.flatten = (board tiers).flatten := by
  obtain ⟨n, inside, at_empty⟩ := List.getElem_of_mem empty
  have bound : n < uses.length := done.length ▸ inside
  obtain ⟨size, slicing, positive⟩ := slices uses[n] (List.getElem_mem bound)
  have at_use : uses[n]? = some (.slice size) := by rw [List.getElem?_eq_getElem bound, slicing]
  have at_log : log[n]? = some [] := by rw [List.getElem?_eq_getElem inside, at_empty]
  have exhausted := (done.empty_iff at_use positive).mp at_log
  have all : (board tiers).flatten ⊆ log.flatten := by
    intro p here
    have left : p.present (uses.take n) = true := by
      apply present_slices
      intro use member
      exact slices use (List.mem_of_mem_take member)
    have earlier := (done.stands n).exhausted_iff.mp exhausted p here left
    obtain ⟨slice, among, inside⟩ := List.mem_flatten.mp earlier
    exact List.mem_flatten.mpr ⟨slice, List.mem_of_mem_take among, inside⟩
  exact ordered.eq_of_length_le (List.subperm_of_subset (rows_ordered 0 0 tiers).nodup all).length_le

theorem Handing.runs_dry (ordered : log.flatten.Sublist (board tiers).flatten)
    (enough : tiers.flatten.length < log.length) : [] ∈ log := by
  by_contra full
  have some_each : ∀ slice ∈ log.map List.length, 1 ≤ slice := by
    intro length member
    obtain ⟨slice, among, rfl⟩ := List.mem_map.mp member
    exact List.length_pos_of_ne_nil fun none => full (none ▸ among)
  have many := List.length_le_sum_of_one_le _ some_each
  have few := ordered.length_le
  rw [← board_relays, List.length_map] at enough
  rw [List.length_map, ← List.length_flatten] at many
  omega

end

end Placed

open Placed (Handing handing Takes Stands present)

-- The records come in the order of their places, each at most once, whatever is removed in between. What was not
-- handed out was removed or still waits.
theorem records_handed_out_in_order (tiers : List (List RelayRecord)) (uses : List PoolUse) :
    ∃ log : List (List Placed),
      log.map (·.map (·.relay)) = ((TierPool.ofTiers tiers).useAll uses).1 ∧
      log.flatten.Sublist (board tiers).flatten ∧ (log.flatten.map (·.place)).Nodup ∧
      (∀ n use slice, uses[n]? = some use → log[n]? = some slice →
        Takes tiers (uses.take n) (log.take n).flatten use slice) ∧
      Stands tiers uses log.flatten ((TierPool.ofTiers tiers).useAll uses).2 ∧
      (∀ p ∈ (board tiers).flatten, p ∉ log.flatten →
        p.present uses = false ∨
          ⟨p.relay, false⟩ ∈ ((TierPool.ofTiers tiers).useAll uses).2.tiers.flatten) ∧
      (∀ n size, uses[n]? = some (.slice size) → 0 < size →
        (log[n]? = some [] ↔ ((TierPool.ofTiers tiers).useAll (uses.take n)).2.exhausted = true)) ∧
      ((∀ use ∈ uses, ∃ size, use = .slice size ∧ 0 < size) →
        ([] ∈ log → log.flatten = (board tiers).flatten ∧
          ((TierPool.ofTiers tiers).useAll uses).1.flatten = tiers.flatten) ∧
        (tiers.flatten.length < uses.length → [] ∈ log)) := by
  obtain ⟨log, cursor, done, upto⟩ := handing tiers uses
  refine ⟨log, done.slices, upto.ordered, (Placed.board_nodup tiers).sublist (upto.ordered.map _), done.takes,
    upto.stands, ?_, ?_, ?_⟩
  · intro p here kept
    cases left : p.present uses with
    | false => exact .inl rfl
    | true => exact .inr (upto.stands.waits here left kept)
  · intro n size slicing positive
    exact done.empty_iff slicing positive
  · intro slices
    constructor
    · intro empty
      have all := done.covers upto.ordered slices empty
      refine ⟨all, ?_⟩
      rw [← done.slices, ← List.map_flatten, all, Placed.board_relays]
    · intro enough
      rw [← done.length] at enough
      exact Handing.runs_dry upto.ordered enough

example : ((TierPool.ofTiers [[.ofUrl "one", .ofUrl "two", .ofUrl "three"], [.ofUrl "four"]]).useAll
    [.slice 1, .remove ["two"], .slice 2, .slice 2, .slice 2]).1 =
      [[.ofUrl "one"], [], [.ofUrl "three"], [.ofUrl "four"], []] := by decide

end TransactionRelay
