import Mathlib.Data.List.Sort
import TransactionRelay.Selection.TierPool

namespace TransactionRelay

-- A record at its place: the number of its tier, and its number among all the records in their order.
structure Placed where
  tier : Nat
  place : Nat
  relay : RelayRecord
  deriving DecidableEq, Repr

namespace Placed

def rows (tier place : Nat) : List (List RelayRecord) → List (List Placed)
  | [] => []
  | relays :: lower =>
    (relays.zipIdx place).map (fun numbered => ⟨tier, numbered.2, numbered.1⟩) ::
      rows (tier + 1) (place + relays.length) lower

def board (tiers : List (List RelayRecord)) : List (List Placed) := rows 0 0 tiers

-- The record as it stands in the pool when the places below the cursor are handed out.
def entry (cursor : Nat) (p : Placed) : PoolEntry := ⟨p.relay, decide (p.place < cursor)⟩

def between (cursor next : Nat) (p : Placed) : Bool := decide (cursor ≤ p.place ∧ p.place < next)

def Before (p q : Placed) : Prop := p.place < q.place ∧ p.tier ≤ q.tier

instance : Std.Irrefl Before := ⟨fun _ before => Nat.lt_irrefl _ before.1⟩

instance : Std.Antisymm Before := ⟨fun _ _ first second => absurd second.1 (Nat.lt_asymm first.1)⟩

theorem rows_relays (tier place : Nat) (tiers : List (List RelayRecord)) :
    (rows tier place tiers).map (·.map (·.relay)) = tiers := by
  induction tiers generalizing tier place with
  | nil => rfl
  | cons relays lower ih =>
    rw [rows, List.map_cons, ih, List.map_map]
    congr 1
    exact List.zipIdx_map_fst place relays

theorem rows_above {tier place : Nat} {tiers : List (List RelayRecord)} :
    ∀ p ∈ (rows tier place tiers).flatten, tier ≤ p.tier ∧ place ≤ p.place := by
  induction tiers generalizing tier place with
  | nil => simp [rows]
  | cons relays lower ih =>
    intro p member
    rw [rows, List.flatten_cons] at member
    rcases List.mem_append.mp member with own | below
    · obtain ⟨numbered, among, rfl⟩ := List.mem_map.mp own
      exact ⟨Nat.le_refl _, List.le_snd_of_mem_zipIdx among⟩
    · obtain ⟨later, further⟩ := ih p below
      exact ⟨by omega, by omega⟩

theorem rows_ordered (tier place : Nat) (tiers : List (List RelayRecord)) :
    (rows tier place tiers).flatten.Pairwise Before := by
  induction tiers generalizing tier place with
  | nil => simp [rows]
  | cons relays lower ih =>
    rw [rows, List.flatten_cons, List.pairwise_append]
    refine ⟨?_, ih _ _, ?_⟩
    · have numbers : ((relays.zipIdx place).map Prod.snd).Pairwise (· < ·) := by
        rw [List.zipIdx_map_snd]
        exact List.pairwise_lt_range' 1
      rw [List.pairwise_map] at numbers ⊢
      exact numbers.imp fun less => ⟨less, Nat.le_refl _⟩
    · intro p own q below
      obtain ⟨numbered, among, rfl⟩ := List.mem_map.mp own
      obtain ⟨later, further⟩ := rows_above q below
      have inside := List.snd_lt_of_mem_zipIdx among
      exact ⟨by dsimp only; omega, by dsimp only; omega⟩

theorem rows_level (tier place : Nat) (tiers : List (List RelayRecord)) :
    ∀ row ∈ rows tier place tiers, ∀ p ∈ row, ∀ q ∈ row, p.tier = q.tier := by
  induction tiers generalizing tier place with
  | nil => simp [rows]
  | cons relays lower ih =>
    intro row member
    rcases List.mem_cons.mp member with rfl | below
    · intro p first q second
      obtain ⟨_, _, rfl⟩ := List.mem_map.mp first
      obtain ⟨_, _, rfl⟩ := List.mem_map.mp second
      rfl
    · exact ih _ _ row below

theorem before_trichotomy {all : List Placed} (ordered : all.Pairwise Before) {p q : Placed} (first : p ∈ all)
    (second : q ∈ all) : Before p q ∨ p = q ∨ Before q p := by
  obtain ⟨i, inside, rfl⟩ := List.getElem_of_mem first
  obtain ⟨j, within, rfl⟩ := List.getElem_of_mem second
  have each := List.pairwise_iff_getElem.mp ordered
  rcases Nat.lt_trichotomy i j with before | rfl | after
  · exact .inl (each i j inside within before)
  · exact .inr (.inl rfl)
  · exact .inr (.inr (each j i within inside after))

theorem sublist_behind {all handed slice : List Placed} (ordered : all.Pairwise Before)
    (given : handed.Sublist all) (more : slice.Sublist all)
    (behind : ∀ p ∈ handed, ∀ q ∈ slice, p.place < q.place) : (handed ++ slice).Sublist all := by
  have together : (handed ++ slice).Pairwise Before := by
    rw [List.pairwise_append]
    refine ⟨ordered.sublist given, ordered.sublist more, ?_⟩
    intro p first q second
    have less := behind p first q second
    rcases before_trichotomy ordered (given.subset first) (more.subset second) with before | rfl | after
    · exact before
    · exact absurd less (Nat.lt_irrefl _)
    · exact absurd after.1 (Nat.lt_asymm less)
  have subset : handed ++ slice ⊆ all := List.append_subset.mpr ⟨given.subset, more.subset⟩
  exact List.sublist_of_subperm_of_pairwise (List.subperm_of_subset together.nodup subset) together ordered

theorem entries_same {cursor next : Nat} {row : List Placed}
    (same : ∀ p ∈ row, p.place < cursor ↔ p.place < next) :
    row.map (entry cursor) = row.map (entry next) := by
  refine List.map_congr_left fun p member => ?_
  rw [entry, entry, decide_eq_decide.mpr (same p member)]

-- Moving the cursor over places of other rows hands out nothing of a row and leaves its marks.
theorem row_untouched {cursor next : Nat} (onward : cursor ≤ next) {row : List Placed}
    (apart : ∀ p ∈ row, p.place < cursor ∨ next ≤ p.place) :
    row.filter (between cursor next) = [] ∧ row.map (entry cursor) = row.map (entry next) := by
  constructor
  · rw [List.filter_eq_nil_iff]
    intro p member inside
    have bounds := of_decide_eq_true inside
    rcases apart p member with behind | beyond
    · omega
    · omega
  · apply entries_same
    intro p member
    rcases apart p member with behind | beyond
    · omega
    · omega

theorem between_none {cursor : Nat} (row : List Placed) : row.filter (between cursor cursor) = [] :=
  (row_untouched (Nat.le_refl cursor) fun p _ => Nat.lt_or_ge p.place cursor).1

end Placed

open Placed (board entry between)

namespace TierPool

theorem issue_places (size cursor : Nat) (row : List Placed)
    (ordered : row.Pairwise fun p q => p.place < q.place) :
    ∃ next, cursor ≤ next ∧ (next = cursor ∨ ∃ p ∈ row, next = p.place + 1) ∧
      issue size (row.map (entry cursor)) =
        ((row.filter (between cursor next)).map (·.relay), row.map (entry next)) := by
  induction row generalizing size cursor with
  | nil => exact ⟨cursor, Nat.le_refl _, .inl rfl, by simp [issue]⟩
  | cons p rest ih =>
    obtain ⟨ahead, later⟩ := List.pairwise_cons.mp ordered
    cases size with
    | zero => exact ⟨cursor, Nat.le_refl _, .inl rfl, by rw [Placed.between_none]; rfl⟩
    | succ size =>
      by_cases passed : p.place < cursor
      · obtain ⟨next, onward, reached, issued⟩ := ih (size + 1) cursor later
        have still : p.place < next := Nat.lt_of_lt_of_le passed onward
        refine ⟨next, onward, ?_, ?_⟩
        · rcases reached with same | ⟨q, member, reached⟩
          · exact .inl same
          · exact .inr ⟨q, List.mem_cons_of_mem _ member, reached⟩
        · have outside : between cursor next p = false := by
            rw [between, decide_eq_false_iff_not]
            omega
          rw [List.map_cons, List.filter_cons_of_neg (by simp [outside]), List.map_cons, issue, issued]
          simp [entry, passed, still]
      · obtain ⟨next, onward, reached, issued⟩ := ih size (p.place + 1) later
        have waiting : rest.map (entry cursor) = rest.map (entry (p.place + 1)) := by
          apply Placed.entries_same
          intro q member
          have further := ahead q member
          omega
        refine ⟨next, by omega, ?_, ?_⟩
        · rcases reached with same | ⟨q, member, reached⟩
          · exact .inr ⟨p, by simp, same⟩
          · exact .inr ⟨q, List.mem_cons_of_mem _ member, reached⟩
        · have inside : between cursor next p = true := by
            rw [between, decide_eq_true_iff]
            omega
          have same : rest.filter (between (p.place + 1) next) = rest.filter (between cursor next) := by
            apply List.filter_congr
            intro q member
            have further := ahead q member
            rw [between, between, decide_eq_decide]
            omega
          have handed : p.place < next := by omega
          rw [List.map_cons, List.filter_cons_of_pos inside, List.map_cons, issue, waiting, issued, same]
          simp [entry, passed, handed]

theorem issueFirst_places (size cursor : Nat) (rows : List (List Placed))
    (ordered : rows.flatten.Pairwise Placed.Before)
    (level : ∀ row ∈ rows, ∀ p ∈ row, ∀ q ∈ row, p.tier = q.tier) :
    ∃ next, cursor ≤ next ∧
      issueFirst size (rows.map (·.map (entry cursor))) =
        ((rows.flatten.filter (between cursor next)).map (·.relay), rows.map (·.map (entry next))) ∧
      ∀ p ∈ rows.flatten.filter (between cursor next), ∀ q ∈ rows.flatten.filter (between cursor next),
        p.tier = q.tier := by
  induction rows with
  | nil => exact ⟨cursor, Nat.le_refl _, by simp [issueFirst], by simp⟩
  | cons row lower ih =>
    rw [List.flatten_cons] at ordered
    obtain ⟨own, below, across⟩ := List.pairwise_append.mp ordered
    rw [List.map_cons, issueFirst]
    split
    next opened =>
      obtain ⟨first, member, waits⟩ : ∃ p ∈ row, cursor ≤ p.place := by simpa [entry] using opened
      obtain ⟨next, onward, reached, issued⟩ := issue_places size cursor row (own.imp And.left)
      have beyond : ∀ q ∈ lower.flatten, next ≤ q.place := by
        intro q under
        have after := (across first member q under).1
        rcases reached with same | ⟨p, among, reached⟩
        · omega
        · have later := (across p among q under).1
          omega
      have none := (Placed.row_untouched onward fun q under => .inr (beyond q under)).1
      have same : lower.map (·.map (entry cursor)) = lower.map (·.map (entry next)) := by
        refine List.map_congr_left fun other among => ?_
        apply (Placed.row_untouched onward ?_).2
        intro q inside
        exact .inr (beyond q (List.mem_flatten.mpr ⟨other, among, inside⟩))
      refine ⟨next, onward, ?_, ?_⟩
      · rw [issued, same, List.flatten_cons, List.filter_append, none, List.append_nil, List.map_cons]
      · rw [List.flatten_cons, List.filter_append, none, List.append_nil]
        intro p here q there
        exact level row (by simp) p (List.mem_filter.mp here).1 q (List.mem_filter.mp there).1
    next closed =>
      have passed : ∀ p ∈ row, p.place < cursor := by simpa [entry] using closed
      obtain ⟨next, onward, issued, same⟩ :=
        ih below fun other member => level other (List.mem_cons_of_mem _ member)
      obtain ⟨none, still⟩ := Placed.row_untouched onward fun p member => .inl (passed p member)
      refine ⟨next, onward, ?_, ?_⟩
      · rw [issued, still, List.flatten_cons, List.filter_append, none, List.nil_append, List.map_cons]
      · rw [List.flatten_cons, List.filter_append, none, List.nil_append]
        exact same

end TierPool

end TransactionRelay
