import Mathlib.Data.List.Nodup
import TransactionRelay.Proofs.Registration.Standing

namespace TransactionRelay

inductive QueueUse
  | push (due : UInt64) (event : EventRecord)
  | extract (block : UInt64)
  deriving DecidableEq, Repr

def QueueUse.reaches (entry : DelayedEvent) : QueueUse → Bool
  | .push .. => false
  | .extract block => entry.due ≤ block

structure Stay where
  entry : DelayedEvent
  since : List QueueUse
  deriving DecidableEq, Repr

namespace Stay

def lasts (stay : Stay) : Bool := !stay.since.any (·.reaches stay.entry)

-- The next extraction at `block` is the first that reaches the entry.
def endsAt (block : UInt64) (stay : Stay) : Bool := stay.lasts && stay.entry.due ≤ block

end Stay

namespace DelayedQueue

def use (queue : DelayedQueue) : QueueUse → DelayedQueue
  | .push due event => queue.push due event
  | .extract block => queue.withoutDue block

def useAll (queue : DelayedQueue) (uses : List QueueUse) : DelayedQueue := uses.foldl use queue

def admitted (queue : DelayedQueue) : QueueUse → List DelayedEvent
  | .push due event => if queue.holds event.key then [] else [⟨due, event⟩]
  | .extract _ => []

def stays (queue : DelayedQueue) : List QueueUse → List Stay
  | [] => []
  | one :: rest => (queue.admitted one).map (⟨·, rest⟩) ++ (queue.use one).stays rest

variable (queue : DelayedQueue)

theorem push_waiting (due : UInt64) (event : EventRecord) : (queue.push due event).waiting =
    queue.waiting ++ if queue.holds event.key then [] else [⟨due, event⟩] := by
  unfold push
  cases queue.holds event.key with
  | true => exact (List.append_nil _).symm
  | false => rfl

-- A use takes out what it reaches, and lets in at the end.
theorem use_waiting (one : QueueUse) :
    (queue.use one).waiting = queue.waiting.filter (fun entry => !one.reaches entry) ++ queue.admitted one := by
  cases one with
  | push due event =>
    have all : queue.waiting.filter (fun entry => !(QueueUse.push due event).reaches entry) = queue.waiting :=
      List.filter_eq_self.mpr fun _ _ => rfl
    rw [all]
    exact queue.push_waiting due event
  | extract block => exact (List.append_nil _).symm

theorem useAll_waiting (uses : List QueueUse) : (queue.useAll uses).waiting =
    queue.waiting.filter (fun entry => !uses.any (·.reaches entry)) ++
      ((queue.stays uses).filter Stay.lasts).map Stay.entry := by
  induction uses generalizing queue with
  | nil =>
    have all : queue.waiting.filter (fun entry => !([] : List QueueUse).any (·.reaches entry)) = queue.waiting :=
      List.filter_eq_self.mpr fun _ _ => rfl
    rw [all]
    exact (List.append_nil _).symm
  | cons one rest ih =>
    have before : (queue.waiting.filter fun entry => !one.reaches entry).filter
          (fun entry => !rest.any (·.reaches entry)) =
        queue.waiting.filter fun entry => !(one :: rest).any (·.reaches entry) := by
      rw [List.filter_filter]
      apply List.filter_congr
      intro entry _
      rw [List.any_cons, Bool.not_or, Bool.and_comm]
    have begun : (((queue.admitted one).map (⟨·, rest⟩)).filter Stay.lasts).map Stay.entry =
        (queue.admitted one).filter fun entry => !rest.any (·.reaches entry) := by
      rw [List.filter_map, List.map_map]
      exact List.map_id _
    have after : (queue.useAll (one :: rest)).waiting = ((queue.use one).useAll rest).waiting := rfl
    rw [after, ih, use_waiting, List.filter_append, before, stays, List.filter_append, List.map_append, begun,
      List.append_assoc]

theorem holds_iff (key : EventKey) :
    queue.holds key = true ↔ ∃ held ∈ queue.waiting, held.event.key = key := by
  simp [holds]

def Distinct (queue : DelayedQueue) : Prop := (queue.waiting.map (·.event.key)).Nodup

variable {queue}

-- What is let in waits nowhere in the queue.
theorem admitted_apart {one : QueueUse} : ((queue.waiting ++ queue.admitted one).map (·.event.key)).Nodup ↔
    queue.Distinct := by
  cases one with
  | extract block => rw [admitted, List.append_nil, Distinct]
  | push due event =>
    rw [admitted]
    cases held : queue.holds event.key with
    | true => rw [if_pos rfl, List.append_nil, Distinct]
    | false =>
      have fresh : event.key ∉ queue.waiting.map (·.event.key) := by
        intro among
        obtain ⟨entry, waits, named⟩ := List.mem_map.mp among
        rw [(queue.holds_iff _).mpr ⟨entry, waits, named⟩] at held
        cases held
      rw [if_neg Bool.false_ne_true, List.map_append, List.map_singleton, ← List.concat_eq_append,
        List.nodup_concat, Distinct]
      exact and_iff_right fresh

theorem Distinct.use (distinct : queue.Distinct) (one : QueueUse) : (queue.use one).Distinct := by
  rw [Distinct, use_waiting]
  exact (admitted_apart.mpr distinct).sublist ((List.filter_sublist.append_right _).map _)

theorem Distinct.useAll (distinct : queue.Distinct) (uses : List QueueUse) : (queue.useAll uses).Distinct := by
  induction uses generalizing queue with
  | nil => exact distinct
  | cons one rest ih => exact ih (distinct.use one)

theorem due_perm_later {early late : UInt64} (ordered : early ≤ late) :
    (queue.due early ++ (queue.withoutDue early).due late).Perm (queue.due late) := by
  refine List.perm_iff_count.mpr fun event => ?_
  have split := due_split queue [] (· == event) ordered
  rw [List.append_nil, List.append_nil] at split
  rw [List.count_append]
  exact split

theorem withoutDue_later {early late : UInt64} (ordered : early ≤ late) :
    (queue.withoutDue early).withoutDue late = queue.withoutDue late := by
  have none := due_none queue [] ordered
  rwa [List.append_nil, List.append_nil] at none

section

variable (uses : List QueueUse)

theorem fresh_waiting : (({} : DelayedQueue).useAll uses).waiting =
    ((({} : DelayedQueue).stays uses).filter Stay.lasts).map Stay.entry :=
  useAll_waiting {} uses

theorem fresh_due (block : UInt64) : (({} : DelayedQueue).useAll uses).due block =
    ((({} : DelayedQueue).stays uses).filter (Stay.endsAt block)).map (·.entry.event) := by
  rw [due, fresh_waiting, List.filter_map, List.filter_filter, List.map_map]
  apply congrArg (List.map _)
  apply List.filter_congr
  intro stay _
  exact Bool.and_comm _ _

theorem fresh_left (block : UInt64) : ((({} : DelayedQueue).useAll uses).withoutDue block).waiting =
    ((({} : DelayedQueue).stays uses).filter fun stay => stay.lasts && !stay.endsAt block).map Stay.entry := by
  rw [withoutDue, fresh_waiting, List.filter_map, List.filter_filter]
  apply congrArg (List.map _)
  apply List.filter_congr
  intro stay _
  rw [Stay.endsAt]
  cases stay.lasts with
  | true => exact Bool.and_true _
  | false => exact Bool.and_false _

end

end DelayedQueue

-- What waits are the entries that were let in and not reached since; an extraction returns those among them that it is
-- the first to reach. An extraction at an earlier block before one at a later block makes no difference.
theorem waits_until_reached (uses : List QueueUse) :
    let queue := ({} : DelayedQueue).useAll uses
    let stays := ({} : DelayedQueue).stays uses
    (queue.waiting.map (·.event.key)).Nodup ∧
      (∀ due event, (queue.push due event).waiting = queue.waiting ++
        if ∃ held ∈ queue.waiting, held.event.key = event.key then [] else [⟨due, event⟩]) ∧
      queue.waiting = (stays.filter Stay.lasts).map Stay.entry ∧
      (∀ block, queue.due block = (stays.filter (Stay.endsAt block)).map (·.entry.event) ∧
        (queue.withoutDue block).waiting =
          (stays.filter fun stay => stay.lasts && !stay.endsAt block).map Stay.entry) ∧
      ∀ early late, early ≤ late →
        (queue.due early ++ (queue.withoutDue early).due late).Perm (queue.due late) ∧
          (queue.withoutDue early).withoutDue late = queue.withoutDue late := by
  intro queue stays
  have empty : ({} : DelayedQueue).Distinct := List.nodup_nil
  refine ⟨empty.useAll uses, fun due event => ?_, DelayedQueue.fresh_waiting uses,
    fun block => ⟨DelayedQueue.fresh_due uses block, DelayedQueue.fresh_left uses block⟩,
    fun early late ordered => ⟨DelayedQueue.due_perm_later ordered, DelayedQueue.withoutDue_later ordered⟩⟩
  rw [DelayedQueue.push_waiting]
  simp only [DelayedQueue.holds_iff]

namespace Rehearsal

def unlocksInTurn : List QueueUse :=
  [.push 30 (stakeUnlocked 10 30), .push 20 (stakeUnlocked 5 20), .extract 25, .extract 10,
    .push 20 (stakeUnlocked 5 20), .push 30 (stakeUnlocked 10 30)]

-- It waits behind the other one now, and is the first of the two to be due.
theorem released_unlock_waits_again :
    (25 : UInt64) ≤ 40 ∧
      let queue := ({} : DelayedQueue).useAll unlocksInTurn
      queue.due 40 = [stakeUnlocked 10 30, stakeUnlocked 5 20] ∧
        (queue.due 25 ++ (queue.withoutDue 25).due 40).Perm [stakeUnlocked 10 30, stakeUnlocked 5 20] ∧
        (queue.withoutDue 25).withoutDue 40 = {} := by
  have ordered : (25 : UInt64) ≤ 40 := by decide
  refine ⟨ordered, ?_⟩
  intro queue
  have all : queue.due 40 = [stakeUnlocked 10 30, stakeUnlocked 5 20] := by decide
  have emptied : queue.withoutDue 40 = {} := by decide
  obtain ⟨_, _, _, _, twice⟩ := waits_until_reached unlocksInTurn
  obtain ⟨together, left⟩ := twice 25 40 ordered
  exact ⟨all, all ▸ together, left.trans emptied⟩

end Rehearsal
end TransactionRelay
