import TransactionRelay.Proofs.Registration.Listing

namespace TransactionRelay

open Entry (announcements lastRecord)

namespace RelayRecord

def delists (before after : RelayRecord) : Bool :=
  (before.registered && !before.penalized) && (!after.registered || after.penalized)

def delistings (records : List RelayRecord) : Nat :=
  (records.zip records.tail).countP fun (before, after) => before.delists after

theorem delists_eq (before after : RelayRecord) : before.delists after = (before.listed && !after.listed) := by
  rw [delists, listed, listed, Bool.not_and, Bool.not_not]

theorem delistings_cons (before after : RelayRecord) (rest : List RelayRecord) :
    delistings (before :: after :: rest) = (before.delists after).toNat + delistings (after :: rest) := by
  have one : (if before.delists after = true then 1 else 0) = (before.delists after).toNat := by
    cases before.delists after <;> rfl
  rw [← one, Nat.add_comm]
  exact List.countP_cons

end RelayRecord

-- The removals that entries give cause to announce, after the record that is known before them.
theorem Entry.removals_eq (known : Option RelayRecord) (entries : List Entry) :
    (announcements known entries).count .removed =
      RelayRecord.delistings (known.toList ++ entries.filterMap record?) := by
  induction entries generalizing known with
  | nil => cases known <;> rfl
  | cons entry rest ih =>
    rw [announcements, List.count_append, announces_removed, ih]
    cases own : entry.record? with
    | none =>
      rw [List.filterMap_cons_none own]
      exact Nat.zero_add _
    | some record =>
      rw [List.filterMap_cons_some own, Option.any_some]
      cases known with
      | none => exact Nat.zero_add _
      | some before =>
        rw [Option.any_some, ← RelayRecord.delists_eq]
        exact (RelayRecord.delistings_cons before record _).symm

section

variable {ω : Type} (c : Collaborators ω)

-- A removal for each place in the history of records where a listed relay is listed no longer, over failed cycles
-- too. The first record causes none, nor does one that is read again.
theorem removed_once_per_delisting (settings : ServerSettings) (address worker : String) (world : ω)
    (commands : List Command) :
    let run := (Session.fresh settings address worker world).performAll c commands
    let records := run.2.journal.filterMap Entry.record?
    (run.2.journal.filterMap Entry.emitted?).count .removed = RelayRecord.delistings records ∧
      (run.1.flatMap takenFrom ++ run.2.manager.notifications).count .removed =
        RelayRecord.delistings records ∧
      (records.length ≤ 1 → .removed ∉ run.2.journal.filterMap Entry.emitted?) ∧
      run.2.manager.hubRecord = records.getLast? := by
  intro run records
  obtain ⟨added, journal, hands⟩ := performAll_hands c (Session.fresh settings address worker world) commands
  have whole : run.2.journal = added := journal
  have counted : (announcements none run.2.journal).count .removed = RelayRecord.delistings records :=
    Entry.removals_eq none run.2.journal
  have emitted : run.2.journal.filterMap Entry.emitted? = announcements none run.2.journal := by
    rw [whole]
    exact hands.emitted
  have pending : run.1.flatMap takenFrom ++ run.2.manager.notifications =
      announcements none run.2.journal := by
    rw [whole]
    exact hands.pending
  refine ⟨by rw [emitted, counted], by rw [pending, counted], fun few => ?_, ?_⟩
  · rw [emitted, ← List.count_eq_zero, counted]
    match records, few with
    | [], _ => rfl
    | [_], _ => rfl
  · have last : run.2.manager.hubRecord = lastRecord none added := hands.record
    rw [last, Entry.lastRecord_eq, ← whole, Option.or_none]

end

namespace Rehearsal

def hubInTurn : Collaborators (List RelayRecord × Rehearsal) where
  answer
    | .relayData _, (record :: rest, others) => (.ok [record], rest, others)
    | call, (records, others) =>
      let reply := Rehearsal.answer call others
      (reply.1, records, reply.2)

def penalizedRecord : RelayRecord := { ownRecord with penalized := true }

def verdictsInTurn : List RelayRecord :=
  [ownRecord, penalizedRecord, penalizedRecord, ownRecord, { ownRecord with registered := false }]

-- The second cycle fails behind its reading of the record.
def fitful : Rehearsal :=
  { staked with submitterOutcomes := [(.isPending, [none, some (.store "timeout")])] }

def cyclesInTurn : List Command :=
  settling ++ [.handle [] 0 20 false, .handle [] 20 40 false, .handle [] 20 40 false, .handle [] 40 60 false,
    .handle [] 60 80 false]

theorem fitful_relay_removed_twice :
    (((Session.fresh settings manager worker (verdictsInTurn, fitful)).performAll hubInTurn
        cyclesInTurn).2.journal.filterMap Entry.emitted?).count .removed = 2 ∧
      .removed ∉ ((Session.fresh settings manager worker ([penalizedRecord], staked)).performAll hubInTurn
        listing).2.journal.filterMap Entry.emitted? := by
  have inTurn : ((Session.fresh settings manager worker (verdictsInTurn, fitful)).performAll hubInTurn
      cyclesInTurn).2.journal.filterMap Entry.record? = verdictsInTurn := by decide +kernel
  have few : (((Session.fresh settings manager worker ([penalizedRecord], staked)).performAll hubInTurn
      listing).2.journal.filterMap Entry.record?).length ≤ 1 := by decide +kernel
  obtain ⟨twice, _⟩ :=
    removed_once_per_delisting hubInTurn settings manager worker (verdictsInTurn, fitful) cyclesInTurn
  obtain ⟨_, _, never, _⟩ :=
    removed_once_per_delisting hubInTurn settings manager worker ([penalizedRecord], staked) listing
  refine ⟨?_, never few⟩
  rw [twice, inTurn]
  rfl

end Rehearsal
end TransactionRelay
