import TransactionRelay.Proofs.Registration.StakeMemory
import TransactionRelay.Rehearsal.Ledger

namespace TransactionRelay

namespace Entry

def stakes (entries : List Entry) : List StakeReading := entries.filterMap stake?

def firstOwner (entries : List Entry) : Option String := (stakes entries).head?.map (·.owner)

-- Funds that are sent by this entry go to the owner. Whether the submitter accepts is left open.
def pays (owner : Option String) : Entry → Prop
  | .asked (.send tx) _ => tx.action = .valueTransfer → owner = some tx.destination
  | _ => True

theorem stakes_append (first second : List Entry) :
    stakes (first ++ second) = stakes first ++ stakes second := List.filterMap_append

theorem firstOwner_append (first second : List Entry) :
    firstOwner (first ++ second) = (firstOwner first).or (firstOwner second) := by
  rw [firstOwner, stakes_append, List.head?_append, Option.map_or]
  rfl

theorem split_append {first second before after : List Entry} {entry : Entry}
    (split : first ++ second = before ++ entry :: after) :
    (∃ more, first = before ++ entry :: more) ∨
      ∃ middle, before = first ++ middle ∧ second = middle ++ entry :: after := by
  rcases List.append_eq_append_iff.mp split with ⟨middle, rfl, rest⟩ | ⟨middle, whole, rest⟩
  · exact .inr ⟨middle, rfl, rest⟩
  · cases middle with
    | nil =>
      refine .inr ⟨[], ?_, rest.symm⟩
      rw [whole, List.append_nil, List.append_nil]
    | cons other more =>
      obtain ⟨rfl, rfl⟩ := List.cons_eq_cons.mp rest
      exact .inl ⟨more, whole⟩

end Entry

open Entry (stakes firstOwner)

-- The owner is known from the first reading on, and nobody else is paid. At each transfer the owner is
-- known from what stands before it.
structure Owns (m : Manager) (added : List Entry) (m' : Manager) : Prop where
  owner : m'.owner = m.owner.or (firstOwner added)
  paid : ∀ before tx reply after, added = before ++ .asked (.send tx) reply :: after →
    tx.action = .valueTransfer → m.owner.or (firstOwner before) = some tx.destination

theorem Unread.owns {m added m'} (unread : Unread m added m')
    (paid : ∀ entry ∈ added, entry.pays m.owner) : Owns m added m' := by
  have nobody {entries : List Entry} (part : ∀ entry ∈ entries, entry ∈ added) :
      firstOwner entries = none := by
    have nothing : stakes entries = [] :=
      List.filterMap_eq_nil_iff.mpr fun entry member => unread.silent entry (part entry member)
    rw [firstOwner, nothing]
    rfl
  constructor
  · rw [nobody fun _ member => member, Option.or_none]
    exact unread.owner
  · intro before tx reply after split transfer
    have early : firstOwner before = none := by
      apply nobody
      intro entry member
      rw [split]
      exact List.mem_append_left _ member
    rw [early, Option.or_none]
    exact paid (.asked (.send tx) reply) (by simp [split]) transfer

theorem stakeRead_owns (reading : StakeReading) (m : Manager) :
    Owns m (.asked (.stakeReading m.address) (.ok reading) :: (Manager.observeStake reading m).2)
      (Manager.observeStake reading m).1 := by
  have quiet := Manager.observeStake_quiet m reading
  have unread := quiet.filterMap Entry.stake? fun _ => rfl
  constructor
  · rw [Manager.observeStake_memory]
    cases zero : reading.isZero with
    | true => simp [firstOwner, stakes, Entry.stake?, zero, unread]
    | false => cases known : m.owner <;> simp [firstOwner, stakes, Entry.stake?, zero]
  · intro before tx reply after split transfer
    have member : .asked (.send tx) reply ∈
        .asked (.stakeReading m.address) (.ok reading) :: (Manager.observeStake reading m).2 := by
      rw [split]
      simp
    rcases List.mem_cons.mp member with first | later
    · cases first
    · obtain ⟨notice, wrong⟩ := quiet _ later
      cases wrong

-- Only sweeps send funds.
theorem Part.pays {m added m'} (part : Part m added m') (owner : Option String) :
    ∀ entry ∈ added, entry.pays owner := by
  refine part.all ?asked ?_ ?_ ?_ ?_
  case asked =>
    intro call reply idle
    cases call with
    | send => cases idle
    | _ => trivial
  all_goals intros; trivial

namespace Effect

theorem Attempts.pays {block m r added m'} (run : Attempts block m r added m') (owner : Option String) :
    ∀ entry ∈ added, entry.pays owner := by
  refine run.all ?asked fun _ => trivial
  intro call reply registers
  cases call with
  | send tx =>
    intro transfer
    rw [Call.registers, transfer] at registers
    cases registers
  | _ => trivial

theorem Transfers.pays {account owner price block m r added m'}
    (run : Transfers account owner price block m r added m') :
    ∀ entry ∈ added, entry.pays (some owner) := by
  cases run <;> simp [Entry.pays, sweepTransfer, Transaction.valueTransfer]

theorem Withdraws.pays {managerFunds block m r added m'}
    (run : Withdraws managerFunds block m r added m') : ∀ entry ∈ added, entry.pays m.owner := by
  cases run with
  | ownerless | priceUnread => simp [Entry.pays]
  | workerFailed known worker =>
    have first := worker.pays
    simpa [Entry.pays, known] using first
  | workerOnly spared known worker =>
    have first := worker.pays
    rw [known]
    simp only [List.mem_cons, List.mem_append, List.not_mem_nil, or_false]
    rintro entry (rfl | member | rfl)
    · trivial
    · exact first entry member
    · trivial
  | managerFailed wanted known worker manager =>
    have first := worker.pays
    have second := manager.pays
    rw [known]
    simp only [List.mem_cons, List.mem_append]
    rintro entry (rfl | member | member)
    · trivial
    · exact first entry member
    · exact second entry member
  | both wanted known worker manager =>
    have first := worker.pays
    have second := manager.pays
    rw [known]
    simp only [List.mem_cons, List.mem_append, List.not_mem_nil, or_false]
    rintro entry (rfl | (member | member) | rfl)
    · trivial
    · exact first entry member
    · exact second entry member
    · trivial

theorem Sweeps.pays {cause managerFunds block m r added m'}
    (run : Sweeps cause managerFunds block m r added m') : ∀ entry ∈ added, entry.pays m.owner := by
  cases run with
  | failed run =>
    intro entry member
    rcases List.mem_cons.mp member with rfl | inner
    · trivial
    · exact run.pays entry inner
  | ended run =>
    simp only [List.mem_cons, List.mem_append, List.not_mem_nil, or_false]
    rintro entry (rfl | inner | rfl)
    · trivial
    · exact run.pays entry inner
    · trivial

theorem Sweeps.owns {cause managerFunds block m r added m'}
    (run : Sweeps cause managerFunds block m r added m') : Owns m added m' := run.unread.owns run.pays

end Effect

theorem owns_forgetting {m m' : Manager} (same : m'.owner = m.owner) : Owns m [] m' := by
  constructor
  · rw [same]
    exact Option.or_none.symm
  · intro before tx reply after split
    simp at split

theorem owns_trail : Trail Owns where
  refl m := owns_forgetting rfl
  trans := by
    intro m added middle more m' first second
    constructor
    · rw [second.owner, first.owner, Entry.firstOwner_append, Option.or_assoc]
    · intro before tx reply after split transfer
      rcases Entry.split_append split with ⟨early, whole⟩ | ⟨late, rfl, whole⟩
      · exact first.paid before tx reply early whole transfer
      · have known := second.paid late tx reply after whole transfer
        rwa [first.owner, Option.or_assoc, ← Entry.firstOwner_append] at known
  part := by
    intro m added m' part
    rcases part.read_or_unread with ⟨reading, rfl, rfl⟩ | unread
    · exact stakeRead_owns reading m
    · exact unread.owns (part.pays m.owner)

theorem owns_course : Course Owns where
  toTrail := owns_trail
  handled run := run.obeys owns_trail fun sweep => sweep.owns
  released run := run.obeys owns_trail (fun _ => owns_forgetting rfl) fun sweep => sweep.owns
  pended m reply := (unread_pending m reply).owns (by simp [Entry.pays])
  attempted run := run.unread.owns (run.pays _)
  demanded run := run.owns

theorem Owns.settled {m added m'} (owns : Owns m added m') {owner : String} (known : m.owner = some owner) :
    m'.owner = some owner := by
  rw [owns.owner, known]
  rfl

theorem Recalls.last {m added m'} (recalls : Recalls m added m') :
    m'.stakeLocked = ((stakes added).getLast?.map (·.locked)).getD m.stakeLocked ∧
      m'.stake.current = ((stakes added).getLast?.map (·.stake)).getD m.stake.current := by
  have memory := recalls.memory
  simp only [Entry.lastStake, Manager.stakeMemory, Prod.ext_iff] at memory
  obtain ⟨locked, current⟩ := memory
  rw [locked, current, stakes]
  cases (added.filterMap Entry.stake?).getLast? with
  | none => exact ⟨rfl, rfl⟩
  | some reading => exact ⟨rfl, rfl⟩

section

variable {ω : Type} (c : Collaborators ω)

theorem commands_view (s : Session ω) (commands : List Command) :
    Owns s.manager (s.adds (s.performAll c commands).2) (s.performAll c commands).2.manager ∧
      Recalls s.manager (s.adds (s.performAll c commands).2) (s.performAll c commands).2.manager := by
  have works := performAll_works c s commands
  constructor
  · exact works_obey owns_course (fun _ _ _ _ _ => owns_forgetting rfl) works
  · exact works_obey recalls_course (fun _ _ _ _ _ => recalls_nothing (by simp) rfl rfl rfl) works

-- The owner is that of the first reading that found a stake, lock and amount are those of the last one, whatever has
-- failed. Each transfer goes to that owner, who was known before it.
theorem stake_view_is_history (settings : ServerSettings) (address worker : String) (world : ω)
    (commands : List Command) :
    let s := ((Session.fresh settings address worker world).performAll c commands).2
    let readings := stakes s.journal
    s.manager.owner = readings.head?.map (·.owner) ∧
      s.manager.stakeLocked = readings.getLast?.any (fun reading => reading.withdrawBlock = 0) ∧
      s.manager.stake.current = (readings.getLast?.map (·.stake)).getD 0 ∧
      (∀ before tx reply after, s.journal = before ++ .asked (.send tx) reply :: after →
        tx.action = .valueTransfer →
          firstOwner before = some tx.destination ∧ s.manager.owner = some tx.destination) ∧
      (∀ owner later, s.manager.owner = some owner →
        (s.performAll c later).2.manager.owner = some owner) ∧
      ∀ command, stakes (s.adds (s.perform c command).2) = [] →
        let after := (s.perform c command).2.manager
        after.owner = s.manager.owner ∧ after.stakeLocked = s.manager.stakeLocked ∧
          after.stake.current = s.manager.stake.current := by
  intro s readings
  obtain ⟨owns, recalls⟩ := commands_view c (Session.fresh settings address worker world) commands
  have owner : s.manager.owner = firstOwner s.journal := owns.owner
  obtain ⟨locked, current⟩ : s.manager.stakeLocked = (readings.getLast?.map (·.locked)).getD false ∧
      s.manager.stake.current = (readings.getLast?.map (·.stake)).getD 0 := recalls.last
  refine ⟨owner, ?_, current, ?_, ?_, ?_⟩
  · rw [locked]
    cases readings.getLast? with
    | none => rfl
    | some reading => rfl
  · intro before tx reply after split transfer
    have known : firstOwner before = some tx.destination := owns.paid before tx reply after split transfer
    refine ⟨known, ?_⟩
    rw [owner, split, Entry.firstOwner_append, known]
    rfl
  · intro first later known
    exact (commands_view c s later).1.settled known
  · intro command unread after
    obtain ⟨owned, recalled⟩ := commands_view c s [command]
    obtain ⟨sameLock, sameAmount⟩ := recalled.last
    have sameOwner := owned.owner
    have silent : stakes (s.adds (s.performAll c [command]).2) = [] := unread
    rw [silent] at sameLock sameAmount
    rw [firstOwner, silent] at sameOwner
    exact ⟨sameOwner.trans Option.or_none, sameLock, sameAmount⟩

end

namespace Rehearsal

def reowned : Rehearsal :=
  { leaving [stakeAdded 5, stakeWithdrawn 30] with
    stake := {}
    nextStakes := [{ stake := 1000, owner }, { stake := 400, withdrawBlock := 50, owner := worker }] }

def reownedRun : Session Rehearsal := run reowned [.initialise, .handle [] 0 40 false]

theorem reowned_stake_pays_first_owner :
    (stakes reownedRun.journal).map (·.owner) = [owner, worker] ∧
      (reownedRun.journal.filterMap Entry.transfer?).length = 2 ∧
      (∀ tx ∈ reownedRun.journal.filterMap Entry.transfer?, reownedRun.manager.owner = some tx.destination) ∧
      (reownedRun.performAll collaborators [.refreshStake, .refreshBalance]).2.manager.owner = some owner ∧
      (reownedRun.perform collaborators .refreshStake).2.manager.stake.current =
        reownedRun.manager.stake.current := by
  have known : reownedRun.manager.owner = some owner := by decide +kernel
  have readings : (stakes reownedRun.journal).map (·.owner) = [owner, worker] := by decide +kernel
  have sent : (reownedRun.journal.filterMap Entry.transfer?).length = 2 := by decide +kernel
  have silent : stakes (reownedRun.adds (reownedRun.perform collaborators .refreshStake).2) = [] := by
    decide +kernel
  -- The run is spelled out: to compare it with its name, the kernel would evaluate it.
  unfold reownedRun run start at *
  obtain ⟨_, _, _, paid, kept, still⟩ := stake_view_is_history collaborators settings manager worker
    reowned [.initialise, .handle [] 0 40 false]
  refine ⟨readings, sent, ?_, kept owner _ known, (still .refreshStake silent).2.2⟩
  intro tx transferred
  obtain ⟨entry, member, seen⟩ := List.mem_filterMap.mp transferred
  obtain ⟨before, after, split⟩ := List.append_of_mem member
  cases entry with
  | asked call reply =>
    cases call with
    | send other =>
      cases reply with
      | error failure => cases seen
      | ok receipt =>
        obtain ⟨transfer, same⟩ := Option.ite_none_right_eq_some.mp seen
        cases same
        exact (paid before tx (.ok receipt) after split transfer).2
    | _ => cases seen
  | _ => cases seen

end Rehearsal
end TransactionRelay
