import TransactionRelay.Proofs.Polling.PollGate
import TransactionRelay.Proofs.Registration.Announcements
import TransactionRelay.Proofs.Registration.StakeHistory

namespace TransactionRelay

open Entry (stakes firstOwner announcements lastRecord)

def Manager.Owned (m : Manager) : Prop :=
  m.stakeLocked = true ∨ m.stake.current ≠ 0 → m.owner.isSome = true

theorem owned_new (settings : ServerSettings) (address worker : String) :
    (Manager.new settings address worker).Owned := by
  rintro (locked | staked)
  · cases locked
  · exact absurd rfl staked

-- The reading that makes a stake known makes its owner known, and no work forgets an owner.
theorem Manager.Owned.kept {m added m'} (owned : m.Owned) (owns : Owns m added m')
    (recalls : Recalls m added m') : m'.Owned := by
  obtain ⟨locked, current⟩ := recalls.last
  have owner := owns.owner
  cases read : stakes added with
  | nil =>
    rw [read] at locked current
    rw [firstOwner, read, List.head?_nil, Option.map_none, Option.or_none] at owner
    intro known
    rw [locked, current] at known
    rw [owner]
    exact owned known
  | cons first rest =>
    rw [firstOwner, read, List.head?_cons, Option.map_some] at owner
    intro _
    rw [owner, Option.isSome_or, Option.isSome_some, Bool.or_true]

namespace Manager

variable {m : Manager}

theorem stage_registerable_iff : m.stage = .registerable ↔
    m.unstaked = false ∧ m.owner.isSome = true ∧ m.mayRegister = true ∧ m.registrationCorrect = false := by
  unfold stage mayRegister
  cases m.unstaked <;> cases m.owner <;> cases m.stakeLocked <;> cases m.stake.satisfied <;>
    cases m.balance.satisfied <;> cases m.registrationCorrect <;> simp

theorem stage_registered_iff : m.stage = .registered ↔
    m.unstaked = false ∧ m.owner.isSome = true ∧ m.mayRegister = true ∧ m.registrationCorrect = true := by
  unfold stage mayRegister
  cases m.unstaked <;> cases m.owner <;> cases m.stakeLocked <;> cases m.stake.satisfied <;>
    cases m.balance.satisfied <;> cases m.registrationCorrect <;> simp

theorem mayRegister_iff : m.mayRegister = true ↔
    m.stakeLocked = true ∧ m.stake.satisfied = true ∧ m.balance.satisfied = true := by
  rw [mayRegister, Bool.and_eq_true, Bool.and_eq_true, and_assoc]

theorem registered_iff : m.registered = true ↔
    m.stake.satisfied = true ∧ m.stakeLocked = true ∧ m.registrationCorrect = true := by
  rw [registered, Bool.and_eq_true, Bool.and_eq_true, and_assoc]

theorem Owned.mayRegister_stage (owned : m.Owned) (stays : m.unstaked = false) :
    m.mayRegister = true ↔ m.stage = .registerable ∨ m.stage = .registered := by
  rw [stage_registerable_iff, stage_registered_iff]
  constructor
  · intro may
    have known := owned (.inl (mayRegister_iff.mp may).1)
    cases correct : m.registrationCorrect with
    | false => exact .inl ⟨stays, known, may, rfl⟩
    | true => exact .inr ⟨stays, known, may, rfl⟩
  · rintro (⟨_, _, may, _⟩ | ⟨_, _, may, _⟩)
    · exact may
    · exact may

theorem Owned.registered_stage (owned : m.Owned) : m.stage = .registered ↔
    m.registered = true ∧ m.balance.satisfied = true ∧ m.unstaked = false := by
  rw [stage_registered_iff, mayRegister_iff, registered_iff]
  constructor
  · rintro ⟨stays, _, ⟨locked, staked, paid⟩, correct⟩
    exact ⟨⟨staked, locked, correct⟩, paid, stays⟩
  · rintro ⟨⟨staked, locked, correct⟩, paid, stays⟩
    exact ⟨stays, owned (.inl locked), ⟨locked, staked, paid⟩, correct⟩

end Manager

theorem Entry.announcements_leaving (known : Option RelayRecord) (entries : List Entry) :
    .unstaked ∈ announcements known entries ↔ ∃ cause, .sweepEnded cause ∈ entries := by
  rw [← List.count_pos_iff, announcements_unstaked, List.countP_pos_iff]
  constructor
  · rintro ⟨entry, member, ends⟩
    cases entry with
    | sweepEnded cause => exact ⟨cause, member⟩
    | _ => cases ends
  · rintro ⟨cause, member⟩
    exact ⟨.sweepEnded cause, member, rfl⟩

theorem Hands.leaving {taken m added m'} (hands : Hands taken m added m') :
    m'.unstaked = true ↔ m.unstaked = true ∨ ∃ cause, .sweepEnded cause ∈ added := by
  rw [hands.unstaked, Bool.or_eq_true, decide_eq_true_iff, Entry.announcements_leaving]

namespace Effect

-- An attempt that passes its check asks first whether the worker is being added.
theorem EnsuresWorker.asks_first {block m r added m'} (run : EnsuresWorker block m r added m') :
    ∃ reply later, added = .asked (.isPending .addWorker) reply :: later := by
  cases run with
  | unread failure => exact ⟨_, _, rfl⟩
  | spared adding unneeded => exact ⟨_, _, rfl⟩
  | failed absent add => exact ⟨_, _, rfl⟩
  | added absent add => exact ⟨_, _, rfl⟩

theorem Attempts.passed {block m r added m'} (run : Attempts block m r added m')
    (may : m.mayRegister = true) : ∃ reply later, added = .asked (.isPending .addWorker) reply :: later := by
  cases run with
  | unready barred => rw [barred] at may; cases may
  | stopped ready ensure => exact ensure.asks_first
  | failed ready ensure register | registered ready ensure register =>
    obtain ⟨reply, later, first⟩ := ensure.asks_first
    exact ⟨reply, later ++ _, by rw [first, List.cons_append]⟩

theorem Attempts.barred {block m r added m'} (run : Attempts block m r added m')
    (may : m.mayRegister = false) : r = .ok [] ∧ added = [.logged .notReady] := by
  cases run with
  | unready barred => exact ⟨rfl, rfl⟩
  | stopped ready | failed ready | registered ready => rw [ready] at may; cases may

end Effect

section

variable {ω : Type} (c : Collaborators ω)

-- An attempt at this block would get past its check: it would begin with a question.
def Session.MayTry (s : Session ω) (block : UInt64) : Prop :=
  ∃ reply later, s.adds (s.perform c (.attempt block)).2 = .asked (.isPending .addWorker) reply :: later

theorem attempt_gate (s : Session ω) (block : UInt64) :
    (s.MayTry c block ↔ s.manager.mayRegister = true) ∧
      (¬ s.MayTry c block → (s.perform c (.attempt block)).1 = .ok (.hashes []) ∧
        s.adds (s.perform c (.attempt block)).2 = [.logged .notReady]) := by
  have run := perform_effect c s (.attempt block)
  change Effect.Maps _ _ _ (s.perform c (.attempt block)).1 _ _ at run
  cases may : s.manager.mayRegister with
  | true =>
    have asks : s.MayTry c block := by
      generalize (s.perform c (.attempt block)).1 = result at run
      cases run with
      | failed run | given run => exact run.passed may
    exact ⟨⟨fun _ => rfl, fun _ => asks⟩, fun silent => absurd asks silent⟩
  | false =>
    have stops : (s.perform c (.attempt block)).1 = .ok (.hashes []) ∧
        s.adds (s.perform c (.attempt block)).2 = [.logged .notReady] := by
      generalize (s.perform c (.attempt block)).1 = result at run
      cases run with
      | failed run => cases (run.barred may).1
      | given run =>
        obtain ⟨same, added⟩ := run.barred may
        cases same
        exact ⟨rfl, added⟩
    refine ⟨⟨?_, fun wrong => nomatch wrong⟩, fun _ => stops⟩
    rintro ⟨reply, later, asks⟩
    rw [stops.2] at asks
    cases asks

theorem performAll_owned (settings : ServerSettings) (address worker : String) (world : ω)
    (commands : List Command) :
    ((Session.fresh settings address worker world).performAll c commands).2.manager.Owned := by
  obtain ⟨owns, recalls⟩ := commands_view c (Session.fresh settings address worker world) commands
  exact (owned_new settings address worker).kept owns recalls

structure Session.Reached (settings : ServerSettings) (address : String) (s : Session ω) : Prop where
  settings : s.manager.settings = settings
  address : s.manager.address = address
  owned : s.manager.Owned
  record : s.manager.hubRecord = lastRecord none s.journal
  leaves : s.manager.unstaked = true ↔ ∃ cause, .sweepEnded cause ∈ s.journal

theorem performAll_reached (settings : ServerSettings) (address worker : String) (world : ω)
    (commands : List Command) :
    ((Session.fresh settings address worker world).performAll c commands).2.Reached settings address := by
  have kept := works_obey keeps_course (fun _ _ _ _ _ => ⟨rfl, rfl, rfl, rfl, rfl⟩)
    (performAll_works c (Session.fresh settings address worker world) commands)
  obtain ⟨added, journal, hands⟩ :=
    performAll_hands c (Session.fresh settings address worker world) commands
  have whole : ((Session.fresh settings address worker world).performAll c commands).2.journal = added :=
    journal
  refine ⟨kept.settings, kept.address, performAll_owned c settings address worker world commands, ?_, ?_⟩
  · rw [whole]
    exact hands.record
  · rw [whole]
    exact hands.leaving.trans (or_iff_right Bool.false_ne_true)

-- Nothing is known of a stake whose owner is unknown. So as long as no sweep has ended, an attempt gets past its check
-- exactly in the stages `registerable` and `registered`, and does nothing in the others.
theorem stage_tells_whether_to_register (settings : ServerSettings) (address worker : String) (world : ω)
    (commands : List Command) :
    let s := ((Session.fresh settings address worker world).performAll c commands).2
    (s.manager.stakeLocked = true ∨ s.manager.stake.current ≠ 0 → s.manager.owner.isSome = true) ∧
      ((∀ cause, .sweepEnded cause ∉ s.journal) →
        (∀ block, s.MayTry c block ↔ s.manager.stage = .registerable ∨ s.manager.stage = .registered) ∧
        (∀ block, ¬ s.MayTry c block → (s.perform c (.attempt block)).1 = .ok (.hashes []) ∧
          s.adds (s.perform c (.attempt block)).2 = [.logged .notReady]) ∧
        (s.manager.stage = .registered → s.manager.registered = true) ∧
        (s.manager.registered = true → s.manager.balance.satisfied = true →
          s.manager.stage = .registered)) := by
  intro s
  have reached : s.Reached settings address := performAll_reached c settings address worker world commands
  refine ⟨reached.owned, fun unswept => ?_⟩
  have stays : s.manager.unstaked = false := by
    refine Bool.eq_false_iff.mpr fun left => ?_
    obtain ⟨cause, ended⟩ := reached.leaves.mp left
    exact unswept cause ended
  refine ⟨fun block => ?_, fun block => (attempt_gate c s block).2, ?_, ?_⟩
  · rw [(attempt_gate c s block).1]
    exact reached.owned.mayRegister_stage stays
  · intro last
    exact (reached.owned.registered_stage.mp last).1
  · intro registered paid
    exact reached.owned.registered_stage.mpr ⟨registered, paid, stays⟩

end

namespace Rehearsal

def staked : Rehearsal :=
  { leaving [] with stake := { stake := 1000, unstakeDelay := 100, owner } }

def settling : List Command := [.initialise, .refreshBalance, .refreshStake]

theorem staked_relay_may_try :
    (∀ cause, .sweepEnded cause ∉ (run staked settling).journal) ∧
      (run staked settling).manager.stage = .registerable ∧
      (run staked settling).MayTry collaborators 20 ∧
      (run staked settling).manager.owner.isSome = true := by
  have stage : (run staked settling).manager.stage = .registerable := by decide +kernel
  have locked : (run staked settling).manager.stakeLocked = true := by decide +kernel
  have unswept : ∀ cause, .sweepEnded cause ∉ (run staked settling).journal := by
    have none : (run staked settling).journal.all Entry.unmarked = true := by decide +kernel
    intro cause ended
    cases List.all_eq_true.mp none _ ended
  -- The run is spelled out: to compare it with its name, the kernel would evaluate it.
  rw [run, start] at stage locked unswept ⊢
  obtain ⟨known, tells⟩ :=
    stage_tells_whether_to_register collaborators settings manager worker staked settling
  exact ⟨unswept, stage, ((tells unswept).1 20).mpr (.inl stage), known (.inl locked)⟩

end Rehearsal
end TransactionRelay
