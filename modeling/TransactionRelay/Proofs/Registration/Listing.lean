import TransactionRelay.Proofs.Registration.Interrupted
import TransactionRelay.Proofs.Registration.Stages

namespace TransactionRelay

open Entry (announcements lastRecord)

def RelayRecord.Names (record : RelayRecord) (address url : String) : Prop :=
  record.manager.any (Address.same · address) = true ∧ record.url = url

def RelayRecord.flagged (record : RelayRecord) (registered penalized stakeAdded : Bool) : RelayRecord :=
  { record with registered, penalized, stakeAdded }

namespace Manager

variable {m : Manager}

theorem registrationCorrect_iff : m.registrationCorrect = true ↔
    ∃ record, m.hubRecord = some record ∧ record.Names m.address m.settings.registrationUrl := by
  unfold registrationCorrect RelayRecord.Names
  cases m.hubRecord with
  | none => simp
  | some record => simp

def flagged (m : Manager) (registered penalized stakeAdded : Bool) : Manager :=
  { m with hubRecord := m.hubRecord.map (·.flagged registered penalized stakeAdded) }

theorem flagged_correct (registered penalized stakeAdded : Bool) :
    (m.flagged registered penalized stakeAdded).registrationCorrect = m.registrationCorrect := by
  unfold registrationCorrect flagged
  cases m.hubRecord <;> rfl

theorem flagged_registered (registered penalized stakeAdded : Bool) :
    (m.flagged registered penalized stakeAdded).registered = m.registered := by
  rw [Manager.registered, flagged_correct]
  rfl

theorem flagged_stage (registered penalized stakeAdded : Bool) :
    (m.flagged registered penalized stakeAdded).stage = m.stage := by
  rw [stage, flagged_correct]
  rfl

end Manager

namespace Entry

theorem lastRecord_eq (known : Option RelayRecord) (entries : List Entry) :
    lastRecord known entries = (entries.filterMap record?).getLast?.or known := by
  induction entries generalizing known with
  | nil => rfl
  | cons entry rest ih =>
    have step : lastRecord known (entry :: rest) = lastRecord (entry.record?.or known) rest := rfl
    rw [step, ih, List.filterMap_cons]
    cases entry.record? with
    | none => rfl
    | some record =>
      rw [List.getLast?_cons]
      cases (rest.filterMap record?).getLast? <;> rfl

-- Between a record that lists the relay and one that does not, a removal is announced.
theorem announcements_delisted {known : Option RelayRecord} {entries : List Entry} {last : RelayRecord}
    (listed : known.any (·.listed) = true) (read : lastRecord known entries = some last)
    (gone : last.listed = false) : .removed ∈ announcements known entries := by
  induction entries generalizing known with
  | nil =>
    have same : known = some last := read
    rw [same, Option.any_some, gone] at listed
    cases listed
  | cons entry rest ih =>
    rw [announcements, List.mem_append]
    cases own : entry.record? with
    | none => exact .inr (ih listed (own ▸ read))
    | some record =>
      cases lists : record.listed with
      | true =>
        exact .inr (ih lists (own ▸ read))
      | false =>
        have once := announces_removed known entry
        rw [own, Option.any_some, listed, lists] at once
        exact .inl (List.count_pos_iff.mp (once ▸ Nat.one_pos))

end Entry

namespace Effect

theorem Cycles.fetched {hubEvents scanned current force m outcome added m'}
    (run : Cycles hubEvents scanned current force m (.ok outcome) added m') :
    ∃ record, added.filterMap Entry.record? = [record] ∧ m'.hubRecord = some record := by
  obtain ⟨record, fetched⟩ : ∃ record, added.filterMap Entry.record? = [record] := by
    cases run with
    | done scan release register =>
      obtain ⟨record, scanned, _⟩ := scan.fetched
      have released := release.asks.recordless fun _ => rfl
      have registered := register.asks.recordless fun _ => rfl
      refine ⟨record, ?_⟩
      rw [List.filterMap_append, List.filterMap_append, scanned, released, registered]
      rfl
  refine ⟨record, fetched, ?_⟩
  rw [(cycle_hands run).record, Entry.lastRecord_eq, fetched]
  rfl

-- A removal that did not wait before the cycle is of the record that the cycle read.
theorem Cycles.removed {hubEvents scanned current force m outcome added m'}
    (run : Cycles hubEvents scanned current force m (.ok outcome) added m')
    (taken : .removed ∈ outcome.notifications) (fresh : .removed ∉ m.notifications) :
    ∃ record, m'.hubRecord = some record ∧ record.listed = false := by
  obtain ⟨record, fetched, remembered⟩ := run.fetched
  have pending : outcome.notifications ++ m'.notifications =
      m.notifications ++ announcements m.hubRecord added := (cycle_hands run).pending
  have told : .removed ∈ m.notifications ++ announcements m.hubRecord added :=
    pending ▸ List.mem_append_left _ taken
  have announced := List.count_pos_iff.mpr ((List.mem_append.mp told).resolve_left fresh)
  rw [Entry.announcements_removed _ fetched] at announced
  refine ⟨record, remembered, ?_⟩
  cases lists : record.listed with
  | false => rfl
  | true =>
    rw [lists, Bool.not_true, Bool.and_false] at announced
    cases announced

end Effect

section

variable {ω : Type} (c : Collaborators ω)

theorem performAll_append (s : Session ω) (first second : List Command) :
    s.performAll c (first ++ second) =
      ((s.performAll c first).1 ++ ((s.performAll c first).2.performAll c second).1,
        ((s.performAll c first).2.performAll c second).2) := by
  induction first generalizing s with
  | nil => rfl
  | cons command rest ih =>
    rw [List.cons_append, Session.performAll, ih]
    rfl

namespace Session.Reached

variable {settings : ServerSettings} {address : String} {s : Session ω}

theorem correct_iff (reached : s.Reached settings address) : s.manager.registrationCorrect = true ↔
    ∃ record, s.manager.hubRecord = some record ∧ record.Names address settings.registrationUrl := by
  rw [Manager.registrationCorrect_iff, reached.address, reached.settings]

theorem registered_iff (reached : s.Reached settings address) {record : RelayRecord}
    (read : s.manager.hubRecord = some record) : s.manager.registered = true ↔
    s.manager.stake.satisfied = true ∧ s.manager.stakeLocked = true ∧
      record.Names address settings.registrationUrl := by
  rw [Manager.registered_iff, reached.correct_iff, read]
  simp only [Option.some.injEq, exists_eq_left']

theorem stage_iff (reached : s.Reached settings address) : s.manager.stage = .registered ↔
    s.manager.registered = true ∧ s.manager.balance.satisfied = true ∧
      ∀ cause, .sweepEnded cause ∉ s.journal := by
  rw [reached.owned.registered_stage, Bool.eq_false_iff, ne_eq, reached.leaves, not_exists]

end Session.Reached

-- The flags of the record say whether the hub lists the relay; the account and the url that it carries say whether the
-- relay counts as registered, whatever the flags are. So a relay may count as registered right after it was
-- announced as removed.
theorem registered_by_account_and_url (settings : ServerSettings) (address worker : String) (world : ω)
    (earlier later : List Command) :
    let before := ((Session.fresh settings address worker world).performAll c earlier).2
    let s := (before.performAll c later).2
    (s.manager.registered = true ∨ s.manager.stage = .registered →
      ∃ record, s.manager.hubRecord = some record ∧ lastRecord none s.journal = some record ∧
        record.Names address settings.registrationUrl ∧
        (before.manager.hubRecord.any (·.listed) = true → record.listed = false →
          .removed ∈ (before.adds s).filterMap Entry.emitted?)) ∧
      (∀ registered penalized stakeAdded,
        (s.manager.flagged registered penalized stakeAdded).registered = s.manager.registered ∧
          (s.manager.flagged registered penalized stakeAdded).stage = s.manager.stage) ∧
      ∀ hubEvents scanned current force outcome,
        let ran := s.perform c (.handle hubEvents scanned current force)
        ran.1 = .ok (.outcome outcome) → .removed ∈ outcome.notifications →
          .removed ∉ s.manager.notifications →
          ∃ record, ran.2.manager.hubRecord = some record ∧ record.listed = false ∧
            (ran.2.manager.registered = true ↔ ran.2.manager.stake.satisfied = true ∧
              ran.2.manager.stakeLocked = true ∧ record.Names address settings.registrationUrl) ∧
            (ran.2.manager.stage = .registered ↔ ran.2.manager.registered = true ∧
              ran.2.manager.balance.satisfied = true ∧ ∀ cause, .sweepEnded cause ∉ ran.2.journal) := by
  intro before s
  have reached : s.Reached settings address := by
    have run := performAll_reached c settings address worker world (earlier ++ later)
    rw [performAll_append] at run
    exact run
  refine ⟨fun counts => ?_, fun registered penalized stakeAdded =>
    ⟨Manager.flagged_registered .., Manager.flagged_stage ..⟩, fun hubEvents scanned current force outcome =>
    ?_⟩
  · have registered : s.manager.registered = true :=
      counts.elim id fun last => (reached.stage_iff.mp last).1
    obtain ⟨record, read, names⟩ := reached.correct_iff.mp (Manager.registered_iff.mp registered).2.2
    refine ⟨record, read, reached.record.symm.trans read, names, fun listed gone => ?_⟩
    obtain ⟨added, journal, hands⟩ := performAll_hands c before later
    rw [adds_eq journal, hands.emitted]
    exact Entry.announcements_delisted listed (hands.record.symm.trans read) gone
  · intro ran given taken fresh
    have run := perform_effect c s (.handle hubEvents scanned current force)
    change Effect.Maps _ _ _ ran.1 _ _ at run
    rw [given] at run
    cases run with
    | given cycle =>
      obtain ⟨record, read, gone⟩ := cycle.removed taken fresh
      have after : ran.2.Reached settings address := by
        have run := performAll_reached c settings address worker world
          ((earlier ++ later) ++ [.handle hubEvents scanned current force])
        rw [performAll_append, performAll_append] at run
        exact run
      exact ⟨record, read, gone, after.registered_iff read, after.stage_iff⟩

end

namespace Rehearsal

def hubSays : Collaborators (List RelayRecord) where
  answer
    | .relayData _, record :: rest => (.ok [record], rest)
    | call, rest => ((Rehearsal.answer call staked).1, rest)

def ownRecord : RelayRecord :=
  { manager := some manager, url := settings.registrationUrl, registered := true, stakeAdded := true }

def verdicts : List RelayRecord := [ownRecord, { ownRecord with penalized := true }]

def judged (commands : List Command) : Session (List RelayRecord) :=
  ((Session.fresh settings manager worker verdicts).performAll hubSays commands).2

def listing : List Command := settling ++ [.handle [] 0 20 false]

theorem penalized_relay_counts_as_registered :
    let ran := (judged listing).perform hubSays (.handle [] 20 40 false)
    ran.1 = .ok (.outcome { notifications := [.removed] }) ∧ ran.2.manager.registered = true ∧
      ran.2.manager.stage = .registered ∧
      ∃ record, ran.2.manager.hubRecord = some record ∧ record.listed = false := by
  have facts : ((judged listing).perform hubSays (.handle [] 20 40 false)).1.toOption =
        some (.outcome { notifications := [.removed] }) ∧
      ((judged listing).perform hubSays (.handle [] 20 40 false)).2.manager.registered = true ∧
      ((judged listing).perform hubSays (.handle [] 20 40 false)).2.manager.stage = .registered ∧
      ((judged listing).perform hubSays (.handle [] 20 40 false)).2.manager.hubRecord =
        some { ownRecord with penalized := true } := by decide +kernel
  obtain ⟨given, counts, stage, read⟩ := facts
  exact ⟨given_ok given, counts, stage, _, read, by decide⟩

theorem penalized_relay_keeps_account_and_url :
    (let s := ((judged listing).performAll hubSays [.handle [] 20 40 false]).2
      ∃ record, s.manager.hubRecord = some record ∧ record.Names manager settings.registrationUrl ∧
        .removed ∈ ((judged listing).adds s).filterMap Entry.emitted?) ∧
      (let ran := ((judged listing).performAll hubSays []).2.perform hubSays (.handle [] 20 40 false)
        ∃ record, ran.2.manager.hubRecord = some record ∧ record.listed = false ∧
          ran.2.manager.registered = true) := by
  have facts : (judged listing).manager.hubRecord.any (·.listed) = true ∧
      .removed ∉ ((judged listing).performAll hubSays []).2.manager.notifications ∧
      (((judged listing).performAll hubSays []).2.perform hubSays (.handle [] 20 40 false)).1.toOption =
        some (.outcome { notifications := [.removed] }) ∧
      (((judged listing).performAll hubSays []).2.perform hubSays
        (.handle [] 20 40 false)).2.manager.registered = true ∧
      ((judged listing).performAll hubSays [.handle [] 20 40 false]).2.manager.registered = true ∧
      ((judged listing).performAll hubSays [.handle [] 20 40 false]).2.manager.hubRecord =
        some { ownRecord with penalized := true } := by decide +kernel
  -- The runs are spelled out: to compare them with their name, the kernel would evaluate them.
  rw [judged] at facts ⊢
  obtain ⟨lists, fresh, given, still, counts, penalized⟩ := facts
  obtain ⟨run, _, _⟩ := registered_by_account_and_url hubSays settings manager worker verdicts listing
    [.handle [] 20 40 false]
  obtain ⟨_, _, removed⟩ :=
    registered_by_account_and_url hubSays settings manager worker verdicts listing []
  obtain ⟨record, read, _, names, announced⟩ := run (.inl counts)
  have same : record = { ownRecord with penalized := true } := Option.some.inj (read.symm.trans penalized)
  obtain ⟨last, cached, gone, _⟩ := removed [] 20 40 false _ (given_ok given) (by decide) fresh
  exact ⟨⟨record, read, names, announced lists (by rw [same]; decide)⟩, last, cached, gone, still⟩

end Rehearsal
end TransactionRelay
