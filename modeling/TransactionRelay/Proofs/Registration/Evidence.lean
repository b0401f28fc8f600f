import Mathlib.Data.List.MinMax
import Mathlib.Data.Prod.Lex
import TransactionRelay.Proofs.Registration.Questions
import TransactionRelay.Rehearsal.Ledger

namespace TransactionRelay

def Position.rank (position : Position) : ℕ ×ₗ ℕ ×ₗ ℕ :=
  toLex (position.block.toNat, toLex (position.transaction.toNat, position.log.toNat))

theorem Position.rank_injective : Function.Injective Position.rank := by
  intro one other same
  simp only [rank, EmbeddingLike.apply_eq_iff_eq, Prod.mk.injEq, UInt64.toNat_inj] at same
  obtain ⟨block, transaction, log⟩ := same
  cases one
  cases other
  simp_all

namespace EventRecord

def rank (event : EventRecord) : ℕ ×ₗ ℕ ×ₗ ℕ := event.position.rank

theorem rank_lt_iff (event other : EventRecord) :
    event.rank < other.rank ↔ event.followedBy other = true := by
  rw [followedBy_iff, rank, rank, Position.rank, Position.rank, Prod.Lex.toLex_lt_toLex,
    Prod.Lex.toLex_lt_toLex]

theorem later_some (known event : EventRecord) :
    later (some known) event = if known.rank < event.rank then some event else some known := by
  simp only [later, rank_lt_iff]

-- What a fold keeps is the first of the greatest.
theorem fold_later_argmax (events : List EventRecord) : events.foldl later none = events.argmax rank := by
  induction events using List.reverseRecOn with
  | nil => rfl
  | append_singleton rest event ih =>
    rw [List.foldl_append, ih, List.argmax_concat]
    cases rest.argmax rank with
    | none => rfl
    | some known => exact later_some known event

theorem argmax_dominant {events : List EventRecord} {event : EventRecord} (member : event ∈ events)
    (upper : ∀ other ∈ events, other = event ∨ other.rank < event.rank) :
    events.argmax rank = some event := by
  cases greatest : events.argmax rank with
  | none =>
    rw [List.argmax_eq_none.mp greatest] at member
    cases member
  | some other =>
    rcases upper other (List.argmax_mem greatest) with rfl | below
    · rfl
    · exact absurd below (not_lt.mpr (List.le_of_mem_argmax member greatest))

-- Of events that differ in their positions, the greatest one does not depend on how they are listed.
theorem argmax_same {events others : List EventRecord} (same : ∀ event, event ∈ others ↔ event ∈ events)
    (distinct : ∀ one ∈ events, ∀ other ∈ events, one.position = other.position → one = other) :
    others.argmax rank = events.argmax rank := by
  cases greatest : events.argmax rank with
  | none =>
    rw [List.argmax_eq_none] at greatest ⊢
    subst greatest
    exact List.eq_nil_iff_forall_not_mem.mpr fun event member => by simpa using (same event).mp member
  | some event =>
    have among := List.argmax_mem greatest
    refine argmax_dominant ((same event).mpr among) fun other member => ?_
    have known := (same other).mp member
    rcases (List.le_of_mem_argmax known greatest).eq_or_lt with level | below
    · exact .inl (distinct other known event among (Position.rank_injective level))
    · exact .inr below

def heard (hubEvents : List EventRecord) (entries : List Entry) : List EventRecord :=
  if entries.filterMap Entry.record? = [] then []
  else hubEvents.filter (·.kind == .relayWorkersAdded)

end EventRecord

open EventRecord (heard later)

namespace Effect

theorem ReadsStake.evidence {m r added m'} (run : ReadsStake m r added m') :
    m'.workerEvidence = m.workerEvidence := by
  cases run with
  | unread failure => rfl
  | read reading =>
    rw [Manager.observeStake_memory]
    split <;> rfl

theorem Sweeps.evidence {cause managerFunds block m r added m'}
    (run : Sweeps cause managerFunds block m r added m') : m'.workerEvidence = m.workerEvidence := by
  obtain ⟨record, _, swept⟩ := run.swept
  rw [swept.memory]
  split <;> rfl

theorem Handles.evidence {block event m r added m'} (run : Handles block event m r added m') :
    m'.workerEvidence = m.workerEvidence := by
  have reacts {r added m'} (run : Reacts block event m r added m') :
      m'.workerEvidence = m.workerEvidence := by
    cases run with
    | unread kind reading | added kind reading => exact reading.evidence
    | unlocked data reading => exact reading.evidence
    | withdrawn kind reading sweep => exact sweep.evidence.trans reading.evidence
    | ignored kind => rfl
  cases run with
  | settled known => rfl
  | failed fresh run => exact reacts run
  | done fresh run =>
    have kept := reacts run
    exact kept

theorem turns_evidence {block events m r added m'} (run : InTurn (Handles block) events m r added m') :
    m'.workerEvidence = m.workerEvidence :=
  run.chained (R := fun m _ m' => m'.workerEvidence = m.workerEvidence) (fun _ => rfl)
    (fun first second => second.trans first) fun _ _ _ _ _ _ run => run.evidence

theorem Releases.evidence {block m r added m'} (run : Releases block m r added m') :
    m'.workerEvidence = m.workerEvidence := by
  obtain ⟨_, _, memory⟩ := run.memory
  rw [memory]

theorem Scans.unheard {hubEvents scanned current m failure added m'}
    (run : Scans hubEvents scanned current m (.error failure) added m') :
    added.filterMap Entry.record? = [] ∧ m'.workerEvidence = m.workerEvidence := by
  have fetch (events : List EventRecord) :
      (fetchEntries m scanned current events).filterMap Entry.record? = [] :=
    fetchEntries_view Entry.record? (fun _ => rfl) m scanned current events
  cases run with
  | idle fresh => exact ⟨rfl, rfl⟩
  | unread ready failure => exact ⟨rfl, rfl⟩
  | stopped ready handling =>
    have turns := (turns_ask handling).recordless fun _ => rfl
    have kept := turns_evidence handling
    exact ⟨by rw [List.filterMap_append, fetch, turns, List.append_nil], kept⟩
  | recordless ready handling record =>
    have turns := (turns_ask handling).recordless fun _ => rfl
    have kept := turns_evidence handling
    cases record.memory
    refine ⟨?_, kept⟩
    rw [List.filterMap_append, List.filterMap_append, fetch, turns]
    cases record <;> rfl

theorem Scans.evidence {hubEvents scanned current m r added m'}
    (run : Scans hubEvents scanned current m r added m') :
    m'.workerEvidence = (heard hubEvents added).foldl later m.workerEvidence := by
  cases r with
  | error failure =>
    obtain ⟨none, kept⟩ := run.unheard
    rw [heard, if_pos none]
    exact kept
  | ok hashes =>
    obtain ⟨record, found, _⟩ := run.fetched
    rw [heard, found, if_neg (List.cons_ne_nil record [])]
    cases run with
    | done ready handling fetch =>
      have kept := turns_evidence handling
      exact congrArg (List.foldl later · _) kept

-- After the scan of a cycle no record is read, and nothing is heard of workers.
theorem Cycles.evidence {hubEvents scanned current force m r added m'}
    (run : Cycles hubEvents scanned current force m r added m') :
    m'.workerEvidence = (heard hubEvents added).foldl later m.workerEvidence := by
  have same {scan rest : List Entry} (none : rest.filterMap Entry.record? = []) :
      heard hubEvents (scan ++ rest) = heard hubEvents scan := by
    rw [heard, heard, List.filterMap_append, none, List.append_nil]
  cases run with
  | scanFailed scan => exact scan.evidence
  | releaseFailed scan release =>
    rw [same (release.asks.recordless fun _ => rfl), ← scan.evidence]
    exact release.evidence
  | registerFailed scan release register | done scan release register =>
    rw [same (register.asks.recordless fun _ => rfl), same (release.asks.recordless fun _ => rfl),
      ← scan.evidence]
    exact release.evidence

end Effect

def Entry.hubAnswer : Entry → List EventRecord
  | .asked (.hubEvents ..) (.ok events) => events
  | _ => []

-- What a command with these entries has delivered: all that the first look for evidence found, and the
-- events about workers of a cycle that got past the hub's record. Other commands deliver nothing.
def Command.delivers (command : Command) (entries : List Entry) : List EventRecord :=
  match command with
  | .initialise => entries.flatMap Entry.hubAnswer
  | .handle hubEvents _ _ _ => heard hubEvents entries
  | _ => []

theorem command_evidence {command : Command} {m r added m'} (run : command.effect m r added m') :
    m'.workerEvidence = (command.delivers added).foldl later m.workerEvidence := by
  cases command with
  | initialise =>
    cases run with
    | failed run =>
      cases run with
      | again ready => rfl
      | unsettled fresh faulty => rfl
      | unread fresh bare failure => rfl
    | given run =>
      cases run with
      | found fresh sound bare events => simp [Command.delivers, Entry.hubAnswer, bare, EventRecord.latest]
      | known fresh sound held => rfl
  | handle => cases run with | failed run | given run => exact run.evidence
  | attempt => cases run with | failed run | given run => rw [run.memory]; rfl
  | withdraw => cases run with | failed run | given run => exact run.evidence
  | refreshBalance =>
    cases run with
    | failed run | given run =>
      cases run
      rfl
  | refreshStake => cases run with | failed run | given run => exact run.evidence
  | takeNotifications =>
    cases run with
    | failed run => cases run
    | given run => cases run; rfl
  | explain =>
    cases run with
    | failed run => cases run
    | given run => cases run; rfl

variable {ω : Type} (c : Collaborators ω)

def Session.delivered (s : Session ω) : List Command → List EventRecord
  | [] => []
  | command :: rest =>
    command.delivers (s.adds (s.perform c command).2) ++ (s.perform c command).2.delivered rest

theorem performAll_evidence (s : Session ω) (commands : List Command) :
    (s.performAll c commands).2.manager.workerEvidence =
      (s.delivered c commands).foldl later s.manager.workerEvidence := by
  induction commands generalizing s with
  | nil => rfl
  | cons command rest ih =>
    have first := command_evidence (perform_effect c s command)
    rw [Session.delivered, List.foldl_append, ← first]
    exact ih (s.perform c command).2

theorem fresh_evidence (settings : ServerSettings) (address worker : String) (world : ω)
    (commands : List Command) :
    ((Session.fresh settings address worker world).performAll c commands).2.manager.workerEvidence =
      ((Session.fresh settings address worker world).delivered c commands).argmax EventRecord.rank :=
  (performAll_evidence c _ commands).trans (EventRecord.fold_later_argmax _)

theorem handle_workers_only (hubEvents : List EventRecord) (scanned current : UInt64) (force : Bool)
    (s : Session ω) :
    s.perform c (.handle (hubEvents.filter (·.kind == .relayWorkersAdded)) scanned current force) =
      s.perform c (.handle hubEvents scanned current force) := by
  have observed : Manager.observeHubEvents (hubEvents.filter (·.kind == .relayWorkersAdded)) =
      Manager.observeHubEvents hubEvents := by
    simp [Manager.observeHubEvents, funext_iff]
  have scan : Action.scan c (hubEvents.filter (·.kind == .relayWorkersAdded)) scanned current =
      Action.scan c hubEvents scanned current := by
    simp only [Action.scan, observed]
  simp only [Session.perform, Command.action, Action.handlePastEvents, scan]

-- The look-up at the start and the folds of the cycles make one maximum together. If no two events share a position,
-- the order of their delivery does not matter.
theorem evidence_is_latest_delivered (settings : ServerSettings) (address worker : String) (world : ω)
    (commands : List Command) :
    let run := (Session.fresh settings address worker world).performAll c commands
    let delivered := (Session.fresh settings address worker world).delivered c commands
    run.2.manager.workerEvidence = delivered.argmax EventRecord.rank ∧
      (∀ later, ∀ event ∈ run.2.manager.workerEvidence,
        ∃ next ∈ (run.2.performAll c later).2.manager.workerEvidence, event.rank ≤ next.rank) ∧
      (∀ later, (∀ event ∈ run.2.delivered c later, event ∈ delivered) →
        (run.2.performAll c later).2.manager.workerEvidence = run.2.manager.workerEvidence) ∧
      (∀ hubEvents scanned current force,
        run.2.perform c (.handle (hubEvents.filter (·.kind == .relayWorkersAdded)) scanned current force) =
          run.2.perform c (.handle hubEvents scanned current force)) ∧
      ((∀ one ∈ delivered, ∀ other ∈ delivered, one.position = other.position → one = other) →
        ∀ (elsewhere : ω) (others : List Command),
          (∀ event, event ∈ (Session.fresh settings address worker elsewhere).delivered c others ↔
            event ∈ delivered) →
          ((Session.fresh settings address worker elsewhere).performAll c others).2.manager.workerEvidence =
            run.2.manager.workerEvidence) := by
  intro run delivered
  have evidence : run.2.manager.workerEvidence = delivered.argmax EventRecord.rank :=
    fresh_evidence c settings address worker world commands
  refine ⟨evidence, fun more event known => ?_, fun more again => ?_, fun hubEvents scanned current force =>
    handle_workers_only c hubEvents scanned current force run.2, fun distinct elsewhere others same => ?_⟩
  · rw [performAll_evidence, Option.mem_def.mp known]
    obtain ⟨next, kept, after, _⟩ := EventRecord.fold_later_last (run.2.delivered c more) event
    exact ⟨next, kept, not_lt.mp ((EventRecord.rank_lt_iff next event).not.mpr after)⟩
  · rw [performAll_evidence]
    cases known : run.2.manager.workerEvidence with
    | none =>
      have bare : delivered = [] := List.argmax_eq_none.mp (evidence.symm.trans known)
      have none : run.2.delivered c more = [] :=
        List.eq_nil_iff_forall_not_mem.mpr fun event member => by simpa [bare] using again event member
      rw [none]
      rfl
    | some last =>
      refine EventRecord.fold_later_stays fun event member => ?_
      rw [← EventRecord.rank_lt_iff]
      exact List.not_lt_of_mem_argmax (again event member) (evidence.symm.trans known)
  · rw [evidence, fresh_evidence]
    exact EventRecord.argmax_same same distinct

namespace Rehearsal

def staffAdded (block : UInt64) (workers : List String) : EventRecord :=
  ⟨⟨block, 0, 0⟩, "0xe3", .relayWorkersAdded manager workers 1⟩

def staffed : Rehearsal := { leaving [] with hubEvents := [staffAdded 5 [owner], staffAdded 2 [owner]] }

def hearing : Command := .handle [staffAdded 3 [owner], staffAdded 12 [worker]] 10 20 false

theorem second_hearing_changes_nothing :
    (run staffed [.initialise, hearing]).manager.workerEvidence = some (staffAdded 12 [worker]) ∧
      ((run staffed [.initialise, hearing]).performAll collaborators
        [hearing]).2.manager.workerEvidence = some (staffAdded 12 [worker]) := by
  have latest : (run staffed [.initialise, hearing]).manager.workerEvidence =
      some (staffAdded 12 [worker]) := by decide +kernel
  have again : ∀ event ∈ (run staffed [.initialise, hearing]).delivered collaborators [hearing],
      event ∈ (start staffed).delivered collaborators [.initialise, hearing] := by decide +kernel
  refine ⟨latest, ?_⟩
  -- The run is spelled out, as the general statement has it.
  rw [run, start] at latest again ⊢
  rw [(evidence_is_latest_delivered collaborators settings manager worker staffed
    [.initialise, hearing]).2.2.1 [hearing] again]
  exact latest

end Rehearsal
end TransactionRelay
