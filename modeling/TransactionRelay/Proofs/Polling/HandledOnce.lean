import Mathlib.Data.List.Nodup
import TransactionRelay.Proofs.Polling.Polls
import TransactionRelay.Proofs.Registration.DueUnlocks
import TransactionRelay.Proofs.Registration.RetriedSweeps

namespace TransactionRelay

namespace Entry

def stakeAnswer? : Entry → Option (BlockRange × List EventRecord)
  | .asked (.stakeEvents _ _ range) (.ok events) => some (range, events)
  | _ => none

-- An unlock is handled when it is in the queue, a withdrawal when its sweep has ended, and an added
-- stake, which asks for a reading only, when it is settled.
def completion? : Entry → Option EventRecord
  | .queued event true | .sweepEnded (.withdrawn event) => some event
  | .settled event => if event.kind = .stakeAdded then some event else none
  | _ => none

def completions (entries : List Entry) : List EventRecord := entries.filterMap completion?

def readsStake : Entry → Bool
  | .asked (.stakeReading _) (.ok _) => true
  | _ => false

def refreshed (read : Bool) : List Entry → Bool
  | [] => true
  | entry :: rest =>
    if entry.completion?.isSome then read && refreshed false rest
    else refreshed (read || entry.readsStake) rest

theorem refreshed_read {entries : List Entry} (done : refreshed false entries = true) (read : Bool) :
    refreshed read entries = true := by
  induction entries generalizing read with
  | nil => rfl
  | cons entry rest ih =>
    unfold refreshed at done ⊢
    split
    next completes =>
      rw [if_pos completes] at done
      cases done
    next other =>
      rw [if_neg other] at done
      cases reads : entry.readsStake with
      | true =>
        rw [reads, Bool.or_true] at done
        rwa [Bool.or_true]
      | false =>
        rw [reads] at done
        exact ih done _

theorem refreshed_append {read : Bool} {first second : List Entry}
    (early : refreshed read first = true) (late : refreshed false second = true) :
    refreshed read (first ++ second) = true := by
  induction first generalizing read with
  | nil => exact refreshed_read late read
  | cons entry rest ih =>
    rw [List.cons_append]
    unfold refreshed at early ⊢
    split
    next completes =>
      rw [if_pos completes, Bool.and_eq_true] at early
      rw [early.1, Bool.true_and]
      exact ih early.2
    next other =>
      rw [if_neg other] at early
      exact ih early

theorem refreshed_earlier {read : Bool} {first second : List Entry}
    (whole : refreshed read (first ++ second) = true) : refreshed read first = true := by
  induction first generalizing read with
  | nil => rfl
  | cons entry rest ih =>
    rw [List.cons_append] at whole
    unfold refreshed at whole ⊢
    split
    next completes =>
      rw [if_pos completes, Bool.and_eq_true] at whole
      rw [whole.1, Bool.true_and]
      exact ih whole.2
    next other =>
      rw [if_neg other] at whole
      exact ih whole

theorem refreshed_pass {idle rest : List Entry} (none : ∀ entry ∈ idle, entry.completion? = none) :
    refreshed true (idle ++ rest) = refreshed true rest := by
  induction idle with
  | nil => rfl
  | cons entry later ih =>
    have pass : entry.completion?.isSome = false := by rw [none entry (by simp)]; rfl
    rw [List.cons_append, refreshed, pass, if_neg (by decide), Bool.true_or]
    exact ih fun other member => none other (List.mem_cons_of_mem _ member)

theorem refreshed_idle {idle : List Entry} (none : ∀ entry ∈ idle, entry.completion? = none) (read : Bool) :
    refreshed read idle = true := by
  induction idle generalizing read with
  | nil => rfl
  | cons entry later ih =>
    have pass : entry.completion?.isSome = false := by rw [none entry (by simp)]; rfl
    rw [refreshed, pass, if_neg (by decide)]
    exact ih (fun other member => none other (List.mem_cons_of_mem _ member)) _

def uneventful : Entry → Bool
  | .queued .. | .settled _ | .sweepEnded (.withdrawn _) => false
  | _ => true

theorem uneventful_completion {entry : Entry} (quiet : entry.uneventful = true) :
    entry.completion? = none ∧ ∀ event, entry ≠ .queued event false := by
  cases entry with
  | queued | settled => cases quiet
  | sweepEnded cause =>
    cases cause with
    | withdrawn => cases quiet
    | _ => exact ⟨rfl, by simp⟩
  | _ => exact ⟨rfl, by simp⟩

theorem uneventful_plain {entry : Entry} (plain : entry.plain = true) : entry.uneventful = true := by
  cases entry with
  | queued | settled | sweepEnded => cases plain
  | _ => rfl

end Entry

open Entry (completions refreshed)

-- Each question for stake events is answered with the log's events of its range, in the log's order.
def Serves (log : List EventRecord) (journal : List Entry) : Prop :=
  ∀ answer ∈ journal.filterMap Entry.stakeAnswer?, answer.2 = log.filter (answer.1.holds ·.block)

instance (log : List EventRecord) (journal : List Entry) : Decidable (Serves log journal) :=
  inferInstanceAs (Decidable (∀ answer ∈ _, _))

structure Uneventful (m : Manager) (added : List Entry) (m' : Manager) : Prop where
  entries : ∀ entry ∈ added, entry.uneventful = true
  handled : m'.handled = m.handled
  waits : ∀ event ∈ m'.waits, event ∈ m.waits

theorem Uneventful.trans {m added middle more m'} (first : Uneventful m added middle)
    (second : Uneventful middle more m') : Uneventful m (added ++ more) m' where
  entries entry member := by
    rcases List.mem_append.mp member with early | late
    · exact first.entries entry early
    · exact second.entries entry late
  handled := second.handled.trans first.handled
  waits event member := first.waits event (second.waits event member)

theorem Uneventful.completions {m added m'} (idle : Uneventful m added m') :
    Entry.completions added = [] :=
  List.filterMap_eq_nil_iff.mpr fun entry member =>
    (Entry.uneventful_completion (idle.entries entry member)).1

theorem uneventful_still {m : Manager} {entries : List Entry}
    (quiet : ∀ entry ∈ entries, entry.uneventful = true) : Uneventful m entries m :=
  ⟨quiet, rfl, fun _ => id⟩

theorem Aside.uneventful {m added m'} (aside : Aside m added m') : Uneventful m added m' where
  entries entry member := Entry.uneventful_plain (aside.plain entry member)
  handled := aside.handled
  waits event member := by rwa [Manager.waits, aside.delayed] at member

namespace Effect

theorem Sweeps.uneventful {cause managerFunds block m r added m'}
    (run : Sweeps cause managerFunds block m r added m')
    (other : (∀ event, cause ≠ .withdrawn event) ∨ r.isOk = false) : Uneventful m added m' := by
  obtain ⟨handled, delayed⟩ := run.kept
  refine ⟨?_, handled, fun event member => by rwa [Manager.waits, delayed] at member⟩
  cases run with
  | failed run =>
    refine List.forall_mem_cons.mpr ⟨rfl, ?_⟩
    exact run.all (p := fun entry => entry.uneventful = true) (fun _ _ _ => rfl) (fun _ => rfl) rfl
  | ended run =>
    have ends : (Entry.sweepEnded cause).uneventful = true := by
      cases cause with
      | withdrawn event =>
        exact absurd rfl (other.resolve_right (by simp [Except.isOk, Except.toBool]) event)
      | _ => rfl
    refine List.forall_mem_cons.mpr ⟨rfl, List.forall_mem_append.mpr ⟨?_, by simpa using ends⟩⟩
    exact run.all (p := fun entry => entry.uneventful = true) (fun _ _ _ => rfl) (fun _ => rfl) rfl

theorem Reacts.uneventful {block event m failure added m'}
    (run : Reacts block event m (.error failure) added m') : Uneventful m added m' := by
  cases run with
  | unread kind reading => exact reading.aside.uneventful
  | @withdrawn _ _ middle _ _ _ kind reading sweep =>
    have noted : Uneventful middle [.logged (.handlingWithdrawn event.hash)] middle :=
      uneventful_still (by simp [Entry.uneventful])
    exact reading.aside.uneventful.trans (noted.trans (sweep.uneventful (.inr rfl)))

theorem FetchesRecord.uneventful {m r added m'} (run : FetchesRecord m r added m') :
    Uneventful m added m' := by
  cases run <;> exact uneventful_still (by simp [Entry.uneventful])

theorem Releases.uneventful {block m r added m'} (run : Releases block m r added m') :
    Uneventful m added m' := by
  cases run with
  | released sweeps =>
    have turns : Uneventful (Manager.dropDue block m).1 added m' := by
      refine sweeps.chained (fun m => uneventful_still (by simp)) (fun one two => one.trans two) ?_
      intro event _ m r added m' run
      cases run with
      | spared kind => exact uneventful_still (by simp)
      | swept kind sweep =>
        have noted : Uneventful m [.logged (.handlingUnlocked event.hash)] m :=
          uneventful_still (by simp [Entry.uneventful])
        exact noted.trans (sweep.uneventful (.inl (by simp)))
    refine ⟨turns.entries, turns.handled, fun event member => ?_⟩
    exact (due_perm m block).mem_iff.mpr (List.mem_append_right _ (turns.waits event member))

structure Completes (event : EventRecord) (m : Manager) (entries : List Entry) (m' : Manager) :
    Prop where
  completed : completions entries = [event].filter (·.kind ∈ EventKind.ofStake)
  refreshed : Entry.refreshed false entries = true
  admitted : ∀ other, .queued other false ∉ entries
  handled : m'.handled = m.handled
  waits : ∀ other ∈ m'.waits, other ∈ m.waits ∨ other = event

section

variable {event : EventRecord} {m m' : Manager}

theorem completes_read {middle : Manager} {early : List Entry} (idle : List Entry) (ending : Entry)
    (later : List Entry) (reading : ReadsStake m (.ok ()) early middle)
    (passes : ∀ entry ∈ idle, entry.uneventful = true)
    (ends : ending.completion? = some event) (kind : event.kind ∈ EventKind.ofStake)
    (after : ∀ entry ∈ later, entry.completion? = none ∧ ∀ other, entry ≠ .queued other false)
    (handled : m'.handled = middle.handled)
    (waits : ∀ other ∈ m'.waits, other ∈ middle.waits ∨ other = event) :
    Completes event m (early ++ (idle ++ ending :: later)) m' := by
  have calm := reading.aside.uneventful
  have idles := fun entry member => (Entry.uneventful_completion (passes entry member)).1
  have afters := fun entry member => (after entry member).1
  refine ⟨?_, ?_, ?_, handled.trans calm.handled, fun other member =>
    (waits other member).imp_left (calm.waits other)⟩
  · have none : completions idle = [] := List.filterMap_eq_nil_iff.mpr idles
    have noneLater : completions later = [] := List.filterMap_eq_nil_iff.mpr afters
    have noneEarly := calm.completions
    unfold completions at *
    rw [List.filterMap_append, List.filterMap_append, List.filterMap_cons_some ends, none, noneLater,
      noneEarly, List.filter_cons_of_pos (by simpa using kind)]
    rfl
  · have done : ending.completion?.isSome = true := by rw [ends]; rfl
    cases reading with
    | read reading =>
      have quiet := fun entry member =>
        (Entry.uneventful_completion (calm.entries entry (List.mem_cons_of_mem _ member))).1
      change refreshed true ((Manager.observeStake reading m).2 ++ (idle ++ ending :: later)) = true
      rw [Entry.refreshed_pass quiet, Entry.refreshed_pass idles, Entry.refreshed, if_pos done, Bool.true_and]
      exact Entry.refreshed_idle afters false
  · intro other member
    rcases List.mem_append.mp member with member | member
    · exact (Entry.uneventful_completion (calm.entries _ member)).2 other rfl
    rcases List.mem_append.mp member with member | member
    · exact (Entry.uneventful_completion (passes _ member)).2 other rfl
    rcases List.mem_cons.mp member with rfl | member
    · cases ends
    · exact (after _ member).2 other rfl

theorem Reacts.completes {block hashes added} (fresh : m.delayed.holds event.key = false)
    (run : Reacts block event m (.ok hashes) added m') :
    Completes event m (added ++ [.settled event]) m' := by
  have settled (other : event.kind ≠ .stakeAdded) :
      ∀ entry ∈ [Entry.settled event], entry.completion? = none ∧ ∀ other, entry ≠ .queued other false := by
    simp [Entry.completion?, other]
  cases run with
  | added kind reading =>
    have ends : Entry.completion? (.settled event) = some event := if_pos kind
    refine completes_read [] _ [] reading ?_ ends (by rw [kind]; decide) ?_ rfl fun _ => .inl
    all_goals simp
  | @unlocked _ _ _ due _ middle data reading =>
    have kind : event.kind = .stakeUnlocked := by rw [EventRecord.kind, data]; rfl
    have unheld : middle.delayed.holds event.key = false := by rw [reading.aside.delayed]; exact fresh
    have queued : (Manager.delay due event middle).2 = [.logged (.delaying due), .queued event true] := by
      simp [Manager.delay, unheld]
    rw [queued, List.append_assoc]
    refine completes_read [.logged (.delaying due)] (.queued event true) _ reading ?_ rfl
      (by rw [kind]; decide) (settled (by rw [kind]; decide)) rfl ?_
    · simp [Entry.uneventful]
    intro other member
    rw [(delay_accepts due event middle).2, unheld] at member
    simpa using member
  | @withdrawn _ _ middle _ more _ kind reading sweep =>
    obtain ⟨handled, delayed⟩ := sweep.kept
    cases sweep with
    | @ended _ _ inner _ run =>
      have passes : ∀ entry ∈ .logged (.handlingWithdrawn event.hash) ::
          .sweepBegan (.withdrawn event) :: inner, entry.uneventful = true := by
        refine List.forall_mem_cons.mpr ⟨rfl, List.forall_mem_cons.mpr ⟨rfl, ?_⟩⟩
        exact run.all (p := fun entry => entry.uneventful = true) (fun _ _ _ => rfl) (fun _ => rfl) rfl
      have whole : Completes event m _ m' := completes_read _ (.sweepEnded (.withdrawn event)) _ reading
        passes rfl (by rw [kind]; decide) (settled (by rw [kind]; decide)) handled fun other member =>
          .inl (by rwa [Manager.waits, delayed] at member)
      simpa using whole
  | ignored kind =>
    refine ⟨?_, ?_, ?_, rfl, fun _ => .inl⟩
    · have other : event.kind ≠ .stakeAdded := fun same => kind (by rw [same]; decide)
      simp [completions, Entry.completion?, kind, other]
    · have other : event.kind ≠ .stakeAdded := fun same => kind (by rw [same]; decide)
      simp [refreshed, Entry.completion?, other]
    · simp

end

end Effect

open Effect

-- The events that were handled to their end so far, in their order. Of these the memory keeps the
-- keys that may be fetched again.
structure Tally (scanned : UInt64) (journal : List Entry) (m : Manager) (done : List EventRecord) :
    Prop where
  completed : completions journal = done.filter (·.kind ∈ EventKind.ofStake)
  refreshed : Entry.refreshed false journal = true
  admitted : ∀ event, .queued event false ∉ journal
  handled : ∀ key : EventKey, scanned < key.position.block →
    (key ∈ m.handled ↔ key ∈ done.map EventRecord.key)
  waits : ∀ event ∈ m.waits, event ∈ done

namespace Tally

variable {scanned : UInt64} {journal : List Entry} {m : Manager} {done : List EventRecord}

theorem idle (tally : Tally scanned journal m done) {added m'} (work : Uneventful m added m') :
    Tally scanned (journal ++ added) m' done where
  completed := by
    have none := work.completions
    unfold completions at none ⊢
    rw [List.filterMap_append, none, List.append_nil]
    exact tally.completed
  refreshed := by
    have none := fun entry member => (Entry.uneventful_completion (work.entries entry member)).1
    exact Entry.refreshed_append tally.refreshed (Entry.refreshed_idle none false)
  admitted event member := by
    rcases List.mem_append.mp member with early | late
    · exact tally.admitted event early
    · exact (Entry.uneventful_completion (work.entries _ late)).2 event rfl
  handled := by rw [work.handled]; exact tally.handled
  waits event member := tally.waits event (work.waits event member)

theorem forget (tally : Tally scanned journal m done) :
    Tally scanned journal (Manager.forgetHandled scanned m).1 done where
  completed := tally.completed
  refreshed := tally.refreshed
  admitted := tally.admitted
  handled key beyond := by
    rw [← tally.handled key beyond]
    simp [Manager.forgetHandled, beyond]
  waits := tally.waits

theorem later (tally : Tally scanned journal m done) {current : UInt64} (newer : scanned < current) :
    Tally current journal m done where
  completed := tally.completed
  refreshed := tally.refreshed
  admitted := tally.admitted
  handled key beyond := tally.handled key (UInt64.lt_trans newer beyond)
  waits := tally.waits

-- An event that is not known as handled does not wait either, so its unlock is let into the queue.
theorem complete (tally : Tally scanned journal m done) {block event hashes added m'}
    (beyond : scanned < event.block) (fresh : event.key ∉ m.handled)
    (run : Reacts block event m (.ok hashes) added m') :
    Tally scanned (journal ++ (added ++ [.settled event])) (Manager.settle event m').1
      (done ++ [event]) := by
  have unseen : event.key ∉ done.map EventRecord.key := fun seen =>
    fresh ((tally.handled event.key beyond).mpr seen)
  have unheld : m.delayed.holds event.key = false := by
    refine Bool.eq_false_iff.mpr fun held => unseen ?_
    obtain ⟨delayed, waiting, same⟩ := List.any_eq_true.mp held
    rw [← eq_of_beq same]
    exact List.mem_map_of_mem (tally.waits _ (List.mem_map_of_mem waiting))
  have completes := run.completes unheld
  refine ⟨?_, Entry.refreshed_append tally.refreshed completes.refreshed, ?_, ?_, ?_⟩
  · have before := tally.completed
    have after := completes.completed
    unfold completions at *
    rw [List.filterMap_append, before, after, List.filter_append]
  · intro other member
    rcases List.mem_append.mp member with early | late
    · exact tally.admitted other early
    · exact completes.admitted other late
  · intro key newer
    rw [Manager.settle_handled, completes.handled, tally.handled key newer, List.map_append,
      List.mem_append]
    simp [or_comm]
  · intro other member
    rcases completes.waits other member with waiting | same
    · exact List.mem_append_left _ (tally.waits other waiting)
    · exact List.mem_append_right _ (by simp [same])

end Tally

-- A range in its turn: what was done begins with the events before the range, and goes on with the
-- range's own in their order, up to its end if it was handled to its end.
structure Advances (scanned : UInt64) (journal : List Entry) (m : Manager)
    (seen events rest done : List EventRecord) (ended : Bool) : Prop
    extends Tally scanned journal m done where
  kept : seen <+: done
  order : done <+: seen ++ (events ++ rest)
  whole : ended = true → seen ++ events <+: done

namespace Advances

variable {scanned current : UInt64} {journal : List Entry} {m : Manager}
  {seen events rest done : List EventRecord} {ended : Bool}

theorem idle (advances : Advances scanned journal m seen events rest done ended) {added m'}
    (work : Uneventful m added m') :
    Advances scanned (journal ++ added) m' seen events rest done ended :=
  ⟨advances.toTally.idle work, advances.kept, advances.order, advances.whole⟩

theorem failed (advances : Advances scanned journal m seen events rest done ended) :
    Advances scanned journal m seen events rest done false :=
  ⟨advances.toTally, advances.kept, advances.order, by simp⟩

-- The turn of one event. What was done before is either all up to this event, or has it already.
theorem turn {event : EventRecord} (advances : Advances scanned journal m seen [event] rest done false)
    {r added m'} (beyond : scanned < event.block)
    (distinct : ((seen ++ event :: rest).map EventRecord.key).Nodup)
    (run : Handles current event m r added m') :
    ∃ after, Advances scanned (journal ++ added) m' seen [event] rest after r.isOk := by
  have tally := advances.toTally
  have ordered := advances.order
  obtain ⟨ahead, rfl⟩ := advances.kept
  have aheads := List.prefix_cons_iff.mp ((List.prefix_append_right_inj seen).mp ordered)
  cases run with
  | settled known =>
    have still : Uneventful m [.logged (.alreadyHandled event)] m :=
      uneventful_still (by simp [Entry.uneventful])
    refine ⟨_, tally.idle still, List.prefix_append _ _, ordered, fun _ => ?_⟩
    rcases aheads with rfl | ⟨further, rfl, _⟩
    · -- The event would be among those before it in the log.
      rw [List.append_nil] at tally
      have twice := (tally.handled event.key beyond).mp known
      rw [List.map_append, List.map_cons] at distinct
      exact absurd rfl ((List.nodup_append.mp distinct).2.2 _ twice _ (by simp))
    · exact ⟨further, by simp⟩
  | failed fresh run => exact ⟨_, (advances.idle run.uneventful).failed⟩
  | done fresh run =>
    have none : ahead = [] := by
      rcases aheads with none | ⟨further, rfl, _⟩
      · exact none
      · exact absurd ((tally.handled event.key beyond).mpr (by simp)) fresh
    subst none
    rw [List.append_nil] at tally
    exact ⟨seen ++ [event], tally.complete beyond fresh run, List.prefix_append _ _, ⟨rest, by simp⟩,
      fun _ => List.prefix_refl _⟩

theorem turns {r added m'} (run : InTurn (Handles current) events m r added m')
    (advances : Advances scanned journal m seen events rest done false)
    (beyond : ∀ event ∈ events, scanned < event.block)
    (distinct : ((seen ++ (events ++ rest)).map EventRecord.key).Nodup) :
    ∃ after, Advances scanned (journal ++ added) m' seen events rest after r.isOk := by
  induction run generalizing journal done seen with
  | done =>
    rw [List.append_nil]
    exact ⟨done, advances.toTally, advances.kept, advances.order, fun _ => by simpa using advances.kept⟩
  | @stopped _ event later _ _ _ run =>
    have one : Advances scanned journal _ seen [event] (later ++ rest) done false :=
      ⟨advances.toTally, advances.kept, advances.order, by simp⟩
    obtain ⟨after, step⟩ := one.turn (beyond event (by simp)) distinct run
    exact ⟨after, step.toTally, step.kept, step.order, by simp [Except.isOk, Except.toBool]⟩
  | @stoppedLater _ event later _ _ _ _ _ _ run _ ih | @passed _ event later _ _ _ _ _ _ run _ ih =>
    have one : Advances scanned journal _ seen [event] (later ++ rest) done false :=
      ⟨advances.toTally, advances.kept, advances.order, by simp⟩
    obtain ⟨middle, step⟩ := one.turn (beyond event (by simp)) distinct run
    have shift : seen ++ (event :: later ++ rest) = seen ++ [event] ++ (later ++ rest) := by simp
    have others : Advances scanned _ _ (seen ++ [event]) later rest middle false :=
      ⟨step.toTally, step.whole rfl, shift ▸ step.order, by simp⟩
    obtain ⟨after, last⟩ := ih others (fun other member => beyond other (List.mem_cons_of_mem _ member))
      (shift ▸ distinct)
    rw [← List.append_assoc]
    refine ⟨after, last.toTally, (List.prefix_append _ _).trans last.kept, shift ▸ last.order, fun ok => ?_⟩
    simpa using last.whole ok

theorem fetch (advances : Advances scanned journal m seen events rest done ended)
    (answer : List EventRecord) :
    Advances scanned (journal ++ fetchEntries m scanned current answer)
      (Manager.forgetHandled scanned m).1 seen events rest done ended := by
  have quiet := (Manager.scanNotices_quiet answer (.since scanned current)).all
    (p := fun entry => entry.uneventful = true) fun _ => rfl
  have read : Uneventful m (fetchEntries m scanned current answer) m :=
    uneventful_still (List.forall_mem_cons.mpr ⟨rfl, quiet⟩)
  exact ⟨(advances.toTally.idle read).forget, advances.kept, advances.order, advances.whole⟩

theorem scan {hubEvents r added m'} (run : Scans hubEvents scanned current m r added m')
    (asked : ∀ answer, .asked (m.stakeQuery scanned current) (.ok answer) ∈ added → answer = events)
    (advances : Advances scanned journal m seen events rest done false)
    (beyond : ∀ event ∈ events, scanned < event.block)
    (distinct : ((seen ++ (events ++ rest)).map EventRecord.key).Nodup) :
    ∃ after, Advances scanned (journal ++ added) m' seen events rest after r.isOk := by
  cases run with
  | idle fresh => exact ⟨done, advances.idle (uneventful_still (by simp))⟩
  | unread ready failure => exact ⟨done, advances.idle (uneventful_still (by simp [Entry.uneventful]))⟩
  | @stopped _ answer _ _ _ ready handling =>
    cases asked answer (by simp [fetchEntries])
    rw [← List.append_assoc]
    exact (advances.fetch _).turns handling beyond distinct
  | @recordless _ answer _ _ _ _ _ ready handling record =>
    cases asked answer (by simp [fetchEntries])
    obtain ⟨after, more⟩ := (advances.fetch _).turns handling beyond distinct
    rw [← List.append_assoc, ← List.append_assoc]
    exact ⟨after, (more.idle record.uneventful).failed⟩
  | @done _ answer _ _ middle record _ ready handling found =>
    cases asked answer (by simp [fetchEntries])
    obtain ⟨after, more⟩ := (advances.fetch _).turns handling beyond distinct
    have observed : Uneventful middle (Manager.observeRecord record middle).2
        (Manager.observeHubEvents hubEvents (Manager.observeRecord record middle).1).1 :=
      ⟨Manager.observeRecord_all middle (fun _ => rfl) record rfl, rfl, fun _ => id⟩
    rw [← List.append_assoc, ← List.append_assoc, ← List.append_assoc]
    exact ⟨after, (more.idle found.uneventful).idle observed⟩

theorem cycle {hubEvents force r added m'} (run : Cycles hubEvents scanned current force m r added m')
    (asked : ∀ answer, .asked (m.stakeQuery scanned current) (.ok answer) ∈ added → answer = events)
    (advances : Advances scanned journal m seen events rest done false)
    (beyond : ∀ event ∈ events, scanned < event.block)
    (distinct : ((seen ++ (events ++ rest)).map EventRecord.key).Nodup) :
    ∃ after, Advances scanned (journal ++ added) m' seen events rest after r.isOk := by
  have scans {r early middle} (run : Scans hubEvents scanned current m r early middle)
      (part : ∀ entry ∈ early, entry ∈ added) :=
    advances.scan run (fun answer member => asked answer (part _ member)) beyond distinct
  cases run with
  | scanFailed broken =>
    obtain ⟨after, more⟩ := scans broken fun _ => id
    exact ⟨after, more.failed⟩
  | releaseFailed scanning release =>
    obtain ⟨after, more⟩ := scans scanning (by simp +contextual)
    rw [← List.append_assoc]
    exact ⟨after, (more.idle release.uneventful).failed⟩
  | registerFailed scanning release register =>
    obtain ⟨after, more⟩ := scans scanning (by simp +contextual)
    rw [← List.append_assoc, ← List.append_assoc]
    exact ⟨after, ((more.idle release.uneventful).idle register.aside.uneventful).failed⟩
  | @done _ _ _ _ _ _ m' _ _ scanning release register =>
    obtain ⟨after, more⟩ := scans scanning (by simp +contextual)
    have taken : Uneventful m' [] { m' with notifications := [] } := ⟨by simp, rfl, fun _ => id⟩
    have final := ((more.idle release.uneventful).idle register.aside.uneventful).idle taken
    rw [List.append_nil] at final
    rw [← List.append_assoc, ← List.append_assoc]
    exact ⟨after, final⟩

end Advances

namespace EventRecord

def within (first last : UInt64) (log : List EventRecord) : List EventRecord :=
  log.filter fun event => decide (first < event.block) && decide (event.block ≤ last)

def after (first : UInt64) (log : List EventRecord) : List EventRecord :=
  log.filter (first < ·.block)

end EventRecord

open EventRecord (within after)

-- What holds of nothing behind a place where it fails comes in front.
theorem filter_split {α : Type} {p q : α → Bool} {l : List α}
    (falls : l.Pairwise fun x y => q y = true → q x = true) :
    l.filter p = l.filter (fun x => p x && q x) ++ l.filter (fun x => p x && !q x) := by
  induction l with
  | nil => rfl
  | cons x rest ih =>
    rw [List.pairwise_cons] at falls
    have split := ih falls.2
    by_cases holds : q x = true
    · cases chosen : p x <;> simp [chosen, holds, split]
    · have none : rest.filter (fun y => p y && q y) = [] := by
        refine List.filter_eq_nil_iff.mpr fun y member both => holds (falls.1 y member ?_)
        exact (Bool.and_eq_true_iff.mp both).2
      rw [none, List.nil_append] at split
      cases chosen : p x <;> simp [chosen, holds, split, none]

section

variable {log : List EventRecord} {start scanned current : UInt64}
  (sorted : log.Pairwise fun one other => one.block ≤ other.block)

include sorted

theorem falls (bound : UInt64) : log.Pairwise fun one other =>
    decide (other.block ≤ bound) = true → decide (one.block ≤ bound) = true :=
  sorted.imp fun order below => decide_eq_true (UInt64.le_trans order (of_decide_eq_true below))

theorem after_split (later : start ≤ scanned) :
    after start log = within start scanned log ++ after scanned log := by
  unfold after within
  rw [filter_split (falls sorted scanned)]
  congr 1
  refine List.filter_congr fun event _ => Bool.eq_iff_iff.mpr ?_
  simp only [Bool.and_eq_true, Bool.not_eq_true', decide_eq_true_eq, decide_eq_false_iff_not,
    UInt64.lt_iff_toNat_lt, UInt64.le_iff_toNat_le] at later ⊢
  omega

theorem within_split (later : start ≤ scanned) (newer : scanned ≤ current) :
    within start current log = within start scanned log ++ within scanned current log := by
  unfold within
  rw [filter_split (falls sorted scanned)]
  congr 1
  all_goals
    refine List.filter_congr fun event _ => Bool.eq_iff_iff.mpr ?_
    simp only [Bool.and_eq_true, Bool.not_eq_true', decide_eq_true_eq, decide_eq_false_iff_not,
      UInt64.lt_iff_toNat_lt, UInt64.le_iff_toNat_le] at later newer ⊢
    omega

end

structure Tracks (log : List EventRecord) (start scanned : UInt64) (journal : List Entry) (m : Manager)
    (done : List EventRecord) : Prop extends Tally scanned journal m done where
  started : start ≤ scanned
  covered : within start scanned log <+: done
  ordered : done <+: after start log

theorem Serves.earlier {log : List EventRecord} {journal whole : List Entry} (serves : Serves log whole)
    (part : journal <+: whole) : Serves log journal := fun answer member =>
  serves answer ((part.sublist.filterMap _).subset member)

theorem Serves.answer {log : List EventRecord} {journal : List Entry} (serves : Serves log journal)
    {m : Manager} {scanned current : UInt64} (newer : scanned < current) {events : List EventRecord}
    (asked : .asked (m.stakeQuery scanned current) (.ok events) ∈ journal) :
    events = within scanned current log := by
  have told := serves (_, events) (List.mem_filterMap.mpr ⟨_, asked, rfl⟩)
  exact told.trans (List.filter_congr fun event _ => BlockRange.since_holds newer event.block)

section

variable {log : List EventRecord} {start scanned : UInt64} {journal added : List Entry}
  {m m' : Manager} {done : List EventRecord}

theorem Tracks.idle (tracks : Tracks log start scanned journal m done)
    (work : Uneventful m added m') : Tracks log start scanned (journal ++ added) m' done :=
  ⟨tracks.toTally.idle work, tracks.started, tracks.covered, tracks.ordered⟩

-- A cycle that fails may have handled some events of its range. The next one goes on after them.
theorem Tracks.cycle (tracks : Tracks log start scanned journal m done) {current hubEvents r}
    (newer : scanned < current) (run : Cycles hubEvents scanned current false m r added m')
    (distinct : (log.map EventRecord.key).Nodup)
    (sorted : log.Pairwise fun one other => one.block ≤ other.block)
    (serves : Serves log (journal ++ added)) :
    ∃ reached, Tracks log start (if r.isOk then current else scanned) (journal ++ added) m' reached := by
  have later := UInt64.le_of_lt newer
  have split : after start log =
      within start scanned log ++ (within scanned current log ++ after current log) := by
    rw [after_split sorted tracks.started, after_split sorted later]
  have ordered := tracks.ordered
  rw [split] at ordered
  have keys : ((within start scanned log ++ (within scanned current log ++ after current log)).map
      EventRecord.key).Nodup := by
    rw [← split]
    exact distinct.sublist (List.filter_sublist.map _)
  have beyond : ∀ event ∈ within scanned current log, scanned < event.block := by
    intro event member
    have both := (List.mem_filter.mp member).2
    exact of_decide_eq_true (Bool.and_eq_true_iff.mp both).1
  have begun : Advances scanned journal m (within start scanned log) (within scanned current log)
      (after current log) done false := ⟨tracks.toTally, tracks.covered, ordered, by simp⟩
  obtain ⟨reached, more⟩ := begun.cycle run
    (fun answer member => serves.answer newer (List.mem_append_right _ member)) beyond keys
  have order := more.order
  rw [← split] at order
  refine ⟨reached, ?_⟩
  cases r with
  | error failure => exact ⟨more.toTally, tracks.started, more.kept, order⟩
  | ok outcome =>
    refine ⟨more.toTally.later newer, UInt64.le_trans tracks.started later, ?_, order⟩
    change within start current log <+: reached
    rw [within_split sorted tracks.started later]
    exact more.whole rfl

theorem uneventful_opening {early middle reply late} (first : Aside m early middle)
    (second : Aside middle late m') : Uneventful m (early ++ .asked .blockNumber reply :: late) m' := by
  have asked : Uneventful middle [.asked .blockNumber reply] middle :=
    uneventful_still (by simp [Entry.uneventful])
  exact first.uneventful.trans (asked.trans second.uneventful)

theorem Tracks.poll (tracks : Tracks log start scanned journal m done) {r}
    (run : Poller.Polls scanned m r added m') (distinct : (log.map EventRecord.key).Nodup)
    (sorted : log.Pairwise fun one other => one.block ≤ other.block)
    (serves : Serves log (journal ++ added)) :
    ∃ reached, Tracks log start (Poller.scannedAfter scanned r) (journal ++ added) m' reached := by
  cases run with
  | stopped stop =>
    obtain ⟨same, aside | ⟨_, _, _, _, rfl, first, second⟩⟩ := stop.parts
    · rw [same]
      exact ⟨done, tracks.idle aside.uneventful⟩
    · rw [same]
      exact ⟨done, tracks.idle (uneventful_opening first second)⟩
  | failed opens cycle =>
    obtain ⟨newer, _, _, _, rfl, first, second⟩ := opens.parts
    rw [← List.append_assoc] at serves ⊢
    exact (tracks.idle (uneventful_opening first second)).cycle newer cycle distinct sorted serves
  | done opens cycle =>
    obtain ⟨newer, _, _, _, rfl, first, second⟩ := opens.parts
    rw [← List.append_assoc, ← List.append_assoc] at serves ⊢
    obtain ⟨reached, after⟩ := (tracks.idle (uneventful_opening first second)).cycle newer cycle distinct
      sorted (serves.earlier (List.prefix_append _ _))
    refine ⟨reached, after.idle (uneventful_still ?_)⟩
    unfold Poller.submissionNotice
    split <;> simp [Entry.uneventful]

end

section

variable {ω : Type} (c : Collaborators ω)

theorem pollOnce_extends (p : Poller ω) : p.session.journal <+: (p.pollOnce c).2.session.journal := by
  obtain ⟨_, added, journal, _⟩ := Poller.pollOnce_polls c p
  exact ⟨added, journal.symm⟩

theorem tracks_fresh (settings : ServerSettings) (address worker : String) (log : List EventRecord)
    (start : UInt64) : Tracks log start start [] (Manager.new settings address worker) [] where
  completed := rfl
  refreshed := rfl
  admitted event member := by cases member
  handled key _ := by simp [Manager.new]
  waits event member := by cases member
  started := UInt64.le_refl _
  covered := by
    have none : within start start log = [] := by
      refine List.filter_eq_nil_iff.mpr fun event _ both => ?_
      obtain ⟨above, below⟩ := Bool.and_eq_true_iff.mp both
      exact UInt64.not_le.mpr (of_decide_eq_true above) (of_decide_eq_true below)
    simp only [none, List.nil_prefix]
  ordered := List.nil_prefix

theorem polls_track (settings : ServerSettings) (address worker : String) (world : ω)
    (pollMillis : Nat) (policy : RetryPolicy) (start : UInt64) {log : List EventRecord}
    (distinct : (log.map EventRecord.key).Nodup)
    (sorted : log.Pairwise fun one other => one.block ≤ other.block) (n : Nat) :
    let p := Poller.polls c n (.fresh settings address worker world pollMillis policy start)
    Serves log p.session.journal →
      ∃ done, Tracks log start p.scanned p.session.journal p.session.manager done := by
  induction n with
  | zero => exact fun _ => ⟨[], tracks_fresh settings address worker log start⟩
  | succ n ih =>
    intro p serves
    have before := serves.earlier (pollOnce_extends c _)
    obtain ⟨done, tracks⟩ := ih before
    obtain ⟨r, added, journal, polled, scanned⟩ := Poller.pollOnce_polls c
      (Poller.polls c n (.fresh settings address worker world pollMillis policy start))
    change Serves log (Poller.pollOnce c _).2.session.journal at serves
    rw [journal] at serves
    obtain ⟨reached, after⟩ := tracks.poll polled distinct sorted serves
    rw [← journal, ← scanned] at after
    exact ⟨reached, after⟩

-- Each stake event of the scanned blocks was handled to its end once and every other event at most once, at every
-- moment of a run: also between a poll that failed and the one that takes up its range.
theorem stake_events_handled_once (settings : ServerSettings) (address worker : String) (world : ω)
    (pollMillis : Nat) (policy : RetryPolicy) (start : UInt64) (log : List EventRecord)
    (distinct : (log.map EventRecord.key).Nodup)
    (sorted : log.Pairwise fun one other => one.block ≤ other.block) (n : Nat)
    (serves : Serves log
      (Poller.polls c (n + 1) (.fresh settings address worker world pollMillis policy start)).session.journal)
    (moment : List Entry) :
    let p := Poller.polls c n (.fresh settings address worker world pollMillis policy start)
    p.session.journal <+: moment → moment <+: (p.pollOnce c).2.session.journal →
      (∀ event ∈ log, event.kind ∈ EventKind.ofStake → start < event.block → event.block ≤ p.scanned →
        (completions moment).count event = 1) ∧
      (∀ event, (completions moment).count event ≤ 1) ∧
      completions moment <+: (after start log).filter (·.kind ∈ EventKind.ofStake) ∧
      refreshed false moment = true ∧ ∀ event, .queued event false ∉ moment := by
  intro p reached within
  obtain ⟨done, before⟩ := polls_track c settings address worker world pollMillis policy start distinct
    sorted n (serves.earlier (pollOnce_extends c _))
  obtain ⟨later, ahead⟩ := polls_track c settings address worker world pollMillis policy start distinct
    sorted (n + 1) serves
  have few : completions p.session.journal <+: completions moment := reached.filterMap _
  have order : completions moment <+: (after start log).filter (·.kind ∈ EventKind.ofStake) := by
    have all : completions moment <+: completions (p.pollOnce c).2.session.journal := within.filterMap _
    have counted := ahead.completed
    change completions (p.pollOnce c).2.session.journal = _ at counted
    rw [counted] at all
    exact all.trans (ahead.ordered.filter _)
  have unrepeated : (completions moment).Nodup :=
    order.sublist.nodup ((distinct.of_map _).sublist (List.filter_sublist.trans List.filter_sublist))
  refine ⟨fun event member kind first last => ?_, List.nodup_iff_count_le_one.mp unrepeated, order, ?_, ?_⟩
  · have scanned : event ∈ EventRecord.within start p.scanned log :=
      List.mem_filter.mpr ⟨member, by simp [first, last]⟩
    have done : event ∈ completions p.session.journal := by
      rw [before.completed]
      exact List.mem_filter.mpr ⟨before.covered.subset scanned, decide_eq_true kind⟩
    exact List.count_eq_one_of_mem unrepeated (few.subset done)
  · obtain ⟨rest, whole⟩ := within
    have refreshed := ahead.refreshed
    change Entry.refreshed false (p.pollOnce c).2.session.journal = true at refreshed
    rw [← whole] at refreshed
    exact Entry.refreshed_earlier refreshed
  · exact fun event member => ahead.admitted event (within.subset member)

end

namespace Rehearsal

def polled (world : Rehearsal) (n : Nat) : Poller Rehearsal :=
  Poller.polls collaborators n (.fresh settings manager worker world 10 {} 0)

def departure : List EventRecord := [stakeAdded 5, stakeUnlocked 10 50, stakeWithdrawn 30]

def interrupted : Rehearsal :=
  { leaving departure with
    script := some [{ block := some 12 },
      { block := some 40, ledgerOutcomes := [(.gasPrice, [some (.rpc "timeout")])] },
      { block := some 32 }] }

theorem interrupted_withdrawal_handled_once :
    (polled interrupted 3).scanned = 32 ∧
      (completions (polled interrupted 3).session.journal).count (stakeWithdrawn 30) = 1 := by
  have scanned : (polled interrupted 3).scanned = 32 := by decide +kernel
  have distinct : (departure.map EventRecord.key).Nodup := by decide
  have sorted : departure.Pairwise fun one other => one.block ≤ other.block := by decide
  have serves : Serves departure (polled interrupted (3 + 1)).session.journal := by decide +kernel
  refine ⟨scanned, ?_⟩
  unfold polled at scanned serves ⊢
  have upto := pollOnce_extends collaborators
    (Poller.polls collaborators 3 (.fresh settings manager worker interrupted 10 {} 0))
  obtain ⟨handled, _⟩ := stake_events_handled_once collaborators settings manager worker interrupted 10
    {} 0 departure distinct sorted 3 serves _ (List.prefix_refl _) upto
  refine handled (stakeWithdrawn 30) (by decide) (by decide) (by decide) ?_
  rw [scanned]
  decide

end Rehearsal
end TransactionRelay
