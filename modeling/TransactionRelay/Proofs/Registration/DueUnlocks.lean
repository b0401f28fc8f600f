import TransactionRelay.Proofs.Registration.SweepLog
import TransactionRelay.Rehearsal.Ledger

namespace TransactionRelay

def Manager.waits (m : Manager) : List EventRecord := m.delayed.waiting.map (·.event)

def Entry.accepted? : Entry → Option EventRecord
  | .queued event true => some event
  | _ => none

def Entry.accepted (entries : List Entry) : List EventRecord := entries.filterMap accepted?

namespace SweepRecord

def unlock? (record : SweepRecord) : Option EventRecord :=
  match record.cause with
  | .unlocked event => some event
  | _ => none

def completed? (record : SweepRecord) : Option EventRecord :=
  if record.ended then record.unlock? else none

def broken (record : SweepRecord) : Bool := record.unlock?.isSome && !record.ended

end SweepRecord

def Entry.completed (entries : List Entry) : List EventRecord :=
  (Entry.sweeps entries).filterMap SweepRecord.completed?

-- What waited before or was let in since then still waits, or had its own sweep.
def Session.KeepsUnlocks {ω : Type} (before after : Session ω) : Prop :=
  (before.manager.waits ++ Entry.accepted (before.adds after)).Perm
    (after.manager.waits ++ Entry.completed (before.adds after))

instance {ω : Type} (before after : Session ω) : Decidable (before.KeepsUnlocks after) :=
  inferInstanceAs (Decidable (List.Perm _ _))

def Manager.Queueing (m : Manager) : Prop := ∀ event ∈ m.waits, event.kind = .stakeUnlocked

-- The lost ones left the queue without a sweep that ended well.
structure Passes (m : Manager) (added : List Entry) (m' : Manager) (sweeps : List SweepRecord)
    (lost : List EventRecord) : Prop where
  queueing : m'.Queueing
  told : Tells added sweeps
  fate : (m.waits ++ Entry.accepted added).Perm
    (m'.waits ++ (sweeps.filterMap SweepRecord.completed? ++ lost))
  blame : lost = [] ↔ ∀ sweep ∈ sweeps, sweep.broken = false
  announced : ∀ sweep ∈ sweeps, sweep.announced = sweep.ended

def Accounts : Relation := fun m added m' => m.Queueing → ∃ sweeps lost, Passes m added m' sweeps lost

theorem Passes.trans {m added middle more m' early late lostEarly lostLate}
    (first : Passes m added middle early lostEarly) (second : Passes middle more m' late lostLate) :
    Passes m (added ++ more) m' (early ++ late) (lostEarly ++ lostLate) where
  queueing := second.queueing
  told := first.told.append second.told
  fate := by
    refine List.perm_iff_count.mpr fun event => ?_
    have one := first.fate.count_eq event
    have two := second.fate.count_eq event
    simp only [Entry.accepted, List.filterMap_append, List.count_append] at one two ⊢
    omega
  blame := by
    rw [List.append_eq_nil_iff, first.blame, second.blame]
    simp only [List.mem_append, or_imp, forall_and]
  announced := by
    simp only [List.mem_append, or_imp, forall_and]
    exact ⟨first.announced, second.announced⟩

theorem passes_still {m added m'} (queueing : m'.Queueing) (still : Still added)
    (waits : m'.waits = m.waits ++ Entry.accepted added) : Passes m added m' [] [] where
  queueing := queueing
  told := still.tells
  fate := by simp [waits]
  blame := by simp
  announced := by simp

theorem accepted_nil {entries : List Entry} (none : ∀ entry ∈ entries, entry.accepted? = none) :
    Entry.accepted entries = [] := List.filterMap_eq_nil_iff.mpr none

theorem accepted_quiet {entries : List Entry} (quiet : Manager.Quiet entries) :
    Entry.accepted entries = [] := quiet.filterMap _ fun _ => rfl

theorem accepted_asked {call : Call} {reply : Except call.Failure call.Answer} {rest : List Entry} :
    Entry.accepted (.asked call reply :: rest) = Entry.accepted rest := rfl

-- An unlock joins the end of the queue, unless its log waits there already.
theorem delay_accepts (due : UInt64) (event : EventRecord) (m : Manager) :
    Entry.accepted (Manager.delay due event m).2 = (if m.delayed.holds event.key then [] else [event]) ∧
      (Manager.delay due event m).1.waits =
        m.waits ++ if m.delayed.holds event.key then [] else [event] := by
  unfold Manager.delay Manager.waits DelayedQueue.push
  cases m.delayed.holds event.key with
  | true => exact ⟨rfl, by simp⟩
  | false => exact ⟨rfl, by simp⟩

theorem Part.accepts {m added m'} (part : Part m added m') :
    m'.waits = m.waits ++ Entry.accepted added ∧
      ∀ event ∈ Entry.accepted added, event.kind = .stakeUnlocked := by
  have unmoved (none : Entry.accepted added = []) (same : m'.waits = m.waits) :
      m'.waits = m.waits ++ Entry.accepted added ∧
        ∀ event ∈ Entry.accepted added, event.kind = .stakeUnlocked := by simp [none, same]
  cases part with
  | noted quiet => exact unmoved (accepted_quiet quiet) rfl
  | stakeRead reading =>
    have quiet := accepted_quiet (Manager.observeStake_quiet m reading)
    exact unmoved (accepted_asked.trans quiet) (by simp [Manager.waits])
  | balanceRead amount =>
    exact unmoved (accepted_asked.trans (accepted_quiet (Manager.observeBalance_quiet m amount))) rfl
  | @delayed _ _ _ due event data =>
    obtain ⟨accepted, waits⟩ := delay_accepts due event m
    rw [accepted]
    refine ⟨waits, fun other member => ?_⟩
    split at member
    · cases member
    · rw [List.mem_singleton.mp member, EventRecord.kind, data]
      rfl
  | recorded record =>
    exact unmoved (accepted_nil (Manager.observeRecord_all m (fun _ => rfl) record (by rfl))) rfl
  | _ => exact unmoved rfl rfl

theorem queueing_append {m m' : Manager} {events : List EventRecord} (queueing : m.Queueing)
    (waits : m'.waits = m.waits ++ events) (unlocks : ∀ event ∈ events, event.kind = .stakeUnlocked) :
    m'.Queueing := by
  intro event member
  rw [waits] at member
  rcases List.mem_append.mp member with old | new
  · exact queueing event old
  · exact unlocks event new

theorem part_accounts {m added m'} (part : Part m added m') : Accounts m added m' := by
  intro queueing
  obtain ⟨waits, unlocks⟩ := part.accepts
  exact ⟨[], [], passes_still (queueing_append queueing waits unlocks) part.still waits⟩

theorem attempt_accounts {block m r added m'} (run : Effect.Attempts block m r added m') :
    Accounts m added m' := by
  intro queueing
  cases run.memory
  have none := accepted_nil (run.all (fun _ _ _ => rfl) fun _ => rfl)
  exact ⟨[], [], passes_still queueing run.still (by simp [none])⟩

theorem Swept.waits {m cause added record m'} (swept : Swept m cause added record m') :
    m'.waits = m.waits := by
  obtain ⟨_, _, _, delayed⟩ := swept.kept
  rw [Manager.waits, delayed]
  rfl

theorem sweep_accepts {cause managerFunds block m r added m'}
    (run : Effect.Sweeps cause managerFunds block m r added m') : Entry.accepted added = [] := by
  refine accepted_nil (run.all ?_ ?_ ?_ ?_ ?_) <;> intros <;> rfl

theorem sweep_accounts {cause managerFunds block m r added m'}
    (other : ∀ event, cause ≠ .unlocked event)
    (run : Effect.Sweeps cause managerFunds block m r added m') : Accounts m added m' := by
  intro queueing
  obtain ⟨record, _, swept⟩ := run.swept
  have none : record.unlock? = none := by
    unfold SweepRecord.unlock?
    rw [swept.caused]
    cases cause with
    | unlocked event => exact absurd rfl (other event)
    | demand | withdrawn => rfl
  have same : m'.waits = m.waits ++ [] := by simp [swept.waits]
  refine ⟨[record], [], queueing_append queueing same (by simp), swept.told, ?_, ?_, ?_⟩
  · simp [swept.waits, sweep_accepts run, SweepRecord.completed?, none]
  · simp [SweepRecord.broken, none]
  · simpa using swept.announced

theorem turn_sweeps {block : UInt64} {event : EventRecord} {m r added m'}
    (kind : event.kind = .stakeUnlocked) (run : Effect.SweepsFor block event m r added m') :
    ∃ record : SweepRecord, record.unlock? = some event ∧ record.ended = r.isOk ∧
      record.announced = record.ended ∧ Tells added [record] ∧ Entry.accepted added = [] ∧
      m'.waits = m.waits := by
  cases run with
  | spared other => exact absurd kind other
  | swept _ sweep =>
    obtain ⟨record, ended, swept⟩ := sweep.swept
    have none := sweep_accepts sweep
    have noted : Still [.logged (.handlingUnlocked event.hash)] := fun _ => rfl
    refine ⟨record, ?_, ended, swept.announced, ?_, none, swept.waits⟩
    · rw [SweepRecord.unlock?, swept.caused]
    · exact noted.tells.append swept.told

-- The release of due unlocks. The ones up to the first sweep that fails are swept for; that one and
-- those behind it are lost.
theorem turns_lose {block : UInt64} {events : List EventRecord} {m r added m'}
    (unlocks : ∀ event ∈ events, event.kind = .stakeUnlocked)
    (run : Effect.InTurn (Effect.SweepsFor block) events m r added m') :
    ∃ sweeps lost, Tells added sweeps ∧ Entry.accepted added = [] ∧ m'.waits = m.waits ∧
      events = sweeps.filterMap SweepRecord.completed? ++ lost ∧
      (lost = [] ↔ ∀ sweep ∈ sweeps, sweep.broken = false) ∧
      ∀ sweep ∈ sweeps, sweep.announced = sweep.ended := by
  induction run with
  | done => exact ⟨[], [], rfl, rfl, rfl, rfl, by simp, by simp⟩
  | @stopped _ event rest _ _ _ turn =>
    obtain ⟨record, unlock, ended, announced, told, accepted, waits⟩ :=
      turn_sweeps (unlocks event (by simp)) turn
    have failed : record.ended = false := ended
    refine ⟨[record], event :: rest, told, accepted, waits, ?_, ?_, by simpa using announced⟩
    · simp [SweepRecord.completed?, failed]
    · simp [SweepRecord.broken, failed, unlock]
  | @stoppedLater _ event rest _ _ _ _ _ _ turn _ ih | @passed _ event rest _ _ _ _ _ _ turn _ ih =>
    obtain ⟨record, unlock, ended, announced, told, accepted, waits⟩ :=
      turn_sweeps (unlocks event (by simp)) turn
    obtain ⟨sweeps, lost, toldLater, acceptedLater, waitsLater, split, blame, announcedLater⟩ :=
      ih fun event member => unlocks event (List.mem_cons_of_mem _ member)
    have done : record.ended = true := ended
    refine ⟨record :: sweeps, lost, told.append toldLater, ?_, waitsLater.trans waits, ?_, ?_, ?_⟩
    · rw [Entry.accepted, List.filterMap_append]
      exact List.append_eq_nil_iff.mpr ⟨accepted, acceptedLater⟩
    · simp [SweepRecord.completed?, done, unlock, split]
    · simp [SweepRecord.broken, done, blame]
    · simpa using ⟨announced, announcedLater⟩

theorem due_perm (m : Manager) (block : UInt64) :
    m.waits.Perm (m.delayed.due block ++ (Manager.dropDue block m).1.waits) := by
  have parts := (List.filter_append_perm (fun delayed => decide (delayed.due ≤ block))
    m.delayed.waiting).map (·.event)
  rw [List.map_append] at parts
  exact parts.symm

theorem release_accounts {block : UInt64} {m r added m'} (run : Effect.Releases block m r added m') :
    Accounts m added m' := by
  intro queueing
  cases run with
  | released turns =>
    have apart := due_perm m block
    have unlocks : ∀ event ∈ m.delayed.due block, event.kind = .stakeUnlocked := fun event member =>
      queueing event (apart.mem_iff.mpr (List.mem_append_left _ member))
    obtain ⟨sweeps, lost, told, accepted, waits, split, blame, announced⟩ := turns_lose unlocks turns
    refine ⟨sweeps, lost, ?_, told, ?_, blame, announced⟩
    · intro event member
      rw [waits] at member
      exact queueing event (apart.mem_iff.mpr (List.mem_append_right _ member))
    · rw [accepted, List.append_nil, waits, ← split]
      exact apart.trans List.perm_append_comm

theorem accounts_trail : Trail Accounts where
  refl m queueing := ⟨[], [], passes_still queueing (fun _ => rfl) (by simp [Entry.accepted])⟩
  trans first second queueing := by
    obtain ⟨early, lostEarly, one⟩ := first queueing
    obtain ⟨late, lostLate, two⟩ := second one.queueing
    exact ⟨_, _, one.trans two⟩
  part part := part_accounts part

theorem accounts_course : Course Accounts where
  toTrail := accounts_trail
  handled run := run.obeys accounts_trail fun sweep => sweep_accounts (by simp) sweep
  released run := release_accounts run
  pended m reply queueing := ⟨[], [], passes_still queueing (fun _ => rfl) (by simp [Entry.accepted, Entry.accepted?])⟩
  attempted run := attempt_accounts run
  demanded run := sweep_accounts (by simp) run

theorem works_account {commands : List Command} {m added m'} (run : Works commands m added m') :
    Accounts m added m' := by
  refine works_obey accounts_course (fun _ _ scanned _ m queueing => ⟨[], [], ?_⟩) run
  exact passes_still queueing (fun _ => rfl) (by simp [Entry.accepted, Manager.forgetHandled, Manager.waits])

theorem Passes.keeps {m added m' sweeps lost} (passes : Passes m added m' sweeps lost) :
    (m.waits ++ Entry.accepted added).Perm (m'.waits ++ Entry.completed added) ↔ lost = [] := by
  rw [Entry.completed, passes.told.sweeps]
  constructor
  · intro kept
    have one := kept.length_eq
    have two := passes.fate.length_eq
    simp only [List.length_append] at one two
    exact List.length_eq_zero_iff.mp (by omega)
  · rintro rfl
    simpa using passes.fate

section

variable {ω : Type} (c : Collaborators ω)

-- The due unlocks leave the queue together, so a sweep that fails takes those behind it along. Nothing else loses one.
theorem unlocks_kept_iff_no_sweep_broken (settings : ServerSettings) (address worker : String)
    (world : ω) (earlier later : List Command) :
    let s := ((Session.fresh settings address worker world).performAll c earlier).2
    let t := (s.performAll c later).2
    (s.KeepsUnlocks t ↔ ∀ sweep ∈ Entry.sweeps (s.adds t), sweep.broken = false) ∧
      ∀ sweep ∈ Entry.sweeps (s.adds t), sweep.announced = sweep.ended := by
  intro s t
  have fresh : (Session.fresh settings address worker world).manager.Queueing := by
    intro event member
    cases member
  obtain ⟨_, _, before⟩ := works_account (performAll_works c _ earlier) fresh
  obtain ⟨sweeps, lost, passes⟩ := works_account (performAll_works c s later) before.queueing
  rw [passes.told.sweeps]
  exact ⟨passes.keeps.trans passes.blame, passes.announced⟩

end

namespace Rehearsal

def unpriced : Rehearsal :=
  { leaving [stakeUnlocked 10 50] with ledgerOutcomes := [(.gasPrice, [some (.rpc "timeout")])] }

def overdue : List Command := [.initialise, .handle [] 0 20 false, .handle [] 20 60 false]

-- A gas price that cannot be read once the unlock is due: the unlock is gone from the queue, and its
-- only sweep has failed.
theorem failed_sweep_loses_unlock :
    ¬(start unpriced).KeepsUnlocks (run unpriced overdue) ∧
      Entry.accepted (run unpriced overdue).journal = [stakeUnlocked 10 50] ∧
      (run unpriced overdue).manager.waits = [] ∧
      (Entry.sweeps (run unpriced overdue).journal).map (·.ended) = [false] := by
  decide +kernel

end Rehearsal
end TransactionRelay
