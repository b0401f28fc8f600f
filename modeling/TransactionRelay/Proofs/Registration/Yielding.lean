import TransactionRelay.Proofs.Registration.Working

namespace TransactionRelay

section

variable {ω : Type}

-- The answers among these entries are what the collaborators answer in every state of theirs.
def Genuine (c : Collaborators ω) (entries : List Entry) : Prop :=
  ∀ call answer, .asked call (.ok answer) ∈ entries → ∀ world, (c.answer call world).1 = .ok answer

variable {c : Collaborators ω}

theorem Genuine.part {whole entries : List Entry} (genuine : Genuine c whole)
    (part : ∀ entry ∈ entries, entry ∈ whole) : Genuine c entries := fun call answer member =>
  genuine call answer (part _ member)

theorem Genuine.first {call : Call} {answer : call.Answer} {rest : List Entry}
    (genuine : Genuine c (.asked call (.ok answer) :: rest)) (world : ω) :
    (c.answer call world).1 = .ok answer := genuine call answer List.mem_cons_self world

theorem genuine_append {first second : List Entry} :
    Genuine c (first ++ second) ↔ Genuine c first ∧ Genuine c second := by
  constructor
  · intro both
    exact ⟨both.part fun _ => List.mem_append_left _, both.part fun _ => List.mem_append_right _⟩
  · rintro ⟨one, two⟩ call answer member
    rcases List.mem_append.mp member with early | late
    · exact one call answer early
    · exact two call answer late

end

namespace Action

variable {ω : Type} {α β : Type}

-- A run that starts with the memory `m` gives `a` and leaves `m'`, whatever the world is like.
def Yields (action : Action ω α) (m : Manager) (a : α) (m' : Manager) : Prop :=
  ∀ s : Session ω, s.manager = m → ∃ s', action.runOn s = (.ok a, s') ∧ s'.manager = m'

variable {m m' : Manager}

theorem Yields.unique {action : Action ω α} {a b : α} {m'' : Manager} (world : ω)
    (one : action.Yields m a m') (other : action.Yields m b m'') : a = b ∧ m' = m'' := by
  obtain ⟨s, ran, rfl⟩ := one ⟨m, world, []⟩ rfl
  obtain ⟨t, again, rfl⟩ := other ⟨m, world, []⟩ rfl
  rw [ran] at again
  cases again
  exact ⟨rfl, rfl⟩

theorem yields_pure {a : α} : (pure a : Action ω α).Yields m a m := fun s memory => ⟨s, rfl, memory⟩

theorem yields_bind {action : Action ω α} {next : α → Action ω β} {a : α} {b : β} {middle : Manager}
    (start : action.Yields m a middle) (rest : (next a).Yields middle b m') :
    (action >>= next).Yields m b m' := by
  intro s memory
  obtain ⟨s', ran, reached⟩ := start s memory
  obtain ⟨s'', later, ended⟩ := rest s' reached
  exact ⟨s'', by rw [runOn_bind, ran]; exact later, ended⟩

theorem yields_manager {next : Manager → Action ω β} {b : β} (rest : (next m).Yields m b m') :
    (manager >>= next).Yields m b m' := by
  intro s memory
  cases memory
  exact rest s rfl

theorem change_yields {step : Manager.Step} : (change step : Action ω Unit).Yields m () (step m).1 :=
  fun s memory => ⟨s.apply step, rfl, by rw [← memory]; rfl⟩

theorem yields_change {step : Manager.Step} {next : Unit → Action ω β} {b : β}
    (rest : (next ()).Yields (step m).1 b m') : (change step >>= next).Yields m b m' :=
  yields_bind change_yields rest

theorem yields_note {entries : List Entry} {next : Unit → Action ω β} {b : β}
    (rest : (next ()).Yields m b m') : (note entries >>= next).Yields m b m' :=
  yields_bind (fun s memory => ⟨s.note entries, rfl, memory⟩) rest

theorem yields_log {notice : Notice} {next : Unit → Action ω β} {b : β}
    (rest : (next ()).Yields m b m') : (log notice >>= next).Yields m b m' := yields_note rest

theorem yields_given {a : α} {next : α → Action ω β} {b : β} (rest : (next a).Yields m b m') :
    (pure a >>= next).Yields m b m' := rest

theorem yields_ask {c : Collaborators ω} {call : Call} {answer : call.Answer}
    {next : call.Answer → Action ω β} {b : β}
    (answered : ∀ world, (c.answer call world).1 = .ok answer) (rest : (next answer).Yields m b m') :
    (ask c call >>= next).Yields m b m' := by
  refine yields_bind (fun s memory => ⟨(s.request c call).2, ?_, memory⟩) rest
  have asked : (modifyGet (Session.request c call) : Action ω _).runOn s =
      (.ok (c.answer call s.world).1, (s.request c call).2) := rfl
  unfold ask
  rw [runOn_bind, asked, answered]
  rfl

end Action

namespace Effect

open TransactionRelay.Action

variable {ω : Type} {c : Collaborators ω}

theorem Transfers.yields {account owner price block m hashes added m'}
    (run : Transfers account owner price block m (.ok hashes) added m') (genuine : Genuine c added) :
    (sendBalance c account owner price block).Yields m hashes m' := by
  cases run with
  | tooLow balance low =>
    refine yields_ask genuine.first ?_
    rw [if_pos low]
    exact yields_log yields_pure
  | sent balance enough receipt =>
    refine yields_ask genuine.first ?_
    rw [if_neg enough]
    have accepted := genuine (.send (sweepTransfer account owner balance price block)) receipt (by simp)
    exact yields_log (yields_ask accepted yields_pure)

theorem Withdraws.yields {managerFunds block m hashes added m'}
    (run : Withdraws managerFunds block m (.ok hashes) added m') (genuine : Genuine c added) :
    (withdrawAll c managerFunds block).Yields m hashes m' := by
  refine yields_manager ?_
  cases run with
  | ownerless unknown =>
    rw [unknown]
    exact yields_log (yields_given (yields_change yields_pure))
  | workerOnly spared known worker =>
    rw [known, spared]
    refine yields_ask genuine.first ?_
    refine yields_bind (worker.yields (genuine.part (by simp +contextual))) ?_
    refine yields_given (yields_given (yields_change ?_))
    rw [List.append_nil]
    exact yields_pure
  | both wanted known worker manager =>
    rw [known, wanted]
    refine yields_ask genuine.first ?_
    refine yields_bind (worker.yields (genuine.part (by simp +contextual))) ?_
    refine yields_bind (manager.yields (genuine.part (by simp +contextual))) ?_
    exact yields_given (yields_change yields_pure)

theorem Sweeps.yields {cause managerFunds block m hashes added m'}
    (run : Sweeps cause managerFunds block m (.ok hashes) added m') (genuine : Genuine c added) :
    (sweep c cause managerFunds block).Yields m hashes m' := by
  cases run with
  | ended run =>
    refine yields_note (yields_bind (run.yields (genuine.part (by simp +contextual))) ?_)
    exact yields_note yields_pure

theorem ReadsStake.yields {m added m'} (run : ReadsStake m (.ok ()) added m')
    (genuine : Genuine c added) : (refreshStake c).Yields m () m' := by
  cases run with
  | read reading => exact yields_manager (yields_ask genuine.first change_yields)

theorem Reacts.yields {block event m hashes added m'}
    (run : Reacts block event m (.ok hashes) added m') (genuine : Genuine c added) :
    (stakeEventEffects c block event).Yields m hashes m' := by
  unfold stakeEventEffects
  cases run with
  | added kind reading =>
    have read := reading.yields genuine
    cases data : event.data with
    | stakeAdded => exact yields_bind read yields_pure
    | _ => rw [EventRecord.kind, data] at kind; cases kind
  | unlocked data reading =>
    rw [data]
    exact yields_bind (reading.yields (genuine_append.mp genuine).1) (yields_change yields_pure)
  | withdrawn kind reading sweep =>
    obtain ⟨early, late⟩ := genuine_append.mp genuine
    have read := reading.yields early
    have swept := sweep.yields (late.part fun _ => List.mem_cons_of_mem _)
    cases data : event.data with
    | stakeWithdrawn => exact yields_bind read (yields_log swept)
    | _ => rw [EventRecord.kind, data] at kind; cases kind
  | ignored kind =>
    cases data : event.data with
    | stakeAdded | stakeUnlocked | stakeWithdrawn =>
      rw [EventRecord.kind, data] at kind
      exact absurd (of_decide_eq_true rfl) kind
    | _ => exact yields_log yields_pure

theorem Handles.yields {block event m hashes added m'}
    (run : Handles block event m (.ok hashes) added m') (genuine : Genuine c added) :
    (handleStakeEvent c block event).Yields m hashes m' := by
  refine yields_manager ?_
  cases run with
  | settled known =>
    rw [if_pos (List.contains_iff_mem.mpr known)]
    exact yields_log yields_pure
  | done fresh run =>
    rw [if_neg fun held => fresh (List.contains_iff_mem.mp held)]
    exact yields_bind (run.yields (genuine_append.mp genuine).1) (yields_change yields_pure)

theorem InTurn.yields {part : EventRecord → Effect (List String)}
    {one : EventRecord → Action ω (List String)} {all : List EventRecord → Action ω (List String)}
    (none : all [] = pure [])
    (more : ∀ event rest, all (event :: rest) = do
      let first ← one event
      let others ← all rest
      return first ++ others)
    (each : ∀ event {m hashes added m'}, part event m (.ok hashes) added m' → Genuine c added →
      (one event).Yields m hashes m') {events m r added m'}
    (run : InTurn part events m r added m') (genuine : Genuine c added) {hashes : List String}
    (well : r = .ok hashes) : (all events).Yields m hashes m' := by
  induction run generalizing hashes with
  | done =>
    cases well
    rw [none]
    exact yields_pure
  | stopped | stoppedLater => cases well
  | passed first _ ih =>
    cases well
    obtain ⟨early, late⟩ := genuine_append.mp genuine
    rw [more]
    exact yields_bind (each _ first early) (yields_bind (ih late rfl) yields_pure)

theorem handled_yields {block : UInt64} {events m hashes added m'}
    (run : InTurn (Handles block) events m (.ok hashes) added m') (genuine : Genuine c added) :
    (handleStakeEvents c block events).Yields m hashes m' :=
  run.yields rfl (fun _ _ => rfl) (fun _ _ _ _ _ run => run.yields) genuine rfl

theorem SweepsFor.yields {block event m hashes added m'}
    (run : SweepsFor block event m (.ok hashes) added m') (genuine : Genuine c added) :
    (sweepFor c block event).Yields m hashes m' := by
  unfold sweepFor
  cases run with
  | swept kind sweep =>
    rw [if_pos (beq_iff_eq.mpr kind)]
    exact yields_log (sweep.yields (genuine.part fun _ => List.mem_cons_of_mem _))
  | spared kind =>
    rw [if_neg fun held => kind (beq_iff_eq.mp held)]
    exact yields_pure

theorem Releases.yields {block m hashes added m'} (run : Releases block m (.ok hashes) added m')
    (genuine : Genuine c added) : (releaseDue c block).Yields m hashes m' := by
  cases run with
  | released sweeps =>
    refine yields_manager (yields_change ?_)
    exact sweeps.yields rfl (fun _ _ => rfl) (fun _ _ _ _ _ run => run.yields) genuine rfl

theorem CallsHub.yields {label action method block m hash added m'}
    (run : CallsHub label action method block m (.ok hash) added m') (genuine : Genuine c added) :
    (callHub c label action method block).Yields m hash m' := by
  cases run with
  | accepted gas receipt =>
    have accepted := genuine (.send (m.hubCall action method gas block)) receipt (by simp)
    exact yields_manager (yields_ask genuine.first (yields_ask accepted yields_pure))

theorem AddsWorker.yields {block m hash added m'} (run : AddsWorker block m (.ok hash) added m')
    (genuine : Genuine c added) : (addWorker c block).Yields m hash m' := by
  cases run with
  | called call =>
    refine yields_manager (yields_ask genuine.first ?_)
    exact call.yields (genuine.part fun _ => List.mem_cons_of_mem _)

theorem RegistersServer.yields {block m hash added m'}
    (run : RegistersServer block m (.ok hash) added m') (genuine : Genuine c added) :
    (registerServer c block).Yields m hash m' := by
  cases run with
  | registered call =>
    refine yields_manager (yields_ask genuine.first ?_)
    refine yields_bind (call.yields (genuine.part (by simp +contextual))) ?_
    exact yields_log yields_pure

theorem Attempts.yields {block m hashes added m'} (run : Attempts block m (.ok hashes) added m')
    (genuine : Genuine c added) : (attemptRegistration c block).Yields m hashes m' := by
  refine yields_manager ?_
  cases run with
  | unready barred =>
    rw [barred]
    exact yields_log yields_pure
  | registered ready ensure register =>
    obtain ⟨early, late⟩ := genuine_append.mp genuine
    have registered := register.yields late
    rw [ready]
    cases ensure with
    | spared adding unneeded =>
      refine yields_ask early.first ?_
      rw [unneeded]
      exact yields_given (yields_bind registered yields_pure)
    | added absent add =>
      have added := add.yields (early.part fun _ => List.mem_cons_of_mem _)
      refine yields_ask early.first ?_
      rw [absent]
      exact yields_bind added (yields_given (yields_bind registered yields_pure))

theorem Registers.yields {block force m hashes added m'}
    (run : Registers block force m (.ok hashes) added m') (genuine : Genuine c added) :
    (registerIfNeeded c block force).Yields m hashes m' := by
  refine yields_manager ?_
  cases run with
  | closed pending unneeded =>
    refine yields_ask genuine.first ?_
    rw [unneeded]
    exact yields_pure
  | opened pending needed attempt =>
    refine yields_ask genuine.first ?_
    rw [needed]
    exact attempt.yields (genuine.part fun _ => List.mem_cons_of_mem _)

end Effect

namespace Action

variable {ω : Type} {c : Collaborators ω} {hubEvents : List EventRecord} {scanned current : UInt64}

theorem scan_yields {m middle : Manager} {events : List EventRecord} {hashes : List String}
    {record : RelayRecord} {others : List RelayRecord} (ready : m.initialized = true)
    (fetched : ∀ world, (c.answer (m.stakeQuery scanned current) world).1 = .ok events)
    (handling :
      (handleStakeEvents c current events).Yields (Manager.forgetHandled scanned m).1 hashes middle)
    (found : ∀ world, (c.answer (.relayData [middle.address]) world).1 = .ok (record :: others)) :
    (scan c hubEvents scanned current).Yields m hashes
      (Manager.observeHubEvents hubEvents (Manager.observeRecord record middle).1).1 := by
  have recorded : (fetchRecord c).Yields middle record middle :=
    yields_manager (yields_ask found yields_pure)
  refine yields_manager ?_
  rw [ready]
  refine yields_ask fetched (yields_note (yields_change (yields_bind handling ?_)))
  exact yields_bind recorded (yields_change (yields_change yields_pure))

theorem cycle_yields {force : Bool} {m scannedTo releasedTo : Manager} {handled released sent : List String}
    (scanning : (scan c hubEvents scanned current).Yields m handled scannedTo)
    (releasing : (releaseDue c current).Yields scannedTo released releasedTo)
    (registering : (registerIfNeeded c current force).Yields releasedTo sent releasedTo) :
    (handlePastEvents c hubEvents scanned current force).Yields m
      { hashes := handled ++ released ++ sent, notifications := releasedTo.notifications }
      { releasedTo with notifications := [] } := by
  have taking : (takeNotifications : Action ω (List Notification)).Yields releasedTo
      releasedTo.notifications { releasedTo with notifications := [] } :=
    yields_manager (yields_change yields_pure)
  refine yields_bind scanning (yields_bind releasing (yields_bind registering ?_))
  exact yields_bind taking yields_pure

end Action
end TransactionRelay
