import TransactionRelay.Proofs.Registration.Running
import TransactionRelay.Registration.Cycle

namespace TransactionRelay

def ServerAction.registers : ServerAction → Bool
  | .addWorker | .registerServer => true
  | .valueTransfer | .relayCall => false

def Call.registers : Call → Bool
  | .isPending .addWorker | .addWorkersMethod .. | .registerMethod .. | .estimateGas .. => true
  | .send tx => tx.action.registers
  | _ => false

def Manager.hubCall (m : Manager) (action : ServerAction) (method : MethodCall) (gas block : UInt64) :
    Transaction :=
  Transaction.contractCall m.address m.settings.hub action method gas block

namespace Effect

inductive CallsHub (label : String) (action : ServerAction) (method : MethodCall) (block : UInt64) :
    Effect String
  | unestimated {m} (failure : SubmissionFailure) :
      CallsHub label action method block m (.error (.submission failure))
        [.asked (.estimateGas label method m.address) (.error failure)] m
  | refused {m} (gas : UInt64) (failure : SubmissionFailure) :
      CallsHub label action method block m (.error (.submission failure))
        [.asked (.estimateGas label method m.address) (.ok gas),
          .asked (.send (m.hubCall action method gas block)) (.error failure)] m
  | accepted {m} (gas : UInt64) (receipt : Receipt) :
      CallsHub label action method block m (.ok receipt.hash)
        [.asked (.estimateGas label method m.address) (.ok gas),
          .asked (.send (m.hubCall action method gas block)) (.ok receipt)] m

theorem CallsHub.memory {label action method block m r added m'}
    (run : CallsHub label action method block m r added m') : m' = m := by
  cases run <;> rfl

inductive AddsWorker (block : UInt64) : Effect String
  | unencoded {m} (failure : LedgerFailure) :
      AddsWorker block m (.error (.ledger failure))
        [.asked (.addWorkersMethod [m.worker]) (.error failure)] m
  | called {m method r added} (call : CallsHub "AddRelayWorkers" .addWorker method block m r added m) :
      AddsWorker block m r (.asked (.addWorkersMethod [m.worker]) (.ok method) :: added) m

inductive RegistersServer (block : UInt64) : Effect String
  | unencoded {m} (failure : LedgerFailure) :
      RegistersServer block m (.error (.ledger failure))
        [.asked (.registerMethod m.settings.registrationUrl) (.error failure)] m
  | failed {m method failure added}
      (call : CallsHub "RegisterRelay" .registerServer method block m (.error failure) added m) :
      RegistersServer block m (.error failure)
        (.asked (.registerMethod m.settings.registrationUrl) (.ok method) :: added) m
  | registered {m method hash added}
      (call : CallsHub "RegisterRelay" .registerServer method block m (.ok hash) added m) :
      RegistersServer block m (.ok hash)
        (.asked (.registerMethod m.settings.registrationUrl) (.ok method) :: (added ++
          [.logged (.registered m.address m.settings.hub m.settings.registrationUrl)])) m

inductive EnsuresWorker (block : UInt64) : Effect (List String)
  | unread {m} (failure : SubmissionFailure) :
      EnsuresWorker block m (.error (.submission failure))
        [.asked (.isPending .addWorker) (.error failure)] m
  | spared {m} (adding : Bool) (unneeded : (m.workerAdded || adding) = true) :
      EnsuresWorker block m (.ok []) [.asked (.isPending .addWorker) (.ok adding)] m
  | failed {m failure added} (absent : m.workerAdded = false)
      (add : AddsWorker block m (.error failure) added m) :
      EnsuresWorker block m (.error failure) (.asked (.isPending .addWorker) (.ok false) :: added) m
  | added {m hash added} (absent : m.workerAdded = false)
      (add : AddsWorker block m (.ok hash) added m) :
      EnsuresWorker block m (.ok [hash]) (.asked (.isPending .addWorker) (.ok false) :: added) m

inductive Attempts (block : UInt64) : Effect (List String)
  | unready {m} (barred : m.mayRegister = false) : Attempts block m (.ok []) [.logged .notReady] m
  | stopped {m failure added} (ready : m.mayRegister = true)
      (ensure : EnsuresWorker block m (.error failure) added m) :
      Attempts block m (.error failure) added m
  | failed {m hashes added failure more} (ready : m.mayRegister = true)
      (ensure : EnsuresWorker block m (.ok hashes) added m)
      (register : RegistersServer block m (.error failure) more m) :
      Attempts block m (.error failure) (added ++ more) m
  | registered {m hashes added hash more} (ready : m.mayRegister = true)
      (ensure : EnsuresWorker block m (.ok hashes) added m)
      (register : RegistersServer block m (.ok hash) more m) :
      Attempts block m (.ok (hashes ++ [hash])) (added ++ more) m

-- The gate before a registration: wanted by force, or because the hub's record is wrong and no
-- registration is on its way.
inductive Registers (block : UInt64) (force : Bool) : Effect (List String)
  | unread {m} (failure : SubmissionFailure) :
      Registers block force m (.error (.submission failure))
        [.asked (.isPending .registerServer) (.error failure)] m
  | closed {m} (pending : Bool) (unneeded : (!(pending || m.registrationCorrect) || force) = false) :
      Registers block force m (.ok []) [.asked (.isPending .registerServer) (.ok pending)] m
  | opened {m r added} (pending : Bool) (needed : (!(pending || m.registrationCorrect) || force) = true)
      (attempt : Attempts block m r added m) :
      Registers block force m r (.asked (.isPending .registerServer) (.ok pending) :: added) m

theorem Attempts.memory {block m r added m'} (run : Attempts block m r added m') : m' = m := by
  cases run <;> rfl

theorem Registers.memory {block force m r added m'} (run : Registers block force m r added m') :
    m' = m := by
  cases run with
  | unread => rfl
  | closed => rfl
  | opened pending needed attempt => exact attempt.memory

section

-- A property of the entries that a registration is made of.
variable {p : Entry → Prop} (asked : ∀ call reply, call.registers = true → p (.asked call reply))
  (logged : ∀ notice, p (.logged notice))

include asked

theorem CallsHub.all {label action method block m r added m'} (registers : action.registers = true)
    (run : CallsHub label action method block m r added m') : ∀ entry ∈ added, p entry := by
  have estimated := fun reply => asked (.estimateGas label method m.address) reply rfl
  have sent := fun gas reply => asked (.send (m.hubCall action method gas block)) reply registers
  cases run <;> simp [estimated, sent]

theorem AddsWorker.all {block m r added m'} (run : AddsWorker block m r added m') :
    ∀ entry ∈ added, p entry := by
  have encoded := fun reply => asked (.addWorkersMethod [m.worker]) reply rfl
  cases run with
  | unencoded failure => simp [encoded]
  | called call =>
    have inner := call.all asked rfl
    simpa [encoded] using inner

theorem EnsuresWorker.all {block m r added m'} (run : EnsuresWorker block m r added m') :
    ∀ entry ∈ added, p entry := by
  have pended := fun reply => asked (.isPending .addWorker) reply rfl
  cases run with
  | unread | spared => simp [pended]
  | failed absent add | added absent add =>
    have inner := add.all asked
    simpa [pended] using inner

include logged

theorem RegistersServer.all {block m r added m'} (run : RegistersServer block m r added m') :
    ∀ entry ∈ added, p entry := by
  have encoded := fun reply => asked (.registerMethod m.settings.registrationUrl) reply rfl
  cases run with
  | unencoded failure => simp [encoded]
  | failed call =>
    have inner := call.all asked rfl
    simpa [encoded] using inner
  | registered call =>
    have inner := call.all asked rfl
    simp only [List.mem_cons, List.mem_append, List.not_mem_nil, or_false]
    rintro entry (rfl | member | rfl)
    · exact encoded _
    · exact inner entry member
    · exact logged _

theorem Attempts.all {block m r added m'} (run : Attempts block m r added m') :
    ∀ entry ∈ added, p entry := by
  cases run with
  | unready barred => simp [logged]
  | stopped ready ensure => exact ensure.all asked
  | failed ready ensure register | registered ready ensure register =>
    have first := ensure.all asked
    have second := register.all asked logged
    intro entry member
    rcases List.mem_append.mp member with early | late
    · exact first entry early
    · exact second entry late

end

end Effect

namespace Action

open Effect

variable {ω : Type} (c : Collaborators ω)

theorem callHub_follows (label : String) (action : ServerAction) (method : MethodCall)
    (block : UInt64) : (callHub c label action method block).Follows (CallsHub label action method block) := by
  intro m
  refine ends_manager (ends_ask (fun failure => .unestimated failure) fun gas => ?_)
  exact ends_ask (fun failure => .refused gas failure) fun receipt => ends_pure (.accepted gas receipt)

theorem addWorker_ends (block : UInt64) (m : Manager) :
    (addWorker c block).Ends m fun r added m' => m' = m ∧ AddsWorker block m r added m := by
  refine ends_manager (ends_ask (fun failure => ⟨rfl, .unencoded failure⟩) fun method => ?_)
  refine (callHub_follows c _ _ method block m).mono fun r added m' call => ?_
  cases call.memory
  exact ⟨rfl, .called call⟩

theorem registerServer_ends (block : UInt64) (m : Manager) :
    (registerServer c block).Ends m fun r added m' => m' = m ∧ RegistersServer block m r added m := by
  refine ends_manager (ends_ask (fun failure => ⟨rfl, .unencoded failure⟩) fun method => ?_)
  refine ends_bind (callHub_follows c _ _ method block m) ?_ ?_
  · intro failure added m' call
    cases call.memory
    exact ⟨rfl, .failed call⟩
  · intro hash added middle call
    cases call.memory
    exact ends_log (ends_pure ⟨rfl, .registered call⟩)

theorem attemptRegistration_follows (block : UInt64) :
    (attemptRegistration c block).Follows (Attempts block) := by
  intro m
  refine ends_manager ?_
  cases ready : m.mayRegister with
  | false => exact ends_log (ends_pure (.unready ready))
  | true =>
    refine ends_ask (fun failure => .stopped ready (.unread failure)) fun adding => ?_
    cases needed : m.workerAdded || adding with
    | true =>
      refine ends_given (ends_bind (registerServer_ends c block m) ?_ ?_)
      · rintro failure more m' ⟨rfl, register⟩
        exact .failed ready (.spared adding needed) register
      · rintro hash more middle ⟨rfl, register⟩
        exact ends_pure (by simpa using .registered ready (.spared adding needed) register)
    | false =>
      obtain ⟨absent, rfl⟩ := Bool.or_eq_false_iff.mp needed
      refine ends_bind (addWorker_ends c block m) ?_ ?_
      · rintro failure added m' ⟨rfl, add⟩
        exact .stopped ready (.failed absent add)
      rintro hash added middle ⟨rfl, add⟩
      refine ends_given (ends_bind (registerServer_ends c block middle) ?_ ?_)
      · rintro failure more m' ⟨rfl, register⟩
        exact .failed ready (.added absent add) register
      · rintro hash' more middle ⟨rfl, register⟩
        exact ends_pure (by simpa using .registered ready (.added absent add) register)

theorem registerIfNeeded_follows (block : UInt64) (force : Bool) :
    (registerIfNeeded c block force).Follows (Registers block force) := by
  intro m
  refine ends_manager (ends_ask (fun failure => .unread failure) fun pending => ?_)
  cases needed : !(pending || m.registrationCorrect) || force with
  | true =>
    refine (attemptRegistration_follows c block m).mono fun r added m' attempt => ?_
    cases attempt.memory
    exact .opened pending needed attempt
  | false => exact ends_pure (.closed pending needed)

end Action
end TransactionRelay
