import TransactionRelay.Registration.Session

namespace TransactionRelay

abbrev Ending (α : Type) := Except RegistrationFailure α → List Entry → Manager → Prop

-- What an operation can do, whatever its collaborators answer.
abbrev Effect (α : Type) := Manager → Ending α

namespace Effect

variable {α β : Type}

inductive Maps (form : α → β) (effect : Effect α) : Effect β
  | failed {m failure added m'} : effect m (.error failure) added m' →
      Maps form effect m (.error failure) added m'
  | given {m a added m'} : effect m (.ok a) added m' → Maps form effect m (.ok (form a)) added m'

-- The same effect for each of several events, in their order. The first failure is the last thing
-- that happens.
inductive InTurn (part : EventRecord → Effect (List String)) : List EventRecord → Effect (List String)
  | done {m} : InTurn part [] m (.ok []) [] m
  | stopped {m event rest failure added m'} : part event m (.error failure) added m' →
      InTurn part (event :: rest) m (.error failure) added m'
  | stoppedLater {m event rest hashes failure added middle more m'} :
      part event m (.ok hashes) added middle → InTurn part rest middle (.error failure) more m' →
      InTurn part (event :: rest) m (.error failure) (added ++ more) m'
  | passed {m event rest hashes others added middle more m'} :
      part event m (.ok hashes) added middle → InTurn part rest middle (.ok others) more m' →
      InTurn part (event :: rest) m (.ok (hashes ++ others)) (added ++ more) m'

theorem InTurn.chained {R : Manager → List Entry → Manager → Prop} (refl : ∀ m, R m [] m)
    (trans : ∀ {m added middle more m'}, R m added middle → R middle more m' → R m (added ++ more) m')
    {one : EventRecord → Effect (List String)} {events m r added m'}
    (each : ∀ event ∈ events, ∀ {m r added m'}, one event m r added m' → R m added m')
    (run : InTurn one events m r added m') : R m added m' := by
  induction run with
  | done => exact refl _
  | stopped run => exact each _ (by simp) run
  | stoppedLater run _ ih | passed run _ ih =>
    have rest := ih fun event member => each event (List.mem_cons_of_mem _ member)
    exact trans (each _ (by simp) run) rest

end Effect

namespace Action

open Effect

variable {ω : Type} {α β : Type}

def Ends (action : Action ω α) (m : Manager) (ending : Ending α) : Prop :=
  ∀ s r s', s.manager = m → action.runOn s = (r, s') →
    ∃ added, s'.journal = s.journal ++ added ∧ ending r added s'.manager

def Follows (action : Action ω α) (effect : Effect α) : Prop := ∀ m, action.Ends m (effect m)

theorem Ends.mono {action : Action ω α} {m : Manager} {narrow wide : Ending α}
    (ends : action.Ends m narrow) (wider : ∀ r added m', narrow r added m' → wide r added m') :
    action.Ends m wide := by
  intro s r s' memory ran
  obtain ⟨added, journal, ending⟩ := ends s r s' memory ran
  exact ⟨added, journal, wider _ _ _ ending⟩

theorem runOn_bind (action : Action ω α) (next : α → Action ω β) (s : Session ω) :
    (action >>= next).runOn s =
      match action.runOn s with
      | (.ok a, s') => (next a).runOn s'
      | (.error failure, s') => (.error failure, s') := by
  change (match action.runOn s with
    | (r, s') => StateT.run (ExceptT.bindCont next r) s') = _
  cases action.runOn s with
  | mk r s' => cases r <;> rfl

theorem ends_pure {a : α} {m : Manager} {ending : Ending α} (given : ending (.ok a) [] m) :
    (pure a : Action ω α).Ends m ending := by
  intro s r s' memory ran
  cases ran
  exact ⟨[], by simp, memory ▸ given⟩

theorem ends_throw {failure : RegistrationFailure} {m : Manager} {ending : Ending α}
    (thrown : ending (.error failure) [] m) : (throw failure : Action ω α).Ends m ending := by
  intro s r s' memory ran
  cases ran
  exact ⟨[], by simp, memory ▸ thrown⟩

-- The start of a sequence is known by its own ends. A failure there ends the sequence.
theorem ends_bind {action : Action ω α} {next : α → Action ω β} {m : Manager} {first : Ending α}
    {ending : Ending β} (start : action.Ends m first)
    (failed : ∀ failure added m', first (.error failure) added m' → ending (.error failure) added m')
    (rest : ∀ a added middle, first (.ok a) added middle →
      (next a).Ends middle fun r more m' => ending r (added ++ more) m') :
    (action >>= next).Ends m ending := by
  intro s r s' memory ran
  rw [runOn_bind] at ran
  cases began : action.runOn s with
  | mk result middle =>
    rw [began] at ran
    obtain ⟨added, journal, reached⟩ := start s _ _ memory began
    cases result with
    | error failure =>
      cases ran
      exact ⟨added, journal, failed _ _ _ reached⟩
    | ok a =>
      obtain ⟨more, later, ended⟩ := rest a added _ reached middle r s' rfl ran
      exact ⟨added ++ more, by rw [later, journal, List.append_assoc], ended⟩

theorem change_ends {step : Manager.Step} {m : Manager} {ending : Ending Unit}
    (changed : ending (.ok ()) (step m).2 (step m).1) : (change step : Action ω Unit).Ends m ending := by
  intro s r s' memory ran
  cases ran
  exact ⟨(step m).2, by rw [← memory]; rfl, by rw [← memory] at changed ⊢; exact changed⟩

theorem ask_ends {c : Collaborators ω} {call : Call} {m : Manager} {ending : Ending call.Answer}
    (failed : ∀ failure, ending (.error (call.report failure)) [.asked call (.error failure)] m)
    (answered : ∀ answer, ending (.ok answer) [.asked call (.ok answer)] m) :
    (ask c call).Ends m ending := by
  intro s r s' memory ran
  have asked : (modifyGet (Session.request c call) : Action ω _).runOn s =
      (.ok (c.answer call s.world).1, (s.request c call).2) := rfl
  unfold ask at ran
  rw [runOn_bind, asked] at ran
  cases reply : (c.answer call s.world).1 with
  | ok answer =>
    simp only [reply] at ran
    cases ran
    exact ⟨_, by simp [Session.request, reply], memory ▸ answered answer⟩
  | error failure =>
    simp only [reply] at ran
    cases ran
    exact ⟨_, by simp [Session.request, reply], memory ▸ failed failure⟩

theorem ends_given {a : α} {next : α → Action ω β} {m : Manager} {ending : Ending β}
    (rest : (next a).Ends m ending) : (pure a >>= next).Ends m ending := rest

theorem ends_thrown {failure : RegistrationFailure} {next : α → Action ω β} {m : Manager}
    {ending : Ending β} (thrown : ending (.error failure) [] m) :
    (throw failure >>= next).Ends m ending := by
  intro s r s' memory ran
  cases ran
  exact ⟨[], by simp, memory ▸ thrown⟩

theorem ends_manager {next : Manager → Action ω β} {m : Manager} {ending : Ending β}
    (rest : (next m).Ends m ending) : (manager >>= next).Ends m ending := by
  intro s r s' memory ran
  cases memory
  exact rest s r s' rfl ran

theorem ends_note {entries : List Entry} {next : Unit → Action ω β} {m : Manager} {ending : Ending β}
    (rest : (next ()).Ends m fun r more m' => ending r (entries ++ more) m') :
    (note entries >>= next).Ends m ending := by
  intro s r s' memory ran
  obtain ⟨more, journal, ended⟩ := rest (s.note entries) r s' memory ran
  exact ⟨entries ++ more, by rw [journal, ← List.append_assoc]; rfl, ended⟩

theorem ends_log {notice : Notice} {next : Unit → Action ω β} {m : Manager} {ending : Ending β}
    (rest : (next ()).Ends m fun r more m' => ending r (.logged notice :: more) m') :
    (log notice >>= next).Ends m ending := ends_note rest

theorem ends_change {step : Manager.Step} {next : Unit → Action ω β} {m : Manager}
    {ending : Ending β}
    (rest : (next ()).Ends (step m).1 fun r more m' => ending r ((step m).2 ++ more) m') :
    (change step >>= next).Ends m ending := by
  have start : (change step : Action ω Unit).Ends m fun r added m' =>
      r = .ok () ∧ added = (step m).2 ∧ m' = (step m).1 := change_ends ⟨rfl, rfl, rfl⟩
  refine ends_bind start ?_ ?_
  · rintro failure added m' ⟨wrong, _⟩
    cases wrong
  · rintro a added middle ⟨_, rfl, rfl⟩
    exact rest

theorem ends_ask {c : Collaborators ω} {call : Call} {next : call.Answer → Action ω β} {m : Manager}
    {ending : Ending β}
    (failed : ∀ failure, ending (.error (call.report failure)) [.asked call (.error failure)] m)
    (rest : ∀ answer, (next answer).Ends m fun r more m' =>
      ending r (.asked call (.ok answer) :: more) m') :
    (ask c call >>= next).Ends m ending := by
  have start : (ask c call).Ends m fun r added m' =>
      (∃ failure, r = .error (call.report failure) ∧ added = [.asked call (.error failure)] ∧ m' = m) ∨
        ∃ answer, r = .ok answer ∧ added = [.asked call (.ok answer)] ∧ m' = m :=
    ask_ends (fun failure => .inl ⟨failure, rfl, rfl, rfl⟩) fun answer => .inr ⟨answer, rfl, rfl, rfl⟩
  refine ends_bind start ?_ ?_
  · rintro _ added m' (⟨failure, given, rfl, rfl⟩ | ⟨answer, wrong, _⟩)
    · cases given
      exact failed failure
    · cases wrong
  · rintro answer added middle (⟨failure, wrong, _⟩ | ⟨_, given, rfl, rfl⟩)
    · cases wrong
    · cases given
      exact rest answer

theorem maps_follows {action : Action ω α} {effect : Effect α} (form : α → β)
    (follows : action.Follows effect) :
    (do return form (← action) : Action ω β).Follows (Maps form effect) := by
  intro m
  refine ends_bind (follows m) (fun failure added m' run => .failed run) ?_
  intro a added middle run
  exact ends_pure (by simpa using Maps.given run)

theorem inTurn_follows {part : EventRecord → Effect (List String)}
    {one : EventRecord → Action ω (List String)} {all : List EventRecord → Action ω (List String)}
    (none : all [] = pure [])
    (more : ∀ event rest, all (event :: rest) = do
      let first ← one event
      let others ← all rest
      return first ++ others)
    (follows : ∀ event, (one event).Follows (part event)) (events : List EventRecord) :
    (all events).Follows (InTurn part events) := by
  induction events with
  | nil => intro m; rw [none]; exact ends_pure .done
  | cons event rest ih =>
    intro m
    rw [more]
    refine ends_bind (follows event m) (fun failure added m' run => .stopped run) ?_
    intro hashes added middle run
    refine ends_bind (ih middle) (fun failure more m' later => .stoppedLater run later) ?_
    intro others more m' later
    exact ends_pure (by simpa using InTurn.passed run later)

end Action
end TransactionRelay
