import TransactionRelay.Proofs.Polling.HandledOnce
import TransactionRelay.Proofs.Polling.Journaling
import TransactionRelay.Proofs.Registration.Announcements

namespace TransactionRelay

open Effect
open Entry (Mute)

def Entry.slept? : Entry → Option Nat
  | .slept millis => some millis
  | _ => none

theorem sleepless_course : Course fun _ added _ => added.filterMap Entry.slept? = [] := by
  let Awake (entry : Entry) : Prop := entry.slept? = none
  have sleepless {added : List Entry} (awake : ∀ entry ∈ added, Awake entry) :
      added.filterMap Entry.slept? = [] := List.filterMap_eq_nil_iff.mpr awake
  have trail : Trail fun _ added _ => added.filterMap Entry.slept? = [] :=
    { refl := fun _ => rfl
      trans := fun one two => by rw [List.filterMap_append, one, two, List.append_nil]
      part := fun part => sleepless <| part.all (p := Awake) (fun _ _ _ => rfl) (fun _ => rfl)
        (fun _ _ => rfl) rfl fun _ => rfl }
  have swept {cause managerFunds block m r added m'} (run : Sweeps cause managerFunds block m r added m') :
      added.filterMap Entry.slept? = [] :=
    sleepless (run.all (p := Awake) (fun _ _ _ => rfl) (fun _ => rfl) rfl rfl rfl)
  exact
    { toTrail := trail
      handled := fun run => run.obeys trail swept
      released := fun run => run.obeys trail (fun _ => rfl) swept
      pended := fun _ _ => rfl
      attempted := fun run => sleepless (run.all (p := Awake) (fun _ _ _ => rfl) fun _ => rfl)
      demanded := swept }

def Candid (m : Manager) : Prop := .unstaked ∈ m.notifications → m.unstaked = true

theorem Hands.candid {taken m added m'} (hands : Hands taken m added m') (candid : Candid m)
    (said : .unstaked ∈ taken ++ m'.notifications) : m'.unstaked = true := by
  rw [hands.pending] at said
  rw [hands.unstaked, Bool.or_eq_true, decide_eq_true_iff]
  exact (List.mem_append.mp said).imp_left candid

namespace Poller

def handedOut : Except PollFailure (Outcome × UInt64) → List Notification
  | .ok (outcome, _) => outcome.notifications
  | .error _ => []

theorem asked_hands (m : Manager) (reply : Except LedgerFailure UInt64) :
    Hands [] m [.asked .blockNumber reply] m :=
  hands_mute (by simp [Mute, Entry.record?, Entry.announces]) rfl rfl rfl rfl

theorem Stops.hands {scanned m r added m'} (stop : Stops scanned m r added m') :
    Hands (handedOut r) m added m' := by
  have silent : handedOut r = [] := by cases stop <;> rfl
  rw [silent]
  rcases stop.parts.2 with aside | ⟨early, middle, reply, late, rfl, before, after⟩
  · exact aside.hands
  · exact before.hands.trans ((asked_hands middle reply).trans after.hands)

theorem Opens.hands {scanned current hubEvents m added m'}
    (opens : Opens scanned current hubEvents m added m') : Hands [] m added m' := by
  obtain ⟨_, early, middle, late, rfl, before, after⟩ := opens.parts
  exact before.hands.trans ((asked_hands middle (.ok current)).trans after.hands)

theorem Polls.hands {scanned m r added m'} (run : Polls scanned m r added m') :
    Hands (handedOut r) m added m' := by
  cases run with
  | stopped stop => exact stop.hands
  | failed opens cycle => exact opens.hands.trans (cycle_hands cycle)
  | @done current _ _ _ outcome _ m' opens cycle =>
    have noted : Hands [] m' (submissionNotice outcome current) m' :=
      hands_quiet (submissionNotice_quiet outcome current) rfl rfl rfl
    have cycled := (cycle_hands cycle).trans noted
    rw [List.append_nil] at cycled
    exact opens.hands.trans cycled

def streak (results : Nat → Except PollFailure Outcome) (i : Nat) : Nat :=
  (((List.range i).map results).reverse.takeWhile fun result => !result.isOk).length

theorem streak_succ (results : Nat → Except PollFailure Outcome) (i : Nat) :
    streak results (i + 1) = if (results i).isOk then 0 else streak results i + 1 := by
  simp only [streak, List.range_succ, List.map_append, List.map_cons, List.map_nil,
    List.reverse_append, List.reverse_cons, List.reverse_nil, List.nil_append, List.singleton_append,
    List.takeWhile_cons]
  cases (results i).isOk <;> rfl

-- The loop cannot go on after this place: the manager was unstaked, or this is one failure more in a
-- row than are retried.
def Final (policy : RetryPolicy) (results : Nat → Except PollFailure Outcome) (i : Nat) : Prop :=
  match results i with
  | .ok outcome => .unstaked ∈ outcome.notifications
  | .error _ => streak results i = policy.retries

instance (policy : RetryPolicy) (results : Nat → Except PollFailure Outcome) (i : Nat) :
    Decidable (Final policy results i) :=
  match result : results i with
  | .ok outcome => decidable_of_iff (.unstaked ∈ outcome.notifications) (by rw [Final, result])
  | .error _ => decidable_of_iff (streak results i = policy.retries) (by rw [Final, result])

def First (final : Nat → Prop) (i : Nat) : Prop := final i ∧ ∀ j < i, ¬ final j

instance (final : Nat → Prop) [DecidablePred final] (i : Nat) : Decidable (First final i) :=
  inferInstanceAs (Decidable (final i ∧ ∀ j < i, ¬ final j))

def wait? (pollMillis : Nat) (policy : RetryPolicy) (results : Nat → Except PollFailure Outcome)
    (i : Nat) : Option Nat :=
  match results i with
  | .ok _ => some pollMillis
  | .error _ => policy.delay? (streak results i)

section

variable {policy : RetryPolicy} {results : Nat → Except PollFailure Outcome} {i : Nat}

-- Up to the first final place no streak is longer than the policy allows.
theorem streak_bounded (free : ∀ j < i, ¬ Final policy results j) :
    streak results i ≤ policy.retries := by
  induction i with
  | zero => exact Nat.zero_le _
  | succ i ih =>
    have before := ih fun j less => free j (by omega)
    have last := free i (Nat.lt_succ_self i)
    rw [streak_succ]
    cases result : results i with
    | ok outcome => exact Nat.zero_le _
    | error failure =>
      rw [Final, result] at last
      change streak results i + 1 ≤ policy.retries
      change ¬ streak results i = policy.retries at last
      omega

theorem waits_when_free (pollMillis : Nat) (free : ∀ j ≤ i, ¬ Final policy results j) :
    ∃ millis, wait? pollMillis policy results i = some millis := by
  have bounded := streak_bounded fun j less => free j (Nat.le_of_lt less)
  have last := free i (Nat.le_refl i)
  unfold wait?
  unfold Final at last
  cases result : results i with
  | ok outcome => exact ⟨pollMillis, rfl⟩
  | error failure =>
    rw [result] at last
    refine Option.ne_none_iff_exists'.mp fun spent => last ?_
    exact Nat.le_antisymm bounded ((policy.delay_none_iff _).mp spent)

end

variable {ω : Type} (c : Collaborators ω) (p : Poller ω)

def results (i : Nat) : Except PollFailure Outcome := (pollOnce c (polls c i p)).1

def entries (i : Nat) : List Entry := (polls c i p).session.adds (polls c (i + 1) p).session

def waitNotice (i millis : Nat) : Notice :=
  match results c p i with
  | .ok _ => .stage (polls c (i + 1) p).session.manager.stage
  | .error _ => .retrying (streak (results c p) i + 1) millis

def pause (i : Nat) : List Entry :=
  (wait? p.pollMillis p.policy (results c p) i).toList.flatMap fun millis =>
    [.logged (waitNotice c p i millis), .slept millis]

def turns (n : Nat) : List Entry := (List.range n).flatMap fun i => entries c p i ++ pause c p i

def closing (i : Nat) : Notice :=
  match results c p i with
  | .ok _ => .stopping (polls c (i + 1) p).session.manager.address
  | .error _ => .givingUp (streak (results c p) i + 1)

theorem polls_policy (n : Nat) :
    (polls c n p).policy = p.policy ∧ (polls c n p).pollMillis = p.pollMillis := by
  induction n with
  | zero => exact ⟨rfl, rfl⟩
  | succ n ih =>
    rw [polls, pollOnce]
    split <;> exact ih

theorem turns_succ (n : Nat) : turns c p (n + 1) = turns c p n ++ (entries c p n ++ pause c p n) := by
  simp [turns, List.range_succ]

section

variable {c p} {i : Nat} (journal : List Entry) (limit : Nat)

-- One turn of the loop: the poll does what it does without the loop, and the verdict is added.
theorem loop_turn (failures : Nat) :
    loop c failures (limit + 1) ((polls c i p).upon journal) =
      let decided := verdict p.policy p.pollMillis failures (results c p i)
      let after := (polls c (i + 1) p).upon (journal ++ entries c p i ++
        verdictEntries (polls c (i + 1) p).session.manager failures (results c p i) decided)
      match decided with
      | .stop => (some (.ok ()), after)
      | .giveUp failure => (some (.error failure), after)
      | .goOn next _ => loop c next limit after := by
  obtain ⟨policy, millis⟩ := polls_policy c p i
  rw [loop, pollOnce_upon]
  dsimp only [upon]
  rw [policy, millis]
  rfl

-- Before the first final place the loop goes on, with the streak as its count of failures.
theorem loop_goes_on (free : ∀ j ≤ i, ¬ Final p.policy (results c p) j) :
    loop c (streak (results c p) i) (limit + 1) ((polls c i p).upon journal) =
      loop c (streak (results c p) (i + 1)) limit
        ((polls c (i + 1) p).upon (journal ++ (entries c p i ++ pause c p i))) := by
  obtain ⟨millis, waits⟩ := waits_when_free p.pollMillis free
  have last := free i (Nat.le_refl i)
  rw [loop_turn, streak_succ, ← List.append_assoc journal, pause, waits]
  unfold wait? at waits
  unfold Final at last
  unfold waitNotice
  cases result : results c p i with
  | ok outcome =>
    rw [result] at waits last
    cases waits
    have stays : outcome.unstaked = false := by simpa [Outcome.unstaked] using last
    simp only [verdict, stays]
    rfl
  | error failure =>
    rw [result] at waits
    simp only [verdict, waits]
    rfl

theorem loop_ends (final : Final p.policy (results c p) i) :
    loop c (streak (results c p) i) (limit + 1) ((polls c i p).upon journal) =
      (some ((results c p i).map fun _ => ()),
        (polls c (i + 1) p).upon (journal ++ entries c p i ++ [.logged (closing c p i)])) := by
  rw [loop_turn]
  unfold Final at final
  unfold closing
  cases result : results c p i with
  | ok outcome =>
    rw [result] at final
    have left : outcome.unstaked = true := List.contains_iff_mem.mpr final
    simp only [verdict, left]
    rfl
  | error failure =>
    rw [result] at final
    have spent : p.policy.delay? (streak (results c p) i) = none :=
      (p.policy.delay_none_iff _).mpr (Nat.le_of_eq final.symm)
    simp only [verdict, spent]
    rfl

-- The turns that come before any final place, by induction on their number.
theorem loop_turns (free : ∀ j < i, ¬ Final p.policy (results c p) j) :
    loop c 0 (i + limit) (p.upon journal) =
      loop c (streak (results c p) i) limit ((polls c i p).upon (journal ++ turns c p i)) := by
  induction i generalizing limit with
  | zero => simp [turns, streak, polls]
  | succ i ih =>
    have before := ih (limit + 1) fun j less => free j (by omega)
    rw [loop_goes_on _ _ fun j least => free j (by omega)] at before
    rw [turns_succ, ← List.append_assoc, ← before]
    congr 1
    omega

end

theorem unstaked_handed_out (candid : Candid p.session.manager) (i : Nat) :
    Candid (polls c i p).session.manager ∧ ∀ outcome, results c p i = .ok outcome →
      .unstaked ∈ outcome.notifications → (polls c (i + 1) p).session.manager.unstaked = true := by
  have polled (i : Nat) : ∃ r added, results c p i = r.map Prod.fst ∧
      Hands (handedOut r) (polls c i p).session.manager added (polls c (i + 1) p).session.manager := by
    obtain ⟨r, added, result, _, run, _⟩ := pollOnce_returns c (polls c i p)
    exact ⟨r, added, result, run.hands⟩
  have kept : Candid (polls c i p).session.manager := by
    induction i with
    | zero => exact candid
    | succ i ih =>
      obtain ⟨r, added, _, hands⟩ := polled i
      exact fun said => hands.candid ih (List.mem_append_right _ said)
  refine ⟨kept, fun outcome given said => ?_⟩
  obtain ⟨r, added, result, hands⟩ := polled i
  cases r with
  | error failure => cases given.symm.trans result
  | ok done =>
    cases given.symm.trans result
    exact hands.candid kept (List.mem_append_left _ said)

-- The loop ends right after the first final place and nowhere else, however many polls were made without it before.
-- Each turn before is a poll, which takes no wait itself, and one wait.
theorem run_ends_at_first_final (settings : ServerSettings) (address worker : String) (world : ω)
    (commands : List Command) (pollMillis : Nat) (policy : RetryPolicy) (start : UInt64) (n limit : Nat) :
    let p : Poller ω := polls c n
      { session := ((Session.fresh settings address worker world).performAll c commands).2
        pollMillis, policy, scanned := start }
    let opening := p.session.journal ++ [.logged (.polling p.session.manager.address)]
    let ran := run c limit p
    (∀ i < limit, First (Final policy (results c p)) i →
      ran.2 = (polls c (i + 1) p).upon
          (opening ++ turns c p i ++ entries c p i ++ [.logged (closing c p i)]) ∧
        (∀ outcome, results c p i = .ok outcome →
          ran.1 = some (.ok ()) ∧ ran.2.session.manager.stage = .unstaking) ∧
        ∀ failure, results c p i = .error failure → ran.1 = some (.error failure)) ∧
      ((∀ i < limit, ¬ Final policy (results c p) i) →
        ran = (none, (polls c limit p).upon (opening ++ turns c p limit))) ∧
      (∀ i, (∀ j ≤ i, ¬ Final policy (results c p) j) → ∃ millis,
        wait? pollMillis policy (results c p) i = some millis ∧
          pause c p i = [.logged (waitNotice c p i millis), .slept millis]) ∧
      ∀ i, (entries c p i).filterMap Entry.slept? = [] := by
  intro p opening ran
  have samePolicy : p.policy = policy := (polls_policy c _ n).1
  have sameMillis : p.pollMillis = pollMillis := (polls_policy c _ n).2
  have started : ran = loop c 0 limit (p.upon opening) := rfl
  have candid : Candid p.session.manager := by
    obtain ⟨added, _, hands⟩ := performAll_hands c (Session.fresh settings address worker world) commands
    have fresh : Candid (Manager.new settings address worker) := by simp [Candid, Manager.new]
    exact (unstaked_handed_out c _
      (fun said => hands.candid fresh (List.mem_append_right _ said)) n).1
  refine ⟨fun i less first => ?_, fun free => ?_, fun i free => ?_, fun i => ?_⟩
  · obtain ⟨final, free⟩ := first
    rw [← samePolicy] at final free
    obtain ⟨rest, rfl⟩ : ∃ rest, limit = i + (rest + 1) := ⟨limit - i - 1, by omega⟩
    rw [loop_turns opening (rest + 1) free, loop_ends _ rest final] at started
    refine ⟨by rw [started], fun outcome result => ?_, fun failure result => ?_⟩
    · rw [Final, result] at final
      refine ⟨by rw [started, result]; rfl, ?_⟩
      rw [started, stage_unstaking_iff]
      exact (unstaked_handed_out c p candid i).2 outcome result final
    · rw [started, result]
      rfl
  · rw [← samePolicy] at free
    have turned := loop_turns opening 0 free
    rw [Nat.add_zero] at turned
    rw [started, turned]
    rfl
  · obtain ⟨millis, waits⟩ := waits_when_free pollMillis free
    refine ⟨millis, waits, ?_⟩
    rw [pause, samePolicy, sameMillis, waits]
    rfl
  · obtain ⟨added, journal, polled, _⟩ := (pollOnce_polls c (polls c i p)).choose_spec
    have gained : entries c p i = added := adds_eq journal
    rw [gained]
    exact polled.obeys sleepless_course (fun _ _ => rfl) fun _ => rfl

end Poller

namespace Rehearsal

def faltering : Rehearsal :=
  { leaving [stakeWithdrawn 30] with
    script := some [{ block := some 12, ledgerOutcomes := [(.balance, [some (.rpc "timeout")])] },
      { block := some 12 }, {}, { block := some 40 }] }

theorem faltering_loop_ends_with_the_sweep :
    Poller.First (Poller.Final {} (Poller.results collaborators (polled faltering 0))) 3 ∧
      ((polled faltering 0).run collaborators 10).1 = some (.ok ()) ∧
      ((polled faltering 0).run collaborators 10).2.session.manager.stage = .unstaking := by
  have first : Poller.First (Poller.Final {} (Poller.results collaborators (polled faltering 0))) 3 := by
    decide +kernel
  have swept : Poller.results collaborators (polled faltering 0) 3 = .ok
      { hashes := ["0xvalue_transfer-0", "0xvalue_transfer-1"], notifications := [.unstaked] } := by
    decide +kernel
  -- The poller is spelled out, so that no run is evaluated to find it in the general statement.
  have spelled : polled faltering 0 = Poller.polls collaborators 0
      { session := ((Session.fresh settings manager worker faltering).performAll collaborators []).2
        pollMillis := 10, policy := {}, scanned := 0 } := rfl
  refine ⟨first, ?_⟩
  rw [spelled] at first swept ⊢
  exact ((Poller.run_ends_at_first_final collaborators settings manager worker faltering [] 10 {} 0 0
    10).1 3 (by decide) first).2.1 _ swept

end Rehearsal
end TransactionRelay
