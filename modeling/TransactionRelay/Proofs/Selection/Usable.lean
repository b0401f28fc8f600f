import TransactionRelay.Proofs.Selection.Fates

namespace TransactionRelay

-- What a network does, told by a journal: the probes that run and its own state, before and after. A probe is
-- answered as it starts, or runs until the network says that it completes, or until a race ends.
inductive Network.Plays {ω : Type} (net : Network ω) :
    List RelayRecord → ω → List SearchEntry → List RelayRecord → ω → Prop
  | rest (running world) : Plays net running world [] running world
  | noted {running world notice later running' world'} (rest : Plays net running world later running' world') :
      Plays net running world (.logged notice :: later) running' world'
  | begins {running world relay later running' world'} (silent : (net.start relay.url world).1 = none)
      (rest : Plays net (running ++ [relay]) (net.start relay.url world).2 later running' world') :
      Plays net running world (.started relay :: later) running' world'
  | answered {running world relay reply later running' world'}
      (atOnce : (net.start relay.url world).1 = some reply)
      (rest : Plays net running (net.start relay.url world).2 later running' world') :
      Plays net running world (.started relay :: .completed relay reply :: later) running' world'
  | completes {first others world place relay reply after later running' world'}
      (done : net.next first.url (others.map (·.url)) world = (place, reply, after))
      (whose : (first :: others)[place.val]? = some relay)
      (rest : Plays net ((first :: others).eraseIdx place.val) after later running' world') :
      Plays net (first :: others) world (.completed relay reply :: later) running' world'
  | ended {running world outcome later running' world'}
      (rest : Plays net [] (net.abandon world) later running' world') :
      Plays net running world (.raceEnded outcome :: later) running' world'

namespace Network.Plays

variable {ω : Type} {net : Network ω} {running middle last : List RelayRecord} {world between after : ω}
  {entries more early late : List SearchEntry} {relay : RelayRecord}
  {reply : Except SelectionFailure PingReply}

theorem append (first : net.Plays running world entries middle between)
    (second : net.Plays middle between more last after) :
    net.Plays running world (entries ++ more) last after := by
  induction first with
  | rest => exact second
  | noted _ ih => exact .noted (ih second)
  | begins silent _ ih => exact .begins silent (ih second)
  | answered atOnce _ ih => exact .answered atOnce (ih second)
  | completes done whose _ ih => exact .completes done whose (ih second)
  | ended _ ih => exact .ended (ih second)

-- Whoever is heard of was running, or has started before.
theorem begun (plays : net.Plays running world entries last after)
    (split : entries = early ++ .completed relay reply :: late) :
    relay ∈ running ∨ .started relay ∈ early := by
  induction plays generalizing early with
  | rest => simp at split
  | noted _ ih =>
    rcases List.cons_eq_append_iff.mp split with ⟨_, wrong⟩ | ⟨rest, rfl, same⟩
    · cases wrong
    · exact (ih same).imp_right (List.mem_cons_of_mem _)
  | begins silent _ ih =>
    rcases List.cons_eq_append_iff.mp split with ⟨_, wrong⟩ | ⟨rest, rfl, same⟩
    · cases wrong
    · rcases ih same with runs | started
      · rcases List.mem_append.mp runs with before | new
        · exact .inl before
        · rw [List.mem_singleton.mp new]
          exact .inr List.mem_cons_self
      · exact .inr (List.mem_cons_of_mem _ started)
  | answered atOnce _ ih =>
    rcases List.cons_eq_append_iff.mp split with ⟨_, wrong⟩ | ⟨rest, rfl, same⟩
    · cases wrong
    · -- An answer at once stands right behind the start of its probe.
      rcases List.cons_eq_append_iff.mp same with ⟨rfl, own⟩ | ⟨later, rfl, beyond⟩
      · cases own
        exact .inr List.mem_cons_self
      · exact (ih beyond).imp_right fun started => List.mem_cons_of_mem _ (List.mem_cons_of_mem _ started)
  | completes done whose _ ih =>
    rcases List.cons_eq_append_iff.mp split with ⟨_, own⟩ | ⟨rest, rfl, same⟩
    · cases own
      exact .inl (List.mem_of_getElem? whose)
    · rcases ih same with runs | started
      · exact .inl (List.mem_of_mem_eraseIdx runs)
      · exact .inr (List.mem_cons_of_mem _ started)
  | ended _ ih =>
    rcases List.cons_eq_append_iff.mp split with ⟨_, wrong⟩ | ⟨rest, rfl, same⟩
    · cases wrong
    · rcases ih same with runs | started
      · cases runs
      · exact .inr (List.mem_cons_of_mem _ started)

end Network.Plays

structure Track.Played {ω : Type} (net : Network ω) (running : List RelayRecord) (before : Track ω)
    (added : List SearchEntry) (running' : List RelayRecord) (after : Track ω) : Prop where
  journal : after.journal = before.journal ++ added
  plays : net.Plays running before.world added running' after.world

open Track (Played)

theorem Track.Played.trans {ω : Type} {net : Network ω} {running middle last : List RelayRecord}
    {first second third : Track ω} {added more : List SearchEntry}
    (one : Played net running first added middle second) (two : Played net middle second more last third) :
    Played net running first (added ++ more) last third :=
  ⟨by rw [two.journal, one.journal, List.append_assoc], one.plays.append two.plays⟩

section

variable {ω : Type} (net : Network ω)

theorem played_nothing (running : List RelayRecord) (t : Track ω) : Played net running t [] running t :=
  ⟨(List.append_nil _).symm, .rest _ _⟩

theorem noted_played (running : List RelayRecord) (t : Track ω) (notice : SearchNotice) :
    Played net running t [.logged notice] running (t.note [.logged notice]) :=
  ⟨rfl, .noted (.rest _ _)⟩

theorem begun_played (running : List RelayRecord) {relay : RelayRecord} {t : Track ω}
    (silent : (t.start net relay).1 = none) :
    Played net running t [.logged (.pinging relay.url), .started relay] (running ++ [relay])
      (t.start net relay).2 := by
  refine ⟨?_, .noted (.begins silent (.rest _ _))⟩
  rw [start_journal, silent]
  rfl

theorem answered_played (running : List RelayRecord) {relay : RelayRecord} {t : Track ω}
    {reply : Except SelectionFailure PingReply} (atOnce : (t.start net relay).1 = some reply) :
    Played net running t [.logged (.pinging relay.url), .started relay, .completed relay reply] running
      (t.start net relay).2 := by
  refine ⟨?_, .noted (.answered atOnce (.rest _ _))⟩
  rw [start_journal, atOnce]
  rfl

theorem next_played (first : RelayRecord) (others : List RelayRecord) (t : Track ω) :
    Played net (first :: others) t
      [.completed (t.next net first others).1 (t.next net first others).2.1]
      (t.next net first others).2.2.1 (t.next net first others).2.2.2 := by
  refine ⟨rfl, .completes rfl ?_ (.rest _ _)⟩
  rw [Track.next, List.getElem?_eq_getElem (Track.next_bound net first others t), Option.getD_some]

variable (filter : PingFilter) (request : RelayRequest)

theorem startAll_played (outcome : RaceOutcome) (running relays : List RelayRecord) (t : Track ω) :
    let result := Race.startAll net filter request outcome running relays t
    ∃ added, Played net running t added result.2.1 result.2.2 := by
  induction relays generalizing outcome running t with
  | nil => exact ⟨[], played_nothing net running t⟩
  | cons relay rest ih =>
    unfold Race.startAll
    cases answered : (t.start net relay).1 with
    | none =>
      simp only [answered, Option.map_none]
      obtain ⟨added, later⟩ := ih outcome (running ++ [relay]) (t.start net relay).2
      exact ⟨_, (begun_played net running answered).trans later⟩
    | some reply =>
      have heard := answered_played net running answered
      cases judged : judge filter request relay reply with
      | ok info =>
        simp only [answered, Option.map_some, judged]
        exact ⟨_, heard⟩
      | error failure =>
        simp only [answered, Option.map_some, judged]
        have told := noted_played net running (t.start net relay).2 (.failed relay.url failure)
        obtain ⟨added, later⟩ := ih (outcome.addError relay.url failure) running
          ((t.start net relay).2.note [.logged (.failed relay.url failure)])
        exact ⟨_, (heard.trans told).trans later⟩

theorem awaitAll_played (outcome : RaceOutcome) (running : List RelayRecord) (t : Track ω) :
    ∃ added left, Played net running t added left (Race.awaitAll net filter request outcome running t).2 := by
  fun_induction Race.awaitAll net filter request outcome running t with
  | case1 outcome t => exact ⟨[], [], played_nothing net [] t⟩
  | case2 outcome t first others relay reply left after done info judged =>
    have heard := next_played net first others t
    rw [done] at heard
    exact ⟨_, left, heard⟩
  | case3 outcome t first others relay reply left after done failure judged shorter ih =>
    have heard := next_played net first others t
    rw [done] at heard
    have told := noted_played net left after (.failed relay.url failure)
    obtain ⟨added, last, later⟩ := ih
    exact ⟨_, last, (heard.trans told).trans later⟩

theorem run_played (relays : List RelayRecord) (t : Track ω) :
    ∃ added, Played net [] t added [] (Race.run net filter request relays t).2 := by
  obtain ⟨added, started⟩ := startAll_played net filter request {} [] relays t
  have ends (running : List RelayRecord) (t : Track ω) (outcome : RaceOutcome) :
      Played net running t [.raceEnded outcome] [] ((t.abandon net).note [.raceEnded outcome]) :=
    ⟨rfl, .ended (.rest _ _)⟩
  unfold Race.run
  dsimp only
  split
  · exact ⟨_, started.trans (ends _ _ _)⟩
  · obtain ⟨more, left, heard⟩ := awaitAll_played net filter request
      (Race.startAll net filter request {} [] relays t).1
      (Race.startAll net filter request {} [] relays t).2.1
      (Race.startAll net filter request {} [] relays t).2.2
    exact ⟨_, (started.trans heard).trans (ends _ _ _)⟩

theorem selectFrom_played (s : Selector) (pool : TierPool) (t : Track ω) :
    ∃ added, Played net [] t added [] (s.selectFrom net pool t).2.2 := by
  fun_induction Selector.selectFrom net s pool t with
  | case1 pool t rest taken => exact ⟨_, noted_played net [] t .noneLeft⟩
  | case2 pool t first others rest taken raced fewer info winner =>
    obtain ⟨added, ran⟩ := run_played net s.filter s.request (first :: others) t
    exact ⟨_, ran.trans (noted_played net [] raced.2 (.selected info.relay.url))⟩
  | case3 pool t first others rest taken raced fewer winner ih =>
    obtain ⟨added, ran⟩ := run_played net s.filter s.request (first :: others) t
    obtain ⟨more, later⟩ := ih
    exact ⟨_, ran.trans later⟩

end

theorem RelayInfo.ofPing_eq (reply : PingReply) (relay : RelayRecord) :
    RelayInfo.ofPing reply relay = ⟨reply, { relay with
      manager := if relay.manager.getD "" = "" ∧ reply.manager ≠ "" then some reply.manager
        else relay.manager }⟩ := by
  unfold RelayInfo.ofPing
  by_cases unknown : relay.manager.getD "" = "" ∧ reply.manager ≠ ""
  · rw [if_pos unknown, if_pos (by simpa using unknown)]
  · rw [if_neg unknown, if_neg (by simpa using unknown)]

theorem PingFilter.gasPrice_ok {reply : PingReply} {request : RelayRequest} {offered : GasPrice}
    (passed : PingFilter.gasPrice reply request = .ok ()) (decided : request.gasPrice = some offered) :
    reply.minGasPrice ≤ offered := by
  unfold PingFilter.gasPrice at passed
  rw [decided] at passed
  dsimp only at passed
  split at passed
  · cases passed
  · next enough => exact BitVec.not_lt.mp enough

namespace SearchEntry

-- An entry gives a race no answer but its own.
theorem recount_heard {entry : SearchEntry} {races : List RaceRecord} {race : RaceRecord} {answer : Answer}
    (member : race ∈ recount entry races) (heard : answer ∈ race.heard) :
    entry = .completed answer.1 answer.2 ∨ ∃ before ∈ races, answer ∈ before.heard := by
  cases entry with
  | logged notice => exact .inr ⟨race, member, heard⟩
  | raceEnded outcome =>
    rcases List.mem_cons.mp member with rfl | later
    · cases heard
    · exact .inr ⟨race, later, heard⟩
  | started relay =>
    cases races with
    | nil => cases member
    | cons first others =>
      rcases List.mem_cons.mp member with rfl | later
      · exact .inr ⟨first, List.mem_cons_self, heard⟩
      · exact .inr ⟨race, List.mem_cons_of_mem _ later, heard⟩
  | completed relay reply =>
    cases races with
    | nil => cases member
    | cons first others =>
      rcases List.mem_cons.mp member with rfl | later
      · rcases List.mem_cons.mp heard with rfl | before
        · exact .inl rfl
        · exact .inr ⟨first, List.mem_cons_self, before⟩
      · exact .inr ⟨race, List.mem_cons_of_mem _ later, heard⟩

theorem heard_entered {journal : List SearchEntry} {race : RaceRecord} (member : race ∈ races journal)
    {answer : Answer} (heard : answer ∈ race.heard) : .completed answer.1 answer.2 ∈ journal := by
  induction journal generalizing race with
  | nil => cases member
  | cons entry rest ih =>
    rcases recount_heard member heard with rfl | ⟨before, told, earlier⟩
    · exact List.mem_cons_self
    · exact List.mem_cons_of_mem _ (ih told earlier)

end SearchEntry

def SearchMove.loads : SearchMove → Bool
  | .initialise _ => true
  | _ => false

namespace Search

variable {ω : Type} (net : Network ω)

def candidates (s : Search ω) : List RelayRecord := (s.selector.remaining.getD []).flatten

theorem candidates_ready {s : Search ω} {pool : TierPool} (ready : s.selector.pool = some pool) :
    s.candidates = pool.records.flatten := by
  rw [candidates, Selector.remaining, ready, Option.map_some, Option.getD_some]

theorem initialise_candidates {s : Search ω} {directory : RelayDirectory} {tiers : List (List RelayRecord)}
    (loaded : (s.initialise directory).1 = .ok ()) (offered : directory s.selector.request = .ok tiers) :
    (s.initialise directory).2.candidates = tiers.flatten := by
  obtain ⟨selector, _⟩ := initialise_loaded loaded offered
  rw [candidates_ready (by rw [selector]), TierPool.ofTiers_records]

theorem select_candidates (s : Search ω) : (s.select net).2.candidates ⊆ s.candidates := by
  cases ready : s.selector.pool with
  | none =>
    have same : (s.select net).2 = s := by rw [select, ready]
    rw [same]
    exact List.Subset.refl _
  | some pool =>
    obtain ⟨_, _, _, _, after, _, kept, _, _, selects⟩ := select_selects net s ready
    rw [candidates_ready ready, candidates_ready (by rw [kept])]
    exact selects.retires.left

theorem nextSlice_candidates (s : Search ω) : s.nextSlice.2.candidates = s.candidates := by
  unfold nextSlice
  split
  · rfl
  · next pool ready =>
    rw [candidates_ready ready, candidates_ready rfl, TierPool.nextSlice_records]

theorem handleRace_candidates (s : Search ω) (outcome : RaceOutcome) :
    (s.handleRace outcome).candidates ⊆ s.candidates := by
  cases ready : s.selector.pool with
  | none =>
    rw [handleRace, Selector.handleRace, ready, candidates, Selector.remaining]
    exact List.nil_subset _
  | some pool =>
    rw [candidates_ready ready, candidates_ready (by rw [handleRace, Selector.handleRace, ready]; rfl),
      TierPool.removeUrls_records, ← List.filter_flatten]
    exact List.filter_subset_self _

theorem moveAll_candidates {moves : List SearchMove} (stays : ∀ step ∈ moves, step.loads = false)
    (s : Search ω) : (s.moveAll net moves).candidates ⊆ s.candidates := by
  induction moves generalizing s with
  | nil => exact List.Subset.refl _
  | cons step rest ih =>
    obtain ⟨own, later⟩ := List.forall_mem_cons.mp stays
    refine List.Subset.trans (ih later (s.move net step)) ?_
    cases step with
    | initialise directory => cases own
    | select => exact select_candidates net s
    | nextSlice =>
      rw [move, nextSlice_candidates]
      exact List.Subset.refl _
    | ping relay => exact List.Subset.refl _
    | race relays => exact List.Subset.refl _
    | handleRace outcome => exact handleRace_candidates s outcome

end Search

theorem Selects.winner_heard {size filter request pool slices races after info}
    (selects : Selects size filter request pool slices races (some info) after) :
    ∃ race ∈ races, ∃ relay ∈ race.started, ∃ reply, (relay, reply) ∈ race.heard ∧
      judge filter request relay reply = .ok info := by
  obtain ⟨_, _, earlier, last, _, rfl, _, _, ⟨abandoned, heard⟩, early, relay, reply, answers, _, judged⟩ :=
    selects.last_won rfl
  have answered : (relay, reply) ∈ last.heard := by
    rw [answers]
    exact List.mem_append_right _ (List.mem_singleton_self _)
  have started : relay ∈ last.started :=
    heard.subset (List.mem_append_left _ (List.mem_map_of_mem answered))
  exact ⟨last, List.mem_append_right _ (List.mem_singleton_self _), relay, started, reply, answered, judged⟩

-- The reply was given in this call to a probe of the relay that is returned, as the network plays it, and is not mixed
-- up with another's. What the relay does after its reply is not said.
theorem returned_relay_is_usable {ω : Type} (net : Network ω) (directory : RelayDirectory) (origin : Search ω)
    (tiers : List (List RelayRecord)) (loaded : (origin.initialise directory).1 = .ok ())
    (offered : directory origin.selector.request = .ok tiers) (moves : List SearchMove)
    (stays : ∀ step ∈ moves, step.loads = false) :
    let s := (origin.initialise directory).2.moveAll net moves
    ∀ info, (s.select net).1 = .ok (some info) →
      ∃ relay added early middle late,
        relay ∈ tiers.flatten ∧ relay ∈ s.candidates ∧
        (s.select net).2.track.journal = s.track.journal ++ added ∧
        net.Plays [] s.track.world added [] (s.select net).2.track.world ∧
        added = early ++ .started relay :: (middle ++ .completed relay (.ok info.reply) :: late) ∧
        relay.url = info.relay.url ∧ info.reply.ready = true ∧
        s.selector.filter info.reply s.selector.request = .ok () ∧
        (s.selector.filter = PingFilter.gasPrice → ∀ price, s.selector.request.gasPrice = some price →
          info.reply.minGasPrice ≤ price) ∧
        info.relay = { relay with
          manager := if relay.manager.getD "" = "" ∧ info.reply.manager ≠ "" then some info.reply.manager
            else relay.manager } := by
  intro s info found
  cases ready : s.selector.pool with
  | none =>
    rw [Search.select, ready] at found
    cases found
  | some pool =>
    obtain ⟨chosen, added, slices, races, after, result, kept, journal, tells, selects⟩ :=
      select_selects net s ready
    have same : chosen = some info := Except.ok.inj (result.symm.trans found)
    rw [same] at selects
    obtain ⟨race, member, relay, probed, reply, heard, judged⟩ := selects.winner_heard
    have candidate : relay ∈ s.candidates := by
      rw [Search.candidates_ready ready]
      exact selects.retires.drawn race member probed
    have among : relay ∈ tiers.flatten := by
      rw [← Search.initialise_candidates loaded offered]
      exact Search.moveAll_candidates net stays _ candidate
    obtain ⟨more, played⟩ := selectFrom_played net s.selector pool s.track
    have selected : (s.select net).2.track = (s.selector.selectFrom net pool s.track).2.2 := by
      rw [Search.select, ready]
    rw [← selected] at played
    -- Both views of the call are of the same entries.
    obtain rfl : more = added := List.append_cancel_left (played.journal.symm.trans journal)
    have entered : .completed relay reply ∈ more := by
      rw [← tells.races] at member
      exact SearchEntry.heard_entered member heard
    obtain ⟨before, late, split⟩ := List.append_of_mem entered
    obtain ⟨early, middle, begun⟩ :=
      List.append_of_mem ((played.plays.begun split).resolve_left List.not_mem_nil)
    obtain ⟨answer, rfl, able, passed, rfl⟩ := judge_ok judged
    have reply : (RelayInfo.ofPing answer relay).reply = answer := by rw [RelayInfo.ofPing_eq]
    rw [reply]
    refine ⟨relay, more, early, middle, late, among, candidate, journal, played.plays, ?_, ?_, able, passed,
      ?_, ?_⟩
    · rw [split, begun, List.append_assoc]
      rfl
    · exact (RelayInfo.ofPing_url answer relay).symm
    · intro cheap price decided
      rw [cheap] at passed
      exact PingFilter.gasPrice_ok passed decided
    · rw [RelayInfo.ofPing_eq]

namespace Rehearsal

def unnamed : List (List RelayRecord) := [[.ofUrl "https://one", .ofUrl "https://two"]]

def quick : PingReply := { manager := "0xm2", minGasPrice := 3, ready := true }

def bidding : Search ScriptedNetwork where
  selector := { request := { gasPrice := some 5 }, filter := PingFilter.gasPrice }
  track := { world := { replies := [
    ("https://one", [{ result := .ok { manager := "0xm1", minGasPrice := 4, ready := true }, delayMillis := 20 }]),
    ("https://two", [{ result := .ok quick, delayMillis := 10 }])] } }

theorem quicker_relay_is_usable :
    let s := (bidding.initialise fun _ => .ok unnamed).2.moveAll ScriptedNetwork.network
      [.ping (.ofUrl "https://one")]
    (s.select ScriptedNetwork.network).1 =
        .ok (some ⟨quick, { url := "https://two", manager := some "0xm2" }⟩) ∧
      ∃ relay ∈ unnamed.flatten, relay.url = "https://two" ∧ quick.minGasPrice ≤ 5 ∧
        .completed relay (.ok quick) ∈ (s.select ScriptedNetwork.network).2.track.journal := by
  intro s
  have found : (s.select ScriptedNetwork.network).1 =
      .ok (some ⟨quick, { url := "https://two", manager := some "0xm2" }⟩) := by decide +kernel
  obtain ⟨relay, added, early, middle, late, among, _, journal, _, split, url, _, _, cheap, _⟩ :=
    returned_relay_is_usable ScriptedNetwork.network (fun _ => .ok unnamed) bidding unnamed rfl rfl
      [.ping (.ofUrl "https://one")] (by simp [SearchMove.loads]) _ found
  refine ⟨found, relay, among, url, cheap rfl 5 rfl, ?_⟩
  rw [journal, split]
  simp

end Rehearsal
end TransactionRelay
