import Mathlib.Data.List.Perm.Basic
import TransactionRelay.Selection.Race

namespace TransactionRelay

abbrev Answer := RelayRecord × Except SelectionFailure PingReply

structure RaceRecord where
  started : List RelayRecord := []
  heard : List Answer := []
  outcome : RaceOutcome := {}

namespace SearchEntry

def started? : SearchEntry → Option RelayRecord
  | .started relay => some relay
  | _ => none

def answer? : SearchEntry → Option Answer
  | .completed relay reply => some (relay, reply)
  | _ => none

def inRace : SearchEntry → Bool
  | .raceEnded _ => false
  | _ => true

-- An outcome opens the account of its race; the probes and answers before it belong to that race.
def recount : SearchEntry → List RaceRecord → List RaceRecord
  | .raceEnded outcome, races => { outcome } :: races
  | .started relay, race :: races => { race with started := relay :: race.started } :: races
  | .completed relay reply, race :: races => { race with heard := (relay, reply) :: race.heard } :: races
  | _, races => races

def races (journal : List SearchEntry) : List RaceRecord := journal.foldr recount []

-- The entries tell of these races, leave those that follow alone, and no probe is outside of a race.
structure Tells (entries : List SearchEntry) (races : List RaceRecord) : Prop where
  recounted : ∀ later, entries.foldr recount later = races ++ later
  probes : entries.filterMap started? = races.flatMap (·.started)

theorem Tells.races {entries races} (tells : Tells entries races) : SearchEntry.races entries = races := by
  rw [SearchEntry.races, tells.recounted [], List.append_nil]

theorem Tells.append {first second earlier later} (one : Tells first earlier) (two : Tells second later) :
    Tells (first ++ second) (earlier ++ later) := by
  constructor
  · intro rest
    rw [List.foldr_append, two.recounted rest, one.recounted (later ++ rest), List.append_assoc]
  · rw [List.filterMap_append, List.flatMap_append, one.probes, two.probes]

theorem tells_nil : Tells [] [] := ⟨fun _ => rfl, rfl⟩

theorem tells_logged (notice : SearchNotice) : Tells [.logged notice] [] := ⟨fun _ => rfl, rfl⟩

theorem recount_inRace {entries : List SearchEntry} (inside : ∀ entry ∈ entries, entry.inRace = true)
    (race : RaceRecord) (races : List RaceRecord) : entries.foldr recount (race :: races) =
      ⟨entries.filterMap started? ++ race.started, entries.filterMap answer? ++ race.heard, race.outcome⟩ ::
        races := by
  induction entries with
  | nil => rfl
  | cons entry rest ih =>
    rw [List.foldr_cons, ih fun other member => inside other (List.mem_cons_of_mem _ member)]
    cases entry with
    | logged notice => rfl
    | started relay => rfl
    | completed relay reply => rfl
    | raceEnded outcome => cases inside (.raceEnded outcome) (by simp)

theorem tells_race {entries : List SearchEntry} (inside : ∀ entry ∈ entries, entry.inRace = true)
    (outcome : RaceOutcome) : Tells (entries ++ [.raceEnded outcome])
      [⟨entries.filterMap started?, entries.filterMap answer?, outcome⟩] := by
  constructor
  · intro later
    rw [List.foldr_append, List.foldr_cons, List.foldr_nil, recount, recount_inRace inside]
    simp
  · simp [started?]

end SearchEntry

section

variable (filter : PingFilter) (request : RelayRequest)

def Fails (answer : Answer) : Prop := ∃ failure, judge filter request answer.1 answer.2 = .error failure

-- The outcome of a race before and after some answers.
inductive Decides : RaceOutcome → List Answer → RaceOutcome → Prop
  | nil (outcome) : Decides outcome [] outcome
  | lost {relay reply failure outcome heard after} (judged : judge filter request relay reply = .error failure)
      (later : Decides (outcome.addError relay.url failure) heard after) :
      Decides outcome ((relay, reply) :: heard) after
  | won {relay reply info outcome} (judged : judge filter request relay reply = .ok info) :
      Decides outcome [(relay, reply)] { outcome with winner := some info }

end

theorem RelayInfo.ofPing_url (reply : PingReply) (relay : RelayRecord) :
    (RelayInfo.ofPing reply relay).relay.url = relay.url := by
  unfold RelayInfo.ofPing
  split
  · rfl
  · rfl

theorem judge_ok {filter request relay reply info} (judged : judge filter request relay reply = .ok info) :
    ∃ answer, reply = .ok answer ∧ answer.ready = true ∧ filter answer request = .ok () ∧
      info = RelayInfo.ofPing answer relay := by
  unfold judge at judged
  split at judged
  · cases judged
  · next answer =>
    split at judged
    · cases judged
    · next unready =>
      split at judged
      · cases judged
      · next passed =>
        obtain rfl := Except.ok.inj judged
        exact ⟨answer, rfl, by simpa using unready, passed, rfl⟩

theorem judge_url {filter request relay reply info} (judged : judge filter request relay reply = .ok info) :
    info.relay.url = relay.url := by
  obtain ⟨answer, _, _, _, rfl⟩ := judge_ok judged
  exact RelayInfo.ofPing_url answer relay

namespace Decides

variable {filter : PingFilter} {request : RelayRequest} {before middle after : RaceOutcome}
  {heard more : List Answer}

theorem append (first : Decides filter request before heard middle) (undecided : middle.winner = none)
    (second : Decides filter request middle more after) :
    Decides filter request before (heard ++ more) after := by
  induction first with
  | nil outcome => exact second
  | lost judged _ ih => exact .lost judged (ih undecided second)
  | won judged => cases undecided

theorem all_fail (decides : Decides filter request before heard after) (undecided : after.winner = none) :
    ∀ answer ∈ heard, Fails filter request answer := by
  induction decides with
  | nil outcome => simp
  | lost judged _ ih =>
    intro answer member
    rcases List.mem_cons.mp member with rfl | later
    · exact ⟨_, judged⟩
    · exact ih undecided answer later
  | won judged => cases undecided

-- The winner is the first of the relays heard of that can be used, and the last one heard of.
theorem first_success (decides : Decides filter request before heard after) (fresh : before.winner = none)
    {info : RelayInfo} (decided : after.winner = some info) :
    ∃ early relay reply, heard = early ++ [(relay, reply)] ∧
      (∀ answer ∈ early, Fails filter request answer) ∧ judge filter request relay reply = .ok info := by
  induction decides with
  | nil outcome => rw [fresh] at decided; cases decided
  | @lost relay reply failure outcome heard after judged _ ih =>
    obtain ⟨early, winner, last, rfl, failed, won⟩ := ih fresh decided
    refine ⟨(relay, reply) :: early, winner, last, rfl, ?_, won⟩
    intro answer member
    rcases List.mem_cons.mp member with rfl | later
    · exact ⟨failure, judged⟩
    · exact failed answer later
  | @won relay reply info outcome judged =>
    obtain rfl := Option.some.inj decided
    exact ⟨[], relay, reply, rfl, by simp, judged⟩

theorem urls (decides : Decides filter request before heard after) (fresh : before.winner = none)
    (url : String) : url ∈ after.urls ↔ url ∈ before.urls ∨ url ∈ heard.map (·.1.url) := by
  induction decides with
  | nil outcome => simp
  | @lost relay reply failure outcome heard after judged _ ih =>
    rw [ih fresh, List.map_cons, List.mem_cons, ← or_assoc]
    apply or_congr_left
    have undecided : outcome.winner = none := fresh
    by_cases same : url = relay.url
    · simp [RaceOutcome.urls, RaceOutcome.addError, undecided, same]
    · simp [RaceOutcome.urls, RaceOutcome.addError, undecided, same]
  | @won relay reply info outcome judged =>
    have undecided : outcome.winner = none := fresh
    simp [RaceOutcome.urls, undecided, judge_url judged, eq_comm]

end Decides

structure Stretch {ω : Type} (filter : PingFilter) (request : RelayRequest) (before : Track ω)
    (outcome : RaceOutcome) (added : List SearchEntry) (after : Track ω) (outcome' : RaceOutcome) : Prop where
  journal : after.journal = before.journal ++ added
  inRace : ∀ entry ∈ added, entry.inRace = true
  decides : Decides filter request outcome (added.filterMap SearchEntry.answer?) outcome'

namespace Stretch

variable {ω : Type} {filter : PingFilter} {request : RelayRequest}

theorem refl (t : Track ω) (outcome : RaceOutcome) : Stretch filter request t outcome [] t outcome :=
  ⟨(List.append_nil _).symm, by simp, .nil outcome⟩

theorem trans {first second third : Track ω} {one two three : RaceOutcome} {added more : List SearchEntry}
    (start : Stretch filter request first one added second two) (undecided : two.winner = none)
    (rest : Stretch filter request second two more third three) :
    Stretch filter request first one (added ++ more) third three := by
  refine ⟨?_, ?_, ?_⟩
  · rw [rest.journal, start.journal, List.append_assoc]
  · intro entry member
    rcases List.mem_append.mp member with here | later
    · exact start.inRace entry here
    · exact rest.inRace entry later
  · rw [List.filterMap_append]
    exact start.decides.append undecided rest.decides

end Stretch

section

variable {ω : Type} (net : Network ω) (filter : PingFilter) (request : RelayRequest)

theorem Track.next_bound (first : RelayRecord) (others : List RelayRecord) (t : Track ω) :
    (net.next first.url (others.map (·.url)) t.world).1.val < (first :: others).length := by
  have inside := (net.next first.url (others.map (·.url)) t.world).1.isLt
  simpa using inside

theorem Track.next_perm (first : RelayRecord) (others : List RelayRecord) (t : Track ω) :
    ((t.next net first others).1 :: (t.next net first others).2.2.1).Perm (first :: others) := by
  have bound := Track.next_bound net first others t
  rw [Track.next]
  dsimp only
  rw [List.getElem?_eq_getElem bound, Option.getD_some]
  exact List.getElem_cons_eraseIdx_perm bound

theorem start_journal (relay : RelayRecord) (t : Track ω) :
    (t.start net relay).2.journal = t.journal ++ ([.logged (.pinging relay.url), .started relay] ++
      (t.start net relay).1.toList.map (SearchEntry.completed relay)) := rfl

theorem start_running {relay : RelayRecord} {t : Track ω} (outcome : RaceOutcome)
    (answered : (t.start net relay).1 = none) :
    Stretch filter request t outcome [.logged (.pinging relay.url), .started relay] (t.start net relay).2
      outcome := by
  refine ⟨?_, by simp [SearchEntry.inRace], .nil outcome⟩
  rw [start_journal, answered]
  rfl

theorem start_lost {relay : RelayRecord} {t : Track ω} (outcome : RaceOutcome)
    {reply : Except SelectionFailure PingReply} {failure : SelectionFailure}
    (answered : (t.start net relay).1 = some reply)
    (judged : judge filter request relay reply = .error failure) :
    Stretch filter request t outcome
      [.logged (.pinging relay.url), .started relay, .completed relay reply,
        .logged (.failed relay.url failure)]
      ((t.start net relay).2.note [.logged (.failed relay.url failure)])
      (outcome.addError relay.url failure) := by
  refine ⟨?_, by simp [SearchEntry.inRace], .lost judged (.nil _)⟩
  rw [Track.note]
  dsimp only
  rw [start_journal, answered, List.append_assoc]
  rfl

theorem start_won {relay : RelayRecord} {t : Track ω} (outcome : RaceOutcome)
    {reply : Except SelectionFailure PingReply} {info : RelayInfo}
    (answered : (t.start net relay).1 = some reply) (judged : judge filter request relay reply = .ok info) :
    Stretch filter request t outcome
      [.logged (.pinging relay.url), .started relay, .completed relay reply] (t.start net relay).2
      { outcome with winner := some info } := by
  refine ⟨?_, by simp [SearchEntry.inRace], .won judged⟩
  rw [start_journal, answered]
  rfl

theorem startAll_stretch (outcome : RaceOutcome) (running relays : List RelayRecord) (t : Track ω)
    (undecided : outcome.winner = none) :
    let result := Race.startAll net filter request outcome running relays t
    ∃ added, Stretch filter request t outcome added result.2.2 result.1 ∧
      added.filterMap SearchEntry.started? <+: relays ∧
      ((added.filterMap SearchEntry.answer?).map Prod.fst ++ result.2.1).Perm
        (running ++ added.filterMap SearchEntry.started?) ∧
      (result.1.winner = none → added.filterMap SearchEntry.started? = relays) := by
  induction relays generalizing outcome running t with
  | nil => exact ⟨[], .refl t outcome, List.prefix_refl _, by simp [Race.startAll], fun _ => rfl⟩
  | cons relay rest ih =>
    unfold Race.startAll
    cases answered : (t.start net relay).1 with
    | none =>
      obtain ⟨added, stretch, started, heard, all⟩ :=
        ih outcome (running ++ [relay]) (t.start net relay).2 undecided
      simp only [answered, Option.map_none]
      refine ⟨_, (start_running net filter request outcome answered).trans undecided stretch, ?_, ?_, ?_⟩
      · exact List.cons_prefix_cons.mpr ⟨rfl, started⟩
      · rw [List.append_assoc] at heard
        exact heard
      · intro lost
        exact congrArg (relay :: ·) (all lost)
    | some reply =>
      cases judged : judge filter request relay reply with
      | ok info =>
        simp only [answered, Option.map_some, judged]
        refine ⟨_, start_won net filter request outcome answered judged, ?_, ?_, ?_⟩
        · exact List.cons_prefix_cons.mpr ⟨rfl, List.nil_prefix⟩
        · exact (List.perm_append_singleton relay running).symm
        · intro lost
          cases lost
      | error failure =>
        have still : (outcome.addError relay.url failure).winner = none := undecided
        obtain ⟨added, stretch, started, heard, all⟩ := ih (outcome.addError relay.url failure) running
          ((t.start net relay).2.note [.logged (.failed relay.url failure)]) still
        simp only [answered, Option.map_some, judged]
        refine ⟨_, (start_lost net filter request outcome answered judged).trans still stretch, ?_, ?_, ?_⟩
        · exact List.cons_prefix_cons.mpr ⟨rfl, started⟩
        · exact (heard.cons relay).trans List.perm_middle.symm
        · intro lost
          exact congrArg (relay :: ·) (all lost)

theorem next_journal (first : RelayRecord) (others : List RelayRecord) (t : Track ω) :
    (t.next net first others).2.2.2.journal =
      t.journal ++ [.completed (t.next net first others).1 (t.next net first others).2.1] := rfl

theorem awaitAll_stretch (outcome : RaceOutcome) (running : List RelayRecord) (t : Track ω)
    (undecided : outcome.winner = none) :
    let result := Race.awaitAll net filter request outcome running t
    ∃ added abandoned, Stretch filter request t outcome added result.2 result.1 ∧
      added.filterMap SearchEntry.started? = [] ∧
      ((added.filterMap SearchEntry.answer?).map Prod.fst ++ abandoned).Perm running ∧
      (result.1.winner = none → abandoned = []) := by
  fun_induction Race.awaitAll net filter request outcome running t with
  | case1 outcome t => exact ⟨[], [], .refl t outcome, rfl, List.Perm.refl _, fun _ => rfl⟩
  | case2 outcome t first others relay reply left after done info judged =>
    have noted := next_journal net first others t
    have among := Track.next_perm net first others t
    rw [done] at noted among
    have last : Stretch filter request t outcome [.completed relay reply] after
        { outcome with winner := some info } := ⟨noted, by simp [SearchEntry.inRace], .won judged⟩
    refine ⟨[.completed relay reply], left, last, rfl, among, ?_⟩
    intro lost
    cases lost
  | case3 outcome t first others relay reply left after done failure judged shorter ih =>
    have noted := next_journal net first others t
    have among := Track.next_perm net first others t
    rw [done] at noted among
    have still : (outcome.addError relay.url failure).winner = none := undecided
    have one : Stretch filter request t outcome
        [.completed relay reply, .logged (.failed relay.url failure)]
        (after.note [.logged (.failed relay.url failure)]) (outcome.addError relay.url failure) := by
      refine ⟨?_, by simp [SearchEntry.inRace], .lost judged (.nil _)⟩
      rw [Track.note]
      dsimp only at noted ⊢
      rw [noted, List.append_assoc]
      rfl
    obtain ⟨added, abandoned, stretch, started, heard, all⟩ := ih still
    exact ⟨_, abandoned, one.trans still stretch, started, (heard.cons relay).trans among, all⟩

end

-- A race over some relays. The probes heard of are among those that started; if nobody wins, all were
-- started and heard of.
structure Raced (filter : PingFilter) (request : RelayRequest) (relays : List RelayRecord)
    (race : RaceRecord) : Prop where
  started : race.started <+: relays
  heard : ∃ abandoned, (race.heard.map Prod.fst ++ abandoned).Perm race.started ∧
    (race.outcome.winner = none → abandoned = [])
  judged : Decides filter request {} race.heard race.outcome
  all : race.outcome.winner = none → race.started = relays

theorem run_stretch {ω : Type} (net : Network ω) (filter : PingFilter) (request : RelayRequest)
    (relays : List RelayRecord) (t : Track ω) :
    ∃ added ended, Stretch filter request t {} added ended (Race.run net filter request relays t).1 ∧
      (Race.run net filter request relays t).2 =
        (ended.abandon net).note [.raceEnded (Race.run net filter request relays t).1] ∧
      Raced filter request relays ⟨added.filterMap SearchEntry.started?, added.filterMap SearchEntry.answer?,
        (Race.run net filter request relays t).1⟩ := by
  obtain ⟨added, stretch, started, heard, all⟩ := startAll_stretch net filter request {} [] relays t rfl
  rw [List.nil_append] at heard
  unfold Race.run
  dsimp only
  cases decided : (Race.startAll net filter request {} [] relays t).1.winner with
  | some info =>
    rw [if_pos (by rw [Option.isSome_some])]
    refine ⟨added, _, stretch, rfl, started, ⟨_, heard, ?_⟩, stretch.decides, all⟩
    intro lost
    dsimp only at lost
    rw [decided] at lost
    cases lost
  | none =>
    rw [if_neg (by rw [Option.isSome_none]; exact Bool.false_ne_true)]
    obtain ⟨more, abandoned, rest, none_started, heard_later, all_heard⟩ :=
      awaitAll_stretch net filter request _ (Race.startAll net filter request {} [] relays t).2.1
        (Race.startAll net filter request {} [] relays t).2.2 decided
    have whole := stretch.trans decided rest
    refine ⟨added ++ more, _, whole, rfl, ?_, ⟨abandoned, ?_, all_heard⟩, whole.decides, ?_⟩
    · rw [List.filterMap_append, none_started, List.append_nil]
      exact started
    · dsimp only
      rw [List.filterMap_append, List.filterMap_append, none_started, List.append_nil, List.map_append,
        List.append_assoc]
      exact (heard_later.append_left _).trans heard
    · intro _
      dsimp only
      rw [List.filterMap_append, none_started, List.append_nil]
      exact all decided

theorem run_raced {ω : Type} (net : Network ω) (filter : PingFilter) (request : RelayRequest)
    (relays : List RelayRecord) (t : Track ω) :
    ∃ added race, (Race.run net filter request relays t).2.journal = t.journal ++ added ∧
      SearchEntry.Tells added [race] ∧ race.outcome = (Race.run net filter request relays t).1 ∧
      Raced filter request relays race := by
  obtain ⟨added, ended, stretch, last, raced⟩ := run_stretch net filter request relays t
  refine ⟨added ++ [.raceEnded _], _, ?_, SearchEntry.tells_race stretch.inRace _, rfl, raced⟩
  rw [last, Track.note, Track.abandon]
  dsimp only
  rw [stretch.journal, List.append_assoc]

namespace RaceRecord

def decided (race : RaceRecord) : List String := race.heard.map (·.1.url)

structure Lost (filter : PingFilter) (request : RelayRequest) (slice : List RelayRecord)
    (race : RaceRecord) : Prop where
  started : race.started = slice
  heard : (race.heard.map Prod.fst).Perm slice
  failed : ∀ answer ∈ race.heard, Fails filter request answer

structure WonBy (filter : PingFilter) (request : RelayRequest) (slice : List RelayRecord)
    (race : RaceRecord) (info : RelayInfo) : Prop where
  started : race.started <+: slice
  heard : ∃ abandoned, (race.heard.map Prod.fst ++ abandoned).Perm race.started
  first : ∃ early relay reply, race.heard = early ++ [(relay, reply)] ∧
    (∀ answer ∈ early, Fails filter request answer) ∧ judge filter request relay reply = .ok info

end RaceRecord

namespace Raced

variable {filter : PingFilter} {request : RelayRequest} {slice : List RelayRecord} {race : RaceRecord}

theorem lost (raced : Raced filter request slice race) (undecided : race.outcome.winner = none) :
    race.Lost filter request slice := by
  obtain ⟨abandoned, heard, all⟩ := raced.heard
  rw [all undecided, List.append_nil, raced.all undecided] at heard
  exact ⟨raced.all undecided, heard, raced.judged.all_fail undecided⟩

theorem won (raced : Raced filter request slice race) {info : RelayInfo}
    (decided : race.outcome.winner = some info) : race.WonBy filter request slice info := by
  obtain ⟨abandoned, heard, _⟩ := raced.heard
  exact ⟨raced.started, ⟨abandoned, heard⟩, raced.judged.first_success rfl decided⟩

theorem urls (raced : Raced filter request slice race) (url : String) :
    url ∈ race.outcome.urls ↔ url ∈ race.decided := by
  rw [raced.judged.urls rfl url, RaceRecord.decided]
  simp [RaceOutcome.urls]

end Raced
end TransactionRelay
