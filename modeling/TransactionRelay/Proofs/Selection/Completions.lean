import TransactionRelay.Proofs.Selection.Racing
import TransactionRelay.Rehearsal.Network

namespace TransactionRelay

abbrev Completion := String × Except SelectionFailure RelayInfo

def Answer.judged (filter : PingFilter) (request : RelayRequest) (answer : Answer) : Completion :=
  (answer.1.url, judge filter request answer.1 answer.2)

def Completion.failure? (url : String) : Completion → Option SelectionFailure
  | (_, .ok _) => none
  | (other, .error failure) => if other = url then some failure else none

-- The errors are a map from the urls of these failed probes to the latest failure of each.
structure Charts (errors : List (String × SelectionFailure)) (failed : List Completion) : Prop where
  distinct : (errors.map Prod.fst).Nodup
  urls : ∀ url, url ∈ errors.map Prod.fst ↔ url ∈ failed.map Prod.fst
  latest : ∀ url, errors.lookup url = (failed.filterMap (Completion.failure? url)).getLast?

section

variable {errors : List (String × SelectionFailure)} {url other : String}

theorem addError_urls (outcome : RaceOutcome) (failure : SelectionFailure) :
    (outcome.addError url failure).errors.map Prod.fst =
      (outcome.errors.map Prod.fst).filter (· != url) ++ [url] := by
  rw [RaceOutcome.addError, List.map_append, List.filter_map]
  rfl

theorem lookup_others (apart : other ≠ url) :
    (errors.filter (·.1 != url)).lookup other = errors.lookup other := by
  induction errors with
  | nil => rfl
  | cons entry rest ih =>
    obtain ⟨name, failure⟩ := entry
    by_cases same : name = url
    · have passed : (other == name) = false := beq_eq_false_iff_ne.mpr (same ▸ apart)
      rw [List.filter_cons_of_neg (by simpa using same), ih, List.lookup_cons, passed]
    · rw [List.filter_cons_of_pos (by simpa using same), List.lookup_cons, List.lookup_cons, ih]

theorem lookup_removed : (errors.filter (·.1 != url)).lookup url = none := by
  refine List.lookup_eq_none_iff.mpr fun entry member => ?_
  have kept := (List.mem_filter.mp member).2
  rwa [bne_comm] at kept

end

namespace RaceOutcome

variable {outcome : RaceOutcome} {failed early common late : List Completion}

theorem addError_charts (charts : Charts outcome.errors failed) (url : String) (failure : SelectionFailure) :
    Charts (outcome.addError url failure).errors (failed ++ [(url, .error failure)]) where
  distinct := by
    rw [addError_urls, List.nodup_append]
    refine ⟨charts.distinct.filter _, by simp, ?_⟩
    intro other kept last same
    simp_all
  urls := by
    intro other
    rw [addError_urls, List.map_append, List.mem_append, List.mem_append, List.mem_filter, charts.urls]
    by_cases same : other = url
    · simp [same]
    · simp [same]
  latest := by
    intro other
    rw [RaceOutcome.addError, List.lookup_append, List.filterMap_append, List.getLast?_append]
    by_cases same : other = url
    · rw [same, lookup_removed]
      simp [Completion.failure?]
    · have unseen : [(url, failure)].lookup other = none := by
        rw [List.lookup_cons, beq_eq_false_iff_ne.mpr same]
        rfl
      rw [lookup_others same, charts.latest, unseen]
      simp [Completion.failure?, Ne.symm same]

theorem ofCompletions_failed (charts : Charts outcome.errors failed)
    (lost : ∀ completion ∈ early, completion.2.isOk = false) :
    ∃ after : RaceOutcome, after.winner = outcome.winner ∧ Charts after.errors (failed ++ early) ∧
      ∀ rest, outcome.ofCompletions (early ++ rest) = after.ofCompletions rest := by
  induction early generalizing outcome failed with
  | nil => exact ⟨outcome, rfl, by simpa using charts, fun _ => rfl⟩
  | cons completion others ih =>
    obtain ⟨url, result⟩ := completion
    cases result with
    | ok info => cases lost (url, .ok info) (by simp)
    | error failure =>
      obtain ⟨after, winner, charted, same⟩ := ih (addError_charts charts url failure) fun other member =>
        lost other (List.mem_cons_of_mem _ member)
      rw [List.append_assoc] at charted
      exact ⟨after, winner, charted, same⟩

theorem charts_nothing : Charts ({} : RaceOutcome).errors [] := ⟨by simp, by simp, by simp⟩

theorem ofCompletions_lost (lost : ∀ completion ∈ early, completion.2.isOk = false) :
    (ofCompletions {} early).winner = none ∧ Charts (ofCompletions {} early).errors early := by
  obtain ⟨after, winner, charted, same⟩ := ofCompletions_failed charts_nothing lost
  have whole := same []
  rw [List.append_nil] at whole
  rw [whole]
  exact ⟨winner, charted⟩

theorem ofCompletions_won (lost : ∀ completion ∈ early, completion.2.isOk = false) (url : String)
    (info : RelayInfo) :
    let decided := ofCompletions {} (early ++ (url, .ok info) :: late)
    decided.winner = some info ∧ Charts decided.errors early := by
  obtain ⟨after, winner, charted, same⟩ := ofCompletions_failed charts_nothing lost
  rw [same]
  exact ⟨rfl, charted⟩

theorem split_at_success (won : ∃ completion ∈ early, completion.2.isOk = true) :
    ∃ lost url info rest, early = lost ++ (url, .ok info) :: rest ∧
      ∀ completion ∈ lost, completion.2.isOk = false := by
  have found := List.find?_isSome.mpr won
  obtain ⟨⟨url, result⟩, first⟩ := Option.isSome_iff_exists.mp found
  obtain ⟨ok, lost, rest, split, before⟩ := List.find?_eq_some_iff_append.mp first
  cases result with
  | error failure => cases ok
  | ok info => exact ⟨lost, url, info, rest, split, fun other member => by simpa using before other member⟩

-- What comes after a success does not count.
theorem ofCompletions_settled (settled : ∃ completion ∈ common, completion.2.isOk = true) :
    outcome.ofCompletions (common ++ late) = outcome.ofCompletions common := by
  induction common generalizing outcome with
  | nil =>
    obtain ⟨_, none, _⟩ := settled
    cases none
  | cons completion others ih =>
    obtain ⟨url, result⟩ := completion
    cases result with
    | ok info => rfl
    | error failure =>
      obtain ⟨winner, member, ok⟩ := settled
      rcases List.mem_cons.mp member with rfl | later
      · cases ok
      · exact ih ⟨winner, later, ok⟩

end RaceOutcome

namespace Race

variable {ω : Type} (net : Network ω)

def startOut (running : List RelayRecord) : List RelayRecord → ω → List Answer × List RelayRecord × ω
  | [], world => ([], running, world)
  | relay :: rest, world =>
    match net.start relay.url world with
    | (none, after) => startOut (running ++ [relay]) rest after
    | (some reply, after) =>
      let later := startOut running rest after
      ((relay, reply) :: later.1, later.2)

def awaitOut (running : List RelayRecord) (world : ω) : List Answer :=
  match running with
  | [] => []
  | first :: others =>
    let done := net.next first.url (others.map (·.url)) world
    ((first :: others)[done.1.val]?.getD first, done.2.1) ::
      awaitOut ((first :: others).eraseIdx done.1.val) done.2.2
termination_by running.length
decreasing_by
  have inside : done.1.val < (first :: others).length := by simpa using done.1.isLt
  rw [List.length_eraseIdx_of_lt inside]
  simp

-- The order in which the probes of a slice would complete if the race never ended before.
def completions (relays : List RelayRecord) (world : ω) : List Answer :=
  let started := startOut net [] relays world
  started.1 ++ awaitOut net started.2.1 started.2.2

theorem startOut_perm (running relays : List RelayRecord) (world : ω) :
    let started := startOut net running relays world
    (started.1.map Prod.fst ++ started.2.1).Perm (running ++ relays) := by
  induction relays generalizing running world with
  | nil => simp [startOut]
  | cons relay rest ih =>
    unfold startOut
    cases begun : net.start relay.url world with
    | mk answered after =>
      cases answered with
      | none =>
        have later := ih (running ++ [relay]) after
        rwa [List.append_assoc] at later
      | some reply => exact ((ih running after).cons relay).trans List.perm_middle.symm

theorem awaitOut_perm (running : List RelayRecord) (world : ω) :
    ((awaitOut net running world).map Prod.fst).Perm running := by
  fun_induction awaitOut net running world with
  | case1 world => exact List.Perm.refl _
  | case2 world first others done ih =>
    exact (ih.cons _).trans (Track.next_perm net first others ⟨world, []⟩)

theorem completions_perm (relays : List RelayRecord) (world : ω) :
    ((completions net relays world).map Prod.fst).Perm relays := by
  have started := startOut_perm net [] relays world
  rw [completions, List.map_append]
  exact ((awaitOut_perm net _ _).append_left _).trans started

variable (filter : PingFilter) (request : RelayRequest)

theorem awaitAll_completions (outcome : RaceOutcome) (running : List RelayRecord) (t : Track ω) :
    (awaitAll net filter request outcome running t).1 =
      outcome.ofCompletions ((awaitOut net running t.world).map (Answer.judged filter request)) := by
  fun_induction awaitAll net filter request outcome running t with
  | case1 outcome t => simp [awaitOut, RaceOutcome.ofCompletions]
  | case2 outcome t first others relay reply left after done info judged =>
    rw [Track.next] at done
    obtain ⟨rfl, rfl, rfl, rfl⟩ := by simpa only [Prod.mk.injEq] using done
    rw [awaitOut, List.map_cons, Answer.judged, judged]
    rfl
  | case3 outcome t first others relay reply left after done failure judged shorter ih =>
    rw [Track.next] at done
    obtain ⟨rfl, rfl, rfl, rfl⟩ := by simpa only [Prod.mk.injEq] using done
    rw [ih, awaitOut, List.map_cons, Answer.judged, judged]
    rfl

theorem startAll_completions (outcome : RaceOutcome) (running relays : List RelayRecord) (t : Track ω)
    (undecided : outcome.winner = none) :
    let started := startAll net filter request outcome running relays t
    let whole := startOut net running relays t.world
    (if started.1.winner.isSome then (started.1, started.2.2)
      else awaitAll net filter request started.1 started.2.1 started.2.2).1 =
      outcome.ofCompletions
        ((whole.1 ++ awaitOut net whole.2.1 whole.2.2).map (Answer.judged filter request)) := by
  induction relays generalizing outcome running t with
  | nil =>
    simp only [startAll, startOut, undecided, List.nil_append]
    exact awaitAll_completions net filter request outcome running t
  | cons relay rest ih =>
    have world : (t.start net relay).2.world = (net.start relay.url t.world).2 := rfl
    have answered : (t.start net relay).1 = (net.start relay.url t.world).1 := rfl
    unfold startAll startOut
    cases begun : net.start relay.url t.world with
    | mk answer after =>
      rw [begun] at world answered
      cases answer with
      | none =>
        simp only [answered, Option.map_none]
        have later := ih outcome (running ++ [relay]) (t.start net relay).2 undecided
        rwa [world] at later
      | some reply =>
        cases judged : judge filter request relay reply with
        | ok info =>
          simp only [answered, Option.map_some, judged]
          simp [Answer.judged, judged, RaceOutcome.ofCompletions]
        | error failure =>
          simp only [answered, Option.map_some, judged]
          -- The log line changes the track, and nothing that the network sees.
          have noted : ((t.start net relay).2.note [.logged (.failed relay.url failure)]).world = after := world
          have later := ih (outcome.addError relay.url failure) running
            ((t.start net relay).2.note [.logged (.failed relay.url failure)]) undecided
          rw [List.cons_append, List.map_cons, Answer.judged, judged]
          rwa [noted] at later

theorem run_completions (relays : List RelayRecord) (t : Track ω) :
    (run net filter request relays t).1 =
      RaceOutcome.ofCompletions {} ((completions net relays t.world).map (Answer.judged filter request)) :=
  startAll_completions net filter request {} [] relays t rfl

end Race

abbrev Script := List (Nat × Except SelectionFailure PingReply)

def Network.scripted : Network Script where
  start _ script := (none, script)
  next first others script :=
    let turn := script.headD (0, .error (ScriptedNetwork.noRoute first))
    (⟨turn.1 % (others.length + 1), Nat.mod_lt turn.1 (Nat.succ_pos others.length)⟩, turn.2, script.tail)
  abandon script := script

def Script.of : List RelayRecord → List Answer → Script
  | _, [] => []
  | running, (relay, reply) :: rest => (running.idxOf relay, reply) :: of (running.erase relay) rest

theorem startOut_scripted (running relays : List RelayRecord) (script : Script) :
    Race.startOut Network.scripted running relays script = ([], running ++ relays, script) := by
  induction relays generalizing running with
  | nil => simp [Race.startOut]
  | cons relay rest ih =>
    rw [Race.startOut, Network.scripted]
    dsimp only
    rw [← Network.scripted, ih, List.append_assoc]
    rfl

theorem awaitOut_scripted (running : List RelayRecord) (order : List Answer)
    (all : (order.map Prod.fst).Perm running) :
    Race.awaitOut Network.scripted running (Script.of running order) = order := by
  induction order generalizing running with
  | nil =>
    rw [List.map_nil, List.nil_perm] at all
    simp [all, Race.awaitOut]
  | cons answer rest ih =>
    obtain ⟨relay, reply⟩ := answer
    obtain ⟨among, others⟩ := List.cons_perm_iff_perm_erase.mp all
    cases running with
    | nil => cases among
    | cons first left =>
      -- The script names a place among the running probes, so it is not cut down to their number.
      have inside : (first :: left).idxOf relay < left.length + 1 := List.idxOf_lt_length_of_mem among
      let spot := (first :: left).idxOf relay % ((left.map (·.url)).length + 1)
      have place : spot = (first :: left).idxOf relay := by
        apply Nat.mod_eq_of_lt
        rwa [List.length_map]
      rw [Script.of, Race.awaitOut]
      change ((first :: left)[spot]?.getD first, reply) ::
        Race.awaitOut Network.scripted ((first :: left).eraseIdx spot) (Script.of _ rest) = _
      rw [place, List.getElem?_eq_getElem inside, Option.getD_some, List.getElem_idxOf,
        ← List.erase_eq_eraseIdx_of_idxOf rfl, ih _ others]

theorem every_order_comes_about (relays : List RelayRecord) (order : List Answer)
    (all : (order.map Prod.fst).Perm relays) :
    ∃ script, Race.completions Network.scripted relays script = order := by
  refine ⟨Script.of relays order, ?_⟩
  rw [Race.completions, startOut_scripted]
  exact awaitOut_scripted relays order all

section

variable {ω : Type} (net : Network ω) (filter : PingFilter) (request : RelayRequest)

-- All probes are followed to their ends, also those that the race never hears of. A race with the same completions up
-- to a success has the same outcome, whatever would have come then.
theorem race_decided_by_completion_order (relays : List RelayRecord) (t : Track ω) :
    let answers := Race.completions net relays t.world
    let order := answers.map (Answer.judged filter request)
    let outcome := (Race.run net filter request relays t).1
    (answers.map Prod.fst).Perm relays ∧
    (∀ replies : List Answer, (replies.map Prod.fst).Perm relays →
      ∃ script, Race.completions Network.scripted relays script = replies) ∧
    ((∃ completion ∈ order, completion.2.isOk = true) → ∃ early url info late,
      order = early ++ (url, .ok info) :: late ∧ (∀ completion ∈ early, completion.2.isOk = false) ∧
        outcome.winner = some info ∧ Charts outcome.errors early) ∧
    ((∀ completion ∈ order, completion.2.isOk = false) → outcome.winner = none ∧ Charts outcome.errors order ∧
      ∀ url, url ∈ outcome.errors.map Prod.fst ↔ url ∈ relays.map (·.url)) ∧
    (relays = [] → outcome = {}) ∧
    ∀ {ω' : Type} (net' : Network ω') (filter' : PingFilter) (request' : RelayRequest)
      (relays' : List RelayRecord) (t' : Track ω') (common : List Completion),
      common <+: order →
      common <+: (Race.completions net' relays' t'.world).map (Answer.judged filter' request') →
      (∃ completion ∈ common, completion.2.isOk = true) →
      (Race.run net' filter' request' relays' t').1 = outcome := by
  intro answers order outcome
  have perm : (answers.map Prod.fst).Perm relays := Race.completions_perm net relays t.world
  have decided : outcome = RaceOutcome.ofCompletions {} order := Race.run_completions net filter request relays t
  refine ⟨perm, every_order_comes_about relays, ?_, ?_, ?_, ?_⟩
  · intro won
    obtain ⟨early, url, info, late, split, lost⟩ := RaceOutcome.split_at_success won
    rw [decided, split]
    exact ⟨early, url, info, late, rfl, lost, RaceOutcome.ofCompletions_won lost url info⟩
  · intro lost
    obtain ⟨winner, charts⟩ := RaceOutcome.ofCompletions_lost lost
    rw [← decided] at winner charts
    refine ⟨winner, charts, fun url => ?_⟩
    have same : order.map Prod.fst = (answers.map Prod.fst).map (·.url) := by
      rw [List.map_map, List.map_map]
      rfl
    rw [charts.urls, same]
    exact (perm.map _).mem_iff
  · rintro rfl
    rw [List.perm_nil, List.map_eq_nil_iff] at perm
    have none : order = [] := congrArg (List.map _) perm
    rw [decided, none]
    rfl
  · intro ω' net' filter' request' relays' t' common one two won
    obtain ⟨late, first⟩ := one
    obtain ⟨late', second⟩ := two
    rw [Race.run_completions, decided, ← first, ← second, RaceOutcome.ofCompletions_settled won,
      RaceOutcome.ofCompletions_settled won]

end

example :
    let slow := RelayRecord.ofUrl "http://slow"
    let fast := RelayRecord.ofUrl "http://fast"
    let slice := [slow, fast, slow, slow]
    let order : List Answer := [(slow, .error (.transport "reset")), (slow, .error (.transport "refused")),
      (fast, .ok { ready := true }), (slow, .ok { ready := true })]
    let outcome := (Race.run Network.scripted .acceptAll {} slice ⟨Script.of slice order, []⟩).1
    outcome.winner.map (·.relay) = some fast ∧ outcome.errors = [("http://slow", .transport "refused")] := by
  decide +kernel

end TransactionRelay
