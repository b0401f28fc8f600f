import TransactionRelay.Proofs.Selection.Selecting

namespace TransactionRelay

def RaceRecord.Precedes (earlier later : RaceRecord) : Prop :=
  ∀ relay ∈ later.started, relay.url ∉ earlier.outcome.urls

-- Races between two states of a pool. They probe what is in the pool, and what they decide has left it.
structure Retires (pool : TierPool) (races : List RaceRecord) (after : TierPool) : Prop where
  drawn : ∀ race ∈ races, race.started ⊆ pool.records.flatten
  ordered : races.Pairwise RaceRecord.Precedes
  won : ∀ race ∈ races, ∀ info, race.outcome.winner = some info →
    ∃ relay ∈ race.started, relay.url = info.relay.url
  left : after.records.flatten ⊆ pool.records.flatten
  retired : ∀ relay ∈ after.records.flatten, ∀ race ∈ races, relay.url ∉ race.outcome.urls

namespace Retires

theorem refl {pool after : TierPool} (same : after.records = pool.records) : Retires pool [] after := by
  refine ⟨by simp, .nil, by simp, ?_, by simp⟩
  rw [same]
  exact List.Subset.refl _

theorem trans {first second third : TierPool} {races more : List RaceRecord}
    (start : Retires first races second) (rest : Retires second more third) :
    Retires first (races ++ more) third := by
  refine ⟨?_, ?_, ?_, List.Subset.trans rest.left start.left, ?_⟩
  · intro race member
    rcases List.mem_append.mp member with earlier | later
    · exact start.drawn race earlier
    · exact List.Subset.trans (rest.drawn race later) start.left
  · rw [List.pairwise_append]
    refine ⟨start.ordered, rest.ordered, ?_⟩
    intro earlier before later after relay probed
    exact start.retired relay (rest.drawn later after probed) earlier before
  · intro race member
    rcases List.mem_append.mp member with earlier | later
    · exact start.won race earlier
    · exact rest.won race later
  · intro relay stays race member
    rcases List.mem_append.mp member with earlier | later
    · exact start.retired relay (rest.left stays) race earlier
    · exact rest.retired relay stays race later

theorem winners_distinct {pool after : TierPool} {races : List RaceRecord}
    (retires : Retires pool races after) : ((races.filterMap (·.outcome.winner)).map (·.relay.url)).Nodup := by
  rw [List.Nodup, List.pairwise_map, List.pairwise_filterMap]
  apply retires.ordered.imp_of_mem
  intro earlier later _ member precedes first found second chosen same
  obtain ⟨relay, probed, url⟩ := retires.won later member second chosen
  apply precedes relay probed
  rw [url, ← same, RaceOutcome.urls, found]
  simp

end Retires

theorem Raced.winner_started {filter request slice race} (raced : Raced filter request slice race) {info}
    (winner : race.outcome.winner = some info) : ∃ relay ∈ race.started, relay.url = info.relay.url := by
  obtain ⟨started, ⟨abandoned, heard⟩, early, relay, reply, last, _, judged⟩ := raced.won winner
  refine ⟨relay, heard.subset ?_, (judge_url judged).symm⟩
  rw [last]
  simp

namespace Selects

variable {size : Nat} {filter : PingFilter} {request : RelayRequest} {pool after : TierPool}
  {slices : List (List RelayRecord)} {races : List RaceRecord} {chosen : Option RelayInfo}

theorem race_retires {slice rest race} (taken : pool.nextSlice size = (slice, rest))
    (raced : Raced filter request slice race) :
    Retires pool [race] (rest.removeUrls race.outcome.urls) := by
  have offered := pool.nextSlice_subset size
  rw [taken] at offered
  have remains {relay : RelayRecord} :
      relay ∈ (rest.removeUrls race.outcome.urls).records.flatten ↔
        relay ∈ pool.records.flatten ∧ relay.url ∉ race.outcome.urls := by
    rw [race_records taken raced, ← List.filter_flatten, List.mem_filter, raced.urls]
    simp
  refine ⟨?_, List.pairwise_singleton _ _, ?_, ?_, ?_⟩
  · intro other member
    rw [List.mem_singleton.mp member]
    exact List.Subset.trans raced.started.subset offered
  · intro other member info winner
    rw [List.mem_singleton.mp member] at winner ⊢
    exact raced.winner_started winner
  · intro relay stays
    exact (remains.mp stays).1
  · intro relay stays other member
    rw [List.mem_singleton.mp member]
    exact (remains.mp stays).2

theorem retires (selects : Selects size filter request pool slices races chosen after) :
    Retires pool races after := by
  induction selects with
  | @noneLeft pool rest taken =>
    have kept := pool.nextSlice_records size
    rw [taken] at kept
    exact .refl kept
  | won taken offered raced winner => exact race_retires taken raced
  | lost taken offered raced undecided later ih => exact (race_retires taken raced).trans ih

-- The relay that is found has won the last race, and nobody won before.
theorem winners (selects : Selects size filter request pool slices races chosen after) :
    races.filterMap (·.outcome.winner) = chosen.toList := by
  induction selects with
  | noneLeft taken => rfl
  | won taken offered raced winner => simp [winner]
  | lost taken offered raced undecided later ih => simp [undecided, ih]

end Selects

namespace Search

variable {ω : Type} (net : Network ω)

def selectAll (s : Search ω) : Nat → List (Except SelectionFailure (Option RelayInfo)) × Search ω
  | 0 => ([], s)
  | calls + 1 =>
    let one := s.select net
    let others := one.2.selectAll calls
    (one.1 :: others.1, others.2)

def returned : Except SelectionFailure (Option RelayInfo) → Option RelayInfo
  | .ok chosen => chosen
  | .error _ => none

theorem selectAll_retires (s : Search ω) (calls : Nat) {pool : TierPool}
    (ready : s.selector.pool = some pool) : ∃ added races after,
      (s.selectAll net calls).2.track.journal = s.track.journal ++ added ∧
      SearchEntry.Tells added races ∧ Retires pool races after ∧
      (s.selectAll net calls).1.filterMap returned = races.filterMap (·.outcome.winner) := by
  induction calls generalizing s pool with
  | zero => exact ⟨[], [], pool, (List.append_nil _).symm, SearchEntry.tells_nil, .refl rfl, rfl⟩
  | succ calls ih =>
    obtain ⟨chosen, added, slices, races, after, result, kept, journal, tells, selects⟩ :=
      select_selects net s ready
    have still : (s.select net).2.selector.pool = some after := by rw [kept]
    obtain ⟨more, further, last, longer, told, retires, returns⟩ := ih (s.select net).2 still
    refine ⟨added ++ more, races ++ further, last, ?_, tells.append told, selects.retires.trans retires, ?_⟩
    · rw [selectAll, longer, journal, List.append_assoc]
    · rw [List.filterMap_append, selects.winners, selectAll, result, List.filterMap_cons, returns]
      cases chosen with
      | none => rfl
      | some info => rfl

theorem selectAll_unready (s : Search ω) (calls : Nat) (unready : s.selector.pool = none) :
    (s.selectAll net calls).2 = s ∧ (s.selectAll net calls).1.filterMap returned = [] := by
  have refused : s.select net = (.error .notInitialized, s) := by rw [select, unready]
  induction calls with
  | zero => exact ⟨rfl, rfl⟩
  | succ calls ih =>
    rw [selectAll, refused]
    exact ⟨ih.1, ih.2⟩

end Search

-- A decided relay leaves the pool with all the records of its url, so no later race probes it and no later selection
-- returns it.
theorem fates_are_final {ω : Type} (net : Network ω) (directory : RelayDirectory) (s : Search ω)
    (calls : Nat) :
    let begun := (s.initialise directory).2
    ∃ added, (begun.selectAll net calls).2.track.journal = begun.track.journal ++ added ∧
      added.filterMap SearchEntry.started? = (SearchEntry.races added).flatMap (·.started) ∧
      (SearchEntry.races added).Pairwise
        (fun earlier later => ∀ relay ∈ later.started, relay.url ∉ earlier.outcome.urls) ∧
      (begun.selectAll net calls).1.filterMap Search.returned =
        (SearchEntry.races added).filterMap (·.outcome.winner) ∧
      (((begun.selectAll net calls).1.filterMap Search.returned).map (·.relay.url)).Nodup := by
  intro begun
  cases ready : begun.selector.pool with
  | none =>
    obtain ⟨same, nobody⟩ := begun.selectAll_unready net calls ready
    refine ⟨[], ?_, rfl, .nil, nobody, ?_⟩
    · rw [same, List.append_nil]
    · rw [nobody]
      exact .nil
  | some pool =>
    obtain ⟨added, races, after, journal, tells, retires, returns⟩ :=
      begun.selectAll_retires net calls ready
    obtain rfl := tells.races
    refine ⟨added, journal, tells.probes, retires.ordered, returns, ?_⟩
    rw [returns]
    exact retires.winners_distinct

end TransactionRelay
