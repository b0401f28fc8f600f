import TransactionRelay.Proofs.Selection.Racing
import TransactionRelay.Proofs.Selection.Slices
import TransactionRelay.Rehearsal.Network
import TransactionRelay.Selection.Selector

namespace TransactionRelay

-- What one selection does with a pool: the slices it takes, their races, the relay it finds, and the pool
-- it leaves.
inductive Selects (size : Nat) (filter : PingFilter) (request : RelayRequest) :
    TierPool → List (List RelayRecord) → List RaceRecord → Option RelayInfo → TierPool → Prop
  | noneLeft {pool rest} (taken : pool.nextSlice size = ([], rest)) :
      Selects size filter request pool [] [] none rest
  | won {pool slice rest race info} (taken : pool.nextSlice size = (slice, rest)) (offered : slice ≠ [])
      (raced : Raced filter request slice race) (winner : race.outcome.winner = some info) :
      Selects size filter request pool [slice] [race] (some info) (rest.removeUrls race.outcome.urls)
  | lost {pool slice rest race slices races chosen after} (taken : pool.nextSlice size = (slice, rest))
      (offered : slice ≠ []) (raced : Raced filter request slice race)
      (undecided : race.outcome.winner = none)
      (later : Selects size filter request (rest.removeUrls race.outcome.urls) slices races chosen after) :
      Selects size filter request pool (slice :: slices) (race :: races) chosen after

theorem selectFrom_selects {ω : Type} (net : Network ω) (s : Selector) (pool : TierPool) (t : Track ω) :
    ∃ added slices races, (s.selectFrom net pool t).2.2.journal = t.journal ++ added ∧
      SearchEntry.Tells added races ∧
      Selects s.settings.sliceSize s.filter s.request pool slices races (s.selectFrom net pool t).1
        (s.selectFrom net pool t).2.1 := by
  fun_induction Selector.selectFrom net s pool t with
  | case1 pool t rest taken => exact ⟨_, [], [], rfl, SearchEntry.tells_logged _, .noneLeft taken⟩
  | case2 pool t first others rest taken raced fewer info winner =>
    obtain ⟨added, race, journal, tells, outcome, record⟩ :=
      run_raced net s.filter s.request (first :: others) t
    refine ⟨added ++ [.logged (.selected info.relay.url)], [first :: others], [race], ?_,
      tells.append (SearchEntry.tells_logged _), ?_⟩
    · rw [Track.note]
      dsimp only
      rw [journal, List.append_assoc]
    · rw [← outcome] at winner ⊢
      exact .won taken (List.cons_ne_nil _ _) record winner
  | case3 pool t first others rest taken raced fewer winner ih =>
    obtain ⟨added, race, journal, tells, outcome, record⟩ :=
      run_raced net s.filter s.request (first :: others) t
    obtain ⟨more, slices, races, longer, further, later⟩ := ih
    refine ⟨added ++ more, (first :: others) :: slices, race :: races, ?_, tells.append further, ?_⟩
    · rw [longer, journal, List.append_assoc]
    · rw [← outcome] at winner later ⊢
      exact .lost taken (List.cons_ne_nil _ _) record winner later

namespace Selects

variable {size : Nat} {filter : PingFilter} {request : RelayRequest} {pool after : TierPool}
  {slices : List (List RelayRecord)} {races : List RaceRecord} {chosen : Option RelayInfo}

theorem all_lost (selects : Selects size filter request pool slices races chosen after)
    (nobody : chosen = none) : List.Forall₂ (RaceRecord.Lost filter request) slices races := by
  induction selects with
  | noneLeft taken => exact .nil
  | won taken offered raced winner => cases nobody
  | lost taken offered raced undecided later ih => exact .cons (raced.lost undecided) (ih nobody)

theorem last_won (selects : Selects size filter request pool slices races chosen after) {info : RelayInfo}
    (found : chosen = some info) : ∃ upper slice earlier last, slices = upper ++ [slice] ∧
      races = earlier ++ [last] ∧ List.Forall₂ (RaceRecord.Lost filter request) upper earlier ∧
      last.WonBy filter request slice info := by
  induction selects with
  | noneLeft taken => cases found
  | @won _ slice _ race _ taken offered raced winner =>
    obtain rfl := Option.some.inj found
    exact ⟨[], slice, [], race, rfl, rfl, .nil, raced.won winner⟩
  | @lost _ first _ race _ _ _ _ taken offered raced undecided later ih =>
    obtain ⟨upper, slice, earlier, last, rfl, rfl, lost, won⟩ := ih found
    exact ⟨first :: upper, slice, race :: earlier, last, rfl, rfl, .cons (raced.lost undecided) lost, won⟩

theorem race_records {slice rest race} (taken : pool.nextSlice size = (slice, rest))
    (raced : Raced filter request slice race) : (rest.removeUrls race.outcome.urls).records =
      pool.records.map (·.filter fun relay => !race.decided.contains relay.url) := by
  have kept := TierPool.nextSlice_records pool size
  rw [taken] at kept
  rw [TierPool.removeUrls_records, kept]
  refine List.map_congr_left fun tier _ => List.filter_congr fun relay _ => ?_
  rw [Bool.not_inj_iff, Bool.eq_iff_iff, List.contains_iff_mem, List.contains_iff_mem]
  exact raced.urls relay.url

theorem records (selects : Selects size filter request pool slices races chosen after) : after.records =
    pool.records.map (·.filter fun relay => !(races.flatMap RaceRecord.decided).contains relay.url) := by
  induction selects with
  | @noneLeft pool rest taken =>
    have kept := TierPool.nextSlice_records pool size
    rw [taken] at kept
    simp [kept]
  | won taken offered raced winner =>
    rw [race_records taken raced]
    simp
  | lost taken offered raced undecided later ih =>
    rw [ih, race_records taken raced, List.map_map]
    refine List.map_congr_left fun tier _ => ?_
    rw [Function.comp_apply, List.filter_filter]
    refine List.filter_congr fun relay _ => ?_
    rw [List.flatMap_cons, List.contains_append, Bool.not_or, Bool.and_comm]

-- One race out of a pool: of what was waiting, the slice was handed out, some was dropped for its url, and
-- the rest still waits.
theorem race_waiting {slice rest} (taken : pool.nextSlice size = (slice, rest)) (urls : List String) :
    (slice ++ ((rest.waiting.filter fun relay => urls.contains relay.url) ++
      (rest.removeUrls urls).waiting)).Perm pool.waiting := by
  have handed := TierPool.nextSlice_waiting pool size
  rw [taken] at handed
  rw [TierPool.removeUrls_waiting]
  exact ((List.filter_append_perm _ _).append_left slice).trans handed

theorem tried (selects : Selects size filter request pool slices races chosen after) : ∃ dropped,
    (slices.flatten ++ (dropped ++ after.waiting)).Perm pool.waiting ∧
      ∀ relay ∈ dropped, ∃ race ∈ races, relay.url ∈ race.decided := by
  have known {slice race} (raced : Raced filter request slice race) (rest : TierPool) :
      ∀ relay ∈ rest.waiting.filter fun relay => race.outcome.urls.contains relay.url,
        relay.url ∈ race.decided := by
    intro relay member
    exact (raced.urls relay.url).mp (List.contains_iff_mem.mp (List.mem_filter.mp member).2)
  induction selects with
  | @noneLeft pool rest taken =>
    have handed := TierPool.nextSlice_waiting pool size
    rw [taken] at handed
    exact ⟨[], handed, by simp⟩
  | @won pool slice rest race info taken offered raced winner =>
    refine ⟨_, ?_, fun relay member => ⟨race, by simp, known raced rest relay member⟩⟩
    rw [List.flatten_singleton]
    exact race_waiting taken race.outcome.urls
  | @lost pool slice rest race slices races chosen after taken offered raced undecided later ih =>
    obtain ⟨dropped, tried, decided⟩ := ih
    refine ⟨(rest.waiting.filter fun relay => race.outcome.urls.contains relay.url) ++ dropped, ?_, ?_⟩
    · rw [List.flatten_cons, List.append_assoc, List.append_assoc]
      refine List.Perm.trans (List.Perm.append_left slice ?_) (race_waiting taken race.outcome.urls)
      exact (List.perm_append_comm_assoc _ _ _).trans (tried.append_left _)
    · intro relay member
      rcases List.mem_append.mp member with now | afterwards
      · exact ⟨race, by simp, known raced rest relay now⟩
      · obtain ⟨other, among, decision⟩ := decided relay afterwards
        exact ⟨other, List.mem_cons_of_mem _ among, decision⟩

theorem none_waits (selects : Selects size filter request pool slices races chosen after)
    (positive : 0 < size) (nobody : chosen = none) : after.waiting = [] := by
  induction selects with
  | @noneLeft pool rest taken =>
    have waits := TierPool.nextSlice_waiting pool size
    have empty := TierPool.nextSlice_eq_nil positive pool
    rw [taken] at waits empty
    rw [(TierPool.exhausted_iff pool).mp (empty.mp rfl)] at waits
    exact waits.eq_nil
  | won taken offered raced winner => cases nobody
  | lost taken offered raced undecided later ih => exact ih nobody

end Selects

inductive SearchMove
  | initialise (directory : RelayDirectory)
  | select
  | nextSlice
  | ping (relay : RelayRecord)
  | race (relays : List RelayRecord)
  | handleRace (outcome : RaceOutcome)

namespace Search

variable {ω : Type} (net : Network ω)

def move (s : Search ω) : SearchMove → Search ω
  | .initialise directory => (s.initialise directory).2
  | .select => (s.select net).2
  | .nextSlice => s.nextSlice.2
  | .ping relay => (s.ping net relay).2
  | .race relays => (s.race net relays).2
  | .handleRace outcome => s.handleRace outcome

def moveAll (s : Search ω) (moves : List SearchMove) : Search ω := moves.foldl (move net) s

def Fit (s : Search ω) : Prop := s.selector.pool.isSome → s.selector.settings.validate = .ok ()

theorem initialise_fit (s : Search ω) (directory : RelayDirectory) (fit : s.Fit) :
    (s.initialise directory).2.Fit := by
  unfold initialise
  split
  · exact fit
  · next valid =>
    split
    · exact fit
    · intro _
      exact valid

theorem select_fit (s : Search ω) (fit : s.Fit) : (s.select net).2.Fit := by
  unfold select
  split
  · exact fit
  · next pool known =>
    intro _
    exact fit (by rw [known, Option.isSome_some])

theorem nextSlice_fit (s : Search ω) (fit : s.Fit) : s.nextSlice.2.Fit := by
  unfold nextSlice
  split
  · exact fit
  · next pool known =>
    intro _
    exact fit (by rw [known, Option.isSome_some])

theorem move_fit (s : Search ω) (step : SearchMove) (fit : s.Fit) : (s.move net step).Fit := by
  cases step with
  | initialise directory => exact initialise_fit s directory fit
  | select => exact select_fit net s fit
  | nextSlice => exact nextSlice_fit s fit
  | ping relay => exact fit
  | race relays => exact fit
  | handleRace outcome =>
    intro there
    apply fit
    simpa [move, handleRace, Selector.handleRace] using there

theorem moveAll_fit (s : Search ω) (moves : List SearchMove) (fit : s.Fit) : (s.moveAll net moves).Fit := by
  induction moves generalizing s with
  | nil => exact fit
  | cons step rest ih => exact ih (s.move net step) (move_fit net s step fit)

theorem fresh_fit {s : Search ω} (fresh : s.selector.pool = none) : s.Fit := by
  intro there
  rw [fresh] at there
  cases there

theorem initialise_loaded {s : Search ω} {directory : RelayDirectory} {tiers : List (List RelayRecord)}
    (loaded : (s.initialise directory).1 = .ok ()) (offered : directory s.selector.request = .ok tiers) :
    (s.initialise directory).2.selector = { s.selector with pool := some (TierPool.ofTiers tiers) } ∧
      s.selector.settings.validate = .ok () := by
  unfold initialise at loaded ⊢
  split at loaded
  · cases loaded
  · next valid =>
    rw [offered]
    exact ⟨rfl, valid⟩

theorem Fit.positive {s : Search ω} (fit : s.Fit) {pool : TierPool} (ready : s.selector.pool = some pool) :
    0 < s.selector.settings.sliceSize := by
  have valid := fit (by rw [ready, Option.isSome_some])
  apply Nat.pos_of_ne_zero
  intro zero
  simp [ClientSettings.validate, zero] at valid

end Search

theorem select_selects {ω : Type} (net : Network ω) (s : Search ω) {pool : TierPool}
    (ready : s.selector.pool = some pool) : ∃ chosen added slices races after,
      (s.select net).1 = .ok chosen ∧ (s.select net).2.selector = { s.selector with pool := some after } ∧
      (s.select net).2.track.journal = s.track.journal ++ added ∧ SearchEntry.Tells added races ∧
      Selects s.selector.settings.sliceSize s.selector.filter s.selector.request pool slices races chosen
        after := by
  obtain ⟨added, slices, races, journal, tells, selects⟩ := selectFrom_selects net s.selector pool s.track
  unfold Search.select
  rw [ready]
  exact ⟨_, added, slices, races, _, rfl, rfl, journal, tells, selects⟩

-- Whatever was done before, a selection comes to a result. If it finds no relay, whoever was waiting was probed and
-- failed, or was dropped for a url that a race had decided.
theorem selection_tries_every_relay {ω : Type} (net : Network ω) (start : Search ω)
    (fresh : start.selector.pool = none) (moves : List SearchMove) (pool : TierPool)
    (ready : (start.moveAll net moves).selector.pool = some pool) :
    let s := start.moveAll net moves
    ∃ chosen added slices dropped pool',
      (s.select net).1 = .ok chosen ∧
      (s.select net).2.track.journal = s.track.journal ++ added ∧
      added.filterMap SearchEntry.started? = (SearchEntry.races added).flatMap (·.started) ∧
      (s.select net).2.selector = { s.selector with pool := some pool' } ∧
      (∀ info, chosen = some info → ∃ upper slice earlier last, slices = upper ++ [slice] ∧
        SearchEntry.races added = earlier ++ [last] ∧
        List.Forall₂ (RaceRecord.Lost s.selector.filter s.selector.request) upper earlier ∧
        last.WonBy s.selector.filter s.selector.request slice info) ∧
      (chosen = none →
        List.Forall₂ (RaceRecord.Lost s.selector.filter s.selector.request) slices
          (SearchEntry.races added) ∧
        pool'.waiting = []) ∧
      (slices.flatten ++ (dropped ++ pool'.waiting)).Perm pool.waiting ∧
      (∀ relay ∈ dropped, ∃ race ∈ SearchEntry.races added, relay.url ∈ race.decided) ∧
      (s.select net).2.selector.remaining = s.selector.remaining.map fun tiers => tiers.map
        (·.filter fun relay => !((SearchEntry.races added).flatMap RaceRecord.decided).contains relay.url) := by
  intro s
  have positive := (Search.moveAll_fit net start moves (Search.fresh_fit fresh)).positive ready
  obtain ⟨chosen, added, slices, races, after, result, kept, journal, tells, selects⟩ :=
    select_selects net s ready
  obtain ⟨dropped, handed, decided⟩ := selects.tried
  obtain rfl := tells.races
  refine ⟨chosen, added, slices, dropped, after, result, journal, tells.probes, kept, ?_, ?_, handed, decided, ?_⟩
  · intro info found
    exact selects.last_won found
  · intro nobody
    exact ⟨selects.all_lost nobody, selects.none_waits positive nobody⟩
  · rw [Selector.remaining, Selector.remaining, kept, ready]
    exact congrArg some selects.records

namespace Rehearsal

def sharedUrl : RelayDirectory := fun _ =>
  .ok [[.ofUrl "https://one", .ofUrl "https://two"], [.ofUrl "https://one"]]

def refusing : Search ScriptedNetwork :=
  ⟨{ filter := .reject (.filterRejection "closed") }, { world := { replies := [] } }⟩

theorem shared_url_is_tried_or_dropped :
    ((refusing.moveAll ScriptedNetwork.network [.initialise sharedUrl]).select ScriptedNetwork.network).1 =
        .ok none ∧
      ∃ slices dropped races,
        List.Forall₂ (RaceRecord.Lost (.reject (.filterRejection "closed")) {}) slices races ∧
        (slices.flatten ++ dropped).Perm
          [.ofUrl "https://one", .ofUrl "https://two", .ofUrl "https://one"] ∧
        ∀ relay ∈ dropped, ∃ race ∈ races, relay.url ∈ race.decided := by
  obtain ⟨chosen, added, slices, dropped, after, result, _, _, _, won, lost, handed, decided, _⟩ :=
    selection_tries_every_relay ScriptedNetwork.network refusing rfl [.initialise sharedUrl]
      (TierPool.ofTiers [[.ofUrl "https://one", .ofUrl "https://two"], [.ofUrl "https://one"]]) rfl
  cases chosen with
  | some info =>
    obtain ⟨_, _, _, last, _, _, _, winner⟩ := won info rfl
    obtain ⟨_, relay, reply, _, _, judged⟩ := winner.first
    obtain ⟨_, _, _, passed, _⟩ := judge_ok judged
    cases passed
  | none =>
    obtain ⟨failed, nothing⟩ := lost rfl
    rw [nothing, List.append_nil] at handed
    exact ⟨result, slices, dropped, SearchEntry.races added, failed, handed, decided⟩

end Rehearsal
end TransactionRelay
