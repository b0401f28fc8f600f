import TransactionRelay.Proofs.Selection.Fates
import TransactionRelay.Proofs.Selection.HandingOut
import TransactionRelay.Selection.Directory

namespace TransactionRelay

open Placed (board present Takes Upto)

structure Round where
  slice : List Placed
  race : RaceRecord

namespace Round

def uses (size : Nat) (round : Round) : List PoolUse := [.slice size, .remove round.race.outcome.urls]

def handed (round : Round) : List (List RelayRecord) := [round.slice.map (·.relay), []]

end Round

def Spent (rounds : List Round) (p : Placed) : Prop :=
  ∃ round ∈ rounds, p ∈ round.slice ∨ p.relay.url ∈ round.race.outcome.urls

theorem Spent.more {past : List Round} {p : Placed} (spent : Spent past p) (later : List Round) :
    Spent (past ++ later) p := by
  obtain ⟨round, member, gone⟩ := spent
  exact ⟨round, List.mem_append_left _ member, gone⟩

theorem present_uses (size : Nat) (rounds : List Round) (p : Placed) :
    p.present (rounds.flatMap (Round.uses size)) = true ↔
      ∀ round ∈ rounds, p.relay.url ∉ round.race.outcome.urls := by
  simp [present, Round.uses, PoolUse.removes]

-- What no round has spent is left, and was not handed out.
theorem spent_of_handed (size : Nat) {rounds : List Round} {p : Placed}
    (given : p.present (rounds.flatMap (Round.uses size)) = true → p ∈ rounds.flatMap (·.slice)) :
    Spent rounds p := by
  by_cases left : ∀ round ∈ rounds, p.relay.url ∉ round.race.outcome.urls
  · obtain ⟨round, member, inside⟩ := List.mem_flatMap.mp (given ((present_uses size rounds p).mpr left))
    exact ⟨round, member, .inl inside⟩
  · push Not at left
    obtain ⟨round, member, decided⟩ := left
    exact ⟨round, member, .inr decided⟩

theorem round_split {past early late : List Round} {round last : Round}
    (split : past ++ [last] = early ++ round :: late) :
    (early = past ∧ round = last) ∨ ∃ others, past = early ++ round :: others := by
  rcases List.eq_nil_or_concat late with rfl | ⟨others, final, rfl⟩
  · obtain ⟨same, own⟩ := List.append_inj' split rfl
    exact .inl ⟨same.symm, (List.singleton_inj.mp own).symm⟩
  · have whole : past ++ [last] = (early ++ round :: others) ++ [final] := by simpa using split
    exact .inr ⟨others, (List.append_inj' whole rfl).1⟩

structure Rounds (tiers : List (List RelayRecord)) (size : Nat) (filter : PingFilter) (request : RelayRequest)
    (rounds : List Round) (pool : TierPool) : Prop where
  used : (TierPool.ofTiers tiers).useAll (rounds.flatMap (Round.uses size)) =
    (rounds.flatMap Round.handed, pool)
  upto : ∃ cursor, Upto tiers (rounds.flatMap (Round.uses size)) (rounds.flatMap (·.slice)) cursor pool
  each : ∀ past round later, rounds = past ++ round :: later →
    Takes tiers (past.flatMap (Round.uses size)) (past.flatMap (·.slice)) (.slice size) round.slice ∧
      Raced filter request (round.slice.map (·.relay)) round.race

section

variable {tiers : List (List RelayRecord)} {size : Nat} {filter : PingFilter} {request : RelayRequest}
  {past : List Round} {pool : TierPool}

theorem rounds_start (tiers : List (List RelayRecord)) (size : Nat) (filter : PingFilter)
    (request : RelayRequest) : Rounds tiers size filter request [] (TierPool.ofTiers tiers) :=
  ⟨rfl, ⟨0, Placed.upto_start tiers⟩, by simp⟩

namespace Rounds

theorem race (done : Rounds tiers size filter request past pool) {slice rest} {race : RaceRecord}
    (taken : pool.nextSlice size = (slice, rest)) (raced : Raced filter request slice race) :
    ∃ places, Rounds tiers size filter request (past ++ [⟨places, race⟩])
      (rest.removeUrls race.outcome.urls) := by
  obtain ⟨cursor, upto⟩ := done.upto
  obtain ⟨places, next, handed, takes, after⟩ := upto.use (.slice size)
  have taking : pool.use (.slice size) = (slice, rest) := taken
  rw [taking] at handed after
  dsimp only at handed after
  refine ⟨places, ?_, ⟨next, ?_⟩, ?_⟩
  · rw [List.flatMap_append, List.flatMap_append, TierPool.useAll_append, done.used]
    simp only [List.flatMap_singleton, Round.uses, Round.handed, TierPool.useAll, taking, ← handed]
    rfl
  · have removed := after.remove race.outcome.urls
    rw [List.append_assoc] at removed
    simpa [Round.uses] using removed
  · intro earlier round later split
    rcases round_split split with ⟨rfl, rfl⟩ | ⟨others, before⟩
    · exact ⟨takes, handed ▸ raced⟩
    · exact done.each earlier round others before

-- The races of a selection. When it finds nobody, nothing is left that was not spent.
theorem selects (done : Rounds tiers size filter request past pool) {slices races chosen after}
    (selects : Selects size filter request pool slices races chosen after) :
    ∃ more, more.map (·.race) = races ∧ Rounds tiers size filter request (past ++ more) after ∧
      (0 < size → chosen = none → ∀ p ∈ (board tiers).flatten, Spent (past ++ more) p) := by
  induction selects generalizing past with
  | @noneLeft pool rest taken =>
    have empty : (pool.nextSlice size).1 = [] := by rw [taken]
    have same := TierPool.nextSlice_unchanged empty
    rw [taken] at same
    obtain rfl : rest = pool := same
    refine ⟨[], rfl, by rwa [List.append_nil], fun positive _ p offered => ?_⟩
    obtain ⟨cursor, upto⟩ := done.upto
    -- The pool is as the last race left it, so whatever is left in it was handed out.
    have exhausted := (TierPool.nextSlice_eq_nil positive _).mp empty
    rw [List.append_nil]
    exact spent_of_handed size (upto.stands.exhausted_iff.mp exhausted p offered)
  | won taken offered raced winner =>
    obtain ⟨places, after⟩ := done.race taken raced
    exact ⟨[⟨places, _⟩], rfl, after, fun _ nobody => nomatch nobody⟩
  | lost taken offered raced undecided later ih =>
    obtain ⟨places, after⟩ := done.race taken raced
    obtain ⟨more, same, whole, spent⟩ := ih after
    refine ⟨⟨places, _⟩ :: more, by rw [List.map_cons, same], ?_, ?_⟩
    · rwa [List.append_assoc] at whole
    · rwa [List.append_assoc] at spent

end Rounds

theorem selectAll_rounds {ω : Type} (net : Network ω) (s : Search ω) (calls : Nat)
    (positive : 0 < s.selector.settings.sliceSize) (ready : s.selector.pool = some pool)
    (done : Rounds tiers s.selector.settings.sliceSize s.selector.filter s.selector.request past pool) :
    ∃ added more after,
      (s.selectAll net calls).2.track.journal = s.track.journal ++ added ∧
      SearchEntry.Tells added (more.map (·.race)) ∧
      (s.selectAll net calls).2.selector.pool = some after ∧
      Rounds tiers s.selector.settings.sliceSize s.selector.filter s.selector.request (past ++ more) after ∧
      (.ok none ∈ (s.selectAll net calls).1 → ∀ p ∈ (board tiers).flatten, Spent (past ++ more) p) := by
  induction calls generalizing s past pool with
  | zero =>
    refine ⟨[], [], pool, (List.append_nil _).symm, SearchEntry.tells_nil, ready, ?_, ?_⟩
    · rwa [List.append_nil]
    · intro returned
      cases returned
  | succ calls ih =>
    obtain ⟨chosen, added, slices, races, after, result, kept, journal, tells, selects⟩ :=
      select_selects net s ready
    obtain ⟨more, same, one, spent⟩ := done.selects selects
    have still : (s.select net).2.selector.pool = some after := by rw [kept]
    obtain ⟨further, others, last, longer, told, left, whole, later⟩ :=
      ih (s.select net).2 (by rw [kept]; exact positive) still (by rw [kept]; exact one)
    rw [kept, List.append_assoc] at whole
    refine ⟨added ++ further, more ++ others, last, ?_, ?_, left, whole, ?_⟩
    · rw [Search.selectAll, longer, journal, List.append_assoc]
    · rw [List.map_append, same]
      exact tells.append told
    · intro returned p offered
      rw [← List.append_assoc]
      rw [Search.selectAll, result] at returned
      rcases List.mem_cons.mp returned with now | afterwards
      · exact (spent positive (Except.ok.inj now).symm p offered).more others
      · exact later afterwards p offered

end

namespace StaticDirectory

variable (d : StaticDirectory)

def Prefers (p : Placed) : Prop :=
  p.tier = 0 ∧ d.preferred[p.place]? = some p.relay.url ∧ p.relay = .ofUrl p.relay.url

def Knows (p : Placed) : Prop :=
  p.tier = 1 ∧ p.relay ∈ d.known ∧ p.relay.active = true ∧ p.relay.url ∉ d.preferred

variable {d}

theorem offered {p : Placed} (member : p ∈ (board d.tiers).flatten) : d.Prefers p ∨ d.Knows p := by
  simp only [board, Placed.rows, tiers, List.flatten_cons, List.flatten_nil, List.append_nil] at member
  rcases List.mem_append.mp member with first | second
  · obtain ⟨⟨relay, place⟩, among, rfl⟩ := List.mem_map.mp first
    have entry := List.mem_zipIdx_iff_getElem?.mp among
    rw [List.getElem?_map] at entry
    obtain ⟨url, at_place, rfl⟩ := Option.map_eq_some_iff.mp entry
    exact .inl ⟨rfl, at_place, rfl⟩
  · obtain ⟨⟨relay, place⟩, among, rfl⟩ := List.mem_map.mp second
    obtain ⟨kept, apart⟩ := List.mem_filter.mp (List.fst_mem_of_mem_zipIdx among)
    obtain ⟨known, active⟩ := List.mem_filter.mp kept
    exact .inr ⟨rfl, known, active, by simpa using apart⟩

theorem preferred_offered {place : Nat} {url : String} (entry : d.preferred[place]? = some url) :
    ⟨0, place, .ofUrl url⟩ ∈ (board d.tiers).flatten := by
  simp only [board, Placed.rows, tiers, List.flatten_cons]
  refine List.mem_append_left _ (List.mem_map.mpr ⟨(.ofUrl url, place), ?_, rfl⟩)
  rw [List.mem_zipIdx_iff_getElem?, List.getElem?_map, entry]
  rfl

theorem active_offered {relay : RelayRecord} (known : relay ∈ d.known) (active : relay.active = true) :
    ∃ p ∈ (board d.tiers).flatten, p.relay.url = relay.url := by
  have among : ∃ other ∈ d.tiers.flatten, other.url = relay.url := by
    by_cases preferred : relay.url ∈ d.preferred
    · exact ⟨.ofUrl relay.url, List.mem_append_left _ (List.mem_map_of_mem preferred), rfl⟩
    · exact ⟨relay, by simp [tiers, known, active, preferred], rfl⟩
  obtain ⟨other, member, same⟩ := among
  rw [← Placed.board_relays] at member
  obtain ⟨p, offered, rfl⟩ := List.mem_map.mp member
  exact ⟨p, offered, same⟩

theorem Prefers.apart {p q : Placed} (prefers : d.Prefers p) (knows : d.Knows q) : p.relay.url ≠ q.relay.url := by
  intro same
  exact knows.2.2.2 (same ▸ List.mem_of_getElem? prefers.2.1)

-- What a slice takes is of one tier. Before it takes known relays, all the preferred entries are spent.
theorem takes_tier {size : Nat} {past : List Round} {slice : List Placed}
    (takes : Takes d.tiers (past.flatMap (Round.uses size)) (past.flatMap (·.slice)) (.slice size) slice) :
    (∀ p ∈ slice, d.Prefers p) ∨ (∀ p ∈ slice, d.Knows p) ∧
      ∀ place url, d.preferred[place]? = some url → Spent past ⟨0, place, .ofUrl url⟩ := by
  by_cases known : ∃ p ∈ slice, d.Knows p
  · -- The slice is of one tier, and nothing waits in the tier above it.
    obtain ⟨p, inside, knows⟩ := known
    refine .inr ⟨fun q member => ?_, fun place url entry => spent_of_handed size ?_⟩
    · refine (offered (takes.fresh q member).1).resolve_left fun prefers => ?_
      have same := takes.level p inside q member
      rw [knows.1, prefers.1] at same
      cases same
    · exact takes.above p inside _ (preferred_offered entry) (by rw [knows.1]; exact Nat.one_pos)
  · refine .inl fun p inside => ?_
    exact (offered (takes.fresh p inside).1).resolve_right fun knows => known ⟨p, inside, knows⟩

end StaticDirectory

-- Known relays are probed only when every preferred entry was handed out or removed before. A preferred url is not
-- offered a second time as a known one, and of the known relays none but the active ones are offered.
theorem preferred_first_inactive_never {ω : Type} (net : Network ω) (d : StaticDirectory) (origin : Search ω)
    (loaded : (origin.initialise d.toDirectory).1 = .ok ()) (calls : Nat) :
    let begun := (origin.initialise d.toDirectory).2
    let ran := begun.selectAll net calls
    ∃ (added : List SearchEntry) (rounds : List Round) (pool : TierPool),
      ran.2.track.journal = begun.track.journal ++ added ∧
      SearchEntry.races added = rounds.map Round.race ∧
      added.filterMap SearchEntry.started? = rounds.flatMap (·.race.started) ∧
      (TierPool.ofTiers d.tiers).useAll (rounds.flatMap (Round.uses begun.selector.settings.sliceSize)) =
        (rounds.flatMap Round.handed, pool) ∧
      ran.2.selector.pool = some pool ∧
      (rounds.flatMap Round.slice).Sublist (board d.tiers).flatten ∧
      (∀ past round later, rounds = past ++ round :: later →
        round.race.started <+: round.slice.map (·.relay) ∧
        ((∀ p ∈ round.slice, d.Prefers p) ∨ (∀ p ∈ round.slice, d.Knows p) ∧
          ∀ place url, d.preferred[place]? = some url → Spent past ⟨0, place, .ofUrl url⟩)) ∧
      (∀ relay, .started relay ∈ added →
        relay.url ∈ d.preferred ∨ relay ∈ d.known ∧ relay.active = true) ∧
      (∀ p ∈ (board d.tiers).flatten, ∀ q ∈ (board d.tiers).flatten,
        p.relay.url = q.relay.url → p.tier = q.tier) ∧
      (.ok none ∈ ran.1 → ∀ relay ∈ d.known, relay.active = true → ∃ round ∈ rounds,
        (∃ p ∈ round.slice, p.relay.url = relay.url) ∨ relay.url ∈ round.race.outcome.urls) := by
  intro begun ran
  obtain ⟨selector, valid⟩ := Search.initialise_loaded loaded rfl
  have ready : begun.selector.pool = some (TierPool.ofTiers d.tiers) := by rw [selector]
  have fit : begun.Fit := fun _ => by rw [selector]; exact valid
  have start := rounds_start d.tiers begun.selector.settings.sliceSize begun.selector.filter
    begun.selector.request
  obtain ⟨added, rounds, pool, journal, tells, left, done, spent⟩ := selectAll_rounds net begun calls
    (fit.positive ready) ready start
  rw [List.nil_append] at done spent
  obtain ⟨cursor, upto⟩ := done.upto
  refine ⟨added, rounds, pool, journal, tells.races, ?_, done.used, left, upto.ordered, ?_, ?_, ?_, ?_⟩
  · rw [tells.probes, List.flatMap_map]
  · intro past round later split
    obtain ⟨takes, raced⟩ := done.each past round later split
    exact ⟨raced.started, StaticDirectory.takes_tier takes⟩
  · intro relay probed
    have among : relay ∈ added.filterMap SearchEntry.started? := List.mem_filterMap.mpr ⟨_, probed, rfl⟩
    rw [tells.probes, List.flatMap_map] at among
    obtain ⟨round, member, begins⟩ := List.mem_flatMap.mp among
    obtain ⟨past, later, split⟩ := List.append_of_mem member
    obtain ⟨takes, raced⟩ := done.each past round later split
    obtain ⟨p, inside, rfl⟩ := List.mem_map.mp (raced.started.subset begins)
    rcases StaticDirectory.offered (takes.fresh p inside).1 with prefers | knows
    · exact .inl (List.mem_of_getElem? prefers.2.1)
    · exact .inr ⟨knows.2.1, knows.2.2.1⟩
  · intro p first q second same
    rcases StaticDirectory.offered first with prefers | knows
    · rcases StaticDirectory.offered second with alike | other
      · rw [prefers.1, alike.1]
      · exact absurd same (prefers.apart other)
    · rcases StaticDirectory.offered second with other | alike
      · exact absurd same.symm (other.apart knows)
      · rw [knows.1, alike.1]
  · intro returned relay known active
    obtain ⟨p, offered, url⟩ := StaticDirectory.active_offered known active
    obtain ⟨round, member, gone⟩ := spent returned p offered
    refine ⟨round, member, ?_⟩
    rcases gone with handed | decided
    · exact .inl ⟨p, handed, url⟩
    · exact .inr (url ▸ decided)

namespace Rehearsal

def activeRelay : RelayRecord := { url := "https://two", registered := true, stakeAdded := true }

def favouring : StaticDirectory where
  preferred := ["https://one"]
  known := [{ activeRelay with url := "https://one" }, activeRelay,
    { activeRelay with url := "https://three", penalized := true }]

theorem penalized_relay_is_never_probed :
    let begun := (refusing.initialise favouring.toDirectory).2
    let ran := begun.selectAll ScriptedNetwork.network 2
    ran.1 = [.ok none, .ok none] ∧ ∃ (added : List SearchEntry) (rounds : List Round),
      ran.2.track.journal = begun.track.journal ++ added ∧
      SearchEntry.races added = rounds.map Round.race ∧
      (∀ relay, .started relay ∈ added → relay.url ≠ "https://three") ∧
      ∃ round ∈ rounds, (∃ p ∈ round.slice, p.relay.url = "https://two") ∨
        "https://two" ∈ round.race.outcome.urls := by
  intro begun ran
  have nobody : ran.1 = [.ok none, .ok none] := by decide +kernel
  obtain ⟨added, rounds, pool, journal, races, _, _, _, _, _, probes, _, spent⟩ :=
    preferred_first_inactive_never ScriptedNetwork.network favouring refusing rfl 2
  have finished : .ok none ∈ ran.1 := by
    rw [nobody]
    exact List.mem_cons_self
  have idle : ∀ relay ∈ favouring.known, relay.url = "https://three" → relay.active = false := by decide
  refine ⟨nobody, added, rounds, journal, races, ?_, spent finished activeRelay (by decide) rfl⟩
  intro relay probed three
  rcases probes relay probed with preferred | ⟨known, active⟩
  · rw [three] at preferred
    exact absurd preferred (by decide)
  · rw [idle relay known three] at active
    cases active

end Rehearsal
end TransactionRelay
