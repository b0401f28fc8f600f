import TransactionRelay.Proofs.Selection.Selecting

namespace TransactionRelay

namespace Selector

variable {ω : Type} (net : Network ω) (s : Selector)

def turn (pool : TierPool) (t : Track ω) :
    (Option RelayInfo × TierPool × Track ω) ⊕ (TierPool × Track ω) :=
  match pool.nextSlice s.settings.sliceSize with
  | ([], rest) => .inl (none, rest, t.note [.logged .noneLeft])
  | (first :: others, rest) =>
    let raced := Race.run net s.filter s.request (first :: others) t
    let left := rest.removeUrls raced.1.urls
    match raced.1.winner with
    | some info => .inl (some info, left, raced.2.note [.logged (.selected info.relay.url)])
    | none => .inr (left, raced.2)

def loop : Nat → TierPool → Track ω → Option (Option RelayInfo × TierPool × Track ω)
  | 0, _, _ => none
  | budget + 1, pool, t =>
    match turn net s pool t with
    | .inl done => some done
    | .inr (left, after) => loop budget left after

theorem selectFrom_turn (pool : TierPool) (t : Track ω) : s.selectFrom net pool t =
    match turn net s pool t with
    | .inl done => done
    | .inr (left, after) => s.selectFrom net left after := by
  fun_cases selectFrom net s pool t with
  | case1 rest taken => simp only [turn, taken]
  | case2 first others rest taken raced fewer info winner => simp only [turn, taken, raced, winner]
  | case3 first others rest taken raced fewer winner => simp only [turn, taken, raced, winner]

theorem turn_hands_out {pool left : TierPool} {t after : Track ω}
    (on : turn net s pool t = .inr (left, after)) : left.waiting.length < pool.waiting.length := by
  have handed := (pool.nextSlice_waiting s.settings.sliceSize).length_eq
  unfold turn at on
  split at on
  · cases on
  · next first others rest taken =>
    rw [taken, List.length_append, List.length_cons] at handed
    dsimp only at on handed
    split at on
    · cases on
    · obtain ⟨rfl, rfl⟩ := Prod.mk.inj (Sum.inr.inj on)
      rw [TierPool.removeUrls_waiting]
      have fewer := List.length_filter_le (fun relay => !(Race.run net s.filter s.request (first :: others)
        t).1.urls.contains relay.url) rest.waiting
      omega

-- With one turn more than records wait the loop is not cut off, and does what the selection does.
theorem loop_ends (budget : Nat) (pool : TierPool) (t : Track ω) (enough : pool.waiting.length < budget) :
    loop net s budget pool t = some (s.selectFrom net pool t) := by
  induction budget generalizing pool t with
  | zero => exact absurd enough (Nat.not_lt_zero _)
  | succ budget ih =>
    rw [loop, selectFrom_turn]
    cases turned : turn net s pool t with
    | inl done => rfl
    | inr going =>
      -- One turn less is left, and one record less waits.
      obtain ⟨left, after⟩ := going
      have fewer := turn_hands_out net s turned
      exact ih left after (by omega)

end Selector

def Offers (slice : List RelayRecord) (race : RaceRecord) : Prop := slice ≠ [] ∧ race.started <+: slice

theorem Selects.offered {size filter request pool slices races chosen after}
    (selects : Selects size filter request pool slices races chosen after) :
    List.Forall₂ Offers slices races := by
  induction selects with
  | noneLeft taken => exact .nil
  | won taken offered raced winner => exact .cons ⟨offered, raced.started⟩ .nil
  | lost taken offered raced undecided later ih => exact .cons ⟨offered, raced.started⟩ ih

theorem races_few {slices : List (List RelayRecord)} {races : List RaceRecord}
    (offered : List.Forall₂ Offers slices races) : races.length ≤ slices.flatten.length := by
  induction offered with
  | nil => exact Nat.le_refl _
  | cons one _ ih =>
    have some := List.length_pos_iff.mpr one.1
    simp only [List.flatten_cons, List.length_append, List.length_cons]
    omega

namespace Search

variable {ω : Type} (net : Network ω)

theorem move_settings (s : Search ω) (step : SearchMove) :
    (s.move net step).selector.settings = s.selector.settings := by
  cases step with
  | initialise directory =>
    simp only [move, initialise]
    split
    · rfl
    · split <;> rfl
  | select =>
    simp only [move, select]
    split <;> rfl
  | nextSlice =>
    simp only [move, nextSlice]
    split <;> rfl
  | ping relay => rfl
  | race relays => rfl
  | handleRace outcome => rfl

theorem moveAll_settings (s : Search ω) (moves : List SearchMove) :
    (s.moveAll net moves).selector.settings = s.selector.settings := by
  induction moves generalizing s with
  | nil => rfl
  | cons step rest ih => exact (ih (s.move net step)).trans (move_settings net s step)

theorem initialise_refused (s : Search ω) (directory : RelayDirectory)
    (zero : s.selector.settings.sliceSize = 0) :
    s.initialise directory = (.error (.ofSettings (.sliceSize 0)), s) := by
  have refused : s.selector.settings.validate = .error (.sliceSize 0) := by
    simp [ClientSettings.validate, zero]
  rw [initialise, refused]

end Search

section

variable {ω : Type} (net : Network ω)

-- A turn that goes on has handed out records which waited, so the loop is done within one turn more than there are
-- such records, whatever the network answers.
theorem selection_ends (request : RelayRequest) (settings : ClientSettings) (filter : PingFilter) (t : Track ω)
    (moves : List SearchMove) :
    let s := Search.moveAll net ⟨{ request, settings, filter }, t⟩ moves
    s.selector.settings = settings ∧ (s.selector.pool.isSome = true → 1 ≤ settings.sliceSize) ∧
    (∀ directory, settings.sliceSize = 0 →
      s.initialise directory = (.error (.ofSettings (.sliceSize 0)), s)) ∧
    ∀ (pool : TierPool) (before : Track ω),
      let ready : Search ω := ⟨{ s.selector with pool := some pool }, before⟩
      ∃ chosen left after, ready.select net = (.ok chosen, ⟨{ s.selector with pool := some left }, after⟩) ∧
        (∀ budget, pool.waiting.length < budget →
          ready.selector.loop net budget pool before = some (chosen, left, after)) ∧
        ∃ added slices rest, after.journal = before.journal ++ added ∧
          (SearchEntry.races added).length ≤ pool.waiting.length ∧
          List.Forall₂ Offers slices (SearchEntry.races added) ∧
          (slices.flatten ++ rest).Perm pool.waiting := by
  intro s
  have kept : s.selector.settings = settings := Search.moveAll_settings net _ moves
  have fit : s.Fit := Search.moveAll_fit net _ moves (Search.fresh_fit rfl)
  refine ⟨kept, ?_, ?_, ?_⟩
  · intro there
    obtain ⟨pool, ready⟩ := Option.isSome_iff_exists.mp there
    exact kept ▸ fit.positive ready
  · intro directory zero
    rw [← kept] at zero
    exact s.initialise_refused directory zero
  · intro pool before ready
    obtain ⟨added, slices, races, journal, tells, selects⟩ :=
      selectFrom_selects net ready.selector pool before
    obtain ⟨dropped, tried, _⟩ := selects.tried
    obtain rfl := tells.races
    have few : (SearchEntry.races added).length ≤ pool.waiting.length := by
      have offered := races_few selects.offered
      have handed := tried.length_eq
      rw [List.length_append] at handed
      omega
    refine ⟨_, _, _, rfl, fun budget enough => ?_, added, slices, _, journal, few, selects.offered, tried⟩
    exact Selector.loop_ends net ready.selector budget pool before enough

end

namespace Rehearsal

-- The third record goes with the first one of its url, and so the second turn is the last.
example :
    let pool := TierPool.ofTiers [[.ofUrl "https://one", .ofUrl "https://two"], [.ofUrl "https://one"]]
    let cut (budget : Nat) := refusing.selector.loop ScriptedNetwork.network budget pool refusing.track
    pool.waiting.length = 3 ∧ (cut 1).isSome = false ∧ (cut 2).isSome = true := by
  decide +kernel

end Rehearsal
end TransactionRelay
