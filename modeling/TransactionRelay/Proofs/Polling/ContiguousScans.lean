import TransactionRelay.Proofs.Polling.DueTransfers
import TransactionRelay.Proofs.Registration.Questions

namespace TransactionRelay

namespace Entry

-- The ranges that a poll asks for. The first look for evidence of the worker is no part of the scan: it
-- asks the hub for other kinds of events.
def stakeRange? : Entry → Option BlockRange
  | .asked (.stakeEvents _ _ range) _ => some range
  | _ => none

def hubRange? : Entry → Option BlockRange
  | .asked (.hubEvents kinds _ range) _ => if kinds = EventKind.ofHub then some range else none
  | _ => none

end Entry

def PollFailure.registration? : PollFailure → Option RegistrationFailure
  | .initialisation cause | .cycle cause => some cause
  | .blockNumber _ | .hubEvents _ => none

def Call.scans : Call → Bool
  | .blockNumber | .stakeEvents .. => true
  | .hubEvents kinds .. => kinds = EventKind.ofHub
  | _ => false

structure Ranges (entries : List Entry) (blocks : List UInt64) (hub stake : List BlockRange) : Prop where
  blocks : entries.filterMap Entry.block? = blocks
  hub : entries.filterMap Entry.hubRange? = hub
  stake : entries.filterMap Entry.stakeRange? = stake

theorem Ranges.append {first second : List Entry} {blocks others hub more stake rest}
    (one : Ranges first blocks hub stake) (two : Ranges second others more rest) :
    Ranges (first ++ second) (blocks ++ others) (hub ++ more) (stake ++ rest) where
  blocks := by rw [List.filterMap_append, one.blocks, two.blocks]
  hub := by rw [List.filterMap_append, one.hub, two.hub]
  stake := by rw [List.filterMap_append, one.stake, two.stake]

theorem Asks.rangeless {among : Call → Bool} {entries : List Entry} (asks : Asks among entries)
    (apart : ∀ call, among call = true → call.scans = false) : Ranges entries [] [] [] := by
  refine ⟨asks.unseen _ ?_, asks.unseen _ ?_, asks.unseen _ ?_⟩
  all_goals
    intro entry asked
    cases entry with
    | asked call reply =>
      have other := apart call (asked call rfl)
      cases call with
      | blockNumber | stakeEvents => cases other
      | hubEvents => first | rfl | exact if_neg (of_decide_eq_false other)
      | _ => rfl
    | _ => rfl

theorem Call.turns_apart (call : Call) (turns : call.turns = true) : call.scans = false := by
  cases call with
  | blockNumber | stakeEvents | hubEvents => cases turns
  | _ => rfl

theorem Call.gated_apart (call : Call) (gated : call.gated = true) : call.scans = false := by
  cases call with
  | blockNumber | stakeEvents | hubEvents => cases gated
  | _ => rfl

theorem rangeless_quiet {entries : List Entry} (quiet : Manager.Quiet entries) :
    Ranges entries [] [] [] :=
  ⟨quiet.filterMap _ fun _ => rfl, quiet.filterMap _ fun _ => rfl, quiet.filterMap _ fun _ => rfl⟩

namespace Effect

theorem Readies.rangeless {m r added m'} (run : Readies m r added m') : Ranges added [] [] [] := by
  cases run with
  | known ready => exact ⟨rfl, rfl, rfl⟩
  | first fresh run => cases run <;> exact ⟨rfl, rfl, rfl⟩

theorem FetchesRecord.rangeless {m r added m'} (run : FetchesRecord m r added m') :
    Ranges added [] [] [] := by
  cases run <;> exact ⟨rfl, rfl, rfl⟩

theorem fetchEntries_ranges (m : Manager) (scanned current : UInt64) (events : List EventRecord) :
    Ranges (fetchEntries m scanned current events) [] [] [.since scanned current] :=
  ⟨fetchEntries_view _ (fun _ => rfl) m scanned current events,
    fetchEntries_view _ (fun _ => rfl) m scanned current events,
    fetchEntries_view _ (fun _ => rfl) m scanned current events⟩

theorem observeRecord_rangeless (record : RelayRecord) (m : Manager) :
    Ranges (Manager.observeRecord record m).2 [] [] [] := by
  have all {α : Type} (view : Entry → Option α) (deaf : ∀ notice, view (.logged notice) = none)
      (emitted : view (.emitted .removed) = none) :
      (Manager.observeRecord record m).2.filterMap view = [] :=
    List.filterMap_eq_nil_iff.mpr (Manager.observeRecord_all m deaf record emitted)
  exact ⟨all _ (fun _ => rfl) rfl, all _ (fun _ => rfl) rfl, all _ (fun _ => rfl) rfl⟩

theorem Scans.ranges {hubEvents scanned current m r added m'}
    (run : Scans hubEvents scanned current m r added m') (ready : m.initialized = true) :
    Ranges added [] [] [.since scanned current] := by
  have turns {events m r added m'} (run : InTurn (Handles current) events m r added m') :
      Ranges added [] [] [] := (turns_ask run).rangeless Call.turns_apart
  cases run with
  | idle fresh =>
    rw [ready] at fresh
    cases fresh
  | unread ready failure => exact ⟨rfl, rfl, rfl⟩
  | stopped ready handling => exact (fetchEntries_ranges m scanned current _).append (turns handling)
  | recordless ready handling record =>
    exact ((fetchEntries_ranges m scanned current _).append (turns handling)).append record.rangeless
  | @done _ events _ _ middle record _ ready handling found =>
    have fetched := ((fetchEntries_ranges m scanned current events).append (turns handling)).append
      found.rangeless
    exact fetched.append (observeRecord_rangeless record middle)

theorem Cycles.ranges {hubEvents scanned current force m r added m'}
    (run : Cycles hubEvents scanned current force m r added m') (ready : m.initialized = true) :
    Ranges added [] [] [.since scanned current] := by
  cases run with
  | scanFailed scan => exact scan.ranges ready
  | releaseFailed scan release =>
    exact (scan.ranges ready).append (release.asks.rangeless Call.turns_apart)
  | registerFailed scan release register | done scan release register =>
    have released := (scan.ranges ready).append (release.asks.rangeless Call.turns_apart)
    exact released.append (register.asks.rangeless Call.gated_apart)

theorem Readies.initialized {m added m'} (run : Readies m (.ok ()) added m') : m'.initialized = true := by
  cases run with
  | known ready => exact ready
  | first fresh run => cases run <;> rfl

theorem Readies.proper {m failure added m'} (run : Readies m (.error failure) added m') :
    failure.misuse = false := by
  cases run with
  | first fresh run =>
    cases run with
    | again ready =>
      rw [fresh] at ready
      cases ready
    | @unsettled _ fault fresh faulty => cases fault <;> rfl
    | unread fresh bare failure => rfl

end Effect

open Effect

namespace Poller

-- What a poll has asked for when it ends. A poll that goes as far as to ask for events has read the
-- current block, and all its ranges are the one up to that block.
inductive Looks (scanned : UInt64) :
    Except PollFailure (Outcome × UInt64) → List UInt64 → List BlockRange → List BlockRange → Prop
  | failed {failure blocks hub stake}
      (within : ∀ range ∈ hub ++ stake, ∃ current, blocks = [current] ∧ range = .since scanned current) :
      Looks scanned (.error failure) blocks hub stake
  | idle {current} (old : current ≤ scanned) : Looks scanned (.ok ({}, scanned)) [current] [] []
  | moved {outcome current} (newer : scanned < current) :
      Looks scanned (.ok (outcome, current)) [current] [.since scanned current] [.since scanned current]

variable {scanned : UInt64} {m m' : Manager} {added : List Entry}

theorem hubQuery_ranges (m : Manager) (scanned current : UInt64)
    (reply : Except LedgerFailure (List EventRecord)) :
    Ranges [.asked (m.hubQuery scanned current) reply] [] [.since scanned current] [] :=
  ⟨rfl, rfl, rfl⟩

theorem block_ranges (current : UInt64) :
    Ranges [.asked .blockNumber (.ok current)] [current] [] [] := ⟨rfl, rfl, rfl⟩

theorem Opens.ranges {current hubEvents} (opens : Opens scanned current hubEvents m added m') :
    Ranges added [current] [.since scanned current] [] := by
  cases opens with
  | opened ready newer balance =>
    have asked := (balance.asks.rangeless Call.turns_apart).append
      (hubQuery_ranges m' scanned current (.ok hubEvents))
    exact ready.rangeless.append ((block_ranges current).append asked)

theorem Opens.initialized {current hubEvents} (opens : Opens scanned current hubEvents m added m') :
    m'.initialized = true := by
  cases opens with
  | opened ready newer balance =>
    cases balance with
    | read amount => exact ready.initialized

theorem Stops.looks {r} (stop : Stops scanned m r added m') :
    ∃ blocks hub stake, Ranges added blocks hub stake ∧ Looks scanned r blocks hub stake := by
  cases stop with
  | unready ready => exact ⟨[], [], [], ready.rangeless, .failed (by simp)⟩
  | blockless ready failure =>
    refine ⟨[], [], [], ready.rangeless.append ⟨rfl, rfl, rfl⟩, .failed (by simp)⟩
  | idle ready current old =>
    exact ⟨[current], [], [], ready.rangeless.append ⟨rfl, rfl, rfl⟩, .idle old⟩
  | unread ready current balance =>
    have asked := (block_ranges current).append (balance.asks.rangeless Call.turns_apart)
    exact ⟨[current], [], [], ready.rangeless.append asked, .failed (by simp)⟩
  | unheard ready current balance failure =>
    have asked := (balance.asks.rangeless Call.turns_apart).append
      (hubQuery_ranges m' scanned current (.error failure))
    exact ⟨[current], [.since scanned current], [],
      ready.rangeless.append ((block_ranges current).append asked), .failed (by simp)⟩

theorem Polls.looks {r} (run : Polls scanned m r added m') :
    ∃ blocks hub stake, Ranges added blocks hub stake ∧ Looks scanned r blocks hub stake := by
  cases run with
  | stopped stop => exact stop.looks
  | failed opens cycle =>
    exact ⟨_, _, _, opens.ranges.append (cycle.ranges opens.initialized), .failed (by simp)⟩
  | @done current _ _ _ outcome _ _ opens cycle =>
    have cycled := (cycle.ranges opens.initialized).append
      (rangeless_quiet (submissionNotice_quiet outcome current))
    exact ⟨_, _, _, opens.ranges.append cycled, .moved opens.parts.1⟩

namespace Looks

variable {r : Except PollFailure (Outcome × UInt64)} {blocks : List UInt64} {hub stake : List BlockRange}

theorem onward (looks : Looks scanned r blocks hub stake) : scanned ≤ scannedAfter scanned r := by
  cases looks with
  | failed | idle => exact UInt64.le_refl _
  | moved newer => exact UInt64.le_of_lt newer

theorem moves (looks : Looks scanned r blocks hub stake) (moved : scannedAfter scanned r ≠ scanned) :
    (r.map Prod.fst).isOk = true ∧ blocks = [scannedAfter scanned r] := by
  cases looks with
  | failed | idle => exact absurd rfl moved
  | moved newer => exact ⟨rfl, rfl⟩

theorem asks (looks : Looks scanned r blocks hub stake) :
    ∀ range ∈ hub ++ stake, ∃ current, blocks = [current] ∧ range = ⟨scanned + 1, some current⟩ := by
  cases looks with
  | failed within => exact within
  | idle old => simp
  | @moved _ current newer =>
    intro range member
    have same : range = .since scanned current := by simpa using member
    exact ⟨current, rfl, same⟩

theorem scans (looks : Looks scanned r blocks hub stake) (ok : (r.map Prod.fst).isOk = true) :
    hub = stake ∧ stake =
      if scannedAfter scanned r = scanned then [] else [⟨scanned + 1, some (scannedAfter scanned r)⟩] := by
  cases looks with
  | failed => cases ok
  | idle old => exact ⟨rfl, (if_pos rfl).symm⟩
  | moved newer => exact ⟨rfl, (if_neg (UInt64.ne_of_lt newer).symm).symm⟩

theorem reads (looks : Looks scanned r blocks hub stake) (ok : (r.map Prod.fst).isOk = true) :
    ∃ current, blocks = [current] ∧
      scannedAfter scanned r = if scanned < current then current else scanned := by
  cases looks with
  | failed => cases ok
  | idle old => exact ⟨_, rfl, (if_neg (UInt64.not_lt.mpr old)).symm⟩
  | moved newer => exact ⟨_, rfl, (if_pos newer).symm⟩

end Looks

-- A poll readies the manager before its cycle, and only once.
theorem Polls.proper {failure cause} (run : Polls scanned m (.error failure) added m')
    (reported : failure.registration? = some cause) : cause.misuse = false := by
  cases run with
  | stopped stop =>
    cases stop with
    | unready ready =>
      cases reported
      exact ready.proper
    | unread ready current balance =>
      cases reported
      exact balance.blames.proper
    | blockless | unheard => cases reported
  | failed opens cycle =>
    cases reported
    rcases cycle.blames opens.initialized with blames | ⟨_, rfl, _⟩
    · exact blames.proper
    · rfl

end Poller

-- Ranges that follow one another: the first begins after the block `start`, each of the others after the
-- end of the one before it, and the last ends at the block `stop`.
inductive Covers (start : UInt64) : List BlockRange → UInt64 → Prop
  | nothing : Covers start [] start
  | next {ranges middle stop} (before : Covers start ranges middle) (newer : middle < stop) :
      Covers start (ranges ++ [⟨middle + 1, some stop⟩]) stop

namespace Covers

variable {start stop : UInt64} {ranges : List BlockRange}

theorem ordered (covers : Covers start ranges stop) : start ≤ stop := by
  induction covers with
  | nothing => exact UInt64.le_refl _
  | next _ newer ih => exact UInt64.le_trans ih (UInt64.le_of_lt newer)

theorem once (covers : Covers start ranges stop) (block : UInt64) :
    ranges.countP (·.holds block) = if start < block ∧ block ≤ stop then 1 else 0 := by
  induction covers with
  | nothing =>
    rw [if_neg]
    · rfl
    · rintro ⟨above, below⟩
      exact UInt64.not_le.mpr above below
  | @next ranges middle stop before newer ih =>
    have begun := before.ordered
    have held := BlockRange.since_holds newer block
    unfold BlockRange.since at held
    rw [List.countP_append, ih, List.countP_singleton, held]
    simp only [UInt64.lt_iff_toNat_lt, UInt64.le_iff_toNat_le, Bool.and_eq_true,
      decide_eq_true_eq] at *
    split_ifs <;> omega

end Covers

section

variable {ω : Type} (c : Collaborators ω)

def Poller.scans : Nat → Poller ω → List BlockRange
  | 0, _ => []
  | n + 1, p =>
    let before := Poller.polls c n p
    let ran := before.pollOnce c
    scans n p ++
      if ran.1.isOk then (before.session.adds ran.2.session).filterMap Entry.stakeRange? else []

theorem pollOnce_looks (p : Poller ω) :
    ∃ r blocks hub stake, (p.pollOnce c).1 = r.map Prod.fst ∧
      (p.pollOnce c).2.scanned = Poller.scannedAfter p.scanned r ∧
      Ranges (p.session.adds (p.pollOnce c).2.session) blocks hub stake ∧
      Poller.Looks p.scanned r blocks hub stake := by
  obtain ⟨r, added, result, journal, polled, scanned⟩ := Poller.pollOnce_returns c p
  obtain ⟨blocks, hub, stake, ranges, looks⟩ := polled.looks
  rw [adds_eq journal]
  exact ⟨r, blocks, hub, stake, result, scanned, ranges, looks⟩

theorem pollOnce_proper {p : Poller ω} {failure : PollFailure} {cause : RegistrationFailure}
    (failed : (p.pollOnce c).1 = .error failure) (reported : failure.registration? = some cause) :
    cause ≠ .notInitialized ∧ cause ≠ .alreadyInitialized := by
  obtain ⟨r, _, given, _, polled, _⟩ := Poller.pollOnce_returns c p
  rw [failed] at given
  cases r with
  | ok done => cases given
  | error failed =>
    cases given
    have use := polled.proper reported
    constructor <;> rintro rfl <;> cases use

theorem polls_cover (p : Poller ω) (n : Nat) :
    Covers p.scanned (Poller.scans c n p) (Poller.polls c n p).scanned := by
  induction n with
  | zero => exact .nothing
  | succ n ih =>
    obtain ⟨r, blocks, hub, stake, result, scanned, ranges, looks⟩ :=
      pollOnce_looks c (Poller.polls c n p)
    change Covers p.scanned (_ ++ _) (Poller.pollOnce c _).2.scanned
    rw [result, scanned, ranges.stake]
    cases looks with
    | failed within =>
      rw [← List.append_nil (Poller.scans c n p)] at ih
      exact ih
    | idle old =>
      rw [← List.append_nil (Poller.scans c n p)] at ih
      exact ih
    | moved newer => exact .next ih newer

-- The scanned block moves only with a poll that succeeds. Such a poll has read one block, and moves to it if it is a
-- new one. The ranges of these polls follow one another, so each block was covered by one of them. When a poll
-- succeeds is not said here.
theorem scans_contiguous (p : Poller ω) (n : Nat) :
    let before := Poller.polls c n p
    let ran := before.pollOnce c
    let added := before.session.adds ran.2.session
    before.scanned ≤ ran.2.scanned ∧
      (ran.2.scanned ≠ before.scanned →
        ran.1.isOk = true ∧ added.filterMap Entry.block? = [ran.2.scanned]) ∧
      (∀ range ∈ added.filterMap Entry.hubRange? ++ added.filterMap Entry.stakeRange?,
        ∃ current, added.filterMap Entry.block? = [current] ∧
          range = ⟨before.scanned + 1, some current⟩) ∧
      (ran.1.isOk = true →
        added.filterMap Entry.hubRange? = added.filterMap Entry.stakeRange? ∧
        added.filterMap Entry.stakeRange? =
          if ran.2.scanned = before.scanned then [] else [⟨before.scanned + 1, some ran.2.scanned⟩]) ∧
      (ran.1.isOk = true → ∃ current, added.filterMap Entry.block? = [current] ∧
        ran.2.scanned = if before.scanned < current then current else before.scanned) ∧
      Covers p.scanned (Poller.scans c n p) before.scanned ∧
      (∀ block, (Poller.scans c n p).countP (·.holds block) =
        if p.scanned < block ∧ block ≤ before.scanned then 1 else 0) ∧
      ∀ failure cause, ran.1 = .error failure → failure.registration? = some cause →
        cause ≠ .notInitialized ∧ cause ≠ .alreadyInitialized := by
  intro before ran added
  obtain ⟨r, blocks, hub, stake, result, scanned, ranges, looks⟩ := pollOnce_looks c before
  have covers := polls_cover c p n
  have proper : ∀ failure cause, ran.1 = .error failure → failure.registration? = some cause →
      cause ≠ .notInitialized ∧ cause ≠ .alreadyInitialized := fun _ _ => pollOnce_proper c
  have shown : ran.1 = r.map Prod.fst ∧ ran.2.scanned = Poller.scannedAfter before.scanned r :=
    ⟨result, scanned⟩
  rw [shown.1, shown.2, ranges.blocks, ranges.hub, ranges.stake]
  exact ⟨looks.onward, looks.moves, looks.asks, looks.scans, looks.reads, covers, covers.once,
    shown.1 ▸ proper⟩

end

end TransactionRelay
