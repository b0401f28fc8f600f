import TransactionRelay.Relay

namespace TransactionRelay

-- A record that was handed out stays until its url is removed.
structure PoolEntry where
  relay : RelayRecord
  issued : Bool := false
  deriving DecidableEq, Repr

structure TierPool where
  tiers : List (List PoolEntry) := []
  deriving DecidableEq, Repr

namespace TierPool

def ofTiers (tiers : List (List RelayRecord)) : TierPool :=
  ⟨tiers.map fun tier => tier.map fun relay => { relay }⟩

def issue : Nat → List PoolEntry → List RelayRecord × List PoolEntry
  | _, [] => ([], [])
  | 0, entries => ([], entries)
  | size + 1, entry :: rest =>
    if entry.issued then
      let later := issue (size + 1) rest
      (later.1, entry :: later.2)
    else
      let later := issue size rest
      (entry.relay :: later.1, { entry with issued := true } :: later.2)

def issueFirst (size : Nat) : List (List PoolEntry) → List RelayRecord × List (List PoolEntry)
  | [] => ([], [])
  | tier :: lower =>
    if tier.any (!·.issued) then
      let slice := issue size tier
      (slice.1, slice.2 :: lower)
    else
      let slice := issueFirst size lower
      (slice.1, tier :: slice.2)

def nextSlice (pool : TierPool) (size : Nat) : List RelayRecord × TierPool :=
  let slice := issueFirst size pool.tiers
  (slice.1, ⟨slice.2⟩)

def removeUrls (pool : TierPool) (urls : List String) : TierPool :=
  ⟨pool.tiers.map fun tier => tier.filter fun entry => !urls.contains entry.relay.url⟩

def records (pool : TierPool) : List (List RelayRecord) :=
  pool.tiers.map fun tier => tier.map (·.relay)

def size (pool : TierPool) : Nat := pool.tiers.flatten.length

def isEmpty (pool : TierPool) : Bool := pool.size == 0

def exhausted (pool : TierPool) : Bool := pool.tiers.all fun tier => tier.all (·.issued)

def openIn (entries : List PoolEntry) : Nat := entries.countP (!·.issued)

def openCount (pool : TierPool) : Nat := openIn pool.tiers.flatten

theorem openIn_cons (entry : PoolEntry) (rest : List PoolEntry) :
    openIn (entry :: rest) = openIn rest + if entry.issued then 0 else 1 := by
  cases marked : entry.issued <;> simp [openIn, marked]

theorem openIn_append (upper lower : List PoolEntry) :
    openIn (upper ++ lower) = openIn upper + openIn lower :=
  List.countP_append

theorem open_issue (size : Nat) (tier : List PoolEntry) :
    openIn (issue size tier).2 + (issue size tier).1.length = openIn tier := by
  induction tier generalizing size with
  | nil => rfl
  | cons entry rest ih =>
    cases size with
    | zero => rfl
    | succ size =>
      unfold issue
      split
      · rename_i marked
        dsimp only
        rw [openIn_cons, openIn_cons, if_pos marked, ← ih (size + 1)]
        omega
      · rename_i unmarked
        dsimp only
        rw [openIn_cons, openIn_cons, if_pos rfl, if_neg unmarked, ← ih size, List.length_cons]
        omega

theorem open_issueFirst (size : Nat) (tiers : List (List PoolEntry)) :
    openIn (issueFirst size tiers).2.flatten + (issueFirst size tiers).1.length =
      openIn tiers.flatten := by
  induction tiers with
  | nil => rfl
  | cons tier lower ih =>
    unfold issueFirst
    split
    · dsimp only
      rw [List.flatten_cons, List.flatten_cons, openIn_append, openIn_append, ← open_issue size tier]
      omega
    · dsimp only
      rw [List.flatten_cons, List.flatten_cons, openIn_append, openIn_append, ← ih]
      omega

theorem open_nextSlice (pool : TierPool) (size : Nat) :
    (pool.nextSlice size).2.openCount + (pool.nextSlice size).1.length = pool.openCount :=
  open_issueFirst size pool.tiers

theorem open_removeUrls (pool : TierPool) (urls : List String) :
    (pool.removeUrls urls).openCount ≤ pool.openCount := by
  unfold openCount removeUrls
  rw [← List.filter_flatten]
  exact List.Sublist.countP_le List.filter_sublist

end TierPool
end TransactionRelay
