import TransactionRelay.Selection.TierPool

namespace TransactionRelay.TierPool

def waitingIn (entries : List PoolEntry) : List RelayRecord :=
  (entries.filter (!·.issued)).map (·.relay)

def waiting (pool : TierPool) : List RelayRecord := waitingIn pool.tiers.flatten

theorem waitingIn_append (first second : List PoolEntry) :
    waitingIn (first ++ second) = waitingIn first ++ waitingIn second := by
  rw [waitingIn, List.filter_append, List.map_append]
  rfl

theorem waitingIn_eq_nil {entries : List PoolEntry} :
    waitingIn entries = [] ↔ ∀ entry ∈ entries, entry.issued = true := by
  simp [waitingIn]

theorem exhausted_iff (pool : TierPool) : pool.exhausted = true ↔ pool.waiting = [] := by
  rw [waiting, waitingIn_eq_nil]
  simp only [exhausted, List.all_eq_true, List.mem_flatten]
  constructor
  · rintro all entry ⟨tier, member, inside⟩
    exact all tier member entry inside
  · intro all tier member entry inside
    exact all entry ⟨tier, member, inside⟩

theorem ofTiers_records (tiers : List (List RelayRecord)) : (ofTiers tiers).records = tiers := by
  simp [records, ofTiers, Function.comp_def]

theorem issue_records (size : Nat) (tier : List PoolEntry) :
    (issue size tier).2.map (·.relay) = tier.map (·.relay) := by
  fun_induction issue size tier with
  | case1 => rfl
  | case2 => rfl
  | case3 size entry rest marked later ih => simp only [List.map_cons, later, ih]
  | case4 size entry rest unmarked later ih => simp only [List.map_cons, later, ih]

theorem issueFirst_records (size : Nat) (tiers : List (List PoolEntry)) :
    (issueFirst size tiers).2.map (·.map (·.relay)) = tiers.map (·.map (·.relay)) := by
  fun_induction issueFirst size tiers with
  | case1 => rfl
  | case2 tier lower some slice => simp only [List.map_cons, slice, issue_records]
  | case3 tier lower none slice ih => simp only [List.map_cons, slice, ih]

theorem nextSlice_records (pool : TierPool) (size : Nat) :
    (pool.nextSlice size).2.records = pool.records := issueFirst_records size pool.tiers

theorem removeUrls_records (pool : TierPool) (urls : List String) :
    (pool.removeUrls urls).records =
      pool.records.map (·.filter fun relay => !urls.contains relay.url) := by
  simp only [records, removeUrls, List.map_map]
  refine List.map_congr_left fun tier _ => ?_
  simp only [Function.comp_apply, List.filter_map]
  rfl

theorem issue_length (size : Nat) (tier : List PoolEntry) : (issue size tier).1.length ≤ size := by
  fun_induction issue size tier with
  | case1 => simp
  | case2 => simp
  | case3 size entry rest marked later ih => exact ih
  | case4 size entry rest unmarked later ih => simpa using ih

theorem issueFirst_length (size : Nat) (tiers : List (List PoolEntry)) :
    (issueFirst size tiers).1.length ≤ size := by
  fun_induction issueFirst size tiers with
  | case1 => simp
  | case2 tier lower some slice => exact issue_length size tier
  | case3 tier lower none slice ih => exact ih

theorem nextSlice_length (pool : TierPool) (size : Nat) : (pool.nextSlice size).1.length ≤ size :=
  issueFirst_length size pool.tiers

theorem issue_waiting (size : Nat) (tier : List PoolEntry) :
    ((issue size tier).1 ++ waitingIn (issue size tier).2).Perm (waitingIn tier) := by
  fun_induction issue size tier with
  | case1 => rfl
  | case2 => rfl
  | case3 size entry rest marked later ih =>
    simpa [waitingIn, marked] using ih
  | case4 size entry rest unmarked later ih =>
    simpa [waitingIn, unmarked] using ih

theorem issueFirst_waiting (size : Nat) (tiers : List (List PoolEntry)) :
    ((issueFirst size tiers).1 ++ waitingIn (issueFirst size tiers).2.flatten).Perm
      (waitingIn tiers.flatten) := by
  fun_induction issueFirst size tiers with
  | case1 => rfl
  | case2 tier lower some slice =>
    simp only [List.flatten_cons, waitingIn_append]
    rw [← List.append_assoc]
    exact (issue_waiting size tier).append_right _
  | case3 tier lower none slice ih =>
    have marked : waitingIn tier = [] := by
      rw [waitingIn_eq_nil]
      simpa using none
    simpa only [List.flatten_cons, waitingIn_append, marked, List.nil_append] using ih

theorem nextSlice_waiting (pool : TierPool) (size : Nat) :
    ((pool.nextSlice size).1 ++ (pool.nextSlice size).2.waiting).Perm pool.waiting :=
  issueFirst_waiting size pool.tiers

theorem waiting_subset (pool : TierPool) : pool.waiting ⊆ pool.records.flatten := by
  intro relay member
  obtain ⟨entry, waits, rfl⟩ := List.mem_map.mp member
  rw [records, ← List.map_flatten]
  exact List.mem_map_of_mem (List.mem_filter.mp waits).1

theorem nextSlice_subset (pool : TierPool) (size : Nat) : (pool.nextSlice size).1 ⊆ pool.records.flatten := by
  intro relay member
  apply pool.waiting_subset
  exact (pool.nextSlice_waiting size).subset (List.mem_append_left _ member)

theorem removeUrls_waiting (pool : TierPool) (urls : List String) :
    (pool.removeUrls urls).waiting = pool.waiting.filter fun relay => !urls.contains relay.url := by
  simp only [waiting, waitingIn, removeUrls, List.filter_map]
  rw [← List.filter_flatten, List.filter_filter, List.filter_filter]
  congr 1
  refine List.filter_congr fun entry _ => ?_
  exact Bool.and_comm _ _

theorem issue_eq_nil {size : Nat} (positive : 0 < size) (tier : List PoolEntry) :
    (issue size tier).1 = [] ↔ waitingIn tier = [] := by
  fun_induction issue size tier with
  | case1 => simp [waitingIn]
  | case2 => cases positive
  | case3 size entry rest marked later ih => simpa [waitingIn, marked] using ih positive
  | case4 size entry rest unmarked later ih => simp [waitingIn, unmarked]

theorem issueFirst_eq_nil {size : Nat} (positive : 0 < size) (tiers : List (List PoolEntry)) :
    (issueFirst size tiers).1 = [] ↔ waitingIn tiers.flatten = [] := by
  fun_induction issueFirst size tiers with
  | case1 => simp [waitingIn]
  | case2 tier lower some slice =>
    have waits : waitingIn tier ≠ [] := by
      rw [Ne, waitingIn_eq_nil]
      simpa using some
    simp only [List.flatten_cons, waitingIn_append, List.append_eq_nil_iff]
    exact ⟨fun none => absurd ((issue_eq_nil positive tier).mp none) waits,
      fun none => absurd none.1 waits⟩
  | case3 tier lower none slice ih =>
    have marked : waitingIn tier = [] := by
      rw [waitingIn_eq_nil]
      simpa using none
    simpa only [List.flatten_cons, waitingIn_append, marked, List.nil_append] using ih

theorem nextSlice_eq_nil {size : Nat} (positive : 0 < size) (pool : TierPool) :
    (pool.nextSlice size).1 = [] ↔ pool.exhausted = true := by
  rw [exhausted_iff]
  exact issueFirst_eq_nil positive pool.tiers

theorem issue_unchanged {size : Nat} {tier : List PoolEntry} (none : (issue size tier).1 = []) :
    (issue size tier).2 = tier := by
  fun_induction issue size tier with
  | case1 => rfl
  | case2 => rfl
  | case3 size entry rest marked later ih => rw [ih none]
  | case4 size entry rest unmarked later ih => cases none

theorem issueFirst_unchanged {size : Nat} {tiers : List (List PoolEntry)}
    (none : (issueFirst size tiers).1 = []) : (issueFirst size tiers).2 = tiers := by
  fun_induction issueFirst size tiers with
  | case1 => rfl
  | case2 tier lower some slice => exact congrArg (· :: lower) (issue_unchanged none)
  | case3 tier lower marked slice ih => rw [ih none]

-- An empty slice marks nothing.
theorem nextSlice_unchanged {pool : TierPool} {size : Nat} (none : (pool.nextSlice size).1 = []) :
    (pool.nextSlice size).2 = pool :=
  congrArg TierPool.mk (issueFirst_unchanged none)

end TransactionRelay.TierPool
