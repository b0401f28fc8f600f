import Mathlib.Data.List.Chain
import TransactionRelay.Requirement

namespace TransactionRelay.Requirement

def calls (r : Requirement) (amounts : List Wei) : List Requirement :=
  (writes (fun seen before => before ++ [seen]) r amounts []).2

def standing (r : Requirement) (amounts : List Wei) : Wei := amounts.getLastD r.current

variable (r : Requirement)

@[simp] theorem store_store (first amount : Wei) : (r.store first).store amount = r.store amount := rfl

theorem changed_of_flips {r : Requirement} {amount : Wei} (flips : r.flips amount = true) :
    (r.store amount).satisfied ≠ r.satisfied :=
  bne_iff_ne.mp flips

theorem kept_of_silent {r : Requirement} {amount : Wei} (silent : ¬ r.flips amount = true) :
    (r.store amount).satisfied = r.satisfied :=
  not_ne_iff.mp (mt bne_iff_ne.mpr silent)

theorem standing_concat (amounts : List Wei) (amount : Wei) : r.standing (amounts ++ [amount]) = amount :=
  List.getLastD_concat ..

theorem writes_concat (listener : Requirement → σ → σ) (amounts : List Wei) (amount : Wei) (heard : σ) :
    writes listener r (amounts ++ [amount]) heard =
      write listener (writes listener r amounts heard).1 amount (writes listener r amounts heard).2 := by
  rw [writes, List.foldl_append]
  rfl

theorem tracker_writes (listener : Requirement → σ → σ) (amounts : List Wei) (heard : σ) :
    (writes listener r amounts heard).1 = r.store (r.standing amounts) := by
  induction amounts using List.reverseRecOn with
  | nil => rfl
  | append_singleton amounts amount ih =>
    rw [writes_concat, write, ih, standing_concat, store_store]

theorem flips_iff (amounts : List Wei) (amount : Wei) : (r.store (r.standing amounts)).flips amount = true ↔
    ¬ (r.minimum ≤ amount ↔ r.minimum ≤ r.standing amounts) := by
  rw [flips, bne_iff_ne, ne_eq, store_store, satisfied, satisfied, decide_eq_decide]
  rfl

theorem calls_concat (amounts : List Wei) (amount : Wei) : r.calls (amounts ++ [amount]) =
    r.calls amounts ++ if (r.store (r.standing amounts)).flips amount then [r.store amount] else [] := by
  rw [calls, writes_concat, write, tracker_writes, store_store]
  split
  next => rfl
  next => exact (List.append_nil _).symm

-- What any listener makes of the writes, it makes of those calls.
theorem heard_writes (listener : Requirement → σ → σ) (amounts : List Wei) (heard : σ) :
    (writes listener r amounts heard).2 =
      (r.calls amounts).foldl (fun heard seen => listener seen heard) heard := by
  induction amounts using List.reverseRecOn with
  | nil => rfl
  | append_singleton amounts amount ih =>
    rw [writes_concat, write, tracker_writes, ih, calls_concat, store_store, List.foldl_append]
    split <;> rfl

def answers (amounts : List Wei) : List Bool := r.satisfied :: (r.calls amounts).map satisfied

theorem answers_concat (amounts : List Wei) (amount : Wei) : r.answers (amounts ++ [amount]) =
    r.answers amounts ++
      if (r.store (r.standing amounts)).flips amount then [(r.store amount).satisfied] else [] := by
  rw [answers, calls_concat, List.map_append, ← List.cons_append]
  split <;> rfl

-- The last answer that was told is the answer now.
theorem last_answer (amounts : List Wei) :
    (r.answers amounts).getLast? = some (r.store (r.standing amounts)).satisfied := by
  induction amounts using List.reverseRecOn with
  | nil => rfl
  | append_singleton amounts amount ih =>
    rw [answers_concat, standing_concat]
    split
    next => exact List.getLast?_concat
    next silent =>
      rw [List.append_nil, ih]
      exact congrArg some (kept_of_silent silent).symm

theorem answers_alternate (amounts : List Wei) : (r.answers amounts).IsChain (· ≠ ·) := by
  induction amounts using List.reverseRecOn with
  | nil => exact List.isChain_singleton _
  | append_singleton amounts amount ih =>
    rw [answers_concat]
    split
    next flips =>
      refine List.isChain_append.mpr ⟨ih, List.isChain_singleton _, fun before last now same => ?_⟩
      rw [last_answer] at last
      cases last
      cases same
      exact (changed_of_flips flips).symm
    next => rwa [List.append_nil]

theorem answer_by_count (amounts : List Wei) :
    (r.store (r.standing amounts)).satisfied = r.satisfied ↔ (r.calls amounts).length % 2 = 0 := by
  induction amounts using List.reverseRecOn with
  | nil => exact ⟨fun _ => rfl, fun _ => rfl⟩
  | append_singleton amounts amount ih =>
    rw [standing_concat, calls_concat]
    split
    next flips =>
      have changed : (r.store amount).satisfied ≠ (r.store (r.standing amounts)).satisfied :=
        changed_of_flips flips
      rw [Bool.eq_not_of_ne changed, Bool.not_eq, ne_eq, ih, List.length_append, List.length_singleton]
      omega
    next silent =>
      have kept : (r.store (r.standing amounts)).satisfied = (r.store amount).satisfied :=
        (kept_of_silent silent).symm
      rw [List.append_nil, ← kept, ih]

-- The answers alternate, and the last one told stands: it is the one at the start exactly if the number of calls is
-- even. Another listener makes of the writes what it makes of these calls.
theorem flips_are_announced (r : Requirement) :
    r.calls [] = [] ∧
    (∀ amounts amount, r.calls (amounts ++ [amount]) = r.calls amounts ++
      if r.minimum ≤ amount ↔ r.minimum ≤ amounts.getLastD r.current then [] else [{ r with current := amount }]) ∧
    ∀ amounts : List Wei,
      (r.satisfied :: (r.calls amounts).map satisfied).IsChain (· ≠ ·) ∧
      (decide (r.minimum ≤ amounts.getLastD r.current) = r.satisfied ↔ (r.calls amounts).length % 2 = 0) ∧
      ∀ {σ : Type} (listener : Requirement → σ → σ) (heard : σ), writes listener r amounts heard =
        ({ r with current := amounts.getLastD r.current },
          (r.calls amounts).foldl (fun heard seen => listener seen heard) heard) := by
  refine ⟨rfl, fun amounts amount => ?each, fun amounts => ⟨r.answers_alternate amounts,
    r.answer_by_count amounts, fun listener heard => ?listening⟩⟩
  case each =>
    rw [calls_concat]
    by_cases same : r.minimum ≤ amount ↔ r.minimum ≤ amounts.getLastD r.current
    · rw [if_pos same, if_neg fun flips => (r.flips_iff amounts amount).mp flips same]
    · rw [if_neg same, if_pos ((r.flips_iff amounts amount).mpr same)]
      rfl
  case listening =>
    exact Prod.ext (r.tracker_writes listener amounts heard) (r.heard_writes listener amounts heard)

example : (calls { label := "Balance", minimum := 10 } [5, 10, 20, 20, 9, 1]).map current = [10, 9] := by decide

end TransactionRelay.Requirement
