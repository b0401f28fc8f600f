import Mathlib.Data.List.Induction
import TransactionRelay.Text.Digits

namespace TransactionRelay.Text

structure Stands (radix : Nat) (c : Char) (d : Nat) : Prop where
  below : d < radix
  written : c.toLower = d.digitChar

-- At least one digit. A further one makes the value before it worth `radix` times as much.
inductive Numeral (radix : Nat) : List Char → Nat → Prop
  | digit {c d} (stands : Stands radix c d) : Numeral radix [c] d
  | further {front value c d} (leading : Numeral radix front value) (stands : Stands radix c d) :
      Numeral radix (front ++ [c]) (value * radix + d)

inductive Signed (radix : Nat) : List Char → Nat → Prop
  | plain {digits value} (numeral : Numeral radix digits value) : Signed radix digits value
  | plus {digits value} (numeral : Numeral radix digits value) : Signed radix ('+' :: digits) value

variable {radix bound value : Nat}

theorem toLower_eq {c lower : Char} (same : c.toLower = lower) :
    c = lower ∨ (65 ≤ c.toNat ∧ c.toNat ≤ 90 ∧ lower.toNat = c.toNat + 32) := by
  unfold Char.toLower at same
  split at same
  next range =>
    have first : 65 ≤ c.toNat := range.1
    have last : c.toNat ≤ 90 := range.2
    have code : lower.toNat = (c.toNat + 32) % 4294967296 := same ▸ rfl
    exact .inr ⟨first, last, by omega⟩
  next => exact .inl same

theorem digitValue_iff {c : Char} {d : Nat} (below : d < 16) :
    digitValue c = some d ↔ c.toLower = d.digitChar := by
  have ascii : ∀ code < 128, ∀ d < 16,
      (digitValue (Char.ofNat code) = some d ↔ (Char.ofNat code).toLower = Nat.digitChar d) := by
    decide +kernel
  by_cases small : c.toNat < 128
  · have known := ascii c.toNat small d below
    rwa [Char.ofNat_toNat] at known
  · -- Beyond these codes there is no digit, and no letter that has another case.
    have valueless : digitValue c = none := by
      have outside : ∀ last : Char, last.toNat < 128 → ¬ c ≤ last := by
        intro last within upTo
        have codes : c.toNat ≤ last.toNat := upTo
        omega
      rw [digitValue, if_neg fun range => outside '9' (by decide) range.2,
        if_neg fun range => outside 'z' (by decide) range.2,
        if_neg fun range => outside 'Z' (by decide) range.2]
    have same : c.toLower = c := by
      refine dif_neg fun range => ?_
      have codes : c.toNat ≤ 'Z'.toNat := range.2
      have last : 'Z'.toNat < 128 := by decide
      omega
    have digits : ∀ d < 16, (Nat.digitChar d).toNat < 128 := by decide
    rw [valueless, same]
    refine iff_of_false nofun fun written => small ?_
    rw [written]
    exact digits d below

theorem digitIn_iff (letters : radix ≤ 16) {c : Char} {d : Nat} :
    digitIn radix c = some d ↔ Stands radix c d := by
  rw [digitIn, Option.filter_eq_some_iff, decide_eq_true_eq]
  constructor
  · rintro ⟨worth, below⟩
    exact ⟨below, (digitValue_iff (by omega)).mp worth⟩
  · rintro ⟨below, written⟩
    exact ⟨(digitValue_iff (by omega)).mpr written, below⟩

theorem Stands.anyCase {c other : Char} {d : Nat} (stands : Stands radix c d)
    (same : other.toLower = c.toLower) : Stands radix other d :=
  ⟨stands.below, same.trans stands.written⟩

theorem numeral_further_iff {front : List Char} {c : Char} : Numeral radix (front ++ [c]) value ↔
    ∃ d, Stands radix c d ∧
      (front = [] ∧ value = d ∨ ∃ leading, Numeral radix front leading ∧ value = leading * radix + d) := by
  constructor
  · intro numeral
    generalize whole : front ++ [c] = text at numeral
    cases numeral with
    | digit stands =>
      rcases List.append_eq_singleton_iff.mp whole with ⟨rfl, same⟩ | ⟨_, wrong⟩
      · cases same
        exact ⟨_, stands, .inl ⟨rfl, rfl⟩⟩
      · cases wrong
    | further leading stands =>
      obtain ⟨rfl, same⟩ := List.append_inj' whole rfl
      cases same
      exact ⟨_, stands, .inr ⟨_, leading, rfl⟩⟩
  · rintro ⟨d, stands, ⟨rfl, rfl⟩ | ⟨leading, numeral, rfl⟩⟩
    · exact .digit stands
    · exact .further numeral stands

theorem Numeral.nonempty {digits : List Char} (numeral : Numeral radix digits value) : digits ≠ [] := by
  cases numeral with
  | digit => exact List.cons_ne_nil _ _
  | further => exact List.append_ne_nil_of_right_ne_nil _ (List.cons_ne_nil _ _)

theorem Numeral.stands {digits : List Char} (numeral : Numeral radix digits value) :
    ∀ c ∈ digits, ∃ d, Stands radix c d := by
  induction numeral with
  | digit stands =>
    intro c member
    cases List.mem_singleton.mp member
    exact ⟨_, stands⟩
  | further leading stands ih =>
    intro c member
    rcases List.mem_append.mp member with early | last
    · exact ih c early
    · cases List.mem_singleton.mp last
      exact ⟨_, stands⟩

theorem Numeral.anyCase {digits other : List Char} (numeral : Numeral radix digits value)
    (same : other.map Char.toLower = digits.map Char.toLower) : Numeral radix other value := by
  induction numeral generalizing other with
  | digit stands =>
    obtain ⟨c, rfl, lower⟩ := List.map_eq_singleton_iff.mp same
    exact .digit (stands.anyCase lower)
  | further leading stands ih =>
    rw [List.map_append] at same
    obtain ⟨front, last, rfl, fronts, lasts⟩ := List.map_eq_append_iff.mp same
    obtain ⟨c, rfl, lower⟩ := List.map_eq_singleton_iff.mp lasts
    exact .further (ih fronts) (stands.anyCase lower)

theorem numeral_toDigits (several : 1 < radix) (letters : radix ≤ 16) (n : Nat) :
    Numeral radix (Nat.toDigits radix n) n := by
  have lower : ∀ d < 16, (Nat.digitChar d).toLower = Nat.digitChar d := by decide
  induction n using Nat.strongRecOn with
  | ind n ih =>
    rw [Nat.toDigits_eq_if several]
    split
    next small => exact .digit ⟨small, lower n (by omega)⟩
    next large =>
      have last : n % radix < radix := Nat.mod_lt n (by omega)
      have front := ih (n / radix) (Nat.div_lt_self (by omega) several)
      have whole : n / radix * radix + n % radix = n := Nat.div_add_mod' n radix
      have numeral := front.further ⟨last, lower _ (by omega)⟩
      rwa [whole] at numeral

theorem digitsBelow_append (front behind : List Char) : digitsBelow radix bound value (front ++ behind) =
    (digitsBelow radix bound value front).bind fun read => digitsBelow radix bound read behind := by
  induction front generalizing value with
  | nil => rfl
  | cons c rest ih =>
    rw [List.cons_append, digitsBelow, digitsBelow]
    split
    · rfl
    · split
      · exact ih
      · rfl

theorem digitsBelow_last {c : Char} {read : Nat} : digitsBelow radix bound read [c] = .ok value ↔
    ∃ d, digitIn radix c = some d ∧ value = read * radix + d ∧ value < bound := by
  rw [digitsBelow]
  cases digitIn radix c with
  | none => exact ⟨nofun, nofun⟩
  | some d =>
    dsimp only
    split
    next within =>
      constructor
      · intro done
        cases done
        exact ⟨d, rfl, rfl, within⟩
      · rintro ⟨_, found, rfl, _⟩
        cases found
        rfl
    next beyond =>
      refine ⟨nofun, ?_⟩
      rintro ⟨_, found, rfl, within⟩
      cases found
      exact absurd within beyond

-- The digits before the last are worth no more than the whole, so they do not reach the bound before it does.
theorem digitsBelow_iff (letters : radix ≤ 16) {digits : List Char} :
    digitsBelow radix bound 0 digits = .ok value ↔
      digits = [] ∧ value = 0 ∨ Numeral radix digits value ∧ value < bound := by
  induction digits using List.reverseRecOn generalizing value with
  | nil =>
    constructor
    · intro done
      cases done
      exact .inl ⟨rfl, rfl⟩
    · rintro (⟨_, rfl⟩ | ⟨numeral, _⟩)
      · rfl
      · exact absurd rfl numeral.nonempty
  | append_singleton front c ih =>
    have further : front ++ [c] ≠ [] := List.append_ne_nil_of_right_ne_nil _ (List.cons_ne_nil _ _)
    rw [digitsBelow_append, numeral_further_iff, or_iff_right fun empty => further empty.1]
    constructor
    · intro done
      cases before : digitsBelow radix bound 0 front with
      | error fault => rw [before] at done; cases done
      | ok leading =>
        rw [before] at done
        obtain ⟨d, digit, rfl, within⟩ := digitsBelow_last.mp done
        refine ⟨⟨d, (digitIn_iff letters).mp digit, ?_⟩, within⟩
        rcases ih.mp before with ⟨empty, rfl⟩ | ⟨numeral, _⟩
        · exact .inl ⟨empty, by rw [Nat.zero_mul, Nat.zero_add]⟩
        · exact .inr ⟨leading, numeral, rfl⟩
    · rintro ⟨⟨d, stands, worth⟩, within⟩
      have digit := (digitIn_iff letters).mpr stands
      rcases worth with ⟨rfl, rfl⟩ | ⟨leading, numeral, rfl⟩
      · exact digitsBelow_last.mpr ⟨_, digit, by rw [Nat.zero_mul, Nat.zero_add], within⟩
      · have smaller : leading ≤ leading * radix := Nat.le_mul_of_pos_right _ (by have := stands.below; omega)
        have before := ih.mpr (.inr ⟨numeral, by omega⟩)
        rw [before]
        exact digitsBelow_last.mpr ⟨d, digit, rfl, within⟩

theorem Stands.unsigned {c : Char} {d : Nat} (letters : radix ≤ 16) (stands : Stands radix c d) : c ≠ '+' := by
  rintro rfl
  have digits : ∀ d < 16, '+'.toLower ≠ Nat.digitChar d := by decide
  exact digits d (by have := stands.below; omega) stands.written

theorem strictBelow_iff (letters : radix ≤ 16) {text : List Char} : strictBelow radix bound text = .ok value ↔
    Signed radix text value ∧ value < bound := by
  have row {digits : List Char} (held : digits ≠ []) :
      digitsBelow radix bound 0 digits = .ok value ↔ Numeral radix digits value ∧ value < bound := by
    rw [digitsBelow_iff letters, or_iff_right fun empty => held empty.1]
  have unsigned {rest : List Char} : ¬ Numeral radix ('+' :: rest) value := by
    intro numeral
    obtain ⟨d, stands⟩ := numeral.stands '+' List.mem_cons_self
    exact stands.unsigned letters rfl
  have signed {digits : List Char} : Signed radix ('+' :: digits) value ↔ Numeral radix digits value := by
    refine ⟨fun number => ?_, .plus⟩
    cases number with
    | plain numeral => exact absurd numeral unsigned
    | plus numeral => exact numeral
  unfold strictBelow
  split
  next =>
    refine ⟨nofun, ?_⟩
    rintro ⟨⟨numeral⟩, _⟩
    exact absurd rfl numeral.nonempty
  next =>
    rw [signed]
    exact ⟨nofun, fun number => absurd rfl number.1.nonempty⟩
  next digits more =>
    rw [signed, row]
    rintro rfl
    exact more rfl
  next text held _ other =>
    rw [row held]
    refine and_congr_left fun _ => ⟨.plain, fun number => ?_⟩
    cases number with
    | plain numeral => exact numeral
    | plus => exact absurd rfl (other _)

-- A text is worth one number at most: a reader whose bound is beyond both takes in both.
theorem Signed.unique {text : List Char} {other : Nat} (letters : radix ≤ 16) (first : Signed radix text value)
    (second : Signed radix text other) : value = other := by
  have one : strictBelow radix (value + other + 1) text = .ok value :=
    (strictBelow_iff letters).mpr ⟨first, by omega⟩
  have two : strictBelow radix (value + other + 1) text = .ok other :=
    (strictBelow_iff letters).mpr ⟨second, by omega⟩
  rw [one] at two
  exact Except.ok.inj two

theorem Numeral.nought {digits : List Char} (numeral : Numeral radix digits value) :
    Numeral radix ('0' :: digits) value := by
  induction numeral with
  | @digit c d stands =>
    have front : Numeral radix ['0'] 0 := .digit ⟨Nat.lt_of_le_of_lt (Nat.zero_le d) stands.below, by decide⟩
    have row := front.further stands
    rwa [Nat.zero_mul, Nat.zero_add] at row
  | further leading stands ih => exact ih.further stands

theorem Numeral.padded {digits : List Char} (numeral : Numeral radix digits value) (count : Nat) :
    Numeral radix (List.replicate count '0' ++ digits) value := by
  induction count with
  | zero => exact numeral
  | succ count ih => exact ih.nought

-- The last digit and the value before it are told from the value, which is nought before a single digit.
theorem Numeral.parts {front : List Char} {c : Char} (numeral : Numeral radix (front ++ [c]) value) :
    (value % radix).digitChar = c.toLower ∧ (front = [] ∨ Numeral radix front (value / radix)) := by
  obtain ⟨d, stands, ⟨rfl, rfl⟩ | ⟨leading, before, rfl⟩⟩ := numeral_further_iff.mp numeral
  · rw [Nat.mod_eq_of_lt stands.below]
    exact ⟨stands.written.symm, .inl rfl⟩
  · have front : (leading * radix + d) / radix = leading := by
      rw [Nat.mul_comm, Nat.mul_add_div (by have := stands.below; omega), Nat.div_eq_of_lt stands.below, Nat.add_zero]
    rw [Nat.mul_add_mod_of_lt stands.below, front]
    exact ⟨stands.written.symm, .inr before⟩

theorem Numeral.sameRow {digits other : List Char} (one : Numeral radix digits value)
    (two : Numeral radix other value) (long : digits.length = other.length) :
    digits.map Char.toLower = other.map Char.toLower := by
  induction digits using List.reverseRecOn generalizing other value with
  | nil => exact absurd rfl one.nonempty
  | append_singleton front c ih =>
    cases other using List.reverseRecOn with
    | nil => exact absurd rfl two.nonempty
    | append_singleton otherFront otherLast =>
      rw [List.length_append, List.length_append, List.length_singleton, List.length_singleton,
        Nat.add_right_cancel_iff] at long
      obtain ⟨last, fronts⟩ := one.parts
      obtain ⟨again, otherFronts⟩ := two.parts
      have before : front.map Char.toLower = otherFront.map Char.toLower := by
        rcases fronts with rfl | numeral
        · rw [List.eq_nil_of_length_eq_zero long.symm]
        · rcases otherFronts with rfl | other
          · exact absurd (List.eq_nil_of_length_eq_zero long) numeral.nonempty
          · exact ih numeral other long
      rw [List.map_append, List.map_append, before, List.map_singleton, List.map_singleton, ← last, again]

end TransactionRelay.Text
