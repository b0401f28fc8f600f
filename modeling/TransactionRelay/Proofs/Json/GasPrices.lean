import Mathlib.Data.List.TakeWhile
import TransactionRelay.Json.GasPrice
import TransactionRelay.Proofs.Text.Numerals

namespace TransactionRelay
namespace Text

def Padded (body text : List Char) : Prop :=
  ∃ before behind, text = before ++ body ++ behind ∧ (∀ c ∈ before, isBlank c = true) ∧
    ∀ c ∈ behind, isBlank c = true

variable {body text : List Char}

theorem padded_trim (text : List Char) : Padded (trim text) text := by
  refine ⟨text.takeWhile isBlank, ((text.dropWhile isBlank).reverse.takeWhile isBlank).reverse, ?_, ?_, ?_⟩
  · have front := List.takeWhile_append_dropWhile (p := isBlank) (l := text)
    have behind := List.takeWhile_append_dropWhile (p := isBlank) (l := (text.dropWhile isBlank).reverse)
    rw [← List.reverse_inj, List.reverse_append, List.reverse_reverse] at behind
    rw [List.append_assoc, trim, dropEnd, behind, front]
  · exact fun c member => List.mem_takeWhile_imp member
  · exact fun c member => List.mem_takeWhile_imp (List.mem_reverse.mp member)

theorem dropWhile_blank {before rest : List Char} (blank : ∀ c ∈ before, isBlank c = true)
    (starts : ∃ c ∈ rest.head?, isBlank c = false) : (before ++ rest).dropWhile isBlank = rest := by
  rw [List.dropWhile_append_of_pos blank]
  obtain ⟨c, first, solid⟩ := starts
  cases rest with
  | nil => cases first
  | cons d more =>
    cases first
    exact List.dropWhile_cons_of_neg (by rw [solid]; exact Bool.false_ne_true)

theorem trim_padded (padded : Padded body text) (held : body ≠ []) (solid : ∀ c ∈ body, isBlank c = false) :
    trim text = body := by
  obtain ⟨before, behind, rfl, blank, blankBehind⟩ := padded
  have first : (before ++ (body ++ behind)).dropWhile isBlank = body ++ behind := by
    refine dropWhile_blank blank ?_
    cases body with
    | nil => exact absurd rfl held
    | cons c more => exact ⟨c, rfl, solid c List.mem_cons_self⟩
  have last : (behind.reverse ++ body.reverse).dropWhile isBlank = body.reverse := by
    refine dropWhile_blank (fun c member => blankBehind c (List.mem_reverse.mp member)) ?_
    refine ⟨body.getLast held, ?_, solid _ (List.getLast_mem held)⟩
    rw [List.head?_reverse]
    exact List.getLast?_eq_some_getLast held
  rw [trim, dropEnd, List.append_assoc, first, List.reverse_append, last, List.reverse_reverse]

theorem Stands.solid {radix : Nat} {c : Char} {d : Nat} (letters : radix ≤ 16) (stands : Stands radix c d) :
    isBlank c = false := by
  have worth := (digitValue_iff (by have := stands.below; omega)).mpr stands.written
  have range : (48 ≤ c.toNat ∧ c.toNat ≤ 57) ∨ (97 ≤ c.toNat ∧ c.toNat ≤ 122) ∨
      (65 ≤ c.toNat ∧ c.toNat ≤ 90) := by
    unfold digitValue at worth
    split at worth
    next range => exact .inl range
    next =>
      split at worth
      next range => exact .inr (.inl range)
      next =>
        split at worth
        next range => exact .inr (.inr range)
        next => cases worth
  simp only [isBlank, Bool.or_eq_false_iff, Bool.and_eq_false_iff, decide_eq_false_iff_not, beq_eq_false_iff_ne]
  omega

theorem Signed.held {radix value : Nat} (number : Signed radix text value) : text ≠ [] := by
  cases number with
  | plain numeral => exact numeral.nonempty
  | plus => exact List.cons_ne_nil _ _

theorem Signed.solid {radix value : Nat} (letters : radix ≤ 16) (number : Signed radix text value) :
    ∀ c ∈ text, isBlank c = false := by
  have digits {row : List Char} (numeral : Numeral radix row value) : ∀ c ∈ row, isBlank c = false := by
    intro c member
    obtain ⟨d, stands⟩ := numeral.stands c member
    exact stands.solid letters
  cases number with
  | plain numeral => exact digits numeral
  | plus numeral => exact List.forall_mem_cons.mpr ⟨by decide, digits numeral⟩

end Text

namespace GasPrice

open Text (Padded Signed)

-- The texts that stand for a number: decimal, or hexadecimal behind a mark of either case.
inductive Spells : List Char → Nat → Prop
  | decimal {digits value} (number : Signed 10 digits value) : Spells digits value
  | hexadecimal {mark digits value} (marked : mark = 'x' ∨ mark = 'X') (number : Signed 16 digits value) :
      Spells ('0' :: mark :: digits) value

def Denotes (text : List Char) (value : Nat) : Prop := ∃ body, Padded body text ∧ Spells body value

variable {body text : List Char} {value : Nat}

theorem Spells.held (spells : Spells body value) : body ≠ [] := by
  cases spells with
  | decimal number => exact number.held
  | hexadecimal => exact List.cons_ne_nil _ _

theorem Spells.solid (spells : Spells body value) : ∀ c ∈ body, Text.isBlank c = false := by
  cases spells with
  | decimal number => exact number.solid (by decide)
  | hexadecimal marked number =>
    refine List.forall_mem_cons.mpr ⟨by decide, List.forall_mem_cons.mpr ⟨?_, number.solid (by decide)⟩⟩
    rcases marked with rfl | rfl <;> decide

theorem nought_anyCase {c : Char} (same : c.toLower = '0'.toLower) : c = '0' := by
  rcases Text.toLower_eq same with plain | ⟨first, last, code⟩
  · exact plain
  · have nought : ('0'.toLower).toNat = 48 := rfl
    omega

theorem mark_anyCase {c : Char} (same : c.toLower = 'x'.toLower) : c = 'x' ∨ c = 'X' := by
  rcases Text.toLower_eq same with plain | ⟨first, last, code⟩
  · exact .inl plain
  · have lower : ('x'.toLower).toNat = 120 := rfl
    have capital : 'X'.toNat = 88 := rfl
    exact .inr (Char.toNat_inj.mp (by omega))

-- No mark is a decimal digit.
theorem decimal_unmarked {mark : Char} {digits : List Char} (marked : mark = 'x' ∨ mark = 'X') :
    ¬ Signed 10 ('0' :: mark :: digits) value := by
  intro number
  cases number with
  | plain numeral =>
    obtain ⟨d, below, written⟩ := numeral.stands mark (by simp)
    have apart : ∀ d < 10, 'x'.toLower ≠ Nat.digitChar d ∧ 'X'.toLower ≠ Nat.digitChar d := by decide
    rcases marked with rfl | rfl
    · exact (apart d below).1 written
    · exact (apart d below).2 written

theorem spells_iff : Spells body value ↔ Signed (radixOf body).1 (radixOf body).2 value := by
  have marked {mark : Char} {digits : List Char} (form : mark = 'x' ∨ mark = 'X') :
      Spells ('0' :: mark :: digits) value ↔ Signed 16 digits value := by
    refine ⟨fun spells => ?_, .hexadecimal form⟩
    cases spells with
    | decimal number => exact absurd number (decimal_unmarked form)
    | hexadecimal _ number => exact number
  unfold radixOf
  split
  next => exact marked (.inl rfl)
  next => exact marked (.inr rfl)
  next other capital =>
    refine ⟨fun spells => ?_, .decimal⟩
    cases spells with
    | decimal number => exact number
    | hexadecimal form =>
      rcases form with rfl | rfl
      · exact absurd rfl (other _)
      · exact absurd rfl (capital _)

theorem radixOf_letters (body : List Char) : (radixOf body).1 ≤ 16 := by
  unfold radixOf
  split
  · exact Nat.le_refl 16
  · exact Nat.le_refl 16
  · exact (by decide : 10 ≤ 16)

theorem ofNat_word {value : Nat} (within : value < Text.word128) : (BitVec.ofNat 128 value).toNat = value :=
  Nat.mod_eq_of_lt within

theorem denotes_iff :
    Denotes text value ↔ Signed (radixOf (Text.trim text)).1 (radixOf (Text.trim text)).2 value := by
  rw [← spells_iff]
  constructor
  · rintro ⟨body, padded, spells⟩
    rwa [Text.trim_padded padded spells.held spells.solid]
  · exact fun spells => ⟨_, Text.padded_trim text, spells⟩

theorem Denotes.unique {other : Nat} (first : Denotes text value) (second : Denotes text other) : value = other :=
  (denotes_iff.mp first).unique (radixOf_letters _) (denotes_iff.mp second)

theorem read_iff {price : GasPrice} : read text = .ok price ↔ Denotes text price.toNat := by
  have taken {value : Nat} :
      Text.strictBelow (radixOf (Text.trim text)).1 Text.word128 (radixOf (Text.trim text)).2 = .ok value ↔
        Text.Signed (radixOf (Text.trim text)).1 (radixOf (Text.trim text)).2 value ∧ value < Text.word128 :=
    Text.strictBelow_iff (radixOf_letters _)
  rw [denotes_iff, read]
  constructor
  · intro done
    cases number : Text.strictBelow (radixOf (Text.trim text)).1 Text.word128 (radixOf (Text.trim text)).2 with
    | error fault => rw [number] at done; cases done
    | ok value =>
      rw [number] at done
      cases done
      obtain ⟨signed, within⟩ := taken.mp number
      rwa [ofNat_word within]
  · intro signed
    rw [taken.mpr ⟨signed, price.isLt⟩]
    exact congrArg Except.ok (BitVec.eq_of_toNat_eq (ofNat_word price.isLt))

end GasPrice

namespace Json

-- A whole number, with a minus sign if it is negative. What is written `-0` is no whole number here: it is read
-- as a floating-point one.
def ofInt (n : Int) : Json := .number (.integer (n < 0) n.natAbs)

theorem ofInt_nat (size : Nat) : ofInt size = .number (.integer false size) := by
  rw [ofInt, decide_eq_false (Int.not_lt.mpr (Int.natCast_nonneg size)), Int.natAbs_natCast]

theorem gasPrice_text {text : String} {price : GasPrice} :
    gasPrice (.text text) = .ok price ↔ GasPrice.read text.toList = .ok price := by
  rw [gasPrice]
  cases GasPrice.read text.toList with
  | ok read => rw [Except.ok.injEq, Except.ok.injEq]
  | error fault => exact ⟨nofun, nofun⟩

theorem gasPrice_floating (number : JsonNumber) (price : GasPrice) : gasPrice.floating number ≠ .ok price := by
  unfold gasPrice.floating
  split <;> exact nofun

theorem gasPrice_integer {negative : Bool} {size : Nat} {price : GasPrice} :
    gasPrice (.number (.integer negative size)) = .ok price ↔
      negative = false ∧ size < Text.word64 ∧ price.toNat = size := by
  cases negative with
  | true =>
    rw [gasPrice]
    refine iff_of_false ?_ nofun
    split
    · exact nofun
    · exact gasPrice_floating _ price
  | false =>
    rw [gasPrice]
    split
    next within =>
      have whole := GasPrice.ofNat_word (Nat.lt_trans within (by decide : Text.word64 < Text.word128))
      rw [Except.ok.injEq, and_iff_right rfl, and_iff_right within, ← BitVec.toNat_inj, whole, eq_comm]
    next beyond => exact iff_of_false (gasPrice_floating _ price) fun counted => beyond counted.2.1

theorem gasPrice_kinds {value : Json} {price : GasPrice} (taken : gasPrice value = .ok price) :
    (∃ text, value = .text text) ∨ ∃ size < Text.word64, value = .number (.integer false size) := by
  cases value with
  | text text => exact .inl ⟨text, rfl⟩
  | number number =>
    cases number with
    | integer negative size =>
      obtain ⟨rfl, within, _⟩ := gasPrice_integer.mp taken
      exact .inr ⟨size, within, rfl⟩
    | decimal => exact absurd taken (gasPrice_floating _ price)
  | bool value => cases value <;> cases taken
  | null | illText | array | object | broken | misplaced => cases taken

end Json

-- A text is read as a price exactly if it denotes a number of 128 bits, and it denotes one number at most. An
-- integer of 64 bits is read exactly if it is not negative, and no other kind of value is.
theorem gas_price_reads_its_language :
    (∀ text value, (∃ price, Json.gasPrice (.text text) = .ok price ∧ price.toNat = value) ↔
      GasPrice.Denotes text.toList value ∧ value < Text.word128) ∧
    (∀ text value other, GasPrice.Denotes text value → GasPrice.Denotes text other → value = other) ∧
    (∀ (n : UInt64) price, Json.gasPrice (.ofInt n.toNat) = .ok price ↔ price.toNat = n.toNat) ∧
    (∀ (n : Int64) price, Json.gasPrice (.ofInt n.toInt) = .ok price ↔ 0 ≤ n.toInt ∧ price.toNat = n.toInt) ∧
    (∀ value price, Json.gasPrice value = .ok price →
      (∃ text, value = .text text) ∨ ∃ n : UInt64, value = .ofInt n.toNat) ∧
    ∀ (price : GasPrice) (text : String) (body : List Char), Text.Padded body text.toList →
      body.map Char.toLower = (Text.decimal price.toNat).map Char.toLower ∨
        body.map Char.toLower = ('0' :: 'x' :: Text.hexadecimal price.toNat).map Char.toLower →
      Json.gasPrice (.text text) = .ok price := by
  have texts {text : String} {price : GasPrice} :
      Json.gasPrice (.text text) = .ok price ↔ GasPrice.Denotes text.toList price.toNat :=
    Json.gasPrice_text.trans GasPrice.read_iff
  refine ⟨fun text value => ?texts, fun text value other => GasPrice.Denotes.unique, fun n price => ?unsigned,
    fun n price => ?signed, fun value price taken => ?kinds,
    fun price text body padded spelt => texts.mpr ⟨body, padded, ?spelt⟩⟩
  case texts =>
    constructor
    · rintro ⟨price, taken, rfl⟩
      exact ⟨texts.mp taken, price.isLt⟩
    · rintro ⟨denotes, within⟩
      have whole := GasPrice.ofNat_word within
      exact ⟨BitVec.ofNat 128 value, texts.mpr (by rwa [whole]), whole⟩
  case unsigned =>
    have within : n.toNat < Text.word64 := n.toNat_lt
    rw [Json.ofInt_nat, Json.gasPrice_integer, and_iff_right rfl, and_iff_right within]
  case signed =>
    have small : n.toInt < 9223372036854775808 := n.toInt_lt
    have word : Text.word64 = 18446744073709551616 := rfl
    rw [Json.ofInt, Json.gasPrice_integer, decide_eq_false_iff_not]
    omega
  case kinds =>
    rcases Json.gasPrice_kinds taken with text | ⟨size, within, rfl⟩
    · exact .inl text
    · refine .inr ⟨UInt64.ofNat size, ?_⟩
      rw [UInt64.toNat_ofNat_of_lt' within, Json.ofInt_nat]
  case spelt =>
    rcases spelt with decimal | marked
    · exact .decimal (.plain ((Text.numeral_toDigits (by decide) (by decide) _).anyCase decimal))
    · rw [List.map_cons, List.map_cons] at marked
      obtain ⟨nought, rest, rfl, first, others⟩ := List.map_eq_cons_iff.mp marked
      obtain ⟨mark, digits, rfl, second, same⟩ := List.map_eq_cons_iff.mp others
      have form : mark = 'x' ∨ mark = 'X' := GasPrice.mark_anyCase second
      cases GasPrice.nought_anyCase first
      exact .hexadecimal form (.plain ((Text.numeral_toDigits (by decide) (by decide) _).anyCase same))

theorem padded_price_is_read : Json.gasPrice (.text "\t0XfF \n") = .ok 255 := by
  obtain ⟨_, _, _, _, _, spelt⟩ := gas_price_reads_its_language
  have before : ['\t'].all Text.isBlank = true := by decide +kernel
  have behind : [' ', '\n'].all Text.isBlank = true := by decide +kernel
  have padded : Text.Padded "0XfF".toList "\t0XfF \n".toList :=
    ⟨_, _, by decide +kernel, List.all_eq_true.mp before, List.all_eq_true.mp behind⟩
  exact spelt 255 "\t0XfF \n" "0XfF".toList padded (.inr (by decide +kernel))

end TransactionRelay
