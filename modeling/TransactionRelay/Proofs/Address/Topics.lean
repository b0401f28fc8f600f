import Mathlib.Data.Bool.AllAny
import TransactionRelay.Address
import TransactionRelay.Proofs.Text.Numerals

namespace TransactionRelay
namespace Text

def lowerDigits : List Char := "0123456789abcdef".toList

def anyCaseDigits : List Char := "0123456789abcdefABCDEF".toList

variable {text : List Char}

theorem lowerAfter_ascii (ascii : ∀ c ∈ text, c.toNat < 128) (before : List Char) :
    lowerAfter before text = text.map Char.toLower := by
  induction text generalizing before with
  | nil => rfl
  | cons c rest ih =>
    obtain ⟨first, others⟩ := List.forall_mem_cons.mp ascii
    have plain : ∀ special : Char, 128 ≤ special.toNat → c ≠ special := by
      rintro special beyond rfl
      omega
    rw [lowerAfter, if_neg (plain 'İ' (by decide)), if_neg (plain 'Σ' (by decide)), lowerChar, if_pos first,
      ih others]
    rfl

theorem lower_digits (digits : ∀ c ∈ text, c ∈ anyCaseDigits) : lower text = text.map Char.toLower := by
  -- Decided over the row of digits: as it stands it would be decided over all characters.
  have ascii : ∀ c ∈ anyCaseDigits, c.toNat < 128 := List.all_iff_forall_prop.mp (by decide)
  exact lowerAfter_ascii (fun c member => ascii c (digits c member)) []

theorem exists_numeral (digits : ∀ c ∈ text, c ∈ anyCaseDigits) (held : text ≠ []) :
    ∃ value, Numeral 16 text value := by
  have worth : ∀ c ∈ anyCaseDigits, ∃ d < 16, c.toLower = Nat.digitChar d :=
    List.all_iff_forall_prop.mp (by decide)
  induction text using List.reverseRecOn with
  | nil => exact absurd rfl held
  | append_singleton front c ih =>
    obtain ⟨d, below, written⟩ := worth c (digits c (by simp))
    by_cases alone : front = []
    · exact ⟨_, numeral_further_iff.mpr ⟨d, ⟨below, written⟩, .inl ⟨alone, rfl⟩⟩⟩
    · obtain ⟨value, numeral⟩ := ih (fun c member => digits c (List.mem_append_left _ member)) alone
      exact ⟨_, numeral.further ⟨below, written⟩⟩

end Text

namespace Address

structure Spelt (address : String) : Prop where
  mark : address.toList.take 2 = ['0', 'x'] ∨ address.toList.take 2 = ['0', 'X']
  long : (address.toList.drop 2).length = 40
  digits : ∀ c ∈ address.toList.drop 2, c ∈ Text.anyCaseDigits

variable {a b : String}

-- The digits behind the mark decide how an address is compared, and under which topic it is asked for.
theorem Spelt.forms (spelt : Spelt a) :
    a.toList.map Char.toLower = '0' :: 'x' :: (a.toList.drop 2).map Char.toLower ∧
    topicChars a.toList = '0' :: 'x' :: (List.replicate 24 '0' ++ (a.toList.drop 2).map Char.toLower) := by
  obtain ⟨mark, long, digits⟩ := spelt
  have folded := Text.lower_digits digits
  have whole : a.toList = '0' :: 'x' :: a.toList.drop 2 ∨ a.toList = '0' :: 'X' :: a.toList.drop 2 := by
    have parts := List.take_append_drop 2 a.toList
    rcases mark with mark | mark
    · exact .inl (by rw [mark] at parts; exact parts.symm)
    · exact .inr (by rw [mark] at parts; exact parts.symm)
  generalize a.toList.drop 2 = row at whole long folded
  have stripped : stripMark a.toList = row ∧ a.toList.map Char.toLower = '0' :: 'x' :: row.map Char.toLower := by
    rcases whole with whole | whole <;> rw [whole] <;> exact ⟨rfl, rfl⟩
  rw [topicChars, stripped.1, folded, padLeft, List.length_map, long]
  exact ⟨stripped.2, rfl⟩

theorem same_iff (first : Spelt a) (second : Spelt b) :
    same a b = true ↔ (a.toList.drop 2).map Char.toLower = (b.toList.drop 2).map Char.toLower := by
  rw [same, beq_iff_eq, first.forms.1, second.forms.1, List.cons_inj_right, List.cons_inj_right]

theorem topic_eq_iff (first : Spelt a) (second : Spelt b) :
    topic a = topic b ↔ (a.toList.drop 2).map Char.toLower = (b.toList.drop 2).map Char.toLower := by
  rw [topic, topic, String.ofList_inj, first.forms.2, second.forms.2, List.cons_inj_right, List.cons_inj_right,
    List.append_right_inj]

-- Spellings of one number differ in the case of their letters at most, because they are of one length.
theorem lower_eq_iff (first : Spelt a) (second : Spelt b) {number : Nat}
    (numeral : Text.Numeral 16 (a.toList.drop 2) number) :
    (a.toList.drop 2).map Char.toLower = (b.toList.drop 2).map Char.toLower ↔
      Text.Numeral 16 (b.toList.drop 2) number := by
  constructor
  · exact fun same => numeral.anyCase same.symm
  · exact fun again => numeral.sameRow again (first.long.trans second.long.symm)

end Address

-- The two views drop the mark and fold the letters each in its own way. They agree because an address has always
-- forty digits, so that its topic pads all addresses alike.
theorem topics_tell_addresses_apart {a b : String} (first : Address.Spelt a) (second : Address.Spelt b) :
    (Address.same a b = true ↔ Address.topic a = Address.topic b) ∧
    ∃ digits number, (Address.topic a).toList = '0' :: 'x' :: digits ∧ digits.length = 64 ∧
      (∀ c ∈ digits, c ∈ Text.lowerDigits) ∧
      Text.Numeral 16 (a.toList.drop 2) number ∧ Text.Numeral 16 digits number ∧
      (Address.topic a = Address.topic b ↔ Text.Numeral 16 (b.toList.drop 2) number) := by
  obtain ⟨number, numeral⟩ := Text.exists_numeral first.digits (List.ne_nil_of_length_eq_add_one first.long)
  have folded : ∀ c ∈ (a.toList.drop 2).map Char.toLower, c ∈ Text.lowerDigits := by
    have each : ∀ c ∈ Text.anyCaseDigits, c.toLower ∈ Text.lowerDigits := List.all_iff_forall_prop.mp (by decide)
    exact List.forall_mem_map.mpr fun c member => each c (first.digits c member)
  refine ⟨(Address.same_iff first second).trans (Address.topic_eq_iff first second).symm, _, number,
    by rw [Address.topic, String.toList_ofList, first.forms.2], ?long, ?lower, numeral, ?worth,
    (Address.topic_eq_iff first second).trans (Address.lower_eq_iff first second numeral)⟩
  case long => rw [List.length_append, List.length_replicate, List.length_map, first.long]
  case lower =>
    intro c member
    rcases List.mem_append.mp member with nought | digit
    · rw [List.eq_of_mem_replicate nought]
      decide
    · exact folded c digit
  case worth =>
    have once : ∀ c ∈ Text.anyCaseDigits, c.toLower.toLower = c.toLower :=
      List.all_iff_forall_prop.mp (by decide)
    refine (numeral.anyCase ?_).padded 24
    rw [List.map_map]
    exact List.map_congr_left fun c member => once c (first.digits c member)

theorem spellings_have_one_topic :
    Address.Spelt "0xAbC0000000000000000000000000000000000001" ∧
    Address.Spelt "0XaBc0000000000000000000000000000000000001" ∧
    Address.same "0xAbC0000000000000000000000000000000000001" "0XaBc0000000000000000000000000000000000001" = true ∧
    Address.topic "0xAbC0000000000000000000000000000000000001" =
      Address.topic "0XaBc0000000000000000000000000000000000001" := by
  have first : Address.Spelt "0xAbC0000000000000000000000000000000000001" :=
    ⟨.inl (by decide), by decide, List.all_iff_forall_prop.mp (by decide)⟩
  have second : Address.Spelt "0XaBc0000000000000000000000000000000000001" :=
    ⟨.inr (by decide), by decide, List.all_iff_forall_prop.mp (by decide)⟩
  have agree : Address.same "0xAbC0000000000000000000000000000000000001"
      "0XaBc0000000000000000000000000000000000001" = true := by decide
  exact ⟨first, second, agree, (topics_tell_addresses_apart first second).1.mp agree⟩

end TransactionRelay
