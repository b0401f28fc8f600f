import TransactionRelay.Json.Read
import TransactionRelay.Json.Records
import TransactionRelay.Json.Write

namespace TransactionRelay.Json

def Solid (c : Char) : Prop := c ≠ ' ' ∧ c ≠ '\n' ∧ c ≠ '\t' ∧ c ≠ '\r'

instance : DecidablePred Solid :=
  fun c => inferInstanceAs (Decidable (c ≠ ' ' ∧ c ≠ '\n' ∧ c ≠ '\t' ∧ c ≠ '\r'))

-- What stands behind a number and does not go on with it.
def Apart (rest : List Char) : Prop := ∀ c ∈ rest.head?, c.isDigit = false ∧ c ≠ '.' ∧ c ≠ 'e' ∧ c ≠ 'E'

-- The reader needs no more steps than the text has characters.
structure ReadsBack (value : Json) : Prop where
  begins : ∃ c more, write value = c :: more ∧ Solid c ∧ c ≠ ']'
  back : ∀ fuel rest, (write value).length ≤ fuel + 1 → Apart rest →
    readValue (fuel + 1) (write value ++ rest) = (value, rest)

variable {rest : List Char}

theorem skipBlank_solid {c : Char} (solid : Solid c) (rest : List Char) : skipBlank (c :: rest) = c :: rest := by
  rw [skipBlank, if_neg]
  rintro (blank | blank | blank | blank)
  · exact solid.1 blank
  · exact solid.2.1 blank
  · exact solid.2.2.1 blank
  · exact solid.2.2.2 blank

theorem apart_nil : Apart [] := nofun

theorem apart_cons {c : Char} (other : c.isDigit = false ∧ c ≠ '.' ∧ c ≠ 'e' ∧ c ≠ 'E') (rest : List Char) :
    Apart (c :: rest) := by
  intro first same
  cases same
  exact other

theorem decimal_head (n : Nat) : ∃ c more, Text.decimal n = c :: more ∧ (c = '0' → more = []) := by
  rw [Text.decimal]
  induction n using Nat.strongRecOn with
  | ind n ih =>
    rw [Nat.toDigits_eq_if (by decide)]
    split
    next small => exact ⟨_, [], rfl, fun _ => rfl⟩
    next large =>
      obtain ⟨c, more, front, alone⟩ := ih (n / 10) (Nat.div_lt_self (by omega) (by decide))
      refine ⟨c, more ++ [(n % 10).digitChar], by rw [front]; rfl, fun nought => ?_⟩
      -- A nought in front would be all that stands before the last digit.
      have whole := Nat.ofDigitChars_ten_toDigits (n := n / 10)
      rw [front, alone nought, nought] at whole
      have none : n / 10 = 0 := whole.symm
      omega

theorem digits_decimal (n : Nat) (apart : Apart rest) :
    digits (Text.decimal n ++ rest) = (Text.decimal n, rest) := by
  have all : ∀ c ∈ Text.decimal n, c.isDigit = true :=
    fun c member => Nat.isDigit_of_mem_toDigits (by decide) (by decide) member
  rw [digits, List.takeWhile_append_of_pos all, List.dropWhile_append_of_pos all]
  cases rest with
  | nil => rw [List.takeWhile_nil, List.dropWhile_nil, List.append_nil]
  | cons c more =>
    have other : ¬ c.isDigit = true := by
      rw [(apart c rfl).1]
      exact Bool.false_ne_true
    rw [List.takeWhile_cons_of_neg other, List.dropWhile_cons_of_neg other, List.append_nil]

theorem readFraction_apart (apart : Apart rest) : readFraction rest = some (none, rest) := by
  unfold readFraction
  split
  next input => exact absurd rfl (apart '.' rfl).2.1
  next => rfl

theorem readExponent_apart (apart : Apart rest) : readExponent rest = some (none, rest) := by
  unfold readExponent
  split
  next c input =>
    obtain ⟨_, _, small, capital⟩ := apart c rfl
    rw [if_neg (not_or.mpr ⟨small, capital⟩)]
  next => rfl

theorem readNumber_decimal (negative : Bool) (n : Nat) (apart : Apart rest) :
    readNumber negative (Text.decimal n ++ rest) = some (.integer negative n, rest) := by
  obtain ⟨c, more, form, alone⟩ := decimal_head n
  have single : ((Text.decimal n).isEmpty ||
      ((Text.decimal n).head? == some '0' && (Text.decimal n).length != 1)) = false := by
    rw [form]
    by_cases nought : c = '0'
    · rw [nought, alone nought]
      rfl
    · simp [nought]
  have worth : Nat.ofDigitChars 10 (Text.decimal n) 0 = n := Nat.ofDigitChars_ten_toDigits
  rw [readNumber, digits_decimal n apart]
  simp only [single, Bool.false_eq_true, if_false, readFraction_apart apart, readExponent_apart apart, worth,
    Option.bind_eq_bind, Option.bind_some]
  rfl

theorem readCodes_escaped (c : Char) (rest : List Char) : readCodes (escapeChar c ++ rest) =
    (readCodes rest).map fun read => (c.toNat :: read.1, read.2) := by
  unfold escapeChar
  -- The characters that have a short escape.
  iterate 7
    split
    next same => subst same; rfl
  split
  next control =>
    have digits : ∀ d < 16, Text.digitIn 16 (Nat.digitChar d) = some d := by decide
    have code : hexUnit '0' '0' (Nat.digitChar (c.toNat / 16)) (Nat.digitChar (c.toNat % 16)) = some c.toNat := by
      have halves : ((0 * 16 + 0) * 16 + c.toNat / 16) * 16 + c.toNat % 16 = c.toNat := by omega
      have nought : Text.digitIn 16 '0' = some 0 := digits 0 (by decide)
      rw [hexUnit, nought, digits (c.toNat / 16) (by omega), digits (c.toNat % 16) (by omega)]
      exact congrArg some halves
    change readCodes ('\\' :: 'u' :: '0' :: '0' :: _ :: _ :: rest) = _
    rw [readCodes, code]
  next quote slash _ _ _ _ _ plain =>
    rw [List.singleton_append, readCodes.eq_5 _ _ quote (fun _ _ _ _ _ same _ => slash same)
      (fun _ _ same _ => slash same), if_neg (not_or.mpr ⟨plain, slash⟩)]

theorem readCodes_text (text rest : List Char) :
    readCodes (text.flatMap escapeChar ++ '"' :: rest) = some (text.map Char.toNat, rest) := by
  induction text with
  | nil => rfl
  | cons c more ih =>
    rw [List.flatMap_cons, List.append_assoc, readCodes_escaped, ih]
    rfl

-- The code of a character is no half of a pair.
theorem joinHalves_char (c : Char) (codes : List Nat) :
    joinHalves (c.toNat :: codes) = (joinHalves codes).map (c :: ·) := by
  have whole : isHigh c.toNat = false ∧ isLow c.toNat = false := by
    have valid : c.toNat < 0xD800 ∨ 0xDFFF < c.toNat ∧ c.toNat < 0x110000 := c.valid
    simp only [isHigh, isLow, Bool.and_eq_false_iff, decide_eq_false_iff_not]
    omega
  cases codes with
  | nil => simp [joinHalves, whole]
  | cons next rest => simp [joinHalves, whole]

theorem joinHalves_text (text : List Char) : joinHalves (text.map Char.toNat) = some text := by
  induction text with
  | nil => rfl
  | cons c more ih =>
    rw [List.map_cons, joinHalves_char, ih]
    rfl

theorem readText_written (text : String) (rest : List Char) :
    readText (text.toList.flatMap escapeChar ++ '"' :: rest) = some (some text, rest) := by
  rw [readText, readCodes_text, Option.map_some, joinHalves_text, Option.map_some, String.ofList_toList]

theorem readsBack_null : ReadsBack .null where
  begins := ⟨'n', _, rfl, by decide, by decide⟩
  back _ _ _ _ := rfl

theorem readsBack_bool (value : Bool) : ReadsBack (.bool value) := by
  cases value with
  | true => exact ⟨⟨'t', _, rfl, by decide, by decide⟩, fun _ _ _ _ => rfl⟩
  | false => exact ⟨⟨'f', _, rfl, by decide, by decide⟩, fun _ _ _ _ => rfl⟩

theorem digit_solid {c : Char} (digit : c.isDigit = true) : Solid c ∧ c ≠ ']' := by
  refine ⟨⟨?_, ?_, ?_, ?_⟩, ?_⟩
  all_goals
    rintro rfl
    cases digit

theorem readsBack_integer (negative : Bool) (size : Nat) : ReadsBack (.number (.integer negative size)) := by
  obtain ⟨c, more, form, _⟩ := decimal_head size
  have digit : c.isDigit = true :=
    Nat.isDigit_of_mem_toDigits (by decide) (by decide) (show c ∈ Text.decimal size from form ▸ List.mem_cons_self)
  cases negative with
  | true =>
    refine ⟨⟨'-', _, rfl, by decide, by decide⟩, fun fuel rest _ apart => ?_⟩
    change numberOr (readNumber true (Text.decimal size ++ rest)) = _
    rw [readNumber_decimal true size apart]
    rfl
  | false =>
    refine ⟨⟨c, more, form, digit_solid digit⟩, fun fuel rest _ apart => ?_⟩
    have number := readNumber_decimal false size apart
    change readValue (fuel + 1) (Text.decimal size ++ rest) = _
    rw [form, List.cons_append] at number ⊢
    rw [readValue, skipBlank_solid (digit_solid digit).1]
    -- A digit begins a value of no other kind.
    split
    case h_9 same =>
      cases same
      rw [number]
      rfl
    all_goals
      rename_i same
      cases same <;> cases digit

theorem readsBack_text (text : String) : ReadsBack (.text text) where
  begins := ⟨'"', _, rfl, by decide, by decide⟩
  back fuel rest _ _ := by
    have form : write (.text text) ++ rest = '"' :: (text.toList.flatMap escapeChar ++ '"' :: rest) := by
      simp [write, writeText]
    rw [form, readValue, skipBlank_solid (by decide)]
    simp only [readText_written]

theorem ReadsBack.nonempty {value : Json} (back : ReadsBack value) : 0 < (write value).length := by
  obtain ⟨c, more, form, _⟩ := back.begins
  rw [form]
  exact Nat.succ_pos _

theorem ReadsBack.taken {value : Json} (back : ReadsBack value) {fuel : Nat}
    (enough : (write value).length ≤ fuel) (apart : Apart rest) :
    readValue fuel (write value ++ rest) = (value, rest) := by
  cases fuel with
  | zero => exact absurd enough (Nat.not_le.mpr back.nonempty)
  | succ steps => exact back.back steps rest enough apart

theorem closes_apart (rest : List Char) : Apart (']' :: rest) ∧ Apart ('\x7d' :: rest) ∧ Apart (',' :: rest) :=
  ⟨apart_cons (by decide) rest, apart_cons (by decide) rest, apart_cons (by decide) rest⟩

theorem readItems_last {item : Json} (back : ReadsBack item) {steps : Nat} (enough : (write item).length ≤ steps)
    (rest : List Char) : readItems (steps + 1) (write item ++ ']' :: rest) = ([item], rest) := by
  rw [readItems, back.taken enough (closes_apart rest).1]
  rfl

theorem readItems_more {item : Json} (back : ReadsBack item) {steps : Nat} (enough : (write item).length ≤ steps)
    (rest : List Char) : readItems (steps + 1) (write item ++ ',' :: rest) =
      (item :: (readItems steps rest).1, (readItems steps rest).2) := by
  rw [readItems, back.taken enough (closes_apart rest).2.2]
  rfl

theorem readItems_written {item : Json} {others : List Json} (each : ∀ one ∈ item :: others, ReadsBack one)
    {steps : Nat} (enough : (write item).length + (writeItems others).length ≤ steps + 1) (rest : List Char) :
    readItems (steps + 1) (write item ++ (writeItems others ++ rest)) = (item :: others, rest) := by
  induction others generalizing item steps with
  | nil =>
    rw [writeItems, List.length_singleton] at enough
    exact readItems_last (each item List.mem_cons_self) (by omega) rest
  | cons next others ih =>
    obtain ⟨back, later⟩ := List.forall_mem_cons.mp each
    have parts : (writeItems (next :: others)).length = (write next).length + (writeItems others).length + 1 := by
      rw [writeItems, List.cons_append, List.length_cons, List.length_append]
    have long := back.nonempty
    obtain ⟨more, rfl⟩ : ∃ more, steps = more + 1 := ⟨steps - 1, by omega⟩
    rw [writeItems, List.cons_append, List.cons_append, List.append_assoc, readItems_more back (by omega),
      ih later (by omega)]

theorem readsBack_array {items : List Json} (each : ∀ item ∈ items, ReadsBack item) :
    ReadsBack (.array items) := by
  cases items with
  | nil => exact ⟨⟨'[', _, rfl, by decide, by decide⟩, fun _ _ _ _ => rfl⟩
  | cons item others =>
    refine ⟨⟨'[', _, rfl, by decide, by decide⟩, fun fuel rest enough _ => ?_⟩
    have form : write (.array (item :: others)) = '[' :: (write item ++ writeItems others) := rfl
    rw [form, List.length_cons, List.length_append] at enough
    have long := (each item List.mem_cons_self).nonempty
    obtain ⟨steps, rfl⟩ : ∃ steps, fuel = steps + 1 := ⟨fuel - 1, by omega⟩
    have taken := readItems_written each (show _ ≤ steps + 1 by omega) rest
    obtain ⟨c, more, front, solid, other⟩ := (each item List.mem_cons_self).begins
    -- The first item does not close the list.
    have opens : skipBlank (write item ++ (writeItems others ++ rest)) =
        c :: (more ++ (writeItems others ++ rest)) := by
      rw [front]
      exact skipBlank_solid solid _
    rw [form, List.cons_append, List.append_assoc, readValue, skipBlank_solid (by decide)]
    simp only [opens, taken]
    split
    next same => cases same; exact absurd rfl other
    next => rfl

theorem writeMember_named (name : String) (value : Json) (rest : List Char) :
    writeMember (some name, value) ++ rest =
      '"' :: (name.toList.flatMap escapeChar ++ '"' :: ':' :: (write value ++ rest)) := by
  simp [writeMember, writeText]

theorem writeMember_longer (member : Option String × Json) :
    (write member.2).length < (writeMember member).length := by
  obtain ⟨key, value⟩ := member
  rw [writeMember, List.length_append, List.length_cons]
  exact Nat.lt_add_left _ (Nat.lt_succ_self _)

theorem readMembers_last {member : Option String × Json} (named : member.1.isSome) (back : ReadsBack member.2)
    {steps : Nat} (enough : (writeMember member).length ≤ steps + 1) (rest : List Char) :
    readMembers (steps + 1) (writeMember member ++ '\x7d' :: rest) = ([member], rest) := by
  obtain ⟨key, value⟩ := member
  obtain ⟨name, rfl⟩ := Option.isSome_iff_exists.mp named
  have longer := writeMember_longer (some name, value)
  have taken : readValue steps (write value ++ '\x7d' :: rest) = (value, '\x7d' :: rest) :=
    back.taken (by omega) (closes_apart rest).2.1
  rw [writeMember_named, readMembers, skipBlank_solid (by decide)]
  simp only [readText_written, skipBlank_solid (show Solid ':' by decide), taken]
  rfl

theorem readMembers_more {member : Option String × Json} (named : member.1.isSome) (back : ReadsBack member.2)
    {steps : Nat} (enough : (writeMember member).length ≤ steps + 1) (rest : List Char) :
    readMembers (steps + 1) (writeMember member ++ ',' :: rest) =
      (member :: (readMembers steps rest).1, (readMembers steps rest).2) := by
  obtain ⟨key, value⟩ := member
  obtain ⟨name, rfl⟩ := Option.isSome_iff_exists.mp named
  have longer := writeMember_longer (some name, value)
  have taken : readValue steps (write value ++ ',' :: rest) = (value, ',' :: rest) :=
    back.taken (by omega) (closes_apart rest).2.2
  rw [writeMember_named, readMembers, skipBlank_solid (by decide)]
  simp only [readText_written, skipBlank_solid (show Solid ':' by decide), taken]
  rfl

theorem readMembers_written {member : Option String × Json} {others : List (Option String × Json)}
    (each : ∀ one ∈ member :: others, one.1.isSome ∧ ReadsBack one.2) {steps : Nat}
    (enough : (writeMember member).length + (writeMembers others).length ≤ steps + 1) (rest : List Char) :
    readMembers (steps + 1) (writeMember member ++ (writeMembers others ++ rest)) = (member :: others, rest) := by
  induction others generalizing member steps with
  | nil =>
    obtain ⟨named, back⟩ := each member List.mem_cons_self
    exact readMembers_last named back (by omega) rest
  | cons next others ih =>
    obtain ⟨⟨named, back⟩, later⟩ := List.forall_mem_cons.mp each
    have parts : (writeMembers (next :: others)).length =
        (writeMember next).length + (writeMembers others).length + 1 := by
      rw [writeMembers, List.cons_append, List.length_cons, List.length_append]
    have longer := writeMember_longer member
    obtain ⟨more, rfl⟩ : ∃ more, steps = more + 1 := ⟨steps - 1, by omega⟩
    rw [writeMembers, List.cons_append, List.cons_append, List.append_assoc,
      readMembers_more named back (by omega), ih later (by omega)]

theorem readsBack_object {members : List (Option String × Json)}
    (each : ∀ member ∈ members, member.1.isSome ∧ ReadsBack member.2) : ReadsBack (.object members) := by
  cases members with
  | nil => exact ⟨⟨'\x7b', _, rfl, by decide, by decide⟩, fun _ _ _ _ => rfl⟩
  | cons member others =>
    refine ⟨⟨'\x7b', _, rfl, by decide, by decide⟩, fun fuel rest enough _ => ?_⟩
    have form : write (.object (member :: others)) = '\x7b' :: (writeMember member ++ writeMembers others) := rfl
    rw [form, List.length_cons, List.length_append] at enough
    have longer := writeMember_longer member
    obtain ⟨steps, rfl⟩ : ∃ steps, fuel = steps + 1 := ⟨fuel - 1, by omega⟩
    have taken := readMembers_written each (show _ ≤ steps + 1 by omega) rest
    obtain ⟨key, value⟩ := member
    obtain ⟨name, rfl⟩ := Option.isSome_iff_exists.mp (each _ List.mem_cons_self).1
    rw [form, List.cons_append, List.append_assoc]
    rw [writeMember_named] at taken ⊢
    change (object (readMembers (steps + 1) ('"' :: _)).1, (readMembers (steps + 1) ('"' :: _)).2) = _
    rw [taken]

mutual

-- Made up of null, truth values, whole numbers and texts, every member under its key.
def whole : Json → Bool
  | .null => true
  | .bool _ => true
  | .number (.integer ..) => true
  | .text _ => true
  | .array items => wholeItems items
  | .object members => wholeMembers members
  | _ => false

def wholeItems : List Json → Bool
  | [] => true
  | item :: rest => whole item && wholeItems rest

def wholeMembers : List (Option String × Json) → Bool
  | [] => true
  | (key, value) :: rest => key.isSome && whole value && wholeMembers rest

end

mutual

theorem readsBack_whole : (value : Json) → value.whole = true → ReadsBack value
  | .null, _ => readsBack_null
  | .bool value, _ => readsBack_bool value
  | .number (.integer negative size), _ => readsBack_integer negative size
  | .text value, _ => readsBack_text value
  | .array items, made => readsBack_array (items_readBack items made)
  | .object members, made => readsBack_object (members_readBack members made)

theorem items_readBack : (items : List Json) → wholeItems items = true → ∀ item ∈ items, ReadsBack item
  | [], _ => nofun
  | item :: rest, made => by
    obtain ⟨first, others⟩ := Bool.and_eq_true_iff.mp made
    exact List.forall_mem_cons.mpr ⟨readsBack_whole item first, items_readBack rest others⟩

theorem members_readBack : (members : List (Option String × Json)) → wholeMembers members = true →
    ∀ member ∈ members, member.1.isSome ∧ ReadsBack member.2
  | [], _ => nofun
  | (key, value) :: rest, made => by
    obtain ⟨first, others⟩ := Bool.and_eq_true_iff.mp made
    obtain ⟨named, own⟩ := Bool.and_eq_true_iff.mp first
    exact List.forall_mem_cons.mpr ⟨⟨named, readsBack_whole value own⟩, members_readBack rest others⟩

end

theorem decodeText_written {value : Json} (made : value.whole = true) (decode : Json → Except Fault α) :
    decodeText decode value.toText = decode value := by
  have taken : read value.toText.toList = (value, []) := by
    rw [toText, String.toList_ofList]
    have enough : (write value).length ≤ 2 * (write value).length + 2 := by omega
    simpa [read] using (readsBack_whole value made).taken enough apart_nil
  simp only [decodeText, taken]
  cases decode value <;> rfl

theorem find_field {fields : List Field} (distinct : (fields.map Field.name).Nodup) {field : Field}
    (listed : field ∈ fields) : fields.find? (·.name == field.name) = some field := by
  obtain ⟨front, back, rfl⟩ := List.append_of_mem listed
  rw [List.map_append, List.nodup_append] at distinct
  have past : front.find? (·.name == field.name) = none :=
    List.find?_eq_none.mpr fun other before same =>
      distinct.2.2 _ (List.mem_map_of_mem before) _ List.mem_cons_self (eq_of_beq same)
  rw [List.find?_append, past, Option.none_or]
  exact List.find?_cons_of_pos BEq.rfl

-- Under their names and in the order of the fields, the values of a record are taken in as they are from a list.
theorem knownMembers_named {front back : List Field} {members : List (String × Json)} {seen : List String}
    (distinct : ((front ++ back).map Field.name).Nodup) (past : ∀ key ∈ seen, key ∈ front.map Field.name)
    (names : members.map Prod.fst = back.map Field.name) :
    knownMembers (front ++ back) seen (members.map fun member => (some member.1, member.2)) =
      listedMembers back (members.map Prod.snd) := by
  induction back generalizing front members seen with
  | nil =>
    cases List.map_eq_nil_iff.mp names
    rfl
  | cons field back ih =>
    obtain ⟨⟨key, value⟩, others, rfl, rfl, later⟩ := List.map_eq_cons_iff.mp names
    have apart := distinct
    rw [List.map_append, List.nodup_append] at apart
    have fresh : field.name ∉ front.map Field.name := fun before => apart.2.2 _ before _ List.mem_cons_self rfl
    have found : (front ++ field :: back).find? (·.name == field.name) = some field :=
      find_field distinct (List.mem_append_right _ List.mem_cons_self)
    have unseen : seen.contains field.name = false := by
      rw [List.contains_eq_mem, decide_eq_false_iff_not]
      exact fun again => fresh (past _ again)
    have next : knownMembers (front ++ field :: back) (field.name :: seen)
        (others.map fun member => (some member.1, member.2)) = listedMembers back (others.map Prod.snd) := by
      rw [List.append_cons] at distinct ⊢
      refine ih distinct ?_ later
      intro key among
      rw [List.map_append, List.mem_append]
      rcases List.mem_cons.mp among with rfl | before
      · exact .inr List.mem_cons_self
      · exact .inl (past key before)
    simp only [List.map_cons, knownMembers, found, unseen, next, Bool.false_eq_true, if_false]
    rfl

theorem recordMembers_named {fields : List Field} (distinct : (fields.map Field.name).Nodup)
    {members : List (String × Json)} (names : members.map Prod.fst = fields.map Field.name) :
    (ofMembers members).recordMembers fields = listedMembers fields (members.map Prod.snd) :=
  @knownMembers_named [] fields members [] distinct nofun names

end TransactionRelay.Json
