import Mathlib.Data.List.Forall2
import Mathlib.Data.List.Nodup
import Mathlib.Data.List.Permutation
import TransactionRelay.Json.Events
import TransactionRelay.Proofs.Json.PricedRecords
import TransactionRelay.Proofs.Text.Numerals

namespace TransactionRelay
namespace Json

variable {α : Type} {fields : List Field} {members own : List (String × Json)}

theorem lookup_member (distinct : (members.map Prod.fst).Nodup) {name : String} {value : Json}
    (member : (name, value) ∈ members) : members.lookup name = some value := by
  obtain ⟨front, back, rfl⟩ := List.append_of_mem member
  refine List.lookup_eq_some_iff.mpr ⟨front, back, rfl, fun other before => bne_iff_ne.mpr ?_⟩
  rw [List.map_append, List.nodup_append] at distinct
  exact (distinct.2.2 other.1 (List.mem_map_of_mem before) name List.mem_cons_self).symm

theorem required_member (distinct : (members.map Prod.fst).Nodup) {member : String × Json} (among : member ∈ members)
    (decode : Json → Except Fault α) : required members member.1 decode = decode member.2 := by
  rw [required, lookup_member distinct among]

def Passes (fields : List Field) (member : String × Json) : Prop :=
  ∃ field, fields.find? (·.name == member.1) = some field ∧ field.check member.2 = .ok ()

def Field.Takes (field : Field) (member : String × Json) : Prop :=
  member.1 = field.name ∧ field.check member.2 = .ok ()

theorem Field.takes_of {decode : Json → Except Fault α} {value : Json} {result : α}
    (read : decode value = .ok result) (name : String) : (Field.of name decode).Takes (name, value) :=
  ⟨rfl, congrArg (Except.map fun _ => ()) read⟩

theorem names_filled (filled : List.Forall₂ Field.Takes fields own) :
    own.map Prod.fst = fields.map Field.name := by
  induction filled with
  | nil => rfl
  | cons takes _ ih => rw [List.map_cons, List.map_cons, takes.1, ih]

theorem passes_filled (distinct : (fields.map Field.name).Nodup) (filled : List.Forall₂ Field.Takes fields own) :
    ∀ member ∈ own, Passes fields member := by
  intro member among
  obtain ⟨place, within, rfl⟩ := List.getElem_of_mem among
  obtain ⟨long, takes⟩ := List.forall₂_iff_get.mp filled
  obtain ⟨name, checked⟩ := takes place (by omega) within
  refine ⟨fields[place], ?_, checked⟩
  change own[place].1 = fields[place].name at name
  rw [name, find_field distinct (List.getElem_mem (by omega))]

theorem fresh_later {member : String × Json} {seen : List String} (apart : member.1 ∉ members.map Prod.fst)
    (fresh : ∀ other ∈ members, other.1 ∉ seen) : ∀ other ∈ members, other.1 ∉ member.1 :: seen := by
  intro other among again
  rcases List.mem_cons.mp again with same | before
  · exact apart (same ▸ List.mem_map_of_mem among)
  · exact fresh other among before

theorem knownMembers_passed {seen : List String} (distinct : (members.map Prod.fst).Nodup)
    (fresh : ∀ member ∈ members, member.1 ∉ seen) (passed : ∀ member ∈ members, Passes fields member) :
    knownMembers fields seen (members.map fun member => (some member.1, member.2)) = .ok members := by
  induction members generalizing seen with
  | nil => rfl
  | cons member rest ih =>
    obtain ⟨⟨field, found, checked⟩, others⟩ := List.forall_mem_cons.mp passed
    obtain ⟨unseen, later⟩ := List.forall_mem_cons.mp fresh
    obtain ⟨apart, distinct⟩ := List.nodup_cons.mp distinct
    have next := ih distinct (fresh_later apart later) others
    have unseen : seen.contains member.1 = false := by simpa using unseen
    simp only [List.map_cons, knownMembers, found, unseen, next, checked, Bool.false_eq_true, if_false]
    rfl

-- The same object, with its members in another order.
def Reordered (value other : Json) : Prop :=
  ∃ members others, members.Perm others ∧ value = .ofMembers members ∧ other = .ofMembers others

theorem ofMembers_injective {members others : List (String × Json)}
    (same : ofMembers members = ofMembers others) : members = others := by
  refine List.map_injective_iff.mpr (fun one other same => ?_) (Json.object.inj same)
  obtain ⟨name, content⟩ := Prod.mk.inj same
  exact Prod.ext (Option.some.inj name) content

theorem Reordered.exists_members {value : Json} (reordered : Reordered value (.ofMembers own)) :
    ∃ members, members.Perm own ∧ value = .ofMembers members := by
  obtain ⟨members, others, order, rfl, same⟩ := reordered
  cases ofMembers_injective same
  exact ⟨members, order, rfl⟩

theorem Reordered.refl (members : List (String × Json)) : Reordered (.ofMembers members) (.ofMembers members) :=
  ⟨members, members, .refl members, rfl, rfl⟩

-- In whatever order the members stand, they are all taken in, and each is found under its name.
theorem Reordered.taken {value : Json} (reordered : Reordered value (.ofMembers own))
    (distinct : (fields.map Field.name).Nodup) (filled : List.Forall₂ Field.Takes fields own) :
    ∃ members, value.objectMembers fields = .ok members ∧
      ∀ member ∈ own, ∀ {β : Type} (decode : Json → Except Fault β),
        required members member.1 decode = decode member.2 := by
  obtain ⟨members, order, rfl⟩ := reordered.exists_members
  have apart : (members.map Prod.fst).Nodup :=
    (order.map Prod.fst).nodup_iff.mpr ((names_filled filled).symm ▸ distinct)
  have passed : ∀ member ∈ members, Passes fields member :=
    fun member among => passes_filled distinct filled member (order.mem_iff.mp among)
  exact ⟨members, knownMembers_passed apart nofun passed,
    fun member among _ decode => required_member apart (order.mem_iff.mpr among) decode⟩

theorem readable_ofMembers {depth : Nat} :
    (ofMembers members).readable (depth + 1) = true ↔ ∀ member ∈ members, member.2.readable depth = true := by
  rw [ofMembers, readable]
  induction members with
  | nil => exact ⟨fun _ => nofun, fun _ => rfl⟩
  | cons member rest ih =>
    rw [List.map_cons, readableMembers, Bool.and_eq_true, ih, List.forall_mem_cons]
    rfl

theorem Reordered.readable {value other : Json} (reordered : Reordered value other) {depth : Nat}
    (shallow : other.readable (depth + 1) = true) : value.readable (depth + 1) = true := by
  obtain ⟨members, others, order, rfl, rfl⟩ := reordered
  exact readable_ofMembers.mpr fun member among => readable_ofMembers.mp shallow member (order.mem_iff.mp among)

theorem readable_texts (depth : Nat) (texts : List String) : (ofTexts texts).readable (depth + 1) = true := by
  rw [ofTexts, readable]
  induction texts with
  | nil => rfl
  | cons text rest ih =>
    rw [List.map_cons, readableItems, ih]
    rfl

theorem readable_word (depth : Nat) (word : UInt64) : (ofNat word.toNat).readable depth = true := by
  have within : word.toNat < Text.word128 := Nat.lt_trans word.toNat_lt (by decide)
  rw [ofNat, readable, JsonNumber.tooLarge_word within]
  rfl

theorem whole_ofMembers :
    (ofMembers members).whole = true ↔ ∀ member ∈ members, member.2.whole = true := by
  rw [ofMembers, whole]
  induction members with
  | nil => exact ⟨fun _ => nofun, fun _ => rfl⟩
  | cons member rest ih =>
    rw [List.map_cons, wholeMembers, Bool.and_eq_true, ih, List.forall_mem_cons]
    rfl

theorem Reordered.whole {value other : Json} (reordered : Reordered value other) (made : other.whole = true) :
    value.whole = true := by
  obtain ⟨members, others, order, rfl, rfl⟩ := reordered
  exact whole_ofMembers.mpr fun member among => whole_ofMembers.mp made member (order.mem_iff.mp among)

theorem whole_texts (texts : List String) : (ofTexts texts).whole = true := by
  rw [ofTexts, whole]
  induction texts with
  | nil => rfl
  | cons text rest ih =>
    rw [List.map_cons, wholeItems, ih]
    rfl

theorem asWord64_ofNat (word : UInt64) : asWord64 (.ofNat word.toNat) = .ok word := by
  have within : word.toNat < Text.word64 := word.toNat_lt
  rw [ofNat, asWord64, if_pos within, UInt64.ofNat_toNat]

theorem asList_texts (texts : List String) : asList asText (.ofTexts texts) = .ok texts := by
  rw [ofTexts, asList]
  induction texts with
  | nil => rfl
  | cons text rest ih =>
    rw [List.map_cons, asEach, ih]
    rfl

end Json

-- An amount is written without an underscore, behind the mark of its radix.
theorem Wei.read_toHex (amount : Wei) : read amount.toHex.toList = .ok amount := by
  have numeral : Text.Numeral 16 (Text.hexadecimal amount.toNat) amount.toNat :=
    Text.numeral_toDigits (by decide) (by decide) _
  have plain : (Text.hexadecimal amount.toNat).filter (· ≠ '_') = Text.hexadecimal amount.toNat := by
    refine List.filter_eq_self.mpr fun c member => decide_eq_true ?_
    obtain ⟨d, below, written⟩ := numeral.stands c member
    have digits : ∀ d < 16, Nat.digitChar d ≠ '_'.toLower := by decide
    rintro rfl
    exact digits d below written.symm
  have taken : Text.looseBelow 16 Text.word256 (Text.hexadecimal amount.toNat) = .ok amount.toNat := by
    rw [Text.looseBelow, plain]
    exact (Text.digitsBelow_iff (by decide)).mpr (.inr ⟨numeral, amount.isLt⟩)
  rw [toHex, String.toList_ofList]
  change (Text.looseBelow 16 Text.word256 (Text.hexadecimal amount.toNat)).map (BitVec.ofNat 256) = _
  rw [taken, Except.map, BitVec.ofNat_toNat, BitVec.setWidth_eq]

theorem Json.asWei_toHex (amount : Wei) : asWei (.text amount.toHex) = .ok amount := by
  rw [asWei, Wei.read_toHex]

open Json (asText asWord64 asWei asList asName asNameTaken required Reordered Passes Field)

namespace EventArguments

theorem ofJson_reordered {data : EventData} {arguments : Json} (reordered : Reordered arguments (toJson data)) :
    ofJson data.kind arguments = .ok data := by
  cases data with
  | stakeAdded manager owner stake delay =>
    obtain ⟨members, taken, found⟩ := reordered.taken (show (stakeAdded.map Field.name).Nodup by decide)
      (.cons ⟨rfl, rfl⟩ (.cons ⟨rfl, rfl⟩ (.cons (Field.takes_of (Json.asWei_toHex stake) _)
        (.cons (Field.takes_of (Json.asWord64_ofNat delay) _) .nil))))
    simp only [List.forall_mem_cons] at found
    simp only [EventData.kind, ofJson, taken, found, asText, Json.asWei_toHex, Json.asWord64_ofNat, bind, Except.bind]
    rfl
  | stakeUnlocked manager owner block =>
    obtain ⟨members, taken, found⟩ := reordered.taken (show (stakeUnlocked.map Field.name).Nodup by decide)
      (.cons ⟨rfl, rfl⟩ (.cons ⟨rfl, rfl⟩ (.cons (Field.takes_of (Json.asWord64_ofNat block) _) .nil)))
    simp only [List.forall_mem_cons] at found
    simp only [EventData.kind, ofJson, taken, found, asText, Json.asWord64_ofNat, bind, Except.bind]
    rfl
  | stakeWithdrawn manager owner amount =>
    obtain ⟨members, taken, found⟩ := reordered.taken (show (stakeWithdrawn.map Field.name).Nodup by decide)
      (.cons ⟨rfl, rfl⟩ (.cons ⟨rfl, rfl⟩ (.cons (Field.takes_of (Json.asWei_toHex amount) _) .nil)))
    simp only [List.forall_mem_cons] at found
    simp only [EventData.kind, ofJson, taken, found, asText, Json.asWei_toHex, bind, Except.bind]
    rfl
  | stakePenalized manager beneficiary reward =>
    obtain ⟨members, taken, found⟩ := reordered.taken (show (stakePenalized.map Field.name).Nodup by decide)
      (.cons ⟨rfl, rfl⟩ (.cons ⟨rfl, rfl⟩ (.cons (Field.takes_of (Json.asWei_toHex reward) _) .nil)))
    simp only [List.forall_mem_cons] at found
    simp only [EventData.kind, ofJson, taken, found, asText, Json.asWei_toHex, bind, Except.bind]
    rfl
  | relayWorkersAdded manager workers count =>
    obtain ⟨members, taken, found⟩ := reordered.taken (show (relayWorkersAdded.map Field.name).Nodup by decide)
      (.cons ⟨rfl, rfl⟩ (.cons (Field.takes_of (Json.asList_texts workers) _)
        (.cons (Field.takes_of (Json.asWord64_ofNat count) _) .nil)))
    simp only [List.forall_mem_cons] at found
    simp only [EventData.kind, ofJson, taken, found, asText, Json.asList_texts, Json.asWord64_ofNat, bind, Except.bind]
    rfl
  | relayServerRegistered manager url =>
    obtain ⟨members, taken, found⟩ := reordered.taken (show (relayServerRegistered.map Field.name).Nodup by decide)
      (.cons ⟨rfl, rfl⟩ (.cons ⟨rfl, rfl⟩ .nil))
    simp only [List.forall_mem_cons] at found
    simp only [EventData.kind, ofJson, taken, found, asText, bind, Except.bind]
    rfl

theorem readable_toJson (data : EventData) : (toJson data).readable EventData.takenDepth = true := by
  cases data <;>
    simp only [toJson, EventData.takenDepth, Json.readable_ofMembers, List.forall_mem_cons, Json.readable_word,
      Json.readable_texts, Json.readable, true_and] <;>
    exact List.forall_mem_nil _

theorem whole_toJson (data : EventData) : (toJson data).whole = true := by
  cases data <;>
    simp only [toJson, Json.whole_ofMembers, List.forall_mem_cons, Json.whole_texts, Json.ofNat, Json.whole,
      true_and] <;>
    exact List.forall_mem_nil _

theorem toJson_members (data : EventData) : ∃ own, toJson data = .ofMembers own := by
  cases data <;> exact ⟨_, rfl⟩

end EventArguments

namespace EventData

-- The kind comes first or the arguments do. Arguments that come first are taken in before their kind is known.
theorem ofMembers_eitherWay {asKind : Json → Except Fault EventKind} {data : EventData} {arguments : Json}
    (kind : asKind data.kind.toJson = .ok data.kind) (reordered : Reordered arguments (EventArguments.toJson data))
    {members : List (String × Json)}
    (order : members.Perm [("event", data.kind.toJson), ("returnValues", arguments)]) :
    ofMembers asKind (members.map fun member => (some member.1, member.2)) = .ok data := by
  have told := EventArguments.ofJson_reordered reordered
  have shallow : arguments.readable takenDepth = true := reordered.readable (EventArguments.readable_toJson data)
  rcases List.perm_pair.mp order with rfl | rfl
  · simp [ofMembers, afterKind, noMore, kind, told, bind, Except.bind]
  · simp [ofMembers, afterArguments, noMore, kind, told, shallow, bind, Except.bind]

end EventData

namespace EventRecord

def placement (event : EventRecord) : List (String × Json) := [
  ("block_number", .ofNat event.position.block.toNat),
  ("transaction_index", .ofNat event.position.transaction.toNat),
  ("log_index", .ofNat event.position.log.toNat), ("transaction_hash", .text event.hash)]

def membersAround (event : EventRecord) (arguments : Json) : List (String × Json) :=
  event.placement ++ [("event", event.data.kind.toJson), ("returnValues", arguments)]

-- An object of an event's members in any order, its arguments in any order as well.
def Form (event : EventRecord) (form : Json) : Prop :=
  ∃ arguments, Reordered arguments (EventArguments.toJson event.data) ∧
    Reordered form (.ofMembers (event.membersAround arguments))

theorem placement_filled (event : EventRecord) : List.Forall₂ Field.Takes fields event.placement :=
  .cons (Field.takes_of (Json.asWord64_ofNat _) _) (.cons (Field.takes_of (Json.asWord64_ofNat _) _)
    (.cons (Field.takes_of (Json.asWord64_ofNat _) _) (.cons ⟨rfl, rfl⟩ .nil)))

def placed (member : String × Json) : Bool := (fields.find? (·.name == member.1)).isSome

-- The members about the position pass their checks, and the others can be taken in as they are.
theorem splitMembers_parted {members : List (String × Json)} {seen : List String}
    (distinct : (members.map Prod.fst).Nodup) (fresh : ∀ member ∈ members, member.1 ∉ seen)
    (each : ∀ member ∈ members, Passes fields member ∨
      fields.find? (·.name == member.1) = none ∧ member.2.readable EventData.takenDepth = true) :
    splitMembers seen (members.map fun member => (some member.1, member.2)) =
      .ok (members.filter placed,
        (members.filter (!placed ·)).map fun member => (some member.1, member.2)) := by
  induction members generalizing seen with
  | nil => rfl
  | cons member rest ih =>
    obtain ⟨first, others⟩ := List.forall_mem_cons.mp each
    obtain ⟨unseen, later⟩ := List.forall_mem_cons.mp fresh
    obtain ⟨apart, distinct⟩ := List.nodup_cons.mp distinct
    rcases first with ⟨field, found, checked⟩ | ⟨unknown, shallow⟩
    · have next := ih distinct (Json.fresh_later apart later) others
      have unseen : seen.contains member.1 = false := by simpa using unseen
      have known : placed member = true := by rw [placed, found]; rfl
      rw [List.filter_cons_of_pos known, List.filter_cons_of_neg (by rw [known]; decide), List.map_cons, splitMembers]
      simp only [found, unseen, next, checked, Bool.false_eq_true, if_false]
      rfl
    · have next := ih distinct later others
      have other : placed member = false := by rw [placed, unknown]; rfl
      rw [List.filter_cons_of_neg (by rw [other]; decide), List.filter_cons_of_pos (by rw [other]; decide),
        List.map_cons, splitMembers]
      simp only [unknown, shallow, next, if_true]
      rfl

theorem membersAround_distinct (event : EventRecord) (arguments : Json) :
    ((event.membersAround arguments).map Prod.fst).Nodup :=
  show (["block_number", "transaction_index", "log_index", "transaction_hash", "event", "returnValues"]).Nodup by
    decide

theorem membersAround_taken {event : EventRecord} {arguments : Json}
    (shallow : arguments.readable EventData.takenDepth = true) :
    ∀ member ∈ event.membersAround arguments, Passes fields member ∨
      fields.find? (·.name == member.1) = none ∧ member.2.readable EventData.takenDepth = true := by
  intro member among
  rcases List.mem_append.mp among with position | other
  · exact .inl (Json.passes_filled (by decide) event.placement_filled member position)
  · simp only [List.mem_cons, List.not_mem_nil, or_false] at other
    rcases other with rfl | rfl
    · exact .inr ⟨rfl, rfl⟩
    · exact .inr ⟨rfl, shallow⟩

theorem placed_found {event : EventRecord} {arguments : Json} {members : List (String × Json)}
    (order : members.Perm (event.membersAround arguments)) :
    ∀ member ∈ event.placement, ∀ {β : Type} (decode : Json → Except Fault β),
      required (members.filter placed) member.1 decode = decode member.2 := by
  have kept : (members.filter placed).Perm event.placement := order.filter placed
  have distinct : (event.placement.map Prod.fst).Nodup :=
    (event.membersAround_distinct arguments).sublist ((List.sublist_append_left _ _).map _)
  have apart : ((members.filter placed).map Prod.fst).Nodup := (kept.map Prod.fst).nodup_iff.mpr distinct
  exact fun member among _ decode => Json.required_member apart (kept.mem_iff.mpr among) decode

theorem ofJson_form {event : EventRecord} {form : Json} (formed : event.Form form) : ofJson form = .ok event := by
  obtain ⟨arguments, inner, outer⟩ := formed
  obtain ⟨members, order, rfl⟩ := outer.exists_members
  have distinct : (members.map Prod.fst).Nodup :=
    (order.map Prod.fst).nodup_iff.mpr (event.membersAround_distinct arguments)
  have shallow : arguments.readable EventData.takenDepth = true :=
    inner.readable (EventArguments.readable_toJson event.data)
  have parted : splitMembers [] (members.map fun member => (some member.1, member.2)) = .ok (members.filter placed,
      (members.filter (!placed ·)).map fun member => (some member.1, member.2)) :=
    splitMembers_parted distinct nofun fun member among => membersAround_taken shallow member (order.mem_iff.mp among)
  have data : EventData.ofMembers (asNameTaken EventKind.ofName?)
      ((members.filter (!placed ·)).map fun member => (some member.1, member.2)) = .ok event.data := by
    refine EventData.ofMembers_eitherWay ?_ inner (order.filter _)
    rw [EventKind.toJson, asNameTaken, EventKind.ofName_name]
    rfl
  have found := placed_found order
  simp only [placement, List.forall_mem_cons] at found
  simp only [Json.ofMembers, ofJson, parted, data, found, asText, Json.asWord64_ofNat, bind, Except.bind]
  rfl

theorem form_toJson (event : EventRecord) : event.Form event.toJson := by
  obtain ⟨own, form⟩ := EventArguments.toJson_members event.data
  exact ⟨EventArguments.toJson event.data, form ▸ Reordered.refl own, Reordered.refl _⟩

theorem whole_form {event : EventRecord} {form : Json} (formed : event.Form form) : form.whole = true := by
  obtain ⟨arguments, inner, outer⟩ := formed
  have made : arguments.whole = true := inner.whole (EventArguments.whole_toJson event.data)
  refine outer.whole (Json.whole_ofMembers.mpr ?_)
  simp only [membersAround, placement, List.cons_append, List.nil_append, List.forall_mem_cons]
  exact ⟨rfl, rfl, rfl, rfl, rfl, made, nofun⟩

end EventRecord

-- No two events are written as one value, or as one text, since each is read back from what is written. The order
-- of the members does not matter: each form of an event is read as that event.
theorem event_forms_unambiguous :
    (∀ event : EventRecord, ∃ read, EventRecord.ofJson event.toJson = .ok read ∧
      Json.decodeText EventRecord.ofJson event.toJson.toText = .ok read ∧
      read = event ∧ read.kind = event.kind ∧ read.key = event.key ∧ read.position = event.position) ∧
    (∀ one other : EventRecord, one.toJson = other.toJson ↔ one = other) ∧
    (∀ one other : EventRecord, one.toJson.toText = other.toJson.toText ↔ one = other) ∧
    ∀ (event : EventRecord) (form : Json), event.Form form →
      EventRecord.ofJson form = .ok event ∧ Json.decodeText EventRecord.ofJson form.toText = .ok event := by
  have forms {event : EventRecord} {form : Json} (formed : event.Form form) :
      EventRecord.ofJson form = .ok event ∧ Json.decodeText EventRecord.ofJson form.toText = .ok event := by
    have value := EventRecord.ofJson_form formed
    exact ⟨value, (Json.decodeText_written (EventRecord.whole_form formed) _).trans value⟩
  have own (event : EventRecord) := forms event.form_toJson
  refine ⟨fun event => ⟨event, (own event).1, (own event).2, rfl, rfl, rfl, rfl⟩, fun one other => ?values,
    fun one other => ?texts, fun event form => forms⟩
  case values =>
    refine ⟨fun same => ?_, congrArg _⟩
    have first := (own one).1
    rw [same, (own other).1] at first
    exact (Except.ok.inj first).symm
  case texts =>
    refine ⟨fun same => ?_, congrArg fun event : EventRecord => event.toJson.toText⟩
    have first := (own one).2
    rw [same, (own other).2] at first
    exact (Except.ok.inj first).symm

def workersAdded : EventRecord := ⟨⟨2, 0, 1⟩, "0x21", .relayWorkersAdded "0xmanager" ["0xworker"] 1⟩

def turnedForm : Json := .ofMembers [
  ("returnValues", .ofMembers [("workers_count", .ofNat 1), ("relay_manager", .text "0xmanager"),
    ("new_relay_workers", .ofTexts ["0xworker"])]),
  ("block_number", .ofNat 2), ("transaction_index", .ofNat 0), ("log_index", .ofNat 1),
  ("transaction_hash", .text "0x21"), ("event", .text "RelayWorkersAdded")]

theorem turned_form_is_read : workersAdded.Form turnedForm ∧ EventRecord.ofJson turnedForm = .ok workersAdded ∧
    Json.decodeText EventRecord.ofJson turnedForm.toText = .ok workersAdded := by
  have formed : workersAdded.Form turnedForm :=
    ⟨_, ⟨_, _, @List.perm_append_comm _ [_] [_, _], rfl, rfl⟩,
      ⟨_, _, @List.perm_append_comm _ [_] (workersAdded.placement ++ [_]), rfl, rfl⟩⟩
  exact ⟨formed, event_forms_unambiguous.2.2.2 workersAdded turnedForm formed⟩

end TransactionRelay
