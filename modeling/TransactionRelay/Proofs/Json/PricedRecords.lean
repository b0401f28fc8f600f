import TransactionRelay.Proofs.Json.RoundTrip

namespace TransactionRelay

namespace JsonNumber

theorem leadingFrom_below (tries dropped value : Nat) : ∃ more,
    (leadingFrom dropped tries value).2 = dropped + more ∧
      (leadingFrom dropped tries value).1 * Nat.pow 10 more ≤ value := by
  induction tries generalizing dropped value with
  | zero => exact ⟨0, rfl, Nat.le_of_eq (Nat.mul_one value)⟩
  | succ tries ih =>
    rw [leadingFrom]
    split
    next => exact ⟨0, rfl, Nat.le_of_eq (Nat.mul_one value)⟩
    next =>
      obtain ⟨more, place, below⟩ := ih (dropped + 1) (value / 10)
      refine ⟨more + 1, by omega, ?_⟩
      have step : Nat.pow 10 (more + 1) = Nat.pow 10 more * 10 := rfl
      rw [step, ← Nat.mul_assoc]
      exact Nat.le_trans (Nat.mul_le_mul_right 10 below) (Nat.div_mul_le_self value 10)

theorem nearest_le (value : Nat) : nearest value ≤ 2 * value := by
  rw [nearest]
  have unit : Nat.pow 2 (value.log2 - 52) ≤ value ∨ value = 0 := by
    by_cases none : value = 0
    · exact .inr none
    · exact .inl (Nat.le_trans (Nat.pow_le_pow_right (by decide) (Nat.sub_le ..)) (Nat.log2_self_le none))
  rcases unit with small | rfl
  · have below := Nat.div_mul_le_self value (Nat.pow 2 (value.log2 - 52))
    split
    · rw [Nat.add_one_mul]
      omega
    · omega
  · decide

-- With no more than 128 bits there is no power of ten above the 38th in it.
theorem tooLarge_word {value : Nat} (within : value < Text.word128) (negative : Bool) :
    (integer negative value).tooLarge = false := by
  obtain ⟨more, place, below⟩ := leadingFrom_below (value.log2 + 1) 0 value
  have form : (integer negative value).scientific =
    ((leadingFrom 0 (value.log2 + 1) value).1, .ofNat (leadingFrom 0 (value.log2 + 1) value).2) := rfl
  rw [tooLarge, form, place, Nat.zero_add]
  generalize (leadingFrom 0 (value.log2 + 1) value).1 = leading at below
  by_cases nought : leading = 0
  · rw [nought]
    rfl
  have power : Nat.pow 10 more ≤ value := Nat.le_trans (Nat.le_mul_of_pos_left _ (Nat.pos_of_ne_zero nought)) below
  have front : leading ≤ value := Nat.le_trans (Nat.le_mul_of_pos_right _ (Nat.pow_pos (by decide))) below
  have few : ¬ 308 < more := by
    intro many
    have grown : Nat.pow 10 39 ≤ Nat.pow 10 more := Nat.pow_le_pow_right (by decide) (by omega)
    have wide : Text.word128 ≤ Nat.pow 10 39 := by decide +kernel
    omega
  have product : nearest leading * nearest (Nat.pow 10 more) < floatBound := by
    have wide : 2 * Text.word128 * (2 * Text.word128) < floatBound := by decide +kernel
    refine Nat.lt_of_le_of_lt (Nat.mul_le_mul ?_ ?_) wide
    · exact Nat.le_trans (nearest_le leading) (by omega)
    · exact Nat.le_trans (nearest_le (Nat.pow 10 more)) (by omega)
  simp only [Bool.and_eq_false_iff, Bool.or_eq_false_iff, decide_eq_false_iff_not]
  exact .inr ⟨few, Nat.not_le.mpr product⟩

end JsonNumber

theorem Json.asReportedPrice_ofNat {value : Nat} (within : value < Text.word128) :
    asReportedPrice (.ofNat value) =
      if value < Text.word64 then .ok (BitVec.ofNat 128 value) else .error .shape := by
  have kind : gasPrice (.ofNat value) = if value < Text.word64 then .ok (BitVec.ofNat 128 value)
      else .error (.wrongKind "floating point") := by
    rw [ofNat, gasPrice, gasPrice.floating, JsonNumber.tooLarge_word within]
    rfl
  rw [asReportedPrice, kind]
  by_cases small : value < Text.word64
  · rw [if_pos small, if_pos small]
  · rw [if_neg small, if_neg small]
    rfl

-- Of the members of a reply's own form only the price can be refused.
theorem PingReply.ofJson_toJson (reply : PingReply) : ofJson reply.toJson =
    (Json.asReportedPrice (.ofNat reply.minGasPrice.toNat)).map
      fun price => { reply with minGasPrice := price } := by
  rw [ofJson, toJson, Json.recordMembers_named (by decide) rfl]
  cases taken : Json.asReportedPrice (.ofNat reply.minGasPrice.toNat) with
  | ok price =>
    simp only [Json.listedMembers, fields, List.map, Json.Field.of, taken, Except.map]
    change (do
      let price ← Json.asReportedPrice (.ofNat reply.minGasPrice.toNat)
      .ok { reply with minGasPrice := price }) = _
    rw [taken]
    rfl
  | error fault =>
    simp only [Json.listedMembers, fields, List.map, Json.Field.of, taken, Except.map]
    rfl

-- A price of more than 64 bits is written in full, and its text is well formed: it is refused for the kind of that
-- one number.
theorem ping_reply_survives_within_word (reply : PingReply) :
    Json.decodeText PingReply.ofJson reply.toJson.toText =
      if reply.minGasPrice.toNat < Text.word64 then .ok reply else .error .shape := by
  have made : reply.toJson.whole = true := rfl
  rw [Json.decodeText_written made, PingReply.ofJson_toJson, Json.asReportedPrice_ofNat reply.minGasPrice.isLt,
    BitVec.ofNat_toNat, BitVec.setWidth_eq]
  split <;> rfl

theorem dear_ping_reply_is_lost : Json.decodeText PingReply.ofJson
    (PingReply.toJson ⟨"0xworker", "0xmanager", "0xhub", 18446744073709551616, true, "2.0.1"⟩).toText =
      .error .shape := by
  rw [Json.decodeText_written rfl, PingReply.ofJson_toJson, Json.asReportedPrice_ofNat (by decide +kernel)]
  rfl

theorem Json.asGasPrice_ofNat (price : GasPrice) : asGasPrice (.ofNat price.toNat) = .ok price := by
  have within : price.toNat < Text.word128 := price.isLt
  rw [ofNat, asGasPrice, if_pos within, BitVec.ofNat_toNat, BitVec.setWidth_eq]

theorem RelayRequest.ofJson_toJson (request : RelayRequest) : ofJson request.toJson = .ok request := by
  obtain ⟨sender, target, data, gasPrice, deploysWallet⟩ := request
  rw [ofJson, toJson, Json.recordMembers_named (by decide) rfl]
  cases gasPrice with
  | none => rfl
  | some price =>
    have taken : Json.asOption Json.asGasPrice (.ofNat price.toNat) = .ok (some price) :=
      congrArg (Except.map some) (Json.asGasPrice_ofNat price)
    simp only [Json.listedMembers, fields, List.map, Json.Field.of, Json.ofOption, taken, Except.map]
    change (do
      let found ← Json.asOption Json.asGasPrice (.ofNat price.toNat)
      .ok (RelayRequest.mk sender target data found deploysWallet)) = _
    rw [taken]
    rfl

-- In a request the price is looked for digit by digit, so its size does not matter.
theorem request_survives (request : RelayRequest) :
    Json.decodeText RelayRequest.ofJson request.toJson.toText = .ok request := by
  have made : request.toJson.whole = true := by
    obtain ⟨_, _, _, _ | _, _⟩ := request <;> rfl
  rw [Json.decodeText_written made, RelayRequest.ofJson_toJson]

end TransactionRelay
