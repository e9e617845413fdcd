import LibShv.RpcMessage

/-!
# LibShv.RpcMessage.CallerIds

The caller ids of a message (`rpcmessage.cpp`): every broker on the way of a
request pushes the id of the connection the request came from, and pops it from
the response to find the way back.

The metadata holds the stack in one of three forms: nothing, a single integer,
or a list. `callerIdStack` is the stack itself.
-/

namespace LibShv

namespace RpcMetaData

/-- `RpcMessage::callerIds`. -/
def callerIds (md : RpcMetaData) : RpcValue := md.valueOf Tag_CallerIds

/-- `RpcMessage::setCallerIds`. -/
def setCallerIds (md : RpcMetaData) (callerIds : RpcValue) : RpcMetaData :=
  md.setIValue Tag_CallerIds callerIds

/-- Put an id on top of the ids under a tag: a single integer becomes the head of a list. -/
def pushId (md : RpcMetaData) (tag callerId : Int32) : Except String RpcMetaData := do
  let currCallerId := md.valueOf tag
  if currCallerId.isList then
    let array := currCallerId.asList ++ [.ofInt32 callerId]
    return md.setIValue tag (.ofVariant (.list array))
  else if currCallerId.isIntOrUInt then
    let array := [.ofInt32 (← currCallerId.toInt), .ofInt32 callerId]
    return md.setIValue tag (.ofVariant (.list array))
  else return md.setIValue tag (.ofInt32 callerId)

/-- `RpcMessage::pushCallerId`. -/
def pushCallerId (md : RpcMetaData) (callerId : Int32) : Except String RpcMetaData :=
  md.pushId Tag_CallerIds callerId

/-- `RpcMessage::pushRevCallerId`. -/
def pushRevCallerId (md : RpcMetaData) (callerId : Int32) : Except String RpcMetaData :=
  md.pushId Tag_RevCallerIds callerId

/-- A push sets the value of the tag. -/
theorem pushId_eq {md md' : RpcMetaData} {tag id : Int32} (h : md.pushId tag id = .ok md') :
    ∃ v, md' = md.setIValue tag v := by
  rw [pushId] at h
  by_cases hl : (md.valueOf tag).isList = true
  · simp only [hl, if_true] at h
    exact ⟨_, (Except.ok.inj h).symm⟩
  · by_cases hi : (md.valueOf tag).isIntOrUInt = true
    · cases hn : (md.valueOf tag).toInt with
      | error e => simp [hl, hi, hn, bind, Except.bind] at h
      | ok n =>
        simp only [hl, hi, hn, Bool.false_eq_true, if_false, if_true] at h
        exact ⟨_, (Except.ok.inj h).symm⟩
    · simp only [hl, hi, Bool.false_eq_true, if_false] at h
      exact ⟨_, (Except.ok.inj h).symm⟩

end RpcMetaData

/-- `RpcMessage::popCallerId`: the caller ids left, and the id. -/
def popCallerIdOf (callerIds : RpcValue) : Except String (RpcValue × Int32) := do
  if callerIds.isList then
    match callerIds.asList.getLast? with
    | none => return (.ofVariant (.list []), 0)
    | some id => return (.ofVariant (.list callerIds.asList.dropLast), ← id.toInt)
  else return (.invalid, ← callerIds.toInt)

/-- `popCallerId` on the metadata. -/
def RpcMetaData.popCallerId (md : RpcMetaData) : Except String (RpcMetaData × Int32) := do
  let (callerIds, id) ← popCallerIdOf md.callerIds
  return (md.setCallerIds callerIds, id)

/-- `RpcMessage::setCallerIds`. -/
def RpcMessage.setCallerIds (msg : RpcMessage) (callerIds : RpcValue) : RpcMessage where
  value := msg.checkMetaValues.setMetaValue Tag_CallerIds callerIds
  shape := .inl msg.isIMap_checkMetaValues

/-- `RpcResponse::forRequest`. -/
def RpcMessage.forRequest (md : RpcMetaData) : RpcMessage :=
  let ret := RpcMessage.empty
  let ret := if md.requestId.isValid then ret.setRequestId md.requestId else ret
  if md.callerIds.isValid then ret.setCallerIds md.callerIds else ret

/-- `RpcResponse::setResult`. -/
def RpcMessage.setResult (msg : RpcMessage) (res : RpcValue) : RpcMessage where
  value := msg.checkMetaValues.setKey Key_Result res
  shape := .inl rfl

/-! ## the stack -/

/-- The caller ids of a message, the one pushed last at the end. -/
def callerIdStack (callerIds : RpcValue) : List RpcValue :=
  if callerIds.isList then callerIds.asList
  else if callerIds.isIntOrUInt then
    match callerIds.toInt64 with
    | .ok n => [.ofVariant (.int n)]
    | .error _ => []
  else []

/-- What a sender may put there: nothing, a list, or a single `int`. -/
def CallerIdsFit (callerIds : RpcValue) : Prop :=
  match callerIds.value with
  | .invalid => True
  | .list _ => True
  | .int n => -2 ^ 31 ≤ n.toInt ∧ n.toInt < 2 ^ 31
  | .uint n => n.toNat < 2 ^ 31
  | _ => False

namespace RpcMetaData

variable {md : RpcMetaData}

@[simp] theorem sorted_setCallerIds (h : SortedMap.Sorted md.iValues) (v : RpcValue) :
    SortedMap.Sorted (md.setCallerIds v).iValues :=
  sorted_setIValue h _ v

theorem callerIds_setCallerIds (h : SortedMap.Sorted md.iValues) {v : RpcValue}
    (hv : v.isValid = true) : (md.setCallerIds v).callerIds = v := by
  rw [callerIds, setCallerIds, valueOf_setIValue_self h, if_pos hv]

end RpcMetaData

/-- A single integer that fits is read and written back as the same number. -/
theorem toInt64_of_fits {v : RpcValue} (hfit : CallerIdsFit v) (hv : v.isIntOrUInt = true) :
    ∃ n, v.toInt = .ok n ∧ v.toInt64 = .ok n.toInt64 := by
  obtain ⟨md, x⟩ := v
  cases x with
  | int n =>
    refine ⟨n.toInt32, rfl, congrArg Except.ok ?_⟩
    obtain ⟨hlo, hhi⟩ := hfit
    apply Int64.toInt_inj.mp
    rw [Int32.toInt_toInt64, Int64.toInt_toInt32, Int.bmod_eq_of_le (by omega) (by omega)]
  | uint n =>
    refine ⟨n.toInt64.toInt32, rfl, congrArg Except.ok ?_⟩
    have hfit : n.toNat < 2 ^ 31 := hfit
    have hn : n.toInt64.toInt = n.toNat := by
      rw [← Int64.toInt_toBitVec, UInt64.toBitVec_toInt64, BitVec.toInt_eq_toNat_bmod]
      change (n.toNat : Int).bmod (2 ^ 64) = n.toNat
      rw [Int.bmod_eq_of_le (by omega) (by omega)]
    apply Int64.toInt_inj.mp
    rw [Int32.toInt_toInt64, Int64.toInt_toInt32, hn, Int.bmod_eq_of_le (by omega) (by omega)]
  | _ => contradiction

theorem callerIdStack_of_not_isValid {v : RpcValue} (h : ¬ v.isValid = true) :
    callerIdStack v = [] := by
  obtain ⟨md, x⟩ := v
  cases x <;> first | rfl | exact absurd rfl h

/-- What a pop takes off is the id on top of the stack. -/
theorem popCallerIdOf_stack {v : RpcValue} {stack : List RpcValue} {id : Int32}
    (h : callerIdStack v = stack ++ [.ofInt32 id]) :
    ∃ v', popCallerIdOf v = .ok (v', id) ∧ callerIdStack v' = stack := by
  obtain ⟨md, x⟩ := v
  have hsingle : ∀ n : Int64, [RpcValue.ofVariant (.int n)] = stack ++ [.ofInt32 id] →
      stack = [] ∧ n.toInt32 = id := by
    intro n hn
    have hn : [] ++ [RpcValue.ofVariant (.int n)] = stack ++ [.ofInt32 id] := hn
    obtain ⟨rfl, hid⟩ := List.append_inj' hn rfl
    have hid : n = id.toInt64 := by simpa [RpcValue.ofInt32, RpcValue.ofVariant] using hid
    exact ⟨rfl, by rw [hid, Int32.toInt32_toInt64]⟩
  cases x with
  | list vs =>
    obtain rfl : vs = stack ++ [RpcValue.ofInt32 id] := h
    refine ⟨.ofVariant (.list stack), ?_, rfl⟩
    simp [popCallerIdOf, RpcValue.isList, RpcValue.asList, RpcValue.toInt_ofInt32, bind, Except.bind, pure,
      Except.pure]
  | int n =>
    obtain ⟨rfl, rfl⟩ := hsingle n h
    exact ⟨.invalid, rfl, rfl⟩
  | uint n =>
    obtain ⟨rfl, rfl⟩ := hsingle n.toInt64 h
    exact ⟨.invalid, rfl, rfl⟩
  | _ => simp [callerIdStack, RpcValue.isList, RpcValue.isIntOrUInt] at h

namespace RpcMetaData

variable {md : RpcMetaData}

theorem callerIdStack_setCallerIds (h : SortedMap.Sorted md.iValues) (v : RpcValue) :
    callerIdStack (md.setCallerIds v).callerIds = callerIdStack v := by
  rw [callerIds, setCallerIds, valueOf_setIValue_self h]
  by_cases hv : v.isValid = true
  · rw [if_pos hv]
  · rw [if_neg hv, callerIdStack_of_not_isValid hv]
    rfl

theorem pushCallerId_def (id : Int32) :
    md.pushCallerId id = do
      if md.callerIds.isList then
        return md.setCallerIds (.ofVariant (.list (md.callerIds.asList ++ [.ofInt32 id])))
      else if md.callerIds.isIntOrUInt then
        return md.setCallerIds (.ofVariant (.list [.ofInt32 (← md.callerIds.toInt), .ofInt32 id]))
      else return md.setCallerIds (.ofInt32 id) := rfl

/-- A push puts the id on top of the stack, in every form of it. -/
theorem pushCallerId_stack (h : SortedMap.Sorted md.iValues) (hfit : CallerIdsFit md.callerIds)
    (id : Int32) :
    ∃ md', md.pushCallerId id = .ok md' ∧ SortedMap.Sorted md'.iValues ∧
      CallerIdsFit md'.callerIds ∧
      callerIdStack md'.callerIds = callerIdStack md.callerIds ++ [.ofInt32 id] := by
  have hstored : ∀ vs, CallerIdsFit (md.setCallerIds (.ofVariant (.list vs))).callerIds := by
    intro vs
    rw [callerIds_setCallerIds h rfl]
    exact trivial
  by_cases hlist : md.callerIds.isList = true
  · refine ⟨_, by rw [pushCallerId_def, if_pos hlist]; rfl, sorted_setCallerIds h _, hstored _, ?_⟩
    rw [callerIdStack_setCallerIds h, callerIdStack.eq_1 (md.callerIds), if_pos hlist]
    rfl
  · by_cases hint : md.callerIds.isIntOrUInt = true
    · obtain ⟨n, hn, hn'⟩ := toInt64_of_fits hfit hint
      refine ⟨_, by rw [pushCallerId_def, if_neg hlist, if_pos hint, hn]; rfl,
        sorted_setCallerIds h _, hstored _, ?_⟩
      rw [callerIdStack_setCallerIds h, callerIdStack.eq_1 (md.callerIds), if_neg hlist, if_pos hint,
        hn']
      rfl
    · refine ⟨_, by rw [pushCallerId_def, if_neg hlist, if_neg hint]; rfl,
        sorted_setCallerIds h _, ?_, ?_⟩
      · rw [callerIds_setCallerIds h rfl]
        have hlo := id.le_toInt
        have hhi := id.toInt_lt
        change -2 ^ 31 ≤ id.toInt64.toInt ∧ id.toInt64.toInt < 2 ^ 31
        rw [Int32.toInt_toInt64]
        omega
      · rw [callerIdStack_setCallerIds h, callerIdStack.eq_1 (md.callerIds), if_neg hlist,
          if_neg hint]
        rfl

/-- A pop takes the id off the stack. -/
theorem popCallerId_stack (h : SortedMap.Sorted md.iValues) {stack : List RpcValue} {id : Int32}
    (hids : callerIdStack md.callerIds = stack ++ [.ofInt32 id]) :
    ∃ md', md.popCallerId = .ok (md', id) ∧ SortedMap.Sorted md'.iValues ∧
      callerIdStack md'.callerIds = stack := by
  obtain ⟨v', hpop, hstack⟩ := popCallerIdOf_stack hids
  refine ⟨md.setCallerIds v', ?_, sorted_setCallerIds h v', ?_⟩
  · rw [popCallerId, hpop]
    rfl
  · rw [callerIdStack_setCallerIds h, hstack]

/-! ## a chain of brokers -/

/-- Every broker pushes the id of the connection the request came from. -/
def pushCallerIds (md : RpcMetaData) : List Int32 → Except String RpcMetaData
  | [] => .ok md
  | id :: ids => do pushCallerIds (← md.pushCallerId id) ids

/-- As many brokers pop an id from the response; the ids in the order they are popped. -/
def popCallerIds (md : RpcMetaData) : Nat → Except String (RpcMetaData × List Int32)
  | 0 => .ok (md, [])
  | n + 1 => do
    let (md, ids) ← popCallerIds md n
    let (md, id) ← md.popCallerId
    return (md, ids ++ [id])

/-- Whatever carries the stack back is popped in the reverse order. -/
theorem pushCallerIds_popCallerIds (ids : List Int32) (h : SortedMap.Sorted md.iValues)
    (hfit : CallerIdsFit md.callerIds) :
    ∃ md', md.pushCallerIds ids = .ok md' ∧
      ∀ rsp : RpcMetaData, SortedMap.Sorted rsp.iValues →
        callerIdStack rsp.callerIds = callerIdStack md'.callerIds →
        ∃ rsp', rsp.popCallerIds ids.length = .ok (rsp', ids.reverse) ∧
          SortedMap.Sorted rsp'.iValues ∧
          callerIdStack rsp'.callerIds = callerIdStack md.callerIds := by
  induction ids generalizing md with
  | nil => exact ⟨md, rfl, fun rsp hrsp hids => ⟨rsp, rfl, hrsp, hids⟩⟩
  | cons id ids ih =>
    obtain ⟨md₁, hpush, hsort, hfit₁, hstack⟩ := pushCallerId_stack h hfit id
    obtain ⟨md', hpushes, hback⟩ := ih hsort hfit₁
    refine ⟨md', by rw [pushCallerIds, hpush]; exact hpushes, fun rsp hrsp hids => ?_⟩
    obtain ⟨rsp₁, hpops, hsort₁, hids₁⟩ := hback rsp hrsp hids
    obtain ⟨rsp', hpop, hsort', hids'⟩ := popCallerId_stack hsort₁ (hids₁.trans hstack)
    refine ⟨rsp', ?_, hsort', hids'⟩
    rw [List.length_cons, popCallerIds, hpops, List.reverse_cons]
    change (do
      let (md, id) ← rsp₁.popCallerId
      return (md, ids.reverse ++ [id]) : Except String _) = _
    rw [hpop]
    rfl

end RpcMetaData

/-! ## responses -/

namespace RpcMessage

theorem sorted_checkMetaValues {msg : RpcMessage} (h : SortedMap.Sorted msg.value.metaData.iValues) :
    SortedMap.Sorted msg.checkMetaValues.metaData.iValues := by
  rw [checkMetaValues]
  by_cases hv : msg.value.isValid = true
  · rw [if_pos hv]
    exact h
  · rw [if_neg hv]
    have h : SortedMap.Sorted RpcMetaData.empty.iValues := SortedMap.sorted_nil
    exact RpcMetaData.sorted_setIValue h _ _

/-- Filling in a message leaves its caller ids alone. -/
theorem callerIdStack_checkMetaValues {msg : RpcMessage}
    (h : msg.value.isValid = false → callerIdStack msg.value.metaData.callerIds = []) :
    callerIdStack msg.checkMetaValues.metaData.callerIds =
      callerIdStack msg.value.metaData.callerIds := by
  rw [checkMetaValues]
  by_cases hv : msg.value.isValid = true
  · rw [if_pos hv]
  · rw [if_neg hv, h (by simpa using hv)]
    rfl

/-- The metadata of a message that has no caller ids yet. -/
theorem callerIds_setRequestId_empty (id : RpcValue) :
    SortedMap.Sorted (empty.setRequestId id).value.metaData.iValues ∧
      (empty.setRequestId id).value.metaData.callerIds = .invalid := by
  have hsort : SortedMap.Sorted empty.checkMetaValues.metaData.iValues :=
    sorted_checkMetaValues SortedMap.sorted_nil
  refine ⟨RpcMetaData.sorted_setIValue hsort _ _, ?_⟩
  exact RpcMetaData.valueOf_setIValue_of_ne (by decide) id

/-- A response carries the caller ids of the request. -/
theorem callerIdStack_forRequest (md : RpcMetaData) :
    SortedMap.Sorted (forRequest md).value.metaData.iValues ∧
      callerIdStack (forRequest md).value.metaData.callerIds = callerIdStack md.callerIds := by
  have hret : ∀ ret : RpcMessage, SortedMap.Sorted ret.value.metaData.iValues →
      ret.value.metaData.callerIds = .invalid → ∀ rsp : RpcMessage,
      rsp = (if md.callerIds.isValid then ret.setCallerIds md.callerIds else ret) →
      SortedMap.Sorted rsp.value.metaData.iValues ∧
        callerIdStack rsp.value.metaData.callerIds = callerIdStack md.callerIds := by
    intro ret hsort hnone rsp hrsp
    rw [hrsp]
    by_cases hids : md.callerIds.isValid = true
    · rw [if_pos hids]
      have hsort' := sorted_checkMetaValues hsort
      exact ⟨RpcMetaData.sorted_setIValue hsort' _ _,
        RpcMetaData.callerIdStack_setCallerIds hsort' _⟩
    · rw [if_neg hids, hnone, callerIdStack_of_not_isValid hids]
      exact ⟨hsort, rfl⟩
  by_cases hid : md.requestId.isValid = true
  · obtain ⟨hsort, hnone⟩ := callerIds_setRequestId_empty md.requestId
    exact hret _ hsort hnone _ (by rw [forRequest, if_pos hid])
  · exact hret empty SortedMap.sorted_nil rfl _ (by rw [forRequest, if_neg hid])

theorem callerIdStack_setKey {msg : RpcMessage} {stack : List RpcValue}
    (h : SortedMap.Sorted msg.value.metaData.iValues)
    (hids : callerIdStack msg.value.metaData.callerIds = stack) (hnew : msg.value.isValid = false →
      stack = []) (key : Int32) (val : RpcValue) :
    SortedMap.Sorted (msg.checkMetaValues.setKey key val).metaData.iValues ∧
      callerIdStack (msg.checkMetaValues.setKey key val).metaData.callerIds = stack := by
  refine ⟨sorted_checkMetaValues h, ?_⟩
  rw [← hids]
  exact callerIdStack_checkMetaValues fun hv => by rw [hids, hnew hv]

/-- An answer to a request: a result or an error. -/
inductive Answers (md : RpcMetaData) : RpcMessage → Prop where
  | result (res : RpcValue) : Answers md ((forRequest md).setResult res)
  | error (err : RpcError) : Answers md ((forRequest md).setError err)

/-- Both kinds of answers carry the caller ids of the request. -/
theorem Answers.callerIdStack {md : RpcMetaData} {rsp : RpcMessage} (h : Answers md rsp) :
    SortedMap.Sorted rsp.value.metaData.iValues ∧
      callerIdStack rsp.value.metaData.callerIds = LibShv.callerIdStack md.callerIds := by
  obtain ⟨hsort, hids⟩ := callerIdStack_forRequest md
  have hnew : (forRequest md).value.isValid = false → LibShv.callerIdStack md.callerIds = [] := by
    intro hv
    by_cases hvalid : md.callerIds.isValid = true
    · rw [forRequest, if_pos hvalid] at hv
      have himap := isIMap_checkMetaValues
        (if md.requestId.isValid then empty.setRequestId md.requestId else empty)
      change (RpcMessage.checkMetaValues _).value.isValid = false at hv
      generalize (RpcMessage.checkMetaValues _) = v at himap hv
      obtain ⟨mdv, x⟩ := v
      cases x <;> contradiction
    · exact callerIdStack_of_not_isValid hvalid
  cases h with
  | result res => exact callerIdStack_setKey hsort hids hnew _ _
  | error err => exact callerIdStack_setKey hsort hids hnew _ _

end RpcMessage

/-- The way back. On the way of a request any brokers push any ids. From any
answer made at the far end they pop the same ids in the reverse order, and what
is left are the caller ids of the sender; in particular a pop undoes a push. -/
theorem callerIds_route (md : RpcMetaData) (hsort : SortedMap.Sorted md.iValues)
    (hfit : CallerIdsFit md.callerIds) :
    (∀ id, ∃ md' md'', md.pushCallerId id = .ok md' ∧ md'.popCallerId = .ok (md'', id) ∧
      callerIdStack md''.callerIds = callerIdStack md.callerIds) ∧
    ∀ ids : List Int32, ∃ md', md.pushCallerIds ids = .ok md' ∧
      ∀ rsp : RpcMessage, rsp.Answers md' →
        ∃ md'', rsp.value.metaData.popCallerIds ids.length = .ok (md'', ids.reverse) ∧
          callerIdStack md''.callerIds = callerIdStack md.callerIds := by
  constructor
  · intro id
    obtain ⟨md', hpush, hsort', -, hstack⟩ := RpcMetaData.pushCallerId_stack hsort hfit id
    obtain ⟨md'', hpop, -, hstack'⟩ := RpcMetaData.popCallerId_stack hsort' hstack
    exact ⟨md', md'', hpush, hpop, hstack'⟩
  · intro ids
    obtain ⟨md', hpush, hback⟩ := RpcMetaData.pushCallerIds_popCallerIds ids hsort hfit
    refine ⟨md', hpush, fun rsp hrsp => ?_⟩
    obtain ⟨hsort', hids⟩ := hrsp.callerIdStack
    obtain ⟨md'', hpop, -, hstack⟩ := hback _ hsort' hids
    exact ⟨md'', hpop, hstack⟩

/-- The metadata of a request whose sender put a single caller id there. -/
def singleCallerId (n : Int64) : RpcMetaData := .mk [(Tag_CallerIds, .ofVariant (.int n))] []

theorem callerIds_route_single :
    (∃ md' md'', (singleCallerId 7).pushCallerId 3 = .ok md' ∧ md'.popCallerId = .ok (md'', 3) ∧
      callerIdStack md''.callerIds = callerIdStack (singleCallerId 7).callerIds) ∧
    ∃ md', (singleCallerId 7).pushCallerIds [3, 5] = .ok md' ∧
      ∀ rsp : RpcMessage, rsp.Answers md' →
        ∃ md'', rsp.value.metaData.popCallerIds 2 = .ok (md'', [5, 3]) ∧
          callerIdStack md''.callerIds = callerIdStack (singleCallerId 7).callerIds := by
  have h := callerIds_route (singleCallerId 7) (by decide) (by
    change -2 ^ 31 ≤ (7 : Int64).toInt ∧ (7 : Int64).toInt < 2 ^ 31
    decide)
  exact ⟨h.1 3, h.2 [3, 5]⟩

/-- A single caller id wider than an `int` loses its upper half with the first push. -/
theorem callerIds_narrowed :
    ∃ md' md'', (singleCallerId (2 ^ 32 + 5)).pushCallerId 3 = .ok md' ∧
      md'.popCallerId = .ok (md'', 3) ∧
      callerIdStack (singleCallerId (2 ^ 32 + 5)).callerIds = [.ofVariant (.int (2 ^ 32 + 5))] ∧
      callerIdStack md''.callerIds = [.ofVariant (.int 5)] :=
  ⟨_, _, rfl, rfl, rfl, rfl⟩

end LibShv
