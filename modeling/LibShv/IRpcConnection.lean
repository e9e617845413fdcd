import LibShv.BrokerApp.Signals
import LibShv.RpcValue.Equality

/-!
# LibShv.IRpcConnection

The calls of a client (`irpcconnection.cpp`): each hands one message to
`sendRpcMessage` and returns a request id.

All connections take their request ids from one counter. A call that brings an id of
its own takes none.
-/

namespace LibShv

/-! ## filling in a request -/

namespace RpcMessage

/-- `setMetaValue` under a string key. -/
def setMetaValueS (msg : RpcMessage) (key : Bytes) (val : RpcValue) : RpcMessage where
  value := msg.checkMetaValues.setMetaData (msg.checkMetaValues.metaData.setSValue key val)
  shape := .inl msg.isIMap_checkMetaValues

/-- `setUserId`. -/
def setUserId (msg : RpcMessage) (user_id : RpcValue) : RpcMessage :=
  msg.setMetaValue Tag_UserId user_id

end RpcMessage

namespace IRpcConnection

/-! ## the names of the broker -/

def METH_SUBSCRIBE : Bytes := ascii "subscribe"
def METH_UNSUBSCRIBE : Bytes := ascii "unsubscribe"
def PAR_PATH : Bytes := ascii "path"
def PAR_METHOD : Bytes := ascii "method"
def PAR_SOURCE : Bytes := ascii "source"
def DIR_BROKER_APP : Bytes := ascii ".broker/app"
def DIR_BROKER_CURRENTCLIENT : Bytes := ascii ".broker/currentClient"

/-! ## the calls -/

inductive ShvApiVersion where
  | V2
  | V3
deriving DecidableEq

/-- A connection, with the counter that all connections share and the messages that were handed
to `sendRpcMessage`. -/
structure Conn where
  n : Int32
  shvApiVersion : ShvApiVersion
  sent : List RpcMessage

namespace Conn

/-- `nextRequestId`. -/
def nextRequestId (s : Conn) : Int32 × Conn := (s.n + 1, { s with n := s.n + 1 })

/-- `sendRpcMessage`, which a connection implements. -/
def sendRpcMessage (s : Conn) (rpc_msg : RpcMessage) : Conn := { s with sent := s.sent ++ [rpc_msg] }

/-- `callMethod`. The request that is given the new id is a copy. -/
def callMethod (s : Conn) (rq : RpcMessage) : Except String Int32 × Conn :=
  match rq.requestId.toInt with
  | .error e => (.error e, s)
  | .ok id =>
    let filled : Int32 × RpcMessage × Conn :=
      if id = 0 then
        let next := s.nextRequestId
        (next.1, rq.setRequestId (.ofInt32 next.1), next.2)
      else (id, rq, s)
    (.ok filled.1, filled.2.2.sendRpcMessage rq)

/-- The request of `callShvMethod`. -/
def shvRequest (rq_id : Int32) (shv_path method : Bytes) (params user_id : RpcValue)
    (extra_meta_data : RpcMap) : RpcMessage :=
  let rq := (RpcMessage.empty.setRequestId (.ofInt32 rq_id)).setMethod method
  let rq := if params.isValid then rq.setParams params else rq
  let rq := if user_id.isValid then rq.setUserId user_id else rq
  let rq := if shv_path ≠ [] then rq.setShvPath shv_path else rq
  extra_meta_data.foldl (fun rq kv => rq.setMetaValueS kv.1 kv.2) rq

/-- `callShvMethod` with an id; parameters, user id and metadata are left out as invalid values
and an empty map. -/
def callShvMethodId (s : Conn) (rq_id : Int32) (shv_path method : Bytes) (params user_id : RpcValue)
    (extra_meta_data : RpcMap) : Int32 × Conn :=
  (rq_id, s.sendRpcMessage (shvRequest rq_id shv_path method params user_id extra_meta_data))

/-- `callShvMethod` without an id. -/
def callShvMethod (s : Conn) (shv_path method : Bytes) (params user_id : RpcValue) : Int32 × Conn :=
  let next := s.nextRequestId
  next.2.callShvMethodId next.1 shv_path method params user_id []

/-- The resource of a V3 subscription, from a path of V2. -/
def resourceId (shv_path method source : Bytes) : Bytes :=
  shv_path ++ ascii "/**" ++ ascii ":" ++ (if source = [] then ascii "*" else source) ++ ascii ":" ++
    if method = [] then ascii "*" else method

/-- The parameters of a V2 subscription. -/
def subscriptionMap (shv_path method source : Bytes) : RpcValue :=
  .ofVariant (.map (SortedMap.insert PAR_PATH (.ofVariant (.string shv_path))
    (SortedMap.insert PAR_METHOD (.ofVariant (.string method))
      (SortedMap.insert PAR_SOURCE (.ofVariant (.string source)) []))))

/-- `RpcList` of a text and a null. -/
def withoutTtl (s : Bytes) : RpcValue :=
  .ofVariant (.list [.ofVariant (.string s), .ofVariant .null])

/-- `makeSubscribeParams`. -/
def makeSubscribeParams (api_ver : ShvApiVersion) (shv_path method source : Bytes) :
    Bytes × RpcValue :=
  match api_ver with
  | .V3 => (DIR_BROKER_CURRENTCLIENT, withoutTtl (resourceId shv_path method source))
  | .V2 => (DIR_BROKER_APP, subscriptionMap shv_path method source)

/-- `callMethodSubscribeGlob`; the id is taken before the version is looked at. -/
def callMethodSubscribeGlob (s : Conn) (glob : Bytes) : Int32 × Conn :=
  let next := s.nextRequestId
  match s.shvApiVersion with
  | .V3 => next.2.callShvMethodId next.1 DIR_BROKER_CURRENTCLIENT METH_SUBSCRIBE (withoutTtl glob)
      .invalid []
  | .V2 => (0, next.2)

/-- `callMethodSubscribe` with an id. -/
def callMethodSubscribeId (s : Conn) (rq_id : Int32) (shv_path method source : Bytes) : Int32 × Conn :=
  let params := makeSubscribeParams s.shvApiVersion shv_path method source
  s.callShvMethodId rq_id params.1 METH_SUBSCRIBE params.2 .invalid []

/-- `callMethodSubscribe` without an id. -/
def callMethodSubscribe (s : Conn) (shv_path method source : Bytes) : Int32 × Conn :=
  let next := s.nextRequestId
  next.2.callMethodSubscribeId next.1 shv_path method source

/-- `callMethodUnsubscribe` with an id. -/
def callMethodUnsubscribeId (s : Conn) (rq_id : Int32) (shv_path method source : Bytes) :
    Int32 × Conn :=
  match s.shvApiVersion with
  | .V3 => s.callShvMethodId rq_id DIR_BROKER_CURRENTCLIENT METH_UNSUBSCRIBE
      (.ofVariant (.string (resourceId shv_path method source))) .invalid []
  | .V2 => s.callShvMethodId rq_id DIR_BROKER_APP METH_UNSUBSCRIBE
      (subscriptionMap shv_path method source) .invalid []

/-- `callMethodUnsubscribe` without an id. -/
def callMethodUnsubscribe (s : Conn) (shv_path method source : Bytes) : Int32 × Conn :=
  let next := s.nextRequestId
  next.2.callMethodUnsubscribeId next.1 shv_path method source

end Conn

/-- A call in any of its forms. -/
inductive Call where
  | method (rq : RpcMessage)
  | shvMethod (shv_path method : Bytes) (params user_id : RpcValue)
  | shvMethodId (rq_id : Int32) (shv_path method : Bytes) (params user_id : RpcValue)
      (extra_meta_data : RpcMap)
  | subscribeGlob (glob : Bytes)
  | subscribe (shv_path method source : Bytes)
  | subscribeId (rq_id : Int32) (shv_path method source : Bytes)
  | unsubscribe (shv_path method source : Bytes)
  | unsubscribeId (rq_id : Int32) (shv_path method source : Bytes)

namespace Call

/-- A call, and the id that it returns. -/
def run (s : Conn) : Call → Except String Int32 × Conn
  | method rq => s.callMethod rq
  | shvMethod p m params user_id =>
    let r := s.callShvMethod p m params user_id
    (.ok r.1, r.2)
  | shvMethodId rq_id p m params user_id extra =>
    let r := s.callShvMethodId rq_id p m params user_id extra
    (.ok r.1, r.2)
  | subscribeGlob glob =>
    let r := s.callMethodSubscribeGlob glob
    (.ok r.1, r.2)
  | subscribe p m source =>
    let r := s.callMethodSubscribe p m source
    (.ok r.1, r.2)
  | subscribeId rq_id p m source =>
    let r := s.callMethodSubscribeId rq_id p m source
    (.ok r.1, r.2)
  | unsubscribe p m source =>
    let r := s.callMethodUnsubscribe p m source
    (.ok r.1, r.2)
  | unsubscribeId rq_id p m source =>
    let r := s.callMethodUnsubscribeId rq_id p m source
    (.ok r.1, r.2)

/-- What a call brings for an id: none, or an `int`. -/
def ownId? : Call → Except String (Option Int32)
  | method rq => (fun id => if id = 0 then none else some id) <$> rq.requestId.toInt
  | shvMethod .. => .ok none
  | shvMethodId rq_id .. => .ok (some rq_id)
  | subscribeGlob _ => .ok none
  | subscribe .. => .ok none
  | subscribeId rq_id .. => .ok (some rq_id)
  | unsubscribe .. => .ok none
  | unsubscribeId rq_id .. => .ok (some rq_id)

/-- A glob cannot be subscribed to with V2: nothing is sent. -/
def Refused (ver : ShvApiVersion) : Call → Prop
  | subscribeGlob _ => ver = .V2
  | _ => False

end Call

/-- What became of a call: what it returned, and what it handed to `sendRpcMessage`. -/
structure Outcome where
  ver : ShvApiVersion
  call : Call
  returned : Except String Int32
  sent : List RpcMessage

/-- Calls one after the other, each on a connection of its version. -/
def outcomes (n : Int32) : List (ShvApiVersion × Call) → List Outcome
  | [] => []
  | (ver, call) :: calls =>
    let r := call.run ⟨n, ver, []⟩
    ⟨ver, call, r.1, r.2.sent⟩ :: outcomes r.2.n calls

/-! ## what is claimed of the ids -/

/-- The request id of a message is an integer, and it is this one. -/
def Carries (msg : RpcMessage) (id : Int32) : Prop :=
  msg.requestId.value.integer? = some id.toInt

/-- The one message that was handed over carries the id that is returned. -/
def Outcome.Correlates (o : Outcome) : Prop :=
  match o.returned with
  | .ok id => (o.call.Refused o.ver ∧ id = 0 ∧ o.sent = []) ∨ ∃ msg, o.sent = [msg] ∧ Carries msg id
  | .error _ => o.sent = []

/-- The id that was made for a call, if it brought none. -/
def Outcome.generated? (o : Outcome) : Option Int32 :=
  match o.call.ownId?, o.returned with
  | .ok none, .ok id => if o.sent = [] then none else some id
  | _, _ => none

/-- The ids that were made for calls are positive and differ. -/
def GeneratedDiffer (os : List Outcome) : Prop :=
  (∀ id ∈ os.filterMap Outcome.generated?, 0 < id.toInt) ∧
    (os.filterMap Outcome.generated?).Nodup

/-- The request of a `callMethod` has an integer for an id that is not 0 and fits into an `int`,
or one that cannot be converted at all. -/
def BringsId : Call → Prop
  | .method rq => ∀ id, rq.requestId.toInt = .ok id → id ≠ 0 ∧ Carries rq id
  | _ => True

/-! ## the request of a call -/

/-- A message that is filled in, with a request id. -/
def HasId (msg : RpcMessage) (v : RpcValue) : Prop :=
  msg.value.isValid = true ∧ msg.value.metaData.valueOf Tag_RequestId = v

theorem HasId.requestId {msg : RpcMessage} {v : RpcValue} (h : HasId msg v) : msg.requestId = v := by
  rw [RpcMessage.requestId, if_pos h.1, RpcMetaData.requestId, h.2]

theorem HasId.checkMetaValues {msg : RpcMessage} {v : RpcValue} (h : HasId msg v) :
    msg.checkMetaValues = msg.value := by
  rw [RpcMessage.checkMetaValues, if_pos h.1]

theorem HasId.setMetaValue {msg : RpcMessage} {v : RpcValue} (h : HasId msg v) {key : Int32}
    (hkey : Tag_RequestId ≠ key) (val : RpcValue) : HasId (msg.setMetaValue key val) v := by
  have hvalue : (msg.setMetaValue key val).value = msg.value.setMetaValue key val :=
    congrArg (·.setMetaValue key val) h.checkMetaValues
  refine ⟨by rw [hvalue]; exact h.1, ?_⟩
  rw [hvalue, RpcValue.setMetaValue]
  exact (RpcMetaData.valueOf_setIValue_of_ne hkey val).trans h.2

theorem HasId.setMetaValueS {msg : RpcMessage} {v : RpcValue} (h : HasId msg v) (key : Bytes)
    (val : RpcValue) : HasId (msg.setMetaValueS key val) v := by
  have hvalue : (msg.setMetaValueS key val).value =
      msg.value.setMetaData (msg.value.metaData.setSValue key val) :=
    congrArg (fun v => v.setMetaData (v.metaData.setSValue key val)) h.checkMetaValues
  refine ⟨by rw [hvalue]; exact h.1, ?_⟩
  have hkept : (msg.value.metaData.setSValue key val).iValues = msg.value.metaData.iValues := by
    rw [RpcMetaData.setSValue]
    split <;> rfl
  rw [hvalue]
  change RpcMetaData.valueOf (msg.value.metaData.setSValue key val) Tag_RequestId = v
  rw [RpcMetaData.valueOf, hkept]
  exact h.2

theorem HasId.setParams {msg : RpcMessage} {v : RpcValue} (h : HasId msg v) (p : RpcValue) :
    HasId (msg.setParams p) v := by
  have hvalue : (msg.setParams p).value = msg.value.setKey Key_Params p :=
    congrArg (·.setKey Key_Params p) h.checkMetaValues
  exact ⟨by rw [hvalue]; rfl, by rw [hvalue]; exact h.2⟩

theorem hasId_setRequestId_empty (id : Int32) :
    HasId (RpcMessage.empty.setRequestId (.ofInt32 id)) (.ofInt32 id) :=
  ⟨rfl, RpcMetaData.valueOf_setIValue_self (by decide) Tag_RequestId (.ofInt32 id)⟩

/-- Whatever else is filled in, the request has the id it was given first. -/
theorem hasId_shvRequest (rq_id : Int32) (shv_path method : Bytes) (params user_id : RpcValue)
    (extra : RpcMap) :
    HasId (Conn.shvRequest rq_id shv_path method params user_id extra) (.ofInt32 rq_id) := by
  have hkey : Tag_RequestId ≠ Tag_Method := by decide
  have hmethod := (hasId_setRequestId_empty rq_id).setMetaValue hkey (.ofVariant (.string method))
  have hextra : ∀ (extra : RpcMap) (rq : RpcMessage), HasId rq (.ofInt32 rq_id) →
      HasId (extra.foldl (fun rq kv => rq.setMetaValueS kv.1 kv.2) rq) (.ofInt32 rq_id) := by
    intro extra
    induction extra with
    | nil => exact fun _ h => h
    | cons kv extra ih => exact fun rq h => ih _ (h.setMetaValueS kv.1 kv.2)
  apply hextra
  have hparams : ∀ rq, HasId rq (.ofInt32 rq_id) →
      HasId (if params.isValid then rq.setParams params else rq) (.ofInt32 rq_id) := fun rq h => by
    split
    · exact h.setParams params
    · exact h
  have huser : ∀ rq, HasId rq (.ofInt32 rq_id) →
      HasId (if user_id.isValid then rq.setUserId user_id else rq) (.ofInt32 rq_id) := fun rq h => by
    split
    · exact h.setMetaValue (by decide) user_id
    · exact h
  have hpath : ∀ rq, HasId rq (.ofInt32 rq_id) →
      HasId (if shv_path ≠ [] then rq.setShvPath shv_path else rq) (.ofInt32 rq_id) := fun rq h => by
    split
    · exact h.setMetaValue (by decide) _
    · exact h
  exact hpath _ (huser _ (hparams _ hmethod))

theorem carries_shvRequest (rq_id : Int32) (shv_path method : Bytes) (params user_id : RpcValue)
    (extra : RpcMap) :
    Carries (Conn.shvRequest rq_id shv_path method params user_id extra) rq_id := by
  rw [Carries, (hasId_shvRequest rq_id shv_path method params user_id extra).requestId]
  exact congrArg some (Int32.toInt_toInt64 rq_id)

/-! ## one call -/

/-- A call that is no `callMethod` sends one request, under the id it brought or the next one. -/
structure Sends (s : Conn) (own : Option Int32) (r : Except String Int32 × Conn) : Prop where
  returned : r.1 = .ok (own.getD (s.n + 1))
  counter : r.2.n = if own.isSome then s.n else s.n + 1
  sent : ∃ msg, r.2.sent = s.sent ++ [msg] ∧ Carries msg (own.getD (s.n + 1))

theorem sends_callShvMethodId (s : Conn) (rq_id : Int32) (shv_path method : Bytes)
    (params user_id : RpcValue) (extra : RpcMap) :
    Sends s (some rq_id)
      (.ok rq_id, (s.callShvMethodId rq_id shv_path method params user_id extra).2) :=
  ⟨rfl, rfl, _, rfl, carries_shvRequest rq_id shv_path method params user_id extra⟩

/-- The next id is taken, and the call is made with it. -/
theorem Sends.next {s : Conn} {r : Except String Int32 × Conn}
    (h : Sends s.nextRequestId.2 (some s.nextRequestId.1) r) : Sends s none r :=
  ⟨h.returned, h.counter, h.sent⟩

theorem sends_callMethodUnsubscribeId (s : Conn) (rq_id : Int32) (p m source : Bytes) :
    Sends s (some rq_id) (.ok (s.callMethodUnsubscribeId rq_id p m source).1,
      (s.callMethodUnsubscribeId rq_id p m source).2) := by
  rw [Conn.callMethodUnsubscribeId]
  cases s.shvApiVersion with
  | V2 => exact sends_callShvMethodId ..
  | V3 => exact sends_callShvMethodId ..

theorem run_sends (s : Conn) {c : Call} (hmethod : ∀ rq, c ≠ .method rq)
    (hrefused : ¬ c.Refused s.shvApiVersion) : ∃ own, c.ownId? = .ok own ∧ Sends s own (c.run s) := by
  cases c with
  | method rq => exact absurd rfl (hmethod rq)
  | shvMethod p m params user_id => exact ⟨none, rfl, (sends_callShvMethodId ..).next⟩
  | shvMethodId rq_id p m params user_id extra => exact ⟨some rq_id, rfl, sends_callShvMethodId ..⟩
  | subscribeGlob glob =>
    refine ⟨none, rfl, ?_⟩
    rw [Call.run, Conn.callMethodSubscribeGlob]
    cases hver : s.shvApiVersion with
    | V2 => exact absurd hver hrefused
    | V3 => exact (sends_callShvMethodId ..).next
  | subscribe p m source => exact ⟨none, rfl, (sends_callShvMethodId ..).next⟩
  | subscribeId rq_id p m source => exact ⟨some rq_id, rfl, sends_callShvMethodId ..⟩
  | unsubscribe p m source => exact ⟨none, rfl, (sends_callMethodUnsubscribeId ..).next⟩
  | unsubscribeId rq_id p m source => exact ⟨some rq_id, rfl, sends_callMethodUnsubscribeId ..⟩

/-- What a `callMethod` does: the request is sent as it was given. -/
theorem run_method_cases (s : Conn) (rq : RpcMessage) :
    (∃ e, rq.requestId.toInt = .error e ∧ (Call.method rq).run s = (.error e, s)) ∨
    (rq.requestId.toInt = .ok 0 ∧
      (Call.method rq).run s = (.ok (s.n + 1), { s with n := s.n + 1, sent := s.sent ++ [rq] })) ∨
    ∃ id, id ≠ 0 ∧ rq.requestId.toInt = .ok id ∧
      (Call.method rq).run s = (.ok id, { s with sent := s.sent ++ [rq] }) := by
  rw [Call.run, Conn.callMethod]
  cases h : rq.requestId.toInt with
  | error e => exact .inl ⟨e, rfl, rfl⟩
  | ok id =>
    by_cases hid : id = 0
    · subst hid
      exact .inr (.inl ⟨rfl, rfl⟩)
    · refine .inr (.inr ⟨id, hid, rfl, ?_⟩)
      simp only [if_neg hid, Conn.sendRpcMessage]

/-- The id that a request carries is the one that is read from it. -/
theorem toInt_of_carries {rq : RpcMessage} {id : Int32} (h : Carries rq id) :
    rq.requestId.toInt = .ok id := by
  have hread : rq.requestId.toInt64 = .ok id.toInt64 := by
    rw [Carries] at h
    rw [RpcValue.toInt64]
    cases hv : rq.requestId.value with
    | int n =>
      rw [hv] at h
      have hn : n.toInt = id.toInt64.toInt := (Option.some.inj h).trans (Int32.toInt_toInt64 id).symm
      exact congrArg Except.ok (Int64.toInt_inj.mp hn)
    | uint n =>
      rw [hv] at h
      have hn : (n.toNat : Int) = id.toInt64.toInt :=
        (Option.some.inj h).trans (Int32.toInt_toInt64 id).symm
      have huint := (Variant.uint_eq_int n id.toInt64).mpr hn
      rw [Bool.and_eq_true, beq_iff_eq] at huint
      exact congrArg Except.ok huint.2
    | _ =>
      rw [hv] at h
      cases h
  rw [RpcValue.toInt, hread]
  exact congrArg Except.ok (Int32.toInt32_toInt64 id)

/-- What a call does to the counter and what is made of it, and when it correlates. -/
theorem run_spec (n : Int32) (hn : 0 < (n + 1).toInt) (ver : ShvApiVersion) (c : Call) :
    let o : Outcome := ⟨ver, c, (c.run ⟨n, ver, []⟩).1, (c.run ⟨n, ver, []⟩).2.sent⟩
    ((c.run ⟨n, ver, []⟩).2.n = n ∧ o.generated? = none ∨
      (c.run ⟨n, ver, []⟩).2.n = n + 1 ∧ (o.generated? = none ∨ o.generated? = some (n + 1))) ∧
    (o.Correlates ↔ BringsId c) := by
  by_cases hmethod : ∃ rq, c = .method rq
  · obtain ⟨rq, rfl⟩ := hmethod
    obtain ⟨e, hid, hrun⟩ | ⟨hid, hrun⟩ | ⟨id, hne, hid, hrun⟩ := run_method_cases ⟨n, ver, []⟩ rq
    · rw [hrun]
      refine ⟨.inl ⟨rfl, ?_⟩, iff_of_true rfl fun id h => ?_⟩
      · simp [Outcome.generated?, Call.ownId?, hid]
      · rw [hid] at h
        cases h
    · rw [hrun]
      refine ⟨.inr ⟨rfl, .inr ?_⟩, iff_of_false ?_ fun h => (h 0 hid).1 rfl⟩
      · simp [Outcome.generated?, Call.ownId?, hid]
      · rintro (h | ⟨msg, hmsg, hc⟩)
        · exact h.1
        · obtain rfl := (List.singleton_inj.mp hmsg)
          have hzero := Except.ok.inj ((toInt_of_carries hc).symm.trans hid)
          rw [hzero] at hn
          exact absurd hn (by decide)
    · rw [hrun]
      refine ⟨.inl ⟨rfl, ?_⟩, ?_, fun h => .inr ⟨rq, rfl, (h id hid).2⟩⟩
      · simp [Outcome.generated?, Call.ownId?, hid, hne]
      · rintro (h | ⟨msg, hmsg, hc⟩) id' hid'
        · exact h.1.elim
        · obtain rfl := List.singleton_inj.mp hmsg
          obtain rfl := Except.ok.inj (hid.symm.trans hid')
          exact ⟨hne, hc⟩
  · have hbrings : BringsId c := by
      cases c with
      | method rq => exact absurd ⟨rq, rfl⟩ hmethod
      | _ => trivial
    by_cases hrefused : c.Refused ver
    · cases c with
      | subscribeGlob glob =>
        obtain rfl : ver = .V2 := hrefused
        exact ⟨.inr ⟨rfl, .inl rfl⟩, iff_of_true (.inl ⟨rfl, rfl, rfl⟩) trivial⟩
      | _ => exact hrefused.elim
    · obtain ⟨own, hown, hsends⟩ := run_sends ⟨n, ver, []⟩ (fun rq h => hmethod ⟨rq, h⟩) hrefused
      obtain ⟨msg, hmsg, hc⟩ := hsends.sent
      rw [List.nil_append] at hmsg
      refine ⟨?_, iff_of_true ?_ hbrings⟩
      · rw [hsends.counter, hsends.returned, hmsg]
        cases own with
        | none =>
          refine .inr ⟨rfl, .inr ?_⟩
          rw [Outcome.generated?, hown]
          rfl
        | some id =>
          refine .inl ⟨rfl, ?_⟩
          rw [Outcome.generated?, hown]
      · rw [hsends.returned, hmsg]
        exact .inr ⟨msg, rfl, hc⟩

/-! ## all calls -/

/-- The ids that are made are those behind the counter, in order, and each call correlates that
brings an id where it has to. -/
theorem outcomes_spec (n : Int32) (calls : List (ShvApiVersion × Call)) (hn : 0 ≤ n.toInt)
    (hlen : n.toInt + calls.length < 2 ^ 31) :
    (∀ id ∈ (outcomes n calls).filterMap Outcome.generated?, n.toInt < id.toInt) ∧
    ((outcomes n calls).filterMap Outcome.generated?).Nodup ∧
    ((∀ o ∈ outcomes n calls, o.Correlates) ↔ ∀ c ∈ calls, BringsId c.2) := by
  induction calls generalizing n with
  | nil => exact ⟨by simp [outcomes], List.nodup_nil, by simp [outcomes]⟩
  | cons step calls ih =>
    obtain ⟨ver, c⟩ := step
    rw [List.length_cons] at hlen
    push_cast at hlen
    have hone : (1 : Int32).toInt = 1 := rfl
    have hnext : (n + 1).toInt = n.toInt + 1 := by
      rw [Int32.toInt_add, hone]
      exact Int.bmod_eq_of_le (by omega) (by omega)
    obtain ⟨hstep, hcorr⟩ := run_spec n (by omega) ver c
    rw [outcomes, List.forall_mem_cons, List.forall_mem_cons, hcorr]
    obtain ⟨hcount, hgen⟩ | ⟨hcount, hgen⟩ := hstep
    · obtain ⟨hgt, hnodup, hall⟩ := ih n hn (by omega)
      rw [hcount, List.filterMap_cons_none hgen]
      exact ⟨hgt, hnodup, and_congr_right' hall⟩
    · obtain ⟨hgt, hnodup, hall⟩ := ih (n + 1) (by omega) (by omega)
      rw [hcount]
      obtain hgen | hgen := hgen
      · rw [List.filterMap_cons_none hgen]
        exact ⟨fun id hid => by have := hgt id hid; omega, hnodup, and_congr_right' hall⟩
      · rw [List.filterMap_cons_some hgen, List.forall_mem_cons, List.nodup_cons]
        refine ⟨⟨by omega, fun id hid => by have := hgt id hid; omega⟩,
          ⟨fun hmem => absurd (hgt _ hmem) (Int.lt_irrefl _), hnodup⟩, and_congr_right' hall⟩

/-- In every sequence of calls that the counter has ids for, the generated ids are positive and
differ; and each call returns the id of its message, if and only if no `callMethod` is given a
request without an id. -/
theorem outcomes_correlate_iff (calls : List (ShvApiVersion × Call)) (hlen : calls.length < 2 ^ 31) :
    GeneratedDiffer (outcomes 0 calls) ∧ (∀ o ∈ outcomes 0 calls, o.Correlates) ↔
      ∀ c ∈ calls, BringsId c.2 := by
  have hzero : (0 : Int32).toInt = 0 := rfl
  obtain ⟨hgt, hnodup, hall⟩ := outcomes_spec 0 calls (by decide) (by rw [hzero]; omega)
  rw [hall]
  exact and_iff_right ⟨hgt, hnodup⟩

/-- A request with the method `m`, and no id. -/
def idLess : RpcMessage := RpcMessage.empty.setMethod (ascii "m")

/-- A subscription, and a request with an id of its own. -/
def twoCalls : List (ShvApiVersion × Call) :=
  [(.V3, .subscribe (ascii "a") [] []), (.V2, .method (idLess.setRequestId (.ofInt32 7)))]

theorem outcomes_correlate_twoCalls :
    GeneratedDiffer (outcomes 0 twoCalls) ∧ ∀ o ∈ outcomes 0 twoCalls, o.Correlates := by
  refine (outcomes_correlate_iff twoCalls (by decide)).mpr fun c hc => ?_
  obtain rfl | hc := List.mem_cons.mp hc
  · trivial
  · obtain rfl := List.mem_singleton.mp hc
    intro id hid
    obtain rfl : 7 = id := Except.ok.inj hid
    exact ⟨by decide, rfl⟩

/-- The id that is returned for a request without one is in no message. -/
theorem not_outcomes_correlate : ¬ ∀ calls : List (ShvApiVersion × Call), calls.length < 2 ^ 31 →
    GeneratedDiffer (outcomes 0 calls) ∧ ∀ o ∈ outcomes 0 calls, o.Correlates := by
  intro h
  have hall := (h [(.V3, .method idLess)] (by decide)).2
  have hspec := (outcomes_spec 0 [(.V3, .method idLess)] (by decide) (by decide)).2.2.mp hall
  have hbrings := hspec (.V3, .method idLess) List.mem_cons_self
  exact (hbrings 0 rfl).1 rfl

end IRpcConnection

end LibShv
