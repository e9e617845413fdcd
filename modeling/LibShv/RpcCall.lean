import LibShv.RpcMessage
import LibShv.Lib.Decimal
import LibShv.Lib.Machine

/-!
# LibShv.RpcCall

`RpcResponseCallBack` and `RpcCall` (`rpccall.cpp`): the events a call-back can
see between `start` and its deletion, in any order.

Every handler of the connection's signals looks at `m_isFinished` first. The
handler of the timer and `abort` do not, and `abort` leaves the timer running.
-/

namespace LibShv

/-! ## the call-back -/

/-- The single-shot `m_timeoutTimer`. -/
structure QTimer where
  interval : Int32
  active : Bool

def QTimer.start (t : QTimer) : QTimer := { t with active := true }

def QTimer.stop (t : QTimer) : QTimer := { t with active := false }

/-- `RpcResponseCallBack`. `hasCallBack` and `hasContext` say whether `start`
was given a call-back function and a context; `deleteLater` and `deleted` stand
for the life of the object. -/
structure RpcResponseCallBack where
  requestId : Int32
  timeout : Int32
  hasCallBack : Bool
  hasContext : Bool
  timeoutTimer : Option QTimer
  responseMetaReceived : Bool
  responseFrameReceived : Bool
  isFinished : Bool
  deleteLater : Bool
  deleted : Bool

/-- What a listener gets to see: the call-back function is called, or `finished` is emitted. -/
inductive Fired where
  | callBackFunction (resp : RpcMessage)
  | finished (resp : RpcMessage)

/-- What can happen to a call-back. -/
inductive Event where
  | rpcFrameReceived
  | rpcMessageReceived (msg : RpcMessage)
  | responseReceiveError (requestId : Int64) (error : Bytes)
  | responseMetaReceived (requestId : Int64)
  | dataChunkReceived
  | timeout
  | contextDestroyed
  | deferredDelete
  | abort

namespace RpcResponseCallBack

/-- The constructor; the timeout is the one of the connection. -/
def create (requestId timeout : Int32) : RpcResponseCallBack where
  requestId := requestId
  timeout := timeout
  hasCallBack := false
  hasContext := false
  timeoutTimer := none
  responseMetaReceived := false
  responseFrameReceived := false
  isFinished := false
  deleteLater := false
  deleted := false

/-- `start()`. -/
def start (s : RpcResponseCallBack) : RpcResponseCallBack :=
  { s with isFinished := false, timeoutTimer := some ⟨s.timeout, true⟩ }

/-- `start(const CallBackFunction &)`. -/
def startCallBack (s : RpcResponseCallBack) (hasCallBack : Bool) : RpcResponseCallBack :=
  { s with hasCallBack }.start

/-- `start(int, QObject *, const CallBackFunction &)`. -/
def startContext (s : RpcResponseCallBack) (timeout : Int32) (hasContext hasCallBack : Bool) :
    RpcResponseCallBack :=
  { s with timeout, hasContext }.startCallBack hasCallBack

/-- The end of every handler that finishes: the listener is told, the object goes. -/
def fire (s : RpcResponseCallBack) (resp : RpcMessage) : RpcResponseCallBack × List Fired :=
  ({ s with deleteLater := true },
    [if s.hasCallBack then .callBackFunction resp else .finished resp])

/-- The response of an expired timer. -/
def timeoutResponse (interval : Int32) : RpcMessage :=
  RpcMessage.empty.setError (.create RpcError.MethodCallTimeout
    (ascii "Shv call timeout after: " ++ Decimal.intDigits interval.toInt ++ ascii " msec."))

/-- The response of `abort`. -/
def abortResponse : RpcMessage :=
  RpcMessage.empty.setError (.create RpcError.MethodCallCancelled (ascii "Shv call aborted"))

/-- The response made up for a receive error. -/
def receiveErrorResponse (requestId : Int64) (error : Bytes) : RpcMessage :=
  (RpcMessage.empty.setRequestId (.ofVariant (.int requestId))).setError
    (.create RpcError.Unknown error)

/-- Whether `msg` is the response waited for: not one to be routed further, with
the right id, and not one of the announcements that carry a delay. -/
def isExpected (s : RpcResponseCallBack) (msg : RpcMessage) : Except String Bool := do
  if !msg.isResponse then return false
  else
    let callerId ← msg.peekCallerId
    return callerId = 0 ∧ msg.requestId.eqInt s.requestId ∧ !msg.hasDelay

/-- `onRpcMessageReceived`; nothing happens where a conversion throws. -/
def onRpcMessageReceived (s : RpcResponseCallBack) (msg : RpcMessage) :
    RpcResponseCallBack × List Fired :=
  if s.isFinished then (s, [])
  else
    match s.isExpected msg with
    | .ok true =>
      { s with
        isFinished := true
        timeoutTimer := s.timeoutTimer.map QTimer.stop }.fire msg
    | _ => (s, [])

/-- `m_timeoutTimer->start()`. -/
def restartTimer (s : RpcResponseCallBack) : RpcResponseCallBack :=
  { s with timeoutTimer := s.timeoutTimer.map QTimer.start }

/-- `onRpcFrameReceived`. -/
def onRpcFrameReceived (s : RpcResponseCallBack) : RpcResponseCallBack :=
  if s.isFinished then s
  else if s.timeoutTimer.isSome ∧ s.responseMetaReceived then
    { s with responseFrameReceived := true }
  else s

/-- `onResponseMetaReceived`. -/
def onResponseMetaReceived (s : RpcResponseCallBack) (requestId : Int64) : RpcResponseCallBack :=
  if s.isFinished then s
  else if requestId = s.requestId.toInt64 then
    { s with responseMetaReceived := true }.restartTimer
  else s

/-- `onDataChunkReceived`. -/
def onDataChunkReceived (s : RpcResponseCallBack) : RpcResponseCallBack :=
  if s.isFinished then s
  else if s.responseFrameReceived then s
  else if s.timeoutTimer.isSome ∧ s.responseMetaReceived then s.restartTimer
  else s

/-- The handler of the expired timer, which has become inactive. -/
def onTimeout (s : RpcResponseCallBack) (interval : Int32) : RpcResponseCallBack × List Fired :=
  { s with
    isFinished := true
    timeoutTimer := some ⟨interval, false⟩ }.fire (timeoutResponse interval)

/-- `abort`. -/
def abort (s : RpcResponseCallBack) : RpcResponseCallBack × List Fired :=
  { s with isFinished := true }.fire abortResponse

/-- The handler of a destroyed context. -/
def onContextDestroyed (s : RpcResponseCallBack) : RpcResponseCallBack :=
  if s.hasContext then { s with hasCallBack := false, deleteLater := true } else s

/-- The handlers. An inactive timer does not expire, and an object is deleted
only after `deleteLater`. -/
def handle (s : RpcResponseCallBack) : Event → RpcResponseCallBack × List Fired
  | .rpcFrameReceived => (s.onRpcFrameReceived, [])
  | .rpcMessageReceived msg => s.onRpcMessageReceived msg
  | .responseReceiveError requestId error =>
    s.onRpcMessageReceived (receiveErrorResponse requestId error)
  | .responseMetaReceived requestId => (s.onResponseMetaReceived requestId, [])
  | .dataChunkReceived => (s.onDataChunkReceived, [])
  | .timeout =>
    match s.timeoutTimer with
    | some ⟨interval, true⟩ => s.onTimeout interval
    | _ => (s, [])
  | .contextDestroyed => (s.onContextDestroyed, [])
  | .deferredDelete => ({ s with deleted := s.deleteLater }, [])
  | .abort => s.abort

/-- One event; nothing reaches a deleted object. -/
def step (s : RpcResponseCallBack) (e : Event) : RpcResponseCallBack × List Fired :=
  if s.deleted then (s, []) else s.handle e

/-- A call-back that is started, and what happens then. -/
def runFrom (s : RpcResponseCallBack) (es : List Event) : RpcResponseCallBack × List Fired :=
  Machine.run step s.start es

/-! ## what a step can do -/

/-- The steps that tell the listener again: `abort` and an expiring timer do not
ask whether the call-back is finished. -/
def Repeats (s : RpcResponseCallBack) (e : Event) : Prop :=
  s.isFinished = true ∧ s.deleted = false ∧
    match e with
    | .abort => True
    | .timeout => ∃ interval, s.timeoutTimer = some ⟨interval, true⟩
    | _ => False

/-- Nothing is told and `m_isFinished` is as before, or it is told once and set. -/
inductive Tells (s : RpcResponseCallBack) (again : Prop) :
    RpcResponseCallBack × List Fired → Prop where
  | nothing (s' : RpcResponseCallBack) (hfin : s'.isFinished = s.isFinished) (hagain : ¬ again) :
      Tells s again (s', [])
  | once (s' : RpcResponseCallBack) (fired : Fired) (hfin : s'.isFinished = true)
      (hagain : s.isFinished = false ∨ again) : Tells s again (s', [fired])

theorem tells_onRpcMessageReceived (s : RpcResponseCallBack) (msg : RpcMessage) :
    Tells s False (s.onRpcMessageReceived msg) := by
  rw [onRpcMessageReceived]
  by_cases h : s.isFinished = true
  · rw [if_pos h]
    exact .nothing s rfl id
  · rw [if_neg h]
    split
    · exact .once _ _ rfl (.inl (by simpa using h))
    · exact .nothing s rfl id

theorem Tells.of_not {s : RpcResponseCallBack} {again : Prop} {r : RpcResponseCallBack × List Fired}
    (h : Tells s False r) (hagain : ¬ again) : Tells s again r := by
  cases h with
  | nothing s' hfin _ => exact .nothing s' hfin hagain
  | once s' fired hfin hunset => exact .once s' fired hfin (.inl (hunset.resolve_right id))

theorem isFinished_onRpcFrameReceived (s : RpcResponseCallBack) :
    s.onRpcFrameReceived.isFinished = s.isFinished := by
  unfold onRpcFrameReceived
  split
  · rfl
  · split <;> rfl

theorem isFinished_onResponseMetaReceived (s : RpcResponseCallBack) (requestId : Int64) :
    (s.onResponseMetaReceived requestId).isFinished = s.isFinished := by
  unfold onResponseMetaReceived
  split
  · rfl
  · split <;> rfl

theorem isFinished_onDataChunkReceived (s : RpcResponseCallBack) :
    s.onDataChunkReceived.isFinished = s.isFinished := by
  unfold onDataChunkReceived
  split
  · rfl
  · split
    · rfl
    · split <;> rfl

theorem isFinished_onContextDestroyed (s : RpcResponseCallBack) :
    s.onContextDestroyed.isFinished = s.isFinished := by
  unfold onContextDestroyed
  split <;> rfl

/-- A step tells the listener at most once; once the call-back is finished, only
the steps that repeat do. -/
theorem tells_step (s : RpcResponseCallBack) (e : Event) : Tells s (s.Repeats e) (s.step e) := by
  rw [step]
  by_cases hdel : s.deleted = true
  · rw [if_pos hdel]
    exact .nothing s rfl fun h => by simp [h.2.1] at hdel
  · rw [if_neg hdel]
    have hdel' : s.deleted = false := by simpa using hdel
    cases e with
    | rpcFrameReceived => exact .nothing _ s.isFinished_onRpcFrameReceived fun h => h.2.2
    | rpcMessageReceived msg =>
      exact (s.tells_onRpcMessageReceived msg).of_not fun h => h.2.2
    | responseReceiveError requestId error =>
      exact (s.tells_onRpcMessageReceived _).of_not fun h => h.2.2
    | responseMetaReceived requestId =>
      exact .nothing _ (s.isFinished_onResponseMetaReceived requestId) fun h => h.2.2
    | dataChunkReceived => exact .nothing _ s.isFinished_onDataChunkReceived fun h => h.2.2
    | timeout =>
      rw [handle]
      split
      case h_1 interval htimer =>
        refine .once _ _ rfl ?_
        cases hfin : s.isFinished with
        | false => exact .inl rfl
        | true => exact .inr ⟨hfin, hdel', interval, htimer⟩
      case h_2 hnone =>
        refine .nothing s rfl fun h => ?_
        obtain ⟨interval, htimer⟩ := h.2.2
        exact hnone interval htimer
    | contextDestroyed => exact .nothing _ s.isFinished_onContextDestroyed fun h => h.2.2
    | deferredDelete => exact .nothing _ rfl fun h => h.2.2
    | abort =>
      refine .once _ _ rfl ?_
      cases hfin : s.isFinished with
      | false => exact .inl rfl
      | true => exact .inr ⟨hfin, hdel', trivial⟩

/-! ## whole runs -/

/-- The listener is told at most once, and nothing more once the call-back is finished. -/
structure FiresOnce (s : RpcResponseCallBack) (es : List Event) : Prop where
  once : (s.runFrom es).2.length ≤ 1
  final : ∀ pre post, es = pre ++ post → (s.runFrom pre).1.isFinished = true →
    (s.runFrom es).2 = (s.runFrom pre).2

/-- Some step of the run repeats. -/
def RepeatsIn (s : RpcResponseCallBack) (es : List Event) : Prop :=
  ∃ pre e post, es = pre ++ e :: post ∧ (s.runFrom pre).1.Repeats e

theorem runFrom_concat (s : RpcResponseCallBack) (es : List Event) (e : Event) :
    (s.runFrom (es ++ [e])).1 = ((s.runFrom es).1.step e).1 := by
  rw [runFrom, runFrom, Machine.run_append]
  rfl

/-- The listener is told once at most while no step repeats. -/
theorem length_runFrom_le {s : RpcResponseCallBack} {es : List Event} (h : ¬ s.RepeatsIn es) :
    (s.runFrom es).2.length ≤ 1 := by
  refine (Machine.run_invariant_nil step
    (fun pre fired t => t = (s.runFrom pre).1 ∧ fired.length ≤ 1 ∧ (t.isFinished = false → fired = []))
    s.start es ⟨rfl, Nat.zero_le 1, fun _ => rfl⟩ ?_).2.1
  rintro pre e post fired t hes ⟨ht, hlen, hnone⟩
  have hrep : ¬ t.Repeats e := fun hr => h ⟨pre, e, post, hes, ht ▸ hr⟩
  refine ⟨by rw [runFrom_concat, ← ht], ?_⟩
  have htells := t.tells_step e
  generalize t.step e = r at htells
  cases htells with
  | nothing t' hfin _ => exact ⟨by simpa using hlen, fun hf => by simpa using hnone (hfin ▸ hf)⟩
  | once t' f hfin hagain =>
    have hnil := hnone (hagain.resolve_right hrep)
    exact ⟨by simp [hnil], fun hf => by rw [hfin] at hf; contradiction⟩

/-- A finished call-back tells nothing more while no step repeats. -/
theorem runFrom_append_of_finished {s : RpcResponseCallBack} {pre post : List Event}
    (h : ¬ s.RepeatsIn (pre ++ post)) (hfin : (s.runFrom pre).1.isFinished = true) :
    (s.runFrom (pre ++ post)).2 = (s.runFrom pre).2 := by
  have hinv := @Machine.run_invariant _ _ _ step
    (fun es fired t => t = (s.runFrom es).1 ∧ fired = (s.runFrom pre).2 ∧ t.isFinished = true)
    post pre (s.runFrom pre).2 (s.runFrom pre).1 ⟨rfl, rfl, hfin⟩ ?_
  · rw [runFrom, Machine.run_append]
    exact hinv.2.1
  · rintro es e rest fired t hes ⟨ht, hfired, htfin⟩
    have hrep : ¬ t.Repeats e := fun hr => h ⟨es, e, rest, hes, ht ▸ hr⟩
    refine ⟨by rw [runFrom_concat, ← ht], ?_⟩
    have htells := t.tells_step e
    generalize t.step e = r at htells
    cases htells with
    | nothing t' hfin' _ => exact ⟨by simpa using hfired, hfin'.trans htfin⟩
    | once t' f hfin' hagain =>
      rcases hagain with hunset | hr
      · rw [htfin] at hunset
        contradiction
      · exact absurd hr hrep

/-- The call-back fires once exactly when no step repeats. -/
theorem firesOnce_iff_not_repeatsIn (s : RpcResponseCallBack) (es : List Event) :
    FiresOnce s es ↔ ¬ s.RepeatsIn es := by
  constructor
  · rintro ⟨-, hfinal⟩ ⟨pre, e, post, rfl, hrep⟩
    have hsame := hfinal pre (e :: post) rfl hrep.1
    have htells := (s.runFrom pre).1.tells_step e
    rw [runFrom, Machine.run_append, Machine.run_cons, ← runFrom] at hsame
    generalize (s.runFrom pre).1.step e = r at htells hsame
    cases htells with
    | nothing t' _ hno => exact hno hrep
    | once t' f _ _ =>
      have hlen := congrArg List.length hsame
      simp at hlen
  · intro h
    refine ⟨length_runFrom_le h, ?_⟩
    rintro pre post rfl hfin
    exact runFrom_append_of_finished h hfin

/-! ## without abort -/

/-- The timer of a finished call-back is off. -/
def TimerOff (s : RpcResponseCallBack) : Prop :=
  s.isFinished = true → ∀ interval, s.timeoutTimer ≠ some ⟨interval, true⟩

theorem timerOff_onRpcMessageReceived {s : RpcResponseCallBack} (h : s.TimerOff)
    (msg : RpcMessage) : (s.onRpcMessageReceived msg).1.TimerOff := by
  rw [onRpcMessageReceived]
  by_cases hfin : s.isFinished = true
  · rwa [if_pos hfin]
  · rw [if_neg hfin]
    split
    · intro _ interval hactive
      obtain ⟨t, -, ht⟩ := Option.map_eq_some_iff.mp hactive
      exact absurd (congrArg QTimer.active ht) (by simp [QTimer.stop])
    · exact h

/-- Only `abort` leaves the timer of a finished call-back running. -/
theorem timerOff_step {s : RpcResponseCallBack} (h : s.TimerOff) {e : Event} (he : e ≠ .abort) :
    (s.step e).1.TimerOff := by
  have hguard : ∀ t : RpcResponseCallBack, t.isFinished = s.isFinished →
      (s.isFinished = true → t = s) → t.TimerOff := by
    intro t hfin hsame hfin' interval
    rw [hsame (hfin ▸ hfin')]
    exact h (hfin ▸ hfin') interval
  rw [step]
  by_cases hdel : s.deleted = true
  · rwa [if_pos hdel]
  · rw [if_neg hdel]
    cases e with
    | rpcFrameReceived =>
      exact hguard _ s.isFinished_onRpcFrameReceived fun hfin => if_pos hfin
    | rpcMessageReceived msg => exact timerOff_onRpcMessageReceived h msg
    | responseReceiveError requestId error => exact timerOff_onRpcMessageReceived h _
    | responseMetaReceived requestId =>
      exact hguard _ (s.isFinished_onResponseMetaReceived requestId) fun hfin => if_pos hfin
    | dataChunkReceived =>
      exact hguard _ s.isFinished_onDataChunkReceived fun hfin => if_pos hfin
    | timeout =>
      rw [handle]
      split
      · rintro - interval ⟨⟩
      · exact h
    | contextDestroyed =>
      intro hfin
      rw [handle, onContextDestroyed] at *
      split at hfin
      · simpa [*] using h hfin
      · simpa [*] using h hfin
    | deferredDelete => exact h
    | abort => contradiction

/-- A call-back nobody aborts never repeats. -/
theorem not_repeatsIn_of_no_abort (s : RpcResponseCallBack) {es : List Event}
    (h : ∀ e ∈ es, e ≠ .abort) : ¬ s.RepeatsIn es := by
  rintro ⟨pre, e, post, rfl, hfin, -, hrep⟩
  have hoff : (s.runFrom pre).1.TimerOff := by
    refine Machine.run_invariant_nil step (fun _ _ t => t.TimerOff) s.start pre nofun ?_
    intro es₁ e₁ es₂ _ t hpre ht
    exact timerOff_step ht (h e₁ (by simp [hpre]))
  cases e with
  | abort => exact absurd rfl (h .abort (by simp))
  | timeout =>
    obtain ⟨interval, htimer⟩ := hrep
    exact hoff hfin interval htimer
  | _ => exact hrep

end RpcResponseCallBack

/-! ## the call -/

/-- The connection of a call: gone, not connected to the broker, or connected. -/
inductive Connection where
  | null
  | closed
  | connected (nextRequestId rpcTimeoutMsec : Int32)

/-- `RpcCall`, as far as `start` looks at it. -/
structure RpcCall where
  rpcConnection : Connection
  requestId : Int32
  timeout : Int32

/-- The signal `maybeResult`. -/
structure MaybeResult where
  result : RpcValue
  error : RpcError

/-- What can happen to the call-back of a call. It is local to `start`, nobody
can abort it. -/
abbrev CallEvent := { e : Event // e ≠ .abort }

namespace RpcCall

/-- The call-back function given to `start`; a conversion that throws emits nothing. -/
def onResponse : Fired → List MaybeResult
  | .callBackFunction resp =>
    match resp.isSuccess with
    | .ok true => [⟨resp.result, ⟨.invalid⟩⟩]
    | .ok false => [⟨.invalid, resp.error⟩]
    | .error _ => []
  | .finished _ => []

/-- The call-back `start` makes for a connected call. -/
def callBack (call : RpcCall) (nextRequestId rpcTimeoutMsec : Int32) : RpcResponseCallBack :=
  let rqId := if 0 < call.requestId then call.requestId else nextRequestId
  let cb := RpcResponseCallBack.create rqId rpcTimeoutMsec
  if call.timeout ≠ 0 then { cb with timeout := call.timeout } else cb

/-- `start`, and what happens then: the results emitted. -/
def runFrom (call : RpcCall) (es : List CallEvent) : List MaybeResult :=
  match call.rpcConnection with
  | .null => [⟨.invalid, .create RpcError.Unknown (ascii "RPC connection is NULL")⟩]
  | .closed => [⟨.invalid, .create RpcError.Unknown (ascii "RPC connection is not open")⟩]
  | .connected nextRequestId rpcTimeoutMsec =>
    let cb := call.callBack nextRequestId rpcTimeoutMsec
    (Machine.run RpcResponseCallBack.step (cb.startContext cb.timeout true true)
      (es.map (·.val))).2.flatMap onResponse

theorem length_onResponse_le (fired : Fired) : (onResponse fired).length ≤ 1 := by
  cases fired with
  | callBackFunction resp =>
    rw [onResponse]
    split <;> simp
  | finished resp => exact Nat.zero_le 1

/-- A call emits at most one result. -/
theorem length_runFrom_le (call : RpcCall) (es : List CallEvent) : (call.runFrom es).length ≤ 1 := by
  rw [runFrom]
  split
  · exact Nat.le_refl 1
  · exact Nat.le_refl 1
  next nextRequestId rpcTimeoutMsec _ =>
    have hes : ∀ e ∈ es.map (·.val), e ≠ Event.abort := by
      intro e he
      obtain ⟨e', -, rfl⟩ := List.mem_map.mp he
      exact e'.property
    -- `start` of the call-back is where its runs begin
    have hlen := RpcResponseCallBack.length_runFrom_le (RpcResponseCallBack.not_repeatsIn_of_no_abort
      { call.callBack nextRequestId rpcTimeoutMsec with hasContext := true, hasCallBack := true } hes)
    change (List.flatMap onResponse (RpcResponseCallBack.runFrom
      { call.callBack nextRequestId rpcTimeoutMsec with hasContext := true, hasCallBack := true }
      (es.map (·.val))).2).length ≤ 1
    generalize (RpcResponseCallBack.runFrom _ _).2 = fired at hlen ⊢
    match fired, hlen with
    | [], _ => exact Nat.zero_le 1
    | [f], _ => simpa using length_onResponse_le f

end RpcCall

/-- A call-back function is called, or `finished` is emitted, at most once and
nothing more follows, exactly in the runs where no `abort` and no expiring timer
meet a finished call-back; the result of a call is emitted at most once in every run. -/
theorem fires_at_most_once (s : RpcResponseCallBack) (es : List Event) (call : RpcCall)
    (callEvents : List CallEvent) :
    (s.FiresOnce es ↔ ¬ s.RepeatsIn es) ∧ (call.runFrom callEvents).length ≤ 1 :=
  ⟨s.firesOnce_iff_not_repeatsIn es, call.length_runFrom_le callEvents⟩

/-- Aborting twice tells the listener twice. -/
theorem abort_fires_twice :
    ¬ (RpcResponseCallBack.create 1 1000).FiresOnce [.abort, .abort] := by
  intro h
  have hlen : ((RpcResponseCallBack.create 1 1000).runFrom [.abort, .abort]).2.length = 2 := rfl
  have honce := h.once
  omega

end LibShv
