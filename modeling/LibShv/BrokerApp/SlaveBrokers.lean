import LibShv.BrokerApp.Subscriptions
import LibShv.Lib.Machine
import Mathlib.Data.List.Nodup

/-!
# LibShv.BrokerApp.SlaveBrokers

The subscriptions of the clients on the slave brokers (`brokerapp.cpp`,
`clientconnectiononbroker.cpp`): they are passed on when they are made and when a
slave broker connects, so that a slave broker sends the signals that somebody
wants, in any order of these events.
-/

namespace LibShv

/-! ## the path on the slave broker -/

/-- The path in the tree of a signal of a slave broker, as `onRpcFrameReceived` makes it. -/
def fullSignalPath (mount_point sig_shv_path : Bytes) : Bytes :=
  mount_point ++ SHV_PATH_DELIM :: sig_shv_path

/-- A path above the mount point that is not passed on: it is empty or ends with a slash, and
the mount point goes on with another character. -/
def Missed (mount_point subs_path : Bytes) : Prop :=
  (subs_path = [] ∨ subs_path.getLast? = some SHV_PATH_DELIM) ∧ subs_path <+: mount_point ∧
    subs_path.length < mount_point.length ∧ mount_point[subs_path.length]? ≠ some SHV_PATH_DELIM

instance (mount_point subs_path : Bytes) : Decidable (Missed mount_point subs_path) :=
  inferInstanceAs (Decidable (_ ∧ _))

section

variable {mount_point subs_path sig_shv_path : Bytes}

/-- A common directory in front changes nothing. -/
theorem startsWithPath_append_cons (dir str path : Bytes) :
    startsWithPath (dir ++ SHV_PATH_DELIM :: str) (dir ++ SHV_PATH_DELIM :: path) = true →
      startsWithPath str path = true := by
  intro h
  by_cases hpath : path = []
  · rw [hpath]
    exact startsWithPath_nil str
  · have hpre : path <+: str := by
      have hpre := isPrefix_of_startsWithPath h
      rw [List.prefix_append_right_inj, List.cons_prefix_cons] at hpre
      exact hpre.2
    obtain ⟨t, rfl⟩ := hpre
    have hlast : (dir ++ SHV_PATH_DELIM :: path).getLast? = path.getLast? := by
      rw [List.getLast?_append, List.getLast?_cons]
      cases hg : path.getLast? with
      | none => simp [List.getLast?_eq_none_iff.mp hg] at hpath
      | some c => rfl
    rw [startsWithPath, if_neg (by simp), if_pos (by simp), hlast] at h
    rw [startsWithPath, if_neg hpath, if_pos (by simp)]
    cases t with
    | nil => simp
    | cons c cs => simpa using h

/-- A subscription at or below the mount point is passed on as the path behind it. -/
theorem slavePath_append_cons (hne : mount_point ≠ []) (t : Bytes) :
    slavePath mount_point (mount_point ++ SHV_PATH_DELIM :: t) = some t := by
  have hstarts : startsWithPath (mount_point ++ SHV_PATH_DELIM :: t) mount_point = true := by
    simp [startsWithPath, hne]
  simp [slavePath, hstarts]

theorem slavePath_self (mount_point : Bytes) : slavePath mount_point mount_point = some [] := by
  have hstarts : startsWithPath mount_point mount_point = true := by simp [startsWithPath]
  simp [slavePath, hstarts]

/-- A mount point does not lie at the start of a shorter path. -/
theorem startsWithPath_of_length_lt {str path : Bytes} (h : str.length < path.length) :
    startsWithPath str path = false := by
  cases hstarts : startsWithPath str path with
  | false => rfl
  | true =>
    have hle := (isPrefix_of_startsWithPath hstarts).length_le
    omega

/-- A subscription above the mount point is passed on as the root, unless it is missed. -/
theorem slavePath_of_prefix (hpre : subs_path <+: mount_point)
    (hlt : subs_path.length < mount_point.length)
    (hdelim : mount_point[subs_path.length]? = some SHV_PATH_DELIM) :
    slavePath mount_point subs_path = some [] := by
  have hstarts : startsWithPath mount_point subs_path = true := by
    rw [startsWithPath]
    by_cases hnil : subs_path = []
    · rw [if_pos hnil]
    · rw [if_neg hnil, if_pos (List.isPrefixOf_iff_prefix.mpr hpre)]
      simp [hdelim]
  rw [slavePath, startsWithPath_of_length_lt hlt, if_neg (by simp), if_pos ⟨hstarts, .inr hdelim⟩]

theorem slavePath_of_missed (h : Missed mount_point subs_path) :
    slavePath mount_point subs_path = none := by
  obtain ⟨-, -, hlt, hdelim⟩ := h
  have hne : mount_point.length ≠ subs_path.length := by omega
  rw [slavePath, startsWithPath_of_length_lt hlt, if_neg (by simp), if_neg]
  rintro ⟨-, h | h⟩
  · exact hne h
  · exact hdelim h

/-- The signals of a slave broker that match a subscription match the path that is passed on
for it. -/
theorem slavePath_covers (hhead : subs_path.head? ≠ some SHV_PATH_DELIM)
    (hmissed : ¬ Missed mount_point subs_path)
    (h : startsWithPath (fullSignalPath mount_point sig_shv_path) subs_path = true) :
    ∃ slave_path, slavePath mount_point subs_path = some slave_path ∧
      startsWithPath sig_shv_path slave_path = true := by
  have hpre := isPrefix_of_startsWithPath h
  rw [fullSignalPath] at h hpre
  by_cases hlt : subs_path.length < mount_point.length
  · -- above the mount point: the path that is passed on is the root
    have hpre' : subs_path <+: mount_point :=
      List.prefix_of_prefix_length_le hpre (List.prefix_append _ _) (by omega)
    have hdelim : mount_point[subs_path.length]? = some SHV_PATH_DELIM := by
      refine Decidable.byContradiction fun hdelim => hmissed ⟨?_, hpre', hlt, hdelim⟩
      by_cases hnil : subs_path = []
      · exact .inl hnil
      · rw [startsWithPath, if_neg hnil, if_pos (List.isPrefixOf_iff_prefix.mpr hpre)] at h
        rw [List.getElem?_append_left hlt] at h
        simp only [hdelim, List.length_append, List.length_cons, false_or, decide_eq_true_eq] at h
        obtain h | h := h
        · omega
        · exact .inr h
    exact ⟨[], slavePath_of_prefix hpre' hlt hdelim, startsWithPath_nil _⟩
  · -- at the mount point or below it
    have hmount : mount_point <+: subs_path :=
      List.prefix_of_prefix_length_le (List.prefix_append _ _) hpre (by omega)
    obtain ⟨t, rfl⟩ := hmount
    rw [List.prefix_append_right_inj] at hpre
    cases t with
    | nil =>
      rw [List.append_nil]
      exact ⟨[], slavePath_self _, startsWithPath_nil _⟩
    | cons c t =>
      obtain rfl := (List.cons_prefix_cons.mp hpre).1
      have hne : mount_point ≠ [] := by
        rintro rfl
        exact hhead rfl
      exact ⟨t, slavePath_append_cons hne t, startsWithPath_append_cons _ _ _ h⟩

/-- A path that is missed is one that some signal of the slave broker matches. -/
theorem exists_signal_of_missed (h : Missed mount_point subs_path) (sig_shv_path : Bytes) :
    startsWithPath (fullSignalPath mount_point sig_shv_path) subs_path = true ∧
      slavePath mount_point subs_path = none := by
  refine ⟨?_, slavePath_of_missed h⟩
  obtain ⟨hroot, hpre, -, -⟩ := h
  rw [startsWithPath, fullSignalPath]
  by_cases hnil : subs_path = []
  · rw [if_pos hnil]
  · have hpre' : subs_path <+: mount_point ++ SHV_PATH_DELIM :: sig_shv_path :=
      hpre.trans (List.prefix_append _ _)
    rw [if_neg hnil, if_pos (List.isPrefixOf_iff_prefix.mpr hpre')]
    simp [hroot.resolve_left hnil]

end

/-- The signal matches what was called for, as path and method. -/
def SubscribeCall.covers (call : SubscribeCall) (signal_path signal_method : Bytes) : Bool :=
  startsWithPath signal_path call.path ∧ (call.method = [] ∨ call.method = signal_method)

/-! ## events -/

/-- What happens to the connections of the broker: one logs in, a client with its mount point;
the timer that is set then calls `onClientConnected`; and one subscribes, without a source. -/
inductive BrokerEvent where
  | login (connectionId : Int32) (conn : BrokerConnection) (mountPoint : Bytes)
  | clientConnected (client_id : Int32)
  | subscribe (client_id : Int32) (shv_path method : Bytes)

/-- The broker, and the clients that are connected by now. -/
structure BrokerState (B : AclBackend) where
  app : BrokerApp B
  connected : List Int32

namespace BrokerApp

variable {B : AclBackend}

/-- `BrokerApp::onClientConnected`: the subscriptions of the other connections go to a slave
broker. -/
def onClientConnected (app : BrokerApp B) (client_id : Int32) : List SubscribeCall :=
  match app.commonClientConnectionById client_id with
  | none => []
  | some cc =>
    if cc.isSlaveBrokerConnection then
      app.allClientConnections.flatMap fun ch =>
        if ch.connectionId = client_id then []
        else ch.m_subscriptions.filterMap cc.propagateSubscriptionToSlaveBroker
    else []

end BrokerApp

namespace BrokerState

variable {B : AclBackend}

/-- One event: the state behind it, and the calls to slave brokers. An id is given once. -/
def step (s : BrokerState B) : BrokerEvent → BrokerState B × List SubscribeCall
  | .login connectionId conn mountPoint =>
    match s.app.commonClientConnectionById connectionId with
    | some _ => (s, [])
    | none =>
      ({ s with
          app :=
            { s.app with
              allClientConnections :=
                s.app.allClientConnections ++ [⟨connectionId, conn, mountPoint, true, []⟩] } },
        [])
  | .clientConnected client_id =>
    match s.app.commonClientConnectionById client_id with
    | none => (s, [])
    | some _ =>
      ({ s with connected := client_id :: s.connected }, s.app.onClientConnected client_id)
  | .subscribe client_id shv_path method =>
    let r := s.app.addSubscription client_id shv_path method []
    ({ s with app := r.2 }, r.1.toOption.getD [])

/-- The broker before any connection. -/
def start (aclManager : AclManager B) : BrokerState B := ⟨⟨aclManager, []⟩, []⟩

/-- Neither does the event bring a subscription that a slave broker misses, nor a slave broker
that misses a subscription. -/
def Meets (s : BrokerState B) : BrokerEvent → Prop
  | .login _ conn mountPoint =>
    match conn with
    | .client true _ =>
      ∀ handle ∈ s.app.allClientConnections, ∀ subs ∈ handle.m_subscriptions,
        ¬ Missed mountPoint subs.path
    | _ => True
  | .clientConnected _ => True
  | .subscribe client_id shv_path method =>
    ∀ handle, s.app.commonClientConnectionById client_id = some handle →
      ∀ slave ∈ s.app.allClientConnections, slave.isSlaveBrokerConnection = true →
        ¬ Missed slave.mountPoint (handle.conn.subscriptionFor shv_path method []).path

/-- All the events of a run meet the condition. -/
def MeetsAll (s : BrokerState B) : List BrokerEvent → Prop
  | [] => True
  | e :: es => s.Meets e ∧ MeetsAll (s.step e).1 es

/-- Every signal of a connected slave broker that matches a subscription in the tree was
subscribed on the slave broker by one of the calls. -/
def Served (s : BrokerState B) (calls : List SubscribeCall) : Prop :=
  ∀ handle ∈ s.app.allClientConnections, ∀ subs ∈ handle.m_subscriptions,
    ∀ slave ∈ s.app.allClientConnections, slave.isSlaveBrokerConnection = true →
      slave.connectionId ∈ s.connected → ∀ sig_shv_path method source,
        subs.matchSignal (fullSignalPath slave.mountPoint sig_shv_path) method source = true →
          ∃ call ∈ calls, call.connectionId = slave.connectionId ∧
            call.covers sig_shv_path method = true

/-! ### what every event keeps -/

/-- The ids differ, every subscription was passed on to the slave brokers that are connected or
were there when it was made, and none of them misses it. -/
structure Inv (s : BrokerState B) (calls : List SubscribeCall) : Prop where
  ids : (s.app.allClientConnections.map (·.connectionId)).Nodup
  connected : ∀ id ∈ s.connected, id ∈ s.app.allClientConnections.map (·.connectionId)
  sent : ∀ handle ∈ s.app.allClientConnections, ∀ subs ∈ handle.m_subscriptions,
    ∀ slave ∈ s.app.allClientConnections,
      slave.connectionId ∈ s.connected ∨ slave.connectionId = handle.connectionId →
        ∀ call, slave.propagateSubscriptionToSlaveBroker subs = some call → call ∈ calls
  notMissed : ∀ handle ∈ s.app.allClientConnections, ∀ subs ∈ handle.m_subscriptions,
    ∀ slave ∈ s.app.allClientConnections, slave.isSlaveBrokerConnection = true →
      ¬ Missed slave.mountPoint subs.path

theorem inv_start (aclManager : AclManager B) : Inv (start aclManager) [] where
  ids := List.nodup_nil
  connected := by simp [start]
  sent := by simp [start]
  notMissed := by simp [start]

/-- What was passed on serves the subscriptions. -/
theorem Inv.served {s : BrokerState B} {calls : List SubscribeCall} (h : Inv s calls) :
    Served s calls := by
  intro handle hhandle subs hsubs slave hslave hisSlave hconnected sig_shv_path method source hmatch
  have hmissed := h.notMissed handle hhandle subs hsubs slave hslave hisSlave
  obtain ⟨slave_path, hpath, hcovers⟩ := slavePath_covers subs.path_head hmissed
    (Subscription.startsWithPath_of_matchSignal hmatch)
  have hcall : slave.propagateSubscriptionToSlaveBroker subs =
      some ⟨slave.connectionId, slave_path, subs.method⟩ := by
    simp [CommonRpcClientHandle.propagateSubscriptionToSlaveBroker, hisSlave, hpath]
  refine ⟨_, h.sent handle hhandle subs hsubs slave hslave (.inl hconnected) _ hcall, rfl, ?_⟩
  have hmethod := Subscription.method_of_matchSignal hmatch
  simp [SubscribeCall.covers, hcovers, hmethod]

theorem addSubscription_same (handle : CommonRpcClientHandle) (subs : Subscription) :
    (handle.addSubscription subs).2.connectionId = handle.connectionId ∧
      (handle.addSubscription subs).2.conn = handle.conn ∧
      (handle.addSubscription subs).2.mountPoint = handle.mountPoint := by
  obtain ⟨m_subscriptions, heq, -⟩ := handle.addSubscription_eq subs
  rw [heq]
  exact ⟨rfl, rfl, rfl⟩

/-- A connection after a subscription is one from before, with the subscription at most. -/
theorem mem_updateHandle_addSubscription {client_id : Int32} {subs : Subscription}
    {handles : List CommonRpcClientHandle} {handle : CommonRpcClientHandle}
    (h : handle ∈ BrokerApp.updateHandle client_id (·.addSubscription subs |>.2) handles) :
    ∃ old ∈ handles, handle.connectionId = old.connectionId ∧ handle.conn = old.conn ∧
      handle.mountPoint = old.mountPoint ∧
        ∀ o ∈ handle.m_subscriptions, o ∈ old.m_subscriptions ∨ o = subs := by
  obtain hold | ⟨old, hold, -, rfl⟩ := BrokerApp.mem_updateHandle h
  · exact ⟨handle, hold, rfl, rfl, rfl, fun o ho => .inl ho⟩
  · obtain ⟨hid, hconn, hmount⟩ := addSubscription_same old subs
    obtain ⟨m_subscriptions, heq, hsubs⟩ := old.addSubscription_eq subs
    refine ⟨old, hold, hid, hconn, hmount, fun o ho => ?_⟩
    simp only [heq] at ho
    exact hsubs o ho

/-- A connection that logs in has no subscriptions, and nothing is passed on to it yet. -/
theorem Inv.login {s : BrokerState B} {calls : List SubscribeCall} (h : Inv s calls)
    (connectionId : Int32) (conn : BrokerConnection) (mountPoint : Bytes)
    (hmeets : s.Meets (.login connectionId conn mountPoint)) :
    Inv (s.step (.login connectionId conn mountPoint)).1
      (calls ++ (s.step (.login connectionId conn mountPoint)).2) := by
  rw [step]
  cases hfind : s.app.commonClientConnectionById connectionId with
  | some handle => simpa using h
  | none =>
    have hfresh : ∀ handle ∈ s.app.allClientConnections, handle.connectionId ≠ connectionId := by
      intro handle hhandle
      simpa using List.find?_eq_none.mp hfind handle hhandle
    simp only
    refine ⟨?_, ?_, ?_, ?_⟩
    · simp only [List.map_append, List.map_cons, List.map_nil]
      refine List.nodup_append.mpr ⟨h.ids, by simp, ?_⟩
      simpa using hfresh
    · intro id hid
      rw [List.map_append]
      exact List.mem_append_left _ (h.connected id hid)
    · intro handle hhandle subs hsubs slave hslave hseen call hcall
      rw [List.append_nil]
      obtain hhandle | hhandle := List.mem_append.mp hhandle
      · obtain hslave | hslave := List.mem_append.mp hslave
        · exact h.sent handle hhandle subs hsubs slave hslave hseen call hcall
        · obtain rfl := List.mem_singleton.mp hslave
          obtain hseen | hseen := hseen
          · obtain ⟨old, hold, hid⟩ := List.mem_map.mp (h.connected _ hseen)
            exact absurd hid (hfresh old hold)
          · exact absurd hseen.symm (hfresh handle hhandle)
      · obtain rfl := List.mem_singleton.mp hhandle
        simp at hsubs
    · intro handle hhandle subs hsubs slave hslave hisSlave
      obtain hold | hhandle := List.mem_append.mp hhandle
      · obtain hslave | hslave := List.mem_append.mp hslave
        · exact h.notMissed handle hold subs hsubs slave hslave hisSlave
        · obtain rfl := List.mem_singleton.mp hslave
          cases conn with
          | masterBroker exported => simp [CommonRpcClientHandle.isSlaveBrokerConnection] at hisSlave
          | client isSlave userName =>
            obtain rfl : isSlave = true := hisSlave
            exact hmeets handle hold subs hsubs
      · obtain rfl := List.mem_singleton.mp hhandle
        simp at hsubs

/-- A slave broker that connects gets the subscriptions of the others; its own ones it got when
they were made. -/
theorem Inv.clientConnected {s : BrokerState B} {calls : List SubscribeCall} (h : Inv s calls)
    (client_id : Int32) :
    Inv (s.step (.clientConnected client_id)).1
      (calls ++ (s.step (.clientConnected client_id)).2) := by
  rw [step]
  cases hfind : s.app.commonClientConnectionById client_id with
  | none => simpa using h
  | some cc =>
    have hcc : cc ∈ s.app.allClientConnections := List.mem_of_find?_eq_some hfind
    have hccid : cc.connectionId = client_id := by simpa using List.find?_some hfind
    refine ⟨h.ids, ?_, ?_, h.notMissed⟩
    · intro id hid
      obtain rfl | hid := List.mem_cons.mp hid
      · rw [← hccid]
        exact List.mem_map_of_mem hcc
      · exact h.connected id hid
    · intro handle hhandle subs hsubs slave hslave hseen call hcall
      by_cases hold : slave.connectionId ∈ s.connected ∨ slave.connectionId = handle.connectionId
      · exact List.mem_append_left _ (h.sent handle hhandle subs hsubs slave hslave hold call hcall)
      · rw [not_or] at hold
        have hid : slave.connectionId = client_id := by
          obtain hseen | hseen := hseen
          · exact (List.mem_cons.mp hseen).resolve_right hold.1
          · exact absurd hseen hold.2
        have hsame : slave = cc :=
          List.inj_on_of_nodup_map h.ids hslave hcc (hid.trans hccid.symm)
        subst hsame
        have hisSlave : slave.isSlaveBrokerConnection = true := by
          refine Decidable.byContradiction fun hnot => ?_
          rw [CommonRpcClientHandle.propagateSubscriptionToSlaveBroker, if_neg hnot] at hcall
          contradiction
        refine List.mem_append_right _ ?_
        rw [BrokerApp.onClientConnected, hfind]
        simp only [hisSlave, if_true]
        refine List.mem_flatMap.mpr ⟨handle, hhandle, ?_⟩
        rw [if_neg (fun heq => hold.2 (hid.trans heq.symm))]
        exact List.mem_filterMap.mpr ⟨subs, hsubs, hcall⟩

/-- A new subscription is passed on to all the slave brokers. -/
theorem Inv.subscribe {s : BrokerState B} {calls : List SubscribeCall} (h : Inv s calls)
    (client_id : Int32) (shv_path method : Bytes)
    (hmeets : s.Meets (.subscribe client_id shv_path method)) :
    Inv (s.step (.subscribe client_id shv_path method)).1
      (calls ++ (s.step (.subscribe client_id shv_path method)).2) := by
  rw [step]
  simp only
  rw [BrokerApp.addSubscription]
  cases hfind : s.app.commonClientConnectionById client_id with
  | none => simpa [Except.toOption] using h
  | some caller =>
    simp only
    cases hcreate : caller.conn.createSubscription s.app.aclManager shv_path method [] with
    | mk r m =>
      cases r with
      | error e => simpa [Except.toOption] using ⟨h.ids, h.connected, h.sent, h.notMissed⟩
      | ok subs =>
        have hsubs := BrokerConnection.createSubscription_ok hcreate
        have hnew := hmeets caller hfind
        rw [← hsubs] at hnew
        simp only [Except.toOption, Option.getD_some]
        refine ⟨?_, ?_, ?_, ?_⟩
        · rw [BrokerApp.map_connectionId_updateHandle fun handle => (addSubscription_same handle subs).1]
          exact h.ids
        · intro id hid
          rw [BrokerApp.map_connectionId_updateHandle fun handle => (addSubscription_same handle subs).1]
          exact h.connected id hid
        · intro handle hhandle o ho slave hslave hseen call hcall
          obtain ⟨old, hold, hid, -, -, hsubscribed⟩ := mem_updateHandle_addSubscription hhandle
          obtain ⟨oldSlave, holdSlave, hslaveId, hconn, hmount, -⟩ :=
            mem_updateHandle_addSubscription hslave
          obtain ho | rfl := hsubscribed o ho
          · refine List.mem_append_left _ (h.sent old hold o ho oldSlave holdSlave ?_ call ?_)
            · rw [← hslaveId, ← hid]
              exact hseen
            · rw [← hcall, CommonRpcClientHandle.propagateSubscriptionToSlaveBroker,
                CommonRpcClientHandle.propagateSubscriptionToSlaveBroker,
                CommonRpcClientHandle.isSlaveBrokerConnection,
                CommonRpcClientHandle.isSlaveBrokerConnection, hslaveId, hconn, hmount]
          · exact List.mem_append_right _ (List.mem_filterMap.mpr ⟨slave, hslave, hcall⟩)
        · intro handle hhandle o ho slave hslave hisSlave
          obtain ⟨old, hold, -, -, -, hsubscribed⟩ := mem_updateHandle_addSubscription hhandle
          obtain ⟨oldSlave, holdSlave, -, hconn, hmount, -⟩ :=
            mem_updateHandle_addSubscription hslave
          have holdIsSlave : oldSlave.isSlaveBrokerConnection = true := by
            rw [CommonRpcClientHandle.isSlaveBrokerConnection, ← hconn]
            exact hisSlave
          rw [hmount]
          obtain ho | rfl := hsubscribed o ho
          · exact h.notMissed old hold o ho oldSlave holdSlave holdIsSlave
          · exact hnew oldSlave holdSlave holdIsSlave

/-- One event. -/
theorem Inv.step {s : BrokerState B} {calls : List SubscribeCall} (h : Inv s calls)
    (e : BrokerEvent) (hmeets : s.Meets e) : Inv (s.step e).1 (calls ++ (s.step e).2) := by
  cases e with
  | login connectionId conn mountPoint => exact h.login connectionId conn mountPoint hmeets
  | clientConnected client_id => exact h.clientConnected client_id
  | subscribe client_id shv_path method => exact h.subscribe client_id shv_path method hmeets

/-- Any number of events. -/
theorem Inv.run {s : BrokerState B} {calls : List SubscribeCall} (h : Inv s calls)
    (es : List BrokerEvent) (hmeets : s.MeetsAll es) :
    Inv (Machine.run BrokerState.step s es).1 (calls ++ (Machine.run BrokerState.step s es).2) := by
  induction es generalizing s calls with
  | nil => simpa using h
  | cons e es ih =>
    have hrest := ih (h.step e hmeets.1) hmeets.2
    rw [Machine.run_cons, ← List.append_assoc]
    exact hrest

theorem MeetsAll.left {s : BrokerState B} {es es' : List BrokerEvent}
    (h : s.MeetsAll (es ++ es')) : s.MeetsAll es := by
  induction es generalizing s with
  | nil => trivial
  | cons e es ih => exact ⟨h.1, ih h.2⟩

/-- In a run whose events meet the condition, the subscriptions are served in every state. -/
theorem served_of_meetsAll (aclManager : AclManager B) (es es' : List BrokerEvent)
    (hmeets : (start aclManager).MeetsAll (es ++ es')) :
    Served (Machine.run step (start aclManager) es).1 (Machine.run step (start aclManager) es).2 := by
  have hinv := (inv_start aclManager).run es hmeets.left
  exact hinv.served

/-! ### a client and a slave broker -/

/-- A user who may read everything. -/
def readers : AclManager .configFiles where
  data :=
    { mounts := []
      users := [(ascii "u", ⟨⟨ascii "p", .Plain⟩, [ascii "r"]⟩)]
      roles := [(ascii "r", ⟨[], .invalid⟩)]
      rules := [(ascii "r", [⟨ascii "**", [], ascii "rd"⟩])] }
  m_cache := .empty
  m_azureUserGroups := []
  m_ldapUserGroups := []

/-- A client logs in, and a slave broker that is mounted on `test/dev`; then the client
subscribes. -/
def subscribeRun (shv_path : Bytes) : List BrokerEvent :=
  [.login 1 (.client false (ascii "u")) [], .login 2 (.client true (ascii "b")) (ascii "test/dev"),
    .clientConnected 2, .subscribe 1 shv_path (ascii "chng")]

theorem served_subscribeRun :
    Served (Machine.run step (start readers) (subscribeRun (ascii "test"))).1
      (Machine.run step (start readers) (subscribeRun (ascii "test"))).2 := by
  refine served_of_meetsAll readers (subscribeRun (ascii "test")) [] ⟨trivial, ?_, trivial, ?_, trivial⟩
  · intro handle hhandle subs hsubs
    obtain rfl := List.mem_singleton.mp hhandle
    contradiction
  · intro handle hhandle slave hslave hisSlave
    obtain rfl := Option.some.inj hhandle
    obtain rfl | hslave := List.mem_cons.mp hslave
    · contradiction
    · obtain rfl := List.mem_singleton.mp hslave
      decide

/-- Nothing is passed on of a subscription to the root. -/
theorem not_served_subscribeRun :
    (Machine.run step (start readers) (subscribeRun [])).2 = [] ∧
      ¬ Served (Machine.run step (start readers) (subscribeRun [])).1
        (Machine.run step (start readers) (subscribeRun [])).2 := by
  have hcalls : (Machine.run step (start readers) (subscribeRun [])).2 = [] := by rfl
  have hconns : (Machine.run step (start readers) (subscribeRun [])).1.app.allClientConnections =
      [⟨1, .client false (ascii "u"), [], true, [.new [] (ascii "chng") []]⟩,
        ⟨2, .client true (ascii "b"), ascii "test/dev", true, []⟩] := by rfl
  have hconnected : (Machine.run step (start readers) (subscribeRun [])).1.connected = [2] := by rfl
  refine ⟨hcalls, ?_⟩
  rw [Served, hconns, hcalls, hconnected]
  intro h
  obtain ⟨call, hcall, -⟩ := h _ List.mem_cons_self (.new [] (ascii "chng") [])
    List.mem_cons_self _ (List.mem_cons_of_mem _ List.mem_cons_self) rfl List.mem_cons_self
    (ascii "temp") (ascii "chng") [] (by decide)
  contradiction

end BrokerState

end LibShv
