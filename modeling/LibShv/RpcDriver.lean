import LibShv.Lib.Machine
import LibShv.RpcFrame.Total
import LibShv.SerialFrameReader.Lossless
import LibShv.StreamFrameWriter

/-!
# LibShv.RpcDriver

`RpcDriver` (`rpcdriver.cpp`): it remembers the protocol of the first frame that its peer sent,
and everything it writes goes out in that protocol. Messages that both formats carry are the same
behind any number of drivers and the lines between them.
-/

namespace LibShv

open ByteReader

/-- `RpcDriver`: the protocol of its peer. -/
structure RpcDriver where
  clientProtocolType : ProtocolType

namespace RpcDriver

/-- A driver as it is made. -/
def init : RpcDriver := ⟨.Invalid⟩

/-- `sendRpcFrame`: the frame that is given to `writeFrame`. Every exception is caught, and nothing
is written then. -/
def sendRpcFrame (s : RpcDriver) (frame : RpcFrame) : Option RpcFrame :=
  if frame.protocol ≠ s.clientProtocolType then
    match frame.toRpcMessage with
    | .error _ => none
    | .ok (msg, errmsg) =>
      if errmsg ≠ "" then none
      else
        match msg.toRpcFrame s.clientProtocolType with
        | .error _ => none
        | .ok frame2 => some frame2
  else some frame

/-- `sendRpcMessage`; the frame is made outside of the `try`. -/
def sendRpcMessage (s : RpcDriver) (msg : RpcMessage) : Except Fault (Option RpcFrame) :=
  match msg.toRpcFrame s.clientProtocolType with
  | .error e => .error e
  | .ok frame => .ok (s.sendRpcFrame frame)

/-- `onRpcFrameReceived`: the message that is given to `onRpcMessageReceived`, unless an
exception escapes. -/
def onRpcFrameReceived (frame : RpcFrame) : Except Fault (Option RpcMessage) :=
  match frame.toRpcMessage with
  | .error e => .error e
  | .ok (msg, errmsg) => .ok (if errmsg = "" then some msg else none)

/-- `processRpcFrame`. -/
def processRpcFrame (s : RpcDriver) (frame : RpcFrame) :
    RpcDriver × Except Fault (Option RpcMessage) :=
  (if s.clientProtocolType = .Invalid then ⟨frame.protocol⟩ else s, onRpcFrameReceived frame)

end RpcDriver

/-! ## messages that every protocol carries -/

namespace RpcMessage

/-- Both formats carry every value in the message exactly. -/
structure Carried (msg : RpcMessage) : Prop where
  valid : msg.value.isValid = true
  std : msg.value.Std
  packable : msg.value.Packable
  cponStd : msg.value.CponStd
  blobsFit : msg.value.BlobsFit

/-- A message in a frame of some protocol. -/
def Framed (msg : RpcMessage) (frame : RpcFrame) : Prop :=
  frame.protocol ≠ .Invalid ∧ msg.toRpcFrame frame.protocol = .ok frame

theorem framed_of_toRpcFrame {msg : RpcMessage} {protocol : ProtocolType} {frame : RpcFrame}
    (hp : protocol ≠ .Invalid) (h : msg.toRpcFrame protocol = .ok frame) :
    msg.Framed frame ∧ frame.protocol = protocol := by
  have hprotocol : frame.protocol = protocol := by
    rw [toRpcFrame] at h
    split at h
    · obtain rfl := Except.ok.inj h
      rfl
    · contradiction
  exact ⟨⟨hprotocol ▸ hp, hprotocol.symm ▸ h⟩, hprotocol⟩

/-- In a protocol there is a frame of every message. -/
theorem exists_framed (msg : RpcMessage) {protocol : ProtocolType} (hp : protocol ≠ .Invalid) :
    ∃ frame, msg.toRpcFrame protocol = .ok frame ∧ frame.protocol = protocol ∧
      msg.Framed frame := by
  have hmade : ∃ frame, msg.toRpcFrame protocol = .ok frame := by
    cases protocol with
    | Invalid => exact absurd rfl hp
    | _ => exact ⟨_, rfl⟩
  obtain ⟨frame, hframe⟩ := hmade
  obtain ⟨hframed, hprotocol⟩ := framed_of_toRpcFrame hp hframe
  exact ⟨frame, hframe, hprotocol, hframed⟩

/-- What the data of a frame are decoded to. -/
theorem Carried.decodeData {msg : RpcMessage} (h : msg.Carried) {frame : RpcFrame}
    (hframe : msg.Framed frame) : ∃ rd, frame.protocol.reader? = some rd ∧
      RpcFrame.decodeData rd frame.data = .ok (.ofVariant msg.value.value) := by
  obtain ⟨⟨md, v⟩, hshape⟩ := msg
  obtain ⟨hp, hmake⟩ := hframe
  have hstd : (RpcValue.ofVariant v).Std :=
    RpcFrame.each_ofVariant ⟨SortedMap.sorted_nil, SortedMap.sorted_nil, nofun⟩ h.std
  have hpack : (RpcValue.ofVariant v).Packable := RpcFrame.each_ofVariant trivial h.packable
  have hcpon : (RpcValue.ofVariant v).CponStd :=
    RpcFrame.each_ofVariant ⟨SortedMap.sorted_nil, SortedMap.sorted_nil, nofun⟩ h.cponStd
  have hfit : (RpcValue.ofVariant v).BlobsFit := RpcFrame.each_ofVariant trivial h.blobsFit
  cases hprotocol : frame.protocol with
  | Invalid => exact absurd hprotocol hp
  | ChainPack =>
    rw [hprotocol] at hmake
    have hdata : ChainPackWriter.write (.ofVariant v) = frame.data :=
      congrArg RpcFrame.data (Except.ok.inj hmake)
    obtain ⟨c, hread, -⟩ := ChainPackReader.readFrom_write hstd []
    rw [List.append_nil, hdata, ChainPackReader.decoded_eq hpack] at hread
    refine ⟨_, rfl, ?_⟩
    rw [RpcFrame.decodeData, show ChainPackReader.reader.readFrom frame.data = _ from hread]
    rfl
  | Cpon =>
    rw [hprotocol] at hmake
    have hdata : CponWriter.toCpon [] (.ofVariant v) = frame.data :=
      congrArg RpcFrame.data (Except.ok.inj hmake)
    have hdecoded : CponReader.decoded (.ofVariant v) = .ofVariant v :=
      (mapLeaves_eq_iff _).mpr (each_imp (fun v hv => CponReader.kept_of_blobFits hv.1 hv.2)
        (fun _ _ => trivial) _ (each_and _ hcpon hfit))
    obtain ⟨c, hread, -⟩ := CponReader.readFrom_toCpon hcpon (List.forall_mem_nil _)
    rw [hdata, hdecoded] at hread
    refine ⟨_, rfl, ?_⟩
    rw [RpcFrame.decodeData, show CponReader.reader.readFrom frame.data = _ from hread]
    rfl

/-- A message comes back from its frame in either protocol. -/
theorem Carried.toRpcMessage {msg : RpcMessage} (h : msg.Carried) {frame : RpcFrame}
    (hframe : msg.Framed frame) : frame.toRpcMessage = .ok (msg, "") := by
  obtain ⟨rd, hrd, hdata⟩ := h.decodeData hframe
  have hmeta : frame.metaData = msg.value.metaData := by
    obtain ⟨hp, hmake⟩ := hframe
    rw [toRpcFrame] at hmake
    split at hmake
    · exact congrArg RpcFrame.metaData (Except.ok.inj hmake).symm
    · contradiction
  obtain ⟨⟨md, v⟩, hshape⟩ := msg
  have himap : (RpcValue.mk md v).isIMap = true := by
    rcases hshape with himap | hinvalid
    · exact himap
    · have hvalid := h.valid
      rw [hinvalid] at hvalid
      contradiction
  have hset : RpcFrame.setMetaData (.ofVariant (RpcValue.mk md v).value)
      (RpcValue.mk md v).metaData = .ok (.mk md v) := if_pos h.valid
  have hmake : RpcFrame.makeRpcMessage (.mk md v) = .ok ⟨.mk md v, hshape⟩ := dif_pos himap
  rw [RpcFrame.toRpcMessage_of_ok hrd hdata, hmeta]
  simp only [bind, Except.bind]
  rw [hset]
  simp only [hmake, pure, Except.pure]

end RpcMessage

/-! ## what a driver writes -/

namespace RpcDriver

/-- A frame that carries a message is written in the protocol of the peer, and carries it still. -/
theorem sendRpcFrame_framed {s : RpcDriver} (hs : s.clientProtocolType ≠ .Invalid) {msg : RpcMessage}
    (h : msg.Carried) {frame : RpcFrame} (hframe : msg.Framed frame) :
    ∃ frame', s.sendRpcFrame frame = some frame' ∧ msg.Framed frame' ∧
      frame'.protocol = s.clientProtocolType := by
  by_cases hsame : frame.protocol = s.clientProtocolType
  · exact ⟨frame, if_neg (not_not_intro hsame), hframe, hsame⟩
  · obtain ⟨frame', hframe', hprotocol, hframed⟩ := msg.exists_framed hs
    refine ⟨frame', ?_, hframed, hprotocol⟩
    rw [sendRpcFrame, if_pos hsame, h.toRpcMessage hframe]
    simp only [hframe', ne_eq, not_true_eq_false, if_false]

/-- As long as no protocol is known none is written. -/
theorem sendRpcFrame_of_invalid {msg : RpcMessage} (h : msg.Carried) {frame : RpcFrame}
    (hframe : msg.Framed frame) : init.sendRpcFrame frame = none := by
  rw [sendRpcFrame, if_pos (show frame.protocol ≠ init.clientProtocolType from hframe.1),
    h.toRpcMessage hframe]
  rfl

theorem sendRpcMessage_carried {s : RpcDriver} (hs : s.clientProtocolType ≠ .Invalid)
    {msg : RpcMessage} :
    ∃ frame, s.sendRpcMessage msg = .ok (some frame) ∧ msg.Framed frame ∧
      frame.protocol = s.clientProtocolType := by
  obtain ⟨frame, hframe, hprotocol, hframed⟩ := msg.exists_framed hs
  have hsend : s.sendRpcFrame frame = some frame := if_neg (not_not_intro hprotocol)
  refine ⟨frame, ?_, hframed, hprotocol⟩
  rw [sendRpcMessage, hframe]
  exact congrArg Except.ok hsend

/-! ### runs -/

/-- What happens to a driver. -/
inductive Event where
  | received (frame : RpcFrame)
  | sendMessage (msg : RpcMessage)
  | sendFrame (frame : RpcFrame)

/-- The driver after an event, and the frame that it writes. -/
def step (s : RpcDriver) : Event → RpcDriver × List RpcFrame
  | .received frame => ((s.processRpcFrame frame).1, [])
  | .sendMessage msg =>
    match s.sendRpcMessage msg with
    | .ok frame => (s, frame.toList)
    | .error _ => (s, [])
  | .sendFrame frame => (s, (s.sendRpcFrame frame).toList)

/-- What a driver is for: it hears of the protocol of its peer, and says messages. -/
inductive Request where
  | hear (protocol : ProtocolType)
  | say (msg : RpcMessage)

/-- The first protocol heard of stays. Before it nothing is said, and after it everything. -/
def serve : Option ProtocolType → Request → Option ProtocolType × List (ProtocolType × RpcMessage)
  | none, .hear protocol => (some protocol, [])
  | some protocol, .hear _ => (some protocol, [])
  | none, .say _ => (none, [])
  | some protocol, .say msg => (some protocol, [(protocol, msg)])

/-- The events that ask for something: a frame of some protocol, and messages that both formats
carry. -/
inductive Event.Asks : Event → Request → Prop where
  | received {frame : RpcFrame} : frame.protocol ≠ .Invalid →
      Asks (.received frame) (.hear frame.protocol)
  | sendMessage {msg : RpcMessage} : msg.Carried → Asks (.sendMessage msg) (.say msg)
  | sendFrame {msg : RpcMessage} {frame : RpcFrame} : msg.Carried → msg.Framed frame →
      Asks (.sendFrame frame) (.say msg)

/-- The protocol that a driver knows. -/
def Knows (s : RpcDriver) : Option ProtocolType → Prop
  | none => s.clientProtocolType = .Invalid
  | some protocol => s.clientProtocolType = protocol ∧ protocol ≠ .Invalid

/-- The frame says the message in the protocol. -/
def Says (frame : RpcFrame) (said : ProtocolType × RpcMessage) : Prop :=
  frame.protocol = said.1 ∧ frame.toRpcMessage = .ok (said.2, "")

theorem step_asks {s : RpcDriver} {known : Option ProtocolType} {e : Event} {req : Request}
    (hs : s.Knows known) (he : e.Asks req) :
    (s.step e).1.Knows (serve known req).1 ∧ List.Forall₂ Says (s.step e).2 (serve known req).2 := by
  cases known with
  | none =>
    have hinit : s = init := congrArg RpcDriver.mk hs
    subst hinit
    cases he with
    | received hp => exact ⟨⟨rfl, hp⟩, .nil⟩
    | sendMessage _ => exact ⟨rfl, .nil⟩
    | sendFrame hmsg hframe =>
      rw [step, sendRpcFrame_of_invalid hmsg hframe]
      exact ⟨rfl, .nil⟩
  | some protocol =>
    obtain ⟨rfl, hp⟩ := hs
    cases he with
    | received _ =>
      rw [step, processRpcFrame, if_neg hp]
      exact ⟨⟨rfl, hp⟩, .nil⟩
    | sendMessage hmsg =>
      obtain ⟨frame', hsend, hframed, hprotocol⟩ := sendRpcMessage_carried hp
      rw [step, hsend]
      exact ⟨⟨rfl, hp⟩, .cons ⟨hprotocol, hmsg.toRpcMessage hframed⟩ .nil⟩
    | sendFrame hmsg hframe =>
      obtain ⟨frame', hsend, hframed, hprotocol⟩ := sendRpcFrame_framed hp hmsg hframe
      rw [step, hsend]
      exact ⟨⟨rfl, hp⟩, .cons ⟨hprotocol, hmsg.toRpcMessage hframed⟩ .nil⟩

/-- A driver does what it is for, in every order of frames received and messages sent: what it
writes is read as the messages that it was given once its peer was heard, in order, and all of it
is in the protocol of the first frame. -/
theorem run_serves {events : List Event} {requests : List Request}
    (h : List.Forall₂ Event.Asks events requests) :
    List.Forall₂ Says (Machine.run step init events).2 (Machine.run serve none requests).2 := by
  have hsimulates := Machine.run_simulates (R := Knows) (E := Event.Asks) (O := Says) step_asks h
    (show init.Knows none from rfl)
  exact hsimulates.2

/-! ### requests -/

theorem carried_request {id : Int64} (hid : id ≠ Int64.minValue) :
    (RpcFrame.request id).Carried where
  valid := rfl
  std := RpcFrame.std_request id
  packable := RpcFrame.packable_request hid
  cponStd :=
    have hmd := FrameWriter.metaDataCarried_request hid
    ⟨hmd.1, hmd.2.1, SortedMap.sorted_nil, trivial⟩
  blobsFit := ⟨trivial, (FrameWriter.metaDataCarried_request hid).2.2, trivial, trivial⟩

/-- A request is lost that is sent too early; the others go out in CPON. -/
theorem run_serves_requests :
    ∃ frame frame', (Machine.run step init
        [.sendMessage (RpcFrame.request 3), .received (FrameWriter.requestFrame 7 .Cpon),
          .sendMessage (RpcFrame.request 5), .sendFrame (FrameWriter.requestFrame 300 .ChainPack)]).2 =
      [frame, frame'] ∧
      Says frame (.Cpon, RpcFrame.request 5) ∧ Says frame' (.Cpon, RpcFrame.request 300) := by
  have hasks := @run_serves
    [.sendMessage (RpcFrame.request 3), .received (FrameWriter.requestFrame 7 .Cpon),
      .sendMessage (RpcFrame.request 5), .sendFrame (FrameWriter.requestFrame 300 .ChainPack)] _
    (.cons (.sendMessage (carried_request (by decide)))
      (.cons (.received (show ProtocolType.Cpon ≠ .Invalid by decide))
        (.cons (.sendMessage (carried_request (by decide)))
          (.cons (.sendFrame (carried_request (by decide))
            ⟨show ProtocolType.ChainPack ≠ .Invalid by decide, rfl⟩) .nil))))
  obtain ⟨frame, rest, hframe, hrest, heq⟩ := List.forall₂_cons_right_iff.mp hasks
  obtain ⟨frame', rest', hframe', hrest', rfl⟩ := List.forall₂_cons_right_iff.mp hrest
  rw [List.forall₂_nil_right_iff.mp hrest'] at heq
  exact ⟨frame, frame', heq, hframe, hframe'⟩

end RpcDriver

end LibShv
