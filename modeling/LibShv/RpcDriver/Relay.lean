import LibShv.RpcDriver
import LibShv.SerialFrameReader.Delivered

/-!
# LibShv.RpcDriver.Relay

Messages on their way over several connections, each with a driver for the protocol of its peer,
a stream or a serial line, and a reader at the other end: they arrive as they were sent and in
order, whatever the protocols are and however the bytes are cut.
-/

namespace LibShv

open ByteReader FrameWriter

/-! ## lines -/

/-- The lines that frames are sent over. -/
inductive Line where
  | stream
  | serial (withCrcCheck : Bool)

namespace Line

/-- What a writer puts on the line. -/
def written : Line → List RpcFrame → Bytes
  | .stream, frames => (addFrames StreamFrameWriter.addFrameData frames).flatten
  | .serial withCrcCheck, frames =>
    (addFrames (SerialFrameWriter.addFrameData withCrcCheck) frames).flatten

/-- The frames that a new reader has collected after some calls of `addData`, of which none is
longer than the bytes there are. -/
def received : Line → List Bytes → List RpcFrame
  | .stream, chunks =>
    (StreamFrameReader.addAll (chunks.flatten.length + 1) .init chunks).1.frames
  | .serial withCrcCheck, chunks =>
    (SerialFrameReader.addAll (.init withCrcCheck) chunks).1.frames

theorem length_le_wire (sent : List FrameReader.Sent) :
    sent.length ≤ (StreamFrameReader.wire sent).length := by
  induction sent with
  | nil => exact Nat.zero_le _
  | cons f sent ih =>
    have hpos := List.length_pos_iff.mpr (packUintData_ne_nil (UInt64.ofNat f.bytes.length))
    rw [StreamFrameReader.wire_cons, List.length_append, List.length_append, List.length_cons]
    have hlen : 0 < (StreamFrameReader.lenData f).length := hpos
    omega

/-- Frames that can be sent are received, however their bytes are cut. -/
theorem received_of_sendable (line : Line) {frames : List RpcFrame}
    (h : ∀ frame ∈ frames, frame.Sendable) {chunks : List Bytes}
    (hchunks : chunks.flatten = line.written frames) : line.received chunks = frames := by
  have hsent : ∀ f ∈ frames.map (fun frame => frame.sentAs frame.metaData), f.HeadReads := by
    intro f hf
    obtain ⟨frame, hframe, rfl⟩ := List.mem_map.mp hf
    exact (h frame hframe).headReads
  have hframes : (frames.map fun frame => frame.sentAs frame.metaData).map FrameReader.Sent.frame =
      frames := by
    rw [List.map_map]
    exact List.map_id'' (fun frame => RpcFrame.frame_sentAs frame frame.metaData) frames
  cases line with
  | stream =>
    rw [written, StreamFrameReader.flatten_addFrames (fun frame hframe => (h frame hframe).ofMessage)
      RpcFrame.metaData] at hchunks
    obtain ⟨s, hall, hs⟩ := StreamFrameReader.addAll_wire hsent hchunks
      (Nat.lt_succ_of_le (hchunks ▸ length_le_wire _))
    rw [received, hall]
    exact hs.trans hframes
  | serial withCrcCheck =>
    rw [written, SerialFrameReader.flatten_addFrames
      (fun frame hframe => (h frame hframe).ofMessage) RpcFrame.metaData] at hchunks
    obtain ⟨s, ids, hall, hs⟩ := SerialFrameReader.addAll_expects chunks
      (s := .init withCrcCheck) rfl hsent (hchunks ▸ .idle _ ⟨0, rfl⟩)
    rw [received, hall]
    exact hs.trans hframes

end Line

/-! ## messages on their way -/

/-- A message that can be sent in either protocol. -/
structure RpcMessage.Deliverable (msg : RpcMessage) : Prop extends msg.Carried where
  size : ∀ {frame bytes}, msg.Framed frame → frame.toFrameData = .ok bytes → bytes.length < maxSize
  requestId : msg.value.metaData.isResponse = true →
    ∃ rqid, msg.value.metaData.requestId.toInt64 = .ok rqid

theorem RpcMessage.Deliverable.sendable {msg : RpcMessage} (h : msg.Deliverable) {frame : RpcFrame}
    (hframe : msg.Framed frame) : frame.Sendable := by
  have hmeta := RpcFrame.metaData_of_toRpcMessage (h.toCarried.toRpcMessage hframe)
  obtain ⟨⟨md, v⟩, hshape⟩ := msg
  obtain ⟨hmd, hmds, -⟩ := h.std
  obtain ⟨hmdCpon, hmdsCpon, -⟩ := h.cponStd
  refine ⟨⟨⟨_, hframe.2⟩, hmeta ▸ hmd, hmeta ▸ hmds, fun bytes => h.size hframe⟩, ?_,
    fun hresponse => hmeta ▸ h.requestId (hmeta ▸ hresponse)⟩
  rw [RpcFrame.MetaDataCarried, ← hmeta]
  cases hprotocol : frame.protocol with
  | Invalid => exact hframe.1 hprotocol
  | ChainPack =>
    obtain ⟨-, hpack, -⟩ := h.packable
    exact hpack
  | Cpon =>
    obtain ⟨-, hfit, -⟩ := h.blobsFit
    exact ⟨hmdCpon, hmdsCpon, hfit⟩

/-- A connection on the way: the driver that knows the protocol of its peer, and the line. -/
structure Hop where
  driver : RpcDriver
  line : Line

/-- Frames are handed from one connection to the next: sent by a driver, cut into pieces on
the line, and collected by a reader at the other end. -/
inductive Relayed : List Hop → List RpcFrame → List RpcFrame → Prop where
  | nil (frames : List RpcFrame) : Relayed [] frames frames
  | cons {hop : Hop} {hops : List Hop} {frames frames' : List RpcFrame} (chunks : List Bytes) :
      chunks.flatten = hop.line.written (frames.filterMap hop.driver.sendRpcFrame) →
      Relayed hops (hop.line.received chunks) frames' → Relayed (hop :: hops) frames frames'

/-- A driver sends all the frames of messages, in the protocol of its peer. -/
theorem framed_filterMap {driver : RpcDriver} (hp : driver.clientProtocolType ≠ .Invalid)
    {msgs : List RpcMessage} (h : ∀ msg ∈ msgs, msg.Deliverable) {frames : List RpcFrame}
    (hframes : List.Forall₂ RpcMessage.Framed msgs frames) :
    List.Forall₂ RpcMessage.Framed msgs (frames.filterMap driver.sendRpcFrame) := by
  induction hframes with
  | nil => exact .nil
  | @cons msg frame msgs frames hframe _ ih =>
    obtain ⟨frame', hsend, hframed, -⟩ :=
      RpcDriver.sendRpcFrame_framed hp (h msg List.mem_cons_self).toCarried hframe
    rw [List.filterMap_cons_some hsend]
    exact .cons hframed (ih fun msg hmsg => h msg (List.mem_cons_of_mem _ hmsg))

theorem sendable_of_framed {msgs : List RpcMessage} (h : ∀ msg ∈ msgs, msg.Deliverable)
    {frames : List RpcFrame} (hframes : List.Forall₂ RpcMessage.Framed msgs frames) :
    ∀ frame ∈ frames, frame.Sendable := by
  induction hframes with
  | nil => exact List.forall_mem_nil _
  | @cons msg frame msgs frames hframe _ ih =>
    rw [List.forall_mem_cons]
    exact ⟨(h msg List.mem_cons_self).sendable hframe,
      ih fun msg hmsg => h msg (List.mem_cons_of_mem _ hmsg)⟩

theorem Relayed.framed {hops : List Hop} {frames frames' : List RpcFrame}
    (hrelayed : Relayed hops frames frames')
    (hhops : ∀ hop ∈ hops, hop.driver.clientProtocolType ≠ .Invalid) {msgs : List RpcMessage}
    (h : ∀ msg ∈ msgs, msg.Deliverable) (hframes : List.Forall₂ RpcMessage.Framed msgs frames) :
    List.Forall₂ RpcMessage.Framed msgs frames' := by
  induction hrelayed with
  | nil frames => exact hframes
  | @cons hop hops frames frames' chunks hchunks _ ih =>
    have hsent := framed_filterMap (hhops hop List.mem_cons_self) h hframes
    refine ih (fun hop hhop => hhops hop (List.mem_cons_of_mem _ hhop)) ?_
    rw [hop.line.received_of_sendable (sendable_of_framed h hsent) hchunks]
    exact hsent

/-- Whatever protocols and lines there are on their way, the messages arrive as they were sent, all
of them, once and in order. -/
theorem relay_preserves_messages {hops : List Hop} {frames frames' : List RpcFrame}
    (hrelayed : Relayed hops frames frames')
    (hhops : ∀ hop ∈ hops, hop.driver.clientProtocolType ≠ .Invalid) {msgs : List RpcMessage}
    (h : ∀ msg ∈ msgs, msg.Deliverable) (hframes : List.Forall₂ RpcMessage.Framed msgs frames) :
    frames'.map RpcFrame.toRpcMessage = msgs.map fun msg => .ok (msg, "") := by
  have hframed := hrelayed.framed hhops h hframes
  clear hframes hrelayed
  induction hframed with
  | nil => rfl
  | @cons msg frame msgs frames hframe _ ih =>
    rw [List.map_cons, List.map_cons,
      (h msg List.mem_cons_self).toCarried.toRpcMessage hframe,
      ih fun msg hmsg => h msg (List.mem_cons_of_mem _ hmsg)]

/-! ### requests -/

theorem deliverable_request {id : Int64} (hid : id ≠ Int64.minValue) {chainPack cpon : Bytes}
    (hchainPack : (requestFrame id .ChainPack).toFrameData = .ok chainPack)
    (hcpon : (requestFrame id .Cpon).toFrameData = .ok cpon) (hlen : chainPack.length < maxSize)
    (hlen' : cpon.length < maxSize) : (RpcFrame.request id).Deliverable where
  toCarried := RpcDriver.carried_request hid
  size := by
    intro frame bytes hframe hbytes
    have hsame : requestFrame id frame.protocol = frame := by rw [requestFrame, hframe.2]
    rw [← hsame] at hbytes
    cases hprotocol : frame.protocol with
    | Invalid => exact absurd hprotocol hframe.1
    | ChainPack =>
      rw [hprotocol] at hbytes
      exact Except.ok.inj (hchainPack.symm.trans hbytes) ▸ hlen
    | Cpon =>
      rw [hprotocol] at hbytes
      exact Except.ok.inj (hcpon.symm.trans hbytes) ▸ hlen'
  requestId _ := ⟨_, rfl⟩

/-- Two requests by way of CPON on a stream, and of ChainPack on a serial line. -/
theorem relay_preserves_messages_requests :
    ∃ frames', Relayed [⟨⟨.Cpon⟩, .stream⟩, ⟨⟨.ChainPack⟩, .serial true⟩]
        [requestFrame 7 .ChainPack, requestFrame 300 .Cpon] frames' ∧
      frames'.map RpcFrame.toRpcMessage =
        [.ok (RpcFrame.request 7, ""), .ok (RpcFrame.request 300, "")] := by
  have hrelayed : Relayed [⟨⟨.Cpon⟩, .stream⟩, ⟨⟨.ChainPack⟩, .serial true⟩]
      [requestFrame 7 .ChainPack, requestFrame 300 .Cpon] _ :=
    .cons [_] (List.flatten_singleton ..) (.cons [_] (List.flatten_singleton ..) (.nil _))
  refine ⟨_, hrelayed, @relay_preserves_messages _ _ _ hrelayed (by decide)
    [RpcFrame.request 7, RpcFrame.request 300] ?_ ?_⟩
  · intro msg hmsg
    simp only [List.mem_cons, List.not_mem_nil, or_false] at hmsg
    rcases hmsg with rfl | rfl
    · exact deliverable_request (by decide) rfl rfl (by decide) (by decide)
    · exact deliverable_request (by decide) rfl rfl (by decide) (by decide)
  · exact .cons ⟨by decide, rfl⟩ (.cons ⟨by decide, rfl⟩ .nil)

end LibShv
