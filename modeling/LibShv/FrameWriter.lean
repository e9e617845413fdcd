import LibShv.Cpon
import LibShv.FrameReader

/-!
# LibShv.FrameWriter

`FrameWriter` (`socket.cpp`), and what its frames are for a reader: when the head
of a frame can be read from the bytes of the frame, and from a part of them is read
or missed without an exception.
-/

namespace LibShv

open ByteReader AbstractStreamReader ChainPackReader

/-! ## writing -/

namespace FrameWriter

/-- `addFrame`, for a writer with `addFrameData`: a frame without a head is left out. -/
def addFrame (addFrameData : Bytes → Bytes → Bytes) (messageDataToWrite : List Bytes)
    (frame : RpcFrame) : List Bytes :=
  match frame.toFrameHead with
  | .ok frameHead => messageDataToWrite ++ [addFrameData frameHead frame.data]
  | .error _ => messageDataToWrite

/-- All that is written for some frames, one after the other. -/
def addFrames (addFrameData : Bytes → Bytes → Bytes) (frames : List RpcFrame) : List Bytes :=
  frames.foldl (addFrame addFrameData) []

end FrameWriter

/-! ## frames on their way -/

namespace FrameReader

/-- The bytes of a frame without what delimits them, and the head they begin with. -/
structure Sent where
  bytes : Bytes
  head : Head

namespace Sent

/-- The head is read from the bytes of the frame, a part of them fails with a parse error at
most, and the request id of a response can be converted. -/
structure HeadReads (f : Sent) : Prop where
  length : f.bytes.length < maxSize
  read : readHead f.bytes = some f.head
  quiet : ∀ b rest ys rd e c, f.bytes = b :: rest ++ ys → (ProtocolType.ofByte b).reader? = some rd →
    rd.readMetaData (AbstractStreamReader.fuelFor rest.length) (openStream rest) = .error e c →
    e.IsParse
  responseId : ∃ rqid, FrameReader.responseId f.head.metaData = .ok rqid

/-- The frame as it is collected. -/
def frame (f : Sent) : RpcFrame := ⟨f.head.protocol, f.head.metaData, f.bytes.drop f.head.size⟩

/-- The request id the frame is announced with, if it is the response to a request. -/
def rqids (f : Sent) : List Int64 :=
  match FrameReader.responseId f.head.metaData with
  | .ok rqid => if 0 < rqid then [rqid] else []
  | .error _ => []

end Sent

/-- What a reader knows of the frame that arrives at `pos`: nothing yet, or its head. -/
def Knows (r : FrameReader) (pos : Nat) (f : Sent) : Prop :=
  r.dataStart = none ∨
    r = ⟨r.frames, f.head.protocol, f.head.metaData, some (pos + f.head.size)⟩

/-- The request id that was returned while the frame was arriving. -/
def announced (r : FrameReader) (f : Sent) : List Int64 :=
  if r.dataStart.isSome then f.rqids else []

/-- The head of the frame that arrives: it is known or becomes known, or the frame is not
complete and nothing happens. -/
theorem tryToReadMeta_sent {f : Sent} (hf : f.HeadReads) {r : FrameReader} {pos : Nat}
    {content future more : Bytes} (hknows : r.Knows pos f)
    (hbytes : content ++ future = f.bytes ++ more) :
    ∃ r' rqid, r.tryToReadMeta pos content = (r', .ok rqid) ∧ r'.frames = r.frames ∧
      (r'.dataStart = none ∧ ¬ 0 < rqid ∧ r.dataStart = none ∧
          content.length < f.bytes.length ∨
        r' = ⟨r.frames, f.head.protocol, f.head.metaData, some (pos + f.head.size)⟩ ∧
          r.announced f ++ (if 0 < rqid then [rqid] else []) = f.rqids) := by
  rcases hknows with hnone | hr
  · obtain ⟨id, hid⟩ := hf.responseId
    have hempty : r.announced f = [] := by
      rw [announced, hnone]
      rfl
    cases hread : readHead content with
    | some head =>
      obtain rfl : head = f.head := by
        rcases List.append_eq_append_iff.mp hbytes with ⟨ys, hys, -⟩ | ⟨ys, hys, -⟩
        · have hmore := readHead_append hread ys
          rw [← hys, hf.read] at hmore
          exact (Option.some.inj hmore).symm
        · have hmore := readHead_append hf.read ys
          rw [← hys, hread] at hmore
          exact Option.some.inj hmore
      refine ⟨⟨r.frames, f.head.protocol, f.head.metaData, some (pos + f.head.size)⟩, id, ?_, rfl,
        .inr ⟨rfl, ?_⟩⟩
      · rw [tryToReadMeta_of_readHead hnone hread, hid]
      · rw [hempty, List.nil_append, Sent.rqids, hid]
    | none =>
      have hpart : content.length < f.bytes.length ∧ ∃ ys, f.bytes = content ++ ys := by
        rcases append_cut hbytes.symm with ⟨ys, hne, hys, -⟩ | ⟨ys, hys, -⟩
        · refine ⟨?_, ys, hys⟩
          have hpos := List.length_pos_iff.mpr hne
          rw [hys, List.length_append]
          omega
        · rw [hys, readHead_append hf.read ys] at hread
          contradiction
      obtain ⟨hshort, ys, hys⟩ := hpart
      obtain ⟨r', htry, hstart, hframes⟩ := tryToReadMeta_of_none hnone hread pos
        fun b input rd e c hc hrd herr =>
          hf.quiet b input ys rd e c (by rw [hys, hc]) hrd herr
      exact ⟨r', 0, htry, hframes, .inl ⟨hstart, by decide, hnone, hshort⟩⟩
  · have hstart : r.dataStart.isSome = true := by rw [hr]; rfl
    refine ⟨r, 0, ?_, rfl, .inr ⟨hr, ?_⟩⟩
    · rw [tryToReadMeta.eq_def, if_pos hstart]
    · rw [announced, if_pos hstart, if_neg (by decide), List.append_nil]

end FrameReader

/-! ## what a frame carries -/

namespace RpcFrame

/-- The protocol carries every value in the metadata exactly. -/
def MetaDataCarried (frame : RpcFrame) : Prop :=
  match frame.protocol with
  | .Invalid => False
  | .ChainPack => frame.metaData.Each Variant.Packable fun _ => True
  | .Cpon =>
    frame.metaData.CponStd ∧ frame.metaData.Each Variant.CponStd RpcMetaData.CponStd ∧
      frame.metaData.Each Variant.BlobFits fun _ => True

/-- The frame of a message. What it consists of is a string and a map, so that they have a size
and their keys increase. -/
structure OfMessage (frame : RpcFrame) : Prop where
  message : ∃ msg : RpcMessage, msg.toRpcFrame frame.protocol = .ok frame
  std : frame.metaData.Std
  stds : frame.metaData.Each Variant.Std RpcMetaData.Std
  size : ∀ bytes, frame.toFrameData = .ok bytes → bytes.length < maxSize

/-- If the frame is a response, its request id is a number. -/
def RequestIdConverts (frame : RpcFrame) : Prop :=
  frame.metaData.isResponse = true → ∃ rqid, frame.metaData.requestId.toInt64 = .ok rqid

/-- The positive request id of a response. -/
def responseIds (frame : RpcFrame) : List Int64 :=
  match FrameReader.responseId frame.metaData with
  | .ok rqid => if 0 < rqid then [rqid] else []
  | .error _ => []

end RpcFrame

/-! ## metadata in front of data -/

/-- The metadata are read in front of the data, and a part of them fails with a parse error
at most. -/
structure MetaDataReads (rd : AbstractStreamReader) (head data : Bytes) (md : RpcMetaData) :
    Prop where
  whole : ∃ c, rd.readMetaData (fuelFor (head ++ data).length) (openStream (head ++ data)) = .ok md c ∧
    c.input = data ∧ c.atEnd = false
  part : ∀ input ys, head ++ data = input ++ ys →
    ∀ e c, rd.readMetaData (fuelFor input.length) (openStream input) = .error e c → e.IsParse

namespace MetaDataReads

theorem readMetaData_ne_outOfFuel {protocol : ProtocolType} {rd : AbstractStreamReader}
    (h : protocol.reader? = some rd) (input : Bytes) (c : Cursor UnpackContext) :
    rd.readMetaData (fuelFor input.length) (openStream input) ≠ .error .outOfFuel c := by
  have hfuel : 3 * (input.length + 1) ≤ fuelFor input.length + 2 := by
    rw [fuelFor]
    omega
  intro herr
  cases protocol with
  | Invalid => contradiction
  | ChainPack =>
    obtain rfl := Option.some.inj h
    exact (triple_readMetaData ChainPackReader.progress _ _ hfuel).of_error
      ⟨Nat.lt_succ_self _, rfl, ready_openStream input⟩ herr rfl
  | Cpon =>
    obtain rfl := Option.some.inj h
    exact (triple_readMetaData CponReader.progress _ _ hfuel).of_error
      ⟨Nat.lt_succ_self _, trivial, ready_openStream input⟩ herr rfl

/-- Metadata that are not empty. -/
theorem of_reads {protocol : ProtocolType} {rd : AbstractStreamReader}
    (hrd : protocol.reader? = some rd) {head data : Bytes} {md : RpcMetaData} (hne : data ≠ [])
    (h : ∀ n, 3 * head.length ≤ n →
      Unpacks (rd.readMetaData n) head Any UnpackContext.Ready fun a ctx => a = md ∧ ctx.Ready) :
    MetaDataReads rd head data md where
  whole := by
    obtain ⟨a, c, hread, hi, hend, rfl, -⟩ := (h (fuelFor (head ++ data).length)
      (by rw [fuelFor, List.length_append]; omega)).whole (openStream (head ++ data)) data rfl
        (fun _ _ => trivial) (ready_openStream _)
    exact ⟨c, hread, hi, hend.resolve_right hne⟩
  part input ys hcut e c herr := by
    have hne : e ≠ .outOfFuel := fun he => readMetaData_ne_outOfFuel hrd input c (he ▸ herr)
    have hwhole : ∀ xs, input ≠ head ++ xs := by
      rintro xs rfl
      obtain ⟨a, c', hread, -⟩ := (h (fuelFor (head ++ xs).length)
        (by rw [fuelFor, List.length_append]; omega)).whole (openStream (head ++ xs)) xs rfl
          (fun _ _ => trivial) (ready_openStream _)
      rw [hread] at herr
      contradiction
    rcases append_cut hcut with ⟨xs, hxs, hhead, -⟩ | ⟨xs, hinput, -⟩
    · have hstarved := (h (3 * head.length + fuelFor input.length) (by omega)).part
        (openStream input) xs hhead hxs rfl (ready_openStream _)
      have hmore := (@approximates_readMetaData rd (fuelFor input.length)
        (3 * head.length + fuelFor input.length) (by omega)).eq_error herr hne
      rw [hmore] at hstarved
      exact hstarved.resolve_right hne
    · exact absurd hinput (hwhole xs)

/-- Empty metadata take no bytes; the data that follow are looked at. -/
theorem of_passes {rd : AbstractStreamReader} {b : UInt8} {data : Bytes} (h : rd.Passes [] b) :
    MetaDataReads rd [] (b :: data) .empty where
  whole := by
    obtain ⟨last, hm⟩ := h.whole (openStream (b :: data)) data rfl (ready_openStream _)
    exact ⟨_, readMetaData_of_none hm, rfl, rfl⟩
  part input ys hcut e c herr := by
    cases input with
    | nil =>
      obtain ⟨c', hm, -⟩ := h.part (openStream []) [b] rfl nofun rfl (ready_openStream _)
      rw [fuelFor, readMetaData_of_none hm] at herr
      contradiction
    | cons b' input =>
      obtain ⟨rfl, -⟩ := List.cons.inj hcut
      obtain ⟨last, hm⟩ := h.whole (openStream (b :: input)) input rfl (ready_openStream _)
      rw [fuelFor, readMetaData_of_none hm] at herr
      contradiction

end MetaDataReads

/-! ## frames of messages -/

namespace RpcFrame

open FrameReader

/-- The data of a message are its value: an imap, or null for a message not filled in yet. -/
theorem OfMessage.data {frame : RpcFrame} (h : frame.OfMessage) :
    ∃ v : Variant, (v.isValid = false ∨ ∃ m, v = .imap m) ∧
      frame.protocol.write? (.ofVariant v) = some frame.data := by
  obtain ⟨⟨⟨md, v⟩, hshape⟩, hframe⟩ := h.message
  have hv : v.isValid = false ∨ ∃ m, v = .imap m := by
    rcases hshape with hv | hv
    · cases v with
      | imap m => exact .inr ⟨m, rfl⟩
      | _ => contradiction
    · exact .inl hv
  refine ⟨v, hv, ?_⟩
  rw [RpcMessage.toRpcFrame] at hframe
  cases hdata : frame.protocol.write? (.ofVariant v) with
  | none =>
    rw [RpcValue.value, hdata] at hframe
    contradiction
  | some data =>
    rw [RpcValue.value, hdata] at hframe
    exact congrArg (some ∘ RpcFrame.data) (Except.ok.inj hframe)

/-- The bytes of the head, none for a protocol that is none. -/
def headBytes (frame : RpcFrame) : Bytes :=
  match frame.toFrameHead with
  | .ok head => head
  | .error _ => []

theorem OfMessage.toFrameHead {frame : RpcFrame} (h : frame.OfMessage) :
    frame.toFrameHead = .ok frame.headBytes := by
  obtain ⟨v, -, hdata⟩ := h.data
  rw [headBytes, RpcFrame.toFrameHead]
  cases hprotocol : frame.protocol with
  | Invalid =>
    rw [hprotocol] at hdata
    contradiction
  | _ => rfl

/-- The frame as it travels, its metadata being read as `md`. -/
def sentAs (frame : RpcFrame) (md : RpcMetaData) : Sent :=
  ⟨frame.headBytes ++ frame.data, ⟨frame.protocol, md, frame.headBytes.length⟩⟩

theorem frame_sentAs (frame : RpcFrame) (md : RpcMetaData) :
    (frame.sentAs md).frame = ⟨frame.protocol, md, frame.data⟩ := by
  rw [sentAs, Sent.frame, List.drop_left]

/-- The head of a frame is read once its metadata are read in front of its data. -/
theorem headReads_sentAs {frame : RpcFrame} (h : frame.OfMessage) {rd : AbstractStreamReader}
    (hrd : frame.protocol.reader? = some rd) {head : Bytes} {md : RpcMetaData}
    (hhead : frame.protocol.writeMetaData? frame.metaData = some head)
    (hreads : MetaDataReads rd head frame.data md)
    (hid : ∃ rqid, FrameReader.responseId md = .ok rqid) : (frame.sentAs md).HeadReads := by
  have htoHead : frame.toFrameHead = .ok (frame.protocol.toByte :: head) := by
    rw [toFrameHead, hhead]
  have hsent : frame.sentAs md = ⟨frame.protocol.toByte :: (head ++ frame.data),
      ⟨frame.protocol, md, 1 + head.length⟩⟩ := by
    rw [sentAs, headBytes, htoHead, List.cons_append, List.length_cons, Nat.add_comm]
  rw [hsent]
  constructor
  · exact h.size _ (by rw [toFrameData, htoHead]; rfl)
  · obtain ⟨c, hread, hi, hend⟩ := hreads.whole
    have hsize : (head ++ frame.data).length - c.input.length = head.length := by
      rw [hi, List.length_append, Nat.add_sub_cancel]
    rw [readHead, ofByte_toByte]
    simp only [hrd, hread, hend, hsize, Bool.false_eq_true, if_false]
  · intro b rest ys rd' e c hbytes hrd' herr
    obtain ⟨rfl, hcut⟩ := List.cons.inj hbytes
    rw [ofByte_toByte, hrd] at hrd'
    obtain rfl := Option.some.inj hrd'
    exact hreads.part rest ys hcut e c herr
  · exact hid

/-- ChainPack frames arrive with the metadata as they are decoded. -/
theorem headReads_chainPack {frame : RpcFrame} (h : frame.OfMessage)
    (hprotocol : frame.protocol = .ChainPack)
    (hid : ∃ rqid, FrameReader.responseId (ChainPackReader.decodedMetaData frame.metaData) = .ok rqid) :
    (frame.sentAs (ChainPackReader.decodedMetaData frame.metaData)).HeadReads := by
  obtain ⟨v, -, hdata⟩ := h.data
  obtain ⟨b, bs, hcons, hne, -⟩ := ChainPackReader.writeVariant_cons v
  rw [hprotocol] at hdata
  have hdata' : b :: bs = frame.data := hcons.symm.trans (Option.some.inj hdata)
  refine headReads_sentAs h (by rw [hprotocol]; rfl) (by rw [hprotocol]; rfl) ?_ hid
  by_cases hempty : frame.metaData.isEmpty = true
  · rw [RpcMetaData.isEmpty_iff.mp hempty, ← hdata']
    exact MetaDataReads.of_passes (ChainPackReader.passes hne)
  · have henc := ChainPackReader.encodes_writeMetaData frame.metaData h.std h.stds (by simpa using hempty)
    exact MetaDataReads.of_reads (show ProtocolType.ChainPack.reader? = _ from rfl)
      (by rw [← hdata']; exact List.cons_ne_nil _ _) fun n hn => henc.reads ChainPackReader.lawful hn

/-- CPON frames with metadata that the text determines arrive with them as they are decoded. -/
theorem headReads_cpon {frame : RpcFrame} (h : frame.OfMessage)
    (hprotocol : frame.protocol = .Cpon) (hmd : frame.metaData.CponStd)
    (hmds : frame.metaData.Each Variant.CponStd RpcMetaData.CponStd)
    (hid : ∃ rqid, FrameReader.responseId (CponReader.decodedMetaData frame.metaData) = .ok rqid) :
    (frame.sentAs (CponReader.decodedMetaData frame.metaData)).HeadReads := by
  obtain ⟨v, hv, hdata⟩ := h.data
  obtain ⟨b, bs, hcons, hstarts, hne⟩ : ∃ b bs, CponWriter.writeVariant [] 0 v = b :: bs ∧
      CCpon.Starts b ∧ b ≠ CCpon.C_META_BEGIN := by
    rcases hv with hv | ⟨m, rfl⟩
    · cases v with
      | invalid => exact ⟨_, _, rfl, rfl, by decide⟩
      | _ => contradiction
    · exact ⟨0x69, _, rfl, rfl, by decide⟩
  rw [hprotocol] at hdata
  have hdata' : b :: bs = frame.data := hcons.symm.trans (Option.some.inj hdata)
  refine headReads_sentAs h (by rw [hprotocol]; rfl) (by rw [hprotocol]; rfl) ?_ hid
  by_cases hempty : frame.metaData.isEmpty = true
  · rw [RpcMetaData.isEmpty_iff.mp hempty, ← hdata']
    exact MetaDataReads.of_passes (CponReader.passes CponReader.blanks_nil hstarts hne)
  · have henc := @CponReader.encodes_writeMetaData [] (List.forall_mem_nil _) 0 frame.metaData hmd hmds
      (by simpa using hempty) [] CponReader.blanks_nil
    exact MetaDataReads.of_reads (show ProtocolType.Cpon.reader? = _ from rfl)
      (by rw [← hdata']; exact List.cons_ne_nil _ _) fun n hn => henc.reads CponReader.lawful hn

theorem responseId_of_converts {frame : RpcFrame} (h : frame.RequestIdConverts) :
    ∃ rqid, FrameReader.responseId frame.metaData = .ok rqid := by
  rw [FrameReader.responseId]
  by_cases hresponse : frame.metaData.isResponse = true
  · obtain ⟨rqid, hrqid⟩ := h hresponse
    rw [if_pos hresponse, hrqid]
    exact ⟨_, rfl⟩
  · rw [if_neg hresponse]
    exact ⟨_, rfl⟩

/-- The frame of a message with its metadata carried and its request id a number. -/
structure Sendable (frame : RpcFrame) : Prop where
  ofMessage : frame.OfMessage
  carried : frame.MetaDataCarried
  requestId : frame.RequestIdConverts

/-- Such a frame arrives as it is. -/
theorem Sendable.headReads {frame : RpcFrame} (h : frame.Sendable) :
    (frame.sentAs frame.metaData).HeadReads := by
  have hid := responseId_of_converts h.requestId
  have hcarried := h.carried
  have hmsg := h.ofMessage
  rw [MetaDataCarried] at hcarried
  cases hprotocol : frame.protocol with
  | Invalid =>
    rw [hprotocol] at hcarried
    exact hcarried.elim
  | ChainPack =>
    rw [hprotocol] at hcarried
    have hdecoded : ChainPackReader.decodedMetaData frame.metaData = frame.metaData :=
      (mapLeavesMetaData_eq_iff frame.metaData).mpr
        (eachMetaData_imp ChainPackReader.kept_of_packable (fun _ h => h) frame.metaData hcarried)
    have hreads := headReads_chainPack hmsg hprotocol (by rw [hdecoded]; exact hid)
    rw [hdecoded] at hreads
    exact hreads
  | Cpon =>
    rw [hprotocol] at hcarried
    obtain ⟨hmd, hmds, hfit⟩ := hcarried
    have hdecoded : CponReader.decodedMetaData frame.metaData = frame.metaData :=
      (mapLeavesMetaData_eq_iff frame.metaData).mpr
        (eachMetaData_imp (fun v hv => CponReader.kept_of_blobFits hv.1 hv.2) (fun _ _ => trivial)
          frame.metaData (eachMetaData_and frame.metaData hmds hfit))
    have hreads := headReads_cpon hmsg hprotocol hmd hmds (by rw [hdecoded]; exact hid)
    rw [hdecoded] at hreads
    exact hreads

end RpcFrame

/-! ## frames written -/

namespace FrameWriter

/-- The frames of messages all have a head, so that none is left out. -/
theorem addFrames_eq (addFrameData : Bytes → Bytes → Bytes) {frames : List RpcFrame}
    (h : ∀ frame ∈ frames, frame.OfMessage) :
    addFrames addFrameData frames =
      frames.map fun frame => addFrameData frame.headBytes frame.data := by
  have hfold : ∀ out, frames.foldl (addFrame addFrameData) out =
      out ++ frames.map fun frame => addFrameData frame.headBytes frame.data := by
    induction frames with
    | nil => exact fun out => (List.append_nil out).symm
    | cons frame frames ih =>
      intro out
      have hhead : frame.toFrameHead = .ok frame.headBytes := (h frame List.mem_cons_self).toFrameHead
      have hadd : addFrame addFrameData out frame =
          out ++ [addFrameData frame.headBytes frame.data] := by
        rw [addFrame, hhead]
      rw [List.foldl_cons, hadd, ih (fun frame' hframe' => h frame' (List.mem_cons_of_mem _ hframe')),
        List.map_cons, List.append_assoc, List.singleton_append]
  exact hfold []

/-! ### requests -/

/-- The frame of a request. -/
def requestFrame (id : Int64) (protocol : ProtocolType) : RpcFrame :=
  match (RpcFrame.request id).toRpcFrame protocol with
  | .ok frame => frame
  | .error _ => ⟨.Invalid, .empty, []⟩

theorem ofMessage_requestFrame {id : Int64} {protocol : ProtocolType} {bytes : Bytes}
    (hbytes : (requestFrame id protocol).toFrameData = .ok bytes) (hlen : bytes.length < maxSize) :
    (requestFrame id protocol).OfMessage := by
  have hstd := RpcFrame.std_request id
  refine ⟨?_, ?_, ?_, fun bytes' h => ?_⟩
  · cases protocol with
    | Invalid => contradiction
    | _ => exact ⟨RpcFrame.request id, rfl⟩
  · cases protocol with
    | Invalid => contradiction
    | _ => exact hstd.1
  · cases protocol with
    | Invalid => contradiction
    | _ => exact hstd.2.1
  · obtain rfl := Except.ok.inj (hbytes.symm.trans h)
    exact hlen

theorem metaDataCarried_request {id : Int64} (hid : id ≠ Int64.minValue) :
    (requestFrame id .Cpon).MetaDataCarried := by
  have hmd : (requestFrame id .Cpon).metaData =
      .mk [(Tag_MetaTypeId, .ofVariant (.int 1)), (Tag_RequestId, .ofVariant (.int id))] [] := rfl
  have hone : (1 : Int64) ≠ Int64.minValue := by decide
  have hsorted : SortedMap.Sorted
      [(Tag_MetaTypeId, RpcValue.ofVariant (.int 1)), (Tag_RequestId, .ofVariant (.int id))] := by
    simp [Tag_MetaTypeId, Tag_RequestId]
    decide
  have hempty : RpcMetaData.empty.CponStd := ⟨SortedMap.sorted_nil, SortedMap.sorted_nil, List.forall_mem_nil _⟩
  refine ⟨?_, ?_, ?_⟩
  · rw [hmd]
    exact ⟨hsorted, SortedMap.sorted_nil, List.forall_mem_nil _⟩
  · rw [hmd]
    exact ⟨⟨⟨hempty, ⟨trivial, trivial⟩, hone, trivial⟩, ⟨hempty, ⟨trivial, trivial⟩, hid, trivial⟩,
      trivial⟩, trivial⟩
  · rw [hmd]
    exact ⟨⟨⟨trivial, ⟨trivial, trivial⟩, trivial, trivial⟩,
      ⟨trivial, ⟨trivial, trivial⟩, trivial, trivial⟩, trivial⟩, trivial⟩

/-- A request in either format. -/
theorem sendable_requests :
    ∀ frame ∈ [requestFrame 7 .ChainPack, requestFrame 300 .Cpon], frame.Sendable := by
  have hchainPack : (requestFrame 7 .ChainPack).OfMessage := ofMessage_requestFrame rfl (by decide)
  have hcpon : (requestFrame 300 .Cpon).OfMessage := ofMessage_requestFrame rfl (by decide)
  intro frame hframe
  simp only [List.mem_cons, List.not_mem_nil, or_false] at hframe
  rcases hframe with rfl | rfl
  · exact ⟨hchainPack, (RpcFrame.packable_request (by decide)).2.1, fun _ => ⟨_, rfl⟩⟩
  · exact ⟨hcpon, metaDataCarried_request (by decide), fun _ => ⟨_, rfl⟩⟩

/-- A ChainPack request with the least id does not arrive with it. -/
theorem frame_leastId_ne :
    ((requestFrame Int64.minValue .ChainPack).sentAs (ChainPackReader.decodedMetaData
      (requestFrame Int64.minValue .ChainPack).metaData)).frame ≠
        requestFrame Int64.minValue .ChainPack := by
  intro hsame
  rw [RpcFrame.frame_sentAs] at hsame
  obtain ⟨⟨-, ⟨-, -, hkept, -⟩, -⟩, -⟩ :=
    (mapLeavesMetaData_eq_iff _).mp (congrArg RpcFrame.metaData hsame)
  have hmax : Variant.int Int64.maxValue = .int Int64.minValue := hkept
  exact absurd (Variant.int.inj hmax) (by decide)

end FrameWriter

end LibShv
