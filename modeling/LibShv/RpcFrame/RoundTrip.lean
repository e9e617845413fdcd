import LibShv.RpcFrame
import LibShv.ChainPack
import LibShv.CponReader.Stable

/-!
# LibShv.RpcFrame.RoundTrip

A frame is read back from its bytes: the metadata the protocol carries exactly,
and after it the data, whatever they are. A message that ChainPack carries
exactly comes back from its frame.
-/

namespace LibShv.RpcFrame

open ByteReader AbstractStreamReader

/-! ## metadata -/

/-- The protocol carries the metadata exactly: what its writer writes is read back as the
metadata, to the last byte and without a look behind it. -/
def Carries (protocol : ProtocolType) (md : RpcMetaData) : Prop :=
  ∃ rd bytes c, protocol.reader? = some rd ∧ protocol.writeMetaData? md = some bytes ∧
    rd.readMetaData (fuelFor bytes.length) (openStream bytes) = .ok md c ∧
    c.input = [] ∧ c.atEnd = false

theorem stable_reader {protocol : ProtocolType} {rd : AbstractStreamReader}
    (h : protocol.reader? = some rd) : Stable rd := by
  cases protocol with
  | Invalid => contradiction
  | ChainPack =>
    obtain rfl := Option.some.inj h
    exact ChainPackReader.stable
  | Cpon =>
    obtain rfl := Option.some.inj h
    exact CponReader.stable

theorem ofByte_toByte (protocol : ProtocolType) : ProtocolType.ofByte protocol.toByte = protocol := by
  cases protocol <;> rfl

/-- The data after the metadata are not looked at. -/
theorem fromFrameData_toFrameData {frame : RpcFrame} (hne : frame.metaData.isEmpty = false)
    (hcarries : Carries frame.protocol frame.metaData) :
    ∃ bytes, frame.toFrameData = .ok bytes ∧ fromFrameData bytes = .ok frame := by
  obtain ⟨protocol, md, data⟩ := frame
  obtain ⟨rd, bytes, c, hrd, hbytes, hread, hinput, hend⟩ := hcarries
  refine ⟨protocol.toByte :: bytes ++ data, ?_, ?_⟩
  · rw [toFrameData, toFrameHead, hbytes]
    rfl
  · obtain ⟨-, hmore⟩ := extends_readMetaData (stable_reader hrd) (fuelFor bytes.length)
      (fuelFor (bytes ++ data).length) (by rw [fuelFor, fuelFor, List.length_append]; omega)
      (openStream bytes) md c hread
    have hread' : rd.readMetaData (fuelFor (bytes ++ data).length) (openStream (bytes ++ data)) =
        .ok md (c.append data) := hmore hend data
    rw [List.cons_append, fromFrameData, ofByte_toByte]
    simp only [hrd, hread', hne, Bool.false_eq_true, false_or, Cursor.append_atEnd, hend, if_false,
      Cursor.append_input, hinput, List.nil_append]

/-- A frame is what is read from its bytes. -/
theorem of_fromFrameData {b : UInt8} {input : Bytes} {frame : RpcFrame}
    (h : fromFrameData (b :: input) = .ok frame) :
    ∃ rd c, (ProtocolType.ofByte b).reader? = some rd ∧
      rd.readMetaData (fuelFor input.length) (openStream input) = .ok frame.metaData c := by
  rw [fromFrameData] at h
  cases hrd : (ProtocolType.ofByte b).reader? with
  | none => simp [hrd] at h
  | some rd =>
    simp only [hrd] at h
    cases hread : rd.readMetaData (fuelFor input.length) (openStream input) with
    | error e c => simp [hread] at h
    | ok md c =>
      simp only [hread] at h
      split at h
      · contradiction
      · obtain rfl := Except.ok.inj h
        exact ⟨rd, c, rfl, hread⟩

/-- The metadata of a ChainPack frame are read back as they are decoded. -/
theorem readMetaData_chainPack {md : RpcMetaData} (hmd : md.Std)
    (hmds : md.Each Variant.Std RpcMetaData.Std) (hne : md.isEmpty = false) :
    ∃ c, ChainPackReader.reader.readMetaData (fuelFor (ChainPackWriter.writeMetaData md).length)
        (openStream (ChainPackWriter.writeMetaData md)) =
      .ok (ChainPackReader.decodedMetaData md) c ∧ c.input = [] ∧ c.atEnd = false := by
  have hread := (ChainPackReader.encodes_writeMetaData md hmd hmds hne).reads
    ChainPackReader.lawful (n := fuelFor (ChainPackWriter.writeMetaData md).length)
    (by rw [fuelFor]; omega)
  obtain ⟨a, c, h, hi, -, rfl, hready⟩ := hread.whole
    (openStream (ChainPackWriter.writeMetaData md)) [] (List.append_nil _).symm
    (fun _ _ => trivial) (ChainPackReader.ready_openStream _)
  have hends := (triple_readMetaData ChainPackReader.progress _
    ((ChainPackWriter.writeMetaData md).length + 1) (by rw [fuelFor]; omega)).of_ok
    ⟨Nat.lt_succ_self _, rfl, ChainPackReader.ready_openStream _⟩ h
  refine ⟨c, h, hi, ?_⟩
  rcases hends with hends | herr
  · exact hends.atEnd
  · exact absurd hready.errNo herr

/-- ChainPack carries metadata when it carries every value in it. -/
theorem carries_chainPack {md : RpcMetaData} (hmd : md.Std)
    (hmds : md.Each Variant.Std RpcMetaData.Std) (hpack : md.Each Variant.Packable fun _ => True)
    (hne : md.isEmpty = false) : Carries .ChainPack md := by
  obtain ⟨c, h, hi, hend⟩ := readMetaData_chainPack hmd hmds hne
  have hdecoded : ChainPackReader.decodedMetaData md = md :=
    (mapLeavesMetaData_eq_iff md).mpr
      (eachMetaData_imp ChainPackReader.kept_of_packable (fun _ h => h) md hpack)
  rw [hdecoded] at h
  exact ⟨_, _, c, rfl, rfl, h, hi, hend⟩

/-! ## messages -/

/-- A value without its metadata. -/
theorem each_ofVariant {P : Variant → Prop} {M : RpcMetaData → Prop} (hM : M .empty)
    {md : RpcMetaData} {v : Variant} (h : (RpcValue.mk md v).Each P M) :
    (RpcValue.ofVariant v).Each P M :=
  ⟨hM, ⟨trivial, trivial⟩, h.2.2.1, h.2.2.2⟩

/-- A message that ChainPack carries exactly comes back from its frame. -/
theorem toRpcMessage_toRpcFrame {msg : RpcMessage} (hvalid : msg.value.isValid = true)
    (hstd : msg.value.Std) (hpack : msg.value.Packable) :
    ∃ frame, msg.toRpcFrame .ChainPack = .ok frame ∧ frame.protocol = .ChainPack ∧
      frame.metaData = msg.value.metaData ∧ frame.toRpcMessage = .ok (msg, "") := by
  obtain ⟨⟨md, v⟩, hshape⟩ := msg
  obtain ⟨c, hread, -⟩ := ChainPackReader.read_write_roundTrip (.ofVariant v)
    (each_ofVariant ⟨SortedMap.sorted_nil, SortedMap.sorted_nil, nofun⟩ hstd)
    (each_ofVariant trivial hpack) []
  rw [List.append_nil] at hread
  have himap : (RpcValue.mk md v).isIMap = true := by
    rcases hshape with h | h
    · exact h
    · rw [hvalid] at h
      contradiction
  refine ⟨⟨.ChainPack, md, ChainPackWriter.write (.ofVariant v)⟩, rfl, rfl, rfl, ?_⟩
  have hdecode : decodeDataErr ChainPackReader.reader (ChainPackWriter.write (.ofVariant v)) =
      .ok (.ofVariant v, "") := by
    have hread' : ChainPackReader.reader.readFrom (ChainPackWriter.write (.ofVariant v)) =
        .ok (.ofVariant v) c := hread
    simp only [decodeDataErr, decodeData, hread']
  have hset : setMetaData (.ofVariant v) md = .ok (.mk md v) := if_pos hvalid
  have hmake : makeRpcMessage (.mk md v) = .ok ⟨.mk md v, hshape⟩ := dif_pos himap
  have hreader : ProtocolType.ChainPack.reader? = some ChainPackReader.reader := rfl
  rw [toRpcMessage, hreader]
  simp only [hdecode, bind, Except.bind, if_true, hset, hmake]
  rfl

/-- A request with an id and no parameters. -/
def request (id : Int64) : RpcMessage :=
  ⟨.mk (.mk [(Tag_MetaTypeId, .ofVariant (.int 1)), (Tag_RequestId, .ofVariant (.int id))] [])
    (.imap []), .inl rfl⟩

theorem std_request (id : Int64) : (request id).value.Std := by
  simp [request, RpcValue.Std, RpcValue.Each, RpcMetaData.Each, Variant.Each, eachMap, eachIMap,
    RpcValue.ofVariant, Variant.Std, RpcMetaData.Std, Tag_MetaTypeId, Tag_RequestId]
  decide

theorem packable_request {id : Int64} (hid : id ≠ Int64.minValue) :
    (request id).value.Packable := by
  simp [request, RpcValue.Packable, RpcValue.Each, RpcMetaData.Each, Variant.Each, eachMap,
    eachIMap, RpcValue.ofVariant, Variant.Packable, hid]
  decide

end LibShv.RpcFrame
