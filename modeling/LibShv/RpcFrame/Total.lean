import LibShv.RpcFrame
import LibShv.ChainPackReader.Total
import LibShv.CponReader.Total

/-!
# LibShv.RpcFrame.Total

When `toRpcMessage` with an `errmsg` reports what is wrong with a frame. The data is
decoded before the metadata is set, and only the `ParseException`s of the reader are
caught: metadata cannot be set to the Invalid value that a container end is read as.
-/

namespace LibShv.RpcFrame

open ByteReader AbstractStreamReader

/-! ## the fault that is none -/

/-- The recursion bound of the readers is never reached. -/
theorem decodeData_ne_outOfFuel {protocol : ProtocolType} {rd : AbstractStreamReader}
    (h : protocol.reader? = some rd) (data : Bytes) : decodeData rd data ≠ .error .outOfFuel := by
  have hread : ∀ c, rd.readFrom data ≠ .error .outOfFuel c := by
    cases protocol with
    | Invalid => contradiction
    | ChainPack =>
      obtain rfl := Option.some.inj h
      exact read_ne_outOfFuel ChainPackReader.progress rfl data
    | Cpon =>
      obtain rfl := Option.some.inj h
      exact read_ne_outOfFuel CponReader.progress trivial data
  rw [decodeData]
  cases hr : rd.readFrom data with
  | ok v c => nofun
  | error e c =>
    rintro ⟨⟩
    exact hread c hr

/-! ## what is reported -/

/-- The message is valid, or else there is an error text; nothing is thrown. -/
def Reported (frame : RpcFrame) : Prop :=
  ∃ msg errmsg, frame.toRpcMessage = .ok (msg, errmsg) ∧ (msg.value.isValid = true ↔ errmsg = "")

/-- The data decodes to a valid value or fails with a parse error. -/
def Decodable (rd : AbstractStreamReader) (data : Bytes) : Prop :=
  match decodeData rd data with
  | .ok val => val.isValid = true
  | .error e => e.IsParse

theorem what_parse_ne_empty (errNo : ErrNo) (msg : String) : what (.parse errNo msg) ≠ "" := by
  intro h
  have hlen := congrArg String.length h
  rw [what, String.length_append] at hlen
  exact absurd hlen (by simp)

theorem isValid_of_isIMap {v : RpcValue} (h : v.isIMap = true) : v.isValid = true := by
  rw [RpcValue.isIMap] at h
  rw [RpcValue.isValid]
  cases hv : v.value with
  | invalid =>
    rw [hv] at h
    contradiction
  | _ => rfl

/-- An IMap is a message, for any other value there is a text. -/
theorem makeRpcMessage_cases (val : RpcValue) :
    (∃ msg, makeRpcMessage val = .ok msg ∧ msg.value.isValid = true) ∨
      makeRpcMessage val = .error (.runtime "Value is not IMap") := by
  rw [makeRpcMessage]
  by_cases h : val.isIMap = true
  · rw [dif_pos h]
    exact .inl ⟨_, rfl, isValid_of_isIMap h⟩
  · rw [dif_neg h]
    exact .inr rfl

/-- `toRpcMessage` once the data is decoded. -/
theorem toRpcMessage_of_ok {frame : RpcFrame} {rd : AbstractStreamReader} {val : RpcValue}
    (hrd : frame.protocol.reader? = some rd) (h : decodeData rd frame.data = .ok val) :
    frame.toRpcMessage = (do
      match makeRpcMessage (← setMetaData val frame.metaData) with
      | .ok msg => return (msg, "")
      | .error e => return (.empty, what e)) := by
  have herr : decodeDataErr rd frame.data = .ok (val, "") := by rw [decodeDataErr, h]
  rw [toRpcMessage, hrd]
  simp only [herr]
  rfl

/-- A message without a text in `errmsg` is made of the data and the metadata. -/
theorem toRpcMessage_eq_ok {frame : RpcFrame} {msg : RpcMessage}
    (h : frame.toRpcMessage = .ok (msg, "")) :
    ∃ rd val val', frame.protocol.reader? = some rd ∧ decodeData rd frame.data = .ok val ∧
      setMetaData val frame.metaData = .ok val' ∧ makeRpcMessage val' = .ok msg := by
  unfold toRpcMessage at h
  cases hrd : frame.protocol.reader? with
  | none =>
    rw [hrd] at h
    have htext : what invalidProtocol = "" := congrArg Prod.snd (Except.ok.inj h)
    exact absurd htext (by decide)
  | some rd =>
    simp only [hrd, decodeDataErr] at h
    cases hdata : decodeData rd frame.data with
    | error e =>
      cases e with
      | parse errNo text =>
        simp only [hdata, bind, Except.bind, what_parse_ne_empty] at h
        exact absurd (congrArg Prod.snd (Except.ok.inj h)) (what_parse_ne_empty errNo text)
      | _ => simp [hdata, bind, Except.bind] at h
    | ok val =>
      simp only [hdata, bind, Except.bind, if_true] at h
      cases hset : setMetaData val frame.metaData with
      | error e => simp [hset] at h
      | ok val' =>
        simp only [hset] at h
        obtain ⟨msg', hmake, -⟩ | hmake := makeRpcMessage_cases val'
        · simp only [hmake, pure, Except.pure] at h
          obtain rfl : msg' = msg := congrArg Prod.fst (Except.ok.inj h)
          exact ⟨rd, val, val', rfl, hdata, hset, hmake⟩
        · simp only [hmake, pure, Except.pure] at h
          have htext : "Value is not IMap" = "" := congrArg Prod.snd (Except.ok.inj h)
          exact absurd htext (by decide)

/-- Without an `errmsg` the same message is returned. -/
theorem toRpcMessageThrow_of_toRpcMessage {frame : RpcFrame} {msg : RpcMessage}
    (h : frame.toRpcMessage = .ok (msg, "")) : frame.toRpcMessageThrow = .ok msg := by
  obtain ⟨rd, val, val', hrd, hdata, hset, hmake⟩ := toRpcMessage_eq_ok h
  simp [toRpcMessageThrow, hrd, hdata, bind, Except.bind, hset, hmake, pure, Except.pure]

theorem metaData_of_toRpcMessage {frame : RpcFrame} {msg : RpcMessage}
    (h : frame.toRpcMessage = .ok (msg, "")) : msg.value.metaData = frame.metaData := by
  obtain ⟨rd, val, val', -, -, hset, hmake⟩ := toRpcMessage_eq_ok h
  rw [makeRpcMessage] at hmake
  split at hmake
  · obtain rfl := Except.ok.inj hmake
    rw [setMetaData] at hset
    split at hset
    · exact (congrArg RpcValue.metaData (Except.ok.inj hset)).symm
    · contradiction
  · contradiction

theorem reported_of_invalidProtocol {frame : RpcFrame} (h : frame.protocol.reader? = none) :
    frame.Reported := by
  have hmsg : frame.toRpcMessage = .ok (.empty, "Invalid protocol type") := by
    rw [toRpcMessage, h]
    rfl
  exact ⟨_, _, hmsg, iff_of_false (by decide) (by decide)⟩

theorem reported_of_valid {frame : RpcFrame} {rd : AbstractStreamReader} {val : RpcValue}
    (hrd : frame.protocol.reader? = some rd) (h : decodeData rd frame.data = .ok val)
    (hval : val.isValid = true) : frame.Reported := by
  have hmeta : setMetaData val frame.metaData = .ok (val.setMetaData frame.metaData) := if_pos hval
  have hmsg := toRpcMessage_of_ok hrd h
  simp only [hmeta, bind, Except.bind] at hmsg
  rcases makeRpcMessage_cases (val.setMetaData frame.metaData) with ⟨msg, hmake, hvalid⟩ | hmake
  · rw [hmake] at hmsg
    exact ⟨msg, "", hmsg, iff_of_true hvalid rfl⟩
  · rw [hmake] at hmsg
    exact ⟨.empty, _, hmsg, iff_of_false (by decide) (by decide)⟩

/-- Metadata cannot be set to an Invalid value, and nothing catches what is thrown. -/
theorem not_reported_of_invalid {frame : RpcFrame} {rd : AbstractStreamReader} {val : RpcValue}
    (hrd : frame.protocol.reader? = some rd) (h : decodeData rd frame.data = .ok val)
    (hval : val.isValid ≠ true) : ¬frame.Reported := by
  rintro ⟨msg, errmsg, hmsg, -⟩
  have hmeta : setMetaData val frame.metaData =
      .error (.runtime "Cannot set valid meta data to invalid ChainPack value!") := if_neg hval
  rw [toRpcMessage_of_ok hrd h] at hmsg
  simp only [hmeta, bind, Except.bind] at hmsg
  contradiction

/-- A parse error ends up in `errmsg`, any other one escapes. -/
theorem reported_iff_of_error {frame : RpcFrame} {rd : AbstractStreamReader} {e : Fault}
    (hrd : frame.protocol.reader? = some rd) (h : decodeData rd frame.data = .error e) :
    frame.Reported ↔ e.IsParse := by
  cases e with
  | parse errNo msg =>
    have herr : decodeDataErr rd frame.data = .ok (.invalid, what (.parse errNo msg)) := by
      rw [decodeDataErr, h]
    have hmsg : frame.toRpcMessage = .ok (.empty, what (.parse errNo msg)) := by
      rw [toRpcMessage, hrd]
      simp only [herr, bind, Except.bind, what_parse_ne_empty, if_false]
      rfl
    exact iff_of_true
      ⟨_, _, hmsg, iff_of_false (by decide) (what_parse_ne_empty errNo msg)⟩ trivial
  | _ =>
    refine iff_of_false ?_ id
    rintro ⟨msg, errmsg, hmsg, -⟩
    rw [toRpcMessage, hrd] at hmsg
    simp only [decodeDataErr, h, bind, Except.bind] at hmsg
    contradiction

/-- A frame is reported whatever its metadata if its data decodes to a valid value or fails
with a parse error, and only then; the recursion bound of the model has no part in it. -/
theorem reported_iff (frame : RpcFrame) :
    (∀ rd ∈ frame.protocol.reader?, decodeData rd frame.data ≠ .error .outOfFuel) ∧
      (frame.Reported ↔ ∀ rd ∈ frame.protocol.reader?, Decodable rd frame.data) := by
  refine ⟨fun rd hrd => decodeData_ne_outOfFuel hrd frame.data, ?_⟩
  cases hrd : frame.protocol.reader? with
  | none => exact iff_of_true (reported_of_invalidProtocol hrd) nofun
  | some rd =>
    have hone : (∀ rd' ∈ some rd, Decodable rd' frame.data) ↔ Decodable rd frame.data :=
      ⟨fun h => h rd rfl, by rintro h _ ⟨⟩; exact h⟩
    rw [hone, Decodable]
    cases h : decodeData rd frame.data with
    | error e => exact reported_iff_of_error hrd h
    | ok val =>
      by_cases hval : val.isValid = true
      · exact iff_of_true (reported_of_valid hrd h hval) hval
      · exact iff_of_false (not_reported_of_invalid hrd h hval) hval

/-! ## a container end as data -/

/-- A container end alone is read as an Invalid value. -/
theorem decodeData_containerEnd :
    decodeData ChainPackReader.reader [CP_TERM] = .ok .invalid := by
  have hmeta : ChainPackReader.reader.metaDataBegin (openStream [CP_TERM]) =
      .ok false { openStream [CP_TERM] with last := CP_TERM } :=
    (ChainPackReader.metaDataBegin_cons rfl).trans (by rw [if_neg (by decide)]; rfl)
  obtain ⟨u, c, hnext, -, -, hitem, -⟩ := @consumes_next_containerEnd Any
    { openStream [CP_TERM] with last := CP_TERM } [] rfl (fun _ _ => trivial) ⟨rfl, trivial⟩
  have hread : ChainPackReader.reader.readFrom [CP_TERM] = .ok .invalid c := by
    have hmd : ChainPackReader.reader.readMetaData (5 + 1) (openStream [CP_TERM]) =
        .ok .empty { openStream [CP_TERM] with last := CP_TERM } := by
      rw [readMetaData, bind_of_ok hmeta]
      rfl
    have hitem' : ChainPackReader.reader.unpackNext { openStream [CP_TERM] with last := CP_TERM } =
        .ok .containerEnd c := by
      rw [← hitem]
      exact bind_of_ok hnext
    change ChainPackReader.reader.read (6 + 1) (openStream [CP_TERM]) = _
    rw [AbstractStreamReader.read, bind_of_ok hmd, bind_of_ok hitem']
    rfl
  rw [decodeData, hread]

/-- A frame with such data lets the exception of `setMetaData` escape. -/
theorem not_reported : ¬∀ frame : RpcFrame, frame.Reported := fun hall =>
  @not_reported_of_invalid ⟨.ChainPack, .empty, [CP_TERM]⟩ _ _ rfl decodeData_containerEnd
    (by decide) (hall _)

end LibShv.RpcFrame
