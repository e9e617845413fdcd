import LibShv.RpcFrame.RoundTrip

/-!
# LibShv.FrameReader

`FrameReader` (`socket.cpp`): what the readers of frames have in common. The head
of a frame, its protocol and metadata, is read as soon as it is complete, so that
the arrival of a response is known before its data are.
-/

namespace LibShv

open ByteReader AbstractStreamReader

/-- `FrameReader`; `metaData` stands for `m_meta`. -/
structure FrameReader where
  frames : List RpcFrame
  protocol : ProtocolType
  metaData : RpcMetaData
  dataStart : Option Nat

namespace FrameReader

/-- A reader as it is made, and after `resetCommunication`. -/
def init : FrameReader := ⟨[], .Invalid, .empty, none⟩

/-- The request id of a response, if it is positive. -/
def responseId (md : RpcMetaData) : Except Fault Int64 :=
  if md.isResponse then
    match md.requestId.toInt64 with
    | .ok rqid => .ok (if 0 < rqid then rqid else 0)
    | .error e => .error (.runtime e)
  else .ok 0

/-- `tryToReadMeta` on a stream that stands at `pos` with `input` before it. What a parse
error leaves in `m_meta` is never used, and left out. -/
def tryToReadMeta (s : FrameReader) (pos : Nat) (input : Bytes) :
    FrameReader × Except Fault Int64 :=
  if s.dataStart.isSome then (s, .ok 0)
  else
    match input with
    | [] => (s, .ok 0)
    | b :: input =>
      match (ProtocolType.ofByte b).reader? with
      | none => (s, .ok 0)
      | some rd =>
        let s := { s with protocol := .ofByte b, metaData := .empty }
        match rd.readMetaData (fuelFor input.length) (openStream input) with
        | .error (.parse _ _) _ => (s, .ok 0)
        | .error e _ => (s, .error e)
        | .ok md c =>
          let s := { s with metaData := md }
          -- `readCount` is negative: the metadata end at the end of the stream only
          if c.atEnd then (s, .ok 0)
          else
            let dataStart := pos + (1 + (input.length - c.input.length))
            ({ s with dataStart := some dataStart }, responseId md)

/-! ## the head of a frame -/

/-- The head of a frame and the number of its bytes. -/
structure Head where
  protocol : ProtocolType
  metaData : RpcMetaData
  size : Nat

/-- The head the bytes begin with, if they hold all of it. -/
def readHead : Bytes → Option Head
  | [] => none
  | b :: input =>
    match (ProtocolType.ofByte b).reader? with
    | none => none
    | some rd =>
      match rd.readMetaData (fuelFor input.length) (openStream input) with
      | .error _ _ => none
      | .ok md c =>
        if c.atEnd then none else some ⟨.ofByte b, md, 1 + (input.length - c.input.length)⟩

/-- The parts of a head that was read. -/
theorem of_readHead {bytes : Bytes} {head : Head} (h : readHead bytes = some head) :
    ∃ b input rd c, bytes = b :: input ∧ (ProtocolType.ofByte b).reader? = some rd ∧
      rd.readMetaData (fuelFor input.length) (openStream input) = .ok head.metaData c ∧
      c.atEnd = false ∧ head.protocol = .ofByte b ∧
      head.size = 1 + (input.length - c.input.length) := by
  cases bytes with
  | nil => simp [readHead] at h
  | cons b input =>
    rw [readHead] at h
    cases hrd : (ProtocolType.ofByte b).reader? with
    | none => simp [hrd] at h
    | some rd =>
      simp only [hrd] at h
      cases hread : rd.readMetaData (fuelFor input.length) (openStream input) with
      | error e c => simp [hread] at h
      | ok md c =>
        simp only [hread] at h
        cases hend : c.atEnd with
        | true => simp [hend] at h
        | false =>
          simp only [hend, Bool.false_eq_true, if_false, Option.some.injEq] at h
          subst h
          exact ⟨b, input, rd, c, rfl, hrd, hread, hend, rfl, rfl⟩

/-- A head that is complete is not read further. -/
theorem readHead_append {bytes : Bytes} {head : Head} (h : readHead bytes = some head)
    (ys : Bytes) : readHead (bytes ++ ys) = some head := by
  obtain ⟨b, input, rd, c, rfl, hrd, hread, hend, hprotocol, hsize⟩ := of_readHead h
  obtain ⟨-, hmore⟩ := extends_readMetaData (RpcFrame.stable_reader hrd) (fuelFor input.length)
    (fuelFor (input ++ ys).length) (by rw [fuelFor, fuelFor, List.length_append]; omega)
    (openStream input) head.metaData c hread
  have hread' : rd.readMetaData (fuelFor (input ++ ys).length) (openStream (input ++ ys)) =
      .ok head.metaData (c.append ys) := hmore hend ys
  have hlen : (input ++ ys).length - (c.append ys).input.length = input.length - c.input.length := by
    rw [Cursor.append_input, List.length_append, List.length_append]
    omega
  rw [List.cons_append, readHead]
  simp only [hrd, hread', Cursor.append_atEnd, hend, Bool.false_eq_true, if_false, hlen]
  rw [← hsize, ← hprotocol]

theorem size_le_of_readHead {bytes : Bytes} {head : Head} (h : readHead bytes = some head) :
    head.size ≤ bytes.length := by
  obtain ⟨b, input, rd, c, rfl, -, -, -, -, hsize⟩ := of_readHead h
  rw [hsize, List.length_cons]
  omega

/-- The head is read once, when all of it is there. -/
theorem tryToReadMeta_cases (s : FrameReader) (pos : Nat) (input : Bytes) :
    (s.tryToReadMeta pos input).1 = s ∨
      s.dataStart = none ∧ (s.tryToReadMeta pos input).1.frames = s.frames ∧
        ((s.tryToReadMeta pos input).1.dataStart = none ∨
          ∃ head, readHead input = some head ∧
            (s.tryToReadMeta pos input).1 =
              ⟨s.frames, head.protocol, head.metaData, some (pos + head.size)⟩) := by
  simp only [tryToReadMeta]
  cases hstart : s.dataStart with
  | some dataStart => simp
  | none =>
    simp only [Option.isSome_none, Bool.false_eq_true, if_false]
    cases input with
    | nil => simp
    | cons b input =>
      simp only [readHead]
      cases hrd : (ProtocolType.ofByte b).reader? with
      | none => simp
      | some rd =>
        cases hread : rd.readMetaData (fuelFor input.length) (openStream input) with
        | error e c => cases e <;> simp [hread]
        | ok md c => cases hend : c.atEnd <;> simp [hread, hend]

/-- A head that is there is read, with the request id of its response. -/
theorem tryToReadMeta_of_readHead {s : FrameReader} {input : Bytes} {head : Head}
    (hstart : s.dataStart = none) (h : readHead input = some head) (pos : Nat) :
    s.tryToReadMeta pos input =
      (⟨s.frames, head.protocol, head.metaData, some (pos + head.size)⟩,
        responseId head.metaData) := by
  obtain ⟨b, input, rd, c, rfl, hrd, hread, hend, hprotocol, hsize⟩ := of_readHead h
  simp only [tryToReadMeta, hstart, Option.isSome_none, Bool.false_eq_true, if_false, hrd, hread,
    hend, hprotocol, hsize]

/-- While a head is not there nothing is read, if the bytes fail with a parse error at most. -/
theorem tryToReadMeta_of_none {s : FrameReader} {input : Bytes} (hstart : s.dataStart = none)
    (h : readHead input = none) (pos : Nat)
    (hquiet : ∀ b rest rd e c, input = b :: rest → (ProtocolType.ofByte b).reader? = some rd →
      rd.readMetaData (fuelFor rest.length) (openStream rest) = .error e c → e.IsParse) :
    ∃ s', s.tryToReadMeta pos input = (s', .ok 0) ∧ s'.dataStart = none ∧ s'.frames = s.frames := by
  simp only [tryToReadMeta, hstart, Option.isSome_none, Bool.false_eq_true, if_false]
  cases input with
  | nil => exact ⟨s, rfl, hstart, rfl⟩
  | cons b rest =>
    cases hrd : (ProtocolType.ofByte b).reader? with
    | none => exact ⟨s, by simp only [hrd], hstart, rfl⟩
    | some rd =>
      cases hread : rd.readMetaData (fuelFor rest.length) (openStream rest) with
      | error e c =>
        cases e with
        | parse errNo msg =>
          simp only [hrd, hread]
          exact ⟨_, rfl, rfl, rfl⟩
        | _ => exact (hquiet b rest rd _ c rfl hrd hread).elim
      | ok md c =>
        cases hend : c.atEnd with
        | true =>
          simp only [hrd, hread, hend, if_true]
          exact ⟨_, rfl, rfl, rfl⟩
        | false => simp [readHead, hrd, hread, hend] at h

end FrameReader

end LibShv
