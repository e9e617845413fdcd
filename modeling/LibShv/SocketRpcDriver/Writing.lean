import LibShv.SocketRpcDriver
import LibShv.StreamFrameWriter

/-!
# LibShv.SocketRpcDriver.Writing

The write buffer of `SocketRpcDriver` (`socketrpcdriver.cpp`). A frame goes into it as a whole or
not at all, so that a reader at the other end collects the frames that were taken, in order,
however the socket cuts their bytes.
-/

namespace LibShv

open ByteReader

/-- The members that writing works on; `isOpen` stands for `m_socket`. -/
structure SocketRpcWriter where
  isOpen : Bool
  writeBuffer : Bytes

namespace SocketRpcWriter

/-- `m_maxWriteBufferLength`. -/
def maxWriteBufferLength : Nat := 1024

/-- A connected driver that has written nothing. -/
def init : SocketRpcWriter := ⟨true, []⟩

/-- `flush`, with the number of bytes that `write` takes, 0 for a failure: the bytes that are on
the socket then. -/
def flush (s : SocketRpcWriter) (n : Nat) : SocketRpcWriter × Bytes :=
  ({ s with writeBuffer := s.writeBuffer.drop n }, s.writeBuffer.take n)

/-- `writeFrame`. A frame for which there is no room is left out. -/
def writeFrame (s : SocketRpcWriter) (frame : RpcFrame) (n : Nat) :
    SocketRpcWriter × Except Fault Bytes :=
  if ¬s.isOpen then (s, .ok [])
  else
    match frame.toFrameHead with
    | .error e => (s, .error e)
    | .ok frameHead =>
      let lenData := packUintData (UInt64.ofNat (frameHead.length + frame.data.length))
      if s.writeBuffer.length + lenData.length + frameHead.length + frame.data.length <
          maxWriteBufferLength then
        let (s, bytes) :=
          flush { s with writeBuffer := s.writeBuffer ++ lenData ++ frameHead ++ frame.data } n
        (s, .ok bytes)
      else (s, .ok [])

/-- `closeConnection`; what is in the buffer stays there. -/
def closeConnection (s : SocketRpcWriter) : SocketRpcWriter := { s with isOpen := false }

/-! ## runs on one connection -/

/-- What happens to the buffer, with the number of bytes that `write` takes. -/
inductive Event where
  | writeFrame (frame : RpcFrame) (n : Nat)
  | flush (n : Nat)
  | closeConnection

/-- The bytes that an event puts on the socket. -/
def step (s : SocketRpcWriter) : Event → SocketRpcWriter × Bytes
  | .writeFrame frame n =>
    match s.writeFrame frame n with
    | (s, .ok bytes) => (s, bytes)
    | (s, .error _) => (s, [])
  | .flush n => if s.isOpen then s.flush n else (s, [])
  | .closeConnection => (s.closeConnection, [])

/-- A frame as it goes into the buffer. -/
def encoded (frame : RpcFrame) : Bytes :=
  match frame.toFrameHead with
  | .ok frameHead => StreamFrameWriter.addFrameData frameHead frame.data
  | .error _ => []

/-- A frame is taken that has a head, and for which there is room. -/
def takes (s : SocketRpcWriter) (frame : RpcFrame) : Bool :=
  match frame.toFrameHead with
  | .ok _ => s.isOpen && decide (s.writeBuffer.length + (encoded frame).length < maxWriteBufferLength)
  | .error _ => false

/-- The frames that are taken in a run. -/
def taken (s : SocketRpcWriter) : List Event → List RpcFrame
  | [] => []
  | .writeFrame frame n :: es =>
    if s.takes frame then frame :: taken (s.step (.writeFrame frame n)).1 es
    else taken (s.step (.writeFrame frame n)).1 es
  | e :: es => taken (s.step e).1 es

theorem flush_append (s : SocketRpcWriter) (n : Nat) :
    (s.flush n).2 ++ (s.flush n).1.writeBuffer = s.writeBuffer := List.take_append_drop _ _

theorem length_flush (s : SocketRpcWriter) (n : Nat) :
    (s.flush n).1.writeBuffer.length ≤ s.writeBuffer.length := by
  rw [flush, List.length_drop]
  exact Nat.sub_le _ _

/-- A frame that is taken goes into the buffer as a whole. -/
theorem step_writeFrame_of_takes {s : SocketRpcWriter} {frame : RpcFrame} (h : s.takes frame = true)
    (n : Nat) : s.step (.writeFrame frame n) =
      flush { s with writeBuffer := s.writeBuffer ++ encoded frame } n := by
  rw [takes] at h
  cases hhead : frame.toFrameHead with
  | error e => simp [hhead] at h
  | ok frameHead =>
    simp only [hhead, Bool.and_eq_true, decide_eq_true_eq] at h
    obtain ⟨hopen, hroom⟩ := h
    have hencoded : encoded frame = packUintData (UInt64.ofNat (frameHead.length + frame.data.length)) ++
        frameHead ++ frame.data := by
      rw [encoded, hhead]
      rfl
    rw [hencoded, List.length_append, List.length_append, ← Nat.add_assoc, ← Nat.add_assoc] at hroom
    rw [step, writeFrame, if_neg (not_not_intro hopen), hhead, hencoded]
    simp only [if_pos hroom, List.append_assoc]

/-- Any other is left out as a whole. -/
theorem step_writeFrame_of_not_takes {s : SocketRpcWriter} {frame : RpcFrame}
    (h : s.takes frame = false) (n : Nat) : s.step (.writeFrame frame n) = (s, []) := by
  rw [step, writeFrame]
  by_cases hopen : s.isOpen = true
  · rw [if_neg (not_not_intro hopen)]
    cases hhead : frame.toFrameHead with
    | error e => rfl
    | ok frameHead =>
      have hencoded : encoded frame = packUintData (UInt64.ofNat (frameHead.length + frame.data.length)) ++
          frameHead ++ frame.data := by
        rw [encoded, hhead]
        rfl
      have hroom : ¬s.writeBuffer.length +
          (packUintData (UInt64.ofNat (frameHead.length + frame.data.length))).length +
          frameHead.length + frame.data.length < maxWriteBufferLength := by
        rw [takes, hhead, hencoded] at h
        simpa [hopen, Nat.add_assoc] using h
      simp only [if_neg hroom]
  · rw [if_pos hopen]

/-- What is on the socket and what is in the buffer are the frames taken, one after another. -/
theorem run_append (s : SocketRpcWriter) (events : List Event) :
    (Machine.run step s events).2 ++ (Machine.run step s events).1.writeBuffer =
      s.writeBuffer ++ (taken s events).flatMap encoded := by
  induction events generalizing s with
  | nil => simp [taken]
  | cons e es ih =>
    rw [Machine.run_cons, List.append_assoc, ih, ← List.append_assoc]
    cases e with
    | writeFrame frame n =>
      rw [taken]
      cases htakes : s.takes frame with
      | true =>
        rw [if_pos rfl, step_writeFrame_of_takes htakes, flush_append, List.flatMap_cons,
          List.append_assoc]
      | false => rw [if_neg Bool.false_ne_true, step_writeFrame_of_not_takes htakes, List.nil_append]
    | flush n =>
      have hsame : (s.step (.flush n)).2 ++ (s.step (.flush n)).1.writeBuffer = s.writeBuffer := by
        rw [step]
        split
        · exact flush_append s n
        · rfl
      rw [hsame]
      rfl
    | closeConnection => rfl

/-- The buffer stays below its limit. -/
theorem length_writeBuffer_lt {s : SocketRpcWriter} (h : s.writeBuffer.length < maxWriteBufferLength)
    (events : List Event) :
    (Machine.run step s events).1.writeBuffer.length < maxWriteBufferLength := by
  induction events generalizing s with
  | nil => exact h
  | cons e es ih =>
    rw [Machine.run_cons]
    refine ih ?_
    cases e with
    | writeFrame frame n =>
      cases htakes : s.takes frame with
      | true =>
        rw [step_writeFrame_of_takes htakes]
        refine lt_of_le_of_lt (length_flush _ n) ?_
        rw [takes] at htakes
        split at htakes
        · rw [List.length_append]
          exact of_decide_eq_true ((Bool.and_eq_true _ _).mp htakes).2
        · contradiction
      | false => rwa [step_writeFrame_of_not_takes htakes]
    | flush n =>
      rw [step]
      split
      · exact lt_of_le_of_lt (length_flush s n) h
      · exact h
    | closeConnection => exact h

end SocketRpcWriter

/-! ## the other end -/

namespace StreamFrameReader

open FrameReader

/-- What is collected of the bytes that have come so far. -/
theorem addAll_part (chunks : List Bytes) {todo : List Sent} (hall : ∀ f ∈ todo, f.HeadReads) {n : Nat}
    (hn : todo.length < n) {future : Bytes} {s : StreamFrameReader}
    (hwaits : Waits todo (chunks.flatten ++ future) s) :
    ∃ s' ids done rest, addAll n s chunks = (s', .ok ids) ∧ todo = done ++ rest ∧
      s'.frames = s.frames ++ done.map Sent.frame ∧ Waits rest future s' := by
  induction chunks generalizing todo s with
  | nil => exact ⟨s, [], [], todo, rfl, rfl, (List.append_nil _).symm, hwaits⟩
  | cons data chunks ih =>
    have hbytes : (s.receive data).readBuffer ++ (chunks.flatten ++ future) = wire todo := by
      rw [← hwaits.bytes, List.flatten_cons, List.append_assoc]
      exact List.append_assoc s.readBuffer data (chunks.flatten ++ future)
    obtain ⟨s', ids, done, rest, hloop, rfl, hframes, hwaits', -⟩ :=
      addDataLoop_sent todo hall hn (s := s.receive data) hwaits.knows hbytes
    obtain ⟨s'', ids', done', rest', hmore, rfl, hframes', hwaits''⟩ :=
      ih (fun f hf => hall f (List.mem_append_right _ hf))
        (by rw [List.length_append] at hn; omega) hwaits'
    refine ⟨s'', ids ++ ids', done ++ done', rest', ?_, (List.append_assoc ..).symm, ?_, hwaits''⟩
    · rw [addAll, addData, hloop]
      simp only [hmore]
    · rw [hframes', hframes, List.map_append, List.append_assoc]
      rfl

/-- With all the bytes there nothing is waited for. -/
theorem Waits.eq_nil {todo : List Sent} {s : StreamFrameReader} (h : Waits todo [] s) : todo = [] := by
  cases todo with
  | nil => rfl
  | cons f rest =>
    have hshort := h.short f rest rfl
    have hbytes := congrArg List.length h.bytes
    rw [wire_cons, ← List.append_assoc, List.append_nil, List.length_append] at hbytes
    omega

end StreamFrameReader

namespace SocketRpcWriter

open FrameReader

theorem flatMap_encoded {frames : List RpcFrame} (h : ∀ frame ∈ frames, frame.OfMessage) :
    frames.flatMap encoded =
      StreamFrameReader.wire (frames.map fun frame => frame.sentAs frame.metaData) := by
  rw [← StreamFrameReader.flatten_addFrames h, FrameWriter.addFrames_eq _ h, List.flatMap_def]
  refine congrArg List.flatten (List.map_congr_left fun frame hframe => ?_)
  rw [encoded, (h frame hframe).toFrameHead]

end SocketRpcWriter

end LibShv
