import LibShv.StreamFrameReader.Lossless

/-!
# LibShv.StreamFrameWriter

`StreamFrameWriter` (`socket.cpp`), and what becomes of the frames of messages on a
stream: the frames whose metadata their protocol carries arrive as they were written,
in whatever pieces the bytes do.
-/

namespace LibShv

open ByteReader

/-- `addFrameData`: a frame with its length before it. -/
def StreamFrameWriter.addFrameData (frameHead frameData : Bytes) : Bytes :=
  packUintData (UInt64.ofNat (frameHead.length + frameData.length)) ++ frameHead ++ frameData

/-! ## from writer to reader -/

namespace StreamFrameReader

open FrameWriter FrameReader StreamFrameWriter

/-- The writer puts the frames on the stream. -/
theorem flatten_addFrames {frames : List RpcFrame} (h : ∀ frame ∈ frames, frame.OfMessage)
    (md : RpcFrame → RpcMetaData) :
    (addFrames addFrameData frames).flatten = wire (frames.map fun frame => frame.sentAs (md frame)) := by
  rw [addFrames_eq addFrameData h, ← List.flatMap_def, wire, List.flatMap_map]
  refine congrArg (List.flatMap · frames) (funext fun frame => ?_)
  rw [addFrameData, lenData, RpcFrame.sentAs, List.length_append, List.append_assoc]

/-- The frames collected are the frames written, in order, and the responses among them are
announced by their request ids. -/
def Lossless (frames : List RpcFrame) : Prop :=
  ∀ chunks : List Bytes, chunks.flatten = (addFrames addFrameData frames).flatten →
    ∀ n > frames.length,
      ∃ s, addAll n init chunks = (s, .ok (frames.flatMap RpcFrame.responseIds)) ∧ s.frames = frames

/-- A new reader waits for the first frame. -/
theorem waits_init (sent : List Sent) : Waits sent (wire sent) init where
  bytes := rfl
  knows := knows_of_none rfl sent
  short f rest _ := by
    have hpos := List.length_pos_iff.mpr (packUintData_ne_nil (UInt64.ofNat f.bytes.length))
    rw [List.length_append]
    exact Nat.lt_of_lt_of_le hpos (Nat.le_add_right _ _)

/-- What the reader collects of frames that the writer wrote. -/
theorem addAll_wire {sent : List Sent} (hsent : ∀ f ∈ sent, f.HeadReads) {chunks : List Bytes}
    (hchunks : chunks.flatten = wire sent) {n : Nat} (hn : sent.length < n) :
    ∃ s, addAll n init chunks = (s, .ok (sent.flatMap Sent.rqids)) ∧
      s.frames = sent.map Sent.frame := by
  obtain ⟨s, ids, hall, hframes, hids⟩ :=
    addAll_sent chunks hsent hn (hchunks ▸ waits_init sent)
  have hnone : announced sent init = [] := announced_of_none rfl sent
  rw [hnone, List.nil_append] at hids
  exact ⟨s, hids ▸ hall, hframes⟩

end StreamFrameReader

end LibShv
