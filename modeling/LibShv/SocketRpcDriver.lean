import LibShv.CChainPack.Integers
import LibShv.Lib.Machine

/-!
# LibShv.SocketRpcDriver

The read loop of `SocketRpcDriver::exec` (`socketrpcdriver.cpp`).

`m_readFrameSize` is zero while a length is expected. The loop sets it when it
has parsed a length and does not reset it when it has delivered the frame, so
the first length is used for everything that follows.
-/

namespace LibShv

open ByteReader

/-- The members the read loop works on; `isOpen` stands for `m_socket`. -/
structure SocketRpcDriver where
  isOpen : Bool
  readBuffer : Bytes
  readFrameSize : UInt64
deriving DecidableEq

namespace SocketRpcDriver

/-- A connected driver that has read nothing. -/
def init : SocketRpcDriver := ⟨true, [], 0⟩

/-- The first part of the loop body: parse a length if none is known. The flag
says whether the loop goes on. -/
def readLength (s : SocketRpcDriver) : SocketRpcDriver × Bool :=
  if s.readFrameSize = 0 then
    match unpackUint (openStream s.readBuffer) with
    | .ok (frameSize, _) c => ({ s with readBuffer := c.input, readFrameSize := frameSize }, true)
    | .error (.parse .bufferUnderflow _) _ => (s, false)
    | .error _ _ => ({ s with readBuffer := [], readFrameSize := 0 }, false)
  else (s, true)

/-- The second part: deliver a complete frame. -/
def takeFrame (s : SocketRpcDriver) : SocketRpcDriver × List Bytes :=
  let n := s.readFrameSize.toNat
  if 0 < n ∧ n ≤ s.readBuffer.length then
    ({ s with readBuffer := s.readBuffer.drop n }, [s.readBuffer.take n])
  else (s, [])

/-- The loop over the read buffer, with the frames handed to `onFrameDataRead`.
Every round but the last takes a frame from the buffer. -/
def frameLoop : Nat → SocketRpcDriver → SocketRpcDriver × List Bytes
  | 0, s => (s, [])
  | n + 1, s =>
    match s.readLength with
    | (s, false) => (s, [])
    | (s, true) =>
      let (s, frame) := s.takeFrame
      if s.readFrameSize = 0 ∨ s.readBuffer.length < s.readFrameSize.toNat then (s, frame)
      else
        let (s, frames) := frameLoop n s
        (s, frame ++ frames)

/-- One `read` of `exec`; no bytes close the connection, and `exec` returns. -/
def onRead (s : SocketRpcDriver) (data : Bytes) : SocketRpcDriver × List Bytes :=
  if ¬ s.isOpen then (s, [])
  else if data = [] then ({ s with isOpen := false }, [])
  else
    let s := { s with readBuffer := s.readBuffer ++ data }
    frameLoop (s.readBuffer.length + 1) s

/-- `exec`, given what the reads of the socket return. -/
def exec (reads : List Bytes) : SocketRpcDriver × List Bytes := Machine.run onRead init reads

/-- A frame as it is sent: a length and that many bytes. -/
def encodeFrame (frame : Bytes) : Bytes := packUintData (UInt64.ofNat frame.length) ++ frame

/-! ## one round of the loop -/

theorem readLength_of_ne {s : SocketRpcDriver} (h : s.readFrameSize ≠ 0) :
    s.readLength = (s, true) :=
  if_neg h

theorem readLength_whole {s : SocketRpcDriver} (h : s.readFrameSize = 0) {num : UInt64}
    {rest : Bytes} (hb : s.readBuffer = packUintData num ++ rest) :
    s.readLength = ({ s with readBuffer := rest, readFrameSize := num }, true) := by
  obtain ⟨bitlen, c, hc, rfl⟩ := unpackUint_whole num rest
  rw [readLength, if_pos h, hb, hc]

theorem readLength_part {s : SocketRpcDriver} (h : s.readFrameSize = 0) {num : UInt64}
    {ys : Bytes} (hb : packUintData num = s.readBuffer ++ ys) (hys : ys ≠ []) :
    s.readLength = (s, false) := by
  obtain ⟨c, hc⟩ := unpackUint_part hb hys
  rw [readLength, if_pos h, hc]

/-! ## cutting the buffer -/

/-- What the loop does with a buffer once the size is known: it cuts it into
pieces of that size and leaves less than a piece. -/
structure Cuts (k : Nat) (s s' : SocketRpcDriver) (frames : List Bytes) : Prop where
  isOpen : s'.isOpen = s.isOpen
  readFrameSize : s'.readFrameSize = s.readFrameSize
  bytes : frames.flatten ++ s'.readBuffer = s.readBuffer
  length : ∀ f ∈ frames, f.length = k
  short : s'.readBuffer.length < k

theorem cuts_frameLoop {k : Nat} (hk : 0 < k) {n : Nat} {s : SocketRpcDriver}
    (hs : s.readFrameSize.toNat = k) (hn : s.readBuffer.length < n) :
    Cuts k s (frameLoop n s).1 (frameLoop n s).2 := by
  induction n generalizing s with
  | zero => omega
  | succ n ih =>
    have hne : s.readFrameSize ≠ 0 := by
      intro h
      rw [h] at hs
      have h0 : (0 : UInt64).toNat = 0 := rfl
      omega
    rw [frameLoop, readLength_of_ne hne]
    by_cases hle : k ≤ s.readBuffer.length
    · have htake : s.takeFrame =
          ({ s with readBuffer := s.readBuffer.drop k }, [s.readBuffer.take k]) := by
        rw [takeFrame, hs, if_pos ⟨hk, hle⟩]
      have hlen : (s.readBuffer.drop k).length = s.readBuffer.length - k := List.length_drop
      have htaken : (s.readBuffer.take k).length = k := by
        rw [List.length_take]
        omega
      simp only [htake]
      by_cases hend : (s.readBuffer.drop k).length < s.readFrameSize.toNat
      · rw [if_pos (.inr hend)]
        refine ⟨rfl, rfl, by simp, by simpa using htaken, ?_⟩
        rwa [hs] at hend
      · rw [if_neg (fun h => h.elim hne hend)]
        have h := ih (s := { s with readBuffer := s.readBuffer.drop k }) hs (by simp only; omega)
        refine ⟨h.isOpen, h.readFrameSize, ?_, ?_, h.short⟩
        · have hb := h.bytes
          simp only [List.cons_append, List.nil_append, List.flatten_cons, List.append_assoc]
          rw [hb, List.take_append_drop]
        · intro f hf
          rcases List.mem_append.mp hf with hf | hf
          · rw [List.mem_singleton.mp hf, htaken]
          · exact h.length f hf
    · have htake : s.takeFrame = (s, []) := by
        rw [takeFrame, hs, if_neg fun h => hle h.2]
      have hend : s.readBuffer.length < s.readFrameSize.toNat := by omega
      simp only [htake]
      rw [if_pos (.inr hend)]
      exact ⟨rfl, rfl, rfl, nofun, hs ▸ hend⟩

/-- The same with the length still in front. -/
theorem frameLoop_whole {s : SocketRpcDriver} (h : s.readFrameSize = 0) {num : UInt64}
    (hnum : num ≠ 0) {rest : Bytes} (hb : s.readBuffer = packUintData num ++ rest) (n : Nat) :
    frameLoop (n + 1) s = frameLoop (n + 1) { s with readBuffer := rest, readFrameSize := num } := by
  rw [frameLoop, frameLoop, readLength_whole h hb, readLength_of_ne hnum]

theorem frameLoop_part {s : SocketRpcDriver} (h : s.readFrameSize = 0) {num : UInt64}
    {ys : Bytes} (hb : packUintData num = s.readBuffer ++ ys) (hys : ys ≠ []) (n : Nat) :
    frameLoop (n + 1) s = (s, []) := by
  rw [frameLoop, readLength_part h hb hys]

/-! ## a whole run -/

theorem length_toNat {f : Bytes} (h : f.length < maxSize) :
    (UInt64.ofNat f.length).toNat = f.length := by
  rw [UInt64.toNat_ofNat']
  exact Nat.mod_eq_of_lt (Nat.lt_trans h (by decide))

/-- After some reads of a stream that starts with the length of `f`: the length
is incomplete, or it is known and everything behind it is cut by it. -/
inductive Progress (f : Bytes) (reads frames : List Bytes) (s : SocketRpcDriver) : Prop where
  | length (ys : Bytes) (hsize : s.readFrameSize = 0) (hframes : frames = [])
      (hbuffer : s.readBuffer = reads.flatten) (hys : ys ≠ [])
      (hpart : packUintData (UInt64.ofNat f.length) = reads.flatten ++ ys)
  | frames (hsize : s.readFrameSize = UInt64.ofNat f.length)
      (hbytes : packUintData (UInt64.ofNat f.length) ++ (frames.flatten ++ s.readBuffer) =
        reads.flatten)
      (hlength : ∀ g ∈ frames, g.length = f.length) (hshort : s.readBuffer.length < f.length)

/-- The bytes behind the length are cut. -/
theorem progress_of_cuts {f : Bytes} {reads frames more : List Bytes} {s s' : SocketRpcDriver}
    (h : Cuts f.length s s' more) (hsize : s.readFrameSize = UInt64.ofNat f.length)
    (hlength : ∀ g ∈ frames, g.length = f.length)
    (hbytes : packUintData (UInt64.ofNat f.length) ++ (frames.flatten ++ s.readBuffer) =
      reads.flatten) : Progress f reads (frames ++ more) s' := by
  refine .frames (h.readFrameSize.trans hsize) ?_ ?_ h.short
  · rw [← hbytes, ← h.bytes, List.flatten_append, List.append_assoc]
  · intro g hg
    exact (List.mem_append.mp hg).elim (hlength g) (h.length g)

section Stream

variable {f : Bytes} (hf : f ≠ []) (hmax : f.length < maxSize)

include hf hmax

/-- The loop while the length is expected: it may have become complete. -/
theorem progress_frameLoop {reads : List Bytes} {s : SocketRpcDriver}
    (hsize : s.readFrameSize = 0) (hbuffer : s.readBuffer = reads.flatten)
    (hstream : ∃ more post, encodeFrame f ++ more = reads.flatten ++ post) :
    (frameLoop (s.readBuffer.length + 1) s).1.isOpen = s.isOpen ∧
      Progress f reads (frameLoop (s.readBuffer.length + 1) s).2
        (frameLoop (s.readBuffer.length + 1) s).1 := by
  have hpos : 0 < f.length := List.length_pos_iff.mpr hf
  have hlen := length_toNat hmax
  have hnum : UInt64.ofNat f.length ≠ 0 := by
    intro h
    rw [h] at hlen
    have h0 : (0 : UInt64).toNat = 0 := rfl
    omega
  have hwhole : ∀ rest, reads.flatten = packUintData (UInt64.ofNat f.length) ++ rest →
      (frameLoop (s.readBuffer.length + 1) s).1.isOpen = s.isOpen ∧
        Progress f reads (frameLoop (s.readBuffer.length + 1) s).2
          (frameLoop (s.readBuffer.length + 1) s).1 := by
    intro rest hrest
    have hb := hbuffer.trans hrest
    have hle : rest.length < s.readBuffer.length + 1 := by
      rw [hb, List.length_append]
      omega
    rw [frameLoop_whole hsize hnum hb]
    have hcuts := cuts_frameLoop hpos
      (s := { s with readBuffer := rest, readFrameSize := UInt64.ofNat f.length }) hlen hle
    exact ⟨hcuts.isOpen, @progress_of_cuts f reads [] _ _ _ hcuts rfl nofun hrest.symm⟩
  obtain ⟨more, post, hmore⟩ := hstream
  rw [encodeFrame, List.append_assoc] at hmore
  rcases append_cut hmore with ⟨ys, hnil, hys, -⟩ | ⟨rest, hrest, -⟩
  · rw [frameLoop_part hsize (hbuffer ▸ hys) hnil]
    exact ⟨rfl, .length ys hsize rfl hbuffer hnil hys⟩
  · exact hwhole rest hrest

/-- One more read. -/
theorem progress_onRead {reads frames : List Bytes} {s : SocketRpcDriver} {data : Bytes}
    (hopen : s.isOpen = true) (hdata : data ≠ [])
    (hstream : ∃ more post, encodeFrame f ++ more = (reads ++ [data]).flatten ++ post)
    (h : Progress f reads frames s) :
    (onRead s data).1.isOpen = true ∧
      Progress f (reads ++ [data]) (frames ++ (onRead s data).2) (onRead s data).1 := by
  have hflat : (reads ++ [data]).flatten = reads.flatten ++ data := by simp
  rw [onRead, if_neg (not_not_intro hopen), if_neg hdata]
  cases h with
  | length ys hsize hframes hbuffer hys hpart =>
    subst hframes
    have hstep := progress_frameLoop hf hmax (s := { s with readBuffer := s.readBuffer ++ data })
      hsize (by rw [hflat, hbuffer]) hstream
    exact ⟨hstep.1.trans hopen, hstep.2⟩
  | frames hsize hbytes hlength hshort =>
    have hcuts := cuts_frameLoop (List.length_pos_iff.mpr hf)
      (n := (s.readBuffer ++ data).length + 1) (s := { s with readBuffer := s.readBuffer ++ data })
      (hsize ▸ length_toNat hmax) (Nat.lt_succ_self _)
    refine ⟨hcuts.isOpen.trans hopen, progress_of_cuts hcuts hsize hlength ?_⟩
    rw [hflat, ← hbytes]
    simp only [List.append_assoc]

/-- Every way to split the stream into reads. -/
theorem progress_exec {reads : List Bytes} {more : Bytes} (hreads : ∀ data ∈ reads, data ≠ [])
    (hstream : reads.flatten = encodeFrame f ++ more) :
    Progress f reads (exec reads).2 (exec reads).1 := by
  have hpack := packUintData_ne_nil (UInt64.ofNat f.length)
  have h₀ : init.isOpen = true ∧ Progress f [] [] init :=
    ⟨rfl, .length _ rfl rfl rfl hpack (List.nil_append _).symm⟩
  refine (Machine.run_invariant_nil onRead
    (fun reads frames s => s.isOpen = true ∧ Progress f reads frames s) init reads h₀ ?_).2
  intro pre data post frames s heq hinv
  have hmem : data ∈ reads := by rw [heq]; simp
  refine progress_onRead hf hmax hinv.1 (hreads data hmem) ?_ hinv.2
  exact ⟨more, post.flatten, by rw [← hstream, heq]; simp⟩

end Stream

/-! ## which frames arrive -/

/-- The bytes of a list of frames. -/
def encodeFrames (frames : List Bytes) : Bytes := (frames.map encodeFrame).flatten

/-- Every frame was delivered once, in order and nothing else, and no byte is left. -/
def Delivered (frames reads : List Bytes) : Prop :=
  (exec reads).2 = frames ∧ (exec reads).1.readBuffer = []

theorem length_flatten_le_encodeFrames (frames : List Bytes) :
    frames.flatten.length + frames.length ≤ (encodeFrames frames).length := by
  induction frames with
  | nil => exact Nat.le_refl 0
  | cons f frames ih =>
    have hlen := List.length_pos_iff.mpr (packUintData_ne_nil (UInt64.ofNat f.length))
    simp only [encodeFrames, encodeFrame, List.map_cons, List.flatten_cons, List.length_append,
      List.length_cons] at ih ⊢
    omega

/-- Nothing is delivered for an empty frame. -/
theorem ne_nil_of_mem_takeFrame {s : SocketRpcDriver} {f : Bytes} (h : f ∈ s.takeFrame.2) :
    f ≠ [] := by
  simp only [takeFrame] at h
  split at h
  case isTrue hn =>
    obtain rfl := List.mem_singleton.mp h
    rw [ne_eq, List.take_eq_nil_iff, not_or, ← List.length_eq_zero_iff]
    omega
  case isFalse => contradiction

theorem ne_nil_of_mem_frameLoop {n : Nat} {s : SocketRpcDriver} {f : Bytes}
    (h : f ∈ (frameLoop n s).2) : f ≠ [] := by
  induction n generalizing s with
  | zero => contradiction
  | succ n ih =>
    rw [frameLoop] at h
    cases hread : s.readLength with
    | mk t go =>
      rw [hread] at h
      cases go with
      | false => contradiction
      | true =>
        simp only at h
        split at h
        · exact ne_nil_of_mem_takeFrame h
        · exact (List.mem_append.mp h).elim ne_nil_of_mem_takeFrame ih

theorem ne_nil_of_mem_exec {reads : List Bytes} : ∀ f ∈ (exec reads).2, f ≠ [] := by
  refine Machine.run_invariant_nil onRead (fun _ frames _ => ∀ f ∈ frames, f ≠ []) init reads
    nofun fun _ data _ frames s _ hinv f hf => ?_
  refine (List.mem_append.mp hf).elim (hinv f) fun hf => ?_
  rw [onRead] at hf
  split at hf
  · contradiction
  · split at hf
    · contradiction
    · exact ne_nil_of_mem_frameLoop hf

/-- One frame that is not empty arrives, however it is split. -/
theorem delivered_single {f : Bytes} {reads : List Bytes} (hf : f ≠ []) (hmax : f.length < maxSize)
    (hreads : ∀ data ∈ reads, data ≠ []) (hstream : reads.flatten = encodeFrame f) :
    Delivered [f] reads := by
  cases progress_exec hf hmax hreads (hstream.trans (List.append_nil _).symm) with
  | length ys hsize hframes hbuffer hys hpart =>
    have hlen := congrArg List.length hpart
    rw [hstream, encodeFrame, List.append_assoc, List.length_append, List.length_append] at hlen
    have hpos := List.length_pos_iff.mpr hf
    omega
  | frames hsize hbytes hlength hshort =>
    rw [hstream, encodeFrame, List.append_cancel_left_eq] at hbytes
    cases hframes : (exec reads).2 with
    | nil =>
      rw [hframes] at hbytes
      rw [← hbytes] at hshort
      exact absurd hshort (Nat.lt_irrefl _)
    | cons g gs =>
      rw [hframes] at hbytes hlength
      have hg := hlength g List.mem_cons_self
      rw [List.flatten_cons, List.append_assoc] at hbytes
      have hrest : gs.flatten ++ (exec reads).1.readBuffer = [] := by
        have hlen := congrArg List.length hbytes
        rw [List.length_append] at hlen
        exact List.length_eq_zero_iff.mp (by omega)
      obtain ⟨hgs, hbuffer⟩ := List.append_eq_nil_iff.mp hrest
      rw [hrest, List.append_nil] at hbytes
      subst hbytes
      cases gs with
      | nil => exact ⟨hframes, hbuffer⟩
      | cons g' gs =>
        have hg' := hlength g' (List.mem_cons_of_mem _ List.mem_cons_self)
        rw [List.flatten_cons, List.append_eq_nil_iff] at hgs
        rw [hgs.1] at hg'
        exact absurd (List.length_eq_zero_iff.mp hg'.symm) hf

/-- Of several frames some bytes are left or the frames are wrong. -/
theorem not_delivered_cons {f : Bytes} {frames reads : List Bytes} (hf : f ≠ [])
    (hmax : f.length < maxSize) (hframes : frames ≠ []) (hreads : ∀ data ∈ reads, data ≠ [])
    (hstream : reads.flatten = encodeFrames (f :: frames)) : ¬ Delivered (f :: frames) reads := by
  rintro ⟨hout, hbuffer⟩
  have hcons : encodeFrames (f :: frames) = encodeFrame f ++ encodeFrames frames := rfl
  have hmore := length_flatten_le_encodeFrames frames
  have hpos := List.length_pos_iff.mpr hframes
  cases progress_exec hf hmax hreads (hstream.trans hcons) with
  | length ys hsize hnone _ _ _ =>
    rw [hnone] at hout
    contradiction
  | frames hsize hbytes _ _ =>
    have hlen := congrArg List.length hbytes
    rw [hout, hbuffer, hstream, hcons, encodeFrame] at hlen
    simp only [List.length_append, List.flatten_cons, List.length_nil] at hlen
    omega

/-- The driver delivers what was sent exactly when at most one frame was sent
and that one is not empty. -/
theorem exec_delivers_iff (frames : List Bytes) (hmax : ∀ f ∈ frames, f.length < maxSize)
    (reads : List Bytes) (hreads : ∀ data ∈ reads, data ≠ [])
    (hstream : reads.flatten = encodeFrames frames) :
    Delivered frames reads ↔ frames = [] ∨ ∃ f, f ≠ [] ∧ frames = [f] := by
  cases frames with
  | nil =>
    have hnil : reads = [] := by
      cases reads with
      | nil => rfl
      | cons data reads =>
        have hdata := (List.append_eq_nil_iff.mp hstream).1
        exact absurd hdata (hreads data List.mem_cons_self)
    subst hnil
    exact ⟨fun _ => .inl rfl, fun _ => ⟨rfl, rfl⟩⟩
  | cons f frames =>
    have hfmax := hmax f List.mem_cons_self
    by_cases hf : f = []
    · -- an empty frame is never delivered
      constructor
      · rintro ⟨hout, -⟩
        have hmem : f ∈ (exec reads).2 := by rw [hout]; exact List.mem_cons_self
        exact absurd hf (ne_nil_of_mem_exec f hmem)
      · rintro (h | ⟨g, hg, h⟩)
        · contradiction
        · exact absurd hf ((List.cons.inj h).1 ▸ hg)
    · by_cases hframes : frames = []
      · subst hframes
        rw [encodeFrames, List.map_singleton, List.flatten_singleton] at hstream
        exact ⟨fun _ => .inr ⟨f, hf, rfl⟩, fun _ => delivered_single hf hfmax hreads hstream⟩
      · constructor
        · intro h
          exact absurd h (not_delivered_cons hf hfmax hframes hreads hstream)
        · rintro (h | ⟨g, -, h⟩)
          · contradiction
          · exact absurd (List.cons.inj h).2 hframes

/-- One frame in three reads. -/
theorem exec_delivers_iff_split :
    Delivered [[1, 2, 3]] [[3, 1], [2], [3]] ↔
      [[1, 2, 3]] = ([] : List Bytes) ∨ ∃ f : Bytes, f ≠ [] ∧ [[1, 2, 3]] = [f] :=
  exec_delivers_iff _ (by decide) _ (by decide) (by decide)

/-- Two frames in one read: the second is cut by the length of the first. -/
theorem exec_two_frames :
    encodeFrames [[0xAA], [0xBB, 0xCC]] = [1, 0xAA, 2, 0xBB, 0xCC] ∧
      (exec [[1, 0xAA, 2, 0xBB, 0xCC]]).2 = [[0xAA], [2], [0xBB], [0xCC]] ∧
      ¬ Delivered [[0xAA], [0xBB, 0xCC]] [[1, 0xAA, 2, 0xBB, 0xCC]] := by
  have hout : (exec [[1, 0xAA, 2, 0xBB, 0xCC]]).2 = [[0xAA], [2], [0xBB], [0xCC]] := by decide
  refine ⟨by decide, hout, fun h => ?_⟩
  rw [Delivered, hout] at h
  exact absurd h.1 (by decide)

end SocketRpcDriver

end LibShv
