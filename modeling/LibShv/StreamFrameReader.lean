import LibShv.CChainPack.Integers
import LibShv.FrameReader

/-!
# LibShv.StreamFrameReader

`StreamFrameReader` (`socket.cpp`): frames that follow each other on a stream, each
with its length before it. The head of a frame is read from all that has arrived,
not from the bytes of the frame alone; a frame is its own bytes whenever that makes
no difference.
-/

namespace LibShv

open ByteReader

/-- `StreamFrameReader`. -/
structure StreamFrameReader extends FrameReader where
  readBuffer : Bytes

namespace StreamFrameReader

/-- A reader as it is made. -/
def init : StreamFrameReader := ⟨.init, []⟩

/-- `readUIntData` on the buffer, and `tellg` after it. -/
def readFrameLength (readBuffer : Bytes) : Except Fault (Nat × UInt64) :=
  match unpackUint (openStream readBuffer) with
  | .ok (frameSize, _) c => .ok (readBuffer.length - c.input.length, frameSize)
  | .error e _ => .error e

/-- How a round of the loop ends. -/
inductive Outcome where
  /-- A frame was taken. -/
  | again
  /-- There are not enough data. -/
  | enough
  | thrown (e : Fault)

/-- The sum of a `size_t` and a length. -/
def sizeAdd (a : Nat) (b : UInt64) : Nat := (a + b.toNat) % 2 ^ 64

/-- The difference of two `size_t`. -/
def sizeSub (a b : Nat) : Nat := (a + (2 ^ 64 - b % 2 ^ 64)) % 2 ^ 64

/-- The second part of the loop body: take a frame that ends at `frameEnd` from the buffer. -/
def takeFrame (s : StreamFrameReader) (frameEnd : Nat) : StreamFrameReader × Outcome :=
  if frameEnd ≤ s.readBuffer.length then
    match s.dataStart with
    | none => (s, .thrown (.runtime "Read RPC message meta data error."))
    | some dataStart =>
      let frameData := (s.readBuffer.drop dataStart).take (sizeSub frameEnd dataStart)
      ({ frames := s.frames ++ [⟨s.protocol, s.metaData, frameData⟩]
         protocol := s.protocol
         metaData := .empty
         dataStart := none
         readBuffer := s.readBuffer.drop frameEnd }, .again)
  else (s, .enough)

/-- A round of the loop of `addData`, with the request id that it finds. -/
def round (s : StreamFrameReader) : StreamFrameReader × List Int64 × Outcome :=
  match readFrameLength s.readBuffer with
  | .error (.parse .bufferUnderflow _) => (s, [], .enough)
  | .error _ => (s, [], .thrown (.runtime "Read RPC message length error."))
  | .ok (frameLenSize, frameSize) =>
    if frameLenSize = 0 then (s, [], .thrown (.runtime "Read RPC message length data error."))
    else
      let (reader, rqid) := s.tryToReadMeta frameLenSize (s.readBuffer.drop frameLenSize)
      let s := { s with toFrameReader := reader }
      match rqid with
      | .error e => (s, [], .thrown e)
      | .ok rqid =>
        let (s, outcome) := s.takeFrame (sizeAdd frameLenSize frameSize)
        (s, if 0 < rqid then [rqid] else [], outcome)

/-- The loop of `addData`. A round need not shorten the buffer, so that the bound can be
reached. -/
def addDataLoop : Nat → StreamFrameReader → StreamFrameReader × Except Fault (List Int64)
  | 0, s => (s, .error .outOfFuel)
  | n + 1, s =>
    match s.round with
    | (s, ids, .again) =>
      match addDataLoop n s with
      | (s, .ok ids') => (s, .ok (ids ++ ids'))
      | (s, .error e) => (s, .error e)
    | (s, ids, .enough) => (s, .ok ids)
    | (s, _, .thrown e) => (s, .error e)

/-- Data put behind the buffer. -/
def receive (s : StreamFrameReader) (data : Bytes) : StreamFrameReader :=
  { s with readBuffer := s.readBuffer ++ data }

/-- `addData`: the request ids of the responses whose metadata were read. -/
def addData (n : Nat) (s : StreamFrameReader) (data : Bytes) :
    StreamFrameReader × Except Fault (List Int64) :=
  addDataLoop n (s.receive data)

/-- `takeFrames`. -/
def takeFrames (s : StreamFrameReader) : StreamFrameReader × List RpcFrame :=
  ({ s with frames := [] }, s.frames)

/-! ## runs -/

/-- Where a run is: in the loop of `addData`, before a round of it, or between two calls. -/
inductive Phase where
  | looping
  | idle

/-- The states of the runs in which every round begins in a state with `C`: data arrive in any
pieces, also after an exception, and frames are taken from the reader at any time. -/
inductive Run (C : StreamFrameReader → Prop) : Phase → StreamFrameReader → Prop
  | init : Run C .idle init
  | receive {s} (data : Bytes) : Run C .idle s → Run C .looping (s.receive data)
  | again {s s' ids} : Run C .looping s → C s → s.round = (s', ids, .again) → Run C .looping s'
  | enough {s s' ids} : Run C .looping s → C s → s.round = (s', ids, .enough) → Run C .idle s'
  | thrown {s s' ids e} : Run C .looping s → C s → s.round = (s', ids, .thrown e) →
      Run C .idle s'
  | takeFrames {s} : Run C .idle s → Run C .idle s.takeFrames.1
  | resetCommunication {s} : Run C .idle s → Run C .idle .init

/-- The state in which a round takes the frame: the head is read, if it can be. -/
def withHead (s : StreamFrameReader) (frameLenSize : Nat) : StreamFrameReader :=
  { s with
    toFrameReader :=
      (s.tryToReadMeta frameLenSize (s.readBuffer.drop frameLenSize)).1 }

@[simp] theorem readBuffer_withHead (s : StreamFrameReader) (frameLenSize : Nat) :
    (s.withHead frameLenSize).readBuffer = s.readBuffer := rfl

/-- A frame that is not taken leaves the reader as it is. -/
theorem takeFrame_of_ne {s s' : StreamFrameReader} {frameEnd : Nat} {outcome : Outcome}
    (h : s.takeFrame frameEnd = (s', outcome)) (hne : outcome ≠ .again) : s' = s := by
  rw [takeFrame] at h
  split at h
  · split at h
    · exact (Prod.mk.inj h).1.symm
    · exact absurd (Prod.mk.inj h).2.symm hne
  · exact (Prod.mk.inj h).1.symm

/-- A round takes the frame at the front of the buffer, or reads no more than its head. -/
theorem round_cases {s s' : StreamFrameReader} {ids : List Int64} {outcome : Outcome}
    (h : s.round = (s', ids, outcome)) :
    s' = s ∧ outcome ≠ .again ∨
      ∃ frameLenSize frameSize, readFrameLength s.readBuffer = .ok (frameLenSize, frameSize) ∧
        (s' = s.withHead frameLenSize ∧ outcome ≠ .again ∨
          outcome = .again ∧
            (s.withHead frameLenSize).takeFrame (sizeAdd frameLenSize frameSize) = (s', .again)) := by
  rw [round] at h
  cases hlen : readFrameLength s.readBuffer with
  | error e =>
    left
    simp only [hlen] at h
    split at h
    · obtain ⟨rfl, -, rfl⟩ := by simpa only [Prod.mk.injEq] using h
      exact ⟨rfl, nofun⟩
    · obtain ⟨rfl, -, rfl⟩ := by simpa only [Prod.mk.injEq] using h
      exact ⟨rfl, nofun⟩
    · contradiction
  | ok x =>
    obtain ⟨frameLenSize, frameSize⟩ := x
    simp only [hlen] at h
    by_cases hzero : frameLenSize = 0
    · left
      simp only [hzero, if_true, Prod.mk.injEq] at h
      obtain ⟨rfl, -, rfl⟩ := h
      exact ⟨rfl, nofun⟩
    · refine .inr ⟨frameLenSize, frameSize, rfl, ?_⟩
      simp only [hzero, if_false] at h
      have hhead : s.withHead frameLenSize = { s with
          toFrameReader :=
            (s.tryToReadMeta frameLenSize (s.readBuffer.drop frameLenSize)).1 } := rfl
      rw [← hhead] at h
      cases hid : (s.tryToReadMeta frameLenSize (s.readBuffer.drop frameLenSize)).2 with
      | error e =>
        simp only [hid, Prod.mk.injEq] at h
        obtain ⟨rfl, -, rfl⟩ := h
        exact .inl ⟨rfl, nofun⟩
      | ok rqid =>
        simp only [hid, Prod.mk.injEq] at h
        obtain ⟨rfl, -, rfl⟩ := h
        by_cases hout :
            ((s.withHead frameLenSize).takeFrame (sizeAdd frameLenSize frameSize)).2 = .again
        · exact .inr ⟨hout, Prod.ext rfl hout⟩
        · exact .inl ⟨takeFrame_of_ne rfl hout, hout⟩

/-- The calls of `addData` are the runs, with nothing asked of the rounds. -/
theorem run_addData {C : StreamFrameReader → Prop} (hC : ∀ s, C s) {n : Nat}
    {s : StreamFrameReader} {data : Bytes} (hs : Run C .idle s)
    (hn : (s.addData n data).2 ≠ .error .outOfFuel) : Run C .idle (s.addData n data).1 := by
  have hloop : ∀ n s, Run C .looping s → (addDataLoop n s).2 ≠ .error .outOfFuel →
      Run C .idle (addDataLoop n s).1 := by
    intro n
    induction n with
    | zero => exact fun s _ hne => absurd rfl hne
    | succ n ih =>
      intro s hrun hne
      rw [addDataLoop] at hne ⊢
      obtain ⟨⟨s', ids, outcome⟩, hround⟩ : ∃ r, s.round = r := ⟨_, rfl⟩
      rw [hround] at hne ⊢
      cases outcome with
      | enough => exact hrun.enough (hC s) hround
      | thrown e => exact hrun.thrown (hC s) hround
      | again =>
        have ih' := ih s' (hrun.again (hC s) hround)
        simp only at hne ⊢
        cases hrest : addDataLoop n s' with
        | mk s'' r =>
          rw [hrest] at hne ih'
          cases r with
          | ok ids' => exact ih' nofun
          | error e => exact ih' hne
  exact hloop n _ (hs.receive data) hn

/-! ## the bytes of a frame -/

/-- The bytes of the frame at the front of the buffer, as far as they are there. -/
def frameBytes (readBuffer : Bytes) (frameLenSize : Nat) (frameSize : UInt64) : Bytes :=
  (readBuffer.drop frameLenSize).take frameSize.toNat

theorem readFrameLength_le {readBuffer : Bytes} {frameLenSize : Nat} {frameSize : UInt64}
    (h : readFrameLength readBuffer = .ok (frameLenSize, frameSize)) :
    frameLenSize ≤ readBuffer.length := by
  rw [readFrameLength] at h
  cases hread : unpackUint (openStream readBuffer) with
  | error e c => simp [hread] at h
  | ok x c =>
    simp only [hread, Except.ok.injEq, Prod.mk.injEq] at h
    omega

/-- A length that is complete is not read further. -/
theorem readFrameLength_append {readBuffer : Bytes} {frameLenSize : Nat} {frameSize : UInt64}
    (h : readFrameLength readBuffer = .ok (frameLenSize, frameSize)) (ys : Bytes) :
    readFrameLength (readBuffer ++ ys) = .ok (frameLenSize, frameSize) := by
  rw [readFrameLength] at h
  cases hread : unpackUint (openStream readBuffer) with
  | error e c => simp [hread] at h
  | ok x c =>
    have hsafe := solid_unpackUint.safe (openStream readBuffer)
    rw [hread] at hsafe
    have hmore : unpackUint (openStream (readBuffer ++ ys)) = .ok x (c.append ys) :=
      (solid_unpackUint.ext _ _ _ hread).2 hsafe.1 ys
    have hlen : (readBuffer ++ ys).length - (c.append ys).input.length =
        readBuffer.length - c.input.length := by
      rw [Cursor.append_input, List.length_append, List.length_append]
      omega
    simp only [hread] at h
    simp only [readFrameLength, hmore, hlen, h]

theorem frameBytes_append {readBuffer : Bytes} {frameLenSize : Nat}
    (h : frameLenSize ≤ readBuffer.length) (frameSize : UInt64) (ys : Bytes) :
    ∃ zs, frameBytes (readBuffer ++ ys) frameLenSize frameSize =
      frameBytes readBuffer frameLenSize frameSize ++ zs := by
  rw [frameBytes, frameBytes, List.drop_append_of_le_length h, List.take_append]
  exact ⟨_, rfl⟩

theorem sizeAdd_eq {a : Nat} {b : UInt64} (h : a + b.toNat < 2 ^ 64) :
    sizeAdd a b = a + b.toNat := Nat.mod_eq_of_lt h

theorem sizeSub_eq {a b : Nat} (ha : a < 2 ^ 64) (h : b ≤ a) : sizeSub a b = a - b := by
  rw [sizeSub, Nat.mod_eq_of_lt (by omega : b < 2 ^ 64)]
  omega

/-! ## reading inside the frame -/

/-- A round makes a frame of the bytes of the declared frame only: no size wraps around, the
data begin inside it, and head and data are what its own bytes say. -/
def StaysInside (s : StreamFrameReader) : Prop :=
  ∀ frameLenSize frameSize, readFrameLength s.readBuffer = .ok (frameLenSize, frameSize) →
    frameLenSize + frameSize.toNat < 2 ^ 64 ∧
    ∀ s' ids, s.round = (s', ids, .again) →
      let bytes := frameBytes s.readBuffer frameLenSize frameSize
      bytes.length = frameSize.toNat ∧ ∃ head, FrameReader.readHead bytes = some head ∧
        (s.withHead frameLenSize).dataStart = some (frameLenSize + head.size) ∧
        head.size ≤ frameSize.toNat ∧
        s'.frames = s.frames ++ [⟨head.protocol, head.metaData, bytes.drop head.size⟩] ∧
        s'.readBuffer = s.readBuffer.drop (frameLenSize + frameSize.toNat)

/-- The length declared at the front leaves room for the bytes that declare it, and a frame
that is there has a head of its own, or none even with the bytes behind it. -/
def Contained (s : StreamFrameReader) : Prop :=
  ∀ frameLenSize frameSize, readFrameLength s.readBuffer = .ok (frameLenSize, frameSize) →
    frameSize.toNat < 2 ^ 64 - frameLenSize ∧
    (frameLenSize + frameSize.toNat ≤ s.readBuffer.length →
      FrameReader.readHead (frameBytes s.readBuffer frameLenSize frameSize) = none →
      FrameReader.readHead (s.readBuffer.drop frameLenSize) = none)

/-- A head that was read is that of the frame's own bytes. -/
def HeadInside (s : StreamFrameReader) : Prop :=
  s.dataStart = none ∨ ∃ frameLenSize frameSize head,
    readFrameLength s.readBuffer = .ok (frameLenSize, frameSize) ∧
    FrameReader.readHead (frameBytes s.readBuffer frameLenSize frameSize) = some head ∧
    s.toFrameReader =
      ⟨s.frames, head.protocol, head.metaData, some (frameLenSize + head.size)⟩

theorem HeadInside.receive {s : StreamFrameReader} (h : s.HeadInside) (data : Bytes) :
    (s.receive data).HeadInside := by
  rcases h with h | ⟨frameLenSize, frameSize, head, hlen, hhead, hreader⟩
  · exact .inl h
  · obtain ⟨zs, hzs⟩ := frameBytes_append (readFrameLength_le hlen) frameSize data
    refine .inr ⟨frameLenSize, frameSize, head, readFrameLength_append hlen data, ?_, hreader⟩
    rw [StreamFrameReader.receive, hzs]
    exact FrameReader.readHead_append hhead zs

theorem HeadInside.withHead {s : StreamFrameReader} (h : s.HeadInside) (hc : s.Contained)
    {frameLenSize : Nat} {frameSize : UInt64}
    (hlen : readFrameLength s.readBuffer = .ok (frameLenSize, frameSize)) :
    (s.withHead frameLenSize).HeadInside := by
  rcases s.tryToReadMeta_cases frameLenSize (s.readBuffer.drop frameLenSize) with
    heq | ⟨-, hframes, hnone | ⟨head, hread, heq⟩⟩
  · rw [StreamFrameReader.withHead, heq]
    exact h
  · exact .inl hnone
  · refine .inr ⟨frameLenSize, frameSize, head, hlen, ?_, ?_⟩
    · change FrameReader.readHead (frameBytes s.readBuffer frameLenSize frameSize) = some head
      by_cases hwhole : frameLenSize + frameSize.toNat ≤ s.readBuffer.length
      · cases hown : FrameReader.readHead (frameBytes s.readBuffer frameLenSize frameSize) with
        | none =>
          rw [(hc _ _ hlen).2 hwhole hown] at hread
          contradiction
        | some own =>
          have hmore := FrameReader.readHead_append hown
            ((s.readBuffer.drop frameLenSize).drop frameSize.toNat)
          rw [frameBytes, List.take_append_drop, hread] at hmore
          exact hmore.symm
      · rw [frameBytes, List.take_of_length_le (by rw [List.length_drop]; omega), hread]
    · rw [StreamFrameReader.withHead, heq]

/-- The head is kept until the frame is taken. -/
theorem HeadInside.round {s s' : StreamFrameReader} {ids : List Int64} {outcome : Outcome}
    (h : s.HeadInside) (hc : s.Contained) (hround : s.round = (s', ids, outcome)) :
    s'.HeadInside := by
  rcases round_cases hround with ⟨rfl, -⟩ | ⟨frameLenSize, frameSize, hlen, ⟨rfl, -⟩ | ⟨-, htake⟩⟩
  · exact h
  · exact h.withHead hc hlen
  · rw [takeFrame] at htake
    split at htake
    · split at htake
      · simp at htake
      · exact .inl ((Prod.mk.inj htake).1 ▸ rfl)
    · simp at htake

/-- Every state of a run with contained frames has its head inside the frame. -/
theorem headInside_of_run {phase : Phase} {s : StreamFrameReader} (h : Run Contained phase s) :
    s.HeadInside := by
  induction h with
  | init => exact .inl rfl
  | receive data _ ih => exact ih.receive data
  | again _ hc hround ih => exact ih.round hc hround
  | enough _ hc hround ih => exact ih.round hc hround
  | thrown _ hc hround ih => exact ih.round hc hround
  | takeFrames _ ih =>
    rcases ih with ih | ⟨frameLenSize, frameSize, head, hlen, hhead, hreader⟩
    · exact .inl ih
    · refine .inr ⟨frameLenSize, frameSize, head, hlen, hhead, ?_⟩
      rw [StreamFrameReader.takeFrames, hreader]
  | resetCommunication _ _ => exact .inl rfl

/-- A frame that is taken once its head was read inside it. -/
theorem taken_of_headInside {s s' : StreamFrameReader} {frameLenSize : Nat}
    {frameSize : UInt64} (h : (s.withHead frameLenSize).HeadInside)
    (hlen : readFrameLength s.readBuffer = .ok (frameLenSize, frameSize))
    (hwrap : frameLenSize + frameSize.toNat < 2 ^ 64)
    (htake : (s.withHead frameLenSize).takeFrame (frameLenSize + frameSize.toNat) = (s', .again)) :
    (frameBytes s.readBuffer frameLenSize frameSize).length = frameSize.toNat ∧
      ∃ head, FrameReader.readHead (frameBytes s.readBuffer frameLenSize frameSize) = some head ∧
        (s.withHead frameLenSize).dataStart = some (frameLenSize + head.size) ∧
        head.size ≤ frameSize.toNat ∧
        s'.frames = (s.withHead frameLenSize).frames ++ [⟨head.protocol, head.metaData,
          (frameBytes s.readBuffer frameLenSize frameSize).drop head.size⟩] ∧
        s'.readBuffer = s.readBuffer.drop (frameLenSize + frameSize.toNat) := by
  have hwhole : frameLenSize + frameSize.toNat ≤ s.readBuffer.length := by
    refine Decidable.byContradiction fun hshort => ?_
    rw [takeFrame, readBuffer_withHead, if_neg hshort] at htake
    exact absurd (Prod.mk.inj htake).2 nofun
  have hbytes : (frameBytes s.readBuffer frameLenSize frameSize).length = frameSize.toNat := by
    rw [frameBytes, List.length_take, List.length_drop]
    omega
  rw [takeFrame, readBuffer_withHead, if_pos hwhole] at htake
  rcases h with hnone | ⟨l, n, head, hlen', hhead, hreader⟩
  · rw [hnone] at htake
    exact absurd (Prod.mk.inj htake).2 nofun
  · obtain ⟨rfl, rfl⟩ : l = frameLenSize ∧ n = frameSize :=
      Prod.mk.inj (Except.ok.inj (hlen'.symm.trans hlen))
    have hstart : (s.withHead l).dataStart = some (l + head.size) :=
      congrArg FrameReader.dataStart hreader
    have hprotocol : (s.withHead l).protocol = head.protocol :=
      congrArg FrameReader.protocol hreader
    have hmeta : (s.withHead l).metaData = head.metaData := congrArg FrameReader.metaData hreader
    have hsize : head.size ≤ n.toNat := hbytes ▸ FrameReader.size_le_of_readHead hhead
    have hsub : sizeSub (l + n.toNat) (l + head.size) = n.toNat - head.size := by
      rw [sizeSub_eq hwrap (by omega)]
      omega
    have hdata : (s.readBuffer.drop (l + head.size)).take (n.toNat - head.size) =
        (frameBytes s.readBuffer l n).drop head.size := by
      rw [frameBytes, List.drop_take, List.drop_drop]
    simp only [hstart, hprotocol, hmeta, hsub] at htake
    obtain ⟨rfl, -⟩ := Prod.mk.inj htake
    refine ⟨hbytes, head, hhead, hstart, hsize, ?_, rfl⟩
    rw [← hdata]

/-- A run whose rounds all begin with a contained frame, or none, never reads outside a frame. -/
theorem staysInside_of_run {s : StreamFrameReader} (h : Run Contained .looping s)
    (hc : s.Contained) : s.StaysInside := by
  intro frameLenSize frameSize hlen
  have hwrap : frameLenSize + frameSize.toNat < 2 ^ 64 := by
    have := (hc _ _ hlen).1
    omega
  refine ⟨hwrap, fun s' ids hround => ?_⟩
  rcases round_cases hround with ⟨-, hne⟩ | ⟨l, n, hlen', ⟨-, hne⟩ | ⟨-, htake⟩⟩
  · exact absurd rfl hne
  · exact absurd rfl hne
  · obtain ⟨rfl, rfl⟩ : l = frameLenSize ∧ n = frameSize :=
      Prod.mk.inj (Except.ok.inj (hlen'.symm.trans hlen))
    rw [sizeAdd_eq hwrap] at htake
    have hframes : (s.withHead l).frames = s.frames := by
      rcases s.tryToReadMeta_cases l (s.readBuffer.drop l) with heq | ⟨-, hframes, -⟩
      · rw [withHead, heq]
      · exact hframes
    have hinside := (headInside_of_run h).withHead hc hlen
    rw [← hframes]
    exact taken_of_headInside hinside hlen hwrap htake

/-- A frame of a protocol byte and one byte of data, in one piece. -/
theorem staysInside_plainFrame : (init.receive [2, 1, 65]).StaysInside := by
  have hlen : readFrameLength [2, 1, 65] = .ok (1, 2) := by rfl
  have hhead : FrameReader.readHead [1, 65] = some ⟨.ChainPack, .empty, 1⟩ := by rfl
  refine staysInside_of_run (.receive _ .init) fun frameLenSize frameSize h => ?_
  obtain ⟨rfl, rfl⟩ : frameLenSize = 1 ∧ frameSize = 2 :=
    Prod.mk.inj (Except.ok.inj (h.symm.trans hlen))
  refine ⟨by decide, fun _ hnone => ?_⟩
  exact absurd (hhead.symm.trans hnone) nofun

/-- A frame of no bytes, and two bytes behind it: the first is taken for its protocol. -/
theorem not_staysInside : ¬ ∀ s, Run (fun _ => True) .looping s → s.StaysInside := by
  intro h
  have hrun : Run (fun _ => True) .looping (init.receive [0, 1, 5]) := .receive _ .init
  have hlen : readFrameLength (init.receive [0, 1, 5]).readBuffer = .ok (1, 0) := by rfl
  obtain ⟨-, head, hhead, -⟩ := (h _ hrun 1 0 hlen).2 (init.receive [0, 1, 5]).round.1
    (init.receive [0, 1, 5]).round.2.1 (by rfl)
  exact absurd hhead nofun

end StreamFrameReader

end LibShv
