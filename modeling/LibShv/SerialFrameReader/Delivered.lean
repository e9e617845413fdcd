import LibShv.SerialFrameReader.Lossless

/-!
# LibShv.SerialFrameReader.Delivered

What a reader delivers, whatever it is fed: frames between an STX and an ETX with no ATX
in between, and with the right CRC if one is checked. Together with the frames of a
writer, which are all delivered, this is what the framing is for.
-/

namespace LibShv.SerialFrameReader

open ByteReader FrameReader FrameWriter SerialFrameWriter

/-! ## runs -/

/-- The states of a reader, and the bytes it has looked at: what is left of a call after an
exception is not among them. -/
inductive Fed (withCrcCheck : Bool) : Bytes → SerialFrameReader → Prop
  | init : Fed withCrcCheck [] (init withCrcCheck)
  | step {hist s s' b r} : Fed withCrcCheck hist s → s.step b = (s', r) →
      Fed withCrcCheck (hist ++ [b]) s'
  | checkResponseId {hist s s' r} : Fed withCrcCheck hist s → s.checkResponseId = (s', r) →
      Fed withCrcCheck hist s'
  | takeFrames {hist s} : Fed withCrcCheck hist s → Fed withCrcCheck hist s.takeFrames
  | resetCommunication {hist s} : Fed withCrcCheck hist s →
      Fed withCrcCheck hist s.resetCommunication

/-- A call of `addData` looks at a part of its data, at all of them if it returns. -/
theorem Fed.addData {withCrcCheck : Bool} {hist : Bytes} {s : SerialFrameReader}
    (h : Fed withCrcCheck hist s) (data : Bytes) :
    ∃ seen, seen <+: data ∧ Fed withCrcCheck (hist ++ seen) (s.addData data).1 := by
  induction data generalizing hist s with
  | nil =>
    refine ⟨[], List.nil_prefix, ?_⟩
    rw [List.append_nil]
    exact h.checkResponseId rfl
  | cons b data ih =>
    rw [SerialFrameReader.addData]
    cases hr : s.step b with
    | mk s' r =>
      have hstep := h.step hr
      cases r with
      | error e => exact ⟨[b], List.prefix_append [b] data, hstep⟩
      | ok ids =>
        obtain ⟨seen, hseen, hfed⟩ := ih hstep
        refine ⟨b :: seen, List.cons_prefix_cons.mpr ⟨rfl, hseen⟩, ?_⟩
        rw [List.append_assoc] at hfed
        simp only
        cases hmore : s'.addData data with
        | mk s'' r' =>
          rw [hmore] at hfed
          cases r' <;> exact hfed

/-- A call that returns leaves a reader with nothing to throw. -/
theorem quiet_of_addData {s s' : SerialFrameReader} {data : Bytes} {ids : List Int64}
    (h : s.addData data = (s', .ok ids)) : s'.Quiet := by
  induction data generalizing s ids with
  | nil =>
    have hquiet : s.Quiet := by
      rw [SerialFrameReader.addData, SerialFrameReader.checkResponseId] at h
      cases hrqid : (s.tryToReadMeta 0 s.readBuffer).2 with
      | ok rqid => exact ⟨rqid, hrqid⟩
      | error e => simp [hrqid] at h
    obtain ⟨s'', ids', hcheck, -, -, hquiet'⟩ := hquiet.checkResponseId
    rw [SerialFrameReader.addData, hcheck] at h
    exact (Prod.mk.inj h).1 ▸ hquiet'
  | cons b data ih =>
    rw [SerialFrameReader.addData] at h
    cases hr : s.step b with
    | mk s₁ r =>
      cases r with
      | error e => simp [hr] at h
      | ok ids₁ =>
        cases hmore : s₁.addData data with
        | mk s₂ r₂ =>
          cases r₂ with
          | error e => simp [hr, hmore] at h
          | ok ids₂ =>
            simp only [hr, hmore, Prod.mk.injEq] at h
            obtain ⟨rfl, -⟩ := h
            exact ih hmore

/-! ## what was fed -/

/-- Bytes without an STX or an ATX. -/
def Uncut (bytes : Bytes) : Prop := ∀ b ∈ bytes, b ≠ STX ∧ b ≠ ATX

theorem uncut_nil : Uncut [] := List.forall_mem_nil _

theorem uncut_append_singleton {bytes : Bytes} {b : UInt8} (h : Uncut bytes) (hstx : b ≠ STX)
    (hatx : b ≠ ATX) : Uncut (bytes ++ [b]) := by
  intro b' hb'
  rcases List.mem_append.mp hb' with hb' | hb'
  · exact h b' hb'
  · rw [List.mem_singleton.mp hb']
    exact ⟨hstx, hatx⟩

/-- The bytes between STX and ETX that count. An ETX among them is one at which an exception
was thrown; there is none if a CRC is checked. -/
def content (body : Bytes) : Bytes := body.filter (· ≠ ETX)

/-- The bytes fed end with a frame: STX, the bytes of `payload` escaped, ETX, no STX or ATX
inside, and the right CRC if one is checked. Behind the CRC there is a byte only if an exception
was thrown at its end. -/
def Complete (withCrcCheck : Bool) (hist payload : Bytes) : Prop :=
  ∃ before body crc behind last, hist = before ++ STX :: (body ++ ETX :: (crc ++ behind)) ∧
    Uncut body ∧ Uncut (crc ++ behind) ∧ unescape STX (content body) = some (payload, last) ∧
    if withCrcCheck then
      ETX ∉ body ∧ ∃ crcBuffer last', unescape last crc = some (crcBuffer, last') ∧
        crcBuffer.length = 4 ∧ crcOfBytes crcBuffer = (Crc32.init.addAll body).result
    else crc ++ behind = []

/-- A head that is known was read from the bytes of the frame. -/
def HeadRead (s : SerialFrameReader) : Prop :=
  s.dataStart = none ∨ ∃ head, readHead s.readBuffer = some head ∧
    s.toFrameReader = ⟨s.frames, head.protocol, head.metaData, some head.size⟩

/-- The state that belongs to the bytes fed. -/
def Inv (withCrcCheck : Bool) (hist : Bytes) (s : SerialFrameReader) : Prop :=
  s.withCrcCheck = withCrcCheck ∧
    match s.readState with
    | .WaitingForStx => True
    | .WaitingForEtx =>
      s.HeadRead ∧ ∃ before body, hist = before ++ STX :: body ∧ Uncut body ∧
        (withCrcCheck = true → ETX ∉ body) ∧
        unescape STX (content body) = some (s.readBuffer, s.recentByte) ∧
        s.crcDigest = Crc32.init.addAll (content body)
    | .WaitingForCrc =>
      withCrcCheck = true ∧ s.HeadRead ∧
        ∃ before body crc last, hist = before ++ STX :: (body ++ ETX :: crc) ∧ Uncut body ∧
          Uncut crc ∧ ETX ∉ body ∧ unescape STX (content body) = some (s.readBuffer, last) ∧
          s.crcDigest = Crc32.init.addAll (content body) ∧
          unescape last crc = some (s.crcBuffer, s.recentByte)

/-- What a byte delivers: nothing, or the frame that it completes. -/
def Delivers (withCrcCheck : Bool) (hist : Bytes) (s s' : SerialFrameReader) : Prop :=
  s'.frames = s.frames ∨
    ∃ payload head, Complete withCrcCheck hist payload ∧ readHead payload = some head ∧
      s'.frames = s.frames ++ [⟨head.protocol, head.metaData, payload.drop head.size⟩]

theorem content_append (body : Bytes) {b : UInt8} (h : b ≠ ETX) :
    content (body ++ [b]) = content body ++ [b] := by
  rw [content, List.filter_append, content]
  simp [h]

theorem content_append_etx (body : Bytes) : content (body ++ [ETX]) = content body := by
  rw [content, List.filter_append, content]
  simp

theorem content_eq {body : Bytes} (h : ETX ∉ body) : content body = body := by
  rw [content, List.filter_eq_self]
  intro b hb
  exact decide_eq_true fun he => h (he ▸ hb)

/-! ## one step -/

theorem HeadRead.addBytes {s s' : SerialFrameReader} (h : s.HeadRead)
    (hreader : s'.toFrameReader = s.toFrameReader) {x : Bytes}
    (hbuffer : s'.readBuffer = s.readBuffer ++ x) : s'.HeadRead := by
  rcases h with hnone | ⟨head, hread, heq⟩
  · exact .inl (by rw [hreader, hnone])
  · refine .inr ⟨head, ?_, ?_⟩
    · rw [hbuffer]
      exact readHead_append hread x
    · rw [hreader, heq]

/-- A check changes the head only. -/
theorem checkResponseId_cases {s s' : SerialFrameReader} {r : Except Fault (List Int64)}
    (hhead : s.HeadRead) (h : s.checkResponseId = (s', r)) :
    ∃ reader, s' = { s with toFrameReader := reader } ∧ reader.frames = s.frames ∧ s'.HeadRead := by
  have hs' : s' = { s with toFrameReader := (s.tryToReadMeta 0 s.readBuffer).1 } :=
    (congrArg Prod.fst h).symm
  have hreader : s'.toFrameReader = (s.tryToReadMeta 0 s.readBuffer).1 := by rw [hs']
  have hbuffer : s'.readBuffer = s.readBuffer := by rw [hs']
  refine ⟨_, hs', ?_⟩
  rcases s.tryToReadMeta_cases 0 s.readBuffer with
    heq | ⟨-, hframes, hnone | ⟨head, hread, heq⟩⟩
  · exact ⟨congrArg FrameReader.frames heq,
      hhead.addBytes (hreader.trans heq) (hbuffer.trans (List.append_nil _).symm)⟩
  · exact ⟨hframes, .inl (hreader ▸ hnone)⟩
  · refine ⟨hframes, .inr ⟨head, hbuffer.symm ▸ hread, ?_⟩⟩
    rw [Nat.zero_add] at heq
    rw [hreader, heq]

/-- Reporting a wrong CRC delivers nothing. -/
theorem reportCrcError_cases {s s' : SerialFrameReader} {msgCrc : UInt32} {r : Except Fault Unit}
    (h : s.reportCrcError msgCrc = (s', r)) :
    ∃ errors, s' = { s with responseErrors := errors } ∧ (r ≠ .ok () → s' = s) := by
  have hsame : ∀ {r' : Except Fault Unit}, (s, r') = (s', r) →
      ∃ errors, s' = { s with responseErrors := errors } ∧ (r ≠ .ok () → s' = s) := by
    intro r' h
    obtain ⟨rfl, -⟩ := Prod.mk.inj h
    exact ⟨_, rfl, fun _ => rfl⟩
  rw [reportCrcError] at h
  by_cases hresponse : s.dataStart.isSome ∧ s.metaData.isResponse
  · rw [if_pos hresponse] at h
    cases hpeek : s.metaData.peekCallerId with
    | error e =>
      simp only [hpeek] at h
      exact hsame h
    | ok callerId =>
      simp only [hpeek] at h
      split at h
      · split at h
        · exact hsame h
        · split at h
          · obtain ⟨rfl, rfl⟩ := Prod.mk.inj h
            exact ⟨_, rfl, fun hne => absurd rfl hne⟩
          · exact hsame h
      · exact hsame h
  · rw [if_neg hresponse] at h
    exact hsame h

/-- A frame is added if its head was read. -/
theorem addFrame_cases {s : SerialFrameReader} (hhead : s.HeadRead) :
    s.addFrame.withCrcCheck = s.withCrcCheck ∧ s.addFrame.readState = .WaitingForStx ∧
      (s.addFrame.frames = s.frames ∨ ∃ head, readHead s.readBuffer = some head ∧
        s.addFrame.frames =
          s.frames ++ [⟨head.protocol, head.metaData, s.readBuffer.drop head.size⟩]) := by
  rw [addFrame]
  rcases hhead with hnone | ⟨head, hread, heq⟩
  · simp only [hnone]
    exact ⟨rfl, rfl, .inl rfl⟩
  · have hstart : s.dataStart = some head.size := congrArg FrameReader.dataStart heq
    have hprotocol : s.protocol = head.protocol := congrArg FrameReader.protocol heq
    have hmeta : s.metaData = head.metaData := congrArg FrameReader.metaData heq
    simp only [hstart, hprotocol, hmeta]
    exact ⟨rfl, rfl, .inr ⟨head, hread, rfl⟩⟩

/-- What is left when a frame is finished: an exception was thrown and no more than the head has
changed, or the frame was refused for its CRC or for want of a head, or it was delivered. -/
theorem finish_cases {s s' : SerialFrameReader} {r : Except Fault (List Int64)}
    (hhead : s.HeadRead) (h : s.finish = (s', r)) :
    (∃ reader, s' = { s with toFrameReader := reader } ∧ reader.frames = s.frames ∧ s'.HeadRead) ∨
      s'.withCrcCheck = s.withCrcCheck ∧ s'.readState = .WaitingForStx ∧
        (s'.frames = s.frames ∨
          (s.withCrcCheck = true → s.crcDigest.result = crcOfBytes s.crcBuffer) ∧
            ∃ head, readHead s.readBuffer = some head ∧ s'.frames =
              s.frames ++ [⟨head.protocol, head.metaData, s.readBuffer.drop head.size⟩]) := by
  rw [finish] at h
  cases hcheck : s.checkResponseId with
  | mk s₁ r₁ =>
    obtain ⟨reader, rfl, hframes, hhead₁⟩ := checkResponseId_cases hhead hcheck
    cases r₁ with
    | error e =>
      simp only [hcheck, Prod.mk.injEq] at h
      exact .inl ⟨reader, h.1.symm, hframes, h.1 ▸ hhead₁⟩
    | ok ids =>
      simp only [hcheck, finishFrame] at h
      by_cases hwrong : s.withCrcCheck ∧ s.crcDigest.result ≠ crcOfBytes s.crcBuffer
      · rw [if_pos hwrong] at h
        cases hreport : reportCrcError { s with toFrameReader := reader } (crcOfBytes s.crcBuffer) with
        | mk s₂ r₂ =>
          obtain ⟨errors, rfl, hthrown⟩ := reportCrcError_cases hreport
          cases r₂ with
          | error e =>
            simp only [hreport, Prod.mk.injEq] at h
            exact .inl ⟨reader, h.1.symm.trans (hthrown (by simp)), hframes,
              h.1 ▸ (hthrown (by simp)).symm ▸ hhead₁⟩
          | ok u =>
            simp only [hreport, Prod.mk.injEq] at h
            obtain ⟨rfl, -⟩ := h
            exact .inr ⟨rfl, rfl, .inl hframes⟩
      · rw [if_neg hwrong] at h
        simp only [Prod.mk.injEq] at h
        obtain ⟨rfl, -⟩ := h
        have hright : s.withCrcCheck = true → s.crcDigest.result = crcOfBytes s.crcBuffer :=
          fun hcrc => Decidable.byContradiction fun hne => hwrong ⟨hcrc, hne⟩
        obtain ⟨hcrc, hread, hadd⟩ := addFrame_cases hhead₁
        refine .inr ⟨hcrc, hread, ?_⟩
        rcases hadd with hadd | ⟨head, hhead', hadd⟩
        · exact .inl (hadd.trans hframes)
        · refine .inr ⟨hright, head, hhead', ?_⟩
          rw [hadd, hframes]

section Step

variable {withCrcCheck : Bool} {hist : Bytes} {s s' : SerialFrameReader} {b : UInt8}
  {r : Except Fault (List Int64)}

theorem Inv.idle (hcrc : s.withCrcCheck = withCrcCheck) (hread : s.readState = .WaitingForStx) :
    Inv withCrcCheck hist s := ⟨hcrc, by simp only [hread]⟩

/-- Finishing a frame delivers it, if it is complete. -/
theorem Inv.finish (hcrc : s.withCrcCheck = withCrcCheck) (hhead : s.HeadRead)
    (hthrown : ∀ reader : FrameReader, HeadRead { s with toFrameReader := reader } →
      Inv withCrcCheck hist { s with toFrameReader := reader })
    (hcomplete : (withCrcCheck = true → s.crcDigest.result = crcOfBytes s.crcBuffer) →
      Complete withCrcCheck hist s.readBuffer)
    (h : s.finish = (s', r)) : Inv withCrcCheck hist s' ∧ Delivers withCrcCheck hist s s' := by
  rcases finish_cases hhead h with ⟨reader, rfl, hframes, hhead'⟩ |
    ⟨hcrc', hread', hframes | ⟨hright, head, hhead', hframes⟩⟩
  · exact ⟨hthrown reader hhead', .inl hframes⟩
  · exact ⟨.idle (hcrc'.trans hcrc) hread', .inl hframes⟩
  · have hfull := hcomplete fun htrue => hright (hcrc.trans htrue)
    exact ⟨.idle (hcrc'.trans hcrc) hread', .inr ⟨_, head, hfull, hhead', hframes⟩⟩

variable (h : Inv withCrcCheck hist s)

include h

/-- ETX ends a frame, or its CRC follows. -/
theorem Inv.etx (hread : s.readState = .WaitingForEtx)
    (hstep : (if s.withCrcCheck then (s.setState .WaitingForCrc, .ok []) else s.finish) = (s', r)) :
    Inv withCrcCheck (hist ++ [ETX]) s' ∧ Delivers withCrcCheck (hist ++ [ETX]) s s' := by
  obtain ⟨hcrc, hstate⟩ := h
  simp only [hread] at hstate
  obtain ⟨hhead, before, body, rfl, huncut, hetx, hunescape, hdigest⟩ := hstate
  have hmore : before ++ STX :: body ++ [ETX] = before ++ STX :: (body ++ [ETX]) := by
    rw [List.append_assoc, List.cons_append]
  by_cases hcheck : s.withCrcCheck = true
  · rw [if_pos hcheck] at hstep
    obtain ⟨rfl, -⟩ := Prod.mk.inj hstep
    have htrue : withCrcCheck = true := hcrc.symm.trans hcheck
    exact ⟨⟨hcrc, htrue, hhead, before, body, [], s.recentByte, hmore, huncut, uncut_nil, hetx htrue,
      hunescape, hdigest, rfl⟩, .inl rfl⟩
  · rw [if_neg hcheck] at hstep
    have hfalse : ¬ withCrcCheck = true := fun h => hcheck (hcrc.trans h)
    refine Inv.finish hcrc hhead (fun reader hhead' => ⟨hcrc, ?_⟩) (fun _ => ?_) hstep
    · simp only [hread]
      refine ⟨hhead', before, body ++ [ETX], hmore,
        uncut_append_singleton huncut (by decide) (by decide), fun h => absurd h hfalse, ?_, ?_⟩
      · rw [content_append_etx, hunescape]
      · rw [content_append_etx, hdigest]
    · exact ⟨before, body, [], [], _, hmore, huncut, uncut_nil, hunescape, by rw [if_neg hfalse]; rfl⟩

/-- Any other byte of a frame is kept, or the frame is given up at an escape sequence that is
invalid. -/
theorem Inv.addReadByte (hread : s.readState = .WaitingForEtx) (hstx : b ≠ STX) (hatx : b ≠ ATX)
    (hb : b ≠ ETX) :
    Inv withCrcCheck (hist ++ [b])
        (SerialFrameReader.addReadByte { s with crcDigest := s.crcDigest.add b } b) ∧
      (SerialFrameReader.addReadByte { s with crcDigest := s.crcDigest.add b } b).frames = s.frames := by
  obtain ⟨hcrc, hstate⟩ := h
  simp only [hread] at hstate
  obtain ⟨hhead, before, body, rfl, huncut, hetx, hunescape, hdigest⟩ := hstate
  rw [SerialFrameReader.addReadByte]
  cases hadd : addByte s.recentByte b with
  | none => exact ⟨.idle hcrc rfl, rfl⟩
  | some x =>
    refine ⟨⟨hcrc, ?_⟩, rfl⟩
    simp only [hread]
    refine ⟨hhead.addBytes rfl rfl, before, body ++ [b], by rw [List.append_assoc, List.cons_append],
      uncut_append_singleton huncut hstx hatx, fun h hmem => ?_, ?_, ?_⟩
    · rcases List.mem_append.mp hmem with hmem | hmem
      · exact hetx h hmem
      · exact hb (List.mem_singleton.mp hmem).symm
    · rw [content_append body hb]
      exact unescape_append hunescape (unescape_singleton hadd)
    · rw [content_append body hb, hdigest, Crc32.addAll, Crc32.addAll, List.foldl_append]
      rfl

/-- A byte of a CRC that is not valid ends the frame; after an exception the CRC can be complete
already. -/
theorem Inv.crcByte_of_none (hread : s.readState = .WaitingForCrc) (hstx : b ≠ STX) (hatx : b ≠ ATX)
    (hadd : addByte s.recentByte b = none)
    (hstep : (if (s.addCrcByte b).crcBuffer.length = 4 then (s.addCrcByte b).finish
      else (s.addCrcByte b, .ok [])) = (s', r)) :
    Inv withCrcCheck (hist ++ [b]) s' ∧ Delivers withCrcCheck (hist ++ [b]) s s' := by
  obtain ⟨hcrc, hstate⟩ := h
  simp only [hread] at hstate
  obtain ⟨htrue, hhead, before, body, crc, last, rfl, huncut, huncut', hetx, hunescape, hdigest,
    hunescape'⟩ := hstate
  have hcrcByte : s.addCrcByte b = { s.setState .WaitingForStx with recentByte := b } := by
    rw [addCrcByte, hadd]
  rw [hcrcByte] at hstep
  split at hstep
  · next hfour =>
    have hhead₁ : HeadRead { s.setState .WaitingForStx with recentByte := b } :=
      hhead.addBytes rfl (List.append_nil _).symm
    refine Inv.finish (s := { s.setState .WaitingForStx with recentByte := b }) hcrc hhead₁
      (fun reader _ => .idle hcrc rfl) (fun hright => ?_) hstep
    refine ⟨before, body, crc, [b], last, ?_, huncut, uncut_append_singleton huncut' hstx hatx,
      hunescape, ?_⟩
    · simp only [List.append_assoc, List.cons_append]
    · rw [if_pos htrue]
      refine ⟨hetx, _, _, hunescape', hfour, ?_⟩
      rw [← content_eq hetx, ← hdigest]
      exact (hright htrue).symm
  · obtain ⟨rfl, -⟩ := Prod.mk.inj hstep
    exact ⟨.idle hcrc rfl, .inl rfl⟩

theorem Inv.crcByte_of_some (hread : s.readState = .WaitingForCrc) (hstx : b ≠ STX) (hatx : b ≠ ATX)
    {x : Bytes} (hadd : addByte s.recentByte b = some x)
    (hstep : (if (s.addCrcByte b).crcBuffer.length = 4 then (s.addCrcByte b).finish
      else (s.addCrcByte b, .ok [])) = (s', r)) :
    Inv withCrcCheck (hist ++ [b]) s' ∧ Delivers withCrcCheck (hist ++ [b]) s s' := by
  obtain ⟨hcrc, hstate⟩ := h
  simp only [hread] at hstate
  obtain ⟨htrue, hhead, before, body, crc, last, rfl, huncut, huncut', hetx, hunescape, hdigest,
    hunescape'⟩ := hstate
  rw [addCrcByte_of_some hadd] at hstep
  have hmore : before ++ STX :: (body ++ ETX :: crc) ++ [b] =
      before ++ STX :: (body ++ ETX :: (crc ++ [b])) := by
    simp only [List.append_assoc, List.cons_append]
  have huncut₁ := uncut_append_singleton huncut' hstx hatx
  have hcrcs := unescape_append hunescape' (unescape_singleton hadd)
  have hhead₁ : HeadRead { s with crcBuffer := s.crcBuffer ++ x, recentByte := b } :=
    hhead.addBytes rfl (List.append_nil _).symm
  have hkeep : ∀ reader : FrameReader,
      HeadRead { s with toFrameReader := reader, crcBuffer := s.crcBuffer ++ x, recentByte := b } →
      Inv withCrcCheck (before ++ STX :: (body ++ ETX :: crc) ++ [b])
        { s with toFrameReader := reader, crcBuffer := s.crcBuffer ++ x, recentByte := b } := by
    intro reader hhead'
    refine ⟨hcrc, ?_⟩
    simp only [hread]
    exact ⟨htrue, hhead', before, body, crc ++ [b], last, hmore, huncut, huncut₁, hetx, hunescape,
      hdigest, hcrcs⟩
  split at hstep
  · next hfour =>
    refine Inv.finish (s := { s with crcBuffer := s.crcBuffer ++ x, recentByte := b }) hcrc hhead₁
      hkeep (fun hright => ?_) hstep
    refine ⟨before, body, crc ++ [b], [], last, by rw [List.append_nil, hmore], huncut,
      by rwa [List.append_nil], hunescape, ?_⟩
    rw [if_pos htrue]
    refine ⟨hetx, _, _, hcrcs, hfour, ?_⟩
    rw [← content_eq hetx, ← hdigest]
    exact (hright htrue).symm
  · obtain ⟨rfl, -⟩ := Prod.mk.inj hstep
    exact ⟨hkeep s.toFrameReader hhead₁, .inl rfl⟩

/-- A byte keeps the invariant, and delivers nothing but a frame that is complete. -/
theorem Inv.step (hstep : s.step b = (s', r)) :
    Inv withCrcCheck (hist ++ [b]) s' ∧ Delivers withCrcCheck (hist ++ [b]) s s' := by
  rw [SerialFrameReader.step] at hstep
  by_cases hstx : b = STX
  · rw [if_pos hstx] at hstep
    obtain ⟨rfl, -⟩ := Prod.mk.inj hstep
    subst hstx
    exact ⟨⟨h.1, .inl rfl, hist, [], rfl, uncut_nil, fun _ => List.not_mem_nil, rfl, rfl⟩, .inl rfl⟩
  rw [if_neg hstx] at hstep
  by_cases hatx : b = ATX
  · rw [if_pos hatx] at hstep
    obtain ⟨rfl, -⟩ := Prod.mk.inj hstep
    exact ⟨.idle h.1 rfl, .inl rfl⟩
  rw [if_neg hatx] at hstep
  cases hread : s.readState with
  | WaitingForStx =>
    simp only [hread, Prod.mk.injEq] at hstep
    obtain ⟨rfl, -⟩ := hstep
    exact ⟨.idle h.1 rfl, .inl rfl⟩
  | WaitingForEtx =>
    simp only [hread] at hstep
    by_cases hb : b = ETX
    · rw [if_pos hb] at hstep
      subst hb
      exact h.etx hread hstep
    · rw [if_neg hb] at hstep
      obtain ⟨rfl, -⟩ := Prod.mk.inj hstep
      obtain ⟨hinv, hframes⟩ := h.addReadByte hread hstx hatx hb
      simp only [hread] at hinv hframes
      exact ⟨hinv, .inl hframes⟩
  | WaitingForCrc =>
    simp only [hread] at hstep
    cases hadd : addByte s.recentByte b with
    | none => exact h.crcByte_of_none hread hstx hatx hadd hstep
    | some x => exact h.crcByte_of_some hread hstx hatx hadd hstep

end Step

/-- The invariant of every run. -/
theorem Fed.inv {withCrcCheck : Bool} {hist : Bytes} {s : SerialFrameReader}
    (h : Fed withCrcCheck hist s) : Inv withCrcCheck hist s := by
  induction h with
  | init => exact ⟨rfl, trivial⟩
  | step _ hstep ih => exact (ih.step hstep).1
  | @checkResponseId hist s s' r _ hcheck ih =>
    obtain ⟨hcrc, hstate⟩ := ih
    cases hread : s.readState with
    | WaitingForStx =>
      obtain ⟨rfl, -⟩ := Prod.mk.inj hcheck
      exact .idle hcrc hread
    | WaitingForEtx =>
      simp only [hread] at hstate
      obtain ⟨reader, rfl, -, hhead⟩ := checkResponseId_cases hstate.1 hcheck
      exact ⟨hcrc, by simp only [hread]; exact ⟨hhead, hstate.2⟩⟩
    | WaitingForCrc =>
      simp only [hread] at hstate
      obtain ⟨reader, rfl, -, hhead⟩ := checkResponseId_cases hstate.2.1 hcheck
      exact ⟨hcrc, by simp only [hread]; exact ⟨hstate.1, hhead, hstate.2.2⟩⟩
  | @takeFrames hist s _ ih =>
    obtain ⟨hcrc, hstate⟩ := ih
    have hhead : s.HeadRead → s.takeFrames.HeadRead := by
      rintro (hnone | ⟨head, hread, heq⟩)
      · exact .inl hnone
      · refine .inr ⟨head, hread, ?_⟩
        rw [SerialFrameReader.takeFrames, heq]
    refine ⟨hcrc, ?_⟩
    change match s.readState with | .WaitingForStx => _ | .WaitingForEtx => _ | .WaitingForCrc => _
    cases hread : s.readState with
    | WaitingForStx => trivial
    | WaitingForEtx =>
      simp only [hread] at hstate ⊢
      exact ⟨hhead hstate.1, hstate.2⟩
    | WaitingForCrc =>
      simp only [hread] at hstate ⊢
      exact ⟨hstate.1, hhead hstate.2.1, hstate.2.2⟩
  | resetCommunication _ ih => exact ⟨ih.1, trivial⟩

/-! ## from writer to reader -/

/-- The frames of a writer are delivered in order, whatever the pieces their bytes come in. -/
def DeliversAll (withCrcCheck : Bool) (s : SerialFrameReader) (frames : List RpcFrame) : Prop :=
  ∀ chunks : List Bytes,
    chunks.flatten = (addFrames (addFrameData withCrcCheck) frames).flatten →
    ∃ s' ids, s.addAll chunks = (s', .ok ids) ∧ s'.frames = s.frames ++ frames

/-- The writer puts the frames on the line. -/
theorem flatten_addFrames {withCrcCheck : Bool} {frames : List RpcFrame}
    (h : ∀ frame ∈ frames, frame.OfMessage) (md : RpcFrame → RpcMetaData) :
    (addFrames (addFrameData withCrcCheck) frames).flatten =
      wire withCrcCheck (frames.map fun frame => frame.sentAs (md frame)) := by
  rw [addFrames_eq _ h, ← List.flatMap_def, wire, List.flatMap_map]
  refine congrArg (List.flatMap · frames) (funext fun frame => ?_)
  rw [addFrameData_eq, RpcFrame.sentAs]

end LibShv.SerialFrameReader
