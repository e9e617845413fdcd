import LibShv.SerialFrameWriter

/-!
# LibShv.SerialFrameReader.Lossless

Whatever a reader was fed before, the frames of a writer that follow are delivered, in
any pieces. The reader is idle, or in the middle of a frame or its CRC with the rest of
it to come (`Expects`); every byte keeps that, and so does the end of a call.
-/

namespace LibShv.SerialFrameReader

open ByteReader FrameReader SerialFrameWriter

/-! ## frames on the line -/

/-- The frames on the line. -/
def wire (withCrcCheck : Bool) (sent : List Sent) : Bytes :=
  sent.flatMap fun f => STX :: (escape f.bytes ++ ETX :: trailer withCrcCheck f.bytes)

theorem wire_cons (withCrcCheck : Bool) (f : Sent) (sent : List Sent) :
    wire withCrcCheck (f :: sent) =
      STX :: (escape f.bytes ++ ETX :: (trailer withCrcCheck f.bytes ++ wire withCrcCheck sent)) := by
  rw [wire, List.flatMap_cons, List.cons_append, List.append_assoc]
  rfl

/-! ## reading the head once more -/

/-- Reading the head from the buffer throws nothing. -/
def Quiet (s : SerialFrameReader) : Prop :=
  ∃ rqid, (s.tryToReadMeta 0 s.readBuffer).2 = .ok rqid

theorem quiet_of_isSome {s : SerialFrameReader} (h : s.dataStart.isSome = true) : s.Quiet := by
  refine ⟨0, ?_⟩
  rw [FrameReader.tryToReadMeta.eq_def, if_pos h]

/-- What `tryToReadMeta` finds depends on whether the head is known only. -/
theorem tryToReadMeta_snd {r r' : FrameReader} (h : r.dataStart = none) (h' : r'.dataStart = none)
    (pos : Nat) (input : Bytes) :
    (r.tryToReadMeta pos input).2 = (r'.tryToReadMeta pos input).2 := by
  simp only [FrameReader.tryToReadMeta, h, h', Option.isSome_none, Bool.false_eq_true, if_false]
  cases input with
  | nil => rfl
  | cons b input =>
    cases hrd : (ProtocolType.ofByte b).reader? with
    | none => simp only [hrd]
    | some rd =>
      cases hread : rd.readMetaData (AbstractStreamReader.fuelFor input.length) (openStream input) with
      | error e c => cases e <;> simp only [hrd, hread]
      | ok md c => cases hend : c.atEnd <;> simp [hrd, hread, hend]

theorem Quiet.checkResponseId {s : SerialFrameReader} (h : s.Quiet) :
    ∃ s' ids, s.checkResponseId = (s', .ok ids) ∧ s'.frames = s.frames ∧
      s'.withCrcCheck = s.withCrcCheck ∧ s'.Quiet := by
  obtain ⟨rqid, hrqid⟩ := h
  refine ⟨{ s with toFrameReader := (s.tryToReadMeta 0 s.readBuffer).1 },
    if 0 < rqid then [rqid] else [], ?_, ?_, rfl, ?_⟩
  · simp only [SerialFrameReader.checkResponseId, hrqid]
  · rcases s.tryToReadMeta_cases 0 s.readBuffer with heq | ⟨-, hframes, -⟩
    · exact congrArg FrameReader.frames heq
    · exact hframes
  · rcases s.tryToReadMeta_cases 0 s.readBuffer with heq | ⟨hnone, -, hnone' | ⟨head, -, heq⟩⟩
    · exact ⟨rqid, by simp only [heq, hrqid]⟩
    · exact ⟨rqid, (tryToReadMeta_snd hnone' hnone _ _).trans hrqid⟩
    · exact quiet_of_isSome (by simp only [heq]; rfl)

/-! ## in the middle of a frame -/

/-- What the reader expects to come: `rem` are the bytes that do, and `todo` the frames that
they complete. -/
inductive Expects (withCrcCheck : Bool) (s : SerialFrameReader) : Bytes → List Sent → Prop where
  /-- Between two frames. -/
  | idle (todo : List Sent) : s.Quiet → Expects withCrcCheck s (wire withCrcCheck todo) todo
  /-- Before an ETX, with `body` to come before it. -/
  | etx {f : Sent} {body rest : Bytes} {last : UInt8} (todo : List Sent) :
      s.readState = .WaitingForEtx → s.toFrameReader.Knows 0 f → Plain body →
      unescape s.recentByte body = some (rest, last) → last ≠ ESC → s.readBuffer ++ rest = f.bytes →
      s.crcDigest.addAll body = crcOf f.bytes →
      Expects withCrcCheck s
        (body ++ ETX :: (trailer withCrcCheck f.bytes ++ wire withCrcCheck todo)) (f :: todo)
  /-- In the CRC, with `body` of it to come. -/
  | crc {f : Sent} {body rest : Bytes} {last : UInt8} (todo : List Sent) :
      s.readState = .WaitingForCrc → s.toFrameReader.Knows 0 f → Plain body →
      unescape s.recentByte body = some (rest, last) → last ≠ ESC → body ≠ [] →
      s.readBuffer = f.bytes → s.crcDigest = crcOf f.bytes →
      s.crcBuffer ++ rest = crcBytes (crcOf f.bytes).result →
      Expects withCrcCheck s (body ++ wire withCrcCheck todo) (f :: todo)

/-- A check keeps what is known of the frame, and reads all there is to know once its bytes
are there. -/
theorem checkResponseId_sent {f : Sent} (hf : f.HeadReads) {s : SerialFrameReader}
    (hknows : s.toFrameReader.Knows 0 f) {rest : Bytes} (hbytes : s.readBuffer ++ rest = f.bytes) :
    ∃ reader ids, s.checkResponseId = ({ s with toFrameReader := reader }, .ok ids) ∧
      reader.frames = s.frames ∧ reader.Knows 0 f ∧
      (rest = [] →
        reader = ⟨s.frames, f.head.protocol, f.head.metaData, some f.head.size⟩) := by
  obtain ⟨reader, rqid, htry, hframes, hresult⟩ := @tryToReadMeta_sent f hf s.toFrameReader 0
    s.readBuffer rest [] hknows (by rw [hbytes, List.append_nil])
  refine ⟨reader, if 0 < rqid then [rqid] else [], ?_, hframes, ?_, ?_⟩
  · simp only [SerialFrameReader.checkResponseId, htry]
  · rcases hresult with ⟨hnone, -⟩ | ⟨heq, -⟩
    · exact .inl hnone
    · exact .inr (by rw [heq])
  · rintro rfl
    rw [List.append_nil] at hbytes
    rcases hresult with ⟨-, -, -, hshort⟩ | ⟨heq, -⟩
    · rw [hbytes] at hshort
      exact absurd hshort (Nat.lt_irrefl _)
    · rw [heq, Nat.zero_add]

/-- A frame with its bytes and the right CRC is delivered. -/
theorem finish_sent {f : Sent} (hf : f.HeadReads) {s : SerialFrameReader}
    (hknows : s.toFrameReader.Knows 0 f) (hbytes : s.readBuffer = f.bytes)
    (hcrc : s.withCrcCheck = true → s.crcDigest.result = crcOfBytes s.crcBuffer) :
    ∃ s' ids, s.finish = (s', .ok ids) ∧ s'.frames = s.frames ++ [f.frame] ∧
      s'.withCrcCheck = s.withCrcCheck ∧ s'.Quiet := by
  obtain ⟨reader, ids, hcheck, -, -, hreader⟩ :=
    checkResponseId_sent hf hknows (by rw [hbytes, List.append_nil])
  obtain rfl := hreader rfl
  have hright : ¬ (s.withCrcCheck ∧ s.crcDigest.result ≠ crcOfBytes s.crcBuffer) :=
    fun h => h.2 (hcrc h.1)
  have hfinish : s.finish = (addFrame { s with
      toFrameReader := ⟨s.frames, f.head.protocol, f.head.metaData, some f.head.size⟩ }, .ok ids) := by
    rw [finish, hcheck]
    simp only [finishFrame, hright, if_false]
  refine ⟨_, ids, hfinish, ?_, rfl, quiet_of_isSome rfl⟩
  rw [Sent.frame, ← hbytes]
  rfl

/-! ## one byte -/

/-- What `add_byte` puts into the buffer. -/
theorem addReadByte_of_some {s : SerialFrameReader} {b : UInt8} {x : Bytes}
    (h : addByte s.recentByte b = some x) :
    s.addReadByte b = { s with readBuffer := s.readBuffer ++ x, recentByte := b } := by
  rw [addReadByte, h]

theorem addCrcByte_of_some {s : SerialFrameReader} {b : UInt8} {x : Bytes}
    (h : addByte s.recentByte b = some x) :
    s.addCrcByte b = { s with crcBuffer := s.crcBuffer ++ x, recentByte := b } := by
  rw [addCrcByte, h]

/-- What a byte or the end of a call leaves: `done` was delivered, `todo` is expected. -/
structure Goes (withCrcCheck : Bool) (s s' : SerialFrameReader) (rem : Bytes)
    (done todo : List Sent) : Prop where
  frames : s'.frames = s.frames ++ done.map Sent.frame
  crcCheck : s'.withCrcCheck = withCrcCheck
  expects : Expects withCrcCheck s' rem todo

/-- A byte of a frame before its ETX. -/
theorem step_etx {withCrcCheck : Bool} {s : SerialFrameReader} (hcrc : s.withCrcCheck = withCrcCheck)
    {f : Sent} (hf : f.HeadReads) {body rest rem : Bytes} {last b : UInt8} (todo : List Sent)
    (hstate : s.readState = .WaitingForEtx) (hknows : s.toFrameReader.Knows 0 f) (hplain : Plain body)
    (hbody : unescape s.recentByte body = some (rest, last)) (hlast : last ≠ ESC)
    (hbytes : s.readBuffer ++ rest = f.bytes) (hdigest : s.crcDigest.addAll body = crcOf f.bytes)
    (hrem : body ++ ETX :: (trailer withCrcCheck f.bytes ++ wire withCrcCheck todo) = b :: rem) :
    ∃ s' ids done todo', s.step b = (s', .ok ids) ∧ f :: todo = done ++ todo' ∧
      Goes withCrcCheck s s' rem done todo' := by
  cases body with
  | nil =>
    obtain ⟨rfl, rfl⟩ := List.cons.inj hrem
    obtain ⟨rfl, hrecent⟩ := Prod.mk.inj (Option.some.inj hbody)
    rw [List.append_nil] at hbytes
    have hstep : s.step ETX = if s.withCrcCheck then (s.setState .WaitingForCrc, .ok []) else s.finish := by
      rw [step, if_neg (by decide), if_neg (by decide), hstate]
      rfl
    cases withCrcCheck with
    | true =>
      obtain ⟨last', hlast', hescape⟩ := unescape_escape (hrecent ▸ hlast)
        (crcBytes (crcOf f.bytes).result)
      have hne : escape (crcBytes (crcOf f.bytes).result) ≠ [] := by
        intro hnil
        rw [hnil] at hescape
        exact absurd (Prod.mk.inj (Option.some.inj hescape)).1 (List.cons_ne_nil _ _).symm
      refine ⟨s.setState .WaitingForCrc, [], [], f :: todo, ?_, rfl, ?_, hcrc, ?_⟩
      · rw [hstep, hcrc]
        rfl
      · exact (List.append_nil _).symm
      · rw [trailer, if_pos rfl]
        refine .crc todo rfl hknows (plain_escape _) hescape hlast' hne hbytes hdigest ?_
        rfl
    | false =>
      obtain ⟨s', ids, hfinish, hframes, hcrc', hquiet⟩ := finish_sent hf hknows hbytes
        fun h => absurd (hcrc.symm.trans h) Bool.false_ne_true
      refine ⟨s', ids, [f], todo, ?_, rfl, hframes, hcrc'.trans hcrc, .idle todo hquiet⟩
      rw [hstep, hcrc]
      exact hfinish
  | cons b' body =>
    obtain ⟨rfl, rfl⟩ := List.cons.inj hrem
    obtain ⟨hstx, hatx, hetx⟩ := hplain _ List.mem_cons_self
    obtain ⟨x, y, hx, hy, rfl⟩ := of_unescape_cons hbody
    have hstep : s.step b' = (addReadByte { s with crcDigest := s.crcDigest.add b' } b', .ok []) := by
      rw [step, if_neg hstx, if_neg hatx, hstate]
      simp only [hetx, if_false]
    rw [@addReadByte_of_some { s with crcDigest := s.crcDigest.add b' } b' x hx] at hstep
    refine ⟨_, [], [], f :: todo, hstep, rfl, (List.append_nil _).symm, hcrc, ?_⟩
    exact .etx todo hstate hknows (fun b hb => hplain b (List.mem_cons_of_mem _ hb)) hy hlast
      (by rw [← hbytes, List.append_assoc]) hdigest

/-- A byte of a CRC. -/
theorem step_crc {withCrcCheck : Bool} {s : SerialFrameReader} (hcrc : s.withCrcCheck = withCrcCheck)
    {f : Sent} (hf : f.HeadReads) {body rest rem : Bytes} {last b : UInt8} (todo : List Sent)
    (hstate : s.readState = .WaitingForCrc) (hknows : s.toFrameReader.Knows 0 f) (hplain : Plain body)
    (hbody : unescape s.recentByte body = some (rest, last)) (hlast : last ≠ ESC) (hne : body ≠ [])
    (hbytes : s.readBuffer = f.bytes) (hdigest : s.crcDigest = crcOf f.bytes)
    (hbuffer : s.crcBuffer ++ rest = crcBytes (crcOf f.bytes).result)
    (hrem : body ++ wire withCrcCheck todo = b :: rem) :
    ∃ s' ids done todo', s.step b = (s', .ok ids) ∧ f :: todo = done ++ todo' ∧
      Goes withCrcCheck s s' rem done todo' := by
  cases body with
  | nil => exact absurd rfl hne
  | cons b' body =>
    obtain ⟨rfl, rfl⟩ := List.cons.inj hrem
    obtain ⟨hstx, hatx, -⟩ := hplain _ List.mem_cons_self
    obtain ⟨x, y, hx, hy, rfl⟩ := of_unescape_cons hbody
    rw [← List.append_assoc] at hbuffer
    have hlen := congrArg List.length hbuffer
    rw [List.length_append, length_crcBytes] at hlen
    have hstep : s.step b' =
        if (s.addCrcByte b').crcBuffer.length = 4 then (s.addCrcByte b').finish
        else (s.addCrcByte b', .ok []) := by
      rw [step, if_neg hstx, if_neg hatx, hstate]
    rw [addCrcByte_of_some hx] at hstep
    by_cases hfour : (s.crcBuffer ++ x).length = 4
    · -- the last byte of the CRC
      have hnil : y = [] := List.eq_nil_of_length_eq_zero (by omega)
      subst hnil
      rw [List.append_nil] at hbuffer
      have hbody' : body = [] := eq_nil_of_unescape hy hlast
      subst hbody'
      obtain ⟨s', ids, hfinish, hframes, hcrc', hquiet⟩ := finish_sent (s := { s with
        crcBuffer := s.crcBuffer ++ x, recentByte := b' }) hf hknows hbytes fun _ => by
          simp only [hbuffer, hdigest, crcOfBytes_crcBytes]
      refine ⟨s', ids, [f], todo, ?_, rfl, hframes, hcrc'.trans hcrc, .idle todo hquiet⟩
      rw [hstep, if_pos hfour]
      exact hfinish
    · have hy' : y ≠ [] := by
        rintro rfl
        exact hfour (by simpa using hlen)
      have hbody' : body ≠ [] := by
        rintro rfl
        exact hy' (Prod.mk.inj (Option.some.inj hy)).1.symm
      rw [if_neg hfour] at hstep
      exact ⟨_, [], [], f :: todo, hstep, rfl, (List.append_nil _).symm, hcrc,
        .crc todo hstate hknows (fun b hb => hplain b (List.mem_cons_of_mem _ hb)) hy hlast hbody'
          hbytes hdigest hbuffer⟩

/-- Every byte that is expected is taken. -/
theorem step_expects {withCrcCheck : Bool} {s : SerialFrameReader} (hcrc : s.withCrcCheck = withCrcCheck)
    {b : UInt8} {rem : Bytes} {todo : List Sent} (hall : ∀ f ∈ todo, f.HeadReads)
    (h : Expects withCrcCheck s (b :: rem) todo) :
    ∃ s' ids done todo', s.step b = (s', .ok ids) ∧ todo = done ++ todo' ∧
      Goes withCrcCheck s s' rem done todo' := by
  obtain ⟨rem', hrem⟩ : ∃ rem', rem' = b :: rem := ⟨_, rfl⟩
  rw [← hrem] at h
  cases h with
  | idle todo hquiet =>
    cases todo with
    | nil => exact absurd hrem nofun
    | cons f todo =>
      rw [wire_cons] at hrem
      obtain ⟨rfl, rfl⟩ := List.cons.inj hrem
      obtain ⟨last, hlast, hbody⟩ := @unescape_escape STX (by decide) f.bytes
      refine ⟨{ s.setState .WaitingForEtx with recentByte := STX }, [], [], f :: todo, rfl, rfl,
        (List.append_nil _).symm, hcrc, ?_⟩
      exact .etx todo rfl (.inl rfl) (plain_escape _) hbody hlast rfl rfl
  | @etx f body rest last todo hstate hknows hplain hbody hlast hbytes hdigest =>
    exact step_etx hcrc (hall f List.mem_cons_self) todo hstate hknows hplain hbody hlast hbytes
      hdigest hrem
  | @crc f body rest last todo hstate hknows hplain hbody hlast hne hbytes hdigest hbuffer =>
    exact step_crc hcrc (hall f List.mem_cons_self) todo hstate hknows hplain hbody hlast hne hbytes
      hdigest hbuffer hrem

/-! ## calls -/

/-- At the end of a call nothing is delivered. -/
theorem checkResponseId_expects {withCrcCheck : Bool} {s : SerialFrameReader}
    (hcrc : s.withCrcCheck = withCrcCheck) {rem : Bytes} {todo : List Sent}
    (hall : ∀ f ∈ todo, f.HeadReads) (h : Expects withCrcCheck s rem todo) :
    ∃ s' ids, s.checkResponseId = (s', .ok ids) ∧ Goes withCrcCheck s s' rem [] todo := by
  cases h with
  | idle todo hquiet =>
    obtain ⟨s', ids, hcheck, hframes, hcrc', hquiet'⟩ := hquiet.checkResponseId
    exact ⟨s', ids, hcheck, hframes.trans (List.append_nil _).symm, hcrc'.trans hcrc,
      .idle todo hquiet'⟩
  | @etx f body rest last todo hstate hknows hplain hbody hlast hbytes hdigest =>
    obtain ⟨reader, ids, hcheck, hframes, hknows', -⟩ :=
      checkResponseId_sent (hall f List.mem_cons_self) hknows hbytes
    exact ⟨_, ids, hcheck, hframes.trans (List.append_nil _).symm, hcrc,
      .etx todo hstate hknows' hplain hbody hlast hbytes hdigest⟩
  | @crc f body rest last todo hstate hknows hplain hbody hlast hne hbytes hdigest hbuffer =>
    obtain ⟨reader, ids, hcheck, hframes, hknows', -⟩ :=
      checkResponseId_sent (hall f List.mem_cons_self) hknows
        (show s.readBuffer ++ [] = f.bytes by rw [List.append_nil, hbytes])
    exact ⟨_, ids, hcheck, hframes.trans (List.append_nil _).symm, hcrc,
      .crc todo hstate hknows' hplain hbody hlast hne hbytes hdigest hbuffer⟩

/-- A call takes a part of the bytes that are expected. -/
theorem addData_expects {withCrcCheck : Bool} (data : Bytes) {s : SerialFrameReader}
    (hcrc : s.withCrcCheck = withCrcCheck) {rem : Bytes} {todo : List Sent}
    (hall : ∀ f ∈ todo, f.HeadReads) (h : Expects withCrcCheck s (data ++ rem) todo) :
    ∃ s' ids done todo', s.addData data = (s', .ok ids) ∧ todo = done ++ todo' ∧
      Goes withCrcCheck s s' rem done todo' := by
  induction data generalizing s todo with
  | nil =>
    obtain ⟨s', ids, hcheck, hgoes⟩ := checkResponseId_expects hcrc hall h
    exact ⟨s', ids, [], todo, hcheck, rfl, hgoes⟩
  | cons b data ih =>
    obtain ⟨s', ids, done, todo', hstep, rfl, hframes, hcrc', hexpects⟩ := step_expects hcrc hall h
    obtain ⟨s'', ids', done', todo'', hmore, rfl, hframes', hcrc'', hexpects'⟩ :=
      ih hcrc' (fun f hf => hall f (List.mem_append_right _ hf)) hexpects
    refine ⟨s'', ids ++ ids', done ++ done', todo'', ?_, (List.append_assoc _ _ _).symm, ?_, hcrc'',
      hexpects'⟩
    · rw [addData, hstep]
      simp only [hmore]
    · rw [hframes', hframes, List.map_append, List.append_assoc]

/-- Successive calls of `addData`, up to an exception. -/
def addAll (s : SerialFrameReader) : List Bytes → SerialFrameReader × Except Fault (List Int64)
  | [] => (s, .ok [])
  | data :: chunks =>
    match s.addData data with
    | (s, .error e) => (s, .error e)
    | (s, .ok ids) =>
      match addAll s chunks with
      | (s, .error e) => (s, .error e)
      | (s, .ok ids') => (s, .ok (ids ++ ids'))

/-- However the bytes are cut, the frames are delivered in order. -/
theorem addAll_expects {withCrcCheck : Bool} (chunks : List Bytes) {s : SerialFrameReader}
    (hcrc : s.withCrcCheck = withCrcCheck) {todo : List Sent} (hall : ∀ f ∈ todo, f.HeadReads)
    (h : Expects withCrcCheck s chunks.flatten todo) :
    ∃ s' ids, s.addAll chunks = (s', .ok ids) ∧ s'.frames = s.frames ++ todo.map Sent.frame := by
  induction chunks generalizing s todo with
  | nil =>
    have htodo : todo = [] := by
      obtain ⟨rem, hrem⟩ : ∃ rem : Bytes, rem = [] := ⟨_, rfl⟩
      rw [List.flatten_nil, ← hrem] at h
      cases h with
      | idle todo hquiet =>
        cases todo with
        | nil => rfl
        | cons f todo => exact absurd hrem nofun
      | etx todo => simp at hrem
      | crc todo _ _ _ _ _ hne => exact absurd (List.append_eq_nil_iff.mp hrem).1 hne
    subst htodo
    exact ⟨s, [], rfl, (List.append_nil _).symm⟩
  | cons data chunks ih =>
    rw [List.flatten_cons] at h
    obtain ⟨s', ids, done, todo', hdata, rfl, hframes, hcrc', hexpects⟩ :=
      addData_expects data hcrc hall h
    obtain ⟨s'', ids', hmore, hframes'⟩ :=
      ih hcrc' (fun f hf => hall f (List.mem_append_right _ hf)) hexpects
    refine ⟨s'', ids ++ ids', ?_, ?_⟩
    · rw [addAll, hdata]
      simp only [hmore]
    · rw [hframes', hframes, List.map_append, List.append_assoc]

end LibShv.SerialFrameReader
