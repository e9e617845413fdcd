import LibShv.FrameWriter
import LibShv.StreamFrameReader

/-!
# LibShv.StreamFrameReader.Lossless

Frames whose heads can be read come out of the stream as they went in, whatever the
pieces in which the stream arrives.

Between two calls the buffer holds the beginning of the next frame, and the head of it
has been read or not (`Waits`). A round of the loop takes a whole frame, or reads the
head that has become complete; one induction over the frames to come does the rest.
-/

namespace LibShv

open ByteReader FrameReader

namespace StreamFrameReader

/-! ## frames on the stream -/

/-- The bytes that declare the length of a frame. -/
def lenData (f : Sent) : Bytes := packUintData (UInt64.ofNat f.bytes.length)

theorem toNat_length {f : Sent} (h : f.HeadReads) :
    (UInt64.ofNat f.bytes.length).toNat = f.bytes.length := by
  have hlt := h.length
  rw [maxSize] at hlt
  rw [UInt64.toNat_ofNat', Nat.mod_eq_of_lt (by omega)]

/-- The frames on the stream. -/
def wire (sent : List Sent) : Bytes := sent.flatMap fun f => lenData f ++ f.bytes

theorem wire_cons (f : Sent) (sent : List Sent) :
    wire (f :: sent) = lenData f ++ (f.bytes ++ wire sent) := by
  rw [wire, List.flatMap_cons, List.append_assoc]
  rfl

/-! ## reading the length -/

theorem readFrameLength_lenData (f : Sent) (rest : Bytes) :
    readFrameLength (lenData f ++ rest) =
      .ok ((lenData f).length, UInt64.ofNat f.bytes.length) := by
  obtain ⟨bitlen, c, hc, hi⟩ := unpackUint_whole (UInt64.ofNat f.bytes.length) rest
  rw [readFrameLength, lenData, hc]
  simp only [hi, List.length_append, Nat.add_sub_cancel]

theorem readFrameLength_part {f : Sent} {bs ys : Bytes} (h : lenData f = bs ++ ys) (hys : ys ≠ []) :
    readFrameLength bs = .error (.parse .bufferUnderflow "") := by
  obtain ⟨c, hc⟩ := unpackUint_part h hys
  rw [readFrameLength, hc]

/-! ## between two calls -/

/-- What the reader knows of the first frame to come: nothing yet, or its head. -/
def Knows (todo : List Sent) (s : StreamFrameReader) : Prop :=
  ∀ f rest, todo = f :: rest → s.toFrameReader.Knows (lenData f).length f

/-- The request id that has been returned for a frame not collected yet. -/
def announced (todo : List Sent) (s : StreamFrameReader) : List Int64 :=
  (todo.take 1).flatMap s.toFrameReader.announced

theorem announced_cons (f : Sent) (rest : List Sent) (s : StreamFrameReader) :
    announced (f :: rest) s = s.toFrameReader.announced f :=
  List.flatMap_singleton _ _

theorem knows_of_none {s : StreamFrameReader} (h : s.dataStart = none) (todo : List Sent) :
    Knows todo s := fun _ _ _ => .inl h

theorem announced_of_none {s : StreamFrameReader} (h : s.dataStart = none) (todo : List Sent) :
    announced todo s = [] := by
  cases todo with
  | nil => rfl
  | cons f rest =>
    rw [announced_cons, FrameReader.announced, h]
    rfl

/-- The reader waits for the rest of the first frame, `todo` being on the stream and `future` not
received yet. -/
structure Waits (todo : List Sent) (future : Bytes) (s : StreamFrameReader) : Prop where
  bytes : s.readBuffer ++ future = wire todo
  knows : Knows todo s
  short : ∀ f rest, todo = f :: rest → s.readBuffer.length < (lenData f ++ f.bytes).length

/-! ## one round -/

/-- A length that is not there yet is waited for. -/
theorem round_of_length_part {s : StreamFrameReader}
    (h : readFrameLength s.readBuffer = .error (.parse .bufferUnderflow "")) :
    s.round = (s, [], .enough) := by
  rw [round, h]

/-- A round with the length there. -/
theorem round_of_length {s : StreamFrameReader} {frameLenSize : Nat} {frameSize : UInt64}
    {reader : FrameReader} {rqid : Int64}
    (hlen : readFrameLength s.readBuffer = .ok (frameLenSize, frameSize)) (hne : frameLenSize ≠ 0)
    (htry : s.tryToReadMeta frameLenSize (s.readBuffer.drop frameLenSize) = (reader, .ok rqid)) :
    s.round =
      (({ s with toFrameReader := reader }.takeFrame (sizeAdd frameLenSize frameSize)).1,
        if 0 < rqid then [rqid] else [],
        ({ s with toFrameReader := reader }.takeFrame (sizeAdd frameLenSize frameSize)).2) := by
  rw [round]
  simp only [hlen, hne, if_false, htry]

/-- A frame with its head known is taken when it is whole. -/
theorem takeFrame_sent {f : Sent} (hf : f.HeadReads) {s : StreamFrameReader} {more : Bytes}
    (hbytes : s.readBuffer = lenData f ++ (f.bytes ++ more)) {frames : List RpcFrame}
    (hreader : s.toFrameReader = ⟨frames, f.head.protocol, f.head.metaData,
      some ((lenData f).length + f.head.size)⟩) :
    s.takeFrame ((lenData f).length + f.bytes.length) =
      (⟨⟨frames ++ [f.frame], f.head.protocol, .empty, none⟩, more⟩, .again) := by
  have hlt := hf.length
  have hle : (lenData f).length ≤ 9 := length_packUintData_le _
  have hsize := size_le_of_readHead hf.read
  rw [maxSize] at hlt
  have hwhole : (lenData f).length + f.bytes.length ≤ s.readBuffer.length := by
    rw [hbytes, List.length_append, List.length_append]
    omega
  have hsub : sizeSub ((lenData f).length + f.bytes.length) ((lenData f).length + f.head.size) =
      f.bytes.length - f.head.size := by
    rw [sizeSub_eq (by omega) (by omega)]
    omega
  have hdrop : s.readBuffer.drop ((lenData f).length + f.bytes.length) = more := by
    rw [hbytes, ← List.append_assoc, ← List.length_append, List.drop_left]
  have hdata : (s.readBuffer.drop ((lenData f).length + f.head.size)).take
      (f.bytes.length - f.head.size) = f.bytes.drop f.head.size := by
    rw [hbytes, ← List.drop_drop, List.drop_left, List.drop_append_of_le_length hsize,
      List.take_left' List.length_drop]
  rw [takeFrame, if_pos hwhole, hdrop]
  simp only [hreader, hsub, hdata]
  rfl

/-- A round of the loop takes the first frame, or waits for more of it. -/
theorem round_sent {f : Sent} (hf : f.HeadReads) {rest : List Sent} {s : StreamFrameReader}
    {future : Bytes} (hknows : Knows (f :: rest) s)
    (hbytes : s.readBuffer ++ future = wire (f :: rest)) :
    ∃ s' ids, (s.round = (s', ids, .enough) ∧ s'.frames = s.frames ∧ Waits (f :: rest) future s' ∧
        announced (f :: rest) s ++ ids = announced (f :: rest) s') ∨
      s.round = (s', ids, .again) ∧ s'.frames = s.frames ++ [f.frame] ∧ s'.dataStart = none ∧
        s'.readBuffer ++ future = wire rest ∧ announced (f :: rest) s ++ ids = f.rqids := by
  have hwaits : ∀ s' : StreamFrameReader, s'.readBuffer = s.readBuffer → Knows (f :: rest) s' →
      s.readBuffer.length < (lenData f ++ f.bytes).length → Waits (f :: rest) future s' := by
    intro s' hbuffer hknows' hshort
    refine ⟨by rw [hbuffer, hbytes], hknows', fun f' rest' heq => ?_⟩
    obtain ⟨rfl, rfl⟩ := List.cons.inj heq
    rw [hbuffer]
    exact hshort
  have hsplit := hbytes
  rw [wire_cons] at hsplit
  rcases append_cut hsplit.symm with ⟨ys, hys, hlen, -⟩ | ⟨content, hbuffer, hrest⟩
  · -- the length is cut
    have hpos := List.length_pos_iff.mpr hys
    have hshort : s.readBuffer.length < (lenData f ++ f.bytes).length := by
      rw [hlen, List.length_append, List.length_append]
      omega
    exact ⟨s, [], .inl ⟨round_of_length_part (readFrameLength_part hlen hys), rfl,
      hwaits s rfl hknows hshort, List.append_nil _⟩⟩
  have hcontent := hrest.symm
  have hlen : readFrameLength s.readBuffer =
      .ok ((lenData f).length, UInt64.ofNat f.bytes.length) := by
    rw [hbuffer]
    exact readFrameLength_lenData f content
  have hne : (lenData f).length ≠ 0 := by
    rw [Ne, List.length_eq_zero_iff]
    exact packUintData_ne_nil _
  have hdrop : s.readBuffer.drop (lenData f).length = content := by
    rw [hbuffer, List.drop_left]
  have hend : sizeAdd (lenData f).length (UInt64.ofNat f.bytes.length) =
      (lenData f).length + f.bytes.length := by
    have hlt := hf.length
    have hle : (lenData f).length ≤ 9 := length_packUintData_le _
    rw [maxSize] at hlt
    rw [sizeAdd_eq (by rw [toNat_length hf]; omega), toNat_length hf]
  obtain ⟨reader, rqid, htry, hframes, hresult⟩ :=
    tryToReadMeta_sent hf (hknows f rest rfl) hcontent
  have hround := round_of_length hlen hne (by rw [hdrop]; exact htry)
  rw [hend] at hround
  have htotal : s.readBuffer.length = (lenData f).length + content.length := by
    rw [hbuffer, List.length_append]
  have henough : content.length < f.bytes.length →
      s.round = ({ s with toFrameReader := reader }, if 0 < rqid then [rqid] else [], .enough) := by
    intro hshort
    rw [hround, takeFrame, if_neg (by simp only; omega)]
  have hshort' : content.length < f.bytes.length →
      s.readBuffer.length < (lenData f ++ f.bytes).length := by
    rw [List.length_append]
    omega
  rcases hresult with ⟨hnone, hpos, hstart, hshort⟩ | ⟨hreader, hannounced⟩
  · refine ⟨_, _, .inl ⟨henough hshort, hframes,
      hwaits _ rfl (knows_of_none hnone _) (hshort' hshort), ?_⟩⟩
    rw [if_neg hpos, announced_of_none hstart, announced_of_none hnone]
    rfl
  · subst hreader
    by_cases hshort : content.length < f.bytes.length
    · refine ⟨_, _, .inl ⟨henough hshort, rfl,
        hwaits _ rfl ?_ (hshort' hshort), ?_⟩⟩
      · intro f' rest' heq
        obtain ⟨rfl, rfl⟩ := List.cons.inj heq
        exact .inr rfl
      · rw [announced_cons, hannounced, announced_cons]
        rfl
    · rcases append_cut hrest with ⟨ys, hys, hlack, -⟩ | ⟨more, hmore, hrest'⟩
      · rw [hlack, List.length_append] at hshort
        have hpos := List.length_pos_iff.mpr hys
        omega
      · rw [takeFrame_sent hf (by rw [← hmore]; exact hbuffer) rfl] at hround
        rw [announced_cons]
        exact ⟨_, _, .inr ⟨hround, rfl, rfl, hrest'.symm, hannounced⟩⟩

/-! ## calls -/

/-- The loop takes the frames that are whole, and waits for the rest of the next one. -/
theorem addDataLoop_sent {future : Bytes} (todo : List Sent) (hall : ∀ f ∈ todo, f.HeadReads)
    {n : Nat} (hn : todo.length < n) {s : StreamFrameReader} (hknows : Knows todo s)
    (hbytes : s.readBuffer ++ future = wire todo) :
    ∃ s' ids done rest, addDataLoop n s = (s', .ok ids) ∧ todo = done ++ rest ∧
      s'.frames = s.frames ++ done.map Sent.frame ∧ Waits rest future s' ∧
      announced todo s ++ ids = done.flatMap Sent.rqids ++ announced rest s' := by
  induction todo generalizing n s with
  | nil =>
    cases n with
    | zero => omega
    | succ n =>
      have hempty : s.readBuffer = [] := (List.append_eq_nil_iff.mp hbytes).1
      have hround : s.round = (s, [], .enough) := round_of_length_part (by rw [hempty]; rfl)
      refine ⟨s, [], [], [], ?_, rfl, (List.append_nil _).symm, ⟨hbytes, hknows, nofun⟩, ?_⟩
      · rw [addDataLoop, hround]
      · rw [List.append_nil]
        rfl
  | cons f rest ih =>
    cases n with
    | zero => simp at hn
    | succ n =>
      have hf := hall f List.mem_cons_self
      obtain ⟨s', ids, ⟨hround, hframes, hwaits, hids⟩ | ⟨hround, hframes, hnone, hrest, hids⟩⟩ :=
        round_sent hf hknows hbytes
      · refine ⟨s', ids, [], f :: rest, ?_, rfl, ?_, hwaits, hids⟩
        · rw [addDataLoop, hround]
        · rw [hframes, List.map_nil, List.append_nil]
      · obtain ⟨s'', ids', done, rest', hloop, rfl, hframes', hwaits, hids'⟩ :=
          ih (fun f' hf' => hall f' (List.mem_cons_of_mem _ hf')) (Nat.succ_lt_succ_iff.mp hn)
            (knows_of_none hnone _) hrest
        rw [announced_of_none hnone, List.nil_append] at hids'
        refine ⟨s'', ids ++ ids', f :: done, rest', ?_, rfl, ?_, hwaits, ?_⟩
        · rw [addDataLoop, hround]
          simp only [hloop]
        · rw [hframes', hframes, List.map_cons, List.append_assoc, List.singleton_append]
        · rw [← List.append_assoc, hids, hids', List.flatMap_cons, List.append_assoc]

/-- Successive calls of `addData`, up to an exception, and the request ids of all of them. -/
def addAll (n : Nat) (s : StreamFrameReader) :
    List Bytes → StreamFrameReader × Except Fault (List Int64)
  | [] => (s, .ok [])
  | data :: chunks =>
    match s.addData n data with
    | (s, .error e) => (s, .error e)
    | (s, .ok ids) =>
      match addAll n s chunks with
      | (s, .error e) => (s, .error e)
      | (s, .ok ids') => (s, .ok (ids ++ ids'))

/-- However the bytes to come are cut, the frames on the stream are collected in order, and
each is announced once. -/
theorem addAll_sent (chunks : List Bytes) {todo : List Sent} (hall : ∀ f ∈ todo, f.HeadReads)
    {n : Nat} (hn : todo.length < n) {s : StreamFrameReader}
    (hwaits : Waits todo chunks.flatten s) :
    ∃ s' ids, addAll n s chunks = (s', .ok ids) ∧
      s'.frames = s.frames ++ todo.map Sent.frame ∧
      announced todo s ++ ids = todo.flatMap Sent.rqids := by
  induction chunks generalizing todo s with
  | nil =>
    cases todo with
    | nil =>
      refine ⟨s, [], rfl, (List.append_nil _).symm, ?_⟩
      rw [List.append_nil]
      rfl
    | cons f rest =>
      have hbytes : s.readBuffer = wire (f :: rest) := by
        rw [← hwaits.bytes, List.flatten_nil, List.append_nil]
      have hshort := hwaits.short f rest rfl
      rw [hbytes, wire_cons, ← List.append_assoc, List.length_append] at hshort
      omega
  | cons data chunks ih =>
    have hbytes : (s.receive data).readBuffer ++ chunks.flatten = wire todo := by
      rw [← hwaits.bytes, List.flatten_cons, ← List.append_assoc]
      rfl
    obtain ⟨s', ids, done, rest, hloop, rfl, hframes, hwaits', hids⟩ :=
      addDataLoop_sent todo hall hn (s := s.receive data) hwaits.knows hbytes
    obtain ⟨s'', ids', hmore, hframes', hids'⟩ :=
      ih (fun f hf => hall f (List.mem_append_right _ hf))
        (by rw [List.length_append] at hn; omega) hwaits'
    refine ⟨s'', ids ++ ids', ?_, ?_, ?_⟩
    · rw [addAll, addData, hloop]
      simp only [hmore]
    · rw [hframes', hframes, List.map_append, List.append_assoc]
      rfl
    · have hsame : announced (done ++ rest) (s.receive data) = announced (done ++ rest) s := rfl
      rw [← hsame, ← List.append_assoc, hids, List.append_assoc, hids', List.flatMap_append]

end StreamFrameReader

end LibShv
