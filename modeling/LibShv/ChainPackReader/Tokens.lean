import LibShv.ChainPackReader
import LibShv.AbstractStreamReader.Encodes
import LibShv.CChainPack.Items

/-!
# LibShv.ChainPackReader.Tokens

What the reader does with a single item: how it looks for metadata, what it
unpacks from the bytes of a packed item, and what it does at the end of the stream.
-/

namespace LibShv.ChainPackReader

open ByteReader AbstractStreamReader

/-! ## the next item -/

theorem solid_unpackNext : UnpackSolid unpackNext :=
  solid_cchainpackUnpackNext.bind fun _ => solid_getItem

/-- Nothing is unpacked any more once an error is pending. -/
theorem unpackNext_of_errNo {c : Cursor UnpackContext} (h : c.reg.errNo ≠ .ok) :
    unpackNext c = .error (.parse c.reg.errNo c.reg.errMsg) c :=
  bind_of_error (cchainpackUnpackNext_of_errNo h)

/-- The item left in the context is the item unpacked. -/
theorem encodesItem_of_leaves {F : UInt8 → Prop} {bs : Bytes} {item : CCpcpItem}
    (h : Consumes cchainpackUnpackNext bs F UnpackContext.Ready (Leaves item)) :
    reader.EncodesItem F bs item := by
  refine Reads.of_solid solid_unpackNext.benign fun c rest hc hrest hP => ?_
  obtain ⟨u, c', hu, hi, he, hitem, herr⟩ := h c rest hc hrest hP
  refine ⟨c'.reg.item, c', ?_, hi, he, hitem, hitem, herr⟩
  exact (bind_of_ok hu).trans (getItem_apply c')

/-- An unfinished string takes a byte. -/
theorem unpackString_nil {it : CCpcpString} (hlive : it.Live) (hlast : it.lastChunk = false)
    {c : Cursor UnpackContext} (h : c.input = []) :
    unpackString it c = .error (.parse .bufferUnderflow "") { c with atEnd := true } := by
  have hbuff : stringChunkBuffLen = 255 + 1 := rfl
  rw [unpackString, hbuff]
  by_cases hs : it.stringSize < 0
  · rw [if_pos hs, unpackCStringChunk]
    exact bind_of_error (bind_of_error (unpackTakeByte_nil h))
  · have hpos : it.sizeToLoad > 0 := by
      rcases hlive with hl | hl | hl
      · rw [hlast] at hl
        contradiction
      · exact absurd hl hs
      · exact hl
    rw [if_neg hs, unpackSizedChunk, if_pos hpos]
    exact bind_of_error (bind_of_error (unpackTakeByte_nil h))

theorem failsDead_unpackNext : FailsDead Dead Fault.Benign unpackNext := by
  intro c hc
  by_cases herr : c.reg.errNo = .ok
  · obtain ⟨hi, hlive⟩ := hc.ended herr
    refine ⟨.parse .bufferUnderflow "", { c with atEnd := true }, bind_of_error ?_,
      benign_parse _ _⟩
    by_cases hfin : c.reg.item.Finished
    · rw [unpackNext_of_ready ⟨herr, hfin⟩]
      exact bind_of_error (unpackTakeByte_nil hi)
    · rw [cchainpackUnpackNext, bind_of_ok (checkErrNo_of_ok herr), bind_of_ok (getItem_apply c)]
      cases hitem : c.reg.item with
      | string it =>
        rw [hitem] at hlive hfin
        have hlast : it.lastChunk = false := Bool.eq_false_iff.mpr hfin
        simp only [hlast, Bool.false_eq_true, if_false]
        exact bind_of_error (unpackString_nil hlive hlast hi)
      | blob it =>
        rw [hitem] at hlive hfin
        have hlast : it.lastChunk = false := Bool.eq_false_iff.mpr hfin
        simp only [hlast, Bool.false_eq_true, if_false]
        exact bind_of_error (unpackString_nil hlive hlast hi)
      | _ =>
        rw [hitem] at hfin
        exact absurd trivial hfin
  · exact ⟨_, _, unpackNext_of_errNo herr, benign_parse _ _⟩

/-! ## looking for metadata -/

theorem metaDataBegin_nil {c : Cursor UnpackContext} (h : c.input = []) :
    metaDataBegin c = .ok false
      { c with atEnd := true, reg := { c.reg with errNo := .bufferUnderflow } } := by
  rw [metaDataBegin, bind_of_ok (unpackPeekByte?_nil h)]
  rfl

theorem metaDataBegin_cons {c : Cursor UnpackContext} {b : UInt8} {bs : Bytes}
    (h : c.input = b :: bs) :
    metaDataBegin c = (if b = CP_MetaMap then do
        cchainpackUnpackNext
        return true
      else return false) { c with last := b } := by
  rw [metaDataBegin, bind_of_ok (unpackPeekByte?_cons h)]

theorem dead_metaDataBegin_nil {c : Cursor UnpackContext} (h : c.input = []) :
    Dead { c with atEnd := true, reg := { c.reg with errNo := .bufferUnderflow } } :=
  dead_of_errNo rfl (by rw [h]; exact Nat.zero_le 1) nofun

theorem passes {b : UInt8} (hb : b ≠ CP_MetaMap) : reader.Passes [] b where
  whole c xs hc _ := by
    refine ⟨b, ?_⟩
    rw [List.nil_append] at hc
    change metaDataBegin c = _
    rw [metaDataBegin_cons hc, if_neg hb, ← hc]
    rfl
  part c ys hc hys he _ := by
    have hnil : c.input = [] := by
      have hlen := congrArg List.length hc
      have hpos := List.length_pos_iff.mpr hys
      simp only [List.nil_append, List.length_append, List.length_singleton] at hlen
      exact List.eq_nil_of_length_eq_zero (by omega)
    exact ⟨_, metaDataBegin_nil hnil, dead_metaDataBegin_nil hnil⟩

theorem begins : reader.Begins [CP_MetaMap] := by
  have hnext : Unpacks (do cchainpackUnpackNext; return true : Unpack Bool) ([CP_MetaMap] ++ []) Any
      UnpackContext.Ready fun found ctx => found = true ∧ ctx.Ready := by
    refine Reads.bind_solid solid_cchainpackUnpackNext.benign
      (@consumes_next_schema Any CP_MetaMap .metaMap rfl) fun _ => ?_
    exact Reads.pure fun ctx h => ⟨rfl, h.2, h.1 ▸ trivial⟩
  constructor
  · intro c rest hc hrest hP
    change ∃ a c', metaDataBegin c = _ ∧ _
    rw [metaDataBegin_cons hc, if_pos rfl]
    exact hnext.whole { c with last := CP_MetaMap } rest hc hrest hP
  · intro c ys hc hys he hP
    have hnil : c.input = [] := by
      have hlen := congrArg List.length hc
      have hpos := List.length_pos_iff.mpr hys
      simp only [List.length_append, List.length_singleton] at hlen
      exact List.eq_nil_of_length_eq_zero (by omega)
    change Starved Dead Fault.Benign (metaDataBegin c)
    rw [metaDataBegin_nil hnil]
    exact dead_metaDataBegin_nil hnil

theorem lawful : reader.Lawful where
  failsDead_unpackNext := failsDead_unpackNext
  dead_metaDataBegin c hc := by
    have hbegin : reader.metaDataBegin c = metaDataBegin c := rfl
    rw [hbegin]
    cases hi : c.input with
    | nil =>
      rw [metaDataBegin_nil hi]
      exact ⟨rfl, dead_metaDataBegin_nil hi⟩
    | cons b bs =>
      have herr : c.reg.errNo ≠ .ok := by
        intro h
        rw [(hc.ended h).1] at hi
        contradiction
      by_cases hb : b = CP_MetaMap
      · have hm : metaDataBegin c =
            .error (.parse c.reg.errNo c.reg.errMsg) { c with last := b } := by
          rw [metaDataBegin_cons hi, if_pos hb]
          exact bind_of_error (cchainpackUnpackNext_of_errNo herr)
        rw [hm]
        exact benign_parse _ _
      · rw [metaDataBegin_cons hi, if_neg hb]
        exact ⟨rfl, hc.atEnd, hc.short, hc.ended⟩
  isParse_parseException _ _ := trivial

/-! ## strings and blobs -/

section Chunks

variable {wrap : CCpcpString → CCpcpItem}

/-- The next chunk of an unfinished string, delivered from the context. -/
abbrev Continues (wrap : CCpcpString → CCpcpItem) : Prop :=
  ∀ (c : Cursor UnpackContext) (it : CCpcpString), c.reg.errNo = .ok → c.reg.item = wrap it →
    it.lastChunk = false →
    cchainpackUnpackNext c = (do setItem (wrap (← unpackString it)) : Unpack Unit) c

theorem continues_string : Continues CCpcpItem.string := by
  intro c it herr hitem hlast
  rw [cchainpackUnpackNext, bind_of_ok (checkErrNo_of_ok herr), bind_of_ok (getItem_apply c), hitem]
  simp only [hlast, Bool.false_eq_true, if_false]

theorem continues_blob : Continues CCpcpItem.blob := by
  intro c it herr hitem hlast
  rw [cchainpackUnpackNext, bind_of_ok (checkErrNo_of_ok herr), bind_of_ok (getItem_apply c), hitem]
  simp only [hlast, Bool.false_eq_true, if_false]

/-- The next chunk of `s`. -/
theorem unpacks_chunk (hw : Continues wrap) {it : CCpcpString} {s : Bytes}
    (hs : s.length < 2 ^ 63) (hsize : ¬ it.stringSize < 0)
    (hload : it.sizeToLoad = Int64.ofNat s.length) (hlast : it.lastChunk = false) :
    Unpacks unpackNext (s.take stringChunkBuffLen) Any
      (fun ctx => ctx.item = wrap it ∧ ctx.errNo = .ok) (Unpacked (wrap (it.deliver s))) := by
  refine Reads.of_solid solid_unpackNext.benign ?_
  intro c rest hc hrest hP
  obtain ⟨a, c', h, hi, he, rfl, herr⟩ := consumes_unpackString (F := Any)
    (P := fun ctx => ctx.errNo = .ok) hs hsize hload c rest hc hrest hP.2
  refine ⟨wrap (it.deliver s), { c' with reg := { c'.reg with item := wrap (it.deliver s) } }, ?_,
    hi, he, rfl, rfl, herr⟩
  rw [unpackNext, bind_apply, hw c it hP.2 hP.1 hlast, bind_of_ok h]
  rfl

/-- The chunks of `s` behind the first one. The induction is on the length of `s`. -/
theorem chunks_deliver (hw : Continues wrap) (s : Bytes) (it : CCpcpString)
    (hs : s.length < 2 ^ 63) (hsize : ¬ it.stringSize < 0) :
    reader.Chunks wrap (it.deliver s) (s.drop stringChunkBuffLen) s := by
  induction hk : s.length using Nat.strongRecOn generalizing s it with
  | ind k ih =>
    have hbuff : stringChunkBuffLen = 256 := rfl
    have hlen := List.length_drop (i := stringChunkBuffLen) (l := s)
    by_cases hle : s.length ≤ stringChunkBuffLen
    · have hlast : (it.deliver s).lastChunk = true := decide_eq_true hle
      have hchunk : (it.deliver s).chunk = s := List.take_of_length_le hle
      have h : reader.Chunks wrap (it.deliver s) [] _ := .last hlast
      rw [hchunk] at h
      rwa [List.drop_eq_nil_of_le hle]
    · have hshort : (s.drop stringChunkBuffLen).length < k := by omega
      have hs' : (s.drop stringChunkBuffLen).length < 2 ^ 63 := by omega
      have hlast : (it.deliver s).lastChunk = false := decide_eq_false hle
      have hload : (it.deliver s).sizeToLoad = Int64.ofNat (s.drop stringChunkBuffLen).length := by
        rw [hlen]
        rfl
      have hsize' : ¬ (it.deliver s).stringSize < 0 := by
        rw [CCpcpString.stringSize_deliver]
        exact hsize
      have hrest := ih _ hshort (s.drop stringChunkBuffLen) (it.deliver s) hs' hsize' rfl
      have hne : (s.drop stringChunkBuffLen).take stringChunkBuffLen ≠ [] := by
        intro h
        have := congrArg List.length h
        rw [List.length_take, List.length_nil] at this
        omega
      have h := Chunks.more hlast (CCpcpString.live_deliver hs') hne
        (unpacks_chunk hw hs' hsize' hload hlast) hrest
      have hchunk : (it.deliver s).chunk = s.take stringChunkBuffLen := rfl
      rwa [List.take_append_drop, hchunk, List.take_append_drop] at h

end Chunks

end LibShv.ChainPackReader
