import LibShv.ChainPackReader.RoundTrip
import LibShv.AbstractStreamReader.Total

/-!
# LibShv.ChainPackReader.Total

The ChainPack reader takes a byte for every item and every chunk and never
returns after touching the end of the stream.
-/

namespace LibShv.ChainPackReader

open ByteReader AbstractStreamReader

/-! ## every chunk takes a byte -/

theorem sizeToLoad_nonneg (room : Nat) {sizeToLoad : Int64} {chunk : Bytes}
    {c c' : Cursor UnpackContext} {a : Bytes × Int64} (h₀ : 0 ≤ sizeToLoad)
    (h : unpackSizedChunk room sizeToLoad chunk c = .ok a c') : 0 ≤ a.2 := by
  induction room generalizing sizeToLoad chunk c with
  | zero =>
    obtain ⟨rfl, rfl⟩ : (chunk, sizeToLoad) = a ∧ c = c' := by simpa [unpackSizedChunk] using h
    exact h₀
  | succ room ih =>
    rw [unpackSizedChunk] at h
    by_cases hpos : sizeToLoad > 0
    · rw [if_pos hpos] at h
      obtain ⟨p, c₁, -, h₂⟩ := bind_eq_ok.mp h
      have h0 : Int64.toInt 0 = 0 := rfl
      have h1 : Int64.toInt 1 = 1 := rfl
      have hp : 0 < sizeToLoad.toInt := Int64.lt_iff_toInt_lt.mp hpos
      have hlt := sizeToLoad.toInt_lt
      have hsub : (sizeToLoad - 1).toInt = sizeToLoad.toInt - 1 := by
        rw [Int64.toInt_sub, h1, Int.bmod_eq_of_le (by omega) (by omega)]
      refine ih ?_ h₂
      rw [Int64.le_iff_toInt_le, hsub, h0]
      omega
    · rw [if_neg hpos] at h
      obtain ⟨rfl, rfl⟩ : (chunk, sizeToLoad) = a ∧ c = c' := by simpa using h
      exact h₀

/-- A chunk leaves the string live, and one of an unfinished string takes a byte. -/
theorem live_unpackString {it a : CCpcpString} {c c' : Cursor UnpackContext}
    (hit : it.stringSize < 0 ∨ 0 ≤ it.sizeToLoad) (h : unpackString it c = .ok a c') :
    a.Live := by
  rw [unpackString] at h
  by_cases hs : it.stringSize < 0
  · rw [if_pos hs] at h
    obtain ⟨x, c₁, -, h₂⟩ := bind_eq_ok.mp h
    obtain ⟨rfl, -⟩ : _ = a ∧ c₁ = c' := by simpa using h₂
    exact .inr (.inl hs)
  · rw [if_neg hs] at h
    obtain ⟨x, c₁, h₁, h₂⟩ := bind_eq_ok.mp h
    obtain ⟨rfl, -⟩ : _ = a ∧ c₁ = c' := by simpa using h₂
    have hnonneg := sizeToLoad_nonneg _ (hit.resolve_left hs) h₁
    by_cases hz : x.2 = 0
    · exact .inl (beq_iff_eq.mpr hz)
    · exact .inr (.inr (Int64.lt_of_le_of_ne hnonneg fun he => hz he.symm))

theorem progress_takeByte_bind {α : Type} {f : UInt8 → Unpack α} (hf : ∀ b, UnpackSolid (f b))
    {c c' : Cursor UnpackContext} {a : α} (h : (unpackTakeByte >>= f) c = .ok a c') :
    c'.input.length < c.input.length := by
  obtain ⟨b, c₁, h₁, h₂⟩ := bind_eq_ok.mp h
  have hle := (hf b).safe c₁
  rw [h₂] at hle
  cases hc : c.input with
  | nil =>
    rw [unpackTakeByte_nil hc] at h₁
    contradiction
  | cons x xs =>
    rw [unpackTakeByte_cons hc] at h₁
    obtain ⟨-, rfl⟩ : x = b ∧ _ = c₁ := by simpa using h₁
    have hle' : c'.input.length ≤ xs.length := hle.2.1
    rw [List.length_cons]
    omega

theorem progress_unpackString {it a : CCpcpString} {c c' : Cursor UnpackContext}
    (hlive : it.Live) (hlast : it.lastChunk = false) (h : unpackString it c = .ok a c') :
    c'.input.length < c.input.length := by
  have hbuff : stringChunkBuffLen = 255 + 1 := rfl
  rw [unpackString, hbuff] at h
  by_cases hs : it.stringSize < 0
  · rw [if_pos hs] at h
    obtain ⟨x, c₁, h₁, h₂⟩ := bind_eq_ok.mp h
    obtain ⟨-, rfl⟩ : _ = a ∧ c₁ = c' := by simpa using h₂
    refine progress_takeByte_bind (fun p => ?_) h₁
    refine Solid.ite (solid_unpackTakeByte.bind fun q => ?_) ?_
    · exact Solid.ite (Solid.pure _) (Solid.pure _)
    · exact Solid.ite (Solid.pure _) (solid_unpackCStringChunk _ _)
  · rw [if_neg hs] at h
    obtain ⟨x, c₁, h₁, h₂⟩ := bind_eq_ok.mp h
    obtain ⟨-, rfl⟩ : _ = a ∧ c₁ = c' := by simpa using h₂
    have hpos : 0 < it.sizeToLoad := by
      rcases hlive with hl | hl | hl
      · rw [hlast] at hl
        contradiction
      · exact absurd hl hs
      · exact hl
    rw [unpackSizedChunk, if_pos hpos] at h₁
    exact progress_takeByte_bind (fun p => solid_unpackSizedChunk _ _ _) h₁

/-! ## the next item -/

theorem live_unpackSizedString {c c' : Cursor UnpackContext} {a : CCpcpString}
    (h : unpackSizedString c = .ok a c') : a.Live := by
  obtain ⟨⟨size, bitlen⟩, c₁, -, h₂⟩ := bind_eq_ok.mp h
  refine live_unpackString ?_ h₂
  have h0 : Int64.toInt 0 = 0 := rfl
  simp only [Int64.lt_iff_toInt_lt, Int64.le_iff_toInt_le, h0]
  omega

theorem live_unpackItem (b : UInt8) :
    Triple (fun _ => True) (unpackItem b) (fun item _ => item.Live) fun _ => True := by
  have hof : ∀ {α : Type} (p : Unpack α), Triple (fun _ => True) p (fun _ _ => True) fun _ => True := by
    intro α p c _
    cases p c <;> trivial
  have hsized : Triple (fun _ => True) unpackSizedString (fun a _ => a.Live) fun _ => True := by
    intro c _
    cases h : unpackSizedString c with
    | ok a c' => exact live_unpackSizedString h
    | error e c' => trivial
  have hcstring : Triple (fun _ => True) (unpackString .init) (fun a _ => a.Live)
      fun _ => True := by
    intro c _
    cases h : unpackString .init c with
    | ok a c' => exact live_unpackString (.inl (by decide)) h
    | error e c' => trivial
  have hdate : Triple (fun _ => True) (do packedDateTimeItem (← unpackInt))
      (fun item _ => item.Live) fun _ => True := by
    refine (hof unpackInt).bind fun d => ?_
    rw [packedDateTimeItem]
    cases unpackedDateTime d with
    | none => exact fun _ _ => trivial
    | some x => exact fun _ _ => trivial
  unfold unpackItem
  repeat' apply Triple.ite
  all_goals first
    | exact Triple.pure fun _ _ => trivial
    | exact (hof _).bind fun _ => Triple.pure fun _ _ => trivial
    | exact (hof _).bind fun _ => (hof _).bind fun _ => Triple.pure fun _ _ => trivial
    | exact hdate
    | exact hsized.bind fun _ => Triple.pure fun _ h => h
    | exact hcstring.bind fun _ => Triple.pure fun _ h => h
    | exact fun _ _ => trivial

theorem ne_outOfFuel_of_isParse {e : Fault} (h : e.IsParse) : e ≠ .outOfFuel := by
  rintro rfl
  exact h

theorem extends_unpackPeekByte? : Extends unpackPeekByte? unpackPeekByte? := by
  refine Extends.peek?.bind fun o => ?_
  cases o with
  | some b => exact Extends.pure _
  | none => exact (Extends.modifyReg _).bind fun _ => Extends.pure _

/-- The end of the stream has not been touched. -/
abbrev Untouched (atEnd : Bool) : Prop := atEnd = false

/-- Between two items the next one takes at least a byte. -/
theorem triple_unpackNext (k : Nat) :
    Triple (Within Untouched k) unpackNext
      (fun item c => Arrived Untouched (k - 1) item c ∧ item.Live) (· ≠ .outOfFuel) := by
  intro c hc
  have hsafe := solid_unpackNext.safe c
  cases h : unpackNext c with
  | error e c' =>
    rw [h] at hsafe
    exact ne_outOfFuel_of_isParse hsafe
  | ok item c' =>
    rw [h] at hsafe
    obtain ⟨u, c₁, h₁, h₂⟩ := bind_eq_ok.mp h
    rw [unpackNext_of_ready hc.ready] at h₁
    obtain ⟨hitem, rfl⟩ : c₁.reg.item = item ∧ c₁ = c' := by simpa [getItem_apply] using h₂
    have hlt := progress_takeByte_bind
      (fun b => (solid_unpackItem b).bind fun _ => solid_setItem _) h₁
    obtain ⟨b, c₂, -, h₃⟩ := bind_eq_ok.mp h₁
    obtain ⟨a, c₃, h₄, h₅⟩ := bind_eq_ok.mp h₃
    obtain rfl : _ = c₁ := by simpa [setItem_apply] using h₅
    have hk := hc.length
    exact ⟨⟨by omega, hsafe.1.trans hc.atEnd, hsafe.2.2 hc.ready.errNo, hitem⟩,
      hitem ▸ (live_unpackItem b).of_ok trivial h₄⟩

/-- The next chunk of an unfinished string takes at least a byte. -/
theorem triple_unpackNext_chunk {wrap : CCpcpString → CCpcpItem} (hw : Continues wrap)
    (hlivew : ∀ it, it.Live → (wrap it).Live) (k : Nat) {it : CCpcpString} (hlive : it.Live)
    (hlast : it.lastChunk = false) :
    Triple (Arrived Untouched k (wrap it)) unpackNext
      (fun item c => Arrived Untouched (k - 1) item c ∧ item.Live) (· ≠ .outOfFuel) := by
  intro c hc
  have hsafe := solid_unpackNext.safe c
  cases h : unpackNext c with
  | error e c' =>
    rw [h] at hsafe
    exact ne_outOfFuel_of_isParse hsafe
  | ok item c' =>
    rw [h] at hsafe
    obtain ⟨u, c₁, h₁, h₂⟩ := bind_eq_ok.mp h
    rw [hw c it hc.errNo hc.item_eq hlast] at h₁
    obtain ⟨rfl, rfl⟩ : c₁.reg.item = item ∧ c₁ = c' := by simpa [getItem_apply] using h₂
    obtain ⟨a, c₂, h₃, h₄⟩ := bind_eq_ok.mp h₁
    obtain rfl : _ = c₁ := by simpa [setItem_apply] using h₄
    have hlt : c₂.input.length < c.input.length := progress_unpackString hlive hlast h₃
    have hk := hc.length
    have hsize : it.stringSize < 0 ∨ 0 ≤ it.sizeToLoad := by
      rcases hlive with hl | hl | hl
      · rw [hlast] at hl
        contradiction
      · exact .inl hl
      · exact .inr (Int64.le_of_lt hl)
    exact ⟨⟨by simp only; omega, hsafe.1.trans hc.atEnd, hsafe.2.2 hc.errNo, rfl⟩,
      hlivew a (live_unpackString hsize h₃)⟩

/-- Looking for metadata. -/
theorem triple_metaDataBegin (k : Nat) :
    Triple (Within Untouched k) metaDataBegin
      (fun found c => if found then Within Untouched (k - 1) c else WithinOrEnded Untouched k c)
      (· ≠ .outOfFuel) := by
  intro c hc
  cases hi : c.input with
  | nil =>
    rw [metaDataBegin_nil hi]
    exact .inr nofun
  | cons b bs =>
    by_cases hb : b = CP_MetaMap
    · subst hb
      obtain ⟨u, c', h, hi', -, hitem, herr⟩ :=
        @consumes_next_schema Any CP_MetaMap .metaMap rfl { c with last := CP_MetaMap } bs hi
          (fun _ _ => trivial) hc.ready
      have hsafe := solid_cchainpackUnpackNext.safe { c with last := CP_MetaMap }
      have hm : metaDataBegin c = .ok true c' := by
        rw [metaDataBegin_cons hi, if_pos rfl]
        exact bind_of_ok h
      rw [h] at hsafe
      rw [hm]
      have hk := hc.length
      rw [hi, List.length_cons] at hk
      exact ⟨by rw [hi']; omega, hsafe.1.trans hc.atEnd, herr, hitem ▸ trivial⟩
    · have hm : metaDataBegin c = .ok false { c with last := b } := by
        rw [metaDataBegin_cons hi, if_neg hb]
        rfl
      rw [hm]
      exact .inl ⟨hc.length, hc.atEnd, hc.ready⟩

theorem progress : Progress reader Untouched where
  unpackNext := triple_unpackNext
  unpackNext_ended _ h := ⟨_, _, unpackNext_of_errNo h, nofun⟩
  unpackNext_string k _ hlive hlast :=
    triple_unpackNext_chunk continues_string (fun _ h => h) k hlive hlast
  unpackNext_blob k _ hlive hlast :=
    triple_unpackNext_chunk continues_blob (fun _ h => h) k hlive hlast
  metaDataBegin := triple_metaDataBegin
  parseException _ _ := nofun

theorem stable : Stable reader where
  unpackNext := solid_unpackNext.ext
  metaDataBegin := by
    refine extends_unpackPeekByte?.bind fun o => ?_
    cases o with
    | none => exact Extends.pure _
    | some b =>
      exact Extends.ite (solid_cchainpackUnpackNext.ext.bind fun _ => Extends.pure _) (Extends.pure _)

end LibShv.ChainPackReader
