import LibShv.CCpcp.PackContext

/-!
# LibShv.CCpcp.Buffering

The buffer of the pack context is transparent: what was handed over and what is still in the
buffer are the packed bytes at any time, whatever the size of the buffer and however the bytes
are split over the calls.
-/

namespace LibShv.PackContext

open Memory

variable {buff n : Nat} {ctx : PackContext} {handlePackOverflow : Option PackOverflowHandler}

/-- The bytes in the buffer. -/
def pending (ctx : PackContext) : Bytes := readAt ctx.mem ctx.start (ctx.current - ctx.start)

/-- The bytes handed over and the bytes in the buffer. -/
def packed (ctx : PackContext) : Bytes := ctx.out ++ ctx.pending

/-- The pointers are those of a buffer of `n` bytes at `buff`, and nothing failed. -/
structure Buffered (buff n : Nat) (ctx : PackContext) : Prop where
  start : ctx.start = buff
  end_ : ctx.end_ = buff + n
  le_current : buff ≤ ctx.current
  current_le : ctx.current ≤ buff + n
  errNo : ctx.errNo = .ok

theorem buffered_init (mem : Nat → UInt8) : Buffered buff n (init mem buff n) :=
  ⟨rfl, rfl, Nat.le_refl _, Nat.le_add_right _ _, rfl⟩

theorem packed_init (mem : Nat → UInt8) : (init mem buff n).packed = [] := by
  simp [packed, pending, init]

theorem Buffered.copyCurrent {bs : Bytes} (h : Buffered buff n ctx)
    (hroom : bs.length ≤ ctx.end_ - ctx.current) : Buffered buff n (ctx.copyCurrent bs) where
  start := h.start
  end_ := h.end_
  le_current := Nat.le_trans h.le_current (Nat.le_add_right _ _)
  current_le := by
    have hend := h.end_
    have hle := h.current_le
    change ctx.current + bs.length ≤ _
    omega
  errNo := h.errNo

theorem Buffered.pending_copyCurrent (h : Buffered buff n ctx) (bs : Bytes) :
    (ctx.copyCurrent bs).pending = ctx.pending ++ bs := by
  have hstart : ctx.start ≤ ctx.current := h.start ▸ h.le_current
  have hlen : ctx.current + bs.length - ctx.start = ctx.current - ctx.start + bs.length := by omega
  change readAt (writeAt ctx.mem ctx.current bs) ctx.start (ctx.current + bs.length - ctx.start) = _
  rw [hlen]
  exact readAt_writeAt_append (by omega)

theorem Buffered.packed_copyCurrent (h : Buffered buff n ctx) (bs : Bytes) :
    (ctx.copyCurrent bs).packed = ctx.packed ++ bs := by
  rw [packed, h.pending_copyCurrent, ← List.append_assoc]
  rfl

/-! ## an overflow handler that empties the buffer -/

/-- The handler hands over what is in the buffer and leaves it empty. -/
def Empties (buff n : Nat) (handle : PackOverflowHandler) : Prop :=
  ∀ ctx sizeHint, Buffered buff n ctx →
    Buffered buff n (handle ctx sizeHint) ∧ (handle ctx sizeHint).current = buff ∧
      (handle ctx sizeHint).out = ctx.out ++ ctx.pending

theorem empties_streamPackOverflowHandler (buff n : Nat) :
    Empties buff n (streamPackOverflowHandler buff) := fun _ _ h =>
  ⟨⟨rfl, h.end_, Nat.le_refl _, Nat.le_add_right _ _, h.errNo⟩, rfl, rfl⟩

section Handled

variable {handle : PackOverflowHandler}

theorem Empties.packed (hempties : Empties buff n handle) (h : Buffered buff n ctx)
    (sizeHint : Nat) : (handle ctx sizeHint).packed = ctx.packed := by
  obtain ⟨hbuf, hcur, hout⟩ := hempties ctx sizeHint h
  have hnone : (handle ctx sizeHint).pending = [] := by
    rw [pending, hcur, hbuf.start, Nat.sub_self, readAt_zero]
  rw [PackContext.packed, hnone, List.append_nil, hout]
  rfl

/-- There is room for a byte at least, and no byte gets lost for it. -/
theorem Empties.makeSpace (hempties : Empties buff n handle) (hn : 1 ≤ n)
    (h : Buffered buff n ctx) {sizeHint : Nat} (hpos : 1 ≤ sizeHint) :
    ∃ ctx', ctx.makeSpace (some handle) sizeHint = (ctx', ctx'.end_ - ctx'.current) ∧
      Buffered buff n ctx' ∧ 1 ≤ ctx'.end_ - ctx'.current ∧ ctx'.packed = ctx.packed := by
  by_cases hroom : sizeHint ≤ ctx.end_ - ctx.current
  · exact ⟨ctx, makeSpace_of_room h.errNo hroom, h, Nat.le_trans hpos hroom, rfl⟩
  · obtain ⟨hbuf, hcur, -⟩ := hempties ctx sizeHint h
    have hfree : 1 ≤ (handle ctx sizeHint).end_ - (handle ctx sizeHint).current := by
      rw [hcur, hbuf.end_]
      omega
    exact ⟨_, makeSpace_of_handled h.errNo (Nat.lt_of_not_le hroom) hfree, hbuf, hfree,
      hempties.packed h sizeHint⟩

/-- Each round of the loop copies as much as fits. -/
theorem Empties.copyLoop (hempties : Empties buff n handle) (hn : 1 ≤ n) (str : Bytes) (k : Nat) :
    ∀ (copied : Nat) (ctx : PackContext), str.length - copied = k → Buffered buff n ctx →
      Buffered buff n (copyLoop (some handle) str copied ctx).1 ∧
        (copyLoop (some handle) str copied ctx).1.packed = ctx.packed ++ str.drop copied := by
  induction k using Nat.strong_induction_on with
  | _ k ih =>
    intro copied ctx hk h
    rw [PackContext.copyLoop]
    by_cases hlt : copied < str.length
    · obtain ⟨ctx', hspace, hbuf, hroom, hpacked⟩ :=
        hempties.makeSpace hn h (Nat.le_trans (Nat.succ_le_succ (Nat.zero_le _)) hlt)
      rw [dif_pos ⟨h.errNo, hlt⟩, hspace]
      have hne : ctx'.end_ - ctx'.current ≠ 0 := by omega
      simp only [hne, dite_false]
      generalize hrest : min (str.length - copied) (ctx'.end_ - ctx'.current) = rest
      have hlen : ((str.drop copied).take rest).length = rest := by
        rw [List.length_take, List.length_drop]
        omega
      obtain ⟨hbuf', hpacked'⟩ := ih _ (by omega) (copied + rest)
        (ctx'.copyCurrent ((str.drop copied).take rest)) rfl
        (hbuf.copyCurrent (by rw [hlen]; omega))
      refine ⟨hbuf', ?_⟩
      rw [hpacked', hbuf.packed_copyCurrent, hpacked, List.append_assoc, ← List.drop_drop,
        List.take_append_drop]
    · rw [dif_neg fun hcond => hlt hcond.2, List.drop_eq_nil_of_le (Nat.le_of_not_lt hlt),
        List.append_nil]
      exact ⟨h, rfl⟩

theorem Empties.call (hempties : Empties buff n handle) (hn : 1 ≤ n) (h : Buffered buff n ctx)
    (c : PackCall) :
    Buffered buff n (ctx.call (some handle) c) ∧
      (ctx.call (some handle) c).packed = ctx.packed ++ c.output := by
  have hbytes : ∀ str : Bytes, Buffered buff n (ctx.copyBytes (some handle) str).1 ∧
      (ctx.copyBytes (some handle) str).1.packed = ctx.packed ++ str := by
    intro str
    rw [copyBytes_of_wet str isDryRun_some]
    exact hempties.copyLoop hn str _ 0 _ rfl ⟨h.start, h.end_, h.le_current, h.current_le, h.errNo⟩
  cases c with
  | copyByte b =>
    rw [PackContext.call, copyByte_eq]
    exact hbytes [b]
  | copyBytes str => exact hbytes str

theorem Empties.run (hempties : Empties buff n handle) (hn : 1 ≤ n) (calls : List PackCall)
    (h : Buffered buff n ctx) :
    Buffered buff n (ctx.run (some handle) calls) ∧
      (ctx.run (some handle) calls).packed = ctx.packed ++ packOutput calls := by
  induction calls generalizing ctx with
  | nil => exact ⟨h, by simp [PackContext.run, packOutput]⟩
  | cons c calls ih =>
    obtain ⟨hbuf, hpacked⟩ := hempties.call hn h c
    obtain ⟨hbuf', hpacked'⟩ := ih hbuf
    refine ⟨hbuf', hpacked'.trans ?_⟩
    rw [hpacked, List.append_assoc]
    rfl

end Handled

/-! ## a dry run -/

theorem call_dryRun (h : ctx.isDryRun none = true) (c : PackCall) :
    ctx.call none c = ctx.countBytes c.output.length := by
  have hbytes : ∀ str : Bytes, (ctx.copyBytes none str).1 = ctx.countBytes str.length := by
    intro str
    have h' : (ctx.countBytes str.length).isDryRun none = true := h
    simp only [copyBytes, h', if_true]
  cases c with
  | copyByte b =>
    rw [call, copyByte_eq]
    exact hbytes [b]
  | copyBytes str => exact hbytes str

theorem countBytes_countBytes (k l : Nat) :
    (ctx.countBytes k).countBytes l = ctx.countBytes (k + l) := by
  simp only [countBytes, UInt64.ofNat_add, UInt64.add_assoc]

theorem run_dryRun (h : ctx.isDryRun none = true) (calls : List PackCall) :
    ctx.run none calls = ctx.countBytes (packOutput calls).length := by
  induction calls generalizing ctx with
  | nil => simp [run, packOutput, countBytes]
  | cons c calls ih =>
    have h' : (ctx.countBytes c.output.length).isDryRun none = true := h
    change (ctx.call none c).run none calls = _
    rw [call_dryRun h, ih h', countBytes_countBytes, ← List.length_append]
    rfl

/-! ## a fixed buffer -/

/-- What `w` leaves in a buffer of `n` bytes at `data`: the bytes themselves if they fit, else the
overflow error. Memory outside the buffer is as it was. -/
structure Fixed (mem : Nat → UInt8) (data n : Nat) (w : Bytes) (ctx : PackContext) : Prop where
  start : ctx.start = data
  outside : ∀ a, a < data ∨ data + n ≤ a → ctx.mem a = mem a
  fits : w.length ≤ n →
    Buffered data n ctx ∧ ctx.current = data + w.length ∧ ctx.pending = w
  overflows : n < w.length → ctx.errNo = .bufferOverflow

theorem fixed_init (mem : Nat → UInt8) (data n : Nat) : Fixed mem data n [] (init mem data n) where
  start := rfl
  outside := fun _ _ => rfl
  fits := fun _ => ⟨buffered_init mem, rfl, by simp [pending, init]⟩
  overflows := fun h => absurd h (Nat.not_lt_zero n)

theorem copyLoop_of_room {str : Bytes} (hok : ctx.errNo = .ok)
    (hroom : str.length ≤ ctx.end_ - ctx.current) :
    (copyLoop handlePackOverflow str 0 ctx).1 = ctx.copyCurrent str := by
  rw [copyLoop]
  by_cases hlt : 0 < str.length
  · rw [dif_pos ⟨hok, hlt⟩, makeSpace_of_room hok hroom]
    have hne : ctx.end_ - ctx.current ≠ 0 := by omega
    have hmin : min (str.length - 0) (ctx.end_ - ctx.current) = str.length := by omega
    simp only [hne, dite_false, hmin, List.drop_zero, List.take_length, Nat.zero_add]
    rw [copyLoop, dif_neg fun h => Nat.lt_irrefl _ h.2]
  · obtain rfl := List.length_eq_zero_iff.mp (Nat.eq_zero_of_not_pos hlt)
    rw [dif_neg fun h => hlt h.2, copyCurrent, writeAt_nil]
    rfl

theorem copyLoop_of_full {str : Bytes} (hok : ctx.errNo = .ok)
    (hfull : ctx.end_ - ctx.current < str.length) :
    (copyLoop none str 0 ctx).1 = { ctx with errNo := .bufferOverflow } := by
  rw [copyLoop, dif_pos ⟨hok, by omega⟩, makeSpace_of_full hok hfull]
  rfl

theorem copyLoop_of_error {str : Bytes} (h : ctx.errNo ≠ .ok) :
    (copyLoop handlePackOverflow str 0 ctx).1 = ctx := by
  rw [copyLoop, dif_neg fun hcond => h hcond.1]

section Fixed

variable {mem : Nat → UInt8} {data : Nat} {w : Bytes}

/-- Nothing is copied in part: the bytes of a call fit behind those before, or the context fails. -/
theorem Fixed.copyLoop (h : Fixed mem data n w ctx) (str : Bytes) :
    Fixed mem data n (w ++ str) (copyLoop none str 0 ctx).1 := by
  by_cases hw : w.length ≤ n
  · obtain ⟨hbuf, hcur, hpending⟩ := h.fits hw
    have hfree : ctx.end_ - ctx.current = n - w.length := by
      rw [hbuf.end_, hcur]
      omega
    by_cases hroom : str.length ≤ ctx.end_ - ctx.current
    · rw [copyLoop_of_room hbuf.errNo hroom]
      refine ⟨h.start, fun a ha => ?_, fun hfits => ⟨hbuf.copyCurrent hroom, ?_, ?_⟩, fun hlt => ?_⟩
      · rw [← h.outside a ha]
        exact writeAt_outside (by omega)
      · rw [List.length_append, ← Nat.add_assoc, ← hcur]
        rfl
      · rw [hbuf.pending_copyCurrent, hpending]
      · rw [List.length_append] at hlt
        omega
    · rw [copyLoop_of_full hbuf.errNo (Nat.lt_of_not_le hroom)]
      refine ⟨h.start, h.outside, fun hfits => ?_, fun _ => rfl⟩
      rw [List.length_append] at hfits
      omega
  · have herr := h.overflows (Nat.lt_of_not_le hw)
    have hne : ctx.errNo ≠ .ok := by
      rw [herr]
      decide
    rw [copyLoop_of_error hne]
    refine ⟨h.start, h.outside, fun hfits => ?_, fun _ => herr⟩
    rw [List.length_append] at hfits
    omega

theorem Fixed.call (hdata : data ≠ 0) (h : Fixed mem data n w ctx) (c : PackCall) :
    Fixed mem data n (w ++ c.output) (ctx.call none c) := by
  have hbytes : ∀ str : Bytes, Fixed mem data n (w ++ str) (ctx.copyBytes none str).1 := by
    intro str
    rw [copyBytes_of_wet str (isDryRun_of_start (h.start ▸ hdata))]
    have hcount : Fixed mem data n w (ctx.countBytes str.length) := by
      refine ⟨h.start, h.outside, fun hfits => ?_, h.overflows⟩
      obtain ⟨hbuf, hcur, hpending⟩ := h.fits hfits
      exact ⟨⟨hbuf.start, hbuf.end_, hbuf.le_current, hbuf.current_le, hbuf.errNo⟩, hcur, hpending⟩
    exact hcount.copyLoop str
  cases c with
  | copyByte b =>
    rw [PackContext.call, copyByte_eq]
    exact hbytes [b]
  | copyBytes str => exact hbytes str

theorem Fixed.run (hdata : data ≠ 0) (calls : List PackCall) (h : Fixed mem data n w ctx) :
    Fixed mem data n (w ++ packOutput calls) (ctx.run none calls) := by
  induction calls generalizing w ctx with
  | nil =>
    rw [packOutput, List.flatMap_nil, List.append_nil]
    exact h
  | cons c calls ih =>
    have hcalls := ih (h.call hdata c)
    rw [List.append_assoc] at hcalls
    exact hcalls

end Fixed

/-- The bytes of any sequence of calls reach whoever empties the buffer, are counted by a dry run,
and fill a fixed buffer where they fit and overflow it where they do not. -/
theorem buffering_transparent (mem : Nat → UInt8) (calls : List PackCall) :
    (∀ buff n handle, 1 ≤ n → Empties buff n handle →
      (((init mem buff n).run (some handle) calls).flush (some handle)).out = packOutput calls) ∧
    ((dryRunInit mem).run none calls).bytesWritten = UInt64.ofNat (packOutput calls).length ∧
    (∀ data n, data ≠ 0 →
      let ctx := (init mem data n).run none calls
      (∀ a, a < data ∨ data + n ≤ a → ctx.mem a = mem a) ∧
      ((packOutput calls).length ≤ n →
        ctx.errNo = .ok ∧ ctx.start = data ∧ ctx.pending = packOutput calls) ∧
      (n < (packOutput calls).length → ctx.errNo = .bufferOverflow)) := by
  refine ⟨fun buff n handle hn hempties => ?_, ?_, fun data n hdata => ?_⟩
  · obtain ⟨hbuf, hpacked⟩ := hempties.run hn calls (buffered_init mem)
    rw [packed_init, List.nil_append] at hpacked
    rw [← hpacked]
    exact (hempties _ 0 hbuf).2.2
  · rw [run_dryRun rfl]
    exact UInt64.zero_add _
  · have h := Fixed.run hdata calls (fixed_init mem data n)
    rw [List.nil_append] at h
    exact ⟨h.outside, fun hfits => ⟨(h.fits hfits).1.errNo, h.start, (h.fits hfits).2.2⟩, h.overflows⟩

/-- A stream writer with a buffer of two bytes. -/
theorem buffering_transparent_stream :
    (((init (fun _ => 0) 100 2).run (some (streamPackOverflowHandler 100))
      [.copyByte 1, .copyBytes [2, 3, 4, 5, 6], .copyByte 7]).flush
        (some (streamPackOverflowHandler 100))).out = [1, 2, 3, 4, 5, 6, 7] :=
  (buffering_transparent (fun _ => 0) [.copyByte 1, .copyBytes [2, 3, 4, 5, 6], .copyByte 7]).1
    100 2 (streamPackOverflowHandler 100) (by decide) (empties_streamPackOverflowHandler 100 2)

end LibShv.PackContext
