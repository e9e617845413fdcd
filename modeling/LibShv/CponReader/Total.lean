import LibShv.CponReader.Stable
import LibShv.CCpon.Strings

/-!
# LibShv.CponReader.Total

The CPON reader takes a byte for every item and every chunk. A byte that is put
back has been taken before, and the errors that are left pending in a date-time are
thrown at its end.
-/

namespace LibShv.CCpon

open ByteReader AbstractStreamReader

/-! ## moves -/

/-- A move that says nothing of the context. -/
abbrev Steps (i j : Nat) (p : Unpack α) : Prop := Moves (fun _ => True) (· ≠ Fault.outOfFuel) i j p

/-- A move with no error pending before or after. -/
abbrev StepsOk (i j : Nat) (p : Unpack α) : Prop :=
  Moves (fun ctx : UnpackContext => ctx.errNo = .ok) (· ≠ Fault.outOfFuel) i j p

theorem ne_outOfFuel_of_isParse {e : Fault} (h : e.IsParse) : e ≠ .outOfFuel := by
  rintro rfl
  exact h

theorem stepsOk_of_solid {p : Unpack α} (h : UnpackSolid p) : StepsOk 0 0 p :=
  h.moves fun _ => ne_outOfFuel_of_isParse

section
variable {I : UnpackContext → Prop}

theorem moves_unpackError {i j : Nat} (errNo : ErrNo) (msg : String) :
    Moves I (· ≠ Fault.outOfFuel) i j (unpackError errNo msg : Unpack α) :=
  Moves.throw (by nofun)

theorem moves_unpackTakeByte : Moves I (· ≠ Fault.outOfFuel) 1 0 unpackTakeByte := by
  refine Moves.take?.bind fun o => ?_
  cases o with
  | some b => exact Moves.pure _ (Nat.le_refl _)
  | none => exact moves_unpackError _ _

end

theorem steps_setErrNo (errNo : ErrNo) : Steps 0 0 (setErrNo errNo) :=
  Moves.modifyReg fun _ _ => trivial

theorem steps_setError (errNo : ErrNo) (errMsg : String) : Steps 0 0 (setError errNo errMsg) :=
  Moves.modifyReg fun _ _ => trivial

theorem steps_unpackTakeByte? : Steps 1 0 unpackTakeByte? := by
  refine Moves.take?.bind fun o => ?_
  cases o with
  | some b => exact Moves.pure _ (Nat.le_refl _)
  | none => exact (steps_setErrNo _).bind fun _ => Moves.pure _ (Nat.le_refl _)

/-- A byte may be put back after one is taken. -/
theorem steps_takeByte?_bind {r : Unpack α} {f : UInt8 → Unpack α} (hr : Steps 0 0 r)
    (hf : ∀ p, Steps 0 1 (f p)) :
    Steps 0 0 (do
      match ← unpackTakeByte? with
      | none => r
      | some p => f p) := by
  intro k c hc
  cases hi : c.input with
  | nil =>
    rw [unpackTakeByte?, bind_apply, bind_of_ok (take?_nil hi)]
    exact hr k _ hc
  | cons b bs =>
    rw [unpackTakeByte?, bind_apply, bind_of_ok (take?_cons hi)]
    have hlen := hc.1
    rw [hi, List.length_cons] at hlen
    obtain ⟨m, rfl⟩ : ∃ m, k = m + 1 := ⟨k - 1, by omega⟩
    exact hf b m _ ⟨by simp only; omega, trivial⟩

/-! ## insignificant characters -/

/-- The byte the skipper ends at is the one it returns. -/
theorem eq_of_skipStep {mode : SkipMode} {b p : UInt8} (h : skipStep mode b = .done (some p)) :
    p = b := by
  cases mode with
  | text =>
    rw [skipStep] at h
    repeat' split at h
    all_goals first | contradiction | exact (Option.some.inj (ScanStep.done.inj h)).symm
  | slash =>
    rw [skipStep] at h
    repeat' split at h
    all_goals simp at h
  | block =>
    rw [skipStep] at h
    split at h <;> contradiction
  | star =>
    rw [skipStep] at h
    split at h <;> contradiction
  | line =>
    rw [skipStep] at h
    split at h <;> contradiction

/-- The skipper takes a byte and leaves the context as it is, or leaves an error. A byte it
returns is the last one taken. -/
theorem triple_skipInsignificant (k : Nat) (ctx : UnpackContext) :
    Triple (fun c => c.input.length < k ∧ c.reg = ctx) skipInsignificant
      (fun o c => match o with
        | some b => c.input.length < k - 1 ∧ c.reg = ctx ∧ c.last = b
        | none => c.reg.errNo ≠ .ok ∨ c.input.length < k - 1 ∧ c.reg = ctx)
      (· ≠ .outOfFuel) := by
  intro c hc
  rw [skipInsignificant, bind_apply]
  rcases scan_cases skipStep .text c with ⟨s', l, h⟩ | ⟨a, s', b, xs, rest, hi, hs, h⟩
  · rw [h]
    cases s' with
    | star => nofun
    | _ => exact .inl nofun
  · rw [h]
    have hlen := hc.1
    rw [hi, List.length_append, List.length_cons] at hlen
    cases a with
    | some p => exact ⟨by simp only; omega, hc.2, (eq_of_skipStep hs).symm⟩
    | none => exact .inr ⟨by simp only; omega, hc.2⟩

/-! ## numbers -/

theorem steps_unpackIntToResult (initValue : Int64) : Steps 0 0 (unpackIntToResult initValue) := by
  intro k c hc
  rw [unpackIntToResult, bind_apply]
  rcases scan_cases ReadInt.step (.init initValue) c with ⟨s', l, h⟩ | ⟨a, s', b, xs, rest, hi, -, h⟩
  · rw [h]
    exact ⟨Nat.zero_le _, trivial⟩
  · rw [h]
    have hlen := hc.1
    rw [hi, List.length_append, List.length_cons] at hlen
    refine ⟨?_, trivial⟩
    simp only [List.length_cons]
    omega

theorem steps_unpackInt : Steps 0 0 CCpon.unpackInt :=
  (steps_unpackIntToResult 0).bind fun _ => Moves.pure _ (Nat.le_refl _)

/-- A number with a digit takes a byte. -/
theorem triple_unpackIntToResult (k : Nat) :
    Triple (fun c => c.input.length ≤ k + 1) (unpackIntToResult 0)
      (fun s c => c.input.length ≤ k + 1 ∧ (s.digitCnt ≠ 0 → c.input.length ≤ k))
      (· ≠ .outOfFuel) := by
  intro c hc
  cases hi : c.input with
  | nil =>
    have hlen : c.input.length = 0 := by rw [hi]; rfl
    rw [unpackIntToResult, bind_of_ok (scan_nil hi)]
    exact ⟨by simp only; omega, fun _ => by simp only; omega⟩
  | cons b bs =>
    rw [hi] at hc
    cases hs : ReadInt.step (.init 0) b with
    | done s =>
      rw [unpackIntToResult, bind_of_ok (scan_done hi hs)]
      have hsame : s = .init 0 := by
        rw [ReadInt.step] at hs
        repeat' split at hs
        all_goals first | contradiction | exact (ScanStep.done.inj hs).symm
      refine ⟨hc, fun hcnt => ?_⟩
      rw [hsame] at hcnt
      exact absurd rfl hcnt
    | more s =>
      rw [unpackIntToResult, bind_apply, scan_more hi hs]
      rw [List.length_cons] at hc
      rcases scan_cases ReadInt.step s { c with input := bs, last := b } with
        ⟨s', l, h⟩ | ⟨a, s', b', xs, rest, hi', -, h⟩
      · rw [h]
        exact ⟨Nat.zero_le _, fun _ => Nat.zero_le _⟩
      · rw [h]
        have hlen : bs.length = xs.length + (rest.length + 1) := by
          have := congrArg List.length hi'
          rwa [List.length_append, List.length_cons] at this
        have hrest : rest.length + 1 ≤ k := by omega
        exact ⟨Nat.le_succ_of_le hrest, fun _ => hrest⟩

theorem steps_unpackExponent (r : ReadNumber) (p : UInt8) : Steps 0 1 (unpackExponent r p) :=
  Moves.ite
    ((steps_unpackIntToResult 0).bind fun _ =>
      Moves.ite (moves_unpackError _ _) (Moves.pure _ (Nat.zero_le _)))
    (Moves.ite (Moves.unget.bind fun _ => Moves.pure _ (Nat.le_refl _))
      (Moves.pure _ (Nat.zero_le _)))

theorem steps_unpackNumberTail (r : ReadNumber) (p : UInt8) : Steps 0 1 (unpackNumberTail r p) := by
  refine Moves.ite (Moves.pure _ (Nat.zero_le _)) (Moves.ite ?_ (steps_unpackExponent r p))
  refine ((steps_unpackIntToResult _).shift 1).imp (Nat.zero_le _) (Nat.le_refl _) |>.bind fun _ =>
    steps_unpackTakeByte?.bind fun o => ?_
  cases o with
  | none => exact Moves.pure _ (Nat.zero_le _)
  | some p => exact steps_unpackExponent _ p

theorem live_item (r : ReadNumber) : r.item.Live := by
  rw [ReadNumber.item]
  repeat' split
  all_goals trivial

/-- A number takes a byte. -/
theorem triple_unpackNumber (k : Nat) :
    Triple (fun c => c.input.length ≤ k + 1) unpackNumber
      (fun item c => c.input.length ≤ k ∧ c.reg.errNo = .ok ∧ item.Live) (· ≠ .outOfFuel) := by
  refine (triple_unpackIntToResult k).bind fun result => ?_
  by_cases hcnt : result.digitCnt = 0
  · rw [if_pos hcnt]
    exact fun _ _ => nofun
  · rw [if_neg hcnt]
    have htail : ∀ r : ReadNumber, Steps 0 0 (do
        match ← unpackTakeByte? with
        | none => return r
        | some p => unpackNumberTail r p) := fun r =>
      steps_takeByte?_bind (Moves.pure _ (Nat.le_refl _)) (steps_unpackNumberTail r)
    refine Triple.bind (Q := fun _ c => c.input.length ≤ k) ?_ fun r c hc => ?_
    · exact (htail _ k).imp (fun c hc => ⟨hc.2 hcnt, trivial⟩) (fun _ _ h => h.1) fun _ h => h
    · exact ⟨hc, rfl, live_item r⟩

/-! ## date-times -/

theorem steps_orReturn {α β : Type} {p : Unpack (Option α)} {f : α → Unpack (Option β)}
    (hp : Steps 0 0 p) (hf : ∀ a, Steps 0 0 (f a)) : Steps 0 0 (orReturn p f) := by
  refine hp.bind fun o => ?_
  cases o with
  | none => exact Moves.pure _ (Nat.le_refl _)
  | some a => exact hf a

theorem steps_unpackTakeByte : Steps 0 0 unpackTakeByte :=
  moves_unpackTakeByte.imp (Nat.zero_le _) (Nat.le_refl _)

theorem steps_unpackDateField (errMsg : String) : Steps 0 0 (unpackDateField errMsg) :=
  steps_unpackInt.bind fun _ => Moves.ite
    ((steps_setError _ _).bind fun _ => Moves.pure _ (Nat.le_refl _)) (Moves.pure _ (Nat.le_refl _))

theorem steps_unpackDateSeparator (allowed : Bytes) (errMsg : String) :
    Steps 0 0 (unpackDateSeparator allowed errMsg) :=
  steps_unpackTakeByte.bind fun _ => Moves.ite (Moves.pure _ (Nat.le_refl _))
    ((steps_setError _ _).bind fun _ => Moves.pure _ (Nat.le_refl _))

theorem steps_unpackTime : Steps 0 0 unpackTime :=
  steps_orReturn (steps_unpackDateField _) fun _ => steps_unpackTakeByte.bind fun _ =>
    steps_orReturn (steps_unpackDateField _) fun _ => steps_unpackTakeByte.bind fun _ =>
      steps_orReturn (steps_unpackDateField _) fun _ => Moves.pure _ (Nat.le_refl _)

theorem steps_unpackTm : Steps 0 0 unpackTm :=
  steps_orReturn (steps_unpackDateField _) fun _ =>
    steps_orReturn (steps_unpackDateSeparator _ _) fun _ =>
      steps_orReturn (steps_unpackDateField _) fun _ =>
        steps_orReturn (steps_unpackDateSeparator _ _) fun _ =>
          steps_orReturn (steps_unpackDateField _) fun _ =>
            steps_orReturn (steps_unpackDateSeparator _ _) fun _ =>
              steps_orReturn steps_unpackTime fun _ => Moves.pure _ (Nat.le_refl _)

theorem steps_unpackUtcOffset (p : UInt8) : Steps 0 1 (unpackUtcOffset p) :=
  Moves.ite (Moves.pure _ (Nat.zero_le _))
    (Moves.ite
      (steps_unpackInt.bind fun _ => Moves.ite (Moves.pure _ (Nat.zero_le _))
        ((steps_setError _ _).bind fun _ => Moves.pure _ (Nat.zero_le _)))
      (Moves.unget.bind fun _ => Moves.pure _ (Nat.le_refl _)))

/-- The offset after a byte that may be put back, with the time it belongs to. -/
theorem steps_unpackUtcOffset_bind {α : Type} (p : UInt8) (f : Int64 → α) :
    Steps 0 1 (orReturn (unpackUtcOffset p) fun offset => return some (f offset)) := by
  refine (steps_unpackUtcOffset p).bind fun o => ?_
  cases o with
  | none => exact Moves.pure _ (Nat.le_refl _)
  | some offset => exact Moves.pure _ (Nat.le_refl _)

theorem steps_unpackMsecAndOffset : Steps 0 0 unpackMsecAndOffset := by
  refine steps_takeByte?_bind (Moves.pure _ (Nat.le_refl _)) fun p => ?_
  refine Moves.ite ?_ (steps_unpackUtcOffset_bind p _)
  refine steps_unpackInt.bind fun r => Moves.ite (Moves.pure _ (Nat.zero_le _)) ?_
  exact (steps_takeByte?_bind (Moves.pure _ (Nat.le_refl _)) fun p =>
    steps_unpackUtcOffset_bind p fun offset => (r.1.toInt32, offset)).imp (Nat.le_refl _)
      (Nat.zero_le _)

theorem steps_dateTimeItem (tm : Tm) (msec : Int32) (offset : Int64) :
    Steps 0 0 (dateTimeItem tm msec offset) := by
  rw [dateTimeItem]
  cases timegm tm with
  | none => exact Moves.throw (by simp)
  | some epochSec => exact Moves.pure _ (Nat.le_refl _)

theorem steps_unpackDateTime : Steps 0 0 unpackDateTime := by
  refine Moves.bind ?_ fun _ => Moves.pure _ (Nat.le_refl _)
  exact steps_orReturn steps_unpackTm fun _ =>
    steps_orReturn steps_unpackMsecAndOffset fun _ => (steps_setErrNo _).bind fun _ =>
      (steps_dateTimeItem _ _ _).bind fun _ => Moves.pure _ (Nat.le_refl _)

/-- A pending error is thrown. -/
theorem triple_checkErrNo {P : Cursor UnpackContext → Prop} :
    Triple (fun c => c.reg.errNo = .ok → P c) checkErrNo (fun _ c => P c ∧ c.reg.errNo = .ok)
      (· ≠ .outOfFuel) := by
  intro c hc
  by_cases herr : c.reg.errNo = .ok
  · rw [checkErrNo_of_ok herr]
    exact ⟨hc herr, herr⟩
  · rw [checkErrNo_of_ne herr]
    nofun

/-- No error is pending where the end of a date-time is passed. -/
theorem triple_unpackDateTimeEnd (k : Nat) :
    Triple (fun c => c.input.length ≤ k) unpackDateTimeEnd
      (fun _ c => c.input.length ≤ k ∧ c.reg.errNo = .ok) (· ≠ .outOfFuel) := by
  have hcheck : Triple (fun c => c.input.length ≤ k) checkErrNo
      (fun _ c => c.input.length ≤ k ∧ c.reg.errNo = .ok) (· ≠ .outOfFuel) :=
    triple_checkErrNo.imp (fun _ hc _ => hc) (fun _ _ h => h) fun _ h => h
  refine Triple.bind (Q := fun _ c => c.input.length ≤ k) ?_ fun o => ?_
  · exact (steps_unpackTakeByte? k).imp (fun c hc => ⟨Nat.le_succ_of_le hc, trivial⟩)
      (fun _ _ h => h.1) fun _ h => h
  · cases o with
    | none => exact hcheck
    | some p => exact Triple.ite hcheck fun _ _ => nofun

theorem triple_true {α : Type} (p : Unpack α) :
    Triple (fun _ => True) p (fun _ _ => True) fun _ => True := by
  intro c _
  cases p c <;> trivial

theorem live_orReturn {α β : Type} {p : Unpack (Option α)} {f : α → Unpack (Option β)}
    {live : β → Prop}
    (hf : ∀ a, Triple (fun _ => True) (f a) (fun o _ => ∀ b ∈ o, live b) fun _ => True) :
    Triple (fun _ => True) (orReturn p f) (fun o _ => ∀ b ∈ o, live b) fun _ => True := by
  refine (triple_true p).bind fun o => ?_
  cases o with
  | none => exact Triple.pure fun _ _ => nofun
  | some a => exact hf a

/-- Where a date-time ends early there is no item. -/
theorem live_unpackDateTime :
    Triple (fun _ => True) unpackDateTime (fun item _ => item.Live) fun _ => True := by
  refine Triple.bind (Q := fun o _ => ∀ item ∈ o, item.Live) ?_ fun o => Triple.pure fun _ h => ?_
  · refine live_orReturn fun tm => live_orReturn fun x => (triple_true _).bind fun _ => ?_
    refine Triple.bind (Q := fun item _ => item.Live) ?_ fun item => Triple.pure fun _ h => ?_
    · rw [dateTimeItem]
      cases timegm tm with
      | none => exact fun _ _ => trivial
      | some epochSec => exact Triple.pure fun _ _ => trivial
    · rintro _ ⟨⟩
      exact h
  · cases o with
    | none => trivial
    | some item => exact h item rfl

/-- At most `k` bytes are left, with an item that ends and no error pending. -/
def Found (k : Nat) (item : CCpcpItem) (c : Cursor UnpackContext) : Prop :=
  c.input.length ≤ k ∧ c.reg.errNo = .ok ∧ item.Live

theorem triple_dateTime (k : Nat) :
    Triple (fun c => c.input.length ≤ k) (do
      let item ← unpackDateTime
      unpackDateTimeEnd
      return item) (Found k) (· ≠ .outOfFuel) := by
  refine Triple.bind (Q := fun item c => c.input.length ≤ k ∧ item.Live) ?_ fun item => ?_
  · intro c hc
    have hsteps := steps_unpackDateTime k c ⟨hc, trivial⟩
    cases h : unpackDateTime c with
    | ok item c' =>
      rw [h] at hsteps
      exact ⟨hsteps.1, live_unpackDateTime.of_ok trivial h⟩
    | error e c' =>
      rw [h] at hsteps
      exact hsteps
  · intro c hc
    exact ((triple_unpackDateTimeEnd k).bind fun _ => Triple.pure fun c h =>
      (⟨h.1, h.2, hc.2⟩ : Found k item c)) c hc.1

/-! ## strings and blobs -/

/-- A byte is taken, or the reader fails. -/
def Takes (p : Unpack α) : Prop :=
  ∀ k, Triple (fun c => c.input.length < k ∧ c.reg.errNo = .ok) p
    (fun _ c => c.input.length < k - 1 ∧ c.reg.errNo = .ok) (· ≠ .outOfFuel)

theorem Takes.bind {α β : Type} {p : Unpack α} {f : α → Unpack β} (hp : Takes p)
    (hf : ∀ a, StepsOk 0 0 (f a)) : Takes (p >>= f) := by
  refine fun k => (hp k).bind fun a c hc => ?_
  have hlen := hc.1
  have hpre : c.input.length ≤ k - 2 + 0 ∧ c.reg.errNo = .ok := ⟨by omega, hc.2⟩
  exact (hf a (k - 2)).imp (fun _ h => h) (fun _ _ h => ⟨by have := h.1; omega, h.2⟩)
    (fun _ h => h) c hpre

theorem Takes.stepsOk {α : Type} {p : Unpack α} (h : Takes p) : StepsOk 0 0 p :=
  fun k => (h (k + 1)).imp (fun _ hc => ⟨Nat.lt_succ_of_le hc.1, hc.2⟩)
    (fun _ _ h => ⟨Nat.le_of_lt h.1, h.2⟩) fun _ h => h

theorem takes_unpackTakeByte : Takes unpackTakeByte := by
  intro k c hc
  cases hi : c.input with
  | nil =>
    rw [unpackTakeByte_nil hi]
    nofun
  | cons b bs =>
    rw [unpackTakeByte_cons hi]
    have hlen := hc.1
    rw [hi, List.length_cons] at hlen
    exact ⟨by simp only; omega, hc.2⟩

theorem takes_unpackHexByte : Takes unpackHexByte := by
  intro k c hc
  rw [unpackHexByte, bind_apply]
  rcases scan_cases hexBlankStep () c with ⟨s', l, h⟩ | ⟨a, s', b, xs, rest, hi, -, h⟩
  · rw [h]
    nofun
  · rw [h]
    have hlen := hc.1
    rw [hi, List.length_append, List.length_cons] at hlen
    exact ⟨by simp only; omega, hc.2⟩

theorem stepsOk_unpackError (errNo : ErrNo) (msg : String) :
    StepsOk 0 0 (unpackError errNo msg : Unpack α) :=
  moves_unpackError _ _

theorem stepsOk_unpackBlobHexChunk (room : Nat) (bytes : Bytes) :
    StepsOk 0 0 (unpackBlobHexChunk room bytes) := by
  induction room generalizing bytes with
  | zero => exact Moves.pure _ (Nat.le_refl _)
  | succ room ih =>
    refine takes_unpackHexByte.stepsOk.bind fun p => Moves.ite (Moves.pure _ (Nat.le_refl _)) ?_
    cases unhex p with
    | none => exact stepsOk_unpackError _ _
    | some b1 =>
      refine takes_unpackTakeByte.stepsOk.bind fun p => ?_
      cases unhex p with
      | none => exact stepsOk_unpackError _ _
      | some b2 => exact ih _

theorem takes_unpackStringChunk (room : Nat) (bytes : Bytes) :
    Takes (unpackStringChunk (room + 1) bytes) := by
  refine takes_unpackTakeByte.bind fun p => stepsOk_of_solid (Solid.ite ?_ (Solid.ite ?_ ?_))
  · exact solid_unpackTakeByte.bind fun _ => solid_unpackStringChunk _ _
  · exact Solid.pure _
  · exact solid_unpackStringChunk _ _

theorem takes_unpackBlobEscChunk (room : Nat) (bytes : Bytes) :
    Takes (unpackBlobEscChunk (room + 1) bytes) := by
  refine takes_unpackTakeByte.bind fun p =>
    stepsOk_of_solid (Solid.ite (Solid.pure _) (Solid.ite ?_ (Solid.ite ?_ ?_)))
  · exact solid_unpackTakeByte.bind fun _ => (solid_unpackBlobEscape _).bind fun _ =>
      solid_unpackBlobEscChunk _ _
  · exact solid_unpackBlobEscChunk _ _
  · exact solid_unpackError _ _

theorem takes_unpackBlobHexChunk (room : Nat) (bytes : Bytes) :
    Takes (unpackBlobHexChunk (room + 1) bytes) := by
  refine takes_unpackHexByte.bind fun p => Moves.ite (Moves.pure _ (Nat.le_refl _)) ?_
  cases unhex p with
  | none => exact stepsOk_unpackError _ _
  | some b1 =>
    refine takes_unpackTakeByte.stepsOk.bind fun p => ?_
    cases unhex p with
    | none => exact stepsOk_unpackError _ _
    | some b2 => exact stepsOk_unpackBlobHexChunk _ _

/-- Every chunk takes a byte, the closing quote if no other. -/
theorem takes_unpackChunk {chunk : Nat → Bytes → Unpack (Bytes × Bool)}
    (h : Takes (chunk stringChunkBuffLen [])) (errMsg : String) (it : CCpcpString) :
    Takes (unpackChunk chunk errMsg it) := by
  have hrest : ∀ u : Unit, Takes (do
      let r ← chunk stringChunkBuffLen []
      return { it with
        chunk := r.1, lastChunk := it.lastChunk || r.2, chunkCnt := it.chunkCnt + 1 }) :=
    fun _ => h.bind fun _ => Moves.pure _ (Nat.le_refl _)
  rw [unpackChunk]
  by_cases hcnt : it.chunkCnt = 0
  · rw [if_pos hcnt]
    refine takes_unpackTakeByte.bind fun p => ?_
    exact Moves.ite (stepsOk_unpackError _ _) (hrest ()).stepsOk
  · rw [if_neg hcnt]
    exact hrest ()

theorem takes_unpackString (it : CCpcpString) : Takes (CCpon.unpackString it) :=
  takes_unpackChunk (takes_unpackStringChunk 255 []) _ it

theorem takes_unpackBlobEsc (it : CCpcpString) : Takes (unpackBlobEsc it) :=
  takes_unpackChunk (takes_unpackBlobEscChunk 255 []) _ it

theorem takes_unpackBlobHex (it : CCpcpString) : Takes (unpackBlobHex it) :=
  takes_unpackChunk (takes_unpackBlobHexChunk 255 []) _ it

/-- The sizes that ChainPack uses stay as they are. -/
theorem live_unpackChunk {chunk : Nat → Bytes → Unpack (Bytes × Bool)} (errMsg : String)
    {it a : CCpcpString} (hlive : it.Live) {c c' : Cursor UnpackContext}
    (h : unpackChunk chunk errMsg it c = .ok a c') : a.Live := by
  have hrest : ∀ (u : Unit) {c c' : Cursor UnpackContext}, (do
      let r ← chunk stringChunkBuffLen []
      return { it with
        chunk := r.1, lastChunk := it.lastChunk || r.2, chunkCnt := it.chunkCnt + 1 }) c =
        .ok a c' → a.Live := by
    intro _ c c' h
    obtain ⟨x, c₁, -, h₂⟩ := bind_eq_ok.mp h
    obtain ⟨rfl, -⟩ : _ = a ∧ c₁ = c' := by simpa using h₂
    exact hlive.imp (fun hl => by simp only [hl, Bool.true_or]) id
  rw [unpackChunk] at h
  by_cases hcnt : it.chunkCnt = 0
  · rw [if_pos hcnt] at h
    obtain ⟨p, c₁, -, h₂⟩ := bind_eq_ok.mp h
    by_cases hp : p ≠ quote
    · rw [if_pos hp] at h₂
      contradiction
    · rw [if_neg hp] at h₂
      exact hrest () h₂
  · rw [if_neg hcnt] at h
    exact hrest () h

/-! ## items -/

theorem live_init : CCpcpString.init.Live := .inr (.inl (by decide))

/-- The first chunk of a string whose quote has been put back. -/
theorem triple_firstChunk {p : Unpack CCpcpString} {wrap : CCpcpString → CCpcpItem}
    (hp : Takes p) (hlive : ∀ c c' a, p c = .ok a c' → a.Live)
    (hwrap : ∀ a : CCpcpString, a.Live → (wrap a).Live) (k : Nat) :
    Triple (fun c => c.input.length ≤ k ∧ c.reg.errNo = .ok) (do
      unget
      return wrap (← p)) (Found k) (· ≠ .outOfFuel) := by
  refine Triple.bind (Q := fun _ c => c.input.length < k + 2 ∧ c.reg.errNo = .ok)
    (fun c hc => ⟨Nat.succ_lt_succ (Nat.lt_succ_of_le hc.1), hc.2⟩) fun _ => ?_
  intro c hc
  have htakes := hp _ c hc
  rw [bind_apply]
  cases h : p c with
  | ok a c' =>
    rw [h] at htakes
    exact ⟨by have := htakes.1; omega, htakes.2, hwrap a (hlive c c' a h)⟩
  | error e c' =>
    rw [h] at htakes
    exact htakes

theorem stepsOk_expectByte (b : UInt8) (errMsg : String) : StepsOk 0 0 (expectByte b errMsg) :=
  takes_unpackTakeByte.stepsOk.bind fun _ =>
    Moves.ite (Moves.pure _ (Nat.le_refl _)) (stepsOk_unpackError _ _)

theorem stepsOk_expectLiteral (errMsg : String) (bs : Bytes) :
    StepsOk 0 0 (expectLiteral errMsg bs) := by
  induction bs with
  | nil => exact Moves.pure _ (Nat.le_refl _)
  | cons b bs ih => exact (stepsOk_expectByte b errMsg).bind fun _ => ih

theorem triple_found {p : Unpack α} {item : CCpcpItem} (hp : StepsOk 0 0 p) (hlive : item.Live)
    (k : Nat) :
    Triple (fun c => c.input.length ≤ k ∧ c.reg.errNo = .ok) (do
      let _ ← p
      return item) (Found k) (· ≠ .outOfFuel) :=
  (hp k).bind fun _ => Triple.pure fun _ h => ⟨h.1, h.2, hlive⟩

/-- The first byte of an item has been taken; what is put back is taken again. -/
theorem triple_unpackItem (b : UInt8) (k : Nat) :
    Triple (fun c => c.input.length ≤ k ∧ c.reg.errNo = .ok) (CCpon.unpackItem b) (Found k)
      (· ≠ .outOfFuel) := by
  have hpure : ∀ item : CCpcpItem, item.Live →
      Triple (fun c => c.input.length ≤ k ∧ c.reg.errNo = .ok) (return item : Unpack CCpcpItem)
        (Found k) (· ≠ .outOfFuel) :=
    fun item hlive => Triple.pure fun _ h => ⟨h.1, h.2, hlive⟩
  have hdate : Triple (fun c => c.input.length ≤ k ∧ c.reg.errNo = .ok) (do
      expectByte quote "DateTime should start with 'd'."
      let item ← unpackDateTime
      unpackDateTimeEnd
      return item) (Found k) (· ≠ .outOfFuel) :=
    (stepsOk_expectByte _ _ k).bind fun _ => (triple_dateTime k).imp (fun _ h => h.1)
      (fun _ _ h => h) fun _ h => h
  have hnumber : Triple (fun c => c.input.length ≤ k ∧ c.reg.errNo = .ok) (do
      unget
      unpackNumber) (Found k) (· ≠ .outOfFuel) :=
    Triple.bind (Q := fun _ c => c.input.length ≤ k + 1) (fun _ hc => Nat.succ_le_succ hc.1)
      fun _ => triple_unpackNumber k
  unfold CCpon.unpackItem
  repeat' apply Triple.ite
  all_goals first
    | exact hpure _ trivial
    | exact hdate
    | exact hnumber
    | exact triple_found (stepsOk_expectByte _ _) (by trivial) k
    | exact triple_found (stepsOk_expectLiteral _ _) (by trivial) k
    | exact (stepsOk_expectByte _ _ k).bind fun _ =>
        triple_firstChunk (takes_unpackBlobHex _)
          (fun _ _ _ => live_unpackChunk _ (by exact live_init))
          (by exact fun _ h => h) k
    | exact (stepsOk_expectByte _ _ k).bind fun _ =>
        triple_firstChunk (takes_unpackBlobEsc _) (fun _ _ _ => live_unpackChunk _ live_init)
          (by exact fun _ h => h) k
    | exact triple_firstChunk (takes_unpackString _) (fun _ _ _ => live_unpackChunk _ live_init)
          (by exact fun _ h => h) k
    | exact Triple.throw (by nofun)

end LibShv.CCpon

namespace LibShv.CponReader

open ByteReader AbstractStreamReader CCpon

/-- The end of the stream may have been touched: a number is read up to it. -/
abbrev Any (_ : Bool) : Prop := True

theorem repeatMessage_ne_outOfFuel {e : Fault} (h : e ≠ .outOfFuel) :
    repeatMessage e ≠ .outOfFuel := by
  cases e with
  | outOfFuel => exact absurd rfl h
  | _ => nofun

theorem triple_mapError {P : Cursor UnpackContext → Prop} {Q : α → Cursor UnpackContext → Prop}
    {p : Unpack α} (h : Triple P p Q (· ≠ .outOfFuel)) :
    Triple P (mapError repeatMessage p) Q (· ≠ .outOfFuel) := by
  intro c hc
  have h₁ := h c hc
  cases hp : p c with
  | ok a c' =>
    rw [hp] at h₁
    rw [mapError_of_ok hp]
    exact h₁
  | error e c' =>
    rw [hp] at h₁
    rw [mapError_of_error hp]
    exact repeatMessage_ne_outOfFuel h₁

/-- An item has been unpacked, with fewer than `k` bytes left. -/
def Unpacked (k : Nat) (c : Cursor UnpackContext) : Prop :=
  c.input.length < k ∧ c.reg.errNo = .ok ∧ c.reg.item.Live

/-- The item found after the skipper becomes the item of the context. -/
theorem triple_unpackItem_setItem (b : UInt8) (k : Nat) :
    Triple (fun c => c.input.length < k ∧ c.reg.errNo = .ok) (do setItem (← CCpon.unpackItem b))
      (fun _ => Unpacked k) (· ≠ .outOfFuel) := by
  intro c hc
  have hlen := hc.1
  obtain ⟨m, rfl⟩ : ∃ m, k = m + 1 := ⟨k - 1, by omega⟩
  refine Triple.bind (triple_unpackItem b m) (fun item c₁ hc₁ => ?_) c ⟨Nat.le_of_lt_succ hlen, hc.2⟩
  exact ⟨Nat.lt_succ_of_le hc₁.1, hc₁.2⟩

theorem triple_startItem (k : Nat) :
    Triple (fun c => c.input.length < k ∧ c.reg.errNo = .ok) startItem (fun _ => Unpacked (k - 1))
      (· ≠ .outOfFuel) := by
  intro c hc
  rw [startItem, bind_of_ok (setItem_apply _ _)]
  refine Triple.bind (triple_skipInsignificant k { c.reg with item := .invalid }) (fun o => ?_) _
    ⟨hc.1, rfl⟩
  cases o with
  | none =>
    have hcheck : Triple (fun c => c.reg.errNo = .ok → c.input.length < k - 1 ∧ c.reg.item.Live)
        checkErrNo (fun _ c => (c.input.length < k - 1 ∧ c.reg.item.Live) ∧ c.reg.errNo = .ok)
        (· ≠ .outOfFuel) := triple_checkErrNo
    refine hcheck.imp (fun c₁ h herr => ?_) (fun _ _ h => ⟨h.1.1, h.2, h.1.2⟩) fun _ h => h
    obtain ⟨hlen, hreg⟩ := h.resolve_left fun hne => hne herr
    exact ⟨hlen, hreg ▸ trivial⟩
  | some b =>
    exact (triple_unpackItem_setItem b (k - 1)).imp (fun c₁ h => ⟨h.1, h.2.1 ▸ hc.2⟩)
      (fun _ _ h => h) fun _ h => h

/-- The item that has been unpacked is returned. -/
theorem triple_getItem {P : Cursor UnpackContext → Prop} {p : Unpack Unit} {k : Nat}
    (h : Triple P p (fun _ => Unpacked k) (· ≠ .outOfFuel)) :
    Triple P (do mapError repeatMessage p; getItem) (fun item c => Arrived Any k item c ∧ item.Live)
      (· ≠ .outOfFuel) :=
  (triple_mapError h).bind fun _ _ hc => ⟨⟨hc.1, trivial, hc.2.1, rfl⟩, hc.2.2⟩

/-- With nothing pending the next item is started. -/
theorem unpackNext_of_ready {c : Cursor UnpackContext} (h : c.reg.Ready) :
    CCpon.unpackNext c = startItem c := by
  have hfin := h.finished
  rw [CCpon.unpackNext, bind_of_ok (checkErrNo_of_ok h.errNo), bind_of_ok (getItem_apply c)]
  cases hitem : c.reg.item with
  | string it =>
    rw [hitem] at hfin
    exact congrFun (if_pos hfin) c
  | blob it =>
    rw [hitem] at hfin
    exact congrFun (if_pos hfin) c
  | _ => rfl

theorem triple_unpackNext (k : Nat) :
    Triple (Within Any k) unpackNext
      (fun item c => Arrived Any (k - 1) item c ∧ item.Live) (· ≠ .outOfFuel) := by
  refine triple_getItem fun c hc => ?_
  rw [unpackNext_of_ready hc.ready]
  exact triple_startItem k c ⟨hc.length, hc.ready.errNo⟩

theorem unpackNext_ended (c : Cursor UnpackContext) (h : c.reg.errNo ≠ .ok) :
    ∃ e c', unpackNext c = .error e c' ∧ e ≠ .outOfFuel := by
  have hnext : CCpon.unpackNext c = .error (.parse c.reg.errNo c.reg.errMsg) c :=
    bind_of_error (checkErrNo_of_ne h)
  exact ⟨_, _, bind_of_error (mapError_of_error hnext), nofun⟩

/-- The next chunk of an unfinished string is a live string again. -/
theorem triple_nextChunk {chunk : Nat → Bytes → Unpack (Bytes × Bool)} {errMsg : String}
    {wrap : CCpcpString → CCpcpItem} {it : CCpcpString}
    (hp : Takes (unpackChunk chunk errMsg it)) (hlive : it.Live)
    (hwrap : ∀ a : CCpcpString, a.Live → (wrap a).Live) (k : Nat) :
    Triple (fun c => c.input.length < k ∧ c.reg.errNo = .ok)
      (do setItem (wrap (← unpackChunk chunk errMsg it))) (fun _ => Unpacked (k - 1))
      (· ≠ .outOfFuel) := by
  intro c hc
  have htakes := hp k c hc
  rw [bind_apply]
  cases h : unpackChunk chunk errMsg it c with
  | ok a c' =>
    rw [h] at htakes
    exact ⟨htakes.1, htakes.2, hwrap a (live_unpackChunk _ hlive h)⟩
  | error e c' =>
    rw [h] at htakes
    exact htakes

theorem triple_unpackNext_string (k : Nat) (it : CCpcpString) (hlive : it.Live)
    (hlast : it.lastChunk = false) :
    Triple (Arrived Any k (.string it)) unpackNext
      (fun item c => Arrived Any (k - 1) item c ∧ item.Live) (· ≠ .outOfFuel) := by
  refine triple_getItem fun c hc => ?_
  have hnext : CCpon.unpackNext c = (do setItem (.string (← CCpon.unpackString it))) c := by
    rw [CCpon.unpackNext, bind_of_ok (checkErrNo_of_ok hc.errNo), bind_of_ok (getItem_apply c),
      hc.item_eq]
    exact congrFun (if_neg (by simp only [hlast, Bool.false_eq_true, not_false_eq_true])) c
  rw [hnext]
  exact triple_nextChunk (takes_unpackString it) hlive (by exact fun _ h => h) k c
      ⟨hc.length, hc.errNo⟩

theorem triple_unpackNext_blob (k : Nat) (it : CCpcpString) (hlive : it.Live)
    (hlast : it.lastChunk = false) :
    Triple (Arrived Any k (.blob it)) unpackNext
      (fun item c => Arrived Any (k - 1) item c ∧ item.Live) (· ≠ .outOfFuel) := by
  refine triple_getItem fun c hc => ?_
  have hnext : CCpon.unpackNext c =
      (do setItem (.blob (← if it.blobHex then unpackBlobHex it else unpackBlobEsc it))) c := by
    rw [CCpon.unpackNext, bind_of_ok (checkErrNo_of_ok hc.errNo), bind_of_ok (getItem_apply c),
      hc.item_eq]
    exact congrFun (if_neg (by simp only [hlast, Bool.false_eq_true, not_false_eq_true])) c
  rw [hnext]
  by_cases hhex : it.blobHex = true
  · rw [if_pos hhex]
    exact triple_nextChunk (takes_unpackBlobHex it) hlive (by exact fun _ h => h) k c
      ⟨hc.length, hc.errNo⟩
  · rw [if_neg hhex]
    exact triple_nextChunk (takes_unpackBlobEsc it) hlive (by exact fun _ h => h) k c
      ⟨hc.length, hc.errNo⟩

/-! ## metadata -/

theorem startItem_metaBegin {c : Cursor UnpackContext} {rest : Bytes}
    (h : c.input = C_META_BEGIN :: rest) :
    startItem c = .ok () { c with
      input := rest, last := C_META_BEGIN, reg := { c.reg with item := .metaMap } } := by
  have hs : skipStep .text C_META_BEGIN = .done (some C_META_BEGIN) := rfl
  rw [startItem, bind_of_ok (setItem_apply _ _), skipInsignificant, bind_apply, bind_apply,
    scan_done (by exact h) hs]
  rfl

/-- Looking for metadata: what is found is put back and then taken as an item. -/
theorem triple_metaDataBegin (k : Nat) :
    Triple (Within Any k) metaDataBegin
      (fun found c => if found then Within Any (k - 1) c else WithinOrEnded Any k c)
      (· ≠ .outOfFuel) := by
  intro c hc
  have hready := hc.ready
  refine Triple.bind (triple_skipInsignificant k c.reg) (fun o c₁ hc₁ => ?_) c ⟨hc.length, rfl⟩
  rw [bind_of_ok (unget_apply c₁)]
  cases o with
  | none =>
    rw [if_neg nofun]
    rcases hc₁ with herr | ⟨hlen, hreg⟩
    · exact .inr herr
    · exact .inl ⟨by simp only [List.length_cons]; omega, trivial, hreg ▸ hready⟩
  | some b =>
    obtain ⟨hlen, hreg, rfl⟩ := hc₁
    by_cases hb : c₁.last = C_META_BEGIN
    · rw [if_pos (congrArg some hb), bind_apply, unpackNext_of_ready (hreg ▸ hready),
        startItem_metaBegin (congrArg (· :: c₁.input) hb)]
      exact ⟨hlen, trivial, hreg ▸ hready.errNo, trivial⟩
    · rw [if_neg (mt Option.some.inj hb)]
      exact .inl ⟨by simp only [List.length_cons]; omega, trivial, hreg ▸ hready⟩

theorem progress : Progress reader Any where
  unpackNext := triple_unpackNext
  unpackNext_ended := unpackNext_ended
  unpackNext_string := triple_unpackNext_string
  unpackNext_blob := triple_unpackNext_blob
  metaDataBegin := triple_metaDataBegin
  parseException _ _ := nofun

end LibShv.CponReader
