import Mathlib
import LibShv.LocalFSNode.Bounded

/-!
# LibShv.LocalFSNode.Read

A range of a file (`ndRead`), over the bytes of the file. The offset and the size come from a
remote caller and may be any numbers.
-/

namespace LibShv

namespace LocalFSNode

/-- What can go wrong behind `open`. -/
inductive ReadFault where
  /-- The difference of two `qint64` that is none. -/
  | overflow
  /-- `std::length_error` of `resize`. -/
  | lengthError
deriving DecidableEq

/-- `seek`, `resize` and `read`: `seek` refuses a negative position and leaves the file at its
start, and what `read` does not fill stays zero. -/
def readAfterSeek (content : Bytes) (offset : Int64) (sz : ℕ) : Bytes :=
  let bytes := (content.drop (if offset < 0 then 0 else offset.toInt.toNat)).take sz
  bytes ++ List.replicate (sz - bytes.length) 0

/-- `ndRead` behind `open`, `content` the bytes of the file. -/
def readRange (content : Bytes) (offset size : Int64) : Except ReadFault Bytes :=
  let sz : ℤ := content.length - offset.toInt
  if sz < -2 ^ 63 ∨ 2 ^ 63 ≤ sz then .error .overflow
  else if sz ≤ 0 then .ok []
  else
    let sz := min sz size.toInt
    -- a negative size is a huge `size_t`
    if sz < 0 then .error .lengthError
    else .ok (readAfterSeek content offset sz.toNat)

theorem length_readAfterSeek (content : Bytes) (offset : Int64) (sz : ℕ) :
    (readAfterSeek content offset sz).length = sz := by
  simp only [readAfterSeek, List.length_append, List.length_replicate, List.length_take]
  omega

theorem nonneg_iff (n : Int64) : 0 ≤ n ↔ 0 ≤ n.toInt := Int64.le_iff_toInt_le

theorem neg_iff (n : Int64) : n < 0 ↔ n.toInt < 0 := Int64.lt_iff_toInt_lt

/-- The range that lies in the file. -/
theorem readAfterSeek_of_le {content : Bytes} {offset : Int64} (h : 0 ≤ offset.toInt) {sz : ℕ}
    (hsz : offset.toInt.toNat + sz ≤ content.length) :
    readAfterSeek content offset sz = (content.take (offset.toInt.toNat + sz)).drop offset.toInt.toNat := by
  have hpos : ¬ offset < 0 := fun hlt => by
    have := (neg_iff offset).1 hlt
    omega
  have hlen : ((content.drop offset.toInt.toNat).take sz).length = sz := by
    rw [List.length_take, List.length_drop]
    omega
  rw [readAfterSeek, if_neg hpos, hlen, Nat.sub_self, List.replicate_zero, List.append_nil,
    List.drop_take, Nat.add_sub_cancel_left]

/-! ## what a caller may rely on -/

/-- A read that is as it should be: no arithmetic overflows, no buffer is larger than the file, a
range is read as far as the file goes, and a negative number gives nothing. -/
structure ReadsRange (content : Bytes) (offset size : Int64) : Prop where
  no_overflow : readRange content offset size ≠ .error .overflow
  length_le : ∀ bytes, readRange content offset size = .ok bytes → bytes.length ≤ content.length
  range : 0 ≤ offset → 0 ≤ size → readRange content offset size =
    .ok ((content.take (min (offset.toInt.toNat + size.toInt.toNat) content.length)).drop
      offset.toInt.toNat)
  negative : offset < 0 ∨ size < 0 → ∀ bytes, readRange content offset size = .ok bytes →
    bytes = []

/-- A read that throws at a negative number. -/
theorem readsRange_of_error {content : Bytes} {offset size : Int64}
    (hread : readRange content offset size = .error .lengthError) (hneg : ¬ 0 ≤ size) :
    ReadsRange content offset size where
  no_overflow h := by
    rw [hread] at h
    cases h
  length_le bytes h := by
    rw [hread] at h
    cases h
  range _ hsize := absurd hsize hneg
  negative _ bytes h := by
    rw [hread] at h
    cases h

theorem readsRange_of_ok {content : Bytes} {offset size : Int64} {bytes : Bytes}
    (hread : readRange content offset size = .ok bytes) (hlen : bytes.length ≤ content.length)
    (hrange : 0 ≤ offset → 0 ≤ size → bytes =
      (content.take (min (offset.toInt.toNat + size.toInt.toNat) content.length)).drop
        offset.toInt.toNat)
    (hneg : offset < 0 ∨ size < 0 → bytes = []) : ReadsRange content offset size where
  no_overflow h := by
    rw [hread] at h
    cases h
  length_le _ h := by
    rw [hread] at h
    cases h
    exact hlen
  range h₁ h₂ := hread.trans (congrArg _ (hrange h₁ h₂))
  negative h _ h' := by
    rw [hread] at h'
    cases h'
    exact hneg h

/-- The first test of `ndRead` when the difference is a number. -/
theorem readRange_of_fits (content : Bytes) (offset size : Int64)
    (hlo : -2 ^ 63 ≤ (content.length : ℤ) - offset.toInt)
    (hhi : (content.length : ℤ) - offset.toInt < 2 ^ 63) :
    readRange content offset size =
      if (content.length : ℤ) - offset.toInt ≤ 0 then .ok []
      else if min ((content.length : ℤ) - offset.toInt) size.toInt < 0 then .error .lengthError
      else .ok (readAfterSeek content offset
        (min ((content.length : ℤ) - offset.toInt) size.toInt).toNat) := by
  rw [readRange, if_neg (by omega)]

/-- From a non-negative offset every size is read as it should be. -/
theorem readsRange_of_nonneg {content : Bytes} (hn : content.length < 2 ^ 63) {offset : Int64}
    (size : Int64) (h : 0 ≤ offset.toInt) : ReadsRange content offset size := by
  have hoffset := offset.toInt_lt
  have hread := readRange_of_fits content offset size (by omega) (by omega)
  by_cases hend : (content.length : ℤ) - offset.toInt ≤ 0
  · rw [if_pos hend] at hread
    refine readsRange_of_ok hread (Nat.zero_le _) (fun _ _ => ?_) fun _ => rfl
    rw [List.drop_eq_nil_of_le]
    rw [List.length_take]
    omega
  · rw [if_neg hend] at hread
    by_cases hneg : min ((content.length : ℤ) - offset.toInt) size.toInt < 0
    · rw [if_pos hneg] at hread
      refine readsRange_of_error hread fun hsize => ?_
      have := (nonneg_iff size).1 hsize
      omega
    · rw [if_neg hneg] at hread
      refine readsRange_of_ok hread ?_ (fun _ _ => ?_) ?_
      · rw [length_readAfterSeek]
        omega
      · rw [readAfterSeek_of_le h (by omega)]
        congr 2
        omega
      · rintro (hlt | hlt)
        · have := (neg_iff offset).1 hlt
          omega
        · have := (neg_iff size).1 hlt
          omega

/-- A read is as it should be exactly if the offset is not negative, or the size is not positive
and the difference of the file's size and the offset is a number: a read from before the start of
the file gives its first bytes. -/
theorem readsRange_iff (content : Bytes) (offset size : Int64) (hn : content.length < 2 ^ 63) :
    ReadsRange content offset size ↔
      0 ≤ offset ∨ (size ≤ 0 ∧ (content.length : ℤ) - offset.toInt < 2 ^ 63) := by
  rw [nonneg_iff, Int64.le_iff_toInt_le, show (0 : Int64).toInt = 0 from rfl]
  by_cases h : 0 ≤ offset.toInt
  · exact ⟨fun _ => Or.inl h, fun _ => readsRange_of_nonneg hn size h⟩
  rw [or_iff_right h]
  by_cases hover : 2 ^ 63 ≤ (content.length : ℤ) - offset.toInt
  · refine ⟨fun hreads => absurd ?_ hreads.no_overflow, fun hcond => absurd hcond.2 (not_lt.2 hover)⟩
    rw [readRange, if_pos (Or.inr hover)]
  have hread := readRange_of_fits content offset size (by omega) (by omega)
  rw [if_neg (by omega)] at hread
  constructor
  · intro hreads
    refine ⟨not_lt.1 fun hsize => ?_, not_le.1 hover⟩
    -- the blob has a byte
    rw [if_neg (by omega)] at hread
    have hnil := hreads.negative (Or.inl ((neg_iff offset).2 (not_le.1 h))) _ hread
    have hlen := congrArg List.length hnil
    rw [length_readAfterSeek, List.length_nil] at hlen
    omega
  · rintro ⟨hsize, -⟩
    by_cases hneg : size.toInt < 0
    · rw [if_pos (by omega)] at hread
      exact readsRange_of_error hread fun h₀ => absurd ((nonneg_iff size).1 h₀) (not_le.2 hneg)
    · rw [if_neg (by omega)] at hread
      have hzero : (min ((content.length : ℤ) - offset.toInt) size.toInt).toNat = 0 := by omega
      rw [hzero, List.eq_nil_of_length_eq_zero (length_readAfterSeek content offset 0)] at hread
      exact readsRange_of_ok hread (Nat.zero_le _)
        (fun h₀ _ => absurd ((nonneg_iff offset).1 h₀) h) fun _ => rfl

/-- The second and third byte of a file. -/
theorem readsRange_two_bytes : ReadsRange [65, 66, 67, 68] 1 2 :=
  (readsRange_iff [65, 66, 67, 68] 1 2 (by decide)).2 (Or.inl (by decide))

/-- An offset before the start of the file: its bytes come, with zeros behind them. -/
theorem readRange_negative_offset :
    readRange [65, 66] (-2) 9 = .ok [65, 66, 0, 0] ∧ ¬ ReadsRange [65, 66] (-2) 9 := by
  have hread : readRange [65, 66] (-2) 9 = .ok [65, 66, 0, 0] := by decide
  refine ⟨hread, fun h => ?_⟩
  have hnil := h.negative (Or.inl (by decide)) _ hread
  cases hnil

/-! ## the node -/

/-- The node reads what `readRange` does, of a file system that reads as `QFile` does. -/
theorem readOpened_of_readRange (fs : FileSystem σ) (file_path : QString) (w : World σ)
    {content bytes : Bytes} {offset size : Int64}
    (hsize : (fs.size file_path w.files).toInt = content.length)
    (hread : ∀ offset sz, fs.readAt offset sz file_path w.files =
      readAfterSeek content offset sz.toInt.toNat)
    (h : readRange content offset size = .ok bytes) :
    ∃ w', readOpened fs file_path offset size w = .ok (.ofVariant (.blob bytes)) w' := by
  have hfits : -2 ^ 63 ≤ (content.length : ℤ) - offset.toInt ∧
      (content.length : ℤ) - offset.toInt < 2 ^ 63 := by
    by_contra hover
    rw [readRange, if_pos (by omega)] at h
    cases h
  have hsz : (fs.size file_path w.files - offset).toInt = (content.length : ℤ) - offset.toInt := by
    rw [Int64.toInt_sub, hsize]
    exact Int.bmod_eq_of_le (by omega) (by omega)
  rw [readRange_of_fits _ _ _ hfits.1 hfits.2] at h
  have hzero : (fs.size file_path w.files - offset ≤ 0) ↔
      (content.length : ℤ) - offset.toInt ≤ 0 := by
    rw [Int64.le_iff_toInt_le, hsz]
    rfl
  rw [readOpened, LocalFSNode.bind_ok (show ask file_path fs.size w = .ok _ _ from rfl)]
  by_cases hend : (content.length : ℤ) - offset.toInt ≤ 0
  · rw [if_pos hend] at h
    rw [if_pos (hzero.2 hend)]
    cases h
    exact ⟨_, rfl⟩
  · rw [if_neg hend] at h
    rw [if_neg (mt hzero.1 hend), LocalFSNode.bind_ok (show ask file_path _ _ = .ok _ _ from rfl)]
    have hmin : (if size < fs.size file_path w.files - offset then size
        else fs.size file_path w.files - offset).toInt =
        min ((content.length : ℤ) - offset.toInt) size.toInt := by
      split
      · next hlt =>
        rw [Int64.lt_iff_toInt_lt, hsz] at hlt
        omega
      · next hge =>
        rw [Int64.lt_iff_toInt_lt, hsz] at hge
        omega
    by_cases hneg : min ((content.length : ℤ) - offset.toInt) size.toInt < 0
    · rw [if_pos hneg] at h
      cases h
    · rw [if_neg hneg] at h
      rw [hread, hmin]
      cases h
      exact ⟨_, rfl⟩

end LocalFSNode

end LibShv
