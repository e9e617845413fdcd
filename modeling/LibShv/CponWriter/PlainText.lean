import LibShv.CponWriter
import LibShv.CCpon.Numbers
import LibShv.CCpon.Strings

/-!
# LibShv.CponWriter.PlainText

CPON on one line: the text of a value without an indent has no zero, no tab and
no newline in it, whatever its strings, blobs and keys have.
-/

namespace LibShv.CponWriter

open CCpon Decimal

/-- Neither a zero, nor a tab, nor a newline. -/
def IsPlain (b : UInt8) : Prop := b ≠ 0 ∧ b ≠ 0x09 ∧ b ≠ newline

instance (b : UInt8) : Decidable (IsPlain b) := inferInstanceAs (Decidable (_ ∧ _))

/-- A text of such bytes. -/
def Plain (s : Bytes) : Prop := ∀ b ∈ s, IsPlain b

instance (s : Bytes) : Decidable (Plain s) := List.decidableBAll IsPlain s

@[simp] theorem plain_nil : Plain [] := List.forall_mem_nil _

@[simp] theorem plain_cons {b : UInt8} {s : Bytes} : Plain (b :: s) ↔ IsPlain b ∧ Plain s :=
  List.forall_mem_cons

@[simp] theorem plain_append {s s' : Bytes} : Plain (s ++ s') ↔ Plain s ∧ Plain s' :=
  List.forall_mem_append

theorem Plain.subset {s s' : Bytes} (h : Plain s) (hsub : s' ⊆ s) : Plain s' :=
  fun b hb => h b (hsub hb)

theorem plain_replicate {n : Nat} {b : UInt8} (h : IsPlain b) : Plain (List.replicate n b) :=
  fun _ hx => List.eq_of_mem_replicate hx ▸ h

theorem plain_flatMap {f : UInt8 → Bytes} (h : ∀ b, Plain (f b)) (s : Bytes) :
    Plain (s.flatMap f) := by
  intro b hb
  obtain ⟨x, -, hx⟩ := List.mem_flatMap.mp hb
  exact h x b hx

theorem plain_ite {p : Prop} [Decidable p] {s s' : Bytes} (h : Plain s) (h' : Plain s') :
    Plain (if p then s else s') := by
  split
  · exact h
  · exact h'

/-! ## numbers -/

theorem isPlain_of_isDigit {b : UInt8} (h : IsDigit b) : IsPlain b :=
  ⟨ne_of_isDigit h (by decide), ne_of_isDigit h (by decide), ne_of_isDigit h (by decide)⟩

theorem plain_uintToStr (n : UInt64) : Plain (uintToStr n) :=
  fun _ hb => isPlain_of_isDigit (isDigit_of_mem_digits hb)

theorem plain_intToStr (n : Int64) : Plain (intToStr n) := by
  rw [intToStr]
  split
  · exact plain_cons.mpr ⟨by decide, plain_uintToStr _⟩
  · exact plain_uintToStr _

/-- A digit of `int_to_str` is plain also where the number stays negative. -/
theorem isPlain_decimalDigit (val : Int64) : IsPlain (0x30 + (val % 10).toUInt64.toUInt8) := by
  have hten : (10 : Int64).toInt = 10 := by decide
  have hmod : (val % 10).toInt = val.toInt.tmod 10 := by rw [Int64.toInt_mod, hten]
  have hlow : -10 < (val % 10).toInt := by
    rw [hmod]
    exact Int.lt_tmod_of_pos _ (by decide)
  have hhigh : (val % 10).toInt < 10 := by
    rw [hmod]
    exact Int.tmod_lt_of_pos _ (by decide)
  rw [← Int64.ofInt_toInt (val % 10)]
  generalize (val % 10).toInt = r at hlow hhigh
  interval_cases r <;> decide

theorem plain_decimalDigits (n : Nat) (val : Int64) : Plain (decimalDigits n val) := by
  induction n generalizing val with
  | zero => exact plain_nil
  | succ n ih =>
    rw [decimalDigits]
    split
    · exact plain_nil
    · exact plain_cons.mpr ⟨isPlain_decimalDigit val, ih _⟩

theorem plain_decimalToStr (val : Int64) : Plain (decimalToStr val) := by
  have hstr : ∀ abs : Int64, Plain (if abs = 0 then [0x30] else (decimalDigits 20 abs).reverse) := by
    intro abs
    split
    · decide
    · exact (plain_decimalDigits 20 abs).subset (List.reverse_subset.mpr (List.Subset.refl _))
  rw [decimalToStr]
  split
  · exact plain_cons.mpr ⟨by decide, hstr _⟩
  · exact hstr _

theorem plain_decimalToString (mantisa : Int64) (exponent : Int32) :
    Plain (decimalToString mantisa exponent) := by
  have hzeros : ∀ n, Plain (List.replicate n 0x30) := fun n => plain_replicate (by decide)
  have hdot : IsPlain dot := by decide
  have hexp : Plain (ascii "e") := by decide
  unfold decimalToString
  extract_lets neg str decPlaces dotIx text
  have hstr : Plain str := plain_decimalToStr _
  have htext : Plain text := by
    refine plain_ite ?_ (plain_ite ?_ (plain_ite ?_ (plain_ite ?_ ?_)))
    · exact plain_append.mpr ⟨hstr.subset (List.take_subset _ _),
        plain_cons.mpr ⟨hdot, hstr.subset (List.drop_subset _ _)⟩⟩
    · exact plain_cons.mpr ⟨by decide, plain_cons.mpr ⟨hdot, plain_append.mpr ⟨hzeros _, hstr⟩⟩⟩
    · exact plain_append.mpr ⟨plain_append.mpr ⟨hstr, hzeros _⟩, plain_cons.mpr ⟨hdot, plain_nil⟩⟩
    · exact plain_append.mpr ⟨hstr, plain_cons.mpr ⟨hdot, plain_nil⟩⟩
    · exact plain_append.mpr ⟨plain_append.mpr ⟨hstr, hexp⟩, plain_decimalToStr _⟩
  exact plain_ite (plain_cons.mpr ⟨by decide, htext⟩) htext

theorem plain_uintDotUintToStr (n1 n2 : UInt32) : Plain (uintDotUintToStr n1 n2) := by
  have hdigits := plain_uintToStr n2.toUInt64
  rw [uintDotUintToStr]
  refine plain_append.mpr ⟨plain_uintToStr _, plain_cons.mpr ⟨by decide, ?_⟩⟩
  split
  · refine hdigits.subset fun b hb => ?_
    exact List.mem_reverse.mp ((List.dropWhile_sublist _).subset (List.mem_reverse.mp hb))
  · exact plain_nil

theorem plain_exponentialToStr (d : Float) (exp : Int64) : Plain (exponentialToStr d exp) := by
  have hstr := plain_uintDotUintToStr ((Nat.repeat (· * 10) 6 d).toUInt32 / 1000000)
    ((Nat.repeat (· * 10) 6 d).toUInt32 % 1000000)
  have hexp : Plain (ascii "e") := plain_cons.mpr ⟨by decide, plain_nil⟩
  rw [exponentialToStr]
  refine plain_append.mpr ⟨plain_append.mpr ⟨?_, hexp⟩, plain_intToStr exp⟩
  split
  · exact hstr.subset (List.dropLast_subset _)
  · exact hstr

theorem plain_positiveToStr (d : Float) : Plain (positiveToStr d) := by
  unfold positiveToStr
  split_ifs
  · exact plain_uintDotUintToStr _ _
  · exact plain_uintDotUintToStr _ _
  · exact plain_exponentialToStr _ _
  · exact plain_exponentialToStr _ _

theorem plain_packDouble (bits : UInt64) : Plain (CCpon.packDouble bits) := by
  rw [CCpon.packDouble, doubleToStr]
  split_ifs
  · exact plain_cons.mpr ⟨by decide, plain_cons.mpr ⟨by decide, plain_nil⟩⟩
  · exact plain_cons.mpr ⟨by decide, plain_positiveToStr _⟩
  · exact plain_positiveToStr _

/-! ## date-times -/

theorem length_padStep (len width : Nat) (pad : UInt8) (buff : Bytes) (i : Nat) :
    (padStep len width pad buff i).length = buff.length := by
  rw [padStep, List.length_set, List.length_set]

section Padding

variable {P : UInt8 → Prop}

/-- The padding moves bytes that are in the buffer. -/
theorem forall_padStep {len width : Nat} {pad : UInt8} {buff : Bytes} (h : ∀ b ∈ buff, P b)
    (hpad : P pad) (hlen : len ≤ buff.length) {i : Nat} (hi : i < len) :
    ∀ b ∈ padStep len width pad buff i, P b := by
  have hix : len - i - 1 < buff.length := by omega
  have hset : ∀ {s : Bytes} {b : UInt8}, (∀ x ∈ s, P x) → P b → ∀ k, ∀ x ∈ s.set k b, P x := by
    intro s b hs hb k x hx
    obtain hx | rfl := List.mem_or_eq_of_mem_set hx
    · exact hs x hx
    · exact hb
  refine hset (hset h ?_ _) hpad _
  rw [List.getD_eq_getElem _ _ hix]
  exact h _ (List.getElem_mem hix)

theorem forall_foldl_padStep {len width : Nat} {pad : UInt8} (hpad : P pad) {is : List Nat}
    (his : ∀ i ∈ is, i < len) {buff : Bytes} (h : ∀ b ∈ buff, P b) (hlen : len ≤ buff.length) :
    ∀ b ∈ is.foldl (padStep len width pad) buff, P b := by
  induction is generalizing buff with
  | nil => exact h
  | cons i is ih =>
    obtain ⟨hi, his⟩ := List.forall_mem_cons.mp his
    refine ih his (forall_padStep h hpad hlen hi) ?_
    rwa [length_padStep]

/-- What holds of digits, of the pad and of the bytes of the buffer holds of a padded number. -/
theorem forall_uintToStrLpad (hdigit : ∀ b, IsDigit b → P b) {buff : Bytes}
    (hbuff : ∀ b ∈ buff, P b) (n : UInt64) (width : Nat) {pad : UInt8} (hpad : P pad) :
    ∀ b ∈ uintToStrLpad buff n width pad, P b := by
  have hstr : ∀ b ∈ uintToStr n, P b := fun b hb => hdigit b (isDigit_of_mem_digits hb)
  rw [uintToStrLpad]
  split
  · refine fun b hb => forall_foldl_padStep hpad (fun i hi => List.mem_range.mp hi) ?_ ?_ b
      (List.take_subset _ _ hb)
    · exact List.forall_mem_append.mpr ⟨hstr, fun b hb => hbuff b (List.drop_subset _ _ hb)⟩
    · rw [List.length_append]
      exact Nat.le_add_right _ _
  · exact hstr

/-- A field of a date has one digit behind a zero, or its own digits. -/
theorem forall_dateField (hdigit : ∀ b, IsDigit b → P b) (n : Int32) :
    ∀ b ∈ dateField n, P b := by
  have hstr : ∀ b ∈ uintToStr n.toUInt32.toUInt64, P b :=
    fun b hb => hdigit b (isDigit_of_mem_digits hb)
  have hne : uintToStr n.toUInt32.toUInt64 ≠ [] := digits_ne_nil _
  have hzero : P 0x30 := hdigit _ (by decide)
  rw [dateField, uintToStrLpad]
  generalize uintToStr n.toUInt32.toUInt64 = str at hstr hne
  match str, hne with
  | [d], _ =>
    exact List.forall_mem_cons.mpr ⟨hzero, hstr⟩
  | d :: d' :: ds, _ =>
    rw [if_neg fun h => absurd h.1 (by simp)]
    exact hstr

end Padding

theorem plain_uintToStrLpad {buff : Bytes} (hbuff : Plain buff) (n : UInt64) (width : Nat)
    {pad : UInt8} (hpad : IsPlain pad) : Plain (uintToStrLpad buff n width pad) :=
  forall_uintToStrLpad (fun _ => isPlain_of_isDigit) hbuff n width hpad

theorem plain_dateField (n : Int32) : Plain (dateField n) :=
  forall_dateField (fun _ => isPlain_of_isDigit) n

theorem plain_packDateTimeStr (epochMsecs : Int64) (minFromUtc : Int) :
    Plain (packDateTimeStr epochMsecs minFromUtc) := by
  have hminus : IsPlain minus := by decide
  have hT : IsPlain 0x54 := by decide
  have hcolon : IsPlain C_KEY_DELIM := by decide
  unfold packDateTimeStr
  extract_lets tm str msec msecs absMin tz
  have hstr : Plain str := by simp [str, plain_dateField, hminus, hT, hcolon]
  have hmsecs : Plain msecs :=
    plain_ite (plain_cons.mpr ⟨by decide, plain_uintToStrLpad hstr _ _ (by decide)⟩) plain_nil
  have htz : Plain tz := by
    refine plain_ite (by decide) (plain_cons.mpr ⟨?_, plain_append.mpr ⟨plain_dateField _, ?_⟩⟩)
    · split <;> decide
    · exact plain_ite (plain_dateField _) plain_nil
  exact plain_append.mpr ⟨plain_append.mpr ⟨hstr, hmsecs⟩, htz⟩

theorem plain_packDateTime (epochMsecs : Int64) (minFromUtc : Int) :
    Plain (CCpon.packDateTime epochMsecs minFromUtc) := by
  have hquote : IsPlain quote := by decide
  have hd : Plain (ascii "d") := plain_cons.mpr ⟨by decide, plain_nil⟩
  simp [CCpon.packDateTime, plain_packDateTimeStr, hquote, hd]

/-! ## strings and blobs -/

theorem plain_escape {b : UInt8} {s : Bytes} (hb : IsPlain b) (hs : Plain s) :
    Plain (backslash :: b :: s) :=
  plain_cons.mpr ⟨by decide, plain_cons.mpr ⟨hb, hs⟩⟩

/-- The zero, the tab and the newline are escaped by letters. -/
theorem plain_escapedChar (b : UInt8) : Plain (escapedChar b) := by
  unfold escapedChar
  split_ifs with h0 h1 h2 h3 h4 h5 h6
  iterate 7 exact plain_escape (by decide) plain_nil
  exact plain_cons.mpr ⟨⟨h0, h2, h5⟩, plain_nil⟩

theorem isPlain_hexify {b : UInt8} (h : b < 16) : IsPlain (hexify b) :=
  ⟨hexify_ne h rfl, hexify_ne h rfl, hexify_ne h rfl⟩

theorem plain_escapedBlobChar (b : UInt8) : Plain (escapedBlobChar b) := by
  unfold escapedBlobChar
  split_ifs with h1 h2 h3 h4 h5 h6
  iterate 5 exact plain_escape (by decide) plain_nil
  · exact plain_escape (isPlain_hexify (div_lt_sixteen b))
      (plain_cons.mpr ⟨isPlain_hexify (mod_lt_sixteen b), plain_nil⟩)
  · have h0 : b ≠ 0 := by
      rintro rfl
      exact h6 (.inl (by decide))
    exact plain_cons.mpr ⟨⟨h0, h2, h4⟩, plain_nil⟩

theorem plain_packString (s : Bytes) : Plain (CCpon.packString s) := by
  have hquote : IsPlain quote := by decide
  have hs : Plain (copyDataEscaped s) := plain_flatMap plain_escapedChar s
  simp [CCpon.packString, hquote, hs]

theorem plain_packBlob (s : Bytes) : Plain (CCpon.packBlob s) := by
  have hquote : IsPlain quote := by decide
  have hb : IsPlain 0x62 := by decide
  have hs : Plain (copyBlobEscaped (blobPart s)) := plain_flatMap plain_escapedBlobChar _
  simp [CCpon.packBlob, hquote, hb, hs]

/-! ## values -/

theorem plain_packNull : Plain packNull := by decide

theorem plain_packBoolean (b : Bool) : Plain (CCpon.packBoolean b) := by
  cases b <;> decide

theorem plain_packFieldDelim (nestCount : Nat) (isFirstField isOneliner : Bool) :
    Plain (packFieldDelim [] nestCount isFirstField isOneliner) := by
  cases isFirstField
  · exact plain_cons.mpr ⟨by decide, plain_nil⟩
  · exact plain_nil

theorem plain_writeMapKey (nestCount : Nat) (isOneliner isFirst : Bool) (key : Bytes) :
    Plain (writeMapKey [] nestCount isOneliner isFirst key) := by
  refine plain_append.mpr ⟨plain_append.mpr ⟨plain_packFieldDelim _ _ _, plain_packString _⟩, ?_⟩
  exact plain_cons.mpr ⟨by decide, plain_nil⟩

theorem plain_writeIMapKey (nestCount : Nat) (isOneliner isFirst : Bool) (key : Int32) :
    Plain (writeIMapKey [] nestCount isOneliner isFirst key) := by
  refine plain_append.mpr ⟨plain_append.mpr ⟨plain_packFieldDelim _ _ _, plain_intToStr _⟩, ?_⟩
  exact plain_cons.mpr ⟨by decide, plain_nil⟩

theorem plain_writeContainerEnd (nestCount : Nat) (isOneliner : Bool) {bracket : UInt8}
    (h : IsPlain bracket) : Plain (writeContainerEnd [] nestCount isOneliner bracket) :=
  plain_append.mpr ⟨plain_nil, plain_cons.mpr ⟨h, plain_nil⟩⟩

mutual

/-- The text of a value is plain. -/
theorem plain_write (nestCount : Nat) : (v : RpcValue) → Plain (write [] nestCount v)
  | .mk md v => by
    rw [write]
    exact plain_append.mpr ⟨plain_writeMetaData nestCount md, plain_writeVariant nestCount v⟩

theorem plain_writeMetaData (nestCount : Nat) :
    (md : RpcMetaData) → Plain (writeMetaData [] nestCount md)
  | .mk im sm => by
    rw [writeMetaData]
    split
    · exact plain_nil
    · refine plain_cons.mpr ⟨by decide, plain_append.mpr ⟨plain_append.mpr ⟨?_, ?_⟩, ?_⟩⟩
      · exact plain_writeIMapElements _ _ _ im
      · exact plain_writeMapElements _ _ _ sm
      · exact plain_writeContainerEnd _ _ (by decide)

theorem plain_writeVariant (nestCount : Nat) : (v : Variant) → Plain (writeVariant [] nestCount v)
  | .invalid => plain_packNull
  | .null => plain_packNull
  | .uint n => plain_append.mpr ⟨plain_uintToStr n, plain_cons.mpr ⟨by decide, plain_nil⟩⟩
  | .int n => plain_intToStr n
  | .double bits => plain_packDouble bits
  | .bool b => plain_packBoolean b
  | .blob bytes => plain_packBlob bytes
  | .string bytes => plain_packString bytes
  | .dateTime dt => plain_packDateTime _ _
  | .decimal d => plain_decimalToString _ _
  | .list vs => by
    rw [writeVariant]
    refine plain_cons.mpr ⟨by decide, plain_append.mpr ⟨?_, ?_⟩⟩
    · exact plain_writeListElements _ _ _ vs
    · exact plain_writeContainerEnd _ _ (by decide)
  | .map m => by
    rw [writeVariant]
    refine plain_cons.mpr ⟨by decide, plain_append.mpr ⟨?_, ?_⟩⟩
    · exact plain_writeMapElements _ _ _ m
    · exact plain_writeContainerEnd _ _ (by decide)
  | .imap m => by
    rw [writeVariant]
    refine plain_cons.mpr ⟨by decide, plain_cons.mpr ⟨by decide, plain_append.mpr ⟨?_, ?_⟩⟩⟩
    · exact plain_writeIMapElements _ _ _ m
    · exact plain_writeContainerEnd _ _ (by decide)

theorem plain_writeListElements (nestCount : Nat) (isOneliner isFirst : Bool) :
    (vs : List RpcValue) → Plain (writeListElements [] nestCount isOneliner isFirst vs)
  | [] => plain_nil
  | v :: vs => by
    rw [writeListElements]
    refine plain_append.mpr ⟨plain_packFieldDelim _ _ _, plain_append.mpr ⟨?_, ?_⟩⟩
    · exact plain_write nestCount v
    · exact plain_writeListElements nestCount isOneliner false vs

theorem plain_writeMapElements (nestCount : Nat) (isOneliner isFirst : Bool) :
    (m : List (Bytes × RpcValue)) → Plain (writeMapElements [] nestCount isOneliner isFirst m)
  | [] => plain_nil
  | (k, v) :: m => by
    rw [writeMapElements]
    refine plain_append.mpr ⟨plain_writeMapKey _ _ _ k, plain_append.mpr ⟨?_, ?_⟩⟩
    · exact plain_write nestCount v
    · exact plain_writeMapElements nestCount isOneliner false m

theorem plain_writeIMapElements (nestCount : Nat) (isOneliner isFirst : Bool) :
    (m : List (Int32 × RpcValue)) → Plain (writeIMapElements [] nestCount isOneliner isFirst m)
  | [] => plain_nil
  | (k, v) :: m => by
    rw [writeIMapElements]
    refine plain_append.mpr ⟨plain_writeIMapKey _ _ _ k, plain_append.mpr ⟨?_, ?_⟩⟩
    · exact plain_write nestCount v
    · exact plain_writeIMapElements nestCount isOneliner false m

end

theorem plain_toCpon (v : RpcValue) : Plain (toCpon [] v) := plain_write 0 v

end LibShv.CponWriter
