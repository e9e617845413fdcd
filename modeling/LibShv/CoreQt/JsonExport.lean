import LibShv.CoreQt.Json

/-!
# LibShv.CoreQt.JsonExport

Which values are exported faithfully: inside of an array or an object an integer has to be an
`int`; alone, it has to have six significant digits as well, and a text has to be plain.
-/

namespace LibShv

open CCpon JsonText

/-! ## nodes -/

mutual

/-- The value and every value inside of it have a variant with `P`; metadata is not looked at. -/
def RpcValue.Nodes (P : Variant → Prop) : RpcValue → Prop
  | .mk _ v => P v ∧ v.Nodes P

def Variant.Nodes (P : Variant → Prop) : Variant → Prop
  | .list vs => nodesList P vs
  | .map m => nodesMap P m
  | .imap m => nodesIMap P m
  | _ => True

def nodesList (P : Variant → Prop) : List RpcValue → Prop
  | [] => True
  | v :: vs => v.Nodes P ∧ nodesList P vs

def nodesMap (P : Variant → Prop) : List (Bytes × RpcValue) → Prop
  | [] => True
  | (_, v) :: m => v.Nodes P ∧ nodesMap P m

def nodesIMap (P : Variant → Prop) : List (Int32 × RpcValue) → Prop
  | [] => True
  | (_, v) :: m => v.Nodes P ∧ nodesIMap P m

end

/-- A node of a type that JSON has a value for; texts are texts, and integers are exact as
numbers of JSON. -/
def Variant.IsJson : Variant → Prop
  | .invalid | .double _ | .decimal _ => False
  | .int n => -2 ^ 53 ≤ n.toInt ∧ n.toInt ≤ 2 ^ 53
  | .uint n => n.toNat ≤ 2 ^ 53
  | .string s => ValidUtf8 s
  | .map m => SortedMap.Sorted m ∧ ∀ e ∈ m, ValidUtf8 e.1
  | .imap m => SortedMap.Sorted m
  | .null | .bool _ | .blob _ | .dateTime _ | .list _ => True

def IsInt32 (z : Int) : Prop := -2 ^ 31 ≤ z ∧ z < 2 ^ 31

instance (z : Int) : Decidable (IsInt32 z) := inferInstanceAs (Decidable (_ ∧ _))

/-- An integer is an `int`. -/
def Variant.FitsInt : Variant → Prop
  | .int n => IsInt32 n.toInt
  | .uint n => IsInt32 n.toNat
  | _ => True

theorem isInt32_cutToInt (z : Int) : IsInt32 (cutToInt z) := by
  rw [cutToInt, Int32.toInt_ofInt]
  exact ⟨Int.le_bmod (by decide), Int.bmod_lt (by decide)⟩

theorem cutToInt_eq_iff (z : Int) : cutToInt z = z ↔ IsInt32 z := by
  constructor
  · intro h
    rw [← h]
    exact isInt32_cutToInt z
  · rintro ⟨hlo, hhi⟩
    exact Int32.toInt_ofInt_of_le (by omega) (by omega)

/-! ## members -/

theorem toNat_ofNat_byte (b : UInt8) : (Char.ofNat b.toNat).toNat = b.toNat := by
  have hb := b.toNat_lt
  rw [Char.toNat_ofNat, if_pos (.inl (by omega))]

theorem fromLatin1_intDigits_inj {y z : Int}
    (h : QString.fromLatin1 (Decimal.intDigits y) = QString.fromLatin1 (Decimal.intDigits z)) :
    y = z := by
  refine Decimal.intDigits_inj (List.map_injective_iff.mpr (fun a b hab => ?_) h)
  rw [← UInt8.toNat_inj, ← toNat_ofNat_byte a, ← toNat_ofNat_byte b]
  exact congrArg Char.toNat hab

/-- Under distinct keys an object has the members that were put in. -/
theorem object_eq_iff {α : Type} (key : α → QString) (f g : α → QJsonValue) {m : List α}
    (hkey : ∀ x ∈ m, ∀ y ∈ m, key x = key y → x = y) :
    m.foldl (fun o x => SortedMap.insert (key x) (f x) o) [] =
        m.foldl (fun o x => SortedMap.insert (key x) (g x) o) [] ↔ ∀ x ∈ m, f x = g x := by
  constructor
  · intro heq x hx
    have hf := SortedMap.find?_foldl_insert_of_mem key f hx
      (fun y hy h => by rw [hkey y hy x hx h]) []
    have hg := SortedMap.find?_foldl_insert_of_mem key g hx
      (fun y hy h => by rw [hkey y hy x hx h]) []
    rw [heq, hg, Option.some.injEq] at hf
    exact hf.symm
  · intro h
    exact List.foldl_ext _ _ _ fun o x hx => by rw [h x hx]

section Values

variable (qt : QtTexts)

theorem mapToJson_eq (toInt : Int → Int) (m : List (Bytes × RpcValue))
    (object : List (QString × QJsonValue)) :
    mapToJson qt toInt object m = m.foldl (fun o e =>
      SortedMap.insert (qt.fromStdString e.1) (jsonOf qt toInt e.2) o) object := by
  induction m generalizing object with
  | nil => rfl
  | cons e m ih => exact ih _

theorem imapToJson_eq (toInt : Int → Int) (m : List (Int32 × RpcValue))
    (object : List (QString × QJsonValue)) :
    imapToJson qt toInt object m = m.foldl (fun o e =>
      SortedMap.insert (QString.fromLatin1 (Decimal.intDigits e.1.toInt))
        (jsonOf qt toInt e.2) o) object := by
  induction m generalizing object with
  | nil => rfl
  | cons e m ih => exact ih _

theorem SortedMap.Sorted.eq_of_key {κ β : Type} [Ord κ] [Std.LawfulEqOrd κ]
    {m : List (κ × β)} (h : SortedMap.Sorted m) {x y : κ × β} (hx : x ∈ m) (hy : y ∈ m)
    (hkey : x.1 = y.1) : x = y := by
  have hfound := SortedMap.find?_of_mem h.keys_nodup hx
  rw [hkey, SortedMap.find?_of_mem h.keys_nodup hy, Option.some.injEq] at hfound
  exact Prod.ext hkey hfound.symm

/-- The members of a map come out the same if and only if its values do. -/
theorem mapToJson_eq_iff {m : List (Bytes × RpcValue)} (h : SortedMap.Sorted m)
    (hvalid : ∀ e ∈ m, ValidUtf8 e.1) :
    mapToJson qt cutToInt [] m = mapToJson qt id [] m ↔
      ∀ e ∈ m, jsonOf qt cutToInt e.2 = jsonOf qt id e.2 := by
  rw [mapToJson_eq, mapToJson_eq]
  refine object_eq_iff _ (fun e : Bytes × RpcValue => jsonOf qt cutToInt e.2)
    (fun e : Bytes × RpcValue => jsonOf qt id e.2) fun x hx y hy hkey => ?_
  refine SortedMap.Sorted.eq_of_key h hx hy ?_
  rw [← qt.toStdString_fromStdString (hvalid x hx), hkey,
    qt.toStdString_fromStdString (hvalid y hy)]

theorem imapToJson_eq_iff {m : List (Int32 × RpcValue)} (h : SortedMap.Sorted m) :
    imapToJson qt cutToInt [] m = imapToJson qt id [] m ↔
      ∀ e ∈ m, jsonOf qt cutToInt e.2 = jsonOf qt id e.2 := by
  rw [imapToJson_eq, imapToJson_eq]
  refine object_eq_iff _ (fun e : Int32 × RpcValue => jsonOf qt cutToInt e.2)
    (fun e : Int32 × RpcValue => jsonOf qt id e.2) fun x hx y hy hkey => ?_
  exact SortedMap.Sorted.eq_of_key h hx hy (Int32.toInt.inj (fromLatin1_intDigits_inj hkey))

theorem number_eq_iff (n : Int) :
    (QJsonValue.double (.finite (cutToInt n)) = .double (.finite n)) ↔ IsInt32 n := by
  rw [QJsonValue.double.injEq, QDouble.finite.injEq, Int.cast_inj, cutToInt_eq_iff]

mutual

/-- The JSON of a value has the integers of the value if and only if they fit. -/
theorem jsonOf_eq_iff : (v : RpcValue) → v.Nodes Variant.IsJson →
    (jsonOf qt cutToInt v = jsonOf qt id v ↔ v.Nodes Variant.FitsInt)
  | .mk md v, ⟨hv, hvs⟩ => by
    cases v with
    | invalid | double _ | decimal _ => cases hv
    | null | bool _ | blob _ | string _ | dateTime _ =>
      exact iff_of_true rfl ⟨trivial, trivial⟩
    | uint n => exact (number_eq_iff _).trans (and_iff_left trivial).symm
    | int n => exact (number_eq_iff _).trans (and_iff_left trivial).symm
    | list vs =>
      simp only [jsonOf, variantToJson, QJsonValue.array.injEq, RpcValue.Nodes, Variant.FitsInt,
        Variant.Nodes, true_and]
      exact listToJson_eq_iff vs hvs
    | map m =>
      simp only [jsonOf, variantToJson, QJsonValue.object.injEq, RpcValue.Nodes, Variant.FitsInt,
        Variant.Nodes, true_and]
      exact (mapToJson_eq_iff qt hv.1 hv.2).trans (jsonOfMap_eq_iff m hvs)
    | imap m =>
      simp only [jsonOf, variantToJson, QJsonValue.object.injEq, RpcValue.Nodes, Variant.FitsInt,
        Variant.Nodes, true_and]
      exact (imapToJson_eq_iff qt hv).trans (jsonOfIMap_eq_iff m hvs)

theorem listToJson_eq_iff : (vs : List RpcValue) → nodesList Variant.IsJson vs →
    (listToJson qt cutToInt vs = listToJson qt id vs ↔ nodesList Variant.FitsInt vs)
  | [], _ => iff_of_true rfl trivial
  | v :: vs, ⟨hv, hvs⟩ => by
    rw [listToJson, listToJson, nodesList, List.cons.injEq, jsonOf_eq_iff v hv,
      listToJson_eq_iff vs hvs]

theorem jsonOfMap_eq_iff : (m : List (Bytes × RpcValue)) → nodesMap Variant.IsJson m →
    ((∀ e ∈ m, jsonOf qt cutToInt e.2 = jsonOf qt id e.2) ↔ nodesMap Variant.FitsInt m)
  | [], _ => by simp [nodesMap]
  | (k, v) :: m, ⟨hv, hm⟩ => by
    rw [List.forall_mem_cons, nodesMap, jsonOf_eq_iff v hv, jsonOfMap_eq_iff m hm]

theorem jsonOfIMap_eq_iff : (m : List (Int32 × RpcValue)) → nodesIMap Variant.IsJson m →
    ((∀ e ∈ m, jsonOf qt cutToInt e.2 = jsonOf qt id e.2) ↔ nodesIMap Variant.FitsInt m)
  | [], _ => by simp [nodesIMap]
  | (k, v) :: m, ⟨hv, hm⟩ => by
    rw [List.forall_mem_cons, nodesIMap, jsonOf_eq_iff v hv, jsonOfIMap_eq_iff m hm]

end

end Values

/-! ## texts between quotes -/

theorem utf8EncodeChar_of_ascii {c : Char} (h : c.toNat < 0x80) :
    String.utf8EncodeChar c = [UInt8.ofNat c.toNat] := by
  have hval : c.val.toNat = c.toNat := rfl
  rw [String.utf8EncodeChar]
  simp only [hval]
  rw [if_pos (by omega)]

namespace QString

/-- Of ASCII characters both encodings are the same. -/
theorem toLatin1_of_ascii {s : QString} (h : ∀ c ∈ s, c.toNat < 0x80) :
    toLatin1 s = toStdString s := by
  refine List.flatMap_congr fun c hc => ?_
  rw [utf8EncodeChar_of_ascii (h c hc), if_pos (Nat.lt_trans (h c hc) (by decide))]

/-- A character takes its cost in Latin-1 at most, and less if it is not plain. -/
theorem length_toLatin1_le (s : QString) :
    (toLatin1 s).length ≤ costs s ∧ (costs s ≤ (toLatin1 s).length → ∀ c ∈ s, IsPlain c) := by
  induction s with
  | nil => exact ⟨Nat.le_refl _, fun _ c hc => nomatch hc⟩
  | cons c s ih =>
    obtain ⟨hle, hplain⟩ := ih
    have hlength : (toLatin1 (c :: s)).length =
        (if c.toNat < 0x10000 then 1 else 2) + (toLatin1 s).length := by
      rw [toLatin1, List.flatMap_cons, List.length_append]
      refine congrArg (· + (toLatin1 s).length) ?_
      split_ifs <;> first | rfl | omega
    have hcosts : costs (c :: s) = cost c + costs s := rfl
    rw [hlength, hcosts, cost]
    by_cases hc : IsPlain c
    · have hsmall : c.toNat < 0x10000 := Nat.lt_trans hc.2.1 (by decide)
      rw [if_pos hc, if_pos hsmall]
      refine ⟨by omega, fun hcost => List.forall_mem_cons.mpr ⟨hc, hplain (by omega)⟩⟩
    · rw [if_neg hc]
      split_ifs
      · exact ⟨by omega, fun hcost => by omega⟩
      · exact ⟨by omega, fun hcost => by omega⟩

end QString

/-- Between quotes a text denotes itself if and only if it is plain. -/
theorem denotes_quoted_iff (s : QString) :
    Denotes (QString.toLatin1 ('"' :: (s ++ ['"']))) (.string s) ↔ ∀ c ∈ s, IsPlain c := by
  constructor
  · intro h
    have hcosts := costs_of_denotes h
    have hlength : (QString.toLatin1 ('"' :: (s ++ ['"']))).length =
        (QString.toLatin1 s).length + 2 := by
      rw [QString.toLatin1, List.flatMap_cons, List.flatMap_append, List.length_append,
        List.length_append, Nat.add_comm]
      rfl
    exact (QString.length_toLatin1_le s).2 (by omega)
  · intro h
    refine ⟨quoted s, QString.toLatin1_of_ascii ?_, parse_quoted h⟩
    intro c hc
    rcases List.mem_cons.mp hc with rfl | hc
    · decide
    · rcases List.mem_append.mp hc with hc | hc
      · exact (h c hc).2.1
      · rw [List.mem_singleton.mp hc]
        decide

/-- A byte that is a plain character. -/
def IsPlainByte (b : UInt8) : Prop := IsPlain (Char.ofNat b.toNat)

instance (b : UInt8) : Decidable (IsPlainByte b) := inferInstanceAs (Decidable (IsPlain _))

theorem plain_fromLatin1 {bs : Bytes} (h : ∀ b ∈ bs, IsPlainByte b) :
    ∀ c ∈ QString.fromLatin1 bs, IsPlain c := by
  intro c hc
  obtain ⟨b, hb, rfl⟩ := List.mem_map.mp hc
  exact h b hb

theorem isPlainByte_base64Char (n : Nat) : IsPlainByte (base64Char n) := by
  have hall : ∀ i < 64, IsPlainByte (base64Char i) := by decide +kernel
  have hmod : base64Char n = base64Char (n % 64) := by rw [base64Char, base64Char, Nat.mod_mod]
  rw [hmod]
  exact hall _ (Nat.mod_lt _ (by decide))

theorem plain_toBase64 (bs : Bytes) : ∀ b ∈ toBase64 bs, IsPlainByte b := by
  have hpad : IsPlainByte 0x3d := by decide
  induction bs using toBase64.induct with
  | case1 => exact fun b hb => nomatch hb
  | case2 a | case3 a b => simp [toBase64, isPlainByte_base64Char, hpad]
  | case4 a b c bs ih =>
    rw [toBase64]
    simp only [List.forall_mem_cons, isPlainByte_base64Char, true_and]
    exact ih

theorem isPlainByte_of_isDigit (b : UInt8) (h : Decimal.IsDigit b) : IsPlainByte b := by
  have hall : ∀ n < 256, Decimal.IsDigit (UInt8.ofNat n) → IsPlainByte (UInt8.ofNat n) := by
    decide +kernel
  have hb := hall b.toNat b.toNat_lt
  rw [UInt8.ofNat_toNat] at hb
  exact hb h

theorem plain_toIsoStringAlways (dt : RpcDateTime) : ∀ b ∈ dt.toIsoStringAlways, IsPlainByte b := by
  have hfield := CponWriter.forall_dateField isPlainByte_of_isDigit
  have hminus : IsPlainByte minus := by decide
  have hT : IsPlainByte 0x54 := by decide
  have hcolon : IsPlainByte C_KEY_DELIM := by decide
  unfold RpcDateTime.toIsoStringAlways
  extract_lets tm str msec absMin tz
  have hstr : ∀ b ∈ str, IsPlainByte b := by
    simp only [str, List.forall_mem_append, List.forall_mem_cons]
    exact ⟨⟨⟨⟨⟨hfield _, hminus, hfield _⟩, hminus, hfield _⟩, hT, hfield _⟩, hcolon, hfield _⟩,
      hcolon, hfield _⟩
  have htz : ∀ b ∈ tz, IsPlainByte b := by
    by_cases hzero : dt.utcOffsetMin = 0
    · simp only [tz, if_pos hzero]
      exact List.forall_mem_singleton.mpr (by decide)
    · simp only [tz, if_neg hzero]
      refine List.forall_mem_cons.mpr ⟨?_, List.forall_mem_append.mpr ⟨hfield _, ?_⟩⟩
      · split <;> decide
      · split
        · exact hfield _
        · exact fun b hb => nomatch hb
  intro b hb
  refine List.forall_mem_append.mpr ⟨List.forall_mem_append.mpr ⟨hstr, ?_⟩, htz⟩ b
    (List.take_subset _ _ hb)
  exact List.forall_mem_cons.mpr ⟨by decide,
    CponWriter.forall_uintToStrLpad isPlainByte_of_isDigit hstr _ _ (by decide)⟩

/-- The text of bytes that are plain. -/
theorem fromStdString_of_plain (qt : QtTexts) {bs : Bytes} (h : ∀ b ∈ bs, IsPlainByte b) :
    qt.fromStdString bs = QString.fromLatin1 bs := by
  have hbytes : QString.toStdString (QString.fromLatin1 bs) = bs := by
    have hascii : ∀ c ∈ QString.fromLatin1 bs, c.toNat < 0x80 :=
      fun c hc => (plain_fromLatin1 h c hc).2.1
    rw [← QString.toLatin1_of_ascii hascii, QString.toLatin1, QString.fromLatin1,
      List.flatMap_map]
    refine Eq.trans (List.flatMap_congr fun b _ => ?_) (List.flatMap_singleton' bs)
    have hb := b.toNat_lt
    rw [toNat_ofNat_byte, if_pos hb, UInt8.ofNat_toNat]
  rw [← qt.fromStdString_toStdString (QString.fromLatin1 bs), hbytes]

/-! ## numbers -/

/-- Six significant digits are enough. -/
def SixDigits (z : Int) : Prop := ∃ (c : Int) (e : Nat), c.natAbs < 10 ^ 6 ∧ z = c * 10 ^ e

/-- A number with six significant digits that is nearest to `z`. -/
def Nearest (z m : Int) : Prop :=
  SixDigits m ∧ ∀ k, SixDigits k → (m - z).natAbs ≤ (k - z).natAbs

theorem Nearest.eq_of_sixDigits {z m : Int} (h : Nearest z m) (hz : SixDigits z) : m = z := by
  have hle := h.2 z hz
  omega

/-- Above nine digits the last four of six significant ones are zeros. -/
theorem SixDigits.dvd {z : Int} (h : SixDigits z) (hz : 10 ^ 9 ≤ z.natAbs) : (10000 : Int) ∣ z := by
  obtain ⟨c, e, hc, rfl⟩ := h
  have he : 4 ≤ e := by
    by_contra hlt
    have hpow : 10 ^ e ≤ 10 ^ 3 := Nat.pow_le_pow_right (by decide) (by omega)
    rw [Int.natAbs_mul, Int.natAbs_pow] at hz
    have hmul : c.natAbs * 10 ^ e < 10 ^ 6 * 10 ^ 3 :=
      Nat.mul_lt_mul_of_lt_of_le hc hpow (by decide)
    exact absurd hz (Nat.not_le.mpr hmul)
  exact Dvd.dvd.mul_left (pow_dvd_pow 10 he) c

/-- Rounding an `int` gives an `int`. -/
theorem Nearest.isInt32 {z m : Int} (h : Nearest z m) (hz : IsInt32 z) : IsInt32 m := by
  obtain ⟨hsix, hnear⟩ := h
  obtain ⟨hlo, hhi⟩ := hz
  have htop := hnear 2147480000 ⟨214748, 4, by decide, by decide⟩
  have hbottom := hnear (-2147480000) ⟨-214748, 4, by decide, by decide⟩
  constructor
  · by_contra hlt
    obtain ⟨q, hq⟩ := hsix.dvd (by omega)
    omega
  · by_contra hlt
    obtain ⟨q, hq⟩ := hsix.dvd (by omega)
    omega

/-! ## values alone and in containers -/

def QJsonValue.isContainer : QJsonValue → Bool
  | .array _ | .object _ => true
  | _ => false

/-- Qt writes the value as it says: an array or an object as JSON that denotes it, and a number
with six significant digits. -/
structure QtJson.Writes (qt : QtJson) (j : QJsonValue) : Prop where
  toJson : j.isContainer = true → Denotes (qt.toJson j) j
  number : ∀ z : Int, j = .double (.finite z) → IsInt32 z →
    ∃ m : Int, Nearest z m ∧ Denotes (qt.number (.finite z)) (.double (.finite m))

/-- Alone an integer has six significant digits at most, and a text is plain. -/
def RpcValue.AloneOk (qt : QtTexts) (v : RpcValue) : Prop :=
  match v.value with
  | .int n => SixDigits n.toInt
  | .uint n => SixDigits n.toNat
  | .string s => ∀ c ∈ qt.fromStdString s, IsPlain c
  | _ => True

/-- The bytes are JSON that denotes the value with all of its integers. -/
def RpcValue.Exports (qt : QtJson) (v : RpcValue) : Prop :=
  Denotes (jsonValueToByteArray qt (rpcValueToJson qt.toQtTexts v)) (jsonOf qt.toQtTexts id v)

section Export

variable (qt : QtJson)
include qt

/-- A text denotes one value. -/
theorem denotes_unique {bs : Bytes} {v w : QJsonValue} (hv : Denotes bs v) (hw : Denotes bs w) :
    v = w := by
  obtain ⟨cs, rfl, hv⟩ := hv
  obtain ⟨cs', hcs, hw⟩ := hw
  have heq : cs = cs' := by
    rw [← qt.fromStdString_toStdString cs, hcs, qt.fromStdString_toStdString]
  rw [heq, hw, Option.some.injEq] at hv
  exact hv.symm

theorem denotes_number_iff (z : Int)
    (hqt : qt.Writes (.double (.finite (cutToInt z)))) :
    Denotes (qt.number (.finite (cutToInt z))) (.double (.finite z)) ↔ IsInt32 z ∧ SixDigits z := by
  obtain ⟨m, hnear, hdenotes⟩ := hqt.number (cutToInt z) rfl (isInt32_cutToInt z)
  constructor
  · intro h
    have heq := denotes_unique qt hdenotes h
    rw [QJsonValue.double.injEq, QDouble.finite.injEq, Int.cast_inj] at heq
    exact ⟨heq ▸ hnear.isInt32 (isInt32_cutToInt z), heq ▸ hnear.1⟩
  · rintro ⟨hint, hsix⟩
    rw [(cutToInt_eq_iff z).mpr hint] at hnear hdenotes ⊢
    rwa [hnear.eq_of_sixDigits hsix] at hdenotes

end Export

/-- An integer and a text that is not plain, inside of a list. -/
def listSample : RpcValue :=
  .ofVariant (.list [.ofVariant (.int 1), .ofVariant (.string (QString.toStdString ['é', '"']))])

/-- The text of the list. -/
def listSampleText : QString :=
  ['[', '\n', ' ', ' ', ' ', ' ', '1', ',', '\n', ' ', ' ', ' ', ' ', '"', 'é', '\\', '"', '"',
    '\n', ']', '\n']

/-- Qt as it writes the list. -/
def sampleQt : QtJson where
  toQtTexts := .ofDecoder
  number _ := ascii "1"
  toJson _ := listSampleText.toStdString

theorem nodes_listSample : listSample.Nodes Variant.IsJson := by
  have hint : -2 ^ 53 ≤ (1 : Int64).toInt ∧ (1 : Int64).toInt ≤ 2 ^ 53 := by decide
  exact ⟨trivial, ⟨hint, trivial⟩, ⟨validUtf8_toStdString _, trivial⟩, trivial⟩

theorem writes_listSample : sampleQt.Writes (rpcValueToJson sampleQt.toQtTexts listSample) where
  toJson _ := by
    have hjson : rpcValueToJson sampleQt.toQtTexts listSample =
        .array [.double (.finite 1), .string ['é', '"']] := by
      have hone : cutToInt (1 : Int64).toInt = 1 := by decide
      simp only [listSample, rpcValueToJson, RpcValue.ofVariant, jsonOf, variantToJson, listToJson,
        hone, Int.cast_one, QtTexts.fromStdString_toStdString]
    rw [hjson]
    exact ⟨listSampleText, rfl, rfl⟩
  number z hz := nomatch hz

end LibShv
