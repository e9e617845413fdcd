import LibShv.ChainPack
import LibShv.Lib.Decimal

/-!
# LibShv.ChainPackReader.Path

`readPath`: only the value at a path of keys is decoded, everything else is
skipped value by value.

`Navigates` says what a path means in a decoded value. The reader follows the
path the same way, except that it counts the elements of a list in an `int`.
-/

namespace LibShv

open ByteReader ChainPackWriter AbstractStreamReader

/-! ## the meaning of a path -/

/-- `w` is at the path `keys` in `v`: a string key in a map, a decimal integer
key in an imap, a decimal index in a list. -/
inductive Navigates : List Bytes → RpcValue → RpcValue → Prop where
  | here (v : RpcValue) : Navigates [] v v
  | map {md : RpcMetaData} {m : RpcMap} {key : Bytes} {keys : List Bytes} {u w : RpcValue} :
      (key, u) ∈ m → Navigates keys u w → Navigates (key :: keys) (.mk md (.map m)) w
  | imap {md : RpcMetaData} {m : RpcIMap} {key : Int32} {keys : List Bytes} {u w : RpcValue} :
      (key, u) ∈ m → Navigates keys u w →
        Navigates (Decimal.intDigits key.toInt :: keys) (.mk md (.imap m)) w
  | list {md : RpcMetaData} {vs : RpcList} {i : Nat} {keys : List Bytes} {u w : RpcValue} :
      vs[i]? = some u → Navigates keys u w →
        Navigates (Decimal.digits i :: keys) (.mk md (.list vs)) w

/-- A path may be followed in two parts. -/
theorem Navigates.trans {keys keys' : List Bytes} {u v w : RpcValue} (h : Navigates keys u v)
    (h' : Navigates keys' v w) : Navigates (keys ++ keys') u w := by
  induction h with
  | here => exact h'
  | map hmem _ ih => exact .map hmem (ih h')
  | imap hmem _ ih => exact .imap hmem (ih h')
  | list hi _ ih => exact .list hi (ih h')

/-- Every list that can be navigated to has an `int` for each of its elements. -/
def RpcValue.ShortLists (v : RpcValue) : Prop :=
  ∀ keys md vs, Navigates keys v (.mk md (.list vs)) → vs.length ≤ 2 ^ 31

namespace ChainPackReader

/-! ## following a path in the stream -/

/-- `ItemType`, the tag of an item. -/
inductive ItemType where
  | invalid | null | boolean | int | uint | double | decimal | string | dateTime
  | list | map | imap | metaMap | containerEnd
deriving DecidableEq

/-- The `switch` of `peekNext`; tiny integers and blobs are not told apart from garbage. -/
def schemaType (sch : UInt8) : ItemType :=
  if sch = CP_Null then .null
  else if sch = CP_UInt then .uint
  else if sch = CP_Int then .int
  else if sch = CP_Double then .double
  else if sch = CP_Bool then .boolean
  else if sch = CP_String then .string
  else if sch = CP_List then .list
  else if sch = CP_Map then .map
  else if sch = CP_IMap then .imap
  else if sch = CP_MetaMap then .metaMap
  else if sch = CP_Decimal then .decimal
  else if sch = CP_DateTime then .dateTime
  else if sch = CP_CString then .string
  else if sch = CP_FALSE ∨ sch = CP_TRUE then .boolean
  else if sch = CP_TERM then .containerEnd
  else .invalid

/-- `peekNext`. -/
def peekNext : Unpack ItemType := do
  match ← unpackPeekByte? with
  | some p => return schemaType p
  | none => reader.throwParseException ""

/-- `cmp`: what the requested key is compared with. -/
def keyText (isMap : Bool) (mapKey : RpcValue) : Unpack Bytes := do
  if isMap then return mapKey.asString
  else return Decimal.intDigits (← liftRuntime mapKey.toInt).toInt

/-- The loop of `readPath` over the elements of one container; `false` if it
ends without the key. `index` is an `int`. -/
def seekKey (n : Nat) (type : CCpcpItem) (requestedKey : Bytes) : Nat → Int32 → Unpack Bool
  | 0, _ => throw .outOfFuel
  | k + 1, index => do
    if (← peekNext) = .containerEnd then return false
    else if type = .list then
      if Decimal.intDigits index.toInt = requestedKey then return true
      else
        let _ ← read n
        seekKey n type requestedKey k (index + 1)
    else
      let mapKey ← read n
      let cmp ← keyText (type = .map) mapKey
      if cmp = requestedKey then return true
      else
        let _ ← read n
        seekKey n type requestedKey k index

/-- `readPath`: `none` if it returns `false`. -/
def readPath (n : Nat) : List Bytes → Unpack (Option RpcValue)
  | [] => do return some (← read n)
  | requestedKey :: keys => do
    let _ ← readMetaData n
    let item ← unpackNext
    if item ≠ .map ∧ item ≠ .imap ∧ item ≠ .list then return none
    else if ← seekKey n item requestedKey n 0 then readPath n keys
    else return none

/-- `RpcValue::fromChainPackWithPath`. -/
def fromChainPackWithPath (input : Bytes) (keys : List Bytes) : Except Fault (Option RpcValue) :=
  match readPath (fuelFor input.length) keys (openStream input) with
  | .ok r _ => .ok r
  | .error e _ => .error e

/-! ## following a path in a value -/

/-- The element of a list the loop stops at, counting from `index`. -/
def seekElement (key : Bytes) : Int32 → List RpcValue → Option RpcValue
  | _, [] => none
  | index, v :: vs =>
    if Decimal.intDigits index.toInt = key then some v else seekElement key (index + 1) vs

/-- The value of the first entry whose key has the text `key`. -/
def seekEntry {κ : Type} (text : κ → Bytes) (key : Bytes) : List (κ × RpcValue) → Option RpcValue
  | [] => none
  | (k, v) :: m => if text k = key then some v else seekEntry text key m

/-- The child the loop stops at. -/
def child (key : Bytes) : Variant → Option RpcValue
  | .list vs => seekElement key 0 vs
  | .map m => seekEntry id key m
  | .imap m => seekEntry (fun k => Decimal.intDigits k.toInt) key m
  | _ => none

/-- What `readPath` finds, as a function of the decoded value. -/
def follow : List Bytes → RpcValue → Option RpcValue
  | [], v => some v
  | key :: keys, v => (child key v.value).bind (follow keys)

theorem follow_append (keys keys' : List Bytes) (v : RpcValue) :
    follow (keys ++ keys') v = (follow keys v).bind (follow keys') := by
  induction keys generalizing v with
  | nil => rfl
  | cons key keys ih =>
    rw [List.cons_append, follow, follow, Option.bind_assoc]
    exact congrArg _ (funext ih)

/-! ## where the two agree -/

theorem toInt_ofNat_int32 {a : Nat} (h : a < 2 ^ 31) : (Int32.ofNat a).toInt = a := by
  rw [← Int32.ofInt_eq_ofNat, Int32.toInt_ofInt_of_le (by omega) (by omega)]

/-- Counting from `a` within the range of an `int`, the loop stops at the decimal index. -/
theorem seekElement_eq_some {key : Bytes} {vs : List RpcValue} {a : Nat} {u : RpcValue}
    (h : a + vs.length ≤ 2 ^ 31) :
    seekElement key (Int32.ofNat a) vs = some u ↔
      ∃ j, vs[j]? = some u ∧ Decimal.digits (a + j) = key := by
  induction vs generalizing a with
  | nil => simp [seekElement]
  | cons v vs ih =>
    rw [List.length_cons] at h
    have hnext : Int32.ofNat a + 1 = Int32.ofNat (a + 1) := (Int32.ofNat_add a 1).symm
    rw [seekElement, toInt_ofNat_int32 (by omega), Decimal.intDigits_ofNat, hnext]
    by_cases hkey : Decimal.digits a = key
    · rw [if_pos hkey]
      constructor
      · intro hu
        exact ⟨0, hu, hkey⟩
      · rintro ⟨j, hj, hjkey⟩
        obtain rfl : j = 0 := by
          have := Decimal.digits_inj (hjkey.trans hkey.symm)
          omega
        exact hj
    · rw [if_neg hkey, ih (by omega)]
      constructor
      · rintro ⟨j, hj, hjkey⟩
        exact ⟨j + 1, hj, by rw [← hjkey]; congr 1; omega⟩
      · rintro ⟨j, hj, hjkey⟩
        cases j with
        | zero => exact absurd hjkey hkey
        | succ j => exact ⟨j, hj, by rw [← hjkey]; congr 1; omega⟩

/-- No `int` has the text of `2 ^ 31`. -/
theorem seekElement_of_overflow (index : Int32) (vs : List RpcValue) :
    seekElement (Decimal.digits (2 ^ 31)) index vs = none := by
  induction vs generalizing index with
  | nil => rfl
  | cons v vs ih =>
    have hne : Decimal.intDigits index.toInt ≠ Decimal.digits (2 ^ 31) := by
      intro h
      rw [← Decimal.intDigits_ofNat] at h
      have := Decimal.intDigits_inj h
      have := index.toInt_lt
      omega
    rw [seekElement, if_neg hne, ih]

/-- In a map the loop stops at the one entry with the key. -/
theorem seekEntry_eq_some {κ : Type} [Ord κ] [Std.ReflOrd κ] {text : κ → Bytes} {key : Bytes}
    (htext : ∀ k k', text k = text k' → k = k') {m : List (κ × RpcValue)} {u : RpcValue}
    (h : SortedMap.Sorted m) :
    seekEntry text key m = some u ↔ ∃ k, (k, u) ∈ m ∧ text k = key := by
  induction m with
  | nil => simp [seekEntry]
  | cons e m ih =>
    obtain ⟨k, v⟩ := e
    rw [seekEntry]
    by_cases hkey : text k = key
    · rw [if_pos hkey]
      constructor
      · intro hu
        obtain rfl : v = u := by simpa using hu
        exact ⟨k, List.mem_cons_self, hkey⟩
      · rintro ⟨k', hmem, hkey'⟩
        obtain rfl := htext k k' (hkey.trans hkey'.symm)
        rcases List.mem_cons.mp hmem with heq | hmem
        · rw [(Prod.mk.inj heq).2]
        · have hlt := (SortedMap.sorted_cons.mp h).1 _ hmem
          rw [Std.ReflOrd.compare_self] at hlt
          contradiction
    · rw [if_neg hkey, ih h.tail]
      constructor
      · rintro ⟨k', hmem, hkey'⟩
        exact ⟨k', List.mem_cons_of_mem _ hmem, hkey'⟩
      · rintro ⟨k', hmem, hkey'⟩
        rcases List.mem_cons.mp hmem with heq | hmem
        · rw [(Prod.mk.inj heq).1] at hkey'
          exact absurd hkey' hkey
        · exact ⟨k', hmem, hkey'⟩

/-- The reader follows every path as it is meant, if the lists are short. -/
theorem follow_eq_some {keys : List Bytes} {v w : RpcValue} (hstd : v.Std) (hshort : v.ShortLists) :
    follow keys v = some w ↔ Navigates keys v w := by
  induction keys generalizing v with
  | nil =>
    rw [follow]
    constructor
    · intro h
      obtain rfl : v = w := by simpa using h
      exact .here v
    · intro h
      cases h
      rfl
  | cons key keys ih =>
    obtain ⟨md, x⟩ := v
    obtain ⟨-, -, hx, heach⟩ := hstd
    rw [follow, Option.bind_eq_some_iff]
    cases x with
    | list vs =>
      have hlen : 0 + vs.length ≤ 2 ^ 31 := by simpa using hshort [] md vs (.here _)
      have hsub : ∀ (i : Nat) (u : RpcValue), vs[i]? = some u → u.Std ∧ u.ShortLists := fun i u hu =>
        ⟨eachList_iff.mp heach u (List.mem_of_getElem? hu),
          fun keys' md' vs' h => hshort _ md' vs' (.list hu h)⟩
      constructor
      · rintro ⟨u, hu, hw⟩
        obtain ⟨i, hi, rfl⟩ := (seekElement_eq_some hlen).mp hu
        rw [Nat.zero_add]
        exact .list hi ((ih (hsub i u hi).1 (hsub i u hi).2).mp hw)
      · rintro (_ | _ | _ | ⟨hi, hw⟩)
        rename_i i u
        refine ⟨u, (seekElement_eq_some hlen).mpr ⟨i, hi, by rw [Nat.zero_add]⟩, ?_⟩
        exact (ih (hsub i u hi).1 (hsub i u hi).2).mpr hw
    | map m =>
      have hsub : ∀ k u, (k, u) ∈ m → u.Std ∧ u.ShortLists := fun k u hu =>
        ⟨eachMap_iff.mp heach (k, u) hu, fun keys' md' vs' h => hshort _ md' vs' (.map hu h)⟩
      have hseek : ∀ u, child key (.map m) = some u ↔ (key, u) ∈ m := fun u =>
        (seekEntry_eq_some (fun _ _ h => h) hx.1).trans (by simp)
      constructor
      · rintro ⟨u, hu, hw⟩
        have hmem := (hseek u).mp hu
        exact .map hmem ((ih (hsub key u hmem).1 (hsub key u hmem).2).mp hw)
      · rintro (_ | ⟨hmem, hw⟩ | _ | _)
        rename_i u
        exact ⟨u, (hseek u).mpr hmem, (ih (hsub key u hmem).1 (hsub key u hmem).2).mpr hw⟩
    | imap m =>
      have hsub : ∀ k u, (k, u) ∈ m → u.Std ∧ u.ShortLists := fun k u hu =>
        ⟨eachIMap_iff.mp heach (k, u) hu, fun keys' md' vs' h => hshort _ md' vs' (.imap hu h)⟩
      have htext : ∀ k k' : Int32, Decimal.intDigits k.toInt = Decimal.intDigits k'.toInt → k = k' :=
        fun k k' h => Int32.toInt_inj.mp (Decimal.intDigits_inj h)
      constructor
      · rintro ⟨u, hu, hw⟩
        obtain ⟨k, hmem, rfl⟩ := (seekEntry_eq_some htext hx).mp hu
        exact .imap hmem ((ih (hsub k u hmem).1 (hsub k u hmem).2).mp hw)
      · rintro (_ | _ | ⟨hmem, hw⟩ | _)
        rename_i k u
        refine ⟨u, (seekEntry_eq_some htext hx).mpr ⟨k, hmem, rfl⟩, ?_⟩
        exact (ih (hsub k u hmem).1 (hsub k u hmem).2).mpr hw
    | _ =>
      constructor
      · rintro ⟨u, hu, -⟩
        contradiction
      · nofun

/-- Where the reader follows every path as it is meant, the lists are short: the
element number `2 ^ 31` of a longer one is never found. -/
theorem shortLists_of_follow {v : RpcValue}
    (h : ∀ keys w, follow keys v = some w ↔ Navigates keys v w) : v.ShortLists := by
  intro keys md vs hnav
  refine Nat.le_of_not_lt fun hlong => ?_
  have hlast : Navigates [Decimal.digits (2 ^ 31)] (.mk md (.list vs)) vs[2 ^ 31] :=
    .list (List.getElem?_eq_getElem hlong) (.here _)
  have hfound := (h _ _).mpr (hnav.trans hlast)
  rw [follow_append, (h _ _).mpr hnav, Option.bind_some, follow, RpcValue.value_mk, child,
    seekElement_of_overflow] at hfound
  contradiction

/-! ## the reader follows -/

theorem ite_ne {α : Type} {p : Prop} [Decidable p] {a b c : α} (ha : p → a ≠ c) (hb : b ≠ c) :
    (if p then a else b) ≠ c := by
  by_cases h : p
  · rw [if_pos h]
    exact ha h
  · rw [if_neg h]
    exact hb

theorem schemaType_ne_containerEnd {sch : UInt8} (h : sch ≠ CP_TERM) :
    schemaType sch ≠ .containerEnd := by
  unfold schemaType
  repeat' apply ite_ne
  all_goals first
    | exact fun he => absurd he h
    | exact fun _ => by decide
    | decide

theorem peekNext_cons {c : Cursor UnpackContext} {b : UInt8} {bs : Bytes} (h : c.input = b :: bs) :
    peekNext c = .ok (schemaType b) { c with last := b } := by
  rw [peekNext, bind_of_ok (unpackPeekByte?_cons h)]
  rfl

theorem write_cons (v : RpcValue) : ∃ b bs, write v = b :: bs ∧ b ≠ CP_TERM := by
  obtain ⟨⟨im, sm⟩, x⟩ := v
  rw [write, writeMetaData]
  by_cases h : (im.length + sm.length == 0) = true
  · obtain ⟨b, bs, hb, -, hne⟩ := writeVariant_cons x
    exact ⟨b, bs, by rw [if_pos h, hb, List.nil_append], hne⟩
  · exact ⟨CP_MetaMap, _, by rw [if_neg h, List.cons_append], by decide⟩

theorem length_writeVariant_pos (v : Variant) : 0 < (writeVariant v).length := by
  obtain ⟨b, bs, h, -⟩ := writeVariant_cons v
  rw [h]
  exact Nat.succ_pos _

theorem length_write_pos (v : RpcValue) : 0 < (write v).length := by
  obtain ⟨md, v⟩ := v
  have := length_writeVariant_pos v
  rw [write, List.length_append]
  omega

/-- Metadata in front of a value, or none. -/
theorem readMetaData_write {md : RpcMetaData} {x : Variant} {n : Nat} (hmd : md.Std)
    (heach : md.Each Variant.Std RpcMetaData.Std) (hn : 3 * (writeMetaData md).length < n)
    {c : Cursor UnpackContext} {rest : Bytes}
    (hi : c.input = writeMetaData md ++ (writeVariant x ++ rest)) (hr : c.reg.Ready) :
    ∃ c', readMetaData n c = .ok (decodedMetaData md) c' ∧ c'.input = writeVariant x ++ rest ∧
      c'.reg.Ready := by
  by_cases hempty : md.isEmpty = true
  · obtain rfl : md = .empty := RpcMetaData.isEmpty_iff.mp hempty
    obtain ⟨m, rfl⟩ : ∃ m, n = m + 1 := ⟨n - 1, by omega⟩
    obtain ⟨b, bs, hb, hne, -⟩ := writeVariant_cons x
    have hi' : c.input = b :: (bs ++ rest) := by
      rw [hi, hb]
      rfl
    refine ⟨{ c with last := b }, ?_, hi, hr⟩
    refine readMetaData_of_none ?_
    change metaDataBegin c = _
    rw [metaDataBegin_cons hi', if_neg hne]
    rfl
  · have henc := encodes_writeMetaData md hmd heach (by simpa using hempty)
    obtain ⟨md', c', h, hi', -, rfl, hr'⟩ :=
      (henc.reads lawful (n := n) (by omega)).whole c _ hi (fun _ _ => trivial) hr
    exact ⟨c', h, hi', hr'⟩

theorem unpackNext_of_consumes {bs : Bytes} (rest : Bytes) {item : CCpcpItem}
    {c : Cursor UnpackContext}
    (h : Consumes cchainpackUnpackNext bs Any UnpackContext.Ready (Leaves item))
    (hi : c.input = bs ++ rest) (hr : c.reg.Ready) :
    ∃ c', unpackNext c = .ok item c' ∧ c'.input = rest ∧ c'.reg.item = item ∧
      c'.reg.errNo = .ok := by
  obtain ⟨a, c', hc, hi', -, hQ⟩ :=
    (encodesItem_of_leaves h).whole c rest hi (fun _ _ => trivial) hr
  obtain rfl := hQ.value
  exact ⟨c', hc, hi', hQ.item, hQ.errNo⟩

/-- The item of a container. -/
def containerItem? : Variant → Option CCpcpItem
  | .list _ => some .list
  | .map _ => some .map
  | .imap _ => some .imap
  | _ => none

theorem child_of_scalar {x : Variant} (h : containerItem? x = none) (key : Bytes) :
    child key (decodedVariant x) = none := by
  cases x <;> first | rfl | contradiction

theorem take_append_drop_append (k : Nat) (s rest : Bytes) :
    s.take k ++ (s.drop k ++ rest) = s ++ rest := by
  rw [← List.append_assoc, List.take_append_drop]

theorem unpackNext_scalar {x : Variant} (hx : x.Std) (h : containerItem? x = none)
    {c : Cursor UnpackContext} {rest : Bytes} (hi : c.input = writeVariant x ++ rest)
    (hr : c.reg.Ready) :
    ∃ item c', unpackNext c = .ok item c' ∧ item ≠ .map ∧ item ≠ .imap ∧ item ≠ .list := by
  have hleaf : ∀ {bs : Bytes} {item : CCpcpItem},
      Consumes cchainpackUnpackNext bs Any UnpackContext.Ready (Leaves item) →
      c.input = bs ++ rest → item ≠ .map ∧ item ≠ .imap ∧ item ≠ .list →
      ∃ item c', unpackNext c = .ok item c' ∧ item ≠ .map ∧ item ≠ .imap ∧ item ≠ .list := by
    intro bs item hcons hbs hne
    obtain ⟨c', hc, -⟩ := unpackNext_of_consumes rest hcons hbs hr
    exact ⟨item, c', hc, hne⟩
  cases x with
  | invalid => exact hleaf consumes_next_null hi (by simp)
  | null => exact hleaf consumes_next_null hi (by simp)
  | uint n => exact hleaf (consumes_next_packUint n) hi (by simp)
  | int n => exact hleaf (consumes_next_packInt n) hi (by simp)
  | double bits => exact hleaf (consumes_next_packDouble bits) hi (by simp)
  | bool b => exact hleaf (consumes_next_packBoolean b) hi (by simp)
  | decimal d =>
    exact hleaf (consumes_next_packDecimal d.mantissa d.exponent) hi (by simp)
  | dateTime dt =>
    obtain ⟨⟨msecs, offset⟩, hdt⟩ := Option.isSome_iff_exists.mp dt.unpacked_isSome
    exact hleaf (consumes_next_packDateTime dt hdt) hi (by simp)
  | string s =>
    obtain ⟨c', hc, -⟩ := unpackNext_of_consumes (s.drop stringChunkBuffLen ++ rest)
      (consumes_next_packString hx)
      (by simpa [writeVariant, packString, take_append_drop_append] using hi) hr
    exact ⟨_, c', hc, by simp⟩
  | blob s =>
    obtain ⟨c', hc, -⟩ := unpackNext_of_consumes (s.drop stringChunkBuffLen ++ rest)
      (consumes_next_packBlob hx)
      (by simpa [writeVariant, packBlob, take_append_drop_append] using hi) hr
    exact ⟨_, c', hc, by simp⟩
  | _ => contradiction

/-- The loop returns at the entry whose value decodes to `found`, with that
value next, or at the end of the container. -/
def StopsAt (n : Nat) (p : Unpack Bool) (c : Cursor UnpackContext) (found : Option RpcValue) :
    Prop :=
  ∃ (w : Option RpcValue) (c' : Cursor UnpackContext), p c = .ok w.isSome c' ∧
    found = w.map decoded ∧ ∀ v ∈ w, v.Std ∧ 3 * (write v).length ≤ n ∧
      (∃ rest, c'.input = write v ++ rest) ∧ c'.reg.Ready

/-- The loop at the end of a container. -/
theorem seekKey_term {n k : Nat} {type : CCpcpItem} {key : Bytes} {index : Int32}
    {c : Cursor UnpackContext} {rest : Bytes} (hi : c.input = CP_TERM :: rest) :
    StopsAt n (seekKey n type key (k + 1) index) c none := by
  refine ⟨none, { c with last := CP_TERM }, ?_, rfl, nofun⟩
  rw [seekKey, bind_of_ok (peekNext_cons hi)]
  rfl

/-- Reading a value written before the rest. -/
theorem read_of_reads {n : Nat} {bs rest : Bytes} {v : RpcValue} {c : Cursor UnpackContext}
    (h : Unpacks (read n) bs Any UnpackContext.Ready (After v)) (hi : c.input = bs ++ rest)
    (hr : c.reg.Ready) : ∃ c', read n c = .ok v c' ∧ c'.input = rest ∧ c'.reg.Ready := by
  obtain ⟨a, c', hc, hi', -, hafter⟩ := h.whole c rest hi (fun _ _ => trivial) hr
  obtain rfl := hafter.value
  exact ⟨c', hc, hi', hafter.ready⟩

theorem seekKey_list {n : Nat} {key : Bytes} {vs : List RpcValue}
    (hstd : eachList Variant.Std RpcMetaData.Std vs)
    (hn : 3 * (writeListElements vs).length ≤ n) {k : Nat} (hk : vs.length < k) {index : Int32}
    {c : Cursor UnpackContext} {rest : Bytes}
    (hi : c.input = writeListElements vs ++ (CP_TERM :: rest)) (hr : c.reg.Ready) :
    StopsAt n (seekKey n .list key k index) c (seekElement key index (mapLeavesList decodedLeaf vs)) := by
  induction vs generalizing k index c with
  | nil =>
    obtain ⟨k, rfl⟩ : ∃ j, k = j + 1 := ⟨k - 1, by omega⟩
    exact seekKey_term hi
  | cons v vs ih =>
    obtain ⟨hv, hvs⟩ := hstd
    rw [List.length_cons] at hk
    rw [writeListElements, List.length_append] at hn
    rw [writeListElements, List.append_assoc] at hi
    obtain ⟨k, rfl⟩ : ∃ j, k = j + 1 := ⟨k - 1, by omega⟩
    obtain ⟨b, bs, hb, hne⟩ := write_cons v
    have hhead : c.input = b :: (bs ++ (writeListElements vs ++ (CP_TERM :: rest))) := by
      rw [hi, hb, List.cons_append]
    rw [mapLeavesList, seekElement]
    rw [StopsAt, seekKey, bind_of_ok (peekNext_cons hhead), if_neg (schemaType_ne_containerEnd hne),
      if_pos rfl]
    by_cases hkey : Decimal.intDigits index.toInt = key
    · rw [if_pos hkey, if_pos hkey]
      refine ⟨some v, { c with last := b }, rfl, rfl, fun w hw => ?_⟩
      obtain rfl : v = w := by simpa using hw
      exact ⟨hv, by omega, ⟨_, hi⟩, hr⟩
    · rw [if_neg hkey, if_neg hkey]
      obtain ⟨c', hc', hi', hr'⟩ := read_of_reads (c := { c with last := b })
        ((encodes_write v hv).2 n (by omega)) hi hr
      rw [bind_of_ok hc']
      exact ih hvs (by omega) (by omega) hi' hr'

/-- The loop over the entries of a map or imap. `elements` writes the entries,
`keyValue` is a key as it is read back. -/
theorem seekKey_entries {κ : Type} {n : Nat} {type : CCpcpItem} {key : Bytes}
    {elements : List (κ × RpcValue) → Bytes} {writeKey : κ → Bytes} (keyValue : κ → RpcValue)
    (text : κ → Bytes) {m : List (κ × RpcValue)} (htype : type ≠ .list)
    (hnil : elements [] = [])
    (hcons : ∀ k v m, elements ((k, v) :: m) = writeKey k ++ (write v ++ elements m))
    (hkey : ∀ e ∈ m, 3 * (writeKey e.1).length ≤ n →
      Unpacks (read n) (writeKey e.1) Any UnpackContext.Ready (After (keyValue e.1)))
    (hhead : ∀ k, ∃ b bs, writeKey k = b :: bs ∧ b ≠ CP_TERM)
    (htext : ∀ k, keyText (type = .map) (keyValue k) = return (text k))
    (hstd : ∀ e ∈ m, e.2.Std) (hn : 3 * (elements m).length ≤ n) {k : Nat} (hk : m.length < k)
    {index : Int32} {c : Cursor UnpackContext} {rest : Bytes}
    (hi : c.input = elements m ++ (CP_TERM :: rest)) (hr : c.reg.Ready) :
    StopsAt n (seekKey n type key k index) c
      (seekEntry text key (m.map fun e => (e.1, decoded e.2))) := by
  induction m generalizing k c with
  | nil =>
    obtain ⟨k, rfl⟩ : ∃ j, k = j + 1 := ⟨k - 1, by omega⟩
    rw [hnil] at hi
    exact seekKey_term hi
  | cons e m ih =>
    obtain ⟨k', v⟩ := e
    rw [List.length_cons] at hk
    rw [hcons, List.length_append, List.length_append] at hn
    rw [hcons, List.append_assoc, List.append_assoc] at hi
    obtain ⟨k, rfl⟩ : ∃ j, k = j + 1 := ⟨k - 1, by omega⟩
    obtain ⟨b, bs, hb, hne⟩ := hhead k'
    have hhead' : c.input = b :: (bs ++ (write v ++ (elements m ++ (CP_TERM :: rest)))) := by
      rw [hi, hb, List.cons_append]
    rw [StopsAt, seekKey, bind_of_ok (peekNext_cons hhead'),
      if_neg (schemaType_ne_containerEnd hne), if_neg htype]
    obtain ⟨c₁, hc₁, hi₁, hr₁⟩ := read_of_reads (c := { c with last := b })
      (hkey (k', v) List.mem_cons_self (by simp only; omega)) hi hr
    rw [bind_of_ok hc₁, htext, pure_bind, List.map_cons, seekEntry]
    have hv := hstd (k', v) List.mem_cons_self
    by_cases heq : text k' = key
    · rw [if_pos heq, if_pos heq]
      refine ⟨some v, c₁, rfl, rfl, fun w hw => ?_⟩
      obtain rfl : v = w := by simpa using hw
      exact ⟨hv, by omega, ⟨_, hi₁⟩, hr₁⟩
    · rw [if_neg heq, if_neg heq]
      obtain ⟨c₂, hc₂, hi₂, hr₂⟩ := read_of_reads ((encodes_write v hv).2 n (by omega)) hi₁ hr₁
      rw [bind_of_ok hc₂]
      exact ih (fun e he => hkey e (List.mem_cons_of_mem _ he))
        (fun e he => hstd e (List.mem_cons_of_mem _ he)) (by omega) (by omega) hi₂ hr₂

/-- On the bytes of a value `readPath` returns what the path leads to. -/
def Follows (n : Nat) (keys : List Bytes) : Prop :=
  ∀ v c rest, v.Std → 3 * (write v).length ≤ n → c.input = write v ++ rest → c.reg.Ready →
    ∃ c', readPath n keys c = .ok (follow keys (decoded v)) c'

theorem readPath_of_stopsAt {n : Nat} {keys : List Bytes} {p : Unpack Bool}
    {c : Cursor UnpackContext} {found : Option RpcValue} (h : StopsAt n p c found)
    (ih : Follows n keys) :
    ∃ c', (do if ← p then readPath n keys else return none) c =
      .ok (found.bind (follow keys)) c' := by
  obtain ⟨w, c₁, hc₁, rfl, hw⟩ := h
  rw [bind_of_ok hc₁]
  cases w with
  | none => exact ⟨c₁, rfl⟩
  | some v =>
    obtain ⟨hstd, hn, ⟨rest, hi⟩, hr⟩ := hw v rfl
    exact ih v c₁ rest hstd hn hi hr

theorem readPath_succ (n : Nat) (key : Bytes) (keys : List Bytes) :
    readPath n (key :: keys) = (do
      let _ ← readMetaData n
      let item ← unpackNext
      if item ≠ .map ∧ item ≠ .imap ∧ item ≠ .list then return none
      else if ← seekKey n item key n 0 then readPath n keys
      else return none) := rfl

theorem length_le_writeListElements (vs : List RpcValue) :
    vs.length ≤ (writeListElements vs).length := by
  induction vs with
  | nil => exact Nat.zero_le _
  | cons v vs ih =>
    have := length_write_pos v
    rw [writeListElements, List.length_append, List.length_cons]
    omega

theorem length_le_writeMapElements (m : List (Bytes × RpcValue)) :
    m.length ≤ (writeMapElements m).length := by
  induction m with
  | nil => exact Nat.zero_le _
  | cons e m ih =>
    have := length_write_pos e.2
    rw [writeMapElements, List.length_append, List.length_append, List.length_cons]
    omega

theorem length_le_writeIMapElements (m : List (Int32 × RpcValue)) :
    m.length ≤ (writeIMapElements m).length := by
  induction m with
  | nil => exact Nat.zero_le _
  | cons e m ih =>
    have := length_write_pos e.2
    rw [writeIMapElements, List.length_append, List.length_append, List.length_cons]
    omega

/-- The loop in a container finds the child of its decoding. -/
theorem stopsAt_container {x : Variant} {item : CCpcpItem} {n : Nat} (hx : x.Std)
    (heach : x.Each Variant.Std RpcMetaData.Std) (hitem : containerItem? x = some item)
    (hn : 3 * (writeVariant x).length ≤ n) {c : Cursor UnpackContext} {rest : Bytes}
    (hi : c.input = writeVariant x ++ rest) (hr : c.reg.Ready) :
    (item = .map ∨ item = .imap ∨ item = .list) ∧ ∃ c', unpackNext c = .ok item c' ∧
      ∀ key, StopsAt n (seekKey n item key n 0) c' (child key (decodedVariant x)) := by
  cases x with
  | list vs =>
    obtain rfl : CCpcpItem.list = item := by simpa [containerItem?] using hitem
    simp only [writeVariant, List.length_cons, List.length_append, List.length_nil] at hn
    have hlen := length_le_writeListElements vs
    obtain ⟨c', hc', hi', hit, herr⟩ := @unpackNext_of_consumes [CP_List]
      (writeListElements vs ++ (CP_TERM :: rest)) _ _ (consumes_next_schema rfl)
      (by simpa [writeVariant] using hi) hr
    exact ⟨.inr (.inr rfl), c', hc', fun key => seekKey_list heach (by omega) (by omega) hi'
      ⟨herr, hit ▸ trivial⟩⟩
  | map m =>
    obtain rfl : CCpcpItem.map = item := by simpa [containerItem?] using hitem
    simp only [writeVariant, List.length_cons, List.length_append, List.length_nil] at hn
    have hlen := length_le_writeMapElements m
    have hbytes : 3 * (writeMapElements m).length ≤ n := by omega
    have hcount : m.length < n := by omega
    obtain ⟨c', hc', hi', hit, herr⟩ := @unpackNext_of_consumes [CP_Map]
      (writeMapElements m ++ (CP_TERM :: rest)) _ _ (consumes_next_schema rfl)
      (by simpa [writeVariant] using hi) hr
    refine ⟨.inl rfl, c', hc', fun key => ?_⟩
    rw [decodedVariant, Variant.mapLeaves, mapLeavesMap_eq_map]
    exact seekKey_entries (fun k => .ofVariant (.string k)) id (by decide) rfl (fun _ _ _ => rfl)
      (fun e he hlen => (encodes_mapKey (hx.2 e he)).2 n hlen)
      (fun k => ⟨CP_String, _, rfl, by decide⟩) (fun _ => rfl) (eachMap_iff.mp heach)
      hbytes hcount hi' ⟨herr, hit ▸ trivial⟩
  | imap m =>
    obtain rfl : CCpcpItem.imap = item := by simpa [containerItem?] using hitem
    simp only [writeVariant, List.length_cons, List.length_append, List.length_nil] at hn
    have hlen := length_le_writeIMapElements m
    have hbytes : 3 * (writeIMapElements m).length ≤ n := by omega
    have hcount : m.length < n := by omega
    obtain ⟨c', hc', hi', hit, herr⟩ := @unpackNext_of_consumes [CP_IMap]
      (writeIMapElements m ++ (CP_TERM :: rest)) _ _ (consumes_next_schema rfl)
      (by simpa [writeVariant] using hi) hr
    refine ⟨.inr (.inl rfl), c', hc', fun key => ?_⟩
    rw [decodedVariant, Variant.mapLeaves, mapLeavesIMap_eq_map]
    have hne : CCpcpItem.imap ≠ .list := by decide
    refine seekKey_entries (fun k => .ofVariant (.int k.toInt64))
      (fun k => Decimal.intDigits k.toInt) hne rfl (fun _ _ _ => rfl)
      (fun e _ hlen => (encodes_imapKey e.1).2 n hlen) (fun k => ?_) (fun k => ?_)
      (eachIMap_iff.mp heach) hbytes hcount hi' ⟨herr, hit ▸ trivial⟩
    · obtain ⟨b, bs, hb, -, hne⟩ := packInt_cons k.toInt64
      exact ⟨b, bs, hb, hne⟩
    · have hint := toInt_int k
      simp only [keyText]
      rw [hint]
      rfl
  | _ => contradiction

/-- `readPath` follows every path through the bytes of a value. -/
theorem follows_readPath (n : Nat) (keys : List Bytes) : Follows n keys := by
  induction keys with
  | nil =>
    intro v c rest hstd hn hi hr
    obtain ⟨c', hc', -⟩ := read_of_reads ((encodes_write v hstd).2 n hn) hi hr
    exact ⟨c', by rw [readPath, bind_of_ok hc']; rfl⟩
  | cons key keys ih =>
    rintro ⟨md, x⟩ c rest ⟨hmd, hmds, hx, heach⟩ hn hi hr
    have hpos := length_writeVariant_pos x
    rw [write, List.length_append] at hn
    rw [write, List.append_assoc] at hi
    have hlen : 3 * (writeMetaData md).length < n := by omega
    obtain ⟨c₁, hc₁, hi₁, hr₁⟩ := readMetaData_write hmd hmds hlen hi hr
    have hlen' : 3 * (writeVariant x).length ≤ n := by omega
    rw [readPath_succ, bind_of_ok hc₁]
    cases hitem : containerItem? x with
    | none =>
      obtain ⟨item, c₂, hc₂, hne⟩ := unpackNext_scalar hx hitem hi₁ hr₁
      rw [bind_of_ok hc₂, if_pos hne, decoded, RpcValue.mapLeaves, follow, RpcValue.value_mk,
        child_of_scalar hitem key]
      exact ⟨c₂, rfl⟩
    | some item =>
      obtain ⟨hcont, c₂, hc₂, hstop⟩ := stopsAt_container hx heach hitem hlen' hi₁ hr₁
      have hif : ¬ (item ≠ .map ∧ item ≠ .imap ∧ item ≠ .list) := by
        rintro ⟨h₁, h₂, h₃⟩
        rcases hcont with h | h | h <;> contradiction
      rw [bind_of_ok hc₂, if_neg hif, decoded, RpcValue.mapLeaves, follow, RpcValue.value_mk]
      exact readPath_of_stopsAt (hstop key) ih

/-! ## path decoding and full decoding -/

/-- Decoding keeps the keys and the order of the elements. -/
theorem navigates_decoded {keys : List Bytes} {v w : RpcValue} (h : Navigates keys v w) :
    Navigates keys (decoded v) (decoded w) := by
  induction h with
  | here => exact .here _
  | map hmem _ ih =>
    refine .map ?_ ih
    rw [mapLeavesMap_eq_map]
    exact List.mem_map.mpr ⟨_, hmem, rfl⟩
  | imap hmem _ ih =>
    refine .imap ?_ ih
    rw [mapLeavesIMap_eq_map]
    exact List.mem_map.mpr ⟨_, hmem, rfl⟩
  | list hi _ ih =>
    refine .list ?_ ih
    rw [mapLeavesList_eq_map, List.getElem?_map, hi]
    rfl

theorem length_decodedList (vs : List RpcValue) : (mapLeavesList decodedLeaf vs).length = vs.length := by
  rw [mapLeavesList_eq_map, List.length_map]

theorem shortLists_of_decoded {v : RpcValue} (h : (decoded v).ShortLists) : v.ShortLists := by
  intro keys md vs hnav
  have hlen := h keys (decodedMetaData md) (mapLeavesList decodedLeaf vs) (navigates_decoded hnav)
  rwa [length_decodedList] at hlen

/-- A path in a decoded value is a path in the value. -/
theorem exists_navigates_of_decoded {keys : List Bytes} {v w : RpcValue}
    (h : Navigates keys (decoded v) w) : ∃ u, w = decoded u ∧ Navigates keys v u := by
  induction keys generalizing v with
  | nil =>
    cases h
    exact ⟨v, rfl, .here v⟩
  | cons key keys ih =>
    obtain ⟨md, x⟩ := v
    rw [decoded, RpcValue.mapLeaves] at h
    cases x with
    | list vs =>
      rw [Variant.mapLeaves, mapLeavesList_eq_map] at h
      cases h with
      | list hi hw =>
        rw [List.getElem?_map] at hi
        obtain ⟨u, hu, rfl⟩ := Option.map_eq_some_iff.mp hi
        obtain ⟨w', rfl, hw'⟩ := ih hw
        exact ⟨w', rfl, .list hu hw'⟩
    | map m =>
      rw [Variant.mapLeaves, mapLeavesMap_eq_map] at h
      cases h with
      | map hmem hw =>
        obtain ⟨⟨k, u⟩, hu, heq⟩ := List.mem_map.mp hmem
        obtain ⟨rfl, rfl⟩ := Prod.mk.inj heq
        obtain ⟨w', rfl, hw'⟩ := ih hw
        exact ⟨w', rfl, .map hu hw'⟩
    | imap m =>
      rw [Variant.mapLeaves, mapLeavesIMap_eq_map] at h
      cases h with
      | imap hmem hw =>
        obtain ⟨⟨k, u⟩, hu, heq⟩ := List.mem_map.mp hmem
        obtain ⟨rfl, rfl⟩ := Prod.mk.inj heq
        obtain ⟨w', rfl, hw'⟩ := ih hw
        exact ⟨w', rfl, .imap hu hw'⟩
    | _ => nomatch h

theorem shortLists_decoded {v : RpcValue} (h : v.ShortLists) : (decoded v).ShortLists := by
  intro keys md vs hnav
  obtain ⟨⟨md', x⟩, heq, hnav'⟩ := exists_navigates_of_decoded hnav
  rw [decoded, RpcValue.mapLeaves, RpcValue.mk.injEq] at heq
  cases x with
  | list vs' =>
    obtain rfl : vs = mapLeavesList decodedLeaf vs' := by simpa [Variant.mapLeaves] using heq.2
    rw [length_decodedList]
    exact h keys md' vs' hnav'
  | _ => simp [Variant.mapLeaves, decodedLeaf] at heq

/-- Path decoding of a written value never fails. -/
theorem fromChainPackWithPath_write {v : RpcValue} (hstd : v.Std) (keys : List Bytes) :
    fromChainPackWithPath (write v) keys = .ok (follow keys (decoded v)) := by
  have hfuel : 3 * (write v).length ≤ fuelFor (write v).length := by
    rw [fuelFor]
    omega
  obtain ⟨c', hc'⟩ := follows_readPath _ keys v (openStream (write v)) [] hstd hfuel
    (List.append_nil _).symm (ready_openStream _)
  rw [fromChainPackWithPath, hc']

/-- `readPath` on the bytes of `v` agrees with navigating in the value `read`
returns: it never throws, and it returns a value exactly when navigation does,
and the same one. -/
def PathAgrees (v : RpcValue) : Prop :=
  ∃ u c, readFrom (write v) = .ok u c ∧ ∀ keys, ∃ r, fromChainPackWithPath (write v) keys = .ok r ∧
    ∀ w, r = some w ↔ Navigates keys u w

theorem pathAgrees_iff_follow {v : RpcValue} (hstd : v.Std) :
    PathAgrees v ↔ ∀ keys w, follow keys (decoded v) = some w ↔ Navigates keys (decoded v) w := by
  obtain ⟨c, hread, -⟩ := readFrom_write hstd []
  rw [List.append_nil] at hread
  constructor
  · rintro ⟨u, c', hu, hagree⟩ keys w
    obtain ⟨r, hr, hnav⟩ := hagree keys
    rw [hread] at hu
    obtain ⟨rfl, -⟩ : decoded v = u ∧ c = c' := by simpa using hu
    rw [fromChainPackWithPath_write hstd] at hr
    obtain rfl : _ = r := by simpa using hr
    exact hnav w
  · intro h
    exact ⟨decoded v, c, hread, fun keys => ⟨_, fromChainPackWithPath_write hstd keys, h keys⟩⟩

/-- Path decoding agrees with full decoding exactly when no list that can be
navigated to has more elements than an `int` can count. -/
theorem pathAgrees_iff_shortLists (v : RpcValue) (hstd : v.Std) :
    PathAgrees v ↔ v.ShortLists := by
  rw [pathAgrees_iff_follow hstd]
  constructor
  · intro h
    exact shortLists_of_decoded (shortLists_of_follow h)
  · intro h keys w
    exact follow_eq_some (std_decoded v hstd) (shortLists_decoded h)

theorem pathAgrees_iff_shortLists_list :
    PathAgrees (.ofVariant (.list [.ofVariant (.uint 1), .ofVariant .null])) ↔
      RpcValue.ShortLists (.ofVariant (.list [.ofVariant (.uint 1), .ofVariant .null])) :=
  pathAgrees_iff_shortLists _ (by
    simp [RpcValue.Std, RpcValue.Each, RpcMetaData.Each, Variant.Each, eachList, eachMap, eachIMap,
      RpcValue.ofVariant, Variant.Std, RpcMetaData.Std])

/-- A list with an element number `2 ^ 31`. -/
def longList : RpcValue := .ofVariant (.list (List.replicate (2 ^ 31 + 1) (.ofVariant .null)))

/-- The path to the last element is not found. -/
theorem path_longList : longList.Std ∧ ¬ PathAgrees longList := by
  have hstd : longList.Std := by
    refine ⟨⟨SortedMap.sorted_nil, SortedMap.sorted_nil, nofun⟩, ⟨trivial, trivial⟩, trivial, ?_⟩
    refine eachList_iff.mpr fun v hv => ?_
    rw [List.eq_of_mem_replicate hv]
    exact ⟨⟨SortedMap.sorted_nil, SortedMap.sorted_nil, nofun⟩, ⟨trivial, trivial⟩, trivial, trivial⟩
  refine ⟨hstd, fun h => ?_⟩
  have hshort := shortLists_of_decoded (shortLists_of_follow ((pathAgrees_iff_follow hstd).mp h))
  have hlen := hshort [] _ _ (.here longList)
  rw [List.length_replicate] at hlen
  omega

end ChainPackReader

end LibShv
