import LibShv.RpcValue

/-!
# LibShv.RpcValue.Compare

`operator==` of values (`rpcvalue.cpp`). It looks at no metadata, and numbers of
different types are compared after a conversion.
-/

namespace LibShv

/-! ## decimals -/

/-- The loop of `normalize`; a mantissa has at most 19 digits. -/
def RpcDecimal.dropZeros : Nat → Int64 → Int32 → RpcDecimal
  | 0, m, e => ⟨m, e⟩
  | n + 1, m, e => if m ≠ 0 ∧ m % 10 = 0 then dropZeros n (m / 10) (e + 1) else ⟨m, e⟩

/-- `RpcDecimal::normalize`. -/
def RpcDecimal.normalize (d : RpcDecimal) : RpcDecimal :=
  if d.mantissa = 0 then ⟨0, 0⟩ else dropZeros 19 d.mantissa d.exponent

/-- `pow10`. -/
def pow10 (n : UInt32) : Option Int64 :=
  if n ≤ 8 then some (Int64.ofInt (10 ^ n.toNat)) else none

/-- `safeMul`. -/
def safeMul (a b : Int64) : Option Int64 :=
  let result := a.toInt * b.toInt
  if -2 ^ 63 ≤ result ∧ result < 2 ^ 63 then some (Int64.ofInt result) else none

/-- `RpcDecimal::operator==`: the mantissa with the higher exponent is scaled, and
where it does not fit the two are compared as doubles. -/
def RpcDecimal.eq (x y : RpcDecimal) : Bool :=
  let a := x.normalize
  let b := y.normalize
  if a.exponent = b.exponent then a.mantissa == b.mantissa
  else
    let to_scale := if b.exponent < a.exponent then a else b
    let diff := a.exponent - b.exponent
    let exponent_diff := if diff < 0 then -diff else diff
    let scaled := (pow10 exponent_diff.toUInt32).bind (safeMul to_scale.mantissa)
    match scaled with
    | some m => if b.exponent < a.exponent then m == b.mantissa else a.mantissa == m
    | none => !(decide (a.toDouble < b.toDouble) || decide (b.toDouble < a.toDouble))

/-! ## values -/

/-- The types of `std::is_arithmetic` as a `double`. -/
def Variant.arithmetic? : Variant → Option Float
  | .uint n => some n.toFloat
  | .int n => some n.toFloat
  | .double bits => some (Float.ofBits bits)
  | .bool b => some (if b then 1.0 else 0.0)
  | _ => none

/-- `static_cast<bool>` of an integer or a `bool`. -/
def Variant.castBool? : Variant → Option Bool
  | .uint n => some (n ≠ 0)
  | .int n => some (n ≠ 0)
  | .bool b => some b
  | _ => none

/-- `operator==` where no side is a container. -/
def Variant.eqScalar : Variant → Variant → Bool
  | .invalid, .invalid => true
  | .null, .null => true
  | .uint x, .uint y => x == y
  | .int x, .int y => x == y
  | .bool x, .bool y => x == y
  | .blob x, .blob y => x == y
  | .string x, .string y => x == y
  | .dateTime x, .dateTime y => x.msec == y.msec
  | .decimal x, .decimal y => x.eq y
  | .double x, .decimal y => y.toDouble == Float.ofBits x
  | .decimal x, .double y => x.toDouble == Float.ofBits y
  | .uint x, .int y => x.toNat < 2 ^ 63 && x.toInt64 == y
  | .int x, .uint y => y.toNat < 2 ^ 63 && x == y.toInt64
  | .double x, y => y.arithmetic?.any (Float.ofBits x == ·)
  | x, .double y => x.arithmetic?.any (· == Float.ofBits y)
  | .bool x, y => y.castBool?.any (x == ·)
  | x, .bool y => x.castBool?.any (· == y)
  | _, _ => false

mutual

/-- `RpcValue::operator==`. -/
def RpcValue.eq : RpcValue → RpcValue → Bool
  | .mk _ x, w => x.eq w.value
termination_by structural v => v

def Variant.eq : Variant → Variant → Bool
  | .list vs, y =>
    match y with
    | .list ws => eqList vs ws
    | _ => false
  | .map m, y =>
    match y with
    | .map m' => eqMap m m'
    | _ => false
  | .imap m, y =>
    match y with
    | .imap m' => eqIMap m m'
    | _ => false
  | x, y => x.eqScalar y
termination_by structural v => v

def eqList : List RpcValue → List RpcValue → Bool
  | [], ws => ws.isEmpty
  | v :: vs, ws =>
    match ws with
    | [] => false
    | w :: ws => v.eq w && eqList vs ws
termination_by structural v => v

def eqMap : List (Bytes × RpcValue) → List (Bytes × RpcValue) → Bool
  | [], m' => m'.isEmpty
  | (k, v) :: m, m' =>
    match m' with
    | [] => false
    | (k', v') :: m' => k == k' && v.eq v' && eqMap m m'
termination_by structural v => v

def eqIMap : List (Int32 × RpcValue) → List (Int32 × RpcValue) → Bool
  | [], m' => m'.isEmpty
  | (k, v) :: m, m' =>
    match m' with
    | [] => false
    | (k', v') :: m' => k == k' && v.eq v' && eqIMap m m'
termination_by structural v => v

end

end LibShv
