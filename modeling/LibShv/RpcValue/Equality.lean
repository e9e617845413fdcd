import LibShv.RpcValue.Decimals

/-!
# LibShv.RpcValue.Equality

When `operator==` of values without doubles is an equivalence. It is reflexive and
symmetric; a `bool` is equal to every integer of its truth, and decimals that differ
by a long way are compared as doubles, so a middle value may join two that differ.
-/

namespace LibShv

/-! ## values without doubles -/

mutual

/-- No node of the value is a double. Metadata are not compared. -/
def RpcValue.NoDouble : RpcValue → Prop
  | .mk _ x => x.NoDouble
termination_by structural v => v

def Variant.NoDouble : Variant → Prop
  | .list vs => NoDoubleList vs
  | .map m => NoDoubleMap m
  | .imap m => NoDoubleIMap m
  | .double _ => False
  | _ => True
termination_by structural v => v

def NoDoubleList : List RpcValue → Prop
  | [] => True
  | v :: vs => v.NoDouble ∧ NoDoubleList vs
termination_by structural v => v

def NoDoubleMap : List (Bytes × RpcValue) → Prop
  | [] => True
  | (_, v) :: m => v.NoDouble ∧ NoDoubleMap m
termination_by structural v => v

def NoDoubleIMap : List (Int32 × RpcValue) → Prop
  | [] => True
  | (_, v) :: m => v.NoDouble ∧ NoDoubleIMap m
termination_by structural v => v

end

/-! ## middle values -/

/-- The number of an integer of either sign. -/
def Variant.integer? : Variant → Option Int
  | .uint n => some n.toNat
  | .int n => some n.toInt
  | _ => none

/-- Two decimals joined by a third one: a normal form is shared, or the outer two are left to
doubles that do not differ. -/
def RpcDecimal.Joins (d e f : RpcDecimal) : Prop :=
  d.normalize = e.normalize ∨ e.normalize = f.normalize ∨ d.normalize = f.normalize ∨
    ¬ d.Direct f ∧ RpcDecimal.sameDouble d.normalize f.normalize = true

/-- What a middle value must not hide: a `bool` stands between two integers of one value only,
and a decimal between decimals that do not differ. -/
def Variant.chainScalar : Variant → Variant → Variant → Prop
  | x, .bool _, z => ∀ m n, x.integer? = some m → z.integer? = some n → m = n
  | .decimal d, .decimal e, .decimal f => d.Joins e f
  | _, _, _ => True

mutual

/-- The middle value hides no difference of the outer two, at any node. -/
def RpcValue.Chain : RpcValue → RpcValue → RpcValue → Prop
  | .mk _ x, v, w => x.Chain v.value w.value
termination_by structural v => v

def Variant.Chain : Variant → Variant → Variant → Prop
  | .list us, y, z =>
    match y, z with
    | .list vs, .list ws => ChainList us vs ws
    | _, _ => True
  | .map l, y, z =>
    match y, z with
    | .map m, .map n => ChainMap l m n
    | _, _ => True
  | .imap l, y, z =>
    match y, z with
    | .imap m, .imap n => ChainIMap l m n
    | _, _ => True
  | x, y, z => x.chainScalar y z
termination_by structural v => v

def ChainList : List RpcValue → List RpcValue → List RpcValue → Prop
  | u :: us, vs, ws =>
    match vs, ws with
    | v :: vs, w :: ws => u.Chain v w ∧ ChainList us vs ws
    | _, _ => True
  | [], _, _ => True
termination_by structural v => v

def ChainMap :
    List (Bytes × RpcValue) → List (Bytes × RpcValue) → List (Bytes × RpcValue) → Prop
  | (_, u) :: l, m, n =>
    match m, n with
    | (_, v) :: m, (_, w) :: n => u.Chain v w ∧ ChainMap l m n
    | _, _ => True
  | [], _, _ => True
termination_by structural v => v

def ChainIMap :
    List (Int32 × RpcValue) → List (Int32 × RpcValue) → List (Int32 × RpcValue) → Prop
  | (_, u) :: l, m, n =>
    match m, n with
    | (_, v) :: m, (_, w) :: n => u.Chain v w ∧ ChainIMap l m n
    | _, _ => True
  | [], _, _ => True
termination_by structural v => v

end

/-- A normal form that is shared carries the other equality over. -/
theorem RpcDecimal.eq_trans_iff {d e f : RpcDecimal} (hde : d.eq e = true) (hef : e.eq f = true) :
    d.eq f = true ↔ d.Joins e f := by
  have hcongr : ∀ {x y z : RpcDecimal}, x.normalize = y.normalize → x.eq z = y.eq z := by
    intro x y z h
    unfold eq
    rw [h]
  constructor
  · intro h
    exact .inr (.inr ((eq_iff d f).mp h))
  · rintro (h | h | h)
    · rw [hcongr h, hef]
    · rw [eq_symm, ← hcongr h, eq_symm, hde]
    · exact (eq_iff d f).mpr h

/-! ## scalars -/

namespace Variant

variable {x y z : Variant}

-- an integer is compared with a `bool` by its truth
example : (Variant.uint 1).eqScalar (.bool true) = true := by
  simp only [eqScalar]
  decide

theorem uint_eq_int (m : UInt64) (n : Int64) :
    (m.toNat < 2 ^ 63 && m.toInt64 == n) = true ↔ (m.toNat : Int) = n.toInt := by
  have hlt := m.toNat_lt
  have hn := n.toInt_lt
  have hval : m.toNat < 2 ^ 63 → m.toInt64.toInt = m.toNat := by
    intro h
    change m.toBitVec.toInt = _
    rw [BitVec.toInt_eq_toNat_of_lt (by change 2 * m.toNat < _; omega)]
    rfl
  rw [Bool.and_eq_true, decide_eq_true_iff, beq_iff_eq]
  constructor
  · rintro ⟨h, rfl⟩
    exact (hval h).symm
  · intro h
    have hsmall : m.toNat < 2 ^ 63 := by omega
    exact ⟨hsmall, Int64.toInt_inj.mp ((hval hsmall).trans h)⟩

theorem uint_ne_zero (n : UInt64) : n ≠ 0 ↔ (n.toNat : Int) ≠ 0 := by
  rw [ne_eq, ← UInt64.toNat_inj]
  simp

theorem int_ne_zero (n : Int64) : n ≠ 0 ↔ n.toInt ≠ 0 := by
  rw [ne_eq, ← Int64.toInt_inj]
  simp

theorem eqScalar_uint (k : UInt64) (hy : y.NoDouble) :
    (Variant.uint k).eqScalar y = true ↔
      y.integer? = some (k.toNat : Int) ∨ y = .bool (decide ((k.toNat : Int) ≠ 0)) := by
  cases y with
  | uint n =>
    simp only [eqScalar, integer?, beq_iff_eq, Option.some.injEq, reduceCtorEq, or_false,
      Int.natCast_inj, UInt64.toNat_inj]
    exact eq_comm
  | int n =>
    simp only [eqScalar, integer?, uint_eq_int, Option.some.injEq, reduceCtorEq, or_false]
    exact eq_comm
  | bool b =>
    simp only [eqScalar, castBool?, integer?, uint_ne_zero, Option.any_some, reduceCtorEq,
      false_or, Variant.bool.injEq, beq_iff_eq]
    exact eq_comm
  | double => exact hy.elim
  | _ => simp [eqScalar, integer?]

theorem eqScalar_int (k : Int64) (hy : y.NoDouble) :
    (Variant.int k).eqScalar y = true ↔
      y.integer? = some k.toInt ∨ y = .bool (decide (k.toInt ≠ 0)) := by
  cases y with
  | uint n =>
    have hcomm : (n.toNat < 2 ^ 63 && k == n.toInt64) = (n.toNat < 2 ^ 63 && n.toInt64 == k) := by
      rw [Bool.beq_comm]
    simp only [eqScalar, integer?, hcomm, uint_eq_int, Option.some.injEq, reduceCtorEq, or_false]
  | int n =>
    simp only [eqScalar, integer?, beq_iff_eq, Option.some.injEq, reduceCtorEq, or_false,
      Int64.toInt_inj]
    exact eq_comm
  | bool b =>
    simp only [eqScalar, castBool?, integer?, int_ne_zero, Option.any_some, reduceCtorEq,
      false_or, Variant.bool.injEq, beq_iff_eq]
    exact eq_comm
  | double => exact hy.elim
  | _ => simp [eqScalar, integer?]

/-- An integer is equal to the integers of its value and to the `bool` of its truth. -/
theorem eqScalar_integer {m : Int} (hx : x.integer? = some m) (hy : y.NoDouble) :
    x.eqScalar y = true ↔ y.integer? = some m ∨ y = .bool (decide (m ≠ 0)) := by
  cases x with
  | uint k =>
    cases hx
    exact eqScalar_uint k hy
  | int k =>
    cases hx
    exact eqScalar_int k hy
  | _ => cases hx

theorem eqScalar_bool (b : Bool) (hy : y.NoDouble) :
    (Variant.bool b).eqScalar y = true ↔
      y = .bool b ∨ ∃ m, y.integer? = some m ∧ b = decide (m ≠ 0) := by
  cases y with
  | bool c =>
    simp only [eqScalar, integer?, beq_iff_eq, reduceCtorEq, false_and, exists_false, or_false,
      Variant.bool.injEq]
    exact eq_comm
  | uint n => simp [eqScalar, castBool?, integer?, uint_ne_zero]
  | int n => simp [eqScalar, castBool?, integer?, int_ne_zero]
  | double => exact hy.elim
  | _ => simp [eqScalar, castBool?, integer?]

theorem eqScalar_decimal (d : RpcDecimal) (hy : y.NoDouble) :
    (Variant.decimal d).eqScalar y = true ↔ ∃ e, y = .decimal e ∧ d.eq e = true := by
  cases y with
  | decimal e => simp [eqScalar]
  | double => exact hy.elim
  | _ => simp [eqScalar, castBool?]

theorem eqScalar_dateTime (t : RpcDateTime) (hy : y.NoDouble) :
    (Variant.dateTime t).eqScalar y = true ↔ ∃ u, y = .dateTime u ∧ t.msec = u.msec := by
  cases y with
  | dateTime u => simp [eqScalar]
  | double => exact hy.elim
  | _ => simp [eqScalar, castBool?]

/-- The types that are equal to nothing but themselves. -/
def Plain : Variant → Prop
  | .invalid | .null | .blob _ | .string _ => True
  | _ => False

def Container : Variant → Prop
  | .list _ | .map _ | .imap _ => True
  | _ => False

theorem eqScalar_plain (hx : x.Plain) (hy : y.NoDouble) : x.eqScalar y = true ↔ x = y := by
  cases x with
  | invalid | null | blob | string =>
    cases y with
    | double => exact hy.elim
    | _ => simp [eqScalar, castBool?]
  | _ => exact hx.elim

theorem kinds (hx : x.NoDouble) :
    (∃ m, x.integer? = some m) ∨ (∃ b, x = .bool b) ∨ (∃ d, x = .decimal d) ∨
      (∃ t, x = .dateTime t) ∨ x.Plain ∨ x.Container := by
  cases x <;> simp_all [integer?, Plain, Container, NoDouble]

theorem eqScalar_refl (hx : x.NoDouble) (hc : ¬ x.Container) : x.eqScalar x = true := by
  obtain ⟨m, hm⟩ | ⟨b, rfl⟩ | ⟨d, rfl⟩ | ⟨t, rfl⟩ | hp | h := kinds hx
  · exact (eqScalar_integer hm hx).mpr (.inl hm)
  · exact (eqScalar_bool b hx).mpr (.inl rfl)
  · exact (eqScalar_decimal d hx).mpr ⟨d, rfl, d.eq_refl⟩
  · exact (eqScalar_dateTime t hx).mpr ⟨t, rfl, rfl⟩
  · exact (eqScalar_plain hp hx).mpr rfl
  · exact absurd h hc

theorem eqScalar_symm (hx : x.NoDouble) (hy : y.NoDouble) (hc : ¬ x.Container)
    (h : x.eqScalar y = true) : y.eqScalar x = true := by
  obtain ⟨m, hm⟩ | ⟨b, rfl⟩ | ⟨d, rfl⟩ | ⟨t, rfl⟩ | hp | hcx := kinds hx
  · obtain hn | rfl := (eqScalar_integer hm hy).mp h
    · exact (eqScalar_integer hn hx).mpr (.inl hm)
    · exact (eqScalar_bool _ hx).mpr (.inr ⟨m, hm, rfl⟩)
  · obtain rfl | ⟨m, hm, rfl⟩ := (eqScalar_bool b hy).mp h
    · exact h
    · exact (eqScalar_integer hm hx).mpr (.inr rfl)
  · obtain ⟨e, rfl, he⟩ := (eqScalar_decimal d hy).mp h
    exact (eqScalar_decimal e hx).mpr ⟨d, rfl, d.eq_symm e ▸ he⟩
  · obtain ⟨u, rfl, hu⟩ := (eqScalar_dateTime t hy).mp h
    exact (eqScalar_dateTime u hx).mpr ⟨t, rfl, hu.symm⟩
  · obtain rfl := (eqScalar_plain hp hy).mp h
    exact h
  · exact absurd hcx hc

/-- What is equal to a scalar is a scalar. -/
theorem not_container_of_eqScalar (hx : x.NoDouble) (hy : y.NoDouble) (hc : ¬ x.Container)
    (h : x.eqScalar y = true) : ¬ y.Container := by
  intro hcy
  cases y with
  | list | map | imap => cases x <;> simp_all [eqScalar, castBool?, NoDouble, Container]
  | _ => exact hcy.elim

theorem chainScalar_of_integer {m : Int} (hm : y.integer? = some m) : x.chainScalar y z := by
  cases y with
  | uint | int => cases x <;> trivial
  | _ => cases hm

/-- Over an integer everything goes through. -/
theorem eqScalar_trans_integer {m : Int} (hz : z.NoDouble) (hy : y.integer? = some m)
    (hx : x.integer? = some m ∨ x = .bool (decide (m ≠ 0))) (h : y.eqScalar z = true) :
    x.eqScalar z = true := by
  obtain hx | rfl := hx
  · rw [eqScalar_integer hx hz, ← eqScalar_integer hy hz]
    exact h
  · rw [eqScalar_bool _ hz]
    obtain hn | rfl := (eqScalar_integer hy hz).mp h
    · exact .inr ⟨m, hn, rfl⟩
    · exact .inl rfl

/-- Over a `bool`, an integer is equal to the integers of its own value. -/
theorem eqScalar_trans_bool {m : Int} (hz : z.NoDouble) (hx : x.integer? = some m) {b : Bool}
    (hb : b = decide (m ≠ 0)) (h : (Variant.bool b).eqScalar z = true) :
    x.eqScalar z = true ↔ x.chainScalar (.bool b) z := by
  have hchain : x.chainScalar (.bool b) z ↔
      ∀ m n, x.integer? = some m → z.integer? = some n → m = n := by
    cases x <;> rfl
  rw [hchain, eqScalar_integer hx hz]
  obtain rfl | ⟨n, hn, -⟩ := (eqScalar_bool b hz).mp h
  · simp [integer?, hb]
  · have hzb : z ≠ .bool (decide (m ≠ 0)) := by
      rintro rfl
      cases hn
    simp only [hx, hn, hzb, or_false, Option.some.injEq]
    exact ⟨fun h k l hk hl => by omega, fun h => (h m n rfl rfl).symm⟩

theorem eqScalar_trans_iff (hx : x.NoDouble) (hy : y.NoDouble) (hz : z.NoDouble)
    (hc : ¬ x.Container) (hxy : x.eqScalar y = true) (hyz : y.eqScalar z = true) :
    x.eqScalar z = true ↔ x.chainScalar y z := by
  obtain ⟨m, hm⟩ | ⟨b, rfl⟩ | ⟨d, rfl⟩ | ⟨t, rfl⟩ | hp | hcx := kinds hx
  · obtain hn | rfl := (eqScalar_integer hm hy).mp hxy
    · simp only [eqScalar_trans_integer hz hn (.inl hm) hyz, chainScalar_of_integer hn]
    · exact eqScalar_trans_bool hz hm rfl hyz
  · obtain rfl | ⟨m, hm, rfl⟩ := (eqScalar_bool b hy).mp hxy
    · simp only [hyz, true_iff]
      intro m n hm
      cases hm
    · simp only [eqScalar_trans_integer hz hm (.inr rfl) hyz, chainScalar_of_integer hm]
  · obtain ⟨e, rfl, hde⟩ := (eqScalar_decimal d hy).mp hxy
    obtain ⟨f, rfl, hef⟩ := (eqScalar_decimal e hz).mp hyz
    change d.eq f = true ↔ d.Joins e f
    exact RpcDecimal.eq_trans_iff hde hef
  · obtain ⟨u, rfl, htu⟩ := (eqScalar_dateTime t hy).mp hxy
    obtain ⟨v, rfl, huv⟩ := (eqScalar_dateTime u hz).mp hyz
    simp only [eqScalar, chainScalar, beq_iff_eq, htu, huv]
  · obtain rfl := (eqScalar_plain hp hy).mp hxy
    simp only [hyz, true_iff]
    cases x <;> trivial
  · exact absurd hcx hc

end Variant

/-! ## trees -/

theorem Variant.eq_of_not_container {x : Variant} (hc : ¬ x.Container) (y : Variant) :
    x.eq y = x.eqScalar y := by
  cases x with
  | list | map | imap => exact absurd trivial hc
  | _ => rfl

mutual

theorem RpcValue.eq_refl : (v : RpcValue) → v.NoDouble → v.eq v = true
  | .mk _ x, h => Variant.eq_refl x h

theorem Variant.eq_refl : (x : Variant) → x.NoDouble → x.eq x = true
  | .list vs, h => eqList_refl vs h
  | .map m, h => eqMap_refl m h
  | .imap m, h => eqIMap_refl m h
  | .invalid, h | .null, h | .uint _, h | .int _, h | .double _, h | .bool _, h | .blob _, h
  | .string _, h | .dateTime _, h | .decimal _, h => Variant.eqScalar_refl h not_false

theorem eqList_refl : (vs : List RpcValue) → NoDoubleList vs → eqList vs vs = true
  | [], _ => rfl
  | v :: vs, h => by
    rw [eqList, v.eq_refl h.1, eqList_refl vs h.2]
    rfl

theorem eqMap_refl : (m : List (Bytes × RpcValue)) → NoDoubleMap m → eqMap m m = true
  | [], _ => rfl
  | (k, v) :: m, h => by
    rw [eqMap, v.eq_refl h.1, eqMap_refl m h.2, beq_self_eq_true]
    rfl

theorem eqIMap_refl : (m : List (Int32 × RpcValue)) → NoDoubleIMap m → eqIMap m m = true
  | [], _ => rfl
  | (k, v) :: m, h => by
    rw [eqIMap, v.eq_refl h.1, eqIMap_refl m h.2, beq_self_eq_true]
    rfl

end

mutual

theorem RpcValue.eq_symm :
    (v w : RpcValue) → v.NoDouble → w.NoDouble → v.eq w = true → w.eq v = true
  | .mk _ x, .mk _ y, hv, hw, h => Variant.eq_symm x y hv hw h

theorem Variant.eq_symm :
    (x y : Variant) → x.NoDouble → y.NoDouble → x.eq y = true → y.eq x = true
  | .list vs, y, hx, hy, h => by
    cases y with
    | list ws => exact eqList_symm vs ws hx hy h
    | _ => cases h
  | .map m, y, hx, hy, h => by
    cases y with
    | map n => exact eqMap_symm m n hx hy h
    | _ => cases h
  | .imap m, y, hx, hy, h => by
    cases y with
    | imap n => exact eqIMap_symm m n hx hy h
    | _ => cases h
  | .invalid, y, hx, hy, h | .null, y, hx, hy, h | .uint _, y, hx, hy, h | .int _, y, hx, hy, h
  | .double _, y, hx, hy, h | .bool _, y, hx, hy, h | .blob _, y, hx, hy, h
  | .string _, y, hx, hy, h | .dateTime _, y, hx, hy, h | .decimal _, y, hx, hy, h => by
    rw [Variant.eq_of_not_container (Variant.not_container_of_eqScalar hx hy not_false h)]
    exact Variant.eqScalar_symm hx hy not_false h

theorem eqList_symm : (vs ws : List RpcValue) → NoDoubleList vs → NoDoubleList ws →
    eqList vs ws = true → eqList ws vs = true
  | [], [], _, _, h => h
  | [], _ :: _, _, _, h => by cases h
  | _ :: _, [], _, _, h => by cases h
  | v :: vs, w :: ws, hv, hw, h => by
    rw [eqList, Bool.and_eq_true] at h ⊢
    exact ⟨v.eq_symm w hv.1 hw.1 h.1, eqList_symm vs ws hv.2 hw.2 h.2⟩

theorem eqMap_symm : (l m : List (Bytes × RpcValue)) → NoDoubleMap l → NoDoubleMap m →
    eqMap l m = true → eqMap m l = true
  | [], [], _, _, h => h
  | [], _ :: _, _, _, h => by cases h
  | _ :: _, [], _, _, h => by cases h
  | (k, v) :: l, (k', w) :: m, hv, hw, h => by
    rw [eqMap, Bool.and_eq_true, Bool.and_eq_true, beq_iff_eq] at h ⊢
    exact ⟨⟨h.1.1.symm, v.eq_symm w hv.1 hw.1 h.1.2⟩, eqMap_symm l m hv.2 hw.2 h.2⟩

theorem eqIMap_symm : (l m : List (Int32 × RpcValue)) → NoDoubleIMap l → NoDoubleIMap m →
    eqIMap l m = true → eqIMap m l = true
  | [], [], _, _, h => h
  | [], _ :: _, _, _, h => by cases h
  | _ :: _, [], _, _, h => by cases h
  | (k, v) :: l, (k', w) :: m, hv, hw, h => by
    rw [eqIMap, Bool.and_eq_true, Bool.and_eq_true, beq_iff_eq] at h ⊢
    exact ⟨⟨h.1.1.symm, v.eq_symm w hv.1 hw.1 h.1.2⟩, eqIMap_symm l m hv.2 hw.2 h.2⟩

end

mutual

theorem RpcValue.eq_trans_iff : (u v w : RpcValue) → u.NoDouble → v.NoDouble → w.NoDouble →
    u.eq v = true → v.eq w = true → (u.eq w = true ↔ u.Chain v w)
  | .mk _ x, .mk _ y, .mk _ z, hu, hv, hw, huv, hvw =>
    Variant.eq_trans_iff x y z hu hv hw huv hvw

theorem Variant.eq_trans_iff : (x y z : Variant) → x.NoDouble → y.NoDouble → z.NoDouble →
    x.eq y = true → y.eq z = true → (x.eq z = true ↔ x.Chain y z)
  | .list us, y, z, hx, hy, hz, hxy, hyz => by
    cases y with
    | list vs =>
      cases z with
      | list ws => exact eqList_trans_iff us vs ws hx hy hz hxy hyz
      | _ => cases hyz
    | _ => cases hxy
  | .map l, y, z, hx, hy, hz, hxy, hyz => by
    cases y with
    | map m =>
      cases z with
      | map n => exact eqMap_trans_iff l m n hx hy hz hxy hyz
      | _ => cases hyz
    | _ => cases hxy
  | .imap l, y, z, hx, hy, hz, hxy, hyz => by
    cases y with
    | imap m =>
      cases z with
      | imap n => exact eqIMap_trans_iff l m n hx hy hz hxy hyz
      | _ => cases hyz
    | _ => cases hxy
  | .invalid, y, z, hx, hy, hz, hxy, hyz | .null, y, z, hx, hy, hz, hxy, hyz
  | .uint _, y, z, hx, hy, hz, hxy, hyz | .int _, y, z, hx, hy, hz, hxy, hyz
  | .double _, y, z, hx, hy, hz, hxy, hyz | .bool _, y, z, hx, hy, hz, hxy, hyz
  | .blob _, y, z, hx, hy, hz, hxy, hyz | .string _, y, z, hx, hy, hz, hxy, hyz
  | .dateTime _, y, z, hx, hy, hz, hxy, hyz | .decimal _, y, z, hx, hy, hz, hxy, hyz => by
    rw [Variant.eq_of_not_container (Variant.not_container_of_eqScalar hx hy not_false hxy)] at hyz
    exact Variant.eqScalar_trans_iff hx hy hz not_false hxy hyz

theorem eqList_trans_iff : (us vs ws : List RpcValue) → NoDoubleList us → NoDoubleList vs →
    NoDoubleList ws → eqList us vs = true → eqList vs ws = true →
    (eqList us ws = true ↔ ChainList us vs ws)
  | [], [], _, _, _, _, _, hvw => iff_of_true hvw trivial
  | [], _ :: _, _, _, _, _, huv, _ => by cases huv
  | _ :: _, [], _, _, _, _, huv, _ => by cases huv
  | _ :: _, _ :: _, [], _, _, _, _, hvw => by cases hvw
  | u :: us, v :: vs, w :: ws, hu, hv, hw, huv, hvw => by
    rw [eqList, Bool.and_eq_true] at huv hvw ⊢
    exact and_congr (u.eq_trans_iff v w hu.1 hv.1 hw.1 huv.1 hvw.1)
      (eqList_trans_iff us vs ws hu.2 hv.2 hw.2 huv.2 hvw.2)

theorem eqMap_trans_iff : (l m n : List (Bytes × RpcValue)) → NoDoubleMap l → NoDoubleMap m →
    NoDoubleMap n → eqMap l m = true → eqMap m n = true →
    (eqMap l n = true ↔ ChainMap l m n)
  | [], [], _, _, _, _, _, hvw => iff_of_true hvw trivial
  | [], _ :: _, _, _, _, _, huv, _ => by cases huv
  | _ :: _, [], _, _, _, _, huv, _ => by cases huv
  | _ :: _, _ :: _, [], _, _, _, _, hvw => by cases hvw
  | (i, u) :: l, (j, v) :: m, (k, w) :: n, hu, hv, hw, huv, hvw => by
    rw [eqMap, Bool.and_eq_true, Bool.and_eq_true, beq_iff_eq] at huv hvw ⊢
    have hkey : i = k := huv.1.1.trans hvw.1.1
    exact and_congr
      ((and_iff_right hkey).trans (u.eq_trans_iff v w hu.1 hv.1 hw.1 huv.1.2 hvw.1.2))
      (eqMap_trans_iff l m n hu.2 hv.2 hw.2 huv.2 hvw.2)

theorem eqIMap_trans_iff : (l m n : List (Int32 × RpcValue)) → NoDoubleIMap l → NoDoubleIMap m →
    NoDoubleIMap n → eqIMap l m = true → eqIMap m n = true →
    (eqIMap l n = true ↔ ChainIMap l m n)
  | [], [], _, _, _, _, _, hvw => iff_of_true hvw trivial
  | [], _ :: _, _, _, _, _, huv, _ => by cases huv
  | _ :: _, [], _, _, _, _, huv, _ => by cases huv
  | _ :: _, _ :: _, [], _, _, _, _, hvw => by cases hvw
  | (i, u) :: l, (j, v) :: m, (k, w) :: n, hu, hv, hw, huv, hvw => by
    rw [eqIMap, Bool.and_eq_true, Bool.and_eq_true, beq_iff_eq] at huv hvw ⊢
    have hkey : i = k := huv.1.1.trans hvw.1.1
    exact and_congr
      ((and_iff_right hkey).trans (u.eq_trans_iff v w hu.1 hv.1 hw.1 huv.1.2 hvw.1.2))
      (eqIMap_trans_iff l m n hu.2 hv.2 hw.2 huv.2 hvw.2)

end

/-- Equality of values without doubles is reflexive and symmetric, and it is transitive where the
middle value hides no difference of the outer two. -/
theorem equality_equivalence (a b c : RpcValue) (ha : a.NoDouble) (hb : b.NoDouble)
    (hc : c.NoDouble) :
    a.eq a = true ∧ (a.eq b = true → b.eq a = true) ∧
      (a.eq b = true → b.eq c = true → (a.eq c = true ↔ a.Chain b c)) :=
  ⟨a.eq_refl ha, a.eq_symm b ha hb, a.eq_trans_iff b c ha hb hc⟩

/-- A `bool` may stand between an integer and itself. -/
theorem equality_equivalence_bool :
    (RpcValue.ofVariant (.bool true)).eq (.ofVariant (.int 2)) = true ∧
      (RpcValue.ofVariant (.int 2)).Chain (.ofVariant (.bool true)) (.ofVariant (.int 2)) := by
  have h := equality_equivalence (.ofVariant (.int 2)) (.ofVariant (.bool true))
    (.ofVariant (.int 2)) trivial trivial trivial
  have hsymm := h.2.1 rfl
  exact ⟨hsymm, (h.2.2 rfl hsymm).mp h.1⟩

/-- Two is true, and so is three. -/
theorem not_equality_equivalence :
    ¬ ∀ a b c : RpcValue, a.NoDouble → b.NoDouble → c.NoDouble →
      a.eq a = true ∧ (a.eq b = true → b.eq a = true) ∧
        (a.eq b = true → b.eq c = true → a.eq c = true) := by
  intro h
  have htrans := (h (.ofVariant (.int 2)) (.ofVariant (.bool true)) (.ofVariant (.int 3))
    trivial trivial trivial).2.2 rfl rfl
  exact absurd htrans (by decide)

end LibShv
