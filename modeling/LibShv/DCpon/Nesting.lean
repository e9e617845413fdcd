import LibShv.DCpon.Depth

/-!
# LibShv.DCpon.Nesting

What the readers of D return with a `max_depth` is not nested deeper. That `depth` of ChainPack
is never put down makes its reader refuse more, and never less.
-/

namespace LibShv.D

open ByteReader CallTree

/-! ## how deep a value is nested -/

mutual

/-- Inside of how many containers and metadata maps the innermost value is. -/
def RpcValue.nesting : RpcValue → Nat
  | .mk m store => max (metaNesting m) store.nesting

def Store.nesting : Store → Nat
  | .list vs => listNesting vs
  | .map m => mapNesting m
  | .imap m => imapNesting m
  | _ => 0

def listNesting : List RpcValue → Nat
  | [] => 0
  | v :: vs => max (v.nesting + 1) (listNesting vs)

def mapNesting : List (Bytes × RpcValue) → Nat
  | [] => 0
  | (_, v) :: m => max (v.nesting + 1) (mapNesting m)

def imapNesting : List (Int32 × RpcValue) → Nat
  | [] => 0
  | (_, v) :: m => max (v.nesting + 1) (imapNesting m)

def metaNesting : List (Key × RpcValue) → Nat
  | [] => 0
  | (_, v) :: m => max (v.nesting + 1) (metaNesting m)

end

/-- The same of entries with any keys. -/
def entriesNesting {κ : Type} : List (κ × RpcValue) → Nat
  | [] => 0
  | (_, v) :: m => max (v.nesting + 1) (entriesNesting m)

theorem mapNesting_eq (m : List (Bytes × RpcValue)) : mapNesting m = entriesNesting m := by
  induction m with
  | nil => rfl
  | cons e m ih => rw [mapNesting, entriesNesting, ih]

theorem imapNesting_eq (m : List (Int32 × RpcValue)) : imapNesting m = entriesNesting m := by
  induction m with
  | nil => rfl
  | cons e m ih => rw [imapNesting, entriesNesting, ih]

theorem metaNesting_eq (m : List (Key × RpcValue)) : metaNesting m = entriesNesting m := by
  induction m with
  | nil => rfl
  | cons e m ih => rw [metaNesting, entriesNesting, ih]

theorem listNesting_concat (vs : List RpcValue) (v : RpcValue) :
    listNesting (vs ++ [v]) = max (listNesting vs) (v.nesting + 1) := by
  induction vs with
  | nil => simp [listNesting]
  | cons w vs ih => rw [List.cons_append, listNesting, listNesting, ih, Nat.max_assoc]

/-- An entry that is set adds no more than its value; the one before it is lost. -/
theorem entriesNesting_setEntry_le {κ : Type} [DecidableEq κ] (k : κ) (v : RpcValue)
    (m : List (κ × RpcValue)) :
    entriesNesting (setEntry k v m) ≤ max (entriesNesting m) (v.nesting + 1) := by
  induction m with
  | nil => simp [setEntry, entriesNesting]
  | cons e m ih =>
    rw [setEntry]
    split
    · rw [entriesNesting, entriesNesting]
      omega
    · rw [entriesNesting, entriesNesting]
      omega

/-- A value is not nested deeper than the calls that read it. -/
def NestedIn (v : RpcValue) (t : Tree) : Prop := v.nesting ≤ t.depth

/-! ## ChainPack -/

theorem ensures_listBody (n : Nat) (lst : List RpcValue) :
    (listBody n lst).Ensures NestedIn fun lst' calls =>
      listNesting lst' ≤ max (listNesting lst) (depths calls) := by
  induction n generalizing lst with
  | zero => exact .lift .throw
  | succ n ih =>
    rw [listBody]
    refine .step fun b => ?_
    split
    · exact .step fun _ => .pure (Nat.le_max_left _ _)
    · refine .call fun v t hv => (ih (lst ++ [v])).imp fun lst' calls h => ?_
      rw [listNesting_concat] at h
      rw [NestedIn] at hv
      rw [depths]
      omega

theorem ensures_entriesBody {κ : Type} [DecidableEq κ] (key : RpcValue → Read κ) (n : Nat)
    (map : List (κ × RpcValue)) :
    (entriesBody key n map).Ensures NestedIn fun map' calls =>
      entriesNesting map' ≤ max (entriesNesting map) (depths calls) := by
  induction n generalizing map with
  | zero => exact .lift .throw
  | succ n ih =>
    rw [entriesBody]
    refine .step fun b => ?_
    split
    · exact .step fun _ => .pure (Nat.le_max_left _ _)
    · refine .call fun k tk hk => .call fun v tv hv => .step fun k => ?_
      refine (ih (setEntry k v map)).imp fun map' calls h => ?_
      have hset := entriesNesting_setEntry_le k v map
      rw [NestedIn] at hv
      rw [depths, depths]
      omega

/-- What is no container has nothing inside. -/
theorem gives_readSchema {b : UInt8} (hlist : b ≠ PackingSchema.List)
    (hmap : b ≠ PackingSchema.Map) (himap : b ≠ PackingSchema.IMap) (readVal : Read RpcValue)
    (n : Nat) : Gives (readSchema readVal n b) fun store => store.nesting = 0 := by
  rw [readSchema]
  -- every other branch takes its bytes and returns a scalar
  refine .ite (fun _ => .bind fun _ => .ite (fun _ => .pure rfl) fun _ => .pure rfl) fun _ => ?_
  refine .ite (fun h => absurd h hlist) fun _ => ?_
  refine .ite (fun h => absurd h hmap) fun _ => ?_
  refine .ite (fun h => absurd h himap) fun _ => ?_
  refine .ite (fun _ => .bind fun _ => .pure rfl) fun _ => ?_
  refine .ite (fun _ => .bind fun _ => .bind fun _ => .bind fun _ => .pure rfl) fun _ => ?_
  refine .ite (fun _ => .bind fun _ => .bind fun _ => .pure rfl) fun _ => ?_
  refine .ite (fun _ => .bind fun _ => .pure rfl) fun _ => ?_
  refine .ite (fun _ => .bind fun _ => .pure rfl) fun _ => ?_
  refine .ite (fun _ => .bind fun _ => .pure rfl) fun _ => ?_
  refine .ite (fun _ => .bind fun _ => .pure rfl) fun _ => ?_
  refine .ite (fun _ => .bind fun _ => .bind fun _ => .bind fun _ => .pure rfl) fun _ => ?_
  refine .ite (fun _ => .bind fun _ => .bind fun _ => .pure rfl) fun _ => ?_
  exact .ite (fun _ => .bind fun _ => .bind fun _ => .pure rfl) fun _ => .throw

theorem ensures_storeBody (n : Nat) :
    (storeBody n).Ensures NestedIn fun store calls => store.nesting ≤ depths calls := by
  rw [storeBody]
  refine .step fun b => ?_
  cases b with
  | none => exact .step fun _ => .pure (Nat.zero_le _)
  | some b =>
    change (schemaBody n b).Ensures NestedIn _
    rw [schemaBody]
    split
    case isTrue =>
      refine .step fun _ => (ensures_listBody n []).bind fun vs calls h => .pure ?_
      simpa [Store.nesting, listNesting] using h
    case isFalse hlist =>
      split
      case isTrue =>
        refine .step fun _ => (ensures_entriesBody _ n []).bind fun m calls h => .pure ?_
        simpa [Store.nesting, mapNesting_eq, entriesNesting] using h
      case isFalse hmap =>
        split
        case isTrue =>
          refine .step fun _ => (ensures_entriesBody _ n []).bind fun m calls h => .pure ?_
          simpa [Store.nesting, imapNesting_eq, entriesNesting] using h
        case isFalse himap =>
          refine .lift fun c store c' h => ?_
          exact (gives_readSchema hlist hmap himap _ n c store c' h).le

theorem ensures_metaBody (n : Nat) :
    (metaBody n).Ensures NestedIn fun m calls => metaNesting m ≤ depths calls := by
  rw [metaBody]
  refine .step fun b => ?_
  split
  · refine .step fun _ => (ensures_entriesBody _ n []).imp fun m calls h => ?_
    simpa [metaNesting_eq, entriesNesting] using h
  · exact .pure (Nat.zero_le _)

theorem nesting_le_depth {n : Nat} {c c' : Cursor Nat} {v : RpcValue} {t : Tree}
    (ht : readTree n c = .ok (v, t) c') : v.nesting ≤ t.depth := by
  have hbody (n : Nat) : (valBody n).Ensures NestedIn fun v calls => NestedIn v (.node calls) := by
    rw [valBody]
    refine (ensures_metaBody n).bind fun m ms hm => (ensures_storeBody n).bind fun store ss hs =>
      .pure ?_
    rw [NestedIn, RpcValue.nesting, Tree.depth, depths_append, depths_append]
    have hnil : depths [] = 0 := rfl
    omega
  exact readTree_gives hbody n c (v, t) c' ht

/-- What ChainPack is read with a limit is not nested deeper. -/
theorem nesting_le_maxDepth {maxDepth : Int32} (hpos : 0 < maxDepth)
    (hmax : maxDepth.toInt < 2 ^ 31 - 1) {n : Nat} {c c' : Cursor Nat} {v : RpcValue}
    (h : readMaxDepth maxDepth n c = .ok v c') : v.nesting ≤ maxDepth.toInt := by
  obtain ⟨t, ht, hdepth⟩ := depth_le_of_readLimited (maxDepthExceeded_error _) hpos hmax h
  exact (Int.ofNat_le.mpr (nesting_le_depth ht)).trans hdepth

/-! ## CPON -/

namespace Cpon

theorem gives_error {α : Type} {Q : α → Prop} (msg : String) : Gives (error msg : Read α) Q :=
  .bind fun _ => .bind fun _ => .throw

theorem ensures_readList (n : Nat) (lst : List RpcValue) :
    (readList n lst).Ensures NestedIn fun lst' calls =>
      listNesting lst' ≤ max (listNesting lst) (depths calls) := by
  induction n generalizing lst with
  | zero => exact .lift .throw
  | succ n ih =>
    rw [readList]
    refine .step fun _ => .step fun b => ?_
    split
    · exact .step fun _ => .pure (Nat.le_max_left _ _)
    · refine .call fun v t hv => (ih (lst ++ [v])).imp fun lst' calls h => ?_
      rw [listNesting_concat] at h
      rw [NestedIn] at hv
      rw [depths]
      omega

theorem ensures_readEntries {κ : Type} [DecidableEq κ] (close : UInt8) (key : RpcValue → Read κ)
    (n : Nat) (map : List (κ × RpcValue)) :
    (readEntries close key n map).Ensures NestedIn fun map' calls =>
      entriesNesting map' ≤ max (entriesNesting map) (depths calls) := by
  induction n generalizing map with
  | zero => exact .lift .throw
  | succ n ih =>
    rw [readEntries]
    refine .step fun _ => .step fun b => ?_
    split
    · exact .step fun _ => .pure (Nat.le_max_left _ _)
    · refine .call fun k tk hk => .step fun _ => .call fun v tv hv => .step fun k => ?_
      refine (ih (setEntry k v map)).imp fun map' calls h => ?_
      have hset := entriesNesting_setEntry_le k v map
      rw [NestedIn] at hv
      rw [depths, depths]
      omega

theorem gives_readNumber (n : Nat) : Gives (readNumber n) fun store => store.nesting = 0 := by
  rw [readNumber]
  refine .bind fun isNeg => .bind fun mantisa => .bind fun b => ?_
  refine .ite (fun _ => .bind fun _ => .pure rfl) fun _ => ?_
  refine .bind fun decimals => .bind fun exponent => ?_
  exact .ite (fun _ => .pure rfl) fun _ => .pure rfl

theorem gives_readDatetime (sysTime : Bytes → Option DateTime) (n : Nat) :
    Gives (readDatetime sysTime n) fun store => store.nesting = 0 := by
  rw [readDatetime]
  refine .bind fun _ => .bind fun s => ?_
  cases sysTime (colonOffset s) with
  | some dt => exact .pure rfl
  | none => exact .throw

theorem ensures_readMeta (n : Nat) :
    (readMeta n).Ensures NestedIn fun m calls => metaNesting m ≤ depths calls := by
  rw [readMeta]
  refine .step fun b => ?_
  split
  · refine .step fun _ => (ensures_readEntries _ _ n []).imp fun m calls h => ?_
    simpa [metaNesting_eq, entriesNesting] using h
  · exact .pure (Nat.zero_le _)

variable (sysTime : Bytes → Option DateTime)

theorem ensures_readStore (n : Nat) (b : UInt8) :
    (readStore sysTime n b).Ensures NestedIn fun store calls => store.nesting ≤ depths calls := by
  rw [readStore]
  refine .ite (fun _ => .lift fun c s c' h => (gives_readNumber n c s c' h).le) fun _ => ?_
  refine .ite (fun _ => .lift (.bind fun _ => .bind fun _ => .pure (Nat.le_refl 0))) fun _ => ?_
  refine .ite (fun _ => .step fun _ => ?_) fun _ => ?_
  · refine (ensures_readList n []).bind fun vs calls h => .pure ?_
    simpa [Store.nesting, listNesting] using h
  refine .ite (fun _ => .step fun _ => ?_) fun _ => ?_
  · refine (ensures_readEntries _ _ n []).bind fun m calls h => .pure ?_
    simpa [Store.nesting, mapNesting_eq, entriesNesting] using h
  refine .ite (fun _ => .step fun _ => .step fun _ => .ite (fun _ => .step fun _ => ?_)
    fun _ => .lift (gives_error _)) fun _ => ?_
  · refine (ensures_readEntries _ _ n []).bind fun m calls h => .pure ?_
    simpa [Store.nesting, imapNesting_eq, entriesNesting] using h
  refine .ite (fun _ => .step fun _ => .step fun _ => .ite
    (fun _ => .lift fun c s c' h => (gives_readDatetime sysTime n c s c' h).le)
    fun _ => .lift (gives_error _)) fun _ => ?_
  refine .ite (fun _ => .step fun _ => .pure (Nat.le_refl 0)) fun _ => ?_
  refine .ite (fun _ => .step fun _ => .pure (Nat.le_refl 0)) fun _ => ?_
  exact .ite (fun _ => .step fun _ => .pure (Nat.le_refl 0)) fun _ => .lift (gives_error _)

theorem ensures_valBody (n : Nat) :
    (valBody sysTime n).Ensures NestedIn fun v calls => NestedIn v (.node calls) := by
  rw [valBody]
  refine .step fun _ => (ensures_readMeta n).bind fun m ms hm => .step fun _ => .step fun b => ?_
  cases b with
  | none => exact .lift (gives_error _)
  | some b =>
    refine (ensures_readStore sysTime n b).bind fun store ss hs => .pure ?_
    rw [NestedIn, RpcValue.nesting, Tree.depth, depths_append, depths_append]
    have hnil : depths [] = 0 := rfl
    omega

variable {sysTime} {n : Nat} {c c' : Cursor Place} {v : RpcValue}

theorem nesting_le_depth {t : Tree} (ht : readTree sysTime n c = .ok (v, t) c') :
    v.nesting ≤ t.depth :=
  readTree_gives (ensures_valBody sysTime) n c (v, t) c' ht

/-- What CPON is read with a limit is not nested deeper. -/
theorem nesting_le_maxDepth {maxDepth : Int32} (hpos : 0 < maxDepth)
    (hmax : maxDepth.toInt < 2 ^ 31 - 1) (h : readMaxDepth sysTime maxDepth n c = .ok v c') :
    v.nesting ≤ maxDepth.toInt := by
  obtain ⟨t, ht, hdepth⟩ := depth_le_of_readLimited (error_error _) hpos hmax h
  exact (Int.ofNat_le.mpr (nesting_le_depth ht)).trans hdepth

end Cpon

/-- In either format nothing that is read with a `max_depth` is nested deeper than that. -/
theorem read_within_max_depth {maxDepth : Int32} (hpos : 0 < maxDepth)
    (hmax : maxDepth.toInt < 2 ^ 31 - 1) (n : Nat) :
    (∀ c v c', readMaxDepth maxDepth n c = .ok v c' → v.nesting ≤ maxDepth.toInt) ∧
    ∀ sysTime c v c', Cpon.readMaxDepth sysTime maxDepth n c = .ok v c' →
      v.nesting ≤ maxDepth.toInt :=
  ⟨fun _ _ _ h => nesting_le_maxDepth hpos hmax h,
    fun _ _ _ _ h => Cpon.nesting_le_maxDepth hpos hmax h⟩

theorem read_within_max_depth_two :
    (∃ v c', readMaxDepth 2 4 flatList = .ok v c' ∧ (v.nesting : Int) ≤ 2) ∧
    ∃ v c', Cpon.readMaxDepth (fun _ => none) 2 6 (Cpon.ofString nestedList) = .ok v c' ∧
      (v.nesting : Int) ≤ 2 := by
  have hflat : returns (fun _ => true) (readMaxDepth 2 4 flatList) = true := by decide +kernel
  have hnested : returns (fun _ => true)
      (Cpon.readMaxDepth (fun _ => none) 2 6 (Cpon.ofString nestedList)) = true := by decide +kernel
  obtain ⟨v, c', hv, -⟩ := exists_of_returns hflat
  obtain ⟨v', c'', hv', -⟩ := exists_of_returns hnested
  exact ⟨⟨v, c', hv, (read_within_max_depth (by decide) (by decide) 4).1 _ _ _ hv⟩,
    v', c'', hv', (read_within_max_depth (by decide) (by decide) 6).2 _ _ _ _ hv'⟩

end LibShv.D
