import LibShv.DChainPack
import LibShv.Lib.CallTree

/-!
# LibShv.DChainPack.Depth

`read` of ChainPack in D with a `max_depth`. Its counter `depth` is put up on the way into
`read_val` and not put down on the way out, so that it counts the values and keys.
-/

namespace LibShv.D

open ByteReader CallTree

/-! ## the body of `read_val` -/

/-- A part of the body of `read_val`. -/
abbrev Body := Prog ReadError Nat RpcValue

def listBody : Nat → List RpcValue → Body (List RpcValue)
  | 0, _ => liftM (throw .outOfFuel : Read _)
  | n + 1, lst => do
    if (← peekByte) = some PackingSchema.TERM then
      let _ ← getByte
      return lst
    else
      let v ← Prog.callV
      listBody n (lst ++ [v])

def entriesBody {κ : Type} [DecidableEq κ] (key : RpcValue → Read κ) :
    Nat → List (κ × RpcValue) → Body (List (κ × RpcValue))
  | 0, _ => liftM (throw .outOfFuel : Read _)
  | n + 1, map => do
    if (← peekByte) = some PackingSchema.TERM then
      let _ ← getByte
      return map
    else
      let k ← Prog.callV
      let v ← Prog.callV
      let k ← key k
      entriesBody key n (setEntry k v map)

/-- The containers; nothing else has values inside. -/
def schemaBody (n : Nat) (b : UInt8) : Body Store := do
  if b = PackingSchema.List then
    let _ ← getByte
    return .list (← listBody n [])
  else if b = PackingSchema.Map then
    let _ ← getByte
    return .map (← entriesBody RpcValue.str n [])
  else if b = PackingSchema.IMap then
    let _ ← getByte
    return .imap (← entriesBody RpcValue.imapKey n [])
  else readSchema (throw .outOfFuel) n b

def storeBody (n : Nat) : Body Store := do
  match ← peekByte with
  | some b => schemaBody n b
  | none =>
    let _ ← getByte
    return .invalid

def metaBody (n : Nat) : Body (List (Key × RpcValue)) := do
  if (← peekByte) = some PackingSchema.MetaMap then
    let _ ← getByte
    entriesBody RpcValue.metaKey n []
  else return []

def valBody (n : Nat) : Body RpcValue := do
  let m ← metaBody n
  let store ← storeBody n
  return .mk m store

/-! ## it is the body of `read_val` -/

section Run

variable (readVal : Read RpcValue)

theorem run_listBody (n : Nat) (lst : List RpcValue) :
    (listBody n lst).run readVal = readList readVal n lst := by
  induction n generalizing lst with
  | zero => simp [listBody, readList]
  | succ n ih =>
    rw [listBody, readList, Prog.run_bind, Prog.run_lift]
    refine bind_congr fun b => ?_
    split
    · simp [Prog.run_bind]
    · simp [Prog.run_bind, ih]

theorem run_entriesBody {κ : Type} [DecidableEq κ] (key : RpcValue → Read κ) (n : Nat)
    (map : List (κ × RpcValue)) :
    (entriesBody key n map).run readVal = readEntries readVal key n map := by
  induction n generalizing map with
  | zero => simp [entriesBody, readEntries]
  | succ n ih =>
    rw [entriesBody, readEntries, Prog.run_bind, Prog.run_lift]
    refine bind_congr fun b => ?_
    split
    · simp [Prog.run_bind]
    · simp [Prog.run_bind, ih]

/-- Where no container begins, `read_val` is not called. -/
theorem readSchema_of_not_container {b : UInt8} (hlist : b ≠ PackingSchema.List)
    (hmap : b ≠ PackingSchema.Map) (himap : b ≠ PackingSchema.IMap) (other : Read RpcValue)
    (n : Nat) : readSchema other n b = readSchema readVal n b := by
  rw [readSchema, readSchema]
  simp only [if_neg hlist, if_neg hmap, if_neg himap]

theorem run_schemaBody (n : Nat) (b : UInt8) :
    (schemaBody n b).run readVal = readSchema readVal n b := by
  rw [schemaBody]
  split
  case isTrue h =>
    subst h
    rw [readSchema, if_neg (by decide), if_pos rfl]
    simp [Prog.run_bind, run_listBody]
  case isFalse hlist =>
    split
    case isTrue h =>
      subst h
      rw [readSchema, if_neg (by decide), if_neg hlist, if_pos rfl]
      simp [Prog.run_bind, run_entriesBody]
    case isFalse hmap =>
      split
      case isTrue h =>
        subst h
        rw [readSchema, if_neg (by decide), if_neg hlist, if_neg hmap, if_pos rfl]
        simp [Prog.run_bind, run_entriesBody]
      case isFalse himap =>
        rw [Prog.run_lift]
        exact readSchema_of_not_container readVal hlist hmap himap _ n

theorem run_storeBody (n : Nat) : (storeBody n).run readVal = readStore readVal n := by
  rw [storeBody, readStore, Prog.run_bind, Prog.run_lift]
  refine bind_congr fun b => ?_
  cases b with
  | none => simp [Prog.run_bind]
  | some b => exact run_schemaBody readVal n b

theorem run_metaBody (n : Nat) : (metaBody n).run readVal = readMeta readVal n := by
  rw [metaBody, readMeta, Prog.run_bind, Prog.run_lift]
  refine bind_congr fun b => ?_
  split
  · simp [Prog.run_bind, run_entriesBody]
  · rfl

end Run

theorem readVal_eq_read (n : Nat) : readVal n = CallTree.read valBody .outOfFuel n := by
  induction n with
  | zero => rfl
  | succ n ih =>
    rw [readVal, CallTree.read, ← ih]
    simp only [valBody, Prog.run_bind, run_metaBody, run_storeBody, Prog.run_pure]

/-! ## with a limit -/

/-- The calls of `read_val` that read a document; those for the items of a container or of
metadata are made by the call for the value that has them. -/
def readTree (n : Nat) : Read (RpcValue × Tree) := CallTree.readTree valBody .outOfFuel n

/-- `error("Max depth: " ~ to!string(max_depth) ~ " exceeded.", reader.count)`. -/
def maxDepthExceeded {α : Type} (maxDepth : Int32) : Read α := do
  throw (.chainPack s!"Max depth: {maxDepth} exceeded." (← getReg))

/-- `read` with a `max_depth`: there is no `depth--`. -/
def readMaxDepth (maxDepth : Int32) (n : Nat) : Read RpcValue :=
  readLimited valBody .outOfFuel false maxDepth (maxDepthExceeded maxDepth) n

theorem readVal_eq_ok_iff (n : Nat) (c : Cursor Nat) (v : RpcValue) (c' : Cursor Nat) :
    readVal n c = .ok v c' ↔ ∃ t, readTree n c = .ok (v, t) c' := by
  rw [readVal_eq_read]
  exact read_eq_ok_iff n c v c'

theorem maxDepthExceeded_error {α : Type} (maxDepth : Int32) (c : Cursor Nat) :
    ∃ e c', (maxDepthExceeded maxDepth : Read α) c = .error e c' := ⟨_, c, rfl⟩


end LibShv.D
