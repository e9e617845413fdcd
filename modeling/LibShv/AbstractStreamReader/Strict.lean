import LibShv.AbstractStreamReader
import LibShv.RpcValue.Valid

/-!
# LibShv.AbstractStreamReader.Strict

A reader that wants a value wherever one stands: at the top, as an element of a
list, and behind a key. It reads what the reader of the source reads, but for a
container end, or a separator that is taken for an item, in the place of a value.
What it reads is valid at every depth.
-/

namespace LibShv.AbstractStreamReader

open ByteReader

variable (rd : AbstractStreamReader)

/-- What is thrown in the place of a value. -/
def valueExpected : Fault := .parse .malformedInput "Value expected"

mutual

/-- `read`, strictly. What it returns in the place of a container end is Invalid. -/
def strictRead : Nat → Unpack RpcValue
  | 0 => throw .outOfFuel
  | n + 1 => do
    let md ← strictReadMetaData n
    let item ← rd.unpackNext
    let val ← strictReadItem n item
    rd.attachMetaData md val

def strictReadItem : Nat → CCpcpItem → Unpack RpcValue
  | 0, _ => throw .outOfFuel
  | n + 1, item => do
    match item with
    | .list => return .ofVariant (.list (← strictParseList n []))
    | .map => return .ofVariant (.map (← strictParseMap n []))
    | .imap => return .ofVariant (.imap (← strictParseIMap n []))
    | item => rd.readItem (n + 1) item

def strictReadMetaData : Nat → Unpack RpcMetaData
  | 0 => throw .outOfFuel
  | n + 1 => do
    if ← rd.metaDataBegin then strictParseMetaData n .empty
    else return .empty

def strictParseList : Nat → RpcList → Unpack RpcList
  | 0, _ => throw .outOfFuel
  | n + 1, lst => do
    let v ← strictRead n
    if (← getItem) = .containerEnd then
      endContainer
      return lst
    else if v.isValid then strictParseList n (lst ++ [v])
    else throw valueExpected

def strictParseMetaData : Nat → RpcMetaData → Unpack RpcMetaData
  | 0, _ => throw .outOfFuel
  | n + 1, md => do
    let key ← strictRead n
    if (← getItem) = .containerEnd then
      endContainer
      return md
    else
      let val ← strictRead n
      if val.isValid then
        if key.isString then strictParseMetaData n (md.setSValue key.asString val)
        else
          let key ← liftRuntime key.toInt
          strictParseMetaData n (md.setIValue key val)
      else throw valueExpected

def strictParseMap : Nat → RpcMap → Unpack RpcMap
  | 0, _ => throw .outOfFuel
  | n + 1, map => do
    let key ← strictRead n
    if (← getItem) = .containerEnd then
      endContainer
      return map
    else
      let val ← strictRead n
      if val.isValid then strictParseMap n (SortedMap.insert key.asString val map)
      else throw valueExpected

def strictParseIMap : Nat → RpcIMap → Unpack RpcIMap
  | 0, _ => throw .outOfFuel
  | n + 1, map => do
    let key ← strictRead n
    if (← getItem) = .containerEnd then
      endContainer
      return map
    else
      let val ← strictRead n
      if val.isValid then
        let key ← liftRuntime key.toInt
        strictParseIMap n (SortedMap.insert key val map)
      else throw valueExpected

end

/-- A value is read strictly from a fresh stream. -/
def strictReadFrom (input : Bytes) : EStateM.Result Fault (Cursor UnpackContext) RpcValue :=
  (do
    let v ← rd.strictRead (fuelFor input.length)
    if v.isValid then return v
    else throw valueExpected : Unpack RpcValue) (openStream input)

/-! ## what is read strictly -/

/-- An Invalid value, or one that is valid at every depth. -/
def ValidIfAny (v : RpcValue) : Prop := v.isValid = true → v.AllValid

variable {rd}

theorem refines_loop {α : Type} {Q : α → Prop} {p q : Unpack RpcValue} {a : α}
    {next next' : RpcValue → Unpack α} (hread : Refines valueExpected ValidIfAny p q) (ha : Q a)
    (hnext : ∀ v, ValidIfAny v → Refines valueExpected Q (next v) (next' v)) :
    Refines valueExpected Q
      (do
        let v ← p
        if (← getItem) = .containerEnd then
          endContainer
          return a
        else next v)
      (do
        let v ← q
        if (← getItem) = .containerEnd then
          endContainer
          return a
        else next' v) := by
  refine hread.bind fun v hv => (Refines.refl _).bind fun item _ => Refines.ite (fun _ => ?_) fun _ =>
    hnext v hv
  exact (Refines.refl _).bind fun _ _ => Refines.pure ha

theorem refines_throwParseException {α : Type} {Q : α → Prop} (msg : String) :
    Refines valueExpected Q (rd.throwParseException msg : Unpack α) (rd.throwParseException msg) :=
  ⟨fun _ _ _ h => by contradiction, fun _ _ _ h => by contradiction⟩

theorem refines_attachMetaData {md : RpcMetaData} {val : RpcValue} (hmd : md.AllValid)
    (hval : ValidIfAny val) :
    Refines valueExpected ValidIfAny (rd.attachMetaData md val) (rd.attachMetaData md val) := by
  refine Refines.ite (fun _ => Refines.pure hval) fun _ => Refines.ite (fun hvalid => ?_) fun _ => ?_
  · exact Refines.pure fun _ => (hval hvalid).setMetaData hmd
  · exact (Refines.refl _).bind fun _ _ => refines_throwParseException _

/-- A value that is no container. -/
theorem refines_scalar {α : Type} {p : Unpack α} {f : α → Variant} (hf : ∀ a, (f a).AllValid) :
    Refines valueExpected ValidIfAny (do return .ofVariant (f (← p))) (do return .ofVariant (f (← p))) :=
  (Refines.refl p).bind fun a _ => Refines.pure fun _ => RpcValue.allValid_ofVariant (hf a)

mutual

/-- What is read strictly is read by the reader, and is valid at every depth. -/
theorem refines_read : (n : Nat) → Refines valueExpected ValidIfAny (rd.strictRead n) (rd.read n)
  | 0 => Refines.throw _
  | n + 1 => by
    rw [strictRead, read]
    refine (refines_readMetaData n).bind fun md hmd => (Refines.refl _).bind fun item _ => ?_
    exact (refines_readItem n item).bind fun val hval => refines_attachMetaData hmd hval

theorem refines_readItem : (n : Nat) → (item : CCpcpItem) →
    Refines valueExpected ValidIfAny (rd.strictReadItem n item) (rd.readItem n item)
  | 0, _ => Refines.throw _
  | n + 1, item => by
    have hpure : ∀ v : Variant, v.AllValid → Refines valueExpected ValidIfAny
        (return .ofVariant v : Unpack RpcValue) (return .ofVariant v) :=
      fun v hv => Refines.pure fun _ => RpcValue.allValid_ofVariant hv
    have hinvalid : Refines valueExpected ValidIfAny (return .invalid : Unpack RpcValue) (return .invalid) :=
      Refines.pure nofun
    cases item with
    | list =>
      exact (refines_parseList n [] nofun).bind fun vs hvs => Refines.pure fun _ =>
        RpcValue.allValid_ofVariant (allValidList_iff.mpr hvs)
    | map =>
      exact (refines_parseMap n [] nofun).bind fun m hm => Refines.pure fun _ =>
        RpcValue.allValid_ofVariant (allValidMap_iff.mpr hm)
    | imap =>
      exact (refines_parseIMap n [] nofun).bind fun m hm => Refines.pure fun _ =>
        RpcValue.allValid_ofVariant (allValidIMap_iff.mpr hm)
    | invalid => exact hinvalid
    | containerEnd => exact hinvalid
    | metaMap => exact refines_throwParseException _
    | string it => exact refines_scalar fun _ => trivial
    | blob it => exact refines_scalar fun _ => trivial
    | _ => exact hpure _ trivial

theorem refines_readMetaData : (n : Nat) →
    Refines valueExpected RpcMetaData.AllValid (rd.strictReadMetaData n) (rd.readMetaData n)
  | 0 => Refines.throw _
  | n + 1 => by
    rw [strictReadMetaData, readMetaData]
    refine (Refines.refl _).bind fun found _ => Refines.ite (fun _ => ?_) fun _ => ?_
    · exact refines_parseMetaData n .empty RpcMetaData.allValid_empty
    · exact Refines.pure RpcMetaData.allValid_empty

theorem refines_parseList : (n : Nat) → (lst : RpcList) → (∀ v ∈ lst, v.AllValid) →
    Refines valueExpected (fun vs => ∀ v ∈ vs, RpcValue.AllValid v) (rd.strictParseList n lst) (rd.parseList n lst)
  | 0, _, _ => Refines.throw _
  | n + 1, lst, hlst =>
    refines_loop (refines_read n) hlst fun v hv => Refines.guard fun hvalid =>
      refines_parseList n _ fun w hw => by
        rcases List.mem_append.mp hw with hw | hw
        · exact hlst w hw
        · obtain rfl := List.mem_singleton.mp hw
          exact hv hvalid

theorem refines_parseMetaData : (n : Nat) → (md : RpcMetaData) → md.AllValid →
    Refines valueExpected RpcMetaData.AllValid (rd.strictParseMetaData n md) (rd.parseMetaData n md)
  | 0, _, _ => Refines.throw _
  | n + 1, _, hmd =>
    refines_loop (refines_read n) hmd fun _ _ => (refines_read n).bind fun _ hval =>
      Refines.guard fun hvalid => Refines.ite
        (fun _ => refines_parseMetaData n _ (hmd.setSValue _ (hval hvalid)))
        fun _ => (Refines.refl _).bind fun key _ =>
          refines_parseMetaData n _ (hmd.setIValue key (hval hvalid))

theorem refines_parseMap : (n : Nat) → (map : RpcMap) → (∀ e ∈ map, e.2.AllValid) →
    Refines valueExpected (fun m => ∀ e ∈ m, RpcValue.AllValid e.2) (rd.strictParseMap n map) (rd.parseMap n map)
  | 0, _, _ => Refines.throw _
  | n + 1, _, hmap =>
    refines_loop (refines_read n) hmap fun _ _ => (refines_read n).bind fun _ hval =>
      Refines.guard fun hvalid => refines_parseMap n _ (allValid_insert hmap _ (hval hvalid))

theorem refines_parseIMap : (n : Nat) → (map : RpcIMap) → (∀ e ∈ map, e.2.AllValid) →
    Refines valueExpected (fun m => ∀ e ∈ m, RpcValue.AllValid e.2) (rd.strictParseIMap n map)
      (rd.parseIMap n map)
  | 0, _, _ => Refines.throw _
  | n + 1, _, hmap =>
    refines_loop (refines_read n) hmap fun _ _ => (refines_read n).bind fun _ hval =>
      Refines.guard fun hvalid => (Refines.refl _).bind fun key _ =>
        refines_parseIMap n _ (allValid_insert hmap key (hval hvalid))

end

/-- A value that is read strictly is the one that is read, and valid at every depth. -/
theorem of_strictReadFrom {input : Bytes} {v : RpcValue} {c : Cursor UnpackContext}
    (h : rd.strictReadFrom input = .ok v c) : rd.readFrom input = .ok v c ∧ v.AllValid := by
  obtain ⟨v', c', hread, hcheck⟩ := bind_eq_ok.mp h
  obtain ⟨hlenient, hvalid⟩ := (refines_read _).sound _ _ _ hread
  by_cases hv : v'.isValid = true
  · rw [if_pos hv] at hcheck
    obtain ⟨rfl, rfl⟩ : v' = v ∧ c' = c := by simpa using hcheck
    exact ⟨hlenient, hvalid hv⟩
  · rw [if_neg hv] at hcheck
    contradiction

/-- What is read is read strictly, unless there is no value in the place of one. -/
theorem strictReadFrom_of_readFrom {input : Bytes} {v : RpcValue} {c : Cursor UnpackContext}
    (h : rd.readFrom input = .ok v c) :
    rd.strictReadFrom input = .ok v c ∨ ∃ c', rd.strictReadFrom input = .error valueExpected c' := by
  rcases (refines_read _).complete _ _ _ h with hread | ⟨c', herr⟩
  · by_cases hv : v.isValid = true
    · exact .inl ((bind_of_ok hread).trans (by rw [if_pos hv]; rfl))
    · exact .inr ⟨c, (bind_of_ok hread).trans (by rw [if_neg hv]; rfl)⟩
  · exact .inr ⟨c', bind_of_error herr⟩

end LibShv.AbstractStreamReader
