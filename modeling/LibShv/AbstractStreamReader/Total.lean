import LibShv.AbstractStreamReader

/-!
# LibShv.AbstractStreamReader.Total

The recursion bound never runs out, a successful read leaves the context ready
for the next one, and more input does not change it.

Every item takes at least one byte, and so does every chunk of an unfinished
string. The rest is a count: at most three calls are nested between two bytes.
-/

namespace LibShv.AbstractStreamReader

open ByteReader

/-! ## where a reader stands -/

section States

-- `E` holds of the end flag: a reader that fails at the end of the stream never leaves it raised.
variable (E : Bool → Prop)

/-- Fewer than `k` bytes are left, and nothing is pending. -/
structure Within (k : Nat) (c : Cursor UnpackContext) : Prop where
  length : c.input.length < k
  atEnd : E c.atEnd
  ready : c.reg.Ready

/-- `item` has just been unpacked, with fewer than `k` bytes left. -/
structure Arrived (k : Nat) (item : CCpcpItem) (c : Cursor UnpackContext) : Prop where
  length : c.input.length < k
  atEnd : E c.atEnd
  errNo : c.reg.errNo = .ok
  item_eq : c.reg.item = item

/-- After looking for metadata: there may have been no byte to look at. -/
def WithinOrEnded (k : Nat) (c : Cursor UnpackContext) : Prop := Within E k c ∨ c.reg.errNo ≠ .ok

end States

variable {E : Bool → Prop}

theorem Within.mono {k l : Nat} {c : Cursor UnpackContext} (h : Within E k c) (hkl : k ≤ l) :
    Within E l c :=
  ⟨by have := h.length; omega, h.atEnd, h.ready⟩

theorem not_within_zero {c : Cursor UnpackContext} : ¬ Within E 0 c :=
  fun h => absurd h.length (Nat.not_lt_zero _)

theorem Arrived.within {k : Nat} {item : CCpcpItem} {c : Cursor UnpackContext}
    (h : Arrived E k item c) (hfin : item.Finished) : Within E k c :=
  ⟨h.length, h.atEnd, h.errNo, h.item_eq ▸ hfin⟩

theorem Arrived.mono {k l : Nat} {item : CCpcpItem} {c : Cursor UnpackContext}
    (h : Arrived E k item c) (hkl : k ≤ l) : Arrived E l item c :=
  ⟨by have := h.length; omega, h.atEnd, h.errNo, h.item_eq⟩

/-- Items and chunks take a byte each, and no failure is the recursion bound's. -/
structure Progress (rd : AbstractStreamReader) (E : Bool → Prop) : Prop where
  unpackNext : ∀ k, Triple (Within E k) rd.unpackNext
    (fun item c => Arrived E (k - 1) item c ∧ item.Live) (· ≠ .outOfFuel)
  unpackNext_ended : ∀ c : Cursor UnpackContext, c.reg.errNo ≠ .ok →
    ∃ e c', rd.unpackNext c = .error e c' ∧ e ≠ .outOfFuel
  unpackNext_string : ∀ k (it : CCpcpString), it.Live → it.lastChunk = false →
    Triple (Arrived E k (.string it)) rd.unpackNext
      (fun item c => Arrived E (k - 1) item c ∧ item.Live) (· ≠ .outOfFuel)
  unpackNext_blob : ∀ k (it : CCpcpString), it.Live → it.lastChunk = false →
    Triple (Arrived E k (.blob it)) rd.unpackNext
      (fun item c => Arrived E (k - 1) item c ∧ item.Live) (· ≠ .outOfFuel)
  metaDataBegin : ∀ k, Triple (Within E k) rd.metaDataBegin
    (fun found c => if found then Within E (k - 1) c else WithinOrEnded E k c) (· ≠ .outOfFuel)
  parseException : ∀ ctx msg, rd.parseException ctx msg ≠ .outOfFuel

variable {rd : AbstractStreamReader}

/-! ## strings and blobs -/

/-- The chunks take a byte each, so the loop ends before its bound. -/
theorem triple_readChunks {wrap : CCpcpString → CCpcpItem}
    {select : CCpcpItem → Option CCpcpString} (h : Progress rd E)
    (hnext : ∀ k (it : CCpcpString), it.Live → it.lastChunk = false →
      Triple (Arrived E k (wrap it)) rd.unpackNext
        (fun item c => Arrived E (k - 1) item c ∧ item.Live) (· ≠ .outOfFuel))
    (hselect : ∀ item it, select item = some it → item = wrap it)
    (hlive : ∀ it, (wrap it).Live → it.Live)
    (hfin : ∀ it, it.lastChunk = true → (wrap it).Finished) (msg : String)
    (n k : Nat) (hn : k ≤ n) (str : Bytes) (it : CCpcpString) (hit : it.Live) :
    Triple (Arrived E k (wrap it)) (rd.readChunks select msg n str it)
      (fun _ => Within E k) (· ≠ .outOfFuel) := by
  induction n generalizing k str it with
  | zero =>
    intro c hc
    have := hc.length
    omega
  | succ n ih =>
    rw [readChunks]
    by_cases hlast : it.lastChunk = true
    · rw [if_pos hlast]
      exact Triple.pure fun c hc => hc.within (hfin it hlast)
    · rw [if_neg hlast]
      refine (hnext k it hit (by simpa using hlast)).bind fun item => ?_
      cases hs : select item with
      | none => exact fun _ _ => h.parseException _ _
      | some a =>
        obtain rfl := hselect item a hs
        intro c hc
        exact (ih (k - 1) (by omega) _ a (hlive a hc.2)).imp (fun _ h => h)
          (fun _ _ h => h.mono (by omega)) (fun _ h => h) c hc.1

theorem string?_eq_some {item : CCpcpItem} {it : CCpcpString} (h : item.string? = some it) :
    item = .string it := by
  cases item with
  | string a => exact congrArg CCpcpItem.string (by simpa [CCpcpItem.string?] using h)
  | _ => contradiction

theorem blob?_eq_some {item : CCpcpItem} {it : CCpcpString} (h : item.blob? = some it) :
    item = .blob it := by
  cases item with
  | blob a => exact congrArg CCpcpItem.blob (by simpa [CCpcpItem.blob?] using h)
  | _ => contradiction

/-! ## the recursion -/

theorem triple_unpackNext_ended (h : Progress rd E) (k : Nat) :
    Triple (WithinOrEnded E k) rd.unpackNext
      (fun item c => Arrived E (k - 1) item c ∧ item.Live) (· ≠ .outOfFuel) := by
  rintro c (hc | hc)
  · exact h.unpackNext k c hc
  · obtain ⟨e, c', he, hne⟩ := h.unpackNext_ended c hc
    rw [he]
    exact hne

theorem triple_attachMetaData (h : Progress rd E) (k : Nat) (md : RpcMetaData) (val : RpcValue) :
    Triple (Within E k) (rd.attachMetaData md val) (fun _ => Within E k) (· ≠ .outOfFuel) := by
  rw [attachMetaData]
  refine Triple.ite (Triple.pure fun _ h => h) (Triple.ite (Triple.pure fun _ h => h) ?_)
  exact fun _ _ => h.parseException _ _

theorem triple_liftRuntime {α : Type} (k : Nat) (x : Except String α) :
    Triple (Within E k) (liftRuntime x) (fun _ => Within E k) (· ≠ .outOfFuel) := by
  cases x with
  | ok a => exact Triple.pure fun _ h => h
  | error msg => exact fun _ _ => nofun

/-- The body of a container loop, for any way to go on with the value. -/
theorem triple_loop {α : Type} {k n : Nat} {a : α} {next : RpcValue → Unpack α}
    (hread : Triple (Within E k) (rd.read n) (fun _ => Within E (k - 1)) (· ≠ .outOfFuel))
    (hnext : ∀ v, Triple (Within E (k - 1)) (next v) (fun _ => Within E (k - 1)) (· ≠ .outOfFuel)) :
    Triple (Within E k) (do
      let v ← rd.read n
      if (← getItem) = .containerEnd then
        endContainer
        return a
      else next v) (fun _ => Within E (k - 1)) (· ≠ .outOfFuel) := by
  refine hread.bind fun v c hc => ?_
  rw [bind_of_ok (getItem_apply c)]
  by_cases h : c.reg.item = .containerEnd
  · rw [if_pos h]
    exact ⟨hc.length, hc.atEnd, hc.ready.errNo, trivial⟩
  · rw [if_neg h]
    exact hnext v c hc

mutual

/-- `read` takes at least a byte, ends between two items, and does not run out of its bound. -/
theorem triple_read (hp : Progress rd E) : (n k : Nat) → 3 * k ≤ n + 1 →
    Triple (Within E k) (rd.read n) (fun _ => Within E (k - 1)) (· ≠ .outOfFuel)
  | 0, k, hn => by
    obtain rfl : k = 0 := by omega
    exact fun c hc => absurd hc not_within_zero
  | n + 1, k, hn => by
    rw [read]
    refine (triple_readMetaData hp n k (by omega)).bind fun md => ?_
    refine (triple_unpackNext_ended hp k).bind fun item => ?_
    refine Triple.bind ?_ fun val => triple_attachMetaData hp (k - 1) md val
    by_cases hlive : 0 < k ∧ item.Live
    · exact (triple_readItem hp n (k - 1) item (by omega) hlive.2).imp (fun _ h => h.1)
        (fun _ _ h => h) fun _ h => h
    · intro c hc
      exact absurd ⟨by have := hc.1.length; omega, hc.2⟩ hlive

theorem triple_readItem (hp : Progress rd E) : (n k : Nat) → (item : CCpcpItem) → 3 * k + 1 ≤ n → item.Live →
    Triple (Arrived E k item) (rd.readItem n item) (fun _ => Within E k) (· ≠ .outOfFuel)
  | 0, k, item, hn, _ => by omega
  | n + 1, k, item, hn, hlive => by
    have hscalar : ∀ v : RpcValue, item.Finished →
        Triple (Arrived E k item) (return v : Unpack RpcValue) (fun _ => Within E k)
          (· ≠ .outOfFuel) :=
      fun v hfin => Triple.pure fun c hc => hc.within hfin
    have hwrap : ∀ {α : Type} {p : Unpack α} {f : α → RpcValue} {P : Cursor UnpackContext → Prop},
        Triple P p (fun _ => Within E k) (· ≠ .outOfFuel) →
        Triple P (do return f (← p)) (fun _ => Within E k) (· ≠ .outOfFuel) :=
      fun hp => hp.bind fun _ => Triple.pure fun _ h => h
    have hloop : ∀ {α : Type} {p : Unpack α}, item.Finished →
        Triple (Within E k) p (fun _ => Within E (k - 1)) (· ≠ .outOfFuel) →
        Triple (Arrived E k item) p (fun _ => Within E k) (· ≠ .outOfFuel) :=
      fun hfin hp => hp.imp (fun c hc => hc.within hfin) (fun _ _ h => h.mono (Nat.sub_le k 1))
        fun _ h => h
    cases item with
    | list => exact hwrap (hloop trivial (triple_parseList hp n k [] (by omega)))
    | map => exact hwrap (hloop trivial (triple_parseMap hp n k [] (by omega)))
    | imap => exact hwrap (hloop trivial (triple_parseIMap hp n k [] (by omega)))
    | string it =>
      exact hwrap (triple_readChunks hp hp.unpackNext_string (fun _ _ => string?_eq_some)
        (fun _ h => h) (fun _ h => h) _ n k (by omega) [] it hlive)
    | blob it =>
      exact hwrap (triple_readChunks hp hp.unpackNext_blob (fun _ _ => blob?_eq_some)
        (fun _ h => h) (fun _ h => h) _ n k (by omega) [] it hlive)
    | metaMap => exact fun _ _ => hp.parseException _ _
    | _ => exact hscalar _ trivial

theorem triple_readMetaData (hp : Progress rd E) : (n k : Nat) → 3 * k ≤ n + 2 →
    Triple (Within E k) (rd.readMetaData n) (fun _ => WithinOrEnded E k) (· ≠ .outOfFuel)
  | 0, k, hn => by
    obtain rfl : k = 0 := by omega
    exact fun c hc => absurd hc not_within_zero
  | n + 1, k, hn => by
    rw [readMetaData]
    refine (hp.metaDataBegin k).bind fun found => ?_
    cases found with
    | true =>
      exact (triple_parseMetaData hp n (k - 1) .empty (by omega)).imp (fun _ h => h)
        (fun _ _ h => .inl (h.mono (by omega))) fun _ h => h
    | false => exact Triple.pure fun _ h => h

theorem triple_parseList (hp : Progress rd E) : (n k : Nat) → (lst : RpcList) → 3 * k ≤ n →
    Triple (Within E k) (rd.parseList n lst) (fun _ => Within E (k - 1)) (· ≠ .outOfFuel)
  | 0, k, lst, hn => by
    obtain rfl : k = 0 := by omega
    exact fun c hc => absurd hc not_within_zero
  | n + 1, k, lst, hn => by
    refine triple_loop (triple_read hp n k (by omega)) fun v => ?_
    exact (triple_parseList hp n (k - 1) _ (by omega)).imp (fun _ h => h)
      (fun _ _ h => h.mono (by omega)) fun _ h => h

theorem triple_parseMetaData (hp : Progress rd E) : (n k : Nat) → (md : RpcMetaData) → 3 * k ≤ n →
    Triple (Within E k) (rd.parseMetaData n md) (fun _ => Within E (k - 1)) (· ≠ .outOfFuel)
  | 0, k, md, hn => by
    obtain rfl : k = 0 := by omega
    exact fun c hc => absurd hc not_within_zero
  | n + 1, k, md, hn => by
    refine triple_loop (triple_read hp n k (by omega)) fun key => ?_
    refine (triple_read hp n (k - 1) (by omega)).bind fun val => ?_
    have hgo : ∀ md, Triple (Within E (k - 1 - 1)) (rd.parseMetaData n md)
        (fun _ => Within E (k - 1)) (· ≠ .outOfFuel) := fun md =>
      (triple_parseMetaData hp n (k - 1 - 1) md (by omega)).imp (fun _ h => h)
        (fun _ _ h => h.mono (by omega)) fun _ h => h
    exact Triple.ite (hgo _) ((triple_liftRuntime _ _).bind fun _ => hgo _)

theorem triple_parseMap (hp : Progress rd E) : (n k : Nat) → (map : RpcMap) → 3 * k ≤ n →
    Triple (Within E k) (rd.parseMap n map) (fun _ => Within E (k - 1)) (· ≠ .outOfFuel)
  | 0, k, map, hn => by
    obtain rfl : k = 0 := by omega
    exact fun c hc => absurd hc not_within_zero
  | n + 1, k, map, hn => by
    refine triple_loop (triple_read hp n k (by omega)) fun key => ?_
    refine (triple_read hp n (k - 1) (by omega)).bind fun val => ?_
    exact (triple_parseMap hp n (k - 1 - 1) _ (by omega)).imp (fun _ h => h)
      (fun _ _ h => h.mono (by omega)) fun _ h => h

theorem triple_parseIMap (hp : Progress rd E) : (n k : Nat) → (map : RpcIMap) → 3 * k ≤ n →
    Triple (Within E k) (rd.parseIMap n map) (fun _ => Within E (k - 1)) (· ≠ .outOfFuel)
  | 0, k, map, hn => by
    obtain rfl : k = 0 := by omega
    exact fun c hc => absurd hc not_within_zero
  | n + 1, k, map, hn => by
    refine triple_loop (triple_read hp n k (by omega)) fun key => ?_
    refine (triple_read hp n (k - 1) (by omega)).bind fun val => ?_
    refine (triple_liftRuntime _ _).bind fun key => ?_
    exact (triple_parseIMap hp n (k - 1 - 1) _ (by omega)).imp (fun _ h => h)
      (fun _ _ h => h.mono (by omega)) fun _ h => h

end

/-- On a stream the recursion bound is not reached, and a successful read took at least a byte. -/
theorem triple_readFrom (hp : Progress rd E) (hE : E false) (input : Bytes) :
    Triple (· = openStream input) (rd.read (fuelFor input.length))
      (fun _ => Within E input.length) (· ≠ .outOfFuel) :=
  (triple_read hp _ (input.length + 1) (by rw [fuelFor]; omega)).imp
    (fun c hc => by rw [hc]; exact ⟨Nat.lt_succ_self _, hE, rfl, trivial⟩) (fun _ _ h => h)
    fun _ h => h

/-- What a successful read leaves. -/
theorem within_of_readFrom (hp : Progress rd E) (hE : E false) {input : Bytes} {v : RpcValue}
    {c : Cursor UnpackContext} (h : rd.readFrom input = .ok v c) : Within E input.length c :=
  (triple_readFrom hp hE input).of_ok rfl h

/-- The recursion bound is never reached. -/
theorem read_ne_outOfFuel (hp : Progress rd E) (hE : E false) (input : Bytes) (c : Cursor UnpackContext) :
    rd.readFrom input ≠ .error .outOfFuel c :=
  fun h => (triple_readFrom hp hE input).of_error rfl h rfl

/-! ## more input -/

/-- More input does not change what the parts of the reader return. -/
structure Stable (rd : AbstractStreamReader) : Prop where
  unpackNext : Extends rd.unpackNext rd.unpackNext
  metaDataBegin : Extends rd.metaDataBegin rd.metaDataBegin

theorem extends_throwParseException {α : Type} (msg : String) (q : Unpack α) :
    Extends (rd.throwParseException msg : Unpack α) q := by
  intro c a c' h
  contradiction

theorem extends_loop {α : Type} {p q : Unpack RpcValue} {a : α} {next next' : RpcValue → Unpack α}
    (hread : Extends p q) (hnext : ∀ v, Extends (next v) (next' v)) :
    Extends
      (do
        let v ← p
        if (← getItem) = .containerEnd then
          endContainer
          return a
        else next v)
      (do
        let v ← q
        if (← getItem) = .containerEnd then
          endContainer
          return a
        else next' v) := by
  refine hread.bind fun v => solid_getItem.ext.bind fun item => Extends.ite ?_ (hnext v)
  exact (solid_setItem _).ext.bind fun _ => Extends.pure a

theorem extends_attachMetaData (md : RpcMetaData) (val : RpcValue) :
    Extends (rd.attachMetaData md val) (rd.attachMetaData md val) :=
  Extends.ite (Extends.pure _) (Extends.ite (Extends.pure _)
    (Extends.getReg.bind fun _ => extends_throwParseException _ _))

theorem extends_liftRuntime {α : Type} (x : Except String α) :
    Extends (liftRuntime x) (liftRuntime x) := by
  cases x with
  | ok a => exact Extends.pure a
  | error msg => exact Extends.throw _ _

theorem extends_readChunks (hs : Stable rd) (select : CCpcpItem → Option CCpcpString) (msg : String) {n m : Nat}
    (hnm : n ≤ m) (str : Bytes) (it : CCpcpString) :
    Extends (rd.readChunks select msg n str it) (rd.readChunks select msg m str it) := by
  induction n generalizing m str it with
  | zero => exact Extends.throw _ _
  | succ n ih =>
    obtain ⟨m, rfl⟩ : ∃ k, m = k + 1 := ⟨m - 1, by omega⟩
    rw [readChunks, readChunks]
    refine Extends.ite (Extends.pure _) (hs.unpackNext.bind fun item => ?_)
    cases select item with
    | none => exact extends_throwParseException _ _
    | some it => exact ih (by omega) _ it

mutual

/-- A value read without touching the end of the input is read from every
longer input, with the same or a larger recursion bound. -/
theorem extends_read (hs : Stable rd) : (n m : Nat) → n ≤ m → Extends (rd.read n) (rd.read m)
  | 0, _, _ => Extends.throw _ _
  | n + 1, m, h => by
    obtain ⟨m, rfl⟩ : ∃ k, m = k + 1 := ⟨m - 1, by omega⟩
    rw [read, read]
    refine (extends_readMetaData hs n m (by omega)).bind fun md => ?_
    refine hs.unpackNext.bind fun item => ?_
    exact (extends_readItem hs n m (by omega) item).bind fun val => extends_attachMetaData md val

theorem extends_readItem (hs : Stable rd) : (n m : Nat) → n ≤ m → (item : CCpcpItem) →
    Extends (rd.readItem n item) (rd.readItem m item)
  | 0, _, _, _ => Extends.throw _ _
  | n + 1, m, h, item => by
    obtain ⟨m, rfl⟩ : ∃ k, m = k + 1 := ⟨m - 1, by omega⟩
    have hnm : n ≤ m := by omega
    have hwrap : ∀ {α : Type} {p q : Unpack α} {f : α → RpcValue}, Extends p q →
        Extends (do return f (← p)) (do return f (← q)) :=
      fun hp => hp.bind fun _ => Extends.pure _
    cases item with
    | list => exact hwrap (extends_parseList hs n m hnm [])
    | map => exact hwrap (extends_parseMap hs n m hnm [])
    | imap => exact hwrap (extends_parseIMap hs n m hnm [])
    | string it => exact hwrap (extends_readChunks hs _ _ hnm [] it)
    | blob it => exact hwrap (extends_readChunks hs _ _ hnm [] it)
    | metaMap => exact extends_throwParseException _ _
    | _ => exact Extends.pure _

theorem extends_readMetaData (hs : Stable rd) : (n m : Nat) → n ≤ m →
    Extends (rd.readMetaData n) (rd.readMetaData m)
  | 0, _, _ => Extends.throw _ _
  | n + 1, m, h => by
    obtain ⟨m, rfl⟩ : ∃ k, m = k + 1 := ⟨m - 1, by omega⟩
    rw [readMetaData, readMetaData]
    refine hs.metaDataBegin.bind fun found => ?_
    exact Extends.ite (extends_parseMetaData hs n m (by omega) .empty) (Extends.pure _)

theorem extends_parseList (hs : Stable rd) : (n m : Nat) → n ≤ m → (lst : RpcList) →
    Extends (rd.parseList n lst) (rd.parseList m lst)
  | 0, _, _, _ => Extends.throw _ _
  | n + 1, m, h, lst => by
    obtain ⟨m, rfl⟩ : ∃ k, m = k + 1 := ⟨m - 1, by omega⟩
    exact extends_loop (extends_read hs n m (by omega)) fun v =>
      extends_parseList hs n m (by omega) _

theorem extends_parseMetaData (hs : Stable rd) : (n m : Nat) → n ≤ m → (md : RpcMetaData) →
    Extends (rd.parseMetaData n md) (rd.parseMetaData m md)
  | 0, _, _, _ => Extends.throw _ _
  | n + 1, m, h, md => by
    obtain ⟨m, rfl⟩ : ∃ k, m = k + 1 := ⟨m - 1, by omega⟩
    have hnm : n ≤ m := by omega
    refine extends_loop (extends_read hs n m hnm) fun key => (extends_read hs n m hnm).bind fun val => ?_
    refine Extends.ite (extends_parseMetaData hs n m hnm _) ?_
    exact (extends_liftRuntime _).bind fun key => extends_parseMetaData hs n m hnm _

theorem extends_parseMap (hs : Stable rd) : (n m : Nat) → n ≤ m → (map : RpcMap) →
    Extends (rd.parseMap n map) (rd.parseMap m map)
  | 0, _, _, _ => Extends.throw _ _
  | n + 1, m, h, map => by
    obtain ⟨m, rfl⟩ : ∃ k, m = k + 1 := ⟨m - 1, by omega⟩
    have hnm : n ≤ m := by omega
    exact extends_loop (extends_read hs n m hnm) fun key => (extends_read hs n m hnm).bind fun val =>
      extends_parseMap hs n m hnm _

theorem extends_parseIMap (hs : Stable rd) : (n m : Nat) → n ≤ m → (map : RpcIMap) →
    Extends (rd.parseIMap n map) (rd.parseIMap m map)
  | 0, _, _, _ => Extends.throw _ _
  | n + 1, m, h, map => by
    obtain ⟨m, rfl⟩ : ∃ k, m = k + 1 := ⟨m - 1, by omega⟩
    have hnm : n ≤ m := by omega
    refine extends_loop (extends_read hs n m hnm) fun key => (extends_read hs n m hnm).bind fun val => ?_
    exact (extends_liftRuntime _).bind fun key => extends_parseIMap hs n m hnm _

end

/-! ## a larger recursion bound -/

theorem approximates_loop {α : Type} {p q : Unpack RpcValue} {a : α} {next next' : RpcValue → Unpack α}
    (hread : Approximates .outOfFuel p q) (hnext : ∀ v, Approximates .outOfFuel (next v) (next' v)) :
    Approximates .outOfFuel
      (do
        let v ← p
        if (← getItem) = .containerEnd then
          endContainer
          return a
        else next v)
      (do
        let v ← q
        if (← getItem) = .containerEnd then
          endContainer
          return a
        else next' v) :=
  hread.bind fun v => (Approximates.refl _).bind fun _ => (Approximates.refl _).ite (hnext v)

theorem approximates_readChunks (select : CCpcpItem → Option CCpcpString) (msg : String) {n m : Nat}
    (hnm : n ≤ m) (str : Bytes) (it : CCpcpString) :
    Approximates .outOfFuel (rd.readChunks select msg n str it) (rd.readChunks select msg m str it) := by
  induction n generalizing m str it with
  | zero => exact Approximates.giveUp _
  | succ n ih =>
    obtain ⟨m, rfl⟩ : ∃ k, m = k + 1 := ⟨m - 1, by omega⟩
    rw [readChunks, readChunks]
    refine (Approximates.refl _).ite ((Approximates.refl _).bind fun item => ?_)
    cases select item with
    | none => exact Approximates.refl _
    | some it => exact ih (by omega) _ it

mutual

/-- A larger recursion bound changes nothing but the failures for want of it. -/
theorem approximates_read : (n m : Nat) → n ≤ m → Approximates .outOfFuel (rd.read n) (rd.read m)
  | 0, _, _ => Approximates.giveUp _
  | n + 1, m, h => by
    obtain ⟨m, rfl⟩ : ∃ k, m = k + 1 := ⟨m - 1, by omega⟩
    rw [read, read]
    refine (approximates_readMetaData n m (by omega)).bind fun md => ?_
    refine (Approximates.refl _).bind fun item => ?_
    exact (approximates_readItem n m (by omega) item).bind fun val => Approximates.refl _

theorem approximates_readItem : (n m : Nat) → n ≤ m → (item : CCpcpItem) →
    Approximates .outOfFuel (rd.readItem n item) (rd.readItem m item)
  | 0, _, _, _ => Approximates.giveUp _
  | n + 1, m, h, item => by
    obtain ⟨m, rfl⟩ : ∃ k, m = k + 1 := ⟨m - 1, by omega⟩
    have hnm : n ≤ m := by omega
    have hwrap : ∀ {α : Type} {p q : Unpack α} {f : α → RpcValue}, Approximates .outOfFuel p q →
        Approximates .outOfFuel (do return f (← p)) (do return f (← q)) :=
      fun hp => hp.bind fun _ => Approximates.refl _
    cases item with
    | list => exact hwrap (approximates_parseList n m hnm [])
    | map => exact hwrap (approximates_parseMap n m hnm [])
    | imap => exact hwrap (approximates_parseIMap n m hnm [])
    | string it => exact hwrap (approximates_readChunks _ _ hnm [] it)
    | blob it => exact hwrap (approximates_readChunks _ _ hnm [] it)
    | _ => exact Approximates.refl _

theorem approximates_readMetaData : (n m : Nat) → n ≤ m →
    Approximates .outOfFuel (rd.readMetaData n) (rd.readMetaData m)
  | 0, _, _ => Approximates.giveUp _
  | n + 1, m, h => by
    obtain ⟨m, rfl⟩ : ∃ k, m = k + 1 := ⟨m - 1, by omega⟩
    rw [readMetaData, readMetaData]
    refine (Approximates.refl _).bind fun found => ?_
    exact (approximates_parseMetaData n m (by omega) .empty).ite (Approximates.refl _)

theorem approximates_parseList : (n m : Nat) → n ≤ m → (lst : RpcList) →
    Approximates .outOfFuel (rd.parseList n lst) (rd.parseList m lst)
  | 0, _, _, _ => Approximates.giveUp _
  | n + 1, m, h, lst => by
    obtain ⟨m, rfl⟩ : ∃ k, m = k + 1 := ⟨m - 1, by omega⟩
    exact approximates_loop (approximates_read n m (by omega)) fun v =>
      approximates_parseList n m (by omega) _

theorem approximates_parseMetaData : (n m : Nat) → n ≤ m → (md : RpcMetaData) →
    Approximates .outOfFuel (rd.parseMetaData n md) (rd.parseMetaData m md)
  | 0, _, _, _ => Approximates.giveUp _
  | n + 1, m, h, md => by
    obtain ⟨m, rfl⟩ : ∃ k, m = k + 1 := ⟨m - 1, by omega⟩
    have hnm : n ≤ m := by omega
    refine approximates_loop (approximates_read n m hnm) fun key =>
      (approximates_read n m hnm).bind fun val => ?_
    refine (approximates_parseMetaData n m hnm _).ite ?_
    exact (Approximates.refl _).bind fun key => approximates_parseMetaData n m hnm _

theorem approximates_parseMap : (n m : Nat) → n ≤ m → (map : RpcMap) →
    Approximates .outOfFuel (rd.parseMap n map) (rd.parseMap m map)
  | 0, _, _, _ => Approximates.giveUp _
  | n + 1, m, h, map => by
    obtain ⟨m, rfl⟩ : ∃ k, m = k + 1 := ⟨m - 1, by omega⟩
    have hnm : n ≤ m := by omega
    exact approximates_loop (approximates_read n m hnm) fun key =>
      (approximates_read n m hnm).bind fun val => approximates_parseMap n m hnm _

theorem approximates_parseIMap : (n m : Nat) → n ≤ m → (map : RpcIMap) →
    Approximates .outOfFuel (rd.parseIMap n map) (rd.parseIMap m map)
  | 0, _, _, _ => Approximates.giveUp _
  | n + 1, m, h, map => by
    obtain ⟨m, rfl⟩ : ∃ k, m = k + 1 := ⟨m - 1, by omega⟩
    have hnm : n ≤ m := by omega
    refine approximates_loop (approximates_read n m hnm) fun key =>
      (approximates_read n m hnm).bind fun val => ?_
    exact (Approximates.refl _).bind fun key => approximates_parseIMap n m hnm _

end

end LibShv.AbstractStreamReader
