import LibShv.AbstractStreamReader

/-!
# LibShv.AbstractStreamReader.Encodes

What it means that bytes encode a value for a reader, and how encodings are put
together: metadata in front of a value, elements in a container, chunks in a string.

`rd.Encodes F bs v`: the reader takes exactly `bs` and returns `v`, if a byte of
`F` or nothing follows; on a proper prefix of `bs` it fails, or returns with the
end of the stream in sight. A format has to show how it skips to the first byte of
an item and what it unpacks there; the rest is the same for every format.
-/

namespace LibShv.AbstractStreamReader

open ByteReader

/-- No byte is excluded from following. -/
abbrev Any (_ : UInt8) : Prop := True

/-- How a reader behaves at the end of the stream. -/
structure Lawful (rd : AbstractStreamReader) : Prop where
  failsDead_unpackNext : FailsDead Dead Fault.Benign rd.unpackNext
  dead_metaDataBegin : ∀ c, Dead c → match rd.metaDataBegin c with
    | .ok found c' => found = false ∧ Dead c'
    | .error e _ => e.Benign
  isParse_parseException : ∀ ctx msg, (rd.parseException ctx msg).IsParse

variable {rd : AbstractStreamReader} {F : UInt8 → Prop}

theorem read_succ (n : Nat) :
    rd.read (n + 1) = rd.readMetaData n >>= fun md =>
      (rd.unpackNext >>= rd.readItem n) >>= rd.attachMetaData md := by
  simp only [bind_assoc]
  rfl

theorem readMetaData_succ (n : Nat) :
    rd.readMetaData (n + 1) = rd.metaDataBegin >>= fun found =>
      if found then rd.parseMetaData n .empty else return .empty := rfl

theorem readMetaData_of_none {n : Nat} {c c' : Cursor UnpackContext}
    (h : rd.metaDataBegin c = .ok false c') : rd.readMetaData (n + 1) c = .ok .empty c' := by
  rw [readMetaData_succ, bind_of_ok h]
  rfl

/-! ## at the end of the stream -/

namespace Lawful

variable (h : rd.Lawful)
include h

theorem dying_throwParseException {α : Type} (msg : String) :
    Dying Dead Fault.Benign (rd.throwParseException msg : Unpack α) :=
  fun c _ => (h.isParse_parseException c.reg msg).benign

/-- Nothing is read once the stream has ended: no metadata is found, and there is no item. -/
theorem failsDead_read (n : Nat) : FailsDead Dead Fault.Benign (rd.read n) := by
  intro c hc
  cases n with
  | zero => exact ⟨_, c, rfl, benign_outOfFuel⟩
  | succ n =>
    cases n with
    | zero => exact ⟨_, c, rfl, benign_outOfFuel⟩
    | succ n =>
      rw [read_succ]
      have hbegin := h.dead_metaDataBegin c hc
      cases hm : rd.metaDataBegin c with
      | error e c' =>
        rw [hm] at hbegin
        exact ⟨e, c', bind_of_error (bind_of_error hm), hbegin⟩
      | ok found c' =>
        rw [hm] at hbegin
        obtain ⟨rfl, hdead⟩ := hbegin
        rw [bind_of_ok (readMetaData_of_none hm)]
        exact h.failsDead_unpackNext.bind.bind c' hdead

theorem failsDead_parseList (n : Nat) (lst : RpcList) :
    FailsDead Dead Fault.Benign (rd.parseList n lst) := by
  cases n with
  | zero => exact fun c _ => ⟨_, c, rfl, benign_outOfFuel⟩
  | succ n => exact (h.failsDead_read n).bind

theorem failsDead_parseMetaData (n : Nat) (md : RpcMetaData) :
    FailsDead Dead Fault.Benign (rd.parseMetaData n md) := by
  cases n with
  | zero => exact fun c _ => ⟨_, c, rfl, benign_outOfFuel⟩
  | succ n => exact (h.failsDead_read n).bind

theorem failsDead_parseMap (n : Nat) (map : RpcMap) :
    FailsDead Dead Fault.Benign (rd.parseMap n map) := by
  cases n with
  | zero => exact fun c _ => ⟨_, c, rfl, benign_outOfFuel⟩
  | succ n => exact (h.failsDead_read n).bind

theorem failsDead_parseIMap (n : Nat) (map : RpcIMap) :
    FailsDead Dead Fault.Benign (rd.parseIMap n map) := by
  cases n with
  | zero => exact fun c _ => ⟨_, c, rfl, benign_outOfFuel⟩
  | succ n => exact (h.failsDead_read n).bind

theorem dying_readChunks (select : CCpcpItem → Option CCpcpString) (msg : String) (n : Nat)
    (str : Bytes) (it : CCpcpString) :
    Dying Dead Fault.Benign (rd.readChunks select msg n str it) := by
  cases n with
  | zero => exact fun _ _ => benign_outOfFuel
  | succ n =>
    rw [readChunks]
    by_cases hl : it.lastChunk = true
    · rw [if_pos hl]
      exact Dying.pure _
    · rw [if_neg hl]
      exact h.failsDead_unpackNext.bind.dying

theorem dying_readItem (n : Nat) (item : CCpcpItem) :
    Dying Dead Fault.Benign (rd.readItem n item) := by
  have hwrap : ∀ {α : Type} {p : Unpack α} (f : α → RpcValue), Dying Dead Fault.Benign p →
      Dying Dead Fault.Benign (do return f (← p)) :=
    fun _ hp => hp.bind fun _ => Dying.pure _
  cases n with
  | zero => exact fun _ _ => benign_outOfFuel
  | succ n =>
    cases item with
    | list => exact hwrap _ (h.failsDead_parseList n []).dying
    | map => exact hwrap _ (h.failsDead_parseMap n []).dying
    | imap => exact hwrap _ (h.failsDead_parseIMap n []).dying
    | string it => exact hwrap _ (h.dying_readChunks _ _ n [] it)
    | blob it => exact hwrap _ (h.dying_readChunks _ _ n [] it)
    | metaMap => exact h.dying_throwParseException _
    | _ => exact Dying.pure _

theorem dying_attachMetaData (md : RpcMetaData) (val : RpcValue) :
    Dying Dead Fault.Benign (rd.attachMetaData md val) := by
  intro c hc
  rw [attachMetaData]
  by_cases hm : md.isEmpty = true
  · rw [if_pos hm]
    exact hc
  · rw [if_neg hm]
    by_cases hv : val.isValid = true
    · rw [if_pos hv]
      exact hc
    · rw [if_neg hv]
      exact h.dying_throwParseException _ c hc

end Lawful

/-! ## one value -/

/-- After reading `v`: nothing is pending, and the end of a container was not met. -/
structure After (v a : RpcValue) (ctx : UnpackContext) : Prop where
  value : a = v
  ready : ctx.Ready
  item : ctx.item ≠ .containerEnd

/-- After unpacking `item`. -/
structure Unpacked (item a : CCpcpItem) (ctx : UnpackContext) : Prop where
  value : a = item
  item : ctx.item = item
  errNo : ctx.errNo = .ok

theorem dead_of_ready {c : Cursor UnpackContext} (he : c.atEnd = true) (hi : c.input = [])
    (hr : c.reg.Ready) : Dead c :=
  dead_of_live he hi hr.finished.live

theorem Unpacked.ready {item a : CCpcpItem} {ctx : UnpackContext} (h : Unpacked item a ctx)
    (hfin : item.Finished) : ctx.Ready :=
  ⟨h.errNo, h.item ▸ hfin⟩

variable (rd F)

/-- `bs` encodes `v`. -/
def Encodes (bs : Bytes) (v : RpcValue) : Prop :=
  bs ≠ [] ∧ ∀ n, 3 * bs.length ≤ n → Unpacks (rd.read n) bs F UnpackContext.Ready (After v)

/-- `bs` encodes `v` where metadata has been looked for. -/
def EncodesVariant (bs : Bytes) (v : Variant) : Prop :=
  ∀ n, 3 * bs.length ≤ n + 2 →
    Unpacks (rd.unpackNext >>= rd.readItem (n + 1)) bs F UnpackContext.Ready (After (.ofVariant v))

/-- `bs` is unpacked as `item`. -/
abbrev EncodesItem (bs : Bytes) (item : CCpcpItem) : Prop :=
  Unpacks rd.unpackNext bs F UnpackContext.Ready (Unpacked item)

/-- Looking for metadata takes `sep` and finds the byte `b`, which starts none. -/
structure Passes (sep : Bytes) (b : UInt8) : Prop where
  whole : ∀ c xs, c.input = sep ++ b :: xs → c.reg.Ready →
    ∃ last, rd.metaDataBegin c = .ok false { c with input := b :: xs, last := last }
  part : ∀ c ys, sep ++ [b] = c.input ++ ys → ys ≠ [] → c.atEnd = false → c.reg.Ready →
    ∃ c', rd.metaDataBegin c = .ok false c' ∧ Dead c'

/-- `bs` starts metadata. -/
abbrev Begins (bs : Bytes) : Prop :=
  Unpacks rd.metaDataBegin bs Any UnpackContext.Ready fun found ctx => found = true ∧ ctx.Ready

variable {rd F}

/-- Without metadata the first byte is looked at and left where it is. -/
theorem Passes.reads_read (hl : rd.Lawful) {n : Nat} {sep bs : Bytes} {b : UInt8}
    {Q : RpcValue → UnpackContext → Prop} (hp : rd.Passes sep b)
    (h : Unpacks (rd.unpackNext >>= rd.readItem (n + 1)) (b :: bs) F UnpackContext.Ready Q) :
    Unpacks (rd.read (n + 2)) (sep ++ b :: bs) F UnpackContext.Ready Q := by
  have hattach : rd.attachMetaData .empty = pure := by
    funext val
    rfl
  have hread : ∀ {c c' : Cursor UnpackContext}, rd.metaDataBegin c = .ok false c' →
      rd.read (n + 2) c = (rd.unpackNext >>= rd.readItem (n + 1)) c' := by
    intro c c' hm
    rw [read_succ, bind_of_ok (readMetaData_of_none hm), hattach, bind_pure]
  constructor
  · intro c rest hc hrest hP
    obtain ⟨last, hm⟩ := hp.whole c (bs ++ rest) (by simpa using hc) hP
    rw [hread hm]
    exact h.whole _ rest rfl hrest hP
  · intro c ys hc hys he hP
    have hc' : (sep ++ [b]) ++ bs = c.input ++ ys := by simpa using hc
    rcases append_cut hc' with ⟨zs, hzs, hz, -⟩ | ⟨xs, hx, hbs⟩
    · obtain ⟨c', hm, hdead⟩ := hp.part c zs hz hzs he hP
      rw [hread hm]
      exact hl.failsDead_unpackNext.bind.dying c' hdead
    · obtain ⟨last, hm⟩ := hp.whole c xs (by simpa using hx) hP
      rw [hread hm]
      exact h.part _ ys (by rw [hbs]; rfl) hys he hP

/-- A value without metadata. -/
theorem EncodesVariant.encodes (hl : rd.Lawful) {sep bs : Bytes} {b : UInt8} {v : Variant}
    (h : rd.EncodesVariant F (b :: bs) v) (hp : rd.Passes sep b) :
    rd.Encodes F (sep ++ b :: bs) (.ofVariant v) := by
  refine ⟨by simp, fun n hn => ?_⟩
  rw [List.length_append, List.length_cons] at hn
  obtain ⟨m, rfl⟩ : ∃ m, n = m + 2 := ⟨n - 2, by omega⟩
  exact hp.reads_read hl (h m (by rw [List.length_cons]; omega))

theorem reads_attachMetaData (hl : rd.Lawful) {p : Unpack RpcValue} {bs : Bytes} (md : RpcMetaData)
    {v : Variant} {P : UnpackContext → Prop} (hv : v.isValid = true)
    (h : Unpacks p bs F P (After (.ofVariant v))) :
    Unpacks (p >>= rd.attachMetaData md) bs F P (After (.mk md v)) := by
  rw [← List.append_nil bs]
  refine Reads.bind (fun a c he hi hQ => dead_of_ready he hi hQ.ready) h (fun a => ?_)
    (fun a => hl.dying_attachMetaData md a) (Follows.nil _) fun _ _ h => h
  have hattach : rd.attachMetaData md (.ofVariant v) = (return .mk md v : Unpack RpcValue) := by
    rw [attachMetaData]
    by_cases hm : md.isEmpty = true
    · rw [if_pos hm, RpcMetaData.isEmpty_iff.mp hm]
      rfl
    · rw [if_neg hm, RpcValue.isValid_ofVariant, if_pos hv]
      rfl
  refine (Reads.of_eq (p := rd.attachMetaData md)
    (P := fun ctx => ctx.Ready ∧ ctx.item ≠ .containerEnd) ?_ a).imp (fun _ h => h)
    (fun ctx h => ⟨h.value, h.ready, h.item⟩) fun _ _ h => h
  rw [hattach]
  exact Reads.pure fun ctx h => ⟨rfl, h.1, h.2⟩

/-! ## items -/

/-- Going on with an item. -/
theorem EncodesItem.bind (hl : rd.Lawful) {n : Nat} {bs bs' : Bytes} {item : CCpcpItem}
    {F' : UInt8 → Prop} {Q : RpcValue → UnpackContext → Prop} (h : rd.EncodesItem F' bs item)
    (hlive : item.Live)
    (hitem : Unpacks (rd.readItem n item) bs' F
      (fun ctx => ctx.item = item ∧ ctx.errNo = .ok) Q)
    (hF : Follows F' bs') (hF' : bs' = [] → ∀ b, F b → F' b) :
    Unpacks (rd.unpackNext >>= rd.readItem n) (bs ++ bs') F UnpackContext.Ready Q := by
  refine Reads.bind (fun a c he hi (hQ : Unpacked item a c.reg) =>
    dead_of_live he hi (by rw [hQ.item]; exact hlive)) h (fun a => ?_)
    (fun a => hl.dying_readItem n a) hF hF'
  exact (Reads.of_eq (p := rd.readItem n) hitem a).imp (fun _ h => h)
    (fun ctx h => ⟨h.value, h.item, h.errNo⟩) fun _ _ h => h

/-- An item that is a value by itself. -/
theorem EncodesItem.scalar (hl : rd.Lawful) {bs : Bytes} {item : CCpcpItem} {v : Variant}
    (h : rd.EncodesItem F bs item)
    (hv : ∀ n, rd.readItem (n + 1) item = (return .ofVariant v : Unpack RpcValue))
    (hfin : item.Finished) (hne : item ≠ .containerEnd) : rd.EncodesVariant F bs v := by
  intro n hn
  rw [← List.append_nil bs]
  refine h.bind hl hfin.live ?_ (Follows.nil F) fun _ _ h => h
  rw [hv]
  refine Reads.pure fun ctx h => ⟨rfl, ⟨h.2, h.1 ▸ hfin⟩, ?_⟩
  rw [h.1]
  exact hne

/-! ## container loops -/

/-- What a container loop leaves: its result, and the cleared item. -/
structure LoopEnd {α : Type} (v a : α) (ctx : UnpackContext) : Prop where
  value : a = v
  ready : ctx.Ready
  item : ctx.item ≠ .containerEnd

variable (rd F)

/-- `bs` is read as the end of a container. -/
def Ends (bs : Bytes) : Prop :=
  bs ≠ [] ∧ Follows F bs ∧ ∀ n, 3 * bs.length ≤ n →
    Unpacks (rd.read n) bs Any UnpackContext.Ready fun _ ctx =>
      ctx.Ready ∧ ctx.item = .containerEnd

/-- Bytes that encode the elements of a list, up to its end. -/
inductive EncodesList : Bytes → List RpcValue → Prop where
  | nil {bs : Bytes} : rd.Ends F bs → EncodesList bs []
  | cons {bs rest : Bytes} {v : RpcValue} {vs : List RpcValue} : rd.Encodes F bs v →
      Follows F rest → rest ≠ [] → EncodesList rest vs → EncodesList (bs ++ rest) (v :: vs)

/-- Bytes that encode pairs of a key and a value, up to the end of the container. -/
inductive EncodesEntries : Bytes → List (RpcValue × RpcValue) → Prop where
  | nil {bs : Bytes} : rd.Ends F bs → EncodesEntries bs []
  | cons {kbs vbs rest : Bytes} {k v : RpcValue} {m : List (RpcValue × RpcValue)} :
      rd.Encodes F kbs k → Follows F vbs → rd.Encodes F vbs v → Follows F rest → rest ≠ [] →
      EncodesEntries rest m → EncodesEntries (kbs ++ (vbs ++ rest)) ((k, v) :: m)

variable {rd F}

theorem Passes.ends (hl : rd.Lawful) {sep : Bytes} {b : UInt8} (hp : rd.Passes sep b)
    (h : rd.EncodesItem Any [b] .containerEnd) (hF : Follows F (sep ++ [b])) :
    rd.Ends F (sep ++ [b]) := by
  refine ⟨by simp, hF, fun n hn => ?_⟩
  rw [List.length_append, List.length_singleton] at hn
  obtain ⟨m, rfl⟩ : ∃ m, n = m + 2 := ⟨n - 2, by omega⟩
  refine hp.reads_read hl ?_
  rw [← List.append_nil [b]]
  refine h.bind hl trivial ?_ (Follows.nil _) fun _ _ h => h
  exact Reads.pure fun ctx h => ⟨⟨h.2, h.1 ▸ trivial⟩, h.1⟩

section Loops

variable {α : Type} {loop : Unpack α} {n : Nat} {a b : α} {next : RpcValue → Unpack α}

theorem dying_loopTail (hdying : ∀ x, Dying Dead Fault.Benign (next x)) (v : RpcValue) :
    Dying Dead Fault.Benign (do
      if (← getItem) = .containerEnd then
        endContainer
        return a
      else next v) := by
  intro c hc
  rw [bind_of_ok (getItem_apply c)]
  by_cases h : c.reg.item = .containerEnd
  · rw [if_pos h]
    exact ⟨hc.atEnd, hc.short, fun he => ⟨(hc.ended he).1, trivial⟩⟩
  · rw [if_neg h]
    exact hdying v c hc

/-- A loop that meets the end of its container. -/
theorem Ends.reads_loop {bs : Bytes} (h : rd.Ends F bs) (hn : 3 * bs.length ≤ n)
    (hdying : ∀ x, Dying Dead Fault.Benign (next x))
    (hloop : loop = (do
      let v ← rd.read n
      if (← getItem) = .containerEnd then
        endContainer
        return a
      else next v)) :
    Unpacks loop bs Any UnpackContext.Ready (LoopEnd a) := by
  rw [hloop, ← List.append_nil bs]
  refine Reads.bind (fun _ c he hi hQ => dead_of_ready he hi hQ.1) (h.2.2 n hn) (fun v => ?_)
    (dying_loopTail hdying) (Follows.nil _) fun _ _ h => h
  refine Reads.of_consumes_nil fun c rest hc _ ⟨hr, hitem⟩ => ?_
  refine ⟨a, { c with reg := { c.reg with item := .invalid } }, ?_, hc, .inl rfl,
    rfl, ⟨hr.errNo, trivial⟩, nofun⟩
  rw [bind_of_ok (getItem_apply c), if_pos hitem]
  rfl

/-- A loop that reads one more value. -/
theorem Encodes.reads_loop {v : RpcValue} {bs bs' : Bytes} (h : rd.Encodes F bs v)
    (hn : 3 * bs.length ≤ n) (hF : Follows F bs') (hne : bs' ≠ [])
    (hdying : ∀ x, Dying Dead Fault.Benign (next x))
    (hloop : loop = (do
      let v ← rd.read n
      if (← getItem) = .containerEnd then
        endContainer
        return a
      else next v))
    (hnext : Unpacks (next v) bs' Any UnpackContext.Ready (LoopEnd b)) :
    Unpacks loop (bs ++ bs') Any UnpackContext.Ready (LoopEnd b) := by
  rw [hloop]
  refine Reads.bind (fun _ c he hi hQ => dead_of_ready he hi hQ.ready) (h.2 n hn) (fun x => ?_)
    (dying_loopTail hdying) hF fun hnil => absurd hnil hne
  have hskip : ∀ c : Cursor UnpackContext, After v x c.reg →
      (do if (← getItem) = .containerEnd then
            endContainer
            return a
          else next x : Unpack α) c = next v c := by
    intro c h
    rw [bind_of_ok (getItem_apply c), if_neg h.item, h.value]
  constructor
  · intro c rest hc hrest hP
    rw [hskip c hP]
    exact hnext.whole c rest hc hrest hP.ready
  · intro c ys hc hys he hP
    rw [hskip c hP]
    exact hnext.part c ys hc hys he hP.ready

/-- Reading a value and going on with it in a loop. -/
theorem Encodes.reads_bind {g : RpcValue → Unpack α} {v : RpcValue} {bs bs' : Bytes}
    (h : rd.Encodes F bs v) (hn : 3 * bs.length ≤ n) (hF : Follows F bs') (hne : bs' ≠ [])
    (hdying : ∀ x, Dying Dead Fault.Benign (g x))
    (hg : Unpacks (g v) bs' Any UnpackContext.Ready (LoopEnd b)) :
    Unpacks (rd.read n >>= g) (bs ++ bs') Any UnpackContext.Ready (LoopEnd b) := by
  refine Reads.bind (fun _ c he hi hQ => dead_of_ready he hi hQ.ready) (h.2 n hn) (fun x => ?_)
    hdying hF fun hnil => absurd hnil hne
  exact (hg.of_eq (p := g) x).imp (fun _ h => h) (fun _ h => ⟨h.value, h.ready⟩) fun _ _ h => h

end Loops

theorem Encodes.length_pos {bs : Bytes} {v : RpcValue} (h : rd.Encodes F bs v) : 0 < bs.length :=
  List.length_pos_iff.mpr h.1

theorem EncodesEntries.ne_nil {bs : Bytes} {m : List (RpcValue × RpcValue)}
    (h : rd.EncodesEntries F bs m) : bs ≠ [] := by
  cases h with
  | nil hend => exact hend.1
  | cons hk => simp [hk.1]

theorem Ends.length_pos {bs : Bytes} (h : rd.Ends F bs) : 0 < bs.length :=
  List.length_pos_iff.mpr h.1

/-- The loop over a list. -/
theorem EncodesList.reads (hl : rd.Lawful) {bs : Bytes} {vs : List RpcValue}
    (h : rd.EncodesList F bs vs) (lst : RpcList) (n : Nat) (hn : 3 * bs.length + 1 ≤ n) :
    Unpacks (rd.parseList n lst) bs Any UnpackContext.Ready (LoopEnd (lst ++ vs)) := by
  induction h generalizing lst n with
  | nil hend =>
    obtain ⟨m, rfl⟩ : ∃ m, n = m + 1 := ⟨n - 1, by omega⟩
    rw [List.append_nil]
    exact hend.reads_loop (by omega) (fun x => (hl.failsDead_parseList m _).dying) rfl
  | @cons bs rest v vs hv hF hne _ ih =>
    have hpos := hv.length_pos
    rw [List.length_append] at hn
    obtain ⟨m, rfl⟩ : ∃ m, n = m + 1 := ⟨n - 1, by omega⟩
    have hrest := ih (lst ++ [v]) m (by omega)
    rw [List.append_assoc] at hrest
    exact hv.reads_loop (by omega) hF hne (fun x => (hl.failsDead_parseList m _).dying) rfl hrest

/-- The entries of a map, as the values that are read. -/
def mapEntries (m : RpcMap) : List (RpcValue × RpcValue) :=
  m.map fun e => (.ofVariant (.string e.1), e.2)

/-- The entries of an imap, as the values that are read. -/
def imapEntries (m : RpcIMap) : List (RpcValue × RpcValue) :=
  m.map fun e => (.ofVariant (.int e.1.toInt64), e.2)

theorem toInt_int (k : Int32) : (RpcValue.ofVariant (.int k.toInt64)).toInt = .ok k := by
  change Except.ok k.toInt64.toInt32 = Except.ok k
  rw [Int32.toInt32_toInt64]

/-- The loop over a map. -/
theorem EncodesEntries.reads_map (hl : rd.Lawful) {m : RpcMap} {bs : Bytes}
    (h : rd.EncodesEntries F bs (mapEntries m)) (done : RpcMap) (n : Nat)
    (hn : 3 * bs.length + 1 ≤ n) :
    Unpacks (rd.parseMap n done) bs Any UnpackContext.Ready (LoopEnd (SortedMap.insertAll done m)) := by
  induction m generalizing done n bs with
  | nil =>
    cases h with
    | nil hend =>
      obtain ⟨k, rfl⟩ : ∃ k, n = k + 1 := ⟨n - 1, by omega⟩
      exact hend.reads_loop (by omega) (fun x => (hl.failsDead_read k).bind.dying) rfl
  | cons e m ih =>
    obtain ⟨key, v⟩ := e
    cases h with
    | @cons kbs vbs rest _ _ _ hk hFk hv hF hne hrest =>
      have hkpos := hk.length_pos
      have hvpos := hv.length_pos
      rw [List.length_append, List.length_append] at hn
      obtain ⟨k, rfl⟩ : ∃ k, n = k + 1 := ⟨n - 1, by omega⟩
      have hrest' := ih hrest (SortedMap.insert key v done) k (by omega)
      refine hk.reads_loop (by omega) (Consumes.follows_append hFk (fun h => absurd h hv.1) hF)
        (by simp [hne]) (fun x => (hl.failsDead_read k).bind.dying) rfl ?_
      exact hv.reads_bind (by omega) hF hne (fun x => (hl.failsDead_parseMap k _).dying) hrest'

/-- The loop over an imap. -/
theorem EncodesEntries.reads_imap (hl : rd.Lawful) {m : RpcIMap} {bs : Bytes}
    (h : rd.EncodesEntries F bs (imapEntries m)) (done : RpcIMap) (n : Nat)
    (hn : 3 * bs.length + 1 ≤ n) :
    Unpacks (rd.parseIMap n done) bs Any UnpackContext.Ready
      (LoopEnd (SortedMap.insertAll done m)) := by
  induction m generalizing done n bs with
  | nil =>
    cases h with
    | nil hend =>
      obtain ⟨k, rfl⟩ : ∃ k, n = k + 1 := ⟨n - 1, by omega⟩
      exact hend.reads_loop (by omega) (fun x => (hl.failsDead_read k).bind.dying) rfl
  | cons e m ih =>
    obtain ⟨key, v⟩ := e
    cases h with
    | @cons kbs vbs rest _ _ _ hk hFk hv hF hne hrest =>
      have hkpos := hk.length_pos
      have hvpos := hv.length_pos
      rw [List.length_append, List.length_append] at hn
      obtain ⟨k, rfl⟩ : ∃ k, n = k + 1 := ⟨n - 1, by omega⟩
      have hrest' := ih hrest (SortedMap.insert key v done) k (by omega)
      refine hk.reads_loop (by omega) (Consumes.follows_append hFk (fun h => absurd h hv.1) hF)
        (by simp [hne]) (fun x => (hl.failsDead_read k).bind.dying) rfl ?_
      rw [toInt_int]
      exact hv.reads_bind (by omega) hF hne (fun x => (hl.failsDead_parseIMap k _).dying) hrest'

/-! ## containers -/

/-- A container: what its loop collects becomes the value. -/
theorem EncodesItem.container (hl : rd.Lawful) {α : Type} {n : Nat} {bs body : Bytes}
    {item : CCpcpItem} {loop : Unpack α} {f : α → Variant} {a : α} (h : rd.EncodesItem Any bs item)
    (hfin : item.Finished)
    (hv : rd.readItem (n + 1) item = (do return .ofVariant (f (← loop)) : Unpack RpcValue))
    (hloop : Unpacks loop body Any UnpackContext.Ready (LoopEnd a)) :
    Unpacks (rd.unpackNext >>= rd.readItem (n + 1)) (bs ++ body) F UnpackContext.Ready
      (After (.ofVariant (f a))) := by
  refine h.bind hl hfin.live ?_ (fun _ _ => trivial) fun _ _ _ => trivial
  rw [hv, ← List.append_nil body]
  refine Reads.bind (fun _ c he hi hQ => dead_of_ready he hi hQ.ready)
    (hloop.imp (fun _ h => h) (fun ctx h => ⟨h.2, h.1 ▸ hfin⟩) fun _ _ h => h) (fun x => ?_)
    (fun x => Dying.pure _) (Follows.nil _) fun _ _ _ => trivial
  exact Reads.pure fun ctx h => ⟨by rw [h.value], h.ready, h.item⟩

theorem EncodesItem.list (hl : rd.Lawful) {bs body : Bytes} {vs : List RpcValue}
    (h : rd.EncodesItem Any bs .list) (hne : bs ≠ []) (hbody : rd.EncodesList F body vs) :
    rd.EncodesVariant F (bs ++ body) (.list vs) := by
  intro n hn
  have hpos := List.length_pos_iff.mpr hne
  rw [List.length_append] at hn
  exact h.container hl (f := .list) trivial rfl (hbody.reads hl [] n (by omega))

/-- A map whose entries come in any order. -/
theorem EncodesItem.mapOf (hl : rd.Lawful) {bs body : Bytes} {m : RpcMap}
    (h : rd.EncodesItem Any bs .map) (hne : bs ≠ [])
    (hbody : rd.EncodesEntries F body (mapEntries m)) :
    rd.EncodesVariant F (bs ++ body) (.map (SortedMap.insertAll [] m)) := by
  intro n hn
  have hpos := List.length_pos_iff.mpr hne
  rw [List.length_append] at hn
  exact h.container hl (f := .map) trivial rfl (hbody.reads_map hl [] n (by omega))

theorem EncodesItem.imapOf (hl : rd.Lawful) {bs body : Bytes} {m : RpcIMap}
    (h : rd.EncodesItem Any bs .imap) (hne : bs ≠ [])
    (hbody : rd.EncodesEntries F body (imapEntries m)) :
    rd.EncodesVariant F (bs ++ body) (.imap (SortedMap.insertAll [] m)) := by
  intro n hn
  have hpos := List.length_pos_iff.mpr hne
  rw [List.length_append] at hn
  exact h.container hl (f := .imap) trivial rfl (hbody.reads_imap hl [] n (by omega))

theorem EncodesItem.map (hl : rd.Lawful) {bs body : Bytes} {m : RpcMap}
    (h : rd.EncodesItem Any bs .map) (hne : bs ≠ []) (hsort : SortedMap.Sorted m)
    (hbody : rd.EncodesEntries F body (mapEntries m)) :
    rd.EncodesVariant F (bs ++ body) (.map m) := by
  have hall : SortedMap.insertAll [] m = m := SortedMap.Sorted.insertAll (m := []) hsort
  exact hall ▸ h.mapOf hl hne hbody

theorem EncodesItem.imap (hl : rd.Lawful) {bs body : Bytes} {m : RpcIMap}
    (h : rd.EncodesItem Any bs .imap) (hne : bs ≠ []) (hsort : SortedMap.Sorted m)
    (hbody : rd.EncodesEntries F body (imapEntries m)) :
    rd.EncodesVariant F (bs ++ body) (.imap m) := by
  have hall : SortedMap.insertAll [] m = m := SortedMap.Sorted.insertAll (m := []) hsort
  exact hall ▸ h.imapOf hl hne hbody

/-! ## metadata -/

/-- A key of metadata: an integer or a string. -/
abbrev MetaKey := Int32 ⊕ Bytes

/-- The value a key is read as. -/
def metaKeyValue : MetaKey → RpcValue
  | .inl k => .ofVariant (.int k.toInt64)
  | .inr k => .ofVariant (.string k)

/-- The entries of metadata in any order, as the values that are read. -/
def metaEntries (m : List (MetaKey × RpcValue)) : List (RpcValue × RpcValue) :=
  m.map fun e => (metaKeyValue e.1, e.2)

/-- Set a value under either kind of key. -/
def setMetaValue (md : RpcMetaData) (key : MetaKey) (val : RpcValue) : RpcMetaData :=
  match key with
  | .inl k => md.setIValue k val
  | .inr k => md.setSValue k val

/-- Set the entries one after another. -/
def setMetaValues (md : RpcMetaData) (m : List (MetaKey × RpcValue)) : RpcMetaData :=
  m.foldl (fun md e => setMetaValue md e.1 e.2) md

/-- The loop over metadata. -/
theorem EncodesEntries.reads_metaData (hl : rd.Lawful) {m : List (MetaKey × RpcValue)} {bs : Bytes}
    (h : rd.EncodesEntries F bs (metaEntries m)) (md : RpcMetaData) (n : Nat)
    (hn : 3 * bs.length + 1 ≤ n) :
    Unpacks (rd.parseMetaData n md) bs Any UnpackContext.Ready (LoopEnd (setMetaValues md m)) := by
  induction m generalizing md n bs with
  | nil =>
    cases h with
    | nil hend =>
      obtain ⟨k, rfl⟩ : ∃ k, n = k + 1 := ⟨n - 1, by omega⟩
      exact hend.reads_loop (by omega) (fun x => (hl.failsDead_read k).bind.dying) rfl
  | cons e m ih =>
    obtain ⟨key, v⟩ := e
    cases h with
    | @cons kbs vbs rest _ _ _ hk hFk hv hF hne hrest =>
      have hkpos := hk.length_pos
      have hvpos := hv.length_pos
      rw [List.length_append, List.length_append] at hn
      obtain ⟨k, rfl⟩ : ∃ k, n = k + 1 := ⟨n - 1, by omega⟩
      have hrest' := ih hrest (setMetaValue md key v) k (by omega)
      refine hk.reads_loop (by omega) (Consumes.follows_append hFk (fun h => absurd h hv.1) hF)
        (by simp [hne]) (fun x => (hl.failsDead_read k).bind.dying) rfl ?_
      have hnext : ∀ md', Dying Dead Fault.Benign (rd.parseMetaData k md') :=
        fun md' => (hl.failsDead_parseMetaData k md').dying
      cases key with
      | inl key =>
        simp only [metaKeyValue, toInt_int]
        exact hv.reads_bind (by omega) hF hne (fun x => hnext _) hrest'
      | inr key => exact hv.reads_bind (by omega) hF hne (fun x => hnext _) hrest'

/-- The entries of sorted metadata: integer keys first, then string keys. -/
theorem setMetaValues_sorted {im : RpcIMap} {sm : RpcMap} (hvalid : ∀ e ∈ im, e.2.isValid = true)
    (hvalid' : ∀ e ∈ sm, e.2.isValid = true) (hsort : SortedMap.Sorted im)
    (hsort' : SortedMap.Sorted sm) :
    setMetaValues .empty (im.map (fun e => (.inl e.1, e.2)) ++ sm.map fun e => (.inr e.1, e.2)) =
      .mk im sm := by
  have hint : ∀ (im : RpcIMap) (done : RpcIMap), (∀ e ∈ im, e.2.isValid = true) →
      setMetaValues (.mk done []) (im.map fun e => (.inl e.1, e.2)) =
        .mk (SortedMap.insertAll done im) [] := by
    intro im
    induction im with
    | nil => exact fun _ _ => rfl
    | cons e im ih =>
      intro done h
      have hset : setMetaValue (.mk done []) (.inl e.1) e.2 =
          .mk (SortedMap.insert e.1 e.2 done) [] := if_pos (h e List.mem_cons_self)
      rw [List.map_cons, setMetaValues, List.foldl_cons, hset]
      exact ih _ fun e he => h e (List.mem_cons_of_mem _ he)
  have hstring : ∀ (sm done : RpcMap), (∀ e ∈ sm, e.2.isValid = true) →
      setMetaValues (.mk im done) (sm.map fun e => (.inr e.1, e.2)) =
        .mk im (SortedMap.insertAll done sm) := by
    intro sm
    induction sm with
    | nil => exact fun _ _ => rfl
    | cons e sm ih =>
      intro done h
      have hset : setMetaValue (.mk im done) (.inr e.1) e.2 =
          .mk im (SortedMap.insert e.1 e.2 done) := if_pos (h e List.mem_cons_self)
      rw [List.map_cons, setMetaValues, List.foldl_cons, hset]
      exact ih _ fun e he => h e (List.mem_cons_of_mem _ he)
  have hall : SortedMap.insertAll [] im = im := SortedMap.Sorted.insertAll (m := []) hsort
  have hall' : SortedMap.insertAll [] sm = sm := SortedMap.Sorted.insertAll (m := []) hsort'
  have hfirst := hint im [] hvalid
  rw [hall] at hfirst
  have hrest := hstring sm [] hvalid'
  rw [hall'] at hrest
  rw [setMetaValues, List.foldl_append]
  exact (congrArg (setMetaValues · _) hfirst).trans hrest

variable (rd F)

/-- `bs` encodes non-empty metadata: its begin, and its entries up to the end. -/
inductive EncodesMetaData : Bytes → RpcMetaData → Prop where
  | intro {mbs body : Bytes} {im : RpcIMap} {sm : RpcMap} : rd.Begins mbs → mbs ≠ [] →
      rd.EncodesEntries F body (imapEntries im ++ mapEntries sm) →
      (∀ e ∈ im, e.2.isValid = true) → (∀ e ∈ sm, e.2.isValid = true) →
      SortedMap.Sorted im → SortedMap.Sorted sm → EncodesMetaData (mbs ++ body) (.mk im sm)

variable {rd F}

/-- Reading metadata: its begin, and its entries up to the end. -/
theorem EncodesEntries.reads_readMetaData (hl : rd.Lawful) {mbs body : Bytes}
    {m : List (MetaKey × RpcValue)} (hbody : rd.EncodesEntries F body (metaEntries m))
    (hbegin : rd.Begins mbs) (hne : mbs ≠ []) {n : Nat} (hn : 3 * (mbs ++ body).length ≤ n) :
    Unpacks (rd.readMetaData n) (mbs ++ body) Any UnpackContext.Ready fun a ctx =>
      a = setMetaValues .empty m ∧ ctx.Ready := by
  have hpos := List.length_pos_iff.mpr hne
  rw [List.length_append] at hn
  obtain ⟨k, rfl⟩ : ∃ k, n = k + 1 := ⟨n - 1, by omega⟩
  have hloop := hbody.reads_metaData hl .empty k (by omega)
  rw [readMetaData_succ]
  refine Reads.bind (fun a c he hi hQ => dead_of_ready he hi hQ.2) hbegin (fun found => ?_)
    (fun found => ?_) (fun _ _ => trivial) fun _ _ _ => trivial
  · refine (Reads.of_eq (p := fun found : Bool =>
      if found then rd.parseMetaData k .empty else return .empty) (a := true) ?_ found).imp
      (fun _ h => h) (fun ctx h => h) fun _ _ h => h
    exact hloop.imp (fun _ h => h) (fun _ h => h) fun a ctx h => ⟨h.value, h.ready⟩
  · cases found with
    | true => exact (hl.failsDead_parseMetaData k .empty).dying
    | false => exact Dying.pure _

/-- A value with metadata in front of it, whose entries come in any order. -/
theorem EncodesEntries.encodes (hl : rd.Lawful) {mbs body bs : Bytes}
    {m : List (MetaKey × RpcValue)} {v : Variant} (hbody : rd.EncodesEntries F body (metaEntries m))
    (hbegin : rd.Begins mbs) (hmbs : mbs ≠ []) (hv : rd.EncodesVariant F bs v) (hne : bs ≠ [])
    (hvalid : v.isValid = true) :
    rd.Encodes F ((mbs ++ body) ++ bs) (.mk (setMetaValues .empty m) v) := by
  have hpos := List.length_pos_iff.mpr hmbs
  have hbs := List.length_pos_iff.mpr hne
  refine ⟨by simp [hne], fun n hn => ?_⟩
  rw [List.length_append, List.length_append] at hn
  obtain ⟨k, rfl⟩ : ∃ k, n = k + 2 := ⟨n - 2, by omega⟩
  rw [read_succ]
  refine Reads.bind (fun a c he hi hQ => dead_of_ready he hi hQ.2)
    (hbody.reads_readMetaData hl hbegin hmbs (by rw [List.length_append]; omega))
    (fun a => ?_) (fun a => hl.failsDead_unpackNext.bind.bind.dying) (fun _ _ => trivial)
    fun _ _ _ => trivial
  exact (reads_attachMetaData hl _ hvalid (hv k (by omega))).of_eq (p := fun md =>
    (rd.unpackNext >>= rd.readItem (k + 1)) >>= rd.attachMetaData md) a

/-- Sorted metadata as entries of which the integer keys come first. -/
theorem EncodesMetaData.entries {bs : Bytes} {md : RpcMetaData} (h : rd.EncodesMetaData F bs md) :
    ∃ mbs body m, bs = mbs ++ body ∧ rd.Begins mbs ∧ mbs ≠ [] ∧
      rd.EncodesEntries F body (metaEntries m) ∧ setMetaValues .empty m = md := by
  obtain ⟨hbegin, hmbs, hbody, hims, hsms, hsort, hsort'⟩ := h
  rename_i mbs body im sm
  have hentries : imapEntries im ++ mapEntries sm =
      metaEntries (im.map (fun e => (.inl e.1, e.2)) ++ sm.map fun e => (.inr e.1, e.2)) := by
    rw [metaEntries, List.map_append, List.map_map, List.map_map]
    rfl
  exact ⟨mbs, body, _, rfl, hbegin, hmbs, hentries ▸ hbody,
    setMetaValues_sorted hims hsms hsort hsort'⟩

/-- Reading metadata. -/
theorem EncodesMetaData.reads (hl : rd.Lawful) {bs : Bytes} {md : RpcMetaData}
    (h : rd.EncodesMetaData F bs md) {n : Nat} (hn : 3 * bs.length ≤ n) :
    Unpacks (rd.readMetaData n) bs Any UnpackContext.Ready fun a ctx => a = md ∧ ctx.Ready := by
  obtain ⟨mbs, body, m, rfl, hbegin, hmbs, hbody, rfl⟩ := h.entries
  exact hbody.reads_readMetaData hl hbegin hmbs hn

/-- A value with metadata in front of it. -/
theorem EncodesMetaData.encodes (hl : rd.Lawful) {mbs bs : Bytes} {md : RpcMetaData} {v : Variant}
    (h : rd.EncodesMetaData F mbs md) (hv : rd.EncodesVariant F bs v) (hne : bs ≠ [])
    (hvalid : v.isValid = true) : rd.Encodes F (mbs ++ bs) (.mk md v) := by
  obtain ⟨mbs, body, m, rfl, hbegin, hmbs, hbody, rfl⟩ := h.entries
  exact hbody.encodes hl hbegin hmbs hv hne hvalid

/-! ## strings and blobs -/

/-- The two kinds of items that come in chunks. -/
structure ChunkKind (wrap : CCpcpString → CCpcpItem)
    (select : CCpcpItem → Option CCpcpString) : Prop where
  select_wrap : ∀ it, select (wrap it) = some it
  finished_wrap : ∀ it, it.lastChunk = true → (wrap it).Finished
  live_wrap : ∀ it, it.Live → (wrap it).Live
  wrap_ne : ∀ it, wrap it ≠ .containerEnd

theorem chunkKind_string : ChunkKind CCpcpItem.string CCpcpItem.string? where
  select_wrap _ := rfl
  finished_wrap _ h := h
  live_wrap _ h := h
  wrap_ne _ := nofun

theorem chunkKind_blob : ChunkKind CCpcpItem.blob CCpcpItem.blob? where
  select_wrap _ := rfl
  finished_wrap _ h := h
  live_wrap _ h := h
  wrap_ne _ := nofun

variable (rd) in
/-- The chunk `it` and, if it is not the last one, the chunks unpacked from `bs` make up `s`. -/
inductive Chunks (wrap : CCpcpString → CCpcpItem) : CCpcpString → Bytes → Bytes → Prop where
  | last {it : CCpcpString} : it.lastChunk = true → Chunks wrap it [] it.chunk
  | more {it it' : CCpcpString} {bs rest s : Bytes} : it.lastChunk = false → it'.Live → bs ≠ [] →
      Unpacks rd.unpackNext bs Any (fun ctx => ctx.item = wrap it ∧ ctx.errNo = .ok)
        (Unpacked (wrap it')) →
      Chunks wrap it' rest s → Chunks wrap it (bs ++ rest) (it.chunk ++ s)

section Chunks

variable {wrap : CCpcpString → CCpcpItem} {select : CCpcpItem → Option CCpcpString}

/-- After a string: it is complete and nothing is pending. -/
def Complete (wrap : CCpcpString → CCpcpItem) (ctx : UnpackContext) : Prop :=
  ctx.errNo = .ok ∧ ∃ it, ctx.item = wrap it ∧ it.lastChunk = true

/-- The loop collects the chunks. The induction is on the chunks. -/
theorem Chunks.reads (hl : rd.Lawful) (kind : ChunkKind wrap select) (msg : String)
    {it : CCpcpString} {bs s : Bytes} (h : rd.Chunks wrap it bs s) (n : Nat) (hn : bs.length < n)
    (str : Bytes) :
    Unpacks (rd.readChunks select msg n str it) bs Any
      (fun ctx => ctx.item = wrap it ∧ ctx.errNo = .ok)
      fun a ctx => a = str ++ s ∧ Complete wrap ctx := by
  induction h generalizing n str with
  | @last it hlast =>
    obtain ⟨n, rfl⟩ : ∃ k, n = k + 1 := ⟨n - 1, by omega⟩
    rw [readChunks, if_pos hlast]
    exact Reads.pure fun ctx h => ⟨rfl, h.2, it, h.1, hlast⟩
  | @more it it' bs rest s hlast hlive hne hnext _ ih =>
    have hpos := List.length_pos_iff.mpr hne
    rw [List.length_append] at hn
    obtain ⟨n, rfl⟩ : ∃ k, n = k + 1 := ⟨n - 1, by omega⟩
    have hlast' : ¬ it.lastChunk = true := by rw [hlast]; nofun
    rw [readChunks, if_neg hlast']
    refine Reads.bind (fun a c he hi (hQ : Unpacked _ a c.reg) =>
        dead_of_live he hi (by rw [hQ.item]; exact kind.live_wrap it' hlive))
      hnext (fun a => ?_) (fun a => ?_) (fun _ _ => trivial) fun _ _ _ => trivial
    · by_cases ha : a = wrap it'
      · subst ha
        have hgo := ih n (by omega) (str ++ it.chunk)
        rw [List.append_assoc] at hgo
        rw [kind.select_wrap]
        exact hgo.imp (fun _ h => h) (fun ctx h => ⟨h.item, h.errNo⟩) fun _ _ h => h
      · exact Reads.of_not_pre fun ctx h => ha h.value
    · cases select a with
      | some it => exact hl.dying_readChunks _ _ _ _ _
      | none => exact hl.dying_throwParseException _

/-- A string or blob: its chunks are collected. -/
theorem Chunks.encodesVariant (hl : rd.Lawful) (kind : ChunkKind wrap select) (msg : String)
    (f : Bytes → Variant) {it : CCpcpString} {bs rest s : Bytes}
    (h : rd.EncodesItem Any bs (wrap it)) (hne : bs ≠ []) (hlive : it.Live)
    (hrest : rd.Chunks wrap it rest s)
    (hv : ∀ n, rd.readItem (n + 1) (wrap it) =
      (do return .ofVariant (f (← rd.readChunks select msg n [] it)) : Unpack RpcValue)) :
    rd.EncodesVariant F (bs ++ rest) (f s) := by
  intro n hn
  have hpos := List.length_pos_iff.mpr hne
  rw [List.length_append] at hn
  refine h.bind hl (kind.live_wrap it hlive) ?_ (fun _ _ => trivial) fun _ _ _ => trivial
  rw [hv, ← List.append_nil rest]
  have hloop := hrest.reads hl kind msg n (by omega) []
  refine Reads.bind (fun a c he hi hQ => ?_) hloop (fun a => ?_) (fun a => Dying.pure _)
    (Follows.nil _) fun _ _ _ => trivial
  · obtain ⟨-, herr, it', hitem, hlast⟩ := hQ
    exact dead_of_ready he hi ⟨herr, hitem ▸ kind.finished_wrap it' hlast⟩
  · refine Reads.pure fun ctx h => ?_
    obtain ⟨rfl, herr, it', hitem, hlast⟩ := h
    refine ⟨rfl, ⟨herr, hitem ▸ kind.finished_wrap it' hlast⟩, ?_⟩
    rw [hitem]
    exact kind.wrap_ne it'

end Chunks

end LibShv.AbstractStreamReader
