import LibShv.ChainPack
import LibShv.Cpon

/-!
# LibShv.CCpcp.Convert

`ccpcp_convert` (`ccpcp_convert.c`) from ChainPack to CPON: it unpacks one item after another and
packs each of them at once, without ever holding a value. What it writes is the text that
`CponWriter` writes of the value.

The stack of container states has room, as a handler makes it, and so has the output. A blob that
is unpacked in several chunks is not expected in a container: a delimiter is written into it.
-/

namespace LibShv.CCpcpConvert

open ByteReader CCpon

/-! ## container states -/

inductive ContainerType where
  | list
  | map
  | imap
  | metaMap
deriving DecidableEq

/-- `ccpcp_container_state`. -/
structure ContainerState where
  container_type : ContainerType
  item_count : Nat

/-- The container that an item begins. -/
def containerBegin? : CCpcpItem → Option ContainerType
  | .list => some .list
  | .map => some .map
  | .imap => some .imap
  | .metaMap => some .metaMap
  | _ => none

/-- The state on the top has one item more. -/
def countItem : List ContainerState → List ContainerState
  | [] => []
  | top :: states => { top with item_count := top.item_count + 1 } :: states

/-- The state on the top is popped; a metamap is not counted in the state below it. -/
def leaveContainer : List ContainerState → List ContainerState
  | top :: prev :: states =>
    if top.container_type = .metaMap then { prev with item_count := prev.item_count - 1 } :: states
    else prev :: states
  | _ => []

/-- `ccpcp_unpack_context_update_container_state`. The top of the stack is its first state. -/
def updateContainerState (states : List ContainerState) (item : CCpcpItem) : List ContainerState :=
  if item = .containerEnd then leaveContainer states
  else
    match containerBegin? item with
    | some t => ⟨t, 0⟩ :: countItem states
    | none => countItem states

/-! ## converting -/

/-- A string or a blob with chunks to come. -/
def unfinished : CCpcpItem → Bool
  | .string it => !it.lastChunk
  | .blob it => !it.lastChunk
  | _ => false

/-- `is_string_concat`: blobs are not looked at. -/
def isStringConcat : CCpcpItem → Bool
  | .string it => 1 < it.chunkCnt
  | _ => false

/-- The two contexts and what the loop keeps. -/
structure Converter where
  in_ctx : Cursor UnpackContext
  states : List ContainerState
  out : Bytes
  nest_count : Nat
  meta_just_closed : Bool

/-- How the loop ends. -/
inductive End where
  | done
  | unpackError (e : Fault)
  | containerStackUnderflow
  | outOfFuel
deriving DecidableEq

section Convert

variable (indent : Bytes)

/-- The delimiter in front of an item that `current_state` has counted. -/
def stateDelim (nest_count : Nat) (current_state : ContainerState) : Bytes :=
  match current_state.container_type with
  | .list => packFieldDelim indent nest_count (current_state.item_count = 1) false
  | _ =>
    if current_state.item_count % 2 = 0 then [C_KEY_DELIM]
    else packFieldDelim indent nest_count (current_state.item_count = 1) false

def itemDelim (nest_count : Nat) (current_state : Option ContainerState) (meta_just_closed : Bool)
    (item : CCpcpItem) : Bytes :=
  match current_state with
  | none => []
  | some current_state =>
    if isStringConcat item ∨ item = .containerEnd ∨ meta_just_closed then []
    else stateDelim indent nest_count current_state

/-- The text between the quotes of a string, with the first one and the last one. -/
def packChunk (start : Bytes) (escaped : Bytes → Bytes) (it : CCpcpString) : Bytes :=
  (if it.chunkCnt = 1 then start else []) ++ escaped it.chunk ++ if it.lastChunk then [quote] else []

/-- The bracket that ends a container. -/
def ContainerType.endBracket : ContainerType → UInt8
  | .list => C_LIST_END
  | .map => C_MAP_END
  | .imap => C_MAP_END
  | .metaMap => C_META_END

/-- The text of an item. -/
def packItem (nest_count : Nat) (current_state : Option ContainerState) : CCpcpItem → Bytes
  | .invalid => []
  | .null => CCpon.packNull
  | .boolean b => CCpon.packBoolean b
  | .int n => CCpon.packInt n
  | .uint n => CCpon.packUint n
  | .double bits => CCpon.packDouble bits
  | .decimal mantisa exponent => CCpon.packDecimal mantisa exponent
  | .blob it => packChunk [0x62, quote] copyBlobEscaped it
  | .string it => packChunk [quote] copyDataEscaped it
  | .dateTime msecs minutes => CCpon.packDateTime msecs minutes
  | .list => [C_LIST_BEGIN]
  | .map => [C_MAP_BEGIN]
  | .imap => ascii "i" ++ [C_MAP_BEGIN]
  | .metaMap => [C_META_BEGIN]
  | .containerEnd =>
    match current_state with
    | some current_state =>
      endBlock indent (nest_count - 1) false ++ [current_state.container_type.endBracket]
    | none => []

/-- The nesting of the output behind an item. -/
def nestBehind (nest_count : Nat) (item : CCpcpItem) : Nat :=
  if item = .containerEnd then nest_count - 1
  else if (containerBegin? item).isSome then nest_count + 1
  else nest_count

/-- One round of the loop. `current_state` is a place in the stack, so it has counted the item when
it is looked at, and it is there still when its container has ended. -/
def next (s : Converter) : Except (End × Converter) Converter :=
  match cchainpackUnpackNext s.in_ctx with
  | .error e in_ctx => .error (.unpackError e, { s with in_ctx })
  | .ok () in_ctx =>
    let item := in_ctx.reg.item
    let isNew := !unfinished s.in_ctx.reg.item
    let current_state := (if isNew ∧ item ≠ .containerEnd then countItem s.states else s.states).head?
    if item = .containerEnd ∧ current_state.isNone then
      .error (.containerStackUnderflow, { s with in_ctx })
    else
      .ok
        { in_ctx
          states := if isNew then updateContainerState s.states item else s.states
          out := s.out ++ (itemDelim indent s.nest_count current_state s.meta_just_closed item ++
            packItem indent s.nest_count current_state item)
          nest_count := nestBehind s.nest_count item
          meta_just_closed :=
            item = .containerEnd ∧ current_state.any (·.container_type = .metaMap) }

/-- One object is taken from the stream. -/
def stops (s : Converter) : Bool :=
  s.states.isEmpty && !(unfinished s.in_ctx.reg.item || s.meta_just_closed)

/-- The loop of `ccpcp_convert`. -/
def convert : Nat → Converter → End × Converter
  | 0, s => (.outOfFuel, s)
  | fuel + 1, s =>
    match next indent s with
    | .error r => r
    | .ok s => if stops s then (.done, s) else convert fuel s

/-- `ccpcp_convert` of some bytes. -/
def ccpcpConvert (input : Bytes) : End × Converter :=
  convert indent (input.length + 1) ⟨openStream input, [], [], 0, false⟩

end Convert

/-! ## rounds -/

/-- The loop behind a round. -/
def after (fuel : Nat) (s : Converter) : End × Converter :=
  if stops s then (.done, s) else convert [] fuel s

theorem convert_of_next {s s' : Converter} (h : next [] s = .ok s') (fuel : Nat) :
    convert [] (fuel + 1) s = after fuel s' := by
  rw [convert, h]
  rfl

theorem after_of_not_stops {s : Converter} (h : stops s = false) (fuel : Nat) :
    after fuel s = convert [] fuel s := by
  rw [after, h]
  rfl

/-- The delimiter in front of a value. -/
def delimBefore (states : List ContainerState) (meta_just_closed : Bool) : Bytes :=
  if meta_just_closed then []
  else
    match countItem states with
    | [] => []
    | top :: _ => stateDelim [] 0 top

theorem packFieldDelim_nil (nest_count : Nat) (isFirst isOneliner : Bool) :
    packFieldDelim [] nest_count isFirst isOneliner = if isFirst then [] else [C_FIELD_DELIM] :=
  List.append_nil _

theorem stateDelim_nil (nest_count : Nat) (state : ContainerState) :
    stateDelim [] nest_count state = stateDelim [] 0 state := by
  obtain ⟨t, count⟩ := state
  cases t <;> rfl

theorem unfinished_of_finished {item : CCpcpItem} (h : item.Finished) : unfinished item = false := by
  cases item with
  | string it => exact congrArg (!·) h
  | blob it => exact congrArg (!·) h
  | _ => rfl

/-- The round of an item that is no end of a container. -/
theorem next_item {bytes rest : Bytes} {item : CCpcpItem} {s : Converter}
    (h : Consumes cchainpackUnpackNext bytes (fun _ => True) UnpackContext.Ready (Leaves item))
    (hend : item ≠ .containerEnd) (hconcat : isStringConcat item = false)
    (hinput : s.in_ctx.input = bytes ++ rest) (hready : s.in_ctx.reg.Ready) :
    ∃ s', next [] s = .ok s' ∧ s'.in_ctx.input = rest ∧ s'.in_ctx.reg.item = item ∧
      s'.in_ctx.reg.errNo = .ok ∧ s'.states = updateContainerState s.states item ∧
      s'.out = s.out ++ (delimBefore s.states s.meta_just_closed ++ packItem [] 0 none item) ∧
      s'.meta_just_closed = false := by
  obtain ⟨u, c, hnext, hrest, -, hitem, herr⟩ := h s.in_ctx rest hinput (fun _ _ => trivial) hready
  have hnew := unfinished_of_finished hready.finished
  have hpack : ∀ nest current, packItem [] nest current item = packItem [] 0 none item := by
    intro nest current
    cases item with
    | containerEnd => exact absurd rfl hend
    | _ => rfl
  have hdelim : itemDelim [] s.nest_count (countItem s.states).head? s.meta_just_closed item =
      delimBefore s.states s.meta_just_closed := by
    rw [delimBefore]
    cases countItem s.states with
    | nil => exact (ite_self _).symm
    | cons top states =>
      simp only [itemDelim, List.head?_cons, hconcat, hend, false_or, Bool.false_eq_true]
      rw [stateDelim_nil]
  rw [next, hnext]
  simp only [hitem, hnew, Bool.not_false, hend, ne_eq, not_false_eq_true, and_self, if_true,
    false_and, if_false, hpack, hdelim]
  exact ⟨_, rfl, hrest, hitem, herr, rfl, rfl, rfl⟩

/-! ## runs -/

/-- What there is behind the rounds for some bytes. -/
structure Behind (s : Converter) (rest text : Bytes) (states : List ContainerState)
    (meta_just_closed : Bool) (s' : Converter) : Prop where
  input : s'.in_ctx.input = rest
  ready : s'.in_ctx.reg.Ready
  states : s'.states = states
  out : s'.out = s.out ++ text
  meta_just_closed : s'.meta_just_closed = meta_just_closed

variable {bytes bytes' text text' : Bytes} {S S' S'' : List ContainerState} {m m' m'' : Bool}

/-- The rounds for some bytes write a text. The last of them may end the loop. -/
def Emits (bytes text : Bytes) (S S' : List ContainerState) (m m' : Bool) : Prop :=
  ∀ s rest, s.in_ctx.input = bytes ++ rest → s.in_ctx.reg.Ready → s.states = S →
    s.meta_just_closed = m →
    ∃ n s', n < bytes.length ∧ (∀ fuel, convert [] (n + 1 + fuel) s = after fuel s') ∧
      Behind s rest text S' m' s'

/-- The rounds for some bytes write a text, and the loop goes on. -/
def EmitsOn (bytes text : Bytes) (S S' : List ContainerState) (m m' : Bool) : Prop :=
  ∀ s rest, s.in_ctx.input = bytes ++ rest → s.in_ctx.reg.Ready → s.states = S →
    s.meta_just_closed = m →
    ∃ n s', n ≤ bytes.length ∧ (∀ fuel, convert [] (n + fuel) s = convert [] fuel s') ∧
      Behind s rest text S' m' s'

theorem emitsOn_nil (S : List ContainerState) (m : Bool) : EmitsOn [] [] S S m m := by
  intro s rest hinput hready hstates hm
  exact ⟨0, s, Nat.le_refl 0, fun fuel => by rw [Nat.zero_add],
    ⟨hinput, hready, hstates, (List.append_nil _).symm, hm⟩⟩

/-- In a container, and behind metadata, the loop goes on. -/
theorem Emits.on (h : Emits bytes text S S' m m') (hgo : S' ≠ [] ∨ m' = true) :
    EmitsOn bytes text S S' m m' := by
  intro s rest hinput hready hstates hm
  obtain ⟨n, s', hn, hrun, hbehind⟩ := h s rest hinput hready hstates hm
  have hstops : stops s' = false := by
    rw [stops, hbehind.states, hbehind.meta_just_closed]
    rcases hgo with hgo | rfl
    · rw [List.isEmpty_eq_false_iff.mpr hgo, Bool.false_and]
    · rw [Bool.or_true, Bool.not_true, Bool.and_false]
  exact ⟨n + 1, s', hn, fun fuel => (hrun fuel).trans (after_of_not_stops hstops fuel), hbehind⟩

theorem EmitsOn.emits (h : EmitsOn bytes text S S' m m') (h' : Emits bytes' text' S' S'' m' m'') :
    Emits (bytes ++ bytes') (text ++ text') S S'' m m'' := by
  intro s rest hinput hready hstates hm
  rw [List.append_assoc] at hinput
  obtain ⟨n, s₁, hn, hrun, hbehind⟩ := h s _ hinput hready hstates hm
  obtain ⟨n', s₂, hn', hrun', hbehind'⟩ := h' s₁ rest hbehind.input hbehind.ready hbehind.states
    hbehind.meta_just_closed
  refine ⟨n + n', s₂, ?_, fun fuel => ?_, ⟨hbehind'.input, hbehind'.ready, hbehind'.states, ?_,
    hbehind'.meta_just_closed⟩⟩
  · rw [List.length_append]
    omega
  · rw [show n + n' + 1 + fuel = n + (n' + 1 + fuel) by omega, hrun, hrun']
  · rw [hbehind'.out, hbehind.out, List.append_assoc]

theorem EmitsOn.trans (h : EmitsOn bytes text S S' m m')
    (h' : EmitsOn bytes' text' S' S'' m' m'') :
    EmitsOn (bytes ++ bytes') (text ++ text') S S'' m m'' := by
  intro s rest hinput hready hstates hm
  rw [List.append_assoc] at hinput
  obtain ⟨n, s₁, hn, hrun, hbehind⟩ := h s _ hinput hready hstates hm
  obtain ⟨n', s₂, hn', hrun', hbehind'⟩ := h' s₁ rest hbehind.input hbehind.ready hbehind.states
    hbehind.meta_just_closed
  refine ⟨n + n', s₂, ?_, fun fuel => ?_, ⟨hbehind'.input, hbehind'.ready, hbehind'.states, ?_,
    hbehind'.meta_just_closed⟩⟩
  · rw [List.length_append]
    omega
  · rw [Nat.add_assoc, hrun, hrun']
  · rw [hbehind'.out, hbehind.out, List.append_assoc]

/-! ## items -/

theorem emits_item {item : CCpcpItem}
    (h : Consumes cchainpackUnpackNext bytes (fun _ => True) UnpackContext.Ready (Leaves item))
    (hne : bytes ≠ []) (hfinished : item.Finished) (hend : item ≠ .containerEnd)
    (hconcat : isStringConcat item = false) (S : List ContainerState) (m : Bool) :
    Emits bytes (delimBefore S m ++ packItem [] 0 none item) S (updateContainerState S item) m
      false := by
  rintro s rest hinput hready rfl rfl
  obtain ⟨s', hnext, hrest, hitem, herr, hstates, hout, hm⟩ := next_item h hend hconcat hinput hready
  refine ⟨0, s', List.length_pos_iff.mpr hne, fun fuel => ?_,
    ⟨hrest, ⟨herr, hitem ▸ hfinished⟩, hstates, hout, hm⟩⟩
  rw [Nat.zero_add, Nat.add_comm]
  exact convert_of_next hnext fuel

/-- An item that is no container and no string. -/
theorem emits_scalar {item : CCpcpItem}
    (h : Consumes cchainpackUnpackNext bytes (fun _ => True) UnpackContext.Ready (Leaves item))
    (hne : bytes ≠ []) (hfinished : item.Finished) (hend : item ≠ .containerEnd)
    (hbegin : containerBegin? item = none) (hconcat : isStringConcat item = false)
    (S : List ContainerState) (m : Bool) :
    Emits bytes (delimBefore S m ++ packItem [] 0 none item) S (countItem S) m false := by
  have hitem := emits_item h hne hfinished hend hconcat S m
  rwa [updateContainerState, if_neg hend, hbegin] at hitem

theorem emits_end (top : ContainerState) (S : List ContainerState) (m : Bool) :
    Emits [CP_TERM] [top.container_type.endBracket] (top :: S) (leaveContainer (top :: S)) m
      (top.container_type = .metaMap) := by
  rintro s rest hinput hready hstates rfl
  obtain ⟨u, c, hnext, hrest, -, hitem, herr⟩ :=
    consumes_next_containerEnd (F := fun _ => True) s.in_ctx rest hinput (fun _ _ => trivial) hready
  have hnew := unfinished_of_finished hready.finished
  have hround : ∃ s', next [] s = .ok s' ∧
      Behind s rest [top.container_type.endBracket] (leaveContainer (top :: S))
        (top.container_type = .metaMap) s' := by
    rw [next, hnext]
    simp only [hitem, hnew, hstates]
    have hfinished : c.reg.item.Finished := by
      rw [hitem]
      trivial
    exact ⟨_, rfl, hrest, ⟨herr, hfinished⟩, rfl,
      by simp [itemDelim, packItem, endBlock, indentElement], by simp⟩
  obtain ⟨s', hs', hbehind⟩ := hround
  refine ⟨0, s', Nat.zero_lt_one, fun fuel => ?_, hbehind⟩
  rw [Nat.zero_add, Nat.add_comm]
  exact convert_of_next hs' fuel

/-! ## strings and blobs -/

/-- The size of the strings whose chunks `chunk_cnt` counts. -/
def maxCounted : Nat := (2 ^ 32 - 1) * 256

theorem copyDataEscaped_append (s t : Bytes) :
    copyDataEscaped (s ++ t) = copyDataEscaped s ++ copyDataEscaped t := List.flatMap_append

/-- The last chunk is followed by the quote. -/
theorem quote_deliver (it : CCpcpString) (s : Bytes) :
    (if (it.deliver s).lastChunk then [quote] else []) =
      if s.length ≤ stringChunkBuffLen then [quote] else [] := by
  have hlast : (it.deliver s).lastChunk = decide (s.length ≤ stringChunkBuffLen) := rfl
  rw [hlast]
  simp only [decide_eq_true_eq]

/-- A chunk and what is behind it, with the quote behind whichever is the last. -/
theorem copyDataEscaped_take_drop (s : Bytes) :
    copyDataEscaped (s.take stringChunkBuffLen) ++
        (if s.length ≤ stringChunkBuffLen then [quote] else []) ++
      (copyDataEscaped (s.drop stringChunkBuffLen) ++
        if s.length ≤ stringChunkBuffLen then [] else [quote]) =
      copyDataEscaped s ++ [quote] := by
  by_cases hle : s.length ≤ stringChunkBuffLen
  · rw [if_pos hle, if_pos hle, List.take_of_length_le hle, List.drop_eq_nil_of_le hle]
    simp [copyDataEscaped]
  · have happend := copyDataEscaped_append (s.take stringChunkBuffLen) (s.drop stringChunkBuffLen)
    rw [List.take_append_drop] at happend
    rw [if_neg hle, if_neg hle, happend]
    simp

/-- The round of a chunk that is not the first one. -/
theorem next_chunk {s rest : Bytes} {it : CCpcpString} {conv : Converter} (hs : s.length < 2 ^ 63)
    (hsize : ¬ it.stringSize < 0) (hload : it.sizeToLoad = Int64.ofNat s.length)
    (hlast : it.lastChunk = false) (hcount : 1 < it.chunkCnt + 1) (hinput : conv.in_ctx.input = s ++ rest)
    (hitem : conv.in_ctx.reg.item = .string it) (herr : conv.in_ctx.reg.errNo = .ok) :
    ∃ conv', next [] conv = .ok conv' ∧
      conv'.in_ctx.input = s.drop stringChunkBuffLen ++ rest ∧
      conv'.in_ctx.reg.item = .string (it.deliver s) ∧ conv'.in_ctx.reg.errNo = .ok ∧
      conv'.states = conv.states ∧ conv'.meta_just_closed = false ∧
      conv'.out = conv.out ++ (copyDataEscaped (s.take stringChunkBuffLen) ++
        if s.length ≤ stringChunkBuffLen then [quote] else []) := by
  have hsplit : conv.in_ctx.input =
      s.take stringChunkBuffLen ++ (s.drop stringChunkBuffLen ++ rest) := by
    rw [hinput, ← List.append_assoc, List.take_append_drop]
  obtain ⟨_, c, hunpack, hrest, -, rfl, herr'⟩ := consumes_unpackString
    (F := fun _ => True) (P := fun ctx => ctx.errNo = .ok) hs hsize hload conv.in_ctx _ hsplit
    (fun _ _ => trivial) herr
  have hnext : cchainpackUnpackNext conv.in_ctx =
      .ok () { c with reg := { c.reg with item := .string (it.deliver s) } } := by
    rw [ChainPackReader.continues_string conv.in_ctx it herr hitem hlast, bind_of_ok hunpack]
    rfl
  have hold : unfinished conv.in_ctx.reg.item = true := by
    rw [hitem]
    exact congrArg (!·) hlast
  have hconcat : isStringConcat (.string (it.deliver s)) = true := decide_eq_true hcount
  have hone : (it.deliver s).chunkCnt ≠ 1 := fun h => by
    change it.chunkCnt + 1 = 1 at h
    rw [h] at hcount
    exact absurd hcount (by decide)
  have hdelim : itemDelim [] conv.nest_count conv.states.head? conv.meta_just_closed
      (.string (it.deliver s)) = [] := by
    cases conv.states with
    | nil => rfl
    | cons top states => exact if_pos (.inl hconcat)
  have hpack : packItem [] conv.nest_count conv.states.head? (.string (it.deliver s)) =
      copyDataEscaped (s.take stringChunkBuffLen) ++
        if s.length ≤ stringChunkBuffLen then [quote] else [] := by
    rw [packItem, packChunk, if_neg hone, List.nil_append, quote_deliver]
    rfl
  rw [next, hnext]
  simp only [hold, Bool.not_true, Bool.false_eq_true, false_and, if_false, reduceCtorEq, hdelim,
    hpack, List.nil_append]
  exact ⟨_, rfl, hrest, rfl, herr', rfl, rfl, rfl⟩

theorem chunkCnt_deliver (it : CCpcpString) (s : Bytes) (h : it.chunkCnt.toNat + 1 < 2 ^ 32) :
    (it.deliver s).chunkCnt.toNat = it.chunkCnt.toNat + 1 := by
  change (it.chunkCnt + 1).toNat = _
  rw [UInt32.toNat_add]
  exact Nat.mod_eq_of_lt h

theorem counted_rest {cnt len limit : Nat} (h : cnt * 256 + len ≤ limit)
    (hlen : stringChunkBuffLen < len) : (cnt + 1) * 256 + (len - stringChunkBuffLen) ≤ limit := by
  have hle : 256 ≤ len := Nat.le_of_lt hlen
  have hsum : 256 + (len - 256) = len := Nat.add_sub_cancel' hle
  rw [Nat.succ_mul, Nat.add_assoc]
  exact (congrArg (cnt * 256 + ·) hsum).trans_le h

/-- The chunks behind the first one. The induction is on the length of what is left. -/
theorem after_chunks (s : Bytes) (it : CCpcpString) {conv : Converter} {rest : Bytes}
    (hcount : it.chunkCnt.toNat * 256 + s.length ≤ maxCounted)
    (hsize : ¬ it.stringSize < 0) (hinput : conv.in_ctx.input = s.drop stringChunkBuffLen ++ rest)
    (hitem : conv.in_ctx.reg.item = .string (it.deliver s)) (herr : conv.in_ctx.reg.errNo = .ok)
    (hm : conv.meta_just_closed = false) :
    ∃ n conv', n ≤ (s.drop stringChunkBuffLen).length ∧
      (∀ fuel, after (n + fuel) conv = after fuel conv') ∧
      Behind conv rest (copyDataEscaped (s.drop stringChunkBuffLen) ++
        if s.length ≤ stringChunkBuffLen then [] else [quote]) conv.states false conv' := by
  have hbuff : stringChunkBuffLen = 256 := rfl
  have hmax : maxCounted = 1099511627520 := rfl
  induction hk : s.length using Nat.strongRecOn generalizing s it conv with
  | ind k ih =>
    subst hk
    by_cases hle : s.length ≤ stringChunkBuffLen
    · have hdrop : s.drop stringChunkBuffLen = [] := List.drop_eq_nil_of_le hle
      have hlast : (it.deliver s).lastChunk = true := decide_eq_true hle
      rw [hdrop] at hinput ⊢
      rw [if_pos hle]
      refine ⟨0, conv, Nat.le_refl 0, fun fuel => by rw [Nat.zero_add], ⟨hinput, ⟨herr, ?_⟩, rfl,
        (List.append_nil _).symm, hm⟩⟩
      rw [hitem]
      exact hlast
    · have hlast : (it.deliver s).lastChunk = false := decide_eq_false hle
      have hlen := List.length_drop (i := stringChunkBuffLen) (l := s)
      have hload : (it.deliver s).sizeToLoad = Int64.ofNat (s.drop stringChunkBuffLen).length := by
        rw [hlen]
        rfl
      have hcnt : (it.deliver s).chunkCnt.toNat = it.chunkCnt.toNat + 1 :=
        chunkCnt_deliver it s (by omega)
      have hsize' : ¬ (it.deliver s).stringSize < 0 := by
        rw [CCpcpString.stringSize_deliver]
        exact hsize
      have hcount' : 1 < (it.deliver s).chunkCnt + 1 := by
        have hnext := chunkCnt_deliver (it.deliver s) (s.drop stringChunkBuffLen) (by omega)
        change ((it.deliver s).chunkCnt + 1).toNat = _ at hnext
        rw [UInt32.lt_iff_toNat_lt, hnext, hcnt]
        exact Nat.succ_lt_succ (Nat.succ_pos _)
      obtain ⟨conv₁, hnext, hinput₁, hitem₁, herr₁, hstates₁, hm₁, hout₁⟩ :=
        next_chunk (by omega) hsize' hload hlast hcount' hinput hitem herr
      have hcount₁ : (it.deliver s).chunkCnt.toNat * 256 + (s.drop stringChunkBuffLen).length ≤
          maxCounted := by
        rw [hcnt, hlen]
        exact counted_rest hcount (Nat.lt_of_not_le hle)
      obtain ⟨n, conv', hn, hrun, hbehind⟩ := ih (s.drop stringChunkBuffLen).length (by omega)
        (s.drop stringChunkBuffLen) (it.deliver s) hcount₁ hsize' hinput₁ hitem₁ herr₁ hm₁ rfl
      have hstops : stops conv = false := by
        have hunfinished : unfinished conv.in_ctx.reg.item = true := by
          rw [hitem]
          exact congrArg (!·) hlast
        rw [stops, hunfinished, Bool.true_or, Bool.not_true, Bool.and_false]
      refine ⟨n + 1, conv', ?_, fun fuel => ?_, ⟨hbehind.input, hbehind.ready,
        hbehind.states.trans hstates₁, ?_, hbehind.meta_just_closed⟩⟩
      · rw [List.length_drop] at hn
        omega
      · rw [after_of_not_stops hstops, show n + 1 + fuel = n + fuel + 1 by omega,
          convert_of_next hnext, hrun]
      · rw [hbehind.out, hout₁, if_neg hle, List.append_assoc, copyDataEscaped_take_drop]

theorem emits_string {s : Bytes} (hs : s.length ≤ maxCounted) (S : List ContainerState) (m : Bool) :
    Emits (LibShv.packString s) (delimBefore S m ++ CCpon.packString s) S (countItem S) m false := by
  rintro conv rest hinput hready rfl rfl
  have hmax : maxCounted < 2 ^ 63 := by decide
  have hsize : s.length < 2 ^ 63 := Nat.lt_of_le_of_lt hs hmax
  have hsplit : LibShv.packString s ++ rest =
      CP_String :: (packUintData (UInt64.ofNat s.length) ++ s.take stringChunkBuffLen) ++
        (s.drop stringChunkBuffLen ++ rest) := by
    rw [LibShv.packString, List.cons_append, List.cons_append, List.append_assoc, List.append_assoc,
      ← List.append_assoc (s.take _), List.take_append_drop]
  obtain ⟨conv₁, hnext, hinput₁, hitem₁, herr₁, hstates₁, hout₁, hm₁⟩ :=
    next_item (consumes_next_packString hsize) (by simp) rfl (hinput.trans hsplit) hready
  have hcount : (CCpcpString.sized s).chunkCnt.toNat * 256 + s.length ≤ maxCounted := by
    have hzero : (CCpcpString.sized s).chunkCnt.toNat = 0 := rfl
    rw [hzero, Nat.zero_mul, Nat.zero_add]
    exact hs
  obtain ⟨n, conv', hn, hrun, hbehind⟩ := after_chunks s (.sized s) hcount
    (CCpcpString.sized_nonneg hsize) hinput₁ hitem₁ herr₁ hm₁
  refine ⟨n, conv', ?_, fun fuel => ?_, ⟨hbehind.input, hbehind.ready, hbehind.states.trans hstates₁,
    ?_, hbehind.meta_just_closed⟩⟩
  · rw [List.length_drop] at hn
    simp only [LibShv.packString, List.length_cons, List.length_append]
    omega
  · rw [show n + 1 + fuel = n + fuel + 1 by omega, convert_of_next hnext, hrun]
  · have hfirst : packItem [] 0 none (.string ((CCpcpString.sized s).deliver s)) =
        [quote] ++ copyDataEscaped (s.take stringChunkBuffLen) ++
          if s.length ≤ stringChunkBuffLen then [quote] else [] := by
      rw [packItem, packChunk, quote_deliver]
      rfl
    rw [hbehind.out, hout₁, hfirst, CCpon.packString, ← copyDataEscaped_take_drop]
    simp only [List.append_assoc, List.cons_append, List.nil_append]

/-- A blob of one chunk. -/
theorem emits_blob {s : Bytes} (hs : s.length ≤ stringChunkBuffLen) (S : List ContainerState)
    (m : Bool) :
    Emits (LibShv.packBlob s) (delimBefore S m ++ CCpon.packBlob s) S (countItem S) m false := by
  have htake : s.take stringChunkBuffLen = s := List.take_of_length_le hs
  have hnext := consumes_next_packBlob (F := fun _ => True) (s := s)
    (Nat.lt_of_le_of_lt hs (by decide))
  have hpart : blobPart s = s := by
    rw [blobPart, Nat.mod_eq_of_lt (Nat.lt_of_le_of_lt hs (by decide)), List.take_length]
  have hlast : ((CCpcpString.sized s).deliver s).lastChunk = true := decide_eq_true hs
  have hpack : packItem [] 0 none (.blob ((CCpcpString.sized s).deliver s)) = CCpon.packBlob s := by
    rw [packItem, packChunk, hlast, CCpon.packBlob, hpart]
    change [0x62, quote] ++ copyBlobEscaped (s.take stringChunkBuffLen) ++ [quote] = _
    rw [htake]
    rfl
  have hemits := emits_scalar hnext (List.cons_ne_nil _ _) hlast (by simp) rfl rfl S m
  rw [hpack, htake] at hemits
  exact hemits

/-! ## values -/

/-- What the loop carries over: what ChainPack does, with strings whose chunks are counted and blobs
of one chunk. -/
def Carried : Variant → Prop
  | .int n => n ≠ Int64.minValue
  | .decimal d => d.mantissa ≠ Int64.minValue
  | .dateTime dt => dt.PackFits
  | .string s => s.length ≤ maxCounted
  | .blob s => s.length ≤ stringChunkBuffLen
  | .map m => ∀ e ∈ m, e.1.length ≤ maxCounted
  | _ => True

def CarriedMetaData (md : RpcMetaData) : Prop := ∀ e ∈ md.sValues, e.1.length ≤ maxCounted

theorem leaveContainer_of_ne {top : ContainerState} (h : top.container_type ≠ .metaMap)
    (S : List ContainerState) : leaveContainer (top :: S) = S := by
  cases S with
  | nil => rfl
  | cons prev S => exact if_neg h

/-- Metadata is not counted. -/
theorem leaveContainer_meta (n : Nat) (S : List ContainerState) :
    leaveContainer (⟨.metaMap, n⟩ :: countItem S) = S := by
  cases S <;> rfl

theorem delimBefore_list (k : Nat) (S : List ContainerState) (nestCount : Nat) (isOneliner : Bool) :
    delimBefore (⟨.list, k⟩ :: S) false = packFieldDelim [] nestCount (decide (k = 0)) isOneliner := by
  rw [packFieldDelim_nil]
  change packFieldDelim [] 0 (decide (k + 1 = 1)) false = _
  rw [packFieldDelim_nil]
  simp

/-- The delimiters in front of a key, and of its value. -/
theorem delimBefore_key {t : ContainerType} (ht : t ≠ .list) (k : Nat) (S : List ContainerState)
    (nestCount : Nat) (isOneliner : Bool) :
    delimBefore (⟨t, 2 * k⟩ :: S) false =
      packFieldDelim [] nestCount (decide (k = 0)) isOneliner := by
  have hodd : ¬ (2 * k + 1) % 2 = 0 := by omega
  rw [packFieldDelim_nil]
  cases t with
  | list => exact absurd rfl ht
  | _ =>
    refine (if_neg hodd).trans ?_
    rw [packFieldDelim_nil]
    simp

theorem delimBefore_val {t : ContainerType} (ht : t ≠ .list) (k : Nat) (S : List ContainerState) :
    delimBefore (⟨t, 2 * k + 1⟩ :: S) false = [C_KEY_DELIM] := by
  have heven : (2 * k + 1 + 1) % 2 = 0 := by omega
  cases t with
  | list => exact absurd rfl ht
  | _ => exact if_pos heven

/-- The begin of a container. -/
theorem emitsOn_begin {schema : UInt8} {item : CCpcpItem} {t : ContainerType}
    (hitem : unpackItem schema = return item) (hbegin : containerBegin? item = some t)
    (S : List ContainerState) (m : Bool) :
    EmitsOn [schema] (delimBefore S m ++ packItem [] 0 none item) S (⟨t, 0⟩ :: countItem S) m
      false := by
  have hfinished : item.Finished := by
    cases item <;> first | contradiction | trivial
  have hend : item ≠ .containerEnd := by
    rintro rfl
    contradiction
  have hconcat : isStringConcat item = false := by
    cases item <;> first | contradiction | rfl
  have h := emits_item (consumes_next_schema hitem) (List.cons_ne_nil _ _) hfinished hend hconcat S m
  rw [updateContainerState, if_neg hend, hbegin] at h
  exact h.on (.inl (List.cons_ne_nil _ _))

/-- A container that is counted: its begin, its elements and its end. -/
theorem emits_container {schema : UInt8} {item : CCpcpItem} {t : ContainerType} {n : Nat}
    (hitem : unpackItem schema = return item) (hbegin : containerBegin? item = some t)
    (ht : t ≠ .metaMap) {S : List ContainerState}
    (h : EmitsOn bytes text (⟨t, 0⟩ :: countItem S) (⟨t, n⟩ :: countItem S) false false) (m : Bool) :
    Emits (schema :: (bytes ++ [CP_TERM]))
      (delimBefore S m ++ (packItem [] 0 none item ++ (text ++ [t.endBracket]))) S (countItem S) m
      false := by
  have hend := emits_end ⟨t, n⟩ (countItem S) false
  have hmeta : decide (t = .metaMap) = false := decide_eq_false ht
  rw [leaveContainer_of_ne ht] at hend
  simp only [hmeta] at hend
  have hall := (emitsOn_begin hitem hbegin S m).emits (h.emits hend)
  rwa [List.append_assoc] at hall

mutual

/-- The bytes of a value are converted to its text. -/
theorem emits_write : (v : RpcValue) → v.Each Carried CarriedMetaData → (S : List ContainerState) →
    (nestCount : Nat) →
    Emits (ChainPackWriter.write v) (delimBefore S false ++ CponWriter.write [] nestCount v) S
      (countItem S) false false
  | .mk md v, ⟨hmd, hmds, hv, hvs⟩, S, nestCount => by
    by_cases hempty : md.isEmpty = true
    · obtain rfl : md = .empty := RpcMetaData.isEmpty_iff.mp hempty
      exact emits_writeVariant v hv hvs S false nestCount
    · have hmeta := emitsOn_writeMetaData md hmd hmds (by simpa using hempty) S nestCount
      have h := hmeta.emits (emits_writeVariant v hv hvs S true nestCount)
      rwa [show delimBefore S true = [] from rfl, List.nil_append, List.append_assoc] at h

/-- Non-empty metadata. -/
theorem emitsOn_writeMetaData : (md : RpcMetaData) → CarriedMetaData md →
    md.Each Carried CarriedMetaData → md.isEmpty = false → (S : List ContainerState) →
    (nestCount : Nat) →
    EmitsOn (ChainPackWriter.writeMetaData md)
      (delimBefore S false ++ CponWriter.writeMetaData [] nestCount md) S S false true
  | .mk im sm, hkeys, ⟨hime, hsme⟩, hempty, S, nestCount => by
    have hne : ¬ (im.length + sm.length == 0) = true := by
      rw [RpcMetaData.isEmpty] at hempty
      simpa using hempty
    have hfirst : im.isEmpty = decide (0 + im.length = 0) := by
      cases im <;> simp
    rw [ChainPackWriter.writeMetaData, if_neg hne, CponWriter.writeMetaData, if_neg hne, hfirst]
    have hbegin := @emitsOn_begin CP_MetaMap .metaMap .metaMap rfl rfl S false
    have him := emitsOn_writeIMapElements im hime .metaMap (by decide) 0 (countItem S) (nestCount + 1)
      (CponWriter.isOnelineMeta (.mk im sm))
    have hsm := emitsOn_writeMapElements sm hsme hkeys .metaMap (by decide) (0 + im.length)
      (countItem S) (nestCount + 1) (CponWriter.isOnelineMeta (.mk im sm))
    have hend := emits_end ⟨.metaMap, 2 * (0 + im.length + sm.length)⟩ (countItem S) false
    rw [leaveContainer_meta] at hend
    have h := hbegin.trans ((him.trans hsm).trans (hend.on (.inr rfl)))
    simp only [List.append_assoc] at h ⊢
    exact h

theorem emits_writeVariant : (v : Variant) → Carried v → v.Each Carried CarriedMetaData →
    (S : List ContainerState) → (m : Bool) → (nestCount : Nat) →
    Emits (ChainPackWriter.writeVariant v)
      (delimBefore S m ++ CponWriter.writeVariant [] nestCount v) S (countItem S) m false
  | .invalid, _, _, S, m, _ =>
    emits_scalar consumes_next_null (List.cons_ne_nil _ _) trivial nofun rfl rfl S m
  | .null, _, _, S, m, _ =>
    emits_scalar consumes_next_null (List.cons_ne_nil _ _) trivial nofun rfl rfl S m
  | .uint n, _, _, S, m, _ => by
    obtain ⟨b, bs, hcons, -⟩ := ChainPackReader.packUint_cons n
    exact emits_scalar (consumes_next_packUint n) (by rw [hcons]; exact List.cons_ne_nil _ _) trivial
      nofun rfl rfl S m
  | .int n, hn, _, S, m, _ => by
    obtain ⟨b, bs, hcons, -⟩ := ChainPackReader.packInt_cons n
    have h := consumes_next_packInt (F := fun _ => True) n
    rw [unpackedInt, if_neg hn] at h
    exact emits_scalar h (by rw [hcons]; exact List.cons_ne_nil _ _) trivial nofun rfl rfl S m
  | .double bits, _, _, S, m, _ =>
    emits_scalar (consumes_next_packDouble bits) (List.cons_ne_nil _ _) trivial nofun rfl rfl S m
  | .bool b, _, _, S, m, _ =>
    emits_scalar (consumes_next_packBoolean b) (List.cons_ne_nil _ _) trivial nofun rfl rfl S m
  | .blob _, hs, _, S, m, _ => emits_blob hs S m
  | .string _, hs, _, S, m, _ => emits_string hs S m
  | .dateTime dt, hdt, _, S, m, _ =>
    emits_scalar (consumes_next_packDateTime dt (dt.unpacked_of_packFits hdt)) (List.cons_ne_nil _ _)
      trivial nofun rfl rfl S m
  | .decimal d, hd, _, S, m, _ => by
    have h := consumes_next_packDecimal (F := fun _ => True) d.mantissa d.exponent
    rw [unpackedInt, if_neg hd] at h
    exact emits_scalar h (List.cons_ne_nil _ _) trivial nofun rfl rfl S m
  | .list vs, _, hvs, S, m, nestCount =>
    @emits_container _ _ CP_List .list .list _ rfl rfl (by decide) S
      (emitsOn_writeListElements vs hvs 0 (countItem S) (nestCount + 1) (CponWriter.isOnelineList vs)) m
  | .map mp, hkeys, hm, S, m, nestCount =>
    @emits_container _ _ CP_Map .map .map _ rfl rfl (by decide) S
      (emitsOn_writeMapElements mp hm hkeys .map (by decide) 0 (countItem S) (nestCount + 1)
        (CponWriter.isOnelineMap mp)) m
  | .imap mp, _, hm, S, m, nestCount =>
    @emits_container _ _ CP_IMap .imap .imap _ rfl rfl (by decide) S
      (emitsOn_writeIMapElements mp hm .imap (by decide) 0 (countItem S) (nestCount + 1)
        (CponWriter.isOnelineMap mp)) m

/-- The elements of a list behind `k` others. -/
theorem emitsOn_writeListElements : (vs : List RpcValue) → eachList Carried CarriedMetaData vs →
    (k : Nat) → (S : List ContainerState) → (nestCount : Nat) → (isOneliner : Bool) →
    EmitsOn (ChainPackWriter.writeListElements vs)
      (CponWriter.writeListElements [] nestCount isOneliner (decide (k = 0)) vs)
      (⟨.list, k⟩ :: S) (⟨.list, k + vs.length⟩ :: S) false false
  | [], _, _, _, _, _ => emitsOn_nil _ _
  | v :: vs, ⟨hv, hvs⟩, k, S, nestCount, isOneliner => by
    have hfirst := (emits_write v hv (⟨.list, k⟩ :: S) nestCount).on (.inl (List.cons_ne_nil _ _))
    rw [delimBefore_list k S nestCount isOneliner] at hfirst
    have hrest := emitsOn_writeListElements vs hvs (k + 1) S nestCount isOneliner
    rw [decide_eq_false (Nat.succ_ne_zero k), show k + 1 + vs.length = k + (vs.length + 1) by omega]
      at hrest
    have h := hfirst.trans hrest
    rwa [List.append_assoc] at h

/-- The entries of a map behind `k` others. -/
theorem emitsOn_writeMapElements : (mp : List (Bytes × RpcValue)) →
    eachMap Carried CarriedMetaData mp → (∀ e ∈ mp, e.1.length ≤ maxCounted) → (t : ContainerType) →
    t ≠ .list → (k : Nat) → (S : List ContainerState) → (nestCount : Nat) → (isOneliner : Bool) →
    EmitsOn (ChainPackWriter.writeMapElements mp)
      (CponWriter.writeMapElements [] nestCount isOneliner (decide (k = 0)) mp)
      (⟨t, 2 * k⟩ :: S) (⟨t, 2 * (k + mp.length)⟩ :: S) false false
  | [], _, _, _, _, _, _, _, _ => emitsOn_nil _ _
  | (key, v) :: mp, ⟨hv, hmp⟩, hkeys, t, ht, k, S, nestCount, isOneliner => by
    have hkey := (emits_string (hkeys (key, v) List.mem_cons_self) (⟨t, 2 * k⟩ :: S) false).on
      (.inl (List.cons_ne_nil _ _))
    rw [delimBefore_key ht k S nestCount isOneliner] at hkey
    have hval := (emits_write v hv (⟨t, 2 * k + 1⟩ :: S) nestCount).on (.inl (List.cons_ne_nil _ _))
    rw [delimBefore_val ht] at hval
    have hrest := emitsOn_writeMapElements mp hmp (fun e he => hkeys e (List.mem_cons_of_mem _ he)) t
      ht (k + 1) S nestCount isOneliner
    rw [decide_eq_false (Nat.succ_ne_zero k), show k + 1 + mp.length = k + (mp.length + 1) by omega]
      at hrest
    have h := hkey.trans (hval.trans hrest)
    rw [CponWriter.writeMapElements, CponWriter.writeMapKey]
    simp only [List.append_assoc] at h ⊢
    exact h

/-- The entries under integer keys behind `k` others. -/
theorem emitsOn_writeIMapElements : (mp : List (Int32 × RpcValue)) →
    eachIMap Carried CarriedMetaData mp → (t : ContainerType) → t ≠ .list → (k : Nat) →
    (S : List ContainerState) → (nestCount : Nat) → (isOneliner : Bool) →
    EmitsOn (ChainPackWriter.writeIMapElements mp)
      (CponWriter.writeIMapElements [] nestCount isOneliner (decide (k = 0)) mp)
      (⟨t, 2 * k⟩ :: S) (⟨t, 2 * (k + mp.length)⟩ :: S) false false
  | [], _, _, _, _, _, _, _ => emitsOn_nil _ _
  | (key, v) :: mp, ⟨hv, hmp⟩, t, ht, k, S, nestCount, isOneliner => by
    have hint := consumes_next_packInt (F := fun _ => True) key.toInt64
    rw [unpackedInt, if_neg key.toInt64_ne_minValue] at hint
    obtain ⟨b, bs, hcons, -⟩ := ChainPackReader.packInt_cons key.toInt64
    have hkey := (emits_scalar hint (by rw [hcons]; exact List.cons_ne_nil _ _) trivial nofun rfl rfl
      (⟨t, 2 * k⟩ :: S) false).on (.inl (List.cons_ne_nil _ _))
    rw [delimBefore_key ht k S nestCount isOneliner] at hkey
    have hval := (emits_write v hv (⟨t, 2 * k + 1⟩ :: S) nestCount).on (.inl (List.cons_ne_nil _ _))
    rw [delimBefore_val ht] at hval
    have hrest := emitsOn_writeIMapElements mp hmp t ht (k + 1) S nestCount isOneliner
    rw [decide_eq_false (Nat.succ_ne_zero k), show k + 1 + mp.length = k + (mp.length + 1) by omega]
      at hrest
    have h := hkey.trans (hval.trans hrest)
    rw [CponWriter.writeIMapElements, CponWriter.writeIMapKey]
    simp only [List.append_assoc] at h ⊢
    exact h

end

/-- A map with metadata, a list in it and a text. -/
def nestedValue : RpcValue :=
  .mk (.mk [(1, .ofVariant (.int 2))] [])
    (.map [(ascii "a", .ofVariant (.list [.ofVariant (.int (-1)), .ofVariant .null])),
      (ascii "b", .ofVariant (.string (ascii "x\ny")))])

/-- A blob of two chunks in a map: the delimiter of its value is written a second time, between the
chunks, and is a byte of the blob from then on. -/
theorem ccpcpConvert_longBlob :
    (ccpcpConvert [] (ChainPackWriter.write (.ofVariant (.map
        [(ascii "k", .ofVariant (.blob (List.replicate 257 0x61)))])))).2.out =
      ascii "\x7b\"k\":b\"" ++ List.replicate 256 0x61 ++ ascii ":a\"\x7d" := by
  decide +kernel

end LibShv.CCpcpConvert
