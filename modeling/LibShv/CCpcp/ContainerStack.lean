import Mathlib

/-!
# LibShv.CCpcp.ContainerStack

The container states of an unpack context (`ccpcp.c`): an array with a length and a
capacity, and a handler that is asked for more room.

A push leaves the last place of the array empty, so a document may be nested one level
less than the array has places. At that place the handler is not asked either.
-/

namespace LibShv.ContainerStack

/-! ## the stack -/

/-- `ccpcp_item_types`. -/
inductive ItemType where
  | invalid
  | null
  | boolean
  | int
  | uint
  | double
  | decimal
  | blob
  | string
  | dateTime
  | list
  | map
  | imap
  | metaMap
  | containerEnd
deriving DecidableEq

/-- The error numbers a call may leave: those of the parser, and those of the stack. -/
inductive Rc where
  | ok
  | parser
  | stackOverflow
  | stackUnderflow
deriving DecidableEq

/-- `ccpcp_container_state`. -/
structure State where
  container_type : ItemType
  item_count : UInt64
deriving DecidableEq

/-- `ccpcp_container_state_init`. -/
def State.init (t : ItemType) : State := ⟨t, 0⟩

/-- `ccpcp_container_stack` without its handler. -/
structure Stack where
  container_states : List State
  length : UInt64
  capacity : UInt64

/-- `ccpcp_container_stack_overflow_handler`: the stack it leaves and the code it returns. -/
abbrev Handler := Stack → Stack × Int32

/-- What the stack functions see of `ccpcp_unpack_context`. `requests` counts the calls of
the handler; nothing reads it. -/
structure Context where
  err_no : Rc
  container_stack : Option Stack
  overflow_handler : Option Handler
  requests : Nat

/-- `ccpcp_unpack_context_init` with a stack of `ccpcp_container_stack_init`. -/
def Context.init (states : List State) (capacity : UInt64) (hnd : Option Handler) : Context where
  err_no := .ok
  container_stack := some ⟨states, 0, capacity⟩
  overflow_handler := hnd
  requests := 0

/-- A state is put behind the others, if a place is left beside the last one. The
subtraction is one of `size_t`. -/
def putState (ctx : Context) (s : Stack) (t : ItemType) : Context :=
  if s.length < s.capacity - 1 then
    { ctx with container_stack := some { s with
        container_states := s.container_states.set s.length.toNat (.init t)
        length := s.length + 1 } }
  else { ctx with container_stack := some s, err_no := .stackOverflow }

/-- `ccpcp_unpack_context_push_container_state`. -/
def pushContainerState (ctx : Context) (t : ItemType) : Context :=
  match ctx.container_stack with
  | none => ctx
  | some s =>
    if s.length = s.capacity then
      match ctx.overflow_handler with
      | none => { ctx with err_no := .stackOverflow }
      | some hnd =>
        let ctx := { ctx with container_stack := some (hnd s).1, requests := ctx.requests + 1 }
        if (hnd s).2 < 0 then { ctx with err_no := .stackOverflow }
        else putState ctx (hnd s).1 t
    else putState ctx s t

/-- `ccpcp_unpack_context_pop_container_state`. -/
def popContainerState (ctx : Context) : Context :=
  match ctx.container_stack with
  | none => ctx
  | some s =>
    if s.length > 0 then { ctx with container_stack := some { s with length := s.length - 1 } }
    else ctx

/-- `ccpcp_unpack_context_top_container_state`: the place of the top state. -/
def topContainerState (ctx : Context) : Option Nat :=
  match ctx.container_stack with
  | none => none
  | some s => if s.length > 0 then some (s.length.toNat - 1) else none

/-- The state at a place of the array is changed. -/
def modifyState (ctx : Context) (i : Nat) (f : State → State) : Context :=
  { ctx with container_stack := ctx.container_stack.map fun s =>
      { s with container_states := s.container_states.modify i f } }

def ItemType.isContainerBegin : ItemType → Bool
  | .list | .map | .imap | .metaMap => true
  | _ => false

/-- The state at a place is the one of a metamap. -/
def isMetaAt (ctx : Context) (i : Nat) : Bool :=
  match ctx.container_stack with
  | none => false
  | some s => s.container_states[i]?.any (·.container_type = .metaMap)

/-- The item is counted in the state on the top. -/
def countItem (ctx : Context) (t : ItemType) : Context :=
  match topContainerState ctx with
  | some top =>
    if t = .containerEnd then ctx
    else modifyState ctx top fun s => { s with item_count := s.item_count + 1 }
  | none => ctx

/-- The end of a container; a metamap is not counted in the state below it. -/
def leaveContainer (ctx : Context) (top : Option Nat) : Context :=
  let ctx := popContainerState ctx
  match topContainerState ctx, top with
  | some prev, some top =>
    if isMetaAt ctx top then modifyState ctx prev fun s => { s with item_count := s.item_count - 1 }
    else ctx
  | _, _ => ctx

/-- `ccpcp_unpack_context_update_container_state`. -/
def updateContainerState (ctx : Context) (t : ItemType) : Context :=
  let top := topContainerState ctx
  let ctx := countItem ctx t
  let ctx := if t.isContainerBegin then pushContainerState ctx t else ctx
  if t = .containerEnd then leaveContainer ctx top else ctx

/-! ## the calls -/

inductive Format where
  | chainPack
  | cpon
deriving DecidableEq

/-- What a call of `unpack_next` comes to before the stack is looked at: an item, another chunk of
a string or no byte at all, or an error. -/
inductive Call where
  | item (t : ItemType)
  | returned
  | error
deriving DecidableEq

/-- `cchainpack_unpack_next` and `ccpon_unpack_next`, as far as they touch the stack. The
latter looks for a state where a container ends. -/
def unpackNext (fmt : Format) (ctx : Context) (call : Call) : Context :=
  if ctx.err_no ≠ .ok then ctx
  else
    match call with
    | .error => { ctx with err_no := .parser }
    | .returned => ctx
    | .item t =>
      if fmt = .cpon ∧ t = .containerEnd ∧ ctx.container_stack.isSome ∧ topContainerState ctx = none then
        { ctx with err_no := .stackUnderflow }
      else updateContainerState ctx t

/-- All calls of a document. -/
def unpack (fmt : Format) (ctx : Context) (calls : List Call) : Context :=
  calls.foldl (unpackNext fmt) ctx

/-- The calls of a well-nested document, and its depth. -/
inductive Nested : List Call → Nat → Prop where
  | nil : Nested [] 0
  | returned {calls : List Call} {d : Nat} : Nested calls d → Nested (.returned :: calls) d
  | scalar {t : ItemType} {calls : List Call} {d : Nat} : t.isContainerBegin = false →
      t ≠ .containerEnd → Nested calls d → Nested (.item t :: calls) d
  | container {t : ItemType} {inner calls : List Call} {d e : Nat} : t.isContainerBegin = true →
      Nested inner d → Nested calls e →
      Nested (.item t :: (inner ++ .item .containerEnd :: calls)) (max (d + 1) e)

/-! ## what a call does to the length -/

/-- No error, and `n` states in an array of this capacity. -/
structure Holds (ctx : Context) (n : Nat) (capacity : UInt64) : Prop where
  err_no : ctx.err_no = .ok
  stack : ∃ s, ctx.container_stack = some s ∧ s.length.toNat = n ∧ s.capacity = capacity

section Calls

variable {fmt : Format} {ctx : Context} {n : Nat} {capacity : UInt64} {t : ItemType}

theorem Holds.modifyState (h : Holds ctx n capacity) (i : Nat) (f : State → State) :
    Holds (modifyState ctx i f) n capacity := by
  obtain ⟨herr, s, hs, hlen, hcap⟩ := h
  refine ⟨herr, { s with container_states := s.container_states.modify i f }, ?_, hlen, hcap⟩
  simp only [ContainerStack.modifyState, hs, Option.map_some]

theorem Holds.topContainerState (h : Holds ctx n capacity) :
    topContainerState ctx = if 0 < n then some (n - 1) else none := by
  obtain ⟨-, s, hs, rfl, -⟩ := h
  rw [ContainerStack.topContainerState, hs]
  rfl

theorem toNat_sub_one (h : 0 < capacity.toNat) : (capacity - 1).toNat = capacity.toNat - 1 := by
  have hle : (1 : UInt64) ≤ capacity := UInt64.le_iff_toNat_le.mpr h
  rw [UInt64.toNat_sub_of_le _ _ hle]
  rfl

theorem lt_sub_one_iff {x : UInt64} (h : x.toNat < capacity.toNat) :
    x < capacity - 1 ↔ x.toNat + 1 < capacity.toNat := by
  rw [UInt64.lt_iff_toNat_lt, toNat_sub_one (by omega)]
  omega

/-- A push takes the next place, but not the last one. -/
theorem Holds.push (h : Holds ctx n capacity) (hn : n < capacity.toNat) (t : ItemType) :
    (n + 1 < capacity.toNat → Holds (pushContainerState ctx t) (n + 1) capacity) ∧
      (n + 1 = capacity.toNat → (pushContainerState ctx t).err_no = .stackOverflow) := by
  obtain ⟨herr, s, hs, rfl, rfl⟩ := h
  have hne : s.length ≠ s.capacity := by
    intro heq
    rw [heq] at hn
    exact Nat.lt_irrefl _ hn
  have hpush : pushContainerState ctx t = putState ctx s t := by
    rw [pushContainerState, hs]
    exact if_neg hne
  rw [hpush, putState]
  constructor
  · intro hlt
    rw [if_pos ((lt_sub_one_iff hn).mpr hlt)]
    refine ⟨herr, _, rfl, ?_, rfl⟩
    have hbig := s.capacity.toNat_lt
    rw [UInt64.toNat_add]
    change (s.length.toNat + 1) % 2 ^ 64 = _
    omega
  · intro hlast
    rw [if_neg fun hlt => by
      have := (lt_sub_one_iff hn).mp hlt
      omega]

theorem Holds.pop (h : Holds ctx (n + 1) capacity) : Holds (popContainerState ctx) n capacity := by
  obtain ⟨herr, s, hs, hlen, hcap⟩ := h
  have hpos : s.length > 0 := UInt64.lt_iff_toNat_lt.mpr (by rw [hlen]; exact Nat.succ_pos n)
  have hle : (1 : UInt64) ≤ s.length := UInt64.le_iff_toNat_le.mpr (by rw [hlen]; exact Nat.succ_pos n)
  rw [popContainerState, hs]
  simp only [if_pos hpos]
  refine ⟨herr, _, rfl, ?_, hcap⟩
  rw [UInt64.toNat_sub_of_le _ _ hle, hlen]
  rfl

theorem Holds.countItem (h : Holds ctx n capacity) (t : ItemType) :
    Holds (countItem ctx t) n capacity := by
  unfold ContainerStack.countItem
  split
  · split
    · exact h
    · exact h.modifyState _ _
  · exact h

theorem Holds.leaveContainer (h : Holds ctx (n + 1) capacity) (top : Option Nat) :
    Holds (leaveContainer ctx top) n capacity := by
  have hpop := h.pop
  unfold ContainerStack.leaveContainer
  dsimp only
  split
  · split
    · exact hpop.modifyState _ _
    · exact hpop
  · exact hpop

theorem begin_ne_end (h : t.isContainerBegin = true) : t ≠ .containerEnd := by
  rintro rfl
  cases h

/-- A call that reads an item comes to the stack, unless a container ends that never began. -/
theorem unpackNext_item (herr : ctx.err_no = .ok)
    (h : t = .containerEnd → topContainerState ctx ≠ none) :
    unpackNext fmt ctx (.item t) = updateContainerState ctx t := by
  rw [unpackNext, if_neg (not_not.mpr herr)]
  exact if_neg fun hend => h hend.2.1 hend.2.2.2

theorem Holds.scalar (h : Holds ctx n capacity) (hbegin : t.isContainerBegin = false)
    (hend : t ≠ .containerEnd) : Holds (unpackNext fmt ctx (.item t)) n capacity := by
  rw [unpackNext_item h.err_no fun he => absurd he hend, updateContainerState]
  simp only [hbegin, Bool.false_eq_true, if_false, if_neg hend]
  exact h.countItem t

/-- The begin of a container. -/
theorem Holds.container (h : Holds ctx n capacity) (hn : n < capacity.toNat)
    (hbegin : t.isContainerBegin = true) (fmt : Format) :
    (n + 1 < capacity.toNat → Holds (unpackNext fmt ctx (.item t)) (n + 1) capacity) ∧
      (n + 1 = capacity.toNat → (unpackNext fmt ctx (.item t)).err_no = .stackOverflow) := by
  have hend := begin_ne_end hbegin
  rw [unpackNext_item h.err_no fun he => absurd he hend, updateContainerState]
  simp only [hbegin, if_true, if_neg hend]
  exact (h.countItem t).push hn t

theorem Holds.returned (h : Holds ctx n capacity) : Holds (unpackNext fmt ctx .returned) n capacity := by
  rw [unpackNext, if_neg (not_not.mpr h.err_no)]
  exact h

theorem Holds.containerEnd (h : Holds ctx (n + 1) capacity) :
    Holds (unpackNext fmt ctx (.item .containerEnd)) n capacity := by
  have htop : ContainerStack.topContainerState ctx ≠ none := by
    rw [h.topContainerState, if_pos (Nat.succ_pos n)]
    exact Option.some_ne_none n
  rw [unpackNext_item h.err_no fun _ => htop]
  exact (h.countItem .containerEnd).leaveContainer _

/-! ## whole documents -/

theorem unpack_container (fmt : Format) (ctx : Context) (t : ItemType) (inner calls : List Call) :
    unpack fmt ctx (.item t :: (inner ++ .item .containerEnd :: calls)) =
      unpack fmt (unpackNext fmt (unpack fmt (unpackNext fmt ctx (.item t)) inner)
        (.item .containerEnd)) calls := by
  rw [unpack, List.foldl_cons, List.foldl_append, List.foldl_cons]
  rfl

/-- After an error nothing is done. -/
theorem unpackNext_of_error (h : ctx.err_no ≠ .ok) (call : Call) : unpackNext fmt ctx call = ctx :=
  if_pos h

theorem unpack_of_error (h : ctx.err_no ≠ .ok) (calls : List Call) : unpack fmt ctx calls = ctx := by
  induction calls with
  | nil => rfl
  | cons call calls ih =>
    rw [unpack, List.foldl_cons, unpackNext_of_error h]
    exact ih

/-- A document that fits leaves the stack as long as it was. -/
theorem holds_unpack {calls : List Call} {d : Nat} (hcalls : Nested calls d) (h : Holds ctx n capacity)
    (hd : d = 0 ∨ n + d < capacity.toNat) : Holds (unpack fmt ctx calls) n capacity := by
  induction hcalls generalizing ctx n with
  | nil => exact h
  | returned _ ih => exact ih h.returned hd
  | scalar hbegin hend _ ih => exact ih (h.scalar hbegin hend) hd
  | container hbegin _ _ ihInner ihRest =>
    rw [unpack_container]
    have hinner := ihInner ((h.container (by omega) hbegin fmt).1 (by omega)) (by omega)
    exact ihRest hinner.containerEnd (by omega)

theorem ne_ok_of_eq {rc : Rc} (h : rc = .stackOverflow) : rc ≠ .ok := by
  rw [h]
  decide

/-- A document that does not fit ends in an error. -/
theorem unpack_overflows {calls : List Call} {d : Nat} (hcalls : Nested calls d)
    (h : Holds ctx n capacity) (hn : n < capacity.toNat) (hd : capacity.toNat ≤ n + d) :
    (unpack fmt ctx calls).err_no = .stackOverflow := by
  induction hcalls generalizing ctx n with
  | nil => omega
  | returned _ ih => exact ih h.returned hn hd
  | scalar hbegin hend _ ih => exact ih (h.scalar hbegin hend) hn hd
  | @container t inner calls d e hbegin hinner hcalls ihInner ihRest =>
    rw [unpack_container]
    obtain ⟨hpush, hfull⟩ := h.container hn hbegin fmt
    by_cases hlast : n + 1 = capacity.toNat
    · have herr := ne_ok_of_eq (hfull hlast)
      rw [unpack_of_error herr, unpackNext_of_error herr, unpack_of_error herr]
      exact hfull hlast
    · have hopen := hpush (by omega)
      by_cases hfits : n + 1 + d < capacity.toNat
      · exact ihRest (holds_unpack hinner hopen (.inr hfits)).containerEnd hn (by omega)
      · have hover := ihInner hopen (by omega) (by omega)
        have herr := ne_ok_of_eq hover
        rwa [unpackNext_of_error herr, unpack_of_error herr]

/-- No error of the stack, and no state on it. -/
structure Clean (ctx : Context) : Prop where
  overflow : ctx.err_no ≠ .stackOverflow
  underflow : ctx.err_no ≠ .stackUnderflow
  empty : ctx.container_stack.map (·.length) = some 0

theorem clean_iff {states : List State} {hnd : Option Handler} {calls : List Call} {d : Nat}
    (hcalls : Nested calls d) (hd : d ≤ capacity.toNat) :
    Clean (unpack fmt (.init states capacity hnd) calls) ↔ d = 0 ∨ d < capacity.toNat := by
  have hinit : Holds (.init states capacity hnd) 0 capacity := ⟨rfl, _, rfl, rfl, rfl⟩
  constructor
  · intro hclean
    by_contra hno
    exact hclean.overflow (unpack_overflows hcalls hinit (by omega) (by omega))
  · intro hfits
    have hend : Holds (unpack fmt (.init states capacity hnd) calls) 0 capacity :=
      holds_unpack hcalls hinit (by omega)
    obtain ⟨herr, s, hs, hlen, -⟩ := hend
    refine ⟨by rw [herr]; decide, by rw [herr]; decide, ?_⟩
    have hzero : s.length = 0 := UInt64.toNat_inj.mp hlen
    rw [hs, Option.map_some, hzero]

/-! ## the handler, and what stays -/

/-- A handler that leaves the states on the stack as they are. -/
def Keeps (hnd : Handler) : Prop := ∀ s : Stack, (hnd s).1.length = s.length ∧
  (hnd s).1.container_states.take s.length.toNat = s.container_states.take s.length.toNat

variable {s : Stack} {hnd : Handler}

theorem putState_requests (ctx : Context) (s : Stack) (t : ItemType) :
    (putState ctx s t).requests = ctx.requests := by
  unfold putState
  split <;> rfl

/-- A push that fails has asked the handler, but not where one place is left. -/
theorem push_asks_iff (herr : ctx.err_no = .ok) (hs : ctx.container_stack = some s)
    (hhnd : ctx.overflow_handler = some hnd) (hle : s.length ≤ s.capacity) :
    ((pushContainerState ctx t).err_no = .stackOverflow →
      (pushContainerState ctx t).requests = ctx.requests + 1) ↔
      s.length.toNat + 1 ≠ s.capacity.toNat := by
  have hle' := UInt64.le_iff_toNat_le.mp hle
  by_cases hfull : s.length = s.capacity
  · have hasked : (pushContainerState ctx t).requests = ctx.requests + 1 := by
      rw [pushContainerState, hs]
      simp only [if_pos hfull, hhnd]
      split
      · rfl
      · exact putState_requests _ _ _
    refine iff_of_true (fun _ => hasked) ?_
    rw [hfull]
    omega
  · have hlt : s.length.toNat < s.capacity.toNat := by
      have := mt UInt64.toNat_inj.mp hfull
      omega
    have hpush : pushContainerState ctx t = putState ctx s t := by
      rw [pushContainerState, hs]
      exact if_neg hfull
    rw [hpush, putState_requests]
    constructor
    · intro hasked hlast
      have hover : (putState ctx s t).err_no = .stackOverflow := by
        rw [putState, if_neg fun h => by
          have := (lt_sub_one_iff hlt).mp h
          omega]
      exact absurd (hasked hover) (Nat.ne_of_lt (Nat.lt_succ_self _))
    · intro hroom hover
      rw [putState, if_pos ((lt_sub_one_iff hlt).mpr (by omega))] at hover
      exact absurd (herr.symm.trans hover) (by decide)

/-- The states that were on the stack are on it. -/
def Unchanged (s : Stack) (ctx : Context) : Prop := ∃ s', ctx.container_stack = some s' ∧
  s'.length = s.length ∧
  s'.container_states.take s.length.toNat = s.container_states.take s.length.toNat

theorem unchanged_of_putState {s' : Stack} (herr : ctx.err_no = .ok)
    (hs : s'.length = s.length ∧
      s'.container_states.take s.length.toNat = s.container_states.take s.length.toNat)
    (hfail : (putState ctx s' t).err_no ≠ .ok) : Unchanged s (putState ctx s' t) := by
  unfold putState at *
  split
  · next hlt =>
    rw [if_pos hlt] at hfail
    exact absurd herr hfail
  · exact ⟨s', rfl, hs⟩

/-- A push that fails leaves the states alone. -/
theorem unchanged_of_push (herr : ctx.err_no = .ok) (hs : ctx.container_stack = some s)
    (hhnd : ∀ hnd, ctx.overflow_handler = some hnd → Keeps hnd)
    (hfail : (pushContainerState ctx t).err_no ≠ .ok) : Unchanged s (pushContainerState ctx t) := by
  unfold pushContainerState at hfail ⊢
  rw [hs] at hfail ⊢
  by_cases hfull : s.length = s.capacity
  · simp only [if_pos hfull] at hfail ⊢
    cases h : ctx.overflow_handler with
    | none => exact ⟨s, rfl, rfl, rfl⟩
    | some hnd =>
      simp only [h] at hfail ⊢
      have hkeeps := hhnd hnd h s
      split
      · exact ⟨(hnd s).1, rfl, hkeeps⟩
      · next hrc =>
        rw [if_neg hrc] at hfail
        exact unchanged_of_putState herr hkeeps hfail
  · simp only [if_neg hfull] at hfail ⊢
    exact unchanged_of_putState herr ⟨rfl, rfl⟩ hfail

/-- A pop from the empty stack does nothing. -/
theorem pop_empty (hs : ctx.container_stack = some s) (h : s.length = 0) :
    popContainerState ctx = ctx := by
  unfold popContainerState
  rw [hs]
  exact if_neg (by rw [h]; decide)

end Calls

/-- A document that is nested as deep as the array is long does not fit; the handler is asked
at the end of the array, and not one place before it; what fails changes no state. -/
theorem containerStack_iff (fmt : Format) {states : List State} {capacity : UInt64}
    {hnd : Option Handler} {calls : List Call} {d : Nat} (hcalls : Nested calls d)
    (hd : d ≤ capacity.toNat) {ctx : Context} {s : Stack} (t : ItemType)
    (herr : ctx.err_no = .ok) (hs : ctx.container_stack = some s) (hle : s.length ≤ s.capacity)
    (hkeeps : ∀ hnd, ctx.overflow_handler = some hnd → Keeps hnd) :
    (Clean (unpack fmt (.init states capacity hnd) calls) ↔ d = 0 ∨ d < capacity.toNat) ∧
      (ctx.overflow_handler.isSome → (((pushContainerState ctx t).err_no = .stackOverflow →
        (pushContainerState ctx t).requests = ctx.requests + 1) ↔
        s.length.toNat + 1 ≠ s.capacity.toNat)) ∧
      ((pushContainerState ctx t).err_no ≠ .ok → Unchanged s (pushContainerState ctx t)) ∧
      (s.length = 0 → popContainerState ctx = ctx) := by
  refine ⟨clean_iff hcalls hd, fun hsome => ?_, unchanged_of_push herr hs hkeeps, pop_empty hs⟩
  obtain ⟨hnd, hhnd⟩ := Option.isSome_iff_exists.mp hsome
  exact push_asks_iff herr hs hhnd hle

/-- A list of one number in an array of two places. -/
theorem containerStack_list :
    Clean (unpack .cpon (.init [.init .invalid, .init .invalid] 2 none)
      [.item .list, .item .int, .item .containerEnd]) := by
  have hcalls : Nested [.item .list, .item .int, .item .containerEnd] 1 :=
    @Nested.container .list [.item .int] [] 0 0 rfl (.scalar rfl (by decide) .nil) .nil
  exact (@containerStack_iff .cpon _ 2 none _ 1 hcalls (by decide) (.init [] 2 none) _ .list rfl rfl
    (by decide) (fun _ h => by cases h)).1.mpr (by decide)

/-- A list in an array of one place. -/
theorem not_containerStack : ¬ ∀ (fmt : Format) (states : List State) (capacity : UInt64)
    (hnd : Option Handler) (calls : List Call) (d : Nat), states.length = capacity.toNat →
    Nested calls d → d ≤ capacity.toNat → Clean (unpack fmt (.init states capacity hnd) calls) := by
  intro h
  have hcalls : Nested [.item .list, .item .containerEnd] 1 :=
    @Nested.container .list [] [] 0 0 rfl .nil .nil
  exact (h .cpon [.init .invalid] 1 none _ 1 rfl hcalls (by decide)).overflow rfl

end LibShv.ContainerStack
