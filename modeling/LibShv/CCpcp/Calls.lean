import LibShv.CCpcp
import LibShv.Lib.Chunks

/-!
# LibShv.CCpcp.Calls

The calls of `unpack_next` for one string or blob, up to the one that sets `last_chunk`, in
either format.
-/

namespace LibShv

open ByteReader Chunks

/-- Nothing more of the item is to come. -/
def CCpcpItem.lastChunk : CCpcpItem → Bool
  | .string it | .blob it => it.lastChunk
  | _ => true

/-- The chunk of a string or a blob. -/
def CCpcpItem.chunk : CCpcpItem → Bytes
  | .string it | .blob it => it.chunk
  | _ => []

/-- The items of the calls of `next` up to the one that sets `last_chunk`. -/
def callsOf (next : Unpack Unit) (fuel : Nat) : Unpack (List CCpcpItem) :=
  callUntilLast .outOfFuel (fun _ => do next; getItem) CCpcpItem.lastChunk fuel .invalid

/-- The chunks of a string whose item is set up. -/
def chunksOf (step : CCpcpString → Unpack CCpcpString) :
    Nat → CCpcpString → Unpack (List CCpcpString) :=
  callUntilLast .outOfFuel step CCpcpString.lastChunk

/-- What the chunks are of. -/
def payloadOf (calls : List CCpcpString) : Bytes := calls.flatMap CCpcpString.chunk

/-- The calls deliver this payload, the last one of them alone sets `last_chunk`, and the reader
is left behind the item. -/
def Delivers (p rest : Bytes) : EStateM.Result Fault (Cursor UnpackContext) (List CCpcpItem) → Prop
  | .ok calls c =>
    calls.flatMap CCpcpItem.chunk = p ∧ c.input = rest ∧
      ∃ init last, calls = init ++ [last] ∧ last.lastChunk = true ∧ ∀ x ∈ init, x.lastChunk = false
  | .error _ _ => False

theorem ofInput_unpackTakeByte : OfInput unpackTakeByte := by
  intro input
  cases input with
  | nil => exact .inr ⟨_, fun c hc => ⟨_, unpackTakeByte_nil hc⟩⟩
  | cons b bs =>
    exact .inl ⟨b, bs, Nat.le_succ _, fun c hc => ⟨_, unpackTakeByte_cons hc, rfl, rfl⟩⟩

/-- `next` goes on with an unfinished string by `step`. -/
structure Continues (next : Unpack Unit) (step : CCpcpString → Unpack CCpcpString)
    (item : CCpcpString → CCpcpItem) : Prop where
  lastChunk : ∀ it, (item it).lastChunk = it.lastChunk
  chunk : ∀ it, (item it).chunk = it.chunk
  ofInput : ∀ it, OfInput (step it)
  next : ∀ it (c : Cursor UnpackContext), c.reg.errNo = .ok → c.reg.item = item it →
    it.lastChunk = false → next c = (do setItem (item (← step it)) : Unpack Unit) c

section Sim

variable {next : Unpack Unit} {step : CCpcpString → Unpack CCpcpString}
  {item : CCpcpString → CCpcpItem} {it : CCpcpString} {c c₀ : Cursor UnpackContext}

/-- The next call is about the next chunk of `it`. -/
structure Resumes (next : Unpack Unit) (step : CCpcpString → Unpack CCpcpString)
    (item : CCpcpString → CCpcpItem) (it : CCpcpString) (c₀ c : Cursor UnpackContext) : Prop where
  ok : ∀ it' c₀', step it c₀ = .ok it' c₀' → ∃ c', next c = .ok () c' ∧ c'.reg.item = item it' ∧
    c'.reg.errNo = .ok ∧ c'.input = c₀'.input
  error : ∀ e c₀', step it c₀ = .error e c₀' → ∃ c', next c = .error e c'

/-- A call that puts the next chunk of `it` into the item. -/
theorem Resumes.of_start (hstep : OfInput (step it)) {c₁ : Cursor UnpackContext}
    (herr : c₁.reg.errNo = .ok) (hinput : c₁.input = c₀.input)
    (hnext : next c = (do setItem (item (← step it)) : Unpack Unit) c₁) :
    Resumes next step item it c₀ c where
  ok it' c₀' h := by
    obtain ⟨c', hrun, hinput', hreg⟩ := hstep.ok_of_ok h hinput
    refine ⟨_, hnext.trans (bind_of_ok hrun), rfl, ?_, hinput'⟩
    change c'.reg.errNo = .ok
    rw [hreg, herr]
  error e c₀' h := by
    obtain ⟨c', hrun⟩ := hstep.error_of_error h hinput
    exact ⟨c', hnext.trans (bind_of_error hrun)⟩

/-- The calls deliver the chunks of `it`. -/
theorem Resumes.calls (hcont : Continues next step item) {n : Nat}
    (h : Resumes next step item it c₀ c) (x : CCpcpItem) :
    (∀ calls c₀', chunksOf step n it c₀ = .ok calls c₀' →
      ∃ c', callUntilLast .outOfFuel (fun _ => do next; getItem) CCpcpItem.lastChunk n x c =
        .ok (calls.map item) c' ∧ c'.input = c₀'.input) ∧
    ∀ e c₀', chunksOf step n it c₀ = .error e c₀' →
      ∃ c', callUntilLast .outOfFuel (fun _ => do next; getItem) CCpcpItem.lastChunk n x c =
        .error e c' := by
  induction n generalizing it c₀ c x with
  | zero =>
    refine ⟨fun calls c₀' hchunks => ?_, fun e c₀' hchunks => ?_⟩
    · cases hchunks
    · injection hchunks with he
      exact ⟨c, he ▸ rfl⟩
  | succ n ih =>
    rw [chunksOf, callUntilLast, bind_apply]
    cases hcall : step it c₀ with
    | error e c₁ =>
      obtain ⟨c', hrun⟩ := h.error _ _ hcall
      refine ⟨fun calls c₀' hchunks => ?_, fun e' c₀' hchunks => ?_⟩
      · cases hchunks
      · injection hchunks with he
        exact ⟨c', he ▸ callUntilLast_of_error (bind_of_error hrun) n⟩
    | ok it' c₁ =>
      dsimp only
      obtain ⟨c', hrun, hitem, herr, hinput⟩ := h.ok _ _ hcall
      have hnext : (do next; getItem : Unpack CCpcpItem) c = .ok (item it') c' := by
        rw [bind_of_ok hrun, getItem_apply, hitem]
      by_cases hlast : it'.lastChunk = true
      · rw [if_pos hlast]
        refine ⟨fun calls c₀' hchunks => ?_, fun e c₀' hchunks => ?_⟩
        · injection hchunks with hcalls hc
          subst hcalls hc
          exact ⟨c', callUntilLast_of_last hnext ((hcont.lastChunk _).trans hlast) n, hinput⟩
        · cases hchunks
      · rw [if_neg hlast, bind_apply, ← chunksOf]
        have hmore : it'.lastChunk = false := by simpa using hlast
        have hresumes : Resumes next step item it' c₁ c' :=
          .of_start (hcont.ofInput it') herr hinput (hcont.next _ _ herr hitem hmore)
        obtain ⟨hok, herror⟩ := ih hresumes (item it')
        cases hrest : chunksOf step n it' c₁ with
        | error e c₂ =>
          obtain ⟨c'', hc''⟩ := herror _ _ hrest
          refine ⟨fun calls c₀' hchunks => ?_, fun e' c₀' hchunks => ?_⟩
          · cases hchunks
          · injection hchunks with he
            exact ⟨c'', he ▸ callUntilLast_of_more_error hnext ((hcont.lastChunk _).trans hmore) hc''⟩
        | ok calls' c₂ =>
          obtain ⟨c'', hcalls, hinput'⟩ := hok _ _ hrest
          refine ⟨fun calls c₀' hchunks => ?_, fun e c₀' hchunks => ?_⟩
          · injection hchunks with hc hc₂
            subst hc hc₂
            exact ⟨c'', callUntilLast_cons hnext ((hcont.lastChunk _).trans hmore) hcalls, hinput'⟩
          · cases hchunks

theorem Continues.flatMap_chunk (hcont : Continues next step item) (calls : List CCpcpString) :
    (calls.map item).flatMap CCpcpItem.chunk = payloadOf calls := by
  rw [List.flatMap_map, payloadOf]
  exact congrArg (List.flatMap · calls) (funext hcont.chunk)

theorem Resumes.delivered (hcont : Continues next step item) (h : Resumes next step item it c₀ c)
    {n : Nat} {calls : List CCpcpString} {c₀' : Cursor UnpackContext}
    (hchunks : chunksOf step n it c₀ = .ok calls c₀') :
    Delivers (payloadOf calls) c₀'.input (callsOf next n c) := by
  obtain ⟨c', hcalls, hinput⟩ := (h.calls hcont .invalid).1 _ _ hchunks
  rw [callsOf, hcalls]
  exact ⟨hcont.flatMap_chunk calls, hinput, isLast_of_callUntilLast hcalls⟩

end Sim

end LibShv
