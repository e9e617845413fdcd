import LibShv.Lib.ByteReader

/-!
# LibShv.Lib.Chunks

A payload that is read unit by unit up to its end, and readers that deliver it in chunks
of at most so many bytes. Where the bounds of the chunks lie does not matter for what is
delivered.
-/

namespace LibShv.Chunks

open ByteReader

/-! ## payloads -/

/-- The next byte of a payload or its end, with the input behind it; nothing if the input is
bad or breaks off. -/
abbrev Next := List UInt8 → Option (Option UInt8 × List UInt8)

/-- The payload at the start of an input, and what is behind its end. -/
inductive Payload (next : Next) : List UInt8 → List UInt8 → List UInt8 → Prop where
  | done {input rest : List UInt8} (h : next input = some (none, rest)) : Payload next input [] rest
  | more {input input' p rest : List UInt8} {b : UInt8} (h : next input = some (some b, input'))
      (htail : Payload next input' p rest) : Payload next input (b :: p) rest

variable {next : Next} {input p rest : List UInt8}

theorem Payload.unique {p' rest' : List UInt8} (h : Payload next input p rest)
    (h' : Payload next input p' rest') : p = p' ∧ rest = rest' := by
  induction h generalizing p' rest' with
  | done h =>
    cases h' with
    | done h' =>
      rw [h] at h'
      injection h' with h'
      injection h' with _ h'
      exact ⟨rfl, h'⟩
    | more h' =>
      rw [h] at h'
      cases h'
  | more h htail ih =>
    cases h' with
    | done h' =>
      rw [h] at h'
      cases h'
    | more h' htail' =>
      rw [h] at h'
      injection h' with h'
      injection h' with hb hinput
      injection hb with hb
      subst hb hinput
      obtain ⟨rfl, rfl⟩ := ih htail'
      exact ⟨rfl, rfl⟩

/-- Every unit takes a byte at least. -/
def Shortens (next : Next) : Prop :=
  ∀ input b? rest, next input = some (b?, rest) → rest.length < input.length

theorem Payload.length_lt (hs : Shortens next) (h : Payload next input p rest) :
    p.length + rest.length < input.length := by
  induction h with
  | done h =>
    rw [List.length_nil, Nat.zero_add]
    exact hs _ _ _ h
  | more h _ ih =>
    have := hs _ _ _ h
    rw [List.length_cons]
    omega

/-! ## chunks -/

section Follows

variable {ε ρ : Type}

/-- A reader of chunks: the room that is left and the bytes of the chunk so far give the chunk
and whether the end was reached. -/
abbrev Chunker (ε ρ : Type) := Nat → List UInt8 → Parser ε ρ (List UInt8 × Bool)

/-- A reader of chunks goes along the payload. It may end a chunk before it is full, unless
it is `exact`. -/
structure Follows (next : Next) (exact : Prop) (chunk : Chunker ε ρ) : Prop where
  zero : ∀ acc c, chunk 0 acc c = .ok (acc, false) c
  done : ∀ room acc (c : Cursor ρ) rest, next c.input = some (none, rest) →
    ∃ c', chunk (room + 1) acc c = .ok (acc, true) c' ∧ c'.input = rest ∧ c'.reg = c.reg
  more : ∀ room acc (c : Cursor ρ) b rest, next c.input = some (some b, rest) →
    ∃ k c', k ≤ room ∧ (exact → k = room) ∧ c'.input = rest ∧ c'.reg = c.reg ∧
      chunk (room + 1) acc c = chunk k (acc ++ [b]) c'

variable {exact : Prop} {chunk : Chunker ε ρ}

/-- The last chunk is the rest of the payload; another one is a part of it that is not empty
if there is room. -/
theorem Follows.deliver (hf : Follows next exact chunk) {c : Cursor ρ}
    (hp : Payload next c.input p rest) (room : Nat) (acc : List UInt8) :
    (∃ c', chunk room acc c = .ok (acc ++ p, true) c' ∧ c'.input = rest ∧ c'.reg = c.reg ∧
      p.length < room) ∨
    ∃ p₁ p₂ c', p = p₁ ++ p₂ ∧ (room ≠ 0 → p₁ ≠ []) ∧ p₁.length ≤ room ∧
      (exact → p₁.length = room) ∧ chunk room acc c = .ok (acc ++ p₁, false) c' ∧ c'.reg = c.reg ∧
      Payload next c'.input p₂ rest := by
  generalize hinput : c.input = input at hp
  induction hp generalizing c room acc with
  | @done input rest h =>
    subst hinput
    cases room with
    | zero =>
      refine .inr ⟨[], [], c, rfl, fun h => absurd rfl h, Nat.le_refl _, fun _ => rfl, ?_, rfl, .done h⟩
      rw [hf.zero, List.append_nil]
    | succ room =>
      obtain ⟨c', hrun, hrest, hreg⟩ := hf.done room acc c _ h
      refine .inl ⟨c', ?_, hrest, hreg, Nat.succ_pos _⟩
      rw [hrun, List.append_nil]
  | @more input input' p rest b h htail ih =>
    subst hinput
    cases room with
    | zero =>
      refine .inr ⟨[], b :: p, c, rfl, fun h => absurd rfl h, Nat.le_refl _, fun _ => rfl, ?_, rfl,
        .more h htail⟩
      rw [hf.zero, List.append_nil]
    | succ room =>
      obtain ⟨k, c₁, hk, hexact, hinput₁, hreg₁, hrun⟩ := hf.more room acc c b _ h
      rw [hrun]
      rcases ih k (acc ++ [b]) hinput₁ with ⟨c', hc', hrest, hreg, hlen⟩ |
        ⟨p₁, p₂, c', hp, -, hlen, hfull, hc', hreg, hpayload⟩
      · refine .inl ⟨c', ?_, hrest, hreg.trans hreg₁, ?_⟩
        · rw [hc', List.append_assoc, List.singleton_append]
        · rw [List.length_cons]
          omega
      · refine .inr ⟨b :: p₁, p₂, c', ?_, fun _ => List.cons_ne_nil _ _, ?_, fun he => ?_, ?_,
          hreg.trans hreg₁, hpayload⟩
        · rw [hp, List.cons_append]
        · rw [List.length_cons]
          omega
        · rw [List.length_cons, hfull he, hexact he]
        · rw [hc', List.append_assoc, List.singleton_append]

end Follows

/-! ## parsers of the input alone -/

section OfInput

variable {ε ρ α β : Type}

/-- What `p` makes of an input does not depend on the rest of the cursor. It leaves the register
alone and puts back no more than it took. -/
def OfInput (p : Parser ε ρ α) : Prop :=
  ∀ input, (∃ a rest, rest.length ≤ input.length ∧ ∀ c : Cursor ρ, c.input = input →
    ∃ c', p c = .ok a c' ∧ c'.input = rest ∧ c'.reg = c.reg) ∨
    ∃ e, ∀ c : Cursor ρ, c.input = input → ∃ c', p c = .error e c'

theorem OfInput.pure (a : α) : OfInput (Pure.pure a : Parser ε ρ α) := fun input =>
  .inl ⟨a, input, Nat.le_refl _, fun c h => ⟨c, rfl, h, rfl⟩⟩

theorem OfInput.throw (e : ε) : OfInput (MonadExcept.throw e : Parser ε ρ α) := fun _ =>
  .inr ⟨e, fun c _ => ⟨c, rfl⟩⟩

theorem OfInput.ite {b : Prop} [Decidable b] {p q : Parser ε ρ α} (hp : OfInput p)
    (hq : OfInput q) : OfInput (if b then p else q) := by
  split
  · exact hp
  · exact hq

theorem OfInput.bind {p : Parser ε ρ α} {f : α → Parser ε ρ β} (hp : OfInput p)
    (hf : ∀ a, OfInput (f a)) : OfInput (p >>= f) := by
  intro input
  rcases hp input with ⟨a, rest, hle, ha⟩ | ⟨e, he⟩
  · rcases hf a rest with ⟨b, rest', hle', hb⟩ | ⟨e, he⟩
    · refine .inl ⟨b, rest', Nat.le_trans hle' hle, fun c hc => ?_⟩
      obtain ⟨c₁, hrun₁, hinput₁, hreg₁⟩ := ha c hc
      obtain ⟨c₂, hrun₂, hinput₂, hreg₂⟩ := hb c₁ hinput₁
      exact ⟨c₂, (bind_of_ok hrun₁).trans hrun₂, hinput₂, hreg₂.trans hreg₁⟩
    · refine .inr ⟨e, fun c hc => ?_⟩
      obtain ⟨c₁, hrun₁, hinput₁, -⟩ := ha c hc
      obtain ⟨c₂, hrun₂⟩ := he c₁ hinput₁
      exact ⟨c₂, (bind_of_ok hrun₁).trans hrun₂⟩
  · refine .inr ⟨e, fun c hc => ?_⟩
    obtain ⟨c', hrun⟩ := he c hc
    exact ⟨c', bind_of_error hrun⟩

/-- Two runs on one input. -/
theorem OfInput.ok_of_ok {p : Parser ε ρ α} (hp : OfInput p) {c c' c₁ : Cursor ρ} {a : α}
    (h : p c = .ok a c') (hinput : c₁.input = c.input) :
    ∃ c₁', p c₁ = .ok a c₁' ∧ c₁'.input = c'.input ∧ c₁'.reg = c₁.reg := by
  rcases hp c.input with ⟨b, rest, -, hb⟩ | ⟨e, he⟩
  · obtain ⟨c₂, hrun, hrest, -⟩ := hb c rfl
    rw [hrun] at h
    injection h with ha hc
    subst ha hc
    exact hrest ▸ hb c₁ hinput
  · obtain ⟨c₂, hrun⟩ := he c rfl
    rw [hrun] at h
    cases h

theorem OfInput.error_of_error {p : Parser ε ρ α} (hp : OfInput p) {c c' c₁ : Cursor ρ} {e : ε}
    (h : p c = .error e c') (hinput : c₁.input = c.input) : ∃ c₁', p c₁ = .error e c₁' := by
  rcases hp c.input with ⟨b, rest, -, hb⟩ | ⟨e', he⟩
  · obtain ⟨c₂, hrun, -⟩ := hb c rfl
    rw [hrun] at h
    cases h
  · obtain ⟨c₂, hrun⟩ := he c rfl
    rw [hrun] at h
    injection h with he' hc
    subst he' hc
    exact he c₁ hinput

theorem OfInput.length_le {p : Parser ε ρ α} (hp : OfInput p) {c c' : Cursor ρ} {a : α}
    (h : p c = .ok a c') : c'.input.length ≤ c.input.length := by
  rcases hp c.input with ⟨b, rest, hle, hb⟩ | ⟨e, he⟩
  · obtain ⟨c₂, hrun, hrest, -⟩ := hb c rfl
    rw [hrun] at h
    injection h with _ hc
    rw [← hc, hrest]
    exact hle
  · obtain ⟨c₂, hrun⟩ := he c rfl
    rw [hrun] at h
    cases h

end OfInput

/-! ## calls -/

section Calls

variable {ε ρ σ : Type} (outOfFuel : ε) (call : σ → Parser ε ρ σ) (isLast : σ → Bool)

/-- At most so many calls, up to the first one that delivers the last chunk. -/
def callUntilLast : Nat → σ → Parser ε ρ (List σ)
  | 0, _ => throw outOfFuel
  | n + 1, s => do
    let s ← call s
    if isLast s then return [s]
    else
      let rest ← callUntilLast n s
      return s :: rest

variable {outOfFuel call isLast} {s s' : σ} {c c' : Cursor ρ}

theorem callUntilLast_of_last (h : call s c = .ok s' c') (hlast : isLast s' = true) (n : Nat) :
    callUntilLast outOfFuel call isLast (n + 1) s c = .ok [s'] c' := by
  rw [callUntilLast, bind_of_ok h, if_pos hlast]
  rfl

theorem callUntilLast_of_error {e : ε} (h : call s c = .error e c') (n : Nat) :
    callUntilLast outOfFuel call isLast (n + 1) s c = .error e c' := by
  rw [callUntilLast, bind_of_error h]

theorem callUntilLast_of_more (h : call s c = .ok s' c') (hlast : isLast s' = false) (n : Nat) :
    callUntilLast outOfFuel call isLast (n + 1) s c =
      (do return s' :: (← callUntilLast outOfFuel call isLast n s')) c' := by
  rw [callUntilLast, bind_of_ok h, if_neg (by simp [hlast])]

theorem callUntilLast_cons (h : call s c = .ok s' c') (hlast : isLast s' = false) {n : Nat}
    {calls : List σ} {c'' : Cursor ρ}
    (hrest : callUntilLast outOfFuel call isLast n s' c' = .ok calls c'') :
    callUntilLast outOfFuel call isLast (n + 1) s c = .ok (s' :: calls) c'' := by
  rw [callUntilLast_of_more h hlast, bind_of_ok hrest]
  rfl

theorem callUntilLast_of_more_error (h : call s c = .ok s' c') (hlast : isLast s' = false) {n : Nat}
    {e : ε} {c'' : Cursor ρ} (hrest : callUntilLast outOfFuel call isLast n s' c' = .error e c'') :
    callUntilLast outOfFuel call isLast (n + 1) s c = .error e c'' := by
  rw [callUntilLast_of_more h hlast, bind_of_error hrest]

/-- The first calls deliver other chunks than the last one. -/
theorem isLast_of_callUntilLast {n : Nat} {calls : List σ}
    (h : callUntilLast outOfFuel call isLast n s c = .ok calls c') :
    ∃ init last, calls = init ++ [last] ∧ isLast last = true ∧ ∀ x ∈ init, isLast x = false := by
  induction n generalizing s c c' calls with
  | zero => cases h
  | succ n ih =>
    rw [callUntilLast, bind_apply] at h
    cases hcall : call s c with
    | error e c₁ =>
      rw [hcall] at h
      cases h
    | ok s₁ c₁ =>
      rw [hcall] at h
      dsimp only at h
      by_cases hlast : isLast s₁ = true
      · rw [if_pos hlast] at h
        injection h with hcalls
        exact ⟨[], s₁, hcalls.symm, hlast, List.forall_mem_nil _⟩
      · rw [if_neg hlast, bind_apply] at h
        cases hrest : callUntilLast outOfFuel call isLast n s₁ c₁ with
        | error e c₂ =>
          rw [hrest] at h
          cases h
        | ok calls' c₂ =>
          rw [hrest] at h
          obtain ⟨init, last, rfl, hl, hinit⟩ := ih hrest
          injection h with hcalls
          exact ⟨s₁ :: init, last, hcalls.symm, hl,
            List.forall_mem_cons.mpr ⟨by simpa using hlast, hinit⟩⟩

theorem ofInput_callUntilLast (hcall : ∀ s, OfInput (call s)) (n : Nat) (s : σ) :
    OfInput (callUntilLast outOfFuel call isLast n s) := by
  induction n generalizing s with
  | zero => exact .throw _
  | succ n ih => exact (hcall s).bind fun s' => .ite (.pure _) ((ih s').bind fun _ => .pure _)

end Calls

end LibShv.Chunks
