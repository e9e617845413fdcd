import Mathlib

/-!
# LibShv.Lib.ByteReader

A reader of bytes with one byte of push-back, a register of its own and an
end-of-input flag, as a state monad that may fail.

The flag is set by the first attempt to read past the last byte and stays set.
It tells two runs apart: a run that never hit the end gives the same result
when more bytes are appended, a run that hit it may still change.

Three kinds of rules are proved for the primitives and closed under `bind`, so
that a reader built from them inherits them:

- `Triple`: pre- and postconditions over the cursor;
- `Extends p q`: a result `p` finds without touching the end is found by `q` on
  every extension of the input;
- `Reads p bs`: `p` consumes exactly `bs`, whatever follows, and fails or
  starves on every proper prefix of it.

Loops over bytes that keep a state are scans: `scan` is a total function, since
every step takes a byte.
-/

namespace LibShv.ByteReader

/-! ## the cursor -/

/-- The state of a reader: what is left, the byte taken last (it can be put
back), whether a read past the end was tried, and the register. -/
structure Cursor (ρ : Type) where
  input : List UInt8
  last : UInt8
  atEnd : Bool
  reg : ρ

variable {ε ρ α β : Type}

/-- The same cursor with more bytes behind its input. -/
def Cursor.append (c : Cursor ρ) (ys : List UInt8) : Cursor ρ :=
  { c with input := c.input ++ ys }

@[simp] theorem Cursor.append_input (c : Cursor ρ) (ys : List UInt8) :
    (c.append ys).input = c.input ++ ys := rfl

@[simp] theorem Cursor.append_reg (c : Cursor ρ) (ys : List UInt8) :
    (c.append ys).reg = c.reg := rfl

@[simp] theorem Cursor.append_atEnd (c : Cursor ρ) (ys : List UInt8) :
    (c.append ys).atEnd = c.atEnd := rfl

@[simp] theorem Cursor.append_last (c : Cursor ρ) (ys : List UInt8) :
    (c.append ys).last = c.last := rfl

/-- A reader of `α`s that may fail with an `ε`. -/
abbrev Parser (ε ρ α : Type) := EStateM ε (Cursor ρ) α

/-! ## primitives -/

/-- Take the next byte; `none` and a raised flag at the end of the input. -/
def take? : Parser ε ρ (Option UInt8) := fun c =>
  match c.input with
  | [] => .ok none { c with atEnd := true }
  | b :: bs => .ok (some b) { c with input := bs, last := b }

/-- Look at the next byte without taking it. -/
def peek? : Parser ε ρ (Option UInt8) := fun c =>
  match c.input with
  | [] => .ok none { c with atEnd := true }
  | b :: _ => .ok (some b) { c with last := b }

/-- Put the byte taken last back. -/
def unget : Parser ε ρ Unit := fun c => .ok () { c with input := c.last :: c.input }

/-- The register. -/
def getReg : Parser ε ρ ρ := fun c => .ok c.reg c

/-- Change the register. -/
def modifyReg (f : ρ → ρ) : Parser ε ρ Unit := fun c => .ok () { c with reg := f c.reg }

theorem take?_nil {c : Cursor ρ} (h : c.input = []) :
    (take? : Parser ε ρ _) c = .ok none { c with atEnd := true } := by
  rw [take?, h]

theorem take?_cons {c : Cursor ρ} (h : c.input = b :: bs) :
    (take? : Parser ε ρ _) c = .ok (some b) { c with input := bs, last := b } := by
  rw [take?, h]

theorem peek?_nil {c : Cursor ρ} (h : c.input = []) :
    (peek? : Parser ε ρ _) c = .ok none { c with atEnd := true } := by
  rw [peek?, h]

theorem peek?_cons {c : Cursor ρ} (h : c.input = b :: bs) :
    (peek? : Parser ε ρ _) c = .ok (some b) { c with last := b } := by
  rw [peek?, h]

@[simp] theorem unget_apply (c : Cursor ρ) :
    (unget : Parser ε ρ _) c = .ok () { c with input := c.last :: c.input } := rfl

@[simp] theorem getReg_apply (c : Cursor ρ) : (getReg : Parser ε ρ _) c = .ok c.reg c := rfl

@[simp] theorem modifyReg_apply (f : ρ → ρ) (c : Cursor ρ) :
    (modifyReg f : Parser ε ρ _) c = .ok () { c with reg := f c.reg } := rfl

@[simp] theorem pure_apply (a : α) (c : Cursor ρ) :
    (pure a : Parser ε ρ α) c = .ok a c := rfl

@[simp] theorem throw_apply (e : ε) (c : Cursor ρ) :
    (throw e : Parser ε ρ α) c = .error e c := rfl

theorem bind_apply (p : Parser ε ρ α) (f : α → Parser ε ρ β) (c : Cursor ρ) :
    (p >>= f) c = match p c with
      | .ok a c' => f a c'
      | .error e c' => .error e c' := by
  change EStateM.bind p f c = _
  rw [EStateM.bind]
  cases p c <;> rfl

/-- Once the first part has returned, the second part runs from there. -/
theorem bind_of_ok {p : Parser ε ρ α} {f : α → Parser ε ρ β} {c c' : Cursor ρ} {a : α}
    (h : p c = .ok a c') : (p >>= f) c = f a c' := by
  rw [bind_apply, h]

theorem bind_of_error {p : Parser ε ρ α} {f : α → Parser ε ρ β} {c c' : Cursor ρ} {e : ε}
    (h : p c = .error e c') : (p >>= f) c = .error e c' := by
  rw [bind_apply, h]

/-- A sequence that returns has run both parts. -/
theorem bind_eq_ok {p : Parser ε ρ α} {f : α → Parser ε ρ β} {c c' : Cursor ρ} {b : β} :
    (p >>= f) c = .ok b c' ↔ ∃ a c₁, p c = .ok a c₁ ∧ f a c₁ = .ok b c' := by
  rw [bind_apply]
  cases h : p c with
  | ok a c₁ =>
    constructor
    · intro hf
      exact ⟨a, c₁, rfl, hf⟩
    · rintro ⟨a', c₂, heq, hf⟩
      obtain ⟨rfl, rfl⟩ : a = a' ∧ c₁ = c₂ := by simpa using heq
      exact hf
  | error e c₁ => simp

/-- The same reader with its failures renamed. -/
def mapError (f : ε → ε) (p : Parser ε ρ α) : Parser ε ρ α := fun c =>
  match p c with
  | .ok a c' => .ok a c'
  | .error e c' => .error (f e) c'

theorem mapError_of_ok {f : ε → ε} {p : Parser ε ρ α} {c c' : Cursor ρ} {a : α}
    (h : p c = .ok a c') : mapError f p c = .ok a c' := by
  rw [mapError, h]

theorem mapError_of_error {f : ε → ε} {p : Parser ε ρ α} {c c' : Cursor ρ} {e : ε}
    (h : p c = .error e c') : mapError f p c = .error (f e) c' := by
  rw [mapError, h]

theorem mapError_eq_ok {f : ε → ε} {p : Parser ε ρ α} {c c' : Cursor ρ} {a : α} :
    mapError f p c = .ok a c' ↔ p c = .ok a c' := by
  rw [mapError]
  cases h : p c <;> simp

/-! ## scanning -/

/-- One step of a scan: on to the next byte, or the end with a result. -/
inductive ScanStep (σ α : Type) where
  | more (s : σ)
  | done (a : α)

variable {σ : Type}

/-- Take bytes as long as `step` asks for more. At the end of the input the
state reached is returned. -/
def scanFrom (step : σ → UInt8 → ScanStep σ α) : σ → List UInt8 → Parser ε ρ (σ ⊕ α)
  | s, [], c => .ok (.inl s) { c with input := [], atEnd := true }
  | s, b :: bs, c =>
    match step s b with
    | .more s' => scanFrom step s' bs { c with input := bs, last := b }
    | .done a => .ok (.inr a) { c with input := bs, last := b }

/-- Scan the input from state `s`. -/
def scan (step : σ → UInt8 → ScanStep σ α) (s : σ) : Parser ε ρ (σ ⊕ α) := fun c =>
  scanFrom step s c.input c

section Scan

variable {step : σ → UInt8 → ScanStep σ α} {s s' : σ} {c : Cursor ρ} {b : UInt8} {bs : List UInt8}

theorem scan_nil (h : c.input = []) :
    (scan step s : Parser ε ρ _) c = .ok (.inl s) { c with atEnd := true } := by
  rw [scan, h, scanFrom, ← h]

theorem scan_more (h : c.input = b :: bs) (hs : step s b = .more s') :
    (scan step s : Parser ε ρ _) c = scan step s' { c with input := bs, last := b } := by
  rw [scan, h, scanFrom, hs]
  rfl

theorem scan_done {a : α} (h : c.input = b :: bs) (hs : step s b = .done a) :
    (scan step s : Parser ε ρ _) c = .ok (.inr a) { c with input := bs, last := b } := by
  rw [scan, h, scanFrom, hs]

/-- A scan runs to the end of the input or to the byte that ends it. -/
theorem scan_cases (step : σ → UInt8 → ScanStep σ α) (s : σ) (c : Cursor ρ) :
    (∃ s' l, (scan step s : Parser ε ρ _) c =
      .ok (.inl s') { c with input := [], last := l, atEnd := true }) ∨
    ∃ a s' b xs rest, c.input = xs ++ b :: rest ∧ step s' b = .done a ∧
      (scan step s : Parser ε ρ _) c = .ok (.inr a) { c with input := rest, last := b } := by
  obtain ⟨input, last, atEnd, reg⟩ := c
  induction input generalizing s last with
  | nil => exact .inl ⟨s, last, rfl⟩
  | cons b bs ih =>
    cases hs : step s b with
    | done a => exact .inr ⟨a, s, b, [], bs, rfl, hs, scan_done rfl hs⟩
    | more s' =>
      rw [scan_more rfl hs]
      rcases ih s' b with ⟨s₁, l, h⟩ | ⟨a, s₁, b₁, xs, rest, hi, hd, h⟩
      · exact .inl ⟨s₁, l, h⟩
      · exact .inr ⟨a, s₁, b₁, b :: xs, rest, congrArg (b :: ·) hi, hd, h⟩

/-- The scan asks for more on every byte of `bs`. -/
inductive Scans (step : σ → UInt8 → ScanStep σ α) : σ → List UInt8 → σ → Prop where
  | nil (s : σ) : Scans step s [] s
  | cons {s s' t : σ} {b : UInt8} {bs : List UInt8} :
      step s b = .more s' → Scans step s' bs t → Scans step s (b :: bs) t

theorem Scans.append {t u : σ} {bs' : List UInt8} (h : Scans step s bs t)
    (h' : Scans step t bs' u) : Scans step s (bs ++ bs') u := by
  induction h with
  | nil => exact h'
  | cons hs _ ih => exact .cons hs (ih h')

/-- A prefix is scanned to some state, and the rest from there. -/
theorem Scans.split {t : σ} {bs' : List UInt8} (h : Scans step s (bs ++ bs') t) :
    ∃ u, Scans step s bs u ∧ Scans step u bs' t := by
  induction bs generalizing s with
  | nil => exact ⟨s, .nil s, h⟩
  | cons b bs ih =>
    cases h with
    | cons hs h =>
      obtain ⟨u, h₁, h₂⟩ := ih h
      exact ⟨u, .cons hs h₁, h₂⟩

variable (ε) in
/-- Behind `bs` the scan goes on in the state reached. -/
theorem scan_of_scans {t : σ} {rest : List UInt8} (h : Scans step s bs t)
    (hc : c.input = bs ++ rest) :
    ∃ last, (scan step s : Parser ε ρ _) c = scan step t { c with input := rest, last := last } := by
  induction h generalizing c with
  | nil =>
    rw [List.nil_append] at hc
    exact ⟨c.last, by rw [← hc]⟩
  | cons hs _ ih =>
    rw [scan_more hc hs]
    exact ih rfl

end Scan

/-! ## pre- and postconditions -/

/-- From every cursor with `P`, `p` returns with `Q` or fails with `E`. -/
def Triple (P : Cursor ρ → Prop) (p : Parser ε ρ α) (Q : α → Cursor ρ → Prop)
    (E : ε → Prop) : Prop :=
  ∀ c, P c → match p c with
    | .ok a c' => Q a c'
    | .error e _ => E e

section TripleRules

variable {P : Cursor ρ → Prop} {Q : α → Cursor ρ → Prop} {R : β → Cursor ρ → Prop} {E : ε → Prop}

theorem Triple.of_ok {p : Parser ε ρ α} {c c' : Cursor ρ} {a : α} (h : Triple P p Q E)
    (hc : P c) (he : p c = .ok a c') : Q a c' := by
  have := h c hc
  rwa [he] at this

theorem Triple.of_error {p : Parser ε ρ α} {c c' : Cursor ρ} {e : ε} (h : Triple P p Q E)
    (hc : P c) (he : p c = .error e c') : E e := by
  have := h c hc
  rwa [he] at this

theorem Triple.bind {p : Parser ε ρ α} {f : α → Parser ε ρ β} (hp : Triple P p Q E)
    (hf : ∀ a, Triple (Q a) (f a) R E) : Triple P (p >>= f) R E := by
  intro c hc
  have h₁ := hp c hc
  rw [bind_apply]
  cases h : p c with
  | ok a c' =>
    rw [h] at h₁
    exact hf a c' h₁
  | error e c' =>
    rw [h] at h₁
    exact h₁

theorem Triple.pure {a : α} (h : ∀ c, P c → Q a c) : Triple P (Pure.pure a : Parser ε ρ α) Q E :=
  h

theorem Triple.throw {e : ε} (h : E e) :
    Triple P (MonadExcept.throw e : Parser ε ρ α) Q E :=
  fun _ _ => h

theorem Triple.ite {b : Prop} [Decidable b] {p q : Parser ε ρ α} (hp : Triple P p Q E)
    (hq : Triple P q Q E) : Triple P (if b then p else q) Q E := by
  by_cases h : b
  · rwa [if_pos h]
  · rwa [if_neg h]

/-- Strengthen the precondition, weaken the postconditions. -/
theorem Triple.imp {P' : Cursor ρ → Prop} {Q' : α → Cursor ρ → Prop} {E' : ε → Prop}
    {p : Parser ε ρ α} (h : Triple P p Q E) (hP : ∀ c, P' c → P c)
    (hQ : ∀ a c, Q a c → Q' a c) (hE : ∀ e, E e → E' e) : Triple P' p Q' E' := by
  intro c hc
  have h₁ := h c (hP c hc)
  cases he : p c with
  | ok a c' =>
    rw [he] at h₁
    exact hQ a c' h₁
  | error e c' =>
    rw [he] at h₁
    exact hE e h₁

theorem Triple.take? {Q : Option UInt8 → Cursor ρ → Prop}
    (hnil : ∀ c, P c → c.input = [] → Q none { c with atEnd := true })
    (hcons : ∀ c b bs, P c → c.input = b :: bs → Q (some b) { c with input := bs, last := b }) :
    Triple P (take? : Parser ε ρ _) Q E := by
  intro c hc
  cases h : c.input with
  | nil => rw [take?_nil h]; exact hnil c hc h
  | cons b bs => rw [take?_cons h]; exact hcons c b bs hc h

theorem Triple.peek? {Q : Option UInt8 → Cursor ρ → Prop}
    (hnil : ∀ c, P c → c.input = [] → Q none { c with atEnd := true })
    (hcons : ∀ c b bs, P c → c.input = b :: bs → Q (some b) { c with last := b }) :
    Triple P (peek? : Parser ε ρ _) Q E := by
  intro c hc
  cases h : c.input with
  | nil => rw [peek?_nil h]; exact hnil c hc h
  | cons b bs => rw [peek?_cons h]; exact hcons c b bs hc h

end TripleRules

/-! ## a stricter reader -/

/-- The strict reader `p` finds what `q` finds, unless it fails with `e`; what it finds
satisfies `Q`. -/
structure Refines (e : ε) (Q : α → Prop) (p q : Parser ε ρ α) : Prop where
  sound : ∀ c a c', p c = .ok a c' → q c = .ok a c' ∧ Q a
  complete : ∀ c a c', q c = .ok a c' → p c = .ok a c' ∨ ∃ c'', p c = .error e c''

namespace Refines

variable {e : ε} {Q : α → Prop} {R : β → Prop}

theorem refl (p : Parser ε ρ α) : Refines e (fun _ => True) p p :=
  ⟨fun _ _ _ h => ⟨h, trivial⟩, fun _ _ _ h => .inl h⟩

theorem bind {p q : Parser ε ρ α} {f g : α → Parser ε ρ β} (hp : Refines e Q p q)
    (hf : ∀ a, Q a → Refines e R (f a) (g a)) : Refines e R (p >>= f) (q >>= g) where
  sound c b c' h := by
    obtain ⟨a, c₁, h₁, h₂⟩ := bind_eq_ok.mp h
    obtain ⟨hq, ha⟩ := hp.sound c a c₁ h₁
    obtain ⟨hg, hb⟩ := (hf a ha).sound c₁ b c' h₂
    exact ⟨(bind_of_ok hq).trans hg, hb⟩
  complete c b c' h := by
    obtain ⟨a, c₁, h₁, h₂⟩ := bind_eq_ok.mp h
    rcases hp.complete c a c₁ h₁ with hok | ⟨c'', herr⟩
    · rw [bind_of_ok hok]
      exact (hf a (hp.sound c a c₁ hok).2).complete c₁ b c' h₂
    · exact .inr ⟨c'', bind_of_error herr⟩

theorem pure {a : α} (h : Q a) :
    Refines e Q (Pure.pure a : Parser ε ρ α) (Pure.pure a) where
  sound c b c' hb := by
    obtain ⟨rfl, -⟩ : a = b ∧ c = c' := by simpa using hb
    exact ⟨hb, h⟩
  complete _ _ _ h := .inl h

theorem throw (e' : ε) :
    Refines e Q (MonadExcept.throw e' : Parser ε ρ α) (MonadExcept.throw e') :=
  ⟨fun _ _ _ h => by contradiction, fun _ _ _ h => by contradiction⟩

theorem ite {b : Prop} [Decidable b] {p q p' q' : Parser ε ρ α} (hp : b → Refines e Q p p')
    (hq : ¬b → Refines e Q q q') : Refines e Q (if b then p else q) (if b then p' else q') := by
  by_cases h : b
  · rw [if_pos h, if_pos h]
    exact hp h
  · rw [if_neg h, if_neg h]
    exact hq h

/-- The strict reader tests what the other one does not. -/
theorem guard {b : Prop} [Decidable b] {p q : Parser ε ρ α} (h : b → Refines e Q p q) :
    Refines e Q (if b then p else MonadExcept.throw e) q := by
  by_cases hb : b
  · rw [if_pos hb]
    exact h hb
  · rw [if_neg hb]
    exact ⟨fun _ _ _ h => by contradiction, fun c _ _ _ => .inr ⟨c, rfl⟩⟩

end Refines

/-! ## how far a reader moves -/

/-- `p` keeps the register in `I`; from at most `i` bytes more than some number it
leaves at most `j` bytes more. -/
def Moves (I : ρ → Prop) (E : ε → Prop) (i j : Nat) (p : Parser ε ρ α) : Prop :=
  ∀ k, Triple (fun c => c.input.length ≤ k + i ∧ I c.reg) p
    (fun _ c => c.input.length ≤ k + j ∧ I c.reg) E

namespace Moves

variable {I : ρ → Prop} {E : ε → Prop} {i j l : Nat}

theorem bind {p : Parser ε ρ α} {f : α → Parser ε ρ β} (hp : Moves I E i j p)
    (hf : ∀ a, Moves I E j l (f a)) : Moves I E i l (p >>= f) :=
  fun k => (hp k).bind fun a => hf a k

theorem pure (a : α) (h : i ≤ j) : Moves I E i j (Pure.pure a : Parser ε ρ α) := by
  refine fun k => Triple.pure fun c hc => ⟨?_, hc.2⟩
  have := hc.1
  omega

theorem throw {e : ε} (h : E e) : Moves I E i j (MonadExcept.throw e : Parser ε ρ α) :=
  fun _ => Triple.throw h

theorem ite {b : Prop} [Decidable b] {p q : Parser ε ρ α} (hp : Moves I E i j p)
    (hq : Moves I E i j q) : Moves I E i j (if b then p else q) :=
  fun k => Triple.ite (hp k) (hq k)

/-- The same move from more bytes. -/
theorem shift {p : Parser ε ρ α} (h : Moves I E i j p) (n : Nat) : Moves I E (i + n) (j + n) p :=
  fun k => (h (k + n)).imp (fun c hc => ⟨by have := hc.1; omega, hc.2⟩)
    (fun _ c hc => ⟨by have := hc.1; omega, hc.2⟩) fun _ he => he

theorem imp {i' j' : Nat} {p : Parser ε ρ α} (h : Moves I E i j p) (hi : i' ≤ i) (hj : j ≤ j') :
    Moves I E i' j' p :=
  fun k => (h k).imp (fun c hc => ⟨by have := hc.1; omega, hc.2⟩)
    (fun _ c hc => ⟨by have := hc.1; omega, hc.2⟩) fun _ he => he

theorem take? : Moves I E 1 0 (ByteReader.take? : Parser ε ρ _) := by
  refine fun k => Triple.take? (fun c hc hi => ⟨?_, hc.2⟩) fun c b bs hc hi => ⟨?_, hc.2⟩
  · simp only [hi, List.length_nil]
    exact Nat.zero_le _
  · have := hc.1
    rw [hi, List.length_cons] at this
    exact Nat.le_of_succ_le_succ this

theorem unget : Moves I E 0 1 (ByteReader.unget : Parser ε ρ _) :=
  fun _ _ hc => ⟨Nat.succ_le_succ hc.1, hc.2⟩

theorem modifyReg {f : ρ → ρ} (h : ∀ r, I r → I (f r)) :
    Moves I E 0 0 (ByteReader.modifyReg f : Parser ε ρ _) :=
  fun _ c hc => ⟨hc.1, h c.reg hc.2⟩

/-- A scan takes at least a byte, if there is one. -/
theorem scan (step : σ → UInt8 → ScanStep σ τ) (s : σ) :
    Moves I E 1 0 (ByteReader.scan step s : Parser ε ρ _) := by
  intro k c hc
  rcases scan_cases step s c with ⟨s', l, h⟩ | ⟨a, s', b, xs, rest, hi, -, h⟩
  · rw [h]
    exact ⟨Nat.zero_le _, hc.2⟩
  · rw [h]
    have := hc.1
    rw [hi, List.length_append, List.length_cons] at this
    exact ⟨by simp only; omega, hc.2⟩

end Moves

/-! ## results that more input does not change -/

/-- A result of `p` that did not touch the end of the input is the result of
`q` on every extension; a cursor that has touched the end stays so. -/
def Extends (p q : Parser ε ρ α) : Prop :=
  ∀ c a c', p c = .ok a c' →
    (c.atEnd = true → c'.atEnd = true) ∧
    (c'.atEnd = false → ∀ ys, q (c.append ys) = .ok a (c'.append ys))

namespace Extends

theorem bind {p q : Parser ε ρ α} {f g : α → Parser ε ρ β} (hp : Extends p q)
    (hf : ∀ a, Extends (f a) (g a)) : Extends (p >>= f) (q >>= g) := by
  intro c b c' h
  obtain ⟨a, c₁, h₁, h₂⟩ := bind_eq_ok.mp h
  obtain ⟨hs₁, hg₁⟩ := hp c a c₁ h₁
  obtain ⟨hs₂, hg₂⟩ := hf a c₁ b c' h₂
  refine ⟨fun he => hs₂ (hs₁ he), fun he ys => ?_⟩
  have he₁ : c₁.atEnd = false := by
    cases h : c₁.atEnd with
    | false => rfl
    | true => rw [hs₂ h] at he; contradiction
  rw [bind_of_ok (hg₁ he₁ ys)]
  exact hg₂ he ys

theorem pure (a : α) : Extends (Pure.pure a : Parser ε ρ α) (Pure.pure a) := by
  intro c b c' h
  obtain ⟨rfl, rfl⟩ : a = b ∧ c = c' := by simpa using h
  exact ⟨id, fun _ _ => rfl⟩

theorem throw (e : ε) (q : Parser ε ρ α) :
    Extends (MonadExcept.throw e : Parser ε ρ α) q := by
  intro c b c' h
  simp at h

theorem ite {b : Prop} [Decidable b] {p q p' q' : Parser ε ρ α} (hp : Extends p p')
    (hq : Extends q q') : Extends (if b then p else q) (if b then p' else q') := by
  by_cases h : b
  · rwa [if_pos h, if_pos h]
  · rwa [if_neg h, if_neg h]

theorem take? : Extends (ByteReader.take? : Parser ε ρ _) ByteReader.take? := by
  intro c o c' h
  cases hi : c.input with
  | nil =>
    rw [take?_nil hi] at h
    obtain ⟨rfl, rfl⟩ : none = o ∧ _ = c' := by simpa using h
    exact ⟨fun _ => rfl, fun he => by simp at he⟩
  | cons b bs =>
    rw [take?_cons hi] at h
    obtain ⟨rfl, rfl⟩ : some b = o ∧ _ = c' := by simpa using h
    refine ⟨id, fun _ ys => ?_⟩
    have hi' : (c.append ys).input = b :: (bs ++ ys) := by simp [hi]
    rw [take?_cons hi']
    rfl

theorem peek? : Extends (ByteReader.peek? : Parser ε ρ _) ByteReader.peek? := by
  intro c o c' h
  cases hi : c.input with
  | nil =>
    rw [peek?_nil hi] at h
    obtain ⟨rfl, rfl⟩ : none = o ∧ _ = c' := by simpa using h
    exact ⟨fun _ => rfl, fun he => by simp at he⟩
  | cons b bs =>
    rw [peek?_cons hi] at h
    obtain ⟨rfl, rfl⟩ : some b = o ∧ _ = c' := by simpa using h
    refine ⟨id, fun _ ys => ?_⟩
    have hi' : (c.append ys).input = b :: (bs ++ ys) := by simp [hi]
    rw [peek?_cons hi']
    rfl

theorem unget : Extends (ByteReader.unget : Parser ε ρ _) ByteReader.unget := by
  intro c o c' h
  obtain rfl : _ = c' := by simpa using h
  exact ⟨id, fun _ _ => rfl⟩

theorem getReg : Extends (ByteReader.getReg : Parser ε ρ _) ByteReader.getReg := by
  intro c o c' h
  obtain ⟨rfl, rfl⟩ : c.reg = o ∧ c = c' := by simpa using h
  exact ⟨id, fun _ _ => rfl⟩

theorem modifyReg (f : ρ → ρ) :
    Extends (ByteReader.modifyReg f : Parser ε ρ _) (ByteReader.modifyReg f) := by
  intro c o c' h
  obtain rfl : _ = c' := by simpa using h
  exact ⟨id, fun _ _ => rfl⟩

theorem mapError {p q : Parser ε ρ α} (f : ε → ε) (h : Extends p q) :
    Extends (ByteReader.mapError f p) (ByteReader.mapError f q) := by
  intro c a c' hp
  obtain ⟨hs, hg⟩ := h c a c' (mapError_eq_ok.mp hp)
  exact ⟨hs, fun he ys => mapError_of_ok (hg he ys)⟩

theorem scan (step : σ → UInt8 → ScanStep σ α) (s : σ) :
    Extends (ByteReader.scan step s : Parser ε ρ _) (ByteReader.scan step s) := by
  rintro ⟨input, last, atEnd, reg⟩ o c' h
  induction input generalizing s last with
  | nil =>
    rw [scan_nil rfl] at h
    obtain ⟨-, rfl⟩ : .inl s = o ∧ _ = c' := by simpa using h
    exact ⟨fun _ => rfl, fun he => by simp at he⟩
  | cons b bs ih =>
    cases hs : step s b with
    | done a =>
      rw [scan_done rfl hs] at h
      obtain ⟨rfl, rfl⟩ : .inr a = o ∧ _ = c' := by simpa using h
      exact ⟨id, fun _ ys => scan_done rfl hs⟩
    | more s' =>
      rw [scan_more rfl hs] at h
      obtain ⟨hstay, hg⟩ := ih s' b h
      refine ⟨hstay, fun he ys => ?_⟩
      exact (scan_more rfl hs).trans (hg he ys)

end Extends

/-! ## readers that fail at the end of the input -/

/-- `p` never returns after hitting the end, does not put back more than it
took, keeps the register in `I`, fails only with `Benign` and does not depend on
what it has not read. -/
structure Solid (I : ρ → Prop) (Benign : ε → Prop) (p : Parser ε ρ α) : Prop where
  ext : Extends p p
  safe : ∀ c, match p c with
    | .ok _ c' => c'.atEnd = c.atEnd ∧ c'.input.length ≤ c.input.length ∧ (I c.reg → I c'.reg)
    | .error e _ => Benign e

namespace Solid

variable {I : ρ → Prop} {Benign : ε → Prop}

theorem bind {p : Parser ε ρ α} {f : α → Parser ε ρ β} (hp : Solid I Benign p)
    (hf : ∀ a, Solid I Benign (f a)) : Solid I Benign (p >>= f) where
  ext := hp.ext.bind fun a => (hf a).ext
  safe c := by
    have h₁ := hp.safe c
    rw [bind_apply]
    cases h : p c with
    | error e c' =>
      rw [h] at h₁
      exact h₁
    | ok a c' =>
      rw [h] at h₁
      have h₂ := (hf a).safe c'
      simp only
      cases h' : f a c' with
      | error e c'' =>
        rw [h'] at h₂
        exact h₂
      | ok b c'' =>
        rw [h'] at h₂
        exact ⟨h₂.1.trans h₁.1, Nat.le_trans h₂.2.1 h₁.2.1, fun hI => h₂.2.2 (h₁.2.2 hI)⟩

theorem pure (a : α) : Solid I Benign (Pure.pure a : Parser ε ρ α) :=
  ⟨Extends.pure a, fun _ => ⟨rfl, Nat.le_refl _, id⟩⟩

theorem throw {e : ε} (h : Benign e) : Solid I Benign (MonadExcept.throw e : Parser ε ρ α) :=
  ⟨Extends.throw e _, fun _ => h⟩

theorem ite {b : Prop} [Decidable b] {p q : Parser ε ρ α} (hp : Solid I Benign p)
    (hq : Solid I Benign q) : Solid I Benign (if b then p else q) := by
  by_cases h : b
  · rwa [if_pos h]
  · rwa [if_neg h]

theorem getReg : Solid I Benign (ByteReader.getReg : Parser ε ρ ρ) :=
  ⟨Extends.getReg, fun _ => ⟨rfl, Nat.le_refl _, id⟩⟩

theorem modifyReg {f : ρ → ρ} (h : ∀ r, I r → I (f r)) :
    Solid I Benign (ByteReader.modifyReg f : Parser ε ρ Unit) :=
  ⟨Extends.modifyReg f, fun _ => ⟨rfl, Nat.le_refl _, h _⟩⟩

/-- Taking a byte, with a benign failure at the end. -/
theorem take?_or {p : Parser ε ρ UInt8} {e : ε} (he : Benign e)
    (h : p = do match ← ByteReader.take? with | some b => Pure.pure b | none => MonadExcept.throw e) :
    Solid I Benign p where
  ext := by
    rw [h]
    refine Extends.bind Extends.take? fun o => ?_
    cases o with
    | none => exact Extends.throw e _
    | some b => exact Extends.pure b
  safe c := by
    rw [h, bind_apply]
    cases hc : c.input with
    | nil => rw [take?_nil hc]; exact he
    | cons b bs => rw [take?_cons hc]; exact ⟨rfl, by simp, id⟩

theorem imp {Benign' : ε → Prop} {p : Parser ε ρ α} (h : Solid I Benign p)
    (hB : ∀ e, Benign e → Benign' e) : Solid I Benign' p where
  ext := h.ext
  safe c := by
    have h₁ := h.safe c
    cases hp : p c with
    | error e c' =>
      rw [hp] at h₁
      exact hB e h₁
    | ok a c' =>
      rw [hp] at h₁
      exact h₁

end Solid

theorem Solid.moves {I : ρ → Prop} {Benign E : ε → Prop} {p : Parser ε ρ α}
    (h : Solid I Benign p) (hE : ∀ e, Benign e → E e) : Moves I E 0 0 p := by
  intro k c hc
  have hsafe := h.safe c
  cases hp : p c with
  | error e c' =>
    rw [hp] at hsafe
    exact hE e hsafe
  | ok a c' =>
    rw [hp] at hsafe
    exact ⟨Nat.le_trans hsafe.2.1 hc.1, hsafe.2.2 hc.2⟩

/-! ## recursion bounds -/

/-- `p` does what `q` does, unless it gives up with `e`. -/
def Approximates (e : ε) (p q : Parser ε ρ α) : Prop :=
  ∀ c, p c = q c ∨ ∃ c', p c = .error e c'

namespace Approximates

variable {e : ε}

theorem refl (p : Parser ε ρ α) : Approximates e p p := fun _ => .inl rfl

theorem giveUp (q : Parser ε ρ α) : Approximates e (MonadExcept.throw e) q :=
  fun c => .inr ⟨c, rfl⟩

theorem bind {p q : Parser ε ρ α} {f g : α → Parser ε ρ β} (hp : Approximates e p q)
    (hf : ∀ a, Approximates e (f a) (g a)) : Approximates e (p >>= f) (q >>= g) := by
  intro c
  rcases hp c with h | ⟨c', h⟩
  · cases hq : q c with
    | ok a c' =>
      rw [bind_of_ok (h.trans hq), bind_of_ok hq]
      exact hf a c'
    | error e' c' =>
      rw [bind_of_error (h.trans hq), bind_of_error hq]
      exact .inl rfl
  · exact .inr ⟨c', bind_of_error h⟩

theorem ite {b : Prop} [Decidable b] {p q p' q' : Parser ε ρ α} (hp : Approximates e p p')
    (hq : Approximates e q q') : Approximates e (if b then p else q) (if b then p' else q') := by
  by_cases h : b
  · rw [if_pos h, if_pos h]
    exact hp
  · rw [if_neg h, if_neg h]
    exact hq

/-- An error other than `e` is an error of `q`. -/
theorem eq_error {p q : Parser ε ρ α} (h : Approximates e p q) {c c' : Cursor ρ} {e' : ε}
    (herr : p c = .error e' c') (hne : e' ≠ e) : q c = .error e' c' := by
  rcases h c with heq | ⟨c'', hgive⟩
  · exact heq.symm.trans herr
  · rw [hgive] at herr
    exact absurd (EStateM.Result.error.inj herr).1.symm hne

end Approximates

/-! ## reading back what was written -/

/-- What may follow: nothing, or a byte allowed by `F`. -/
def Follows (F : UInt8 → Prop) (rest : List UInt8) : Prop :=
  ∀ b, rest.head? = some b → F b

theorem Follows.nil (F : UInt8 → Prop) : Follows F [] := by
  intro b h
  simp at h

/-- `p` consumes exactly `bs` from a register with `P`, provided a byte of `F`
(or nothing) follows, and returns with `Q`. It may look at what follows, so at
the end of the input the flag may be raised. -/
def Consumes (p : Parser ε ρ α) (bs : List UInt8) (F : UInt8 → Prop) (P : ρ → Prop)
    (Q : α → ρ → Prop) : Prop :=
  ∀ c rest, c.input = bs ++ rest → Follows F rest → P c.reg →
    ∃ a c', p c = .ok a c' ∧ c'.input = rest ∧ (c'.atEnd = c.atEnd ∨ rest = []) ∧ Q a c'.reg

namespace Consumes

variable {F F₁ F₂ : UInt8 → Prop} {P : ρ → Prop} {Q : α → ρ → Prop} {R : β → ρ → Prop}

/-- What follows the first part is the second, or what follows both if the
second is empty. -/
theorem follows_append {bs₂ rest : List UInt8} (hF : Follows F₁ bs₂)
    (hF' : bs₂ = [] → ∀ b, F₂ b → F₁ b) (hrest : Follows F₂ rest) :
    Follows F₁ (bs₂ ++ rest) := by
  cases bs₂ with
  | nil => exact fun b hb => hF' rfl b (hrest b hb)
  | cons x xs => exact hF

/-- Reading one thing after another. -/
theorem bind {p : Parser ε ρ α} {f : α → Parser ε ρ β} {bs₁ bs₂ : List UInt8}
    (hp : Consumes p bs₁ F₁ P Q) (hf : ∀ a, Consumes (f a) bs₂ F₂ (Q a) R)
    (hF : Follows F₁ bs₂) (hF' : bs₂ = [] → ∀ b, F₂ b → F₁ b) :
    Consumes (p >>= f) (bs₁ ++ bs₂) F₂ P R := by
  intro c rest hc hrest hP
  rw [List.append_assoc] at hc
  obtain ⟨a, c₁, h₁, hi₁, he₁, hQ⟩ := hp c _ hc (follows_append hF hF' hrest) hP
  obtain ⟨b, c₂, h₂, hi₂, he₂, hR⟩ := hf a c₁ rest hi₁ hrest hQ
  refine ⟨b, c₂, by rw [bind_of_ok h₁, h₂], hi₂, ?_, hR⟩
  rcases he₂ with he₂ | he₂
  · exact he₁.imp he₂.trans fun h => (List.append_eq_nil_iff.mp h).2
  · exact .inr he₂

/-- A step that reads nothing and cannot fail. -/
theorem pure {a : α} (h : ∀ r, P r → Q a r) :
    Consumes (Pure.pure a : Parser ε ρ α) [] F P Q := by
  intro c rest hc _ hP
  exact ⟨a, c, rfl, by simpa using hc, .inl rfl, h _ hP⟩

theorem getReg {Q : ρ → ρ → Prop} (h : ∀ r, P r → Q r r) :
    Consumes (ByteReader.getReg : Parser ε ρ ρ) [] F P Q := by
  intro c rest hc _ hP
  exact ⟨c.reg, c, rfl, by simpa using hc, .inl rfl, h _ hP⟩

theorem modifyReg {f : ρ → ρ} {Q : Unit → ρ → Prop} (h : ∀ r, P r → Q () (f r)) :
    Consumes (ByteReader.modifyReg f : Parser ε ρ Unit) [] F P Q := by
  intro c rest hc _ hP
  exact ⟨(), { c with reg := f c.reg }, rfl, by simpa using hc, .inl rfl, h _ hP⟩

/-- Nothing to show where the precondition never holds. -/
theorem of_not_pre {p : Parser ε ρ α} {bs : List UInt8} (h : ∀ r, ¬ P r) :
    Consumes p bs F P Q :=
  fun _ _ _ _ hP => absurd hP (h _)

/-- The precondition may fix what the reader depends on. -/
theorem of_eq {p : α → Parser ε ρ β} {bs : List UInt8} {a : α}
    (h : Consumes (p a) bs F P R) (a' : α) :
    Consumes (p a') bs F (fun r => a' = a ∧ P r) R := by
  intro c rest hc hrest ⟨ha, hP⟩
  subst ha
  exact h c rest hc hrest hP

/-- Reading a known value, whatever follows, and then the rest. -/
theorem bind_value {p : Parser ε ρ α} {f : α → Parser ε ρ β} {bs₁ bs₂ : List UInt8} {a : α}
    {P' : ρ → Prop} (hp : Consumes p bs₁ (fun _ => True) P fun a' r => a' = a ∧ P' r)
    (hf : Consumes (f a) bs₂ F P' R) : Consumes (p >>= f) (bs₁ ++ bs₂) F P R :=
  hp.bind (fun a' => hf.of_eq a') (fun _ _ => trivial) fun _ _ _ => trivial

/-- Reading a known value and returning something made of it. -/
theorem map_value {p : Parser ε ρ α} {g : α → β} {bs : List UInt8} {a : α} {P' : ρ → Prop}
    (hp : Consumes p bs (fun _ => True) P fun a' r => a' = a ∧ P' r)
    (h : ∀ r, P' r → R (g a) r) :
    Consumes (do return g (← p)) bs F P R := by
  rw [← List.append_nil bs]
  exact hp.bind_value (Consumes.pure h)

theorem imp {P' : ρ → Prop} {Q' : α → ρ → Prop} {F' : UInt8 → Prop} {p : Parser ε ρ α}
    {bs : List UInt8} (h : Consumes p bs F P Q) (hF : ∀ b, F' b → F b)
    (hP : ∀ r, P' r → P r) (hQ : ∀ a r, Q a r → Q' a r) : Consumes p bs F' P' Q' := by
  intro c rest hc hrest hPc
  obtain ⟨a, c', hp, hi, he, hQc⟩ := h c rest hc (fun b hb => hF b (hrest b hb)) (hP _ hPc)
  exact ⟨a, c', hp, hi, he, hQ _ _ hQc⟩

end Consumes

section ReadsRules

-- `Dead` cursors have hit the end for good, `Benign` failures are reported as such.
variable (Dead : Cursor ρ → Prop) (Benign : ε → Prop)

/-- The outcome of a run that ran out of input. -/
def Starved : EStateM.Result ε (Cursor ρ) α → Prop
  | .ok _ c => Dead c
  | .error e _ => Benign e

/-- `p` consumes exactly `bs` and starves on every proper prefix of it. -/
structure Reads (p : Parser ε ρ α) (bs : List UInt8) (F : UInt8 → Prop) (P : ρ → Prop)
    (Q : α → ρ → Prop) : Prop where
  whole : Consumes p bs F P Q
  part : ∀ c ys, bs = c.input ++ ys → ys ≠ [] → c.atEnd = false → P c.reg →
    Starved Dead Benign (p c)

/-- On a dead cursor `p` returns a dead cursor or fails benignly. -/
def Dying (p : Parser ε ρ α) : Prop :=
  ∀ c, Dead c → Starved Dead Benign (p c)

/-- On a dead cursor `p` fails benignly. -/
def FailsDead (p : Parser ε ρ α) : Prop :=
  ∀ c, Dead c → ∃ e c', p c = .error e c' ∧ Benign e

variable {Dead Benign}

theorem FailsDead.bind {p : Parser ε ρ α} {f : α → Parser ε ρ β}
    (h : FailsDead Dead Benign p) : FailsDead Dead Benign (p >>= f) := by
  intro c hc
  obtain ⟨e, c', he, hb⟩ := h c hc
  exact ⟨e, c', bind_of_error he, hb⟩

theorem FailsDead.dying {p : Parser ε ρ α} (h : FailsDead Dead Benign p) :
    Dying Dead Benign p := by
  intro c hc
  obtain ⟨e, c', he, hb⟩ := h c hc
  rw [he]
  exact hb

theorem Dying.pure (a : α) : Dying Dead Benign (Pure.pure a : Parser ε ρ α) :=
  fun _ hc => hc

theorem Dying.bind {p : Parser ε ρ α} {f : α → Parser ε ρ β} (hp : Dying Dead Benign p)
    (hf : ∀ a, Dying Dead Benign (f a)) : Dying Dead Benign (p >>= f) := by
  intro c hc
  have h₁ := hp c hc
  rw [bind_apply]
  cases h : p c with
  | ok a c' =>
    rw [h] at h₁
    exact hf a c' h₁
  | error e c' =>
    rw [h] at h₁
    exact h₁

/-- Of two ways to cut a list, the second cuts into the first part of the first, or leaves that
part whole. -/
theorem append_cut {as bs cs ds : List α} (h : as ++ bs = cs ++ ds) :
    (∃ zs, zs ≠ [] ∧ as = cs ++ zs ∧ ds = zs ++ bs) ∨ ∃ xs, cs = as ++ xs ∧ bs = xs ++ ds := by
  rcases List.append_eq_append_iff.mp h with ⟨xs, hcs, hbs⟩ | ⟨zs, has, hds⟩
  · exact .inr ⟨xs, hcs, hbs⟩
  · by_cases hzs : zs = []
    · subst hzs
      exact .inr ⟨[], by rw [has, List.append_nil, List.append_nil], hds.symm⟩
    · exact .inl ⟨zs, hzs, has, hds⟩

namespace Reads

variable {I : ρ → Prop}
variable {F F₁ F₂ : UInt8 → Prop} {P : ρ → Prop} {Q : α → ρ → Prop} {R : β → ρ → Prop}

/-- Reading one thing after another. -/
theorem bind {p : Parser ε ρ α} {f : α → Parser ε ρ β} {bs₁ bs₂ : List UInt8}
    (hdead : ∀ a (c : Cursor ρ), c.atEnd = true → c.input = [] → Q a c.reg → Dead c)
    (hp : Reads Dead Benign p bs₁ F₁ P Q)
    (hf : ∀ a, Reads Dead Benign (f a) bs₂ F₂ (Q a) R)
    (hfd : ∀ a, Dying Dead Benign (f a))
    (hF : Follows F₁ bs₂) (hF' : bs₂ = [] → ∀ b, F₂ b → F₁ b) :
    Reads Dead Benign (p >>= f) (bs₁ ++ bs₂) F₂ P R where
  whole := hp.whole.bind (fun a => (hf a).whole) hF hF'
  part c ys hc hys he hP := by
    rcases append_cut hc with ⟨zs, hzs, hb₁, -⟩ | ⟨xs₂, hx, hb₂⟩
    · -- only a prefix of `bs₁` is there
      have h₁ := hp.part c zs hb₁ hzs he hP
      rw [bind_apply]
      cases h : p c with
      | ok a c₁ =>
        rw [h] at h₁
        exact hfd a c₁ h₁
      | error e c₁ =>
        rw [h] at h₁
        exact h₁
    · -- the whole of `bs₁` is there, and `xs₂` of `bs₂`
      have hfollow : Follows F₁ xs₂ := by
        intro b hb
        refine hF b ?_
        rw [hb₂]
        cases xs₂ with
        | nil => simp at hb
        | cons x xs => simpa using hb
      obtain ⟨a, c₁, h₁, hi₁, he₁, hQ⟩ := hp.whole c xs₂ hx hfollow hP
      rw [bind_of_ok h₁]
      cases hend : c₁.atEnd with
      | false => exact (hf a).part c₁ ys (hi₁ ▸ hb₂) hys hend hQ
      | true =>
        have hnil : xs₂ = [] := by
          rcases he₁ with he₁ | he₁
          · rw [he, hend] at he₁; contradiction
          · exact he₁
        exact hfd a c₁ (hdead a c₁ hend (hi₁.trans hnil) hQ)

/-- A solid reader fails on every proper prefix of what it consumes. -/
theorem error_of_solid {p : Parser ε ρ α} {bs ys : List UInt8} {c : Cursor ρ}
    (hs : Solid I Benign p) (h : Consumes p bs F P Q) (hc : bs = c.input ++ ys) (hys : ys ≠ [])
    (he : c.atEnd = false) (hP : P c.reg) : ∃ e c', p c = .error e c' ∧ Benign e := by
  have h₁ := hs.safe c
  cases hp : p c with
  | error e c' =>
    rw [hp] at h₁
    exact ⟨e, c', rfl, h₁⟩
  | ok a c' =>
    rw [hp] at h₁
    have hgrow := (hs.ext c a c' hp).2 (h₁.1.trans he) ys
    obtain ⟨b, c₂, h₂, hi₂, -, -⟩ := h (c.append ys) [] (by simp [hc]) (Follows.nil F) hP
    rw [hgrow] at h₂
    obtain ⟨rfl, rfl⟩ : a = b ∧ c'.append ys = c₂ := by simpa using h₂
    simp [hys] at hi₂

/-- A solid first part leaves no dead cursor behind. -/
theorem bind_solid {p : Parser ε ρ α} {f : α → Parser ε ρ β} {bs₁ bs₂ : List UInt8}
    (hs : Solid I Benign p) (hp : Consumes p bs₁ (fun _ => True) P Q)
    (hf : ∀ a, Reads Dead Benign (f a) bs₂ F₂ (Q a) R) :
    Reads Dead Benign (p >>= f) (bs₁ ++ bs₂) F₂ P R where
  whole := hp.bind (fun a => (hf a).whole) (fun _ _ => trivial) fun _ _ _ => trivial
  part c ys hc hys he hP := by
    rcases append_cut hc with ⟨zs, hzs, hz, -⟩ | ⟨xs, hx, hb⟩
    · obtain ⟨e, c', h, hb⟩ := error_of_solid hs hp hz hzs he hP
      rw [bind_of_error h]
      exact hb
    · obtain ⟨a, c₁, h₁, hi₁, -, hQ⟩ := hp c xs hx (fun _ _ => trivial) hP
      have hend := hs.safe c
      rw [h₁] at hend
      rw [bind_of_ok h₁]
      exact (hf a).part c₁ ys (hi₁ ▸ hb) hys (hend.1.trans he) hQ

/-- A solid reader needs the whole clause only. -/
theorem of_solid {p : Parser ε ρ α} {bs : List UInt8} (hs : Solid I Benign p)
    (h : Consumes p bs F P Q) : Reads Dead Benign p bs F P Q where
  whole := h
  part c ys hc hys he hP := by
    obtain ⟨e, c', hp, hb⟩ := error_of_solid hs h hc hys he hP
    rw [hp]
    exact hb

theorem imp {P' : ρ → Prop} {Q' : α → ρ → Prop} {F' : UInt8 → Prop} {p : Parser ε ρ α}
    {bs : List UInt8} (h : Reads Dead Benign p bs F P Q) (hF : ∀ b, F' b → F b)
    (hP : ∀ r, P' r → P r) (hQ : ∀ a r, Q a r → Q' a r) :
    Reads Dead Benign p bs F' P' Q' where
  whole := h.whole.imp hF hP hQ
  part c ys hc hys he hPc := h.part c ys hc hys he (hP _ hPc)

/-- Readers that agree where the precondition holds. -/
theorem congr {p q : Parser ε ρ α} {bs : List UInt8} (hpq : ∀ c, P c.reg → p c = q c)
    (h : Reads Dead Benign q bs F P Q) : Reads Dead Benign p bs F P Q where
  whole c rest hc hrest hP := by
    rw [hpq c hP]
    exact h.whole c rest hc hrest hP
  part c ys hc hys he hP := by
    rw [hpq c hP]
    exact h.part c ys hc hys he hP

theorem mapError {f : ε → ε} {p : Parser ε ρ α} {bs : List UInt8}
    (hf : ∀ e, Benign e → Benign (f e)) (h : Reads Dead Benign p bs F P Q) :
    Reads Dead Benign (ByteReader.mapError f p) bs F P Q where
  whole c rest hc hrest hP := by
    obtain ⟨a, c', hp, hQ⟩ := h.whole c rest hc hrest hP
    exact ⟨a, c', mapError_of_ok hp, hQ⟩
  part c ys hc hys he hP := by
    have h₁ := h.part c ys hc hys he hP
    cases hp : p c with
    | ok a c' =>
      rw [hp] at h₁
      rw [mapError_of_ok hp]
      exact h₁
    | error e c' =>
      rw [hp] at h₁
      rw [mapError_of_error hp]
      exact hf e h₁

/-- Nothing to show where the precondition never holds. -/
theorem of_not_pre {p : Parser ε ρ α} {bs : List UInt8} (h : ∀ r, ¬ P r) :
    Reads Dead Benign p bs F P Q where
  whole := Consumes.of_not_pre h
  part _ _ _ _ _ hP := absurd hP (h _)

/-- The precondition may fix what the reader depends on. -/
theorem of_eq {p : α → Parser ε ρ β} {bs : List UInt8} {a : α}
    (h : Reads Dead Benign (p a) bs F P R) (a' : α) :
    Reads Dead Benign (p a') bs F (fun r => a' = a ∧ P r) R where
  whole := h.whole.of_eq a'
  part c ys hc hys he hP := by
    obtain ⟨rfl, hP⟩ := hP
    exact h.part c ys hc hys he hP

/-- Nothing is missing of nothing. -/
theorem of_consumes_nil {p : Parser ε ρ α} (h : Consumes p [] F P Q) :
    Reads Dead Benign p [] F P Q where
  whole := h
  part _ _ hc hys _ _ := absurd (List.append_eq_nil_iff.mp hc.symm).2 hys

/-- A step that reads nothing and cannot fail. -/
theorem pure {a : α} (h : ∀ r, P r → Q a r) :
    Reads Dead Benign (Pure.pure a : Parser ε ρ α) [] F P Q :=
  of_consumes_nil (Consumes.pure h)

end Reads

end ReadsRules

end LibShv.ByteReader
