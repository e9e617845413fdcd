import LibShv.Lib.ByteReader

/-!
# LibShv.Lib.CallTree

A recursive reader: its body, in which the recursive calls are marked, is run with the calls
answered by the reader itself. The calls of a run make a tree.

A counter is put up at every call, which fails above a limit; it may be put down again when the
call returns, or not. Put down, it counts how deep the calls are nested; otherwise it
counts the calls.

What a reader returns is related to the tree of its calls by the rules of `Ensures`: one for a
step, one for a call and one for two parts of a body, closed under the recursion by
`readTree_gives`.
-/

namespace LibShv.CallTree

open ByteReader

/-! ## trees of calls -/

/-- A call and the calls that it makes. -/
inductive Tree where
  | node (calls : List Tree)

mutual

/-- How many calls there are. -/
def Tree.size : Tree → Nat
  | .node calls => sizes calls + 1

def sizes : List Tree → Nat
  | [] => 0
  | t :: ts => t.size + sizes ts

end

mutual

/-- Inside of how many calls the innermost one is. -/
def Tree.depth : Tree → Nat
  | .node calls => depths calls

/-- The same of calls that are made by one call. -/
def depths : List Tree → Nat
  | [] => 0
  | t :: ts => max (t.depth + 1) (depths ts)

end

mutual

/-- A call is inside of others only. -/
theorem Tree.depth_lt_size : (t : Tree) → t.depth < t.size
  | .node calls => Nat.lt_succ_of_le (depths_le_sizes calls)

theorem depths_le_sizes : (ts : List Tree) → depths ts ≤ sizes ts
  | [] => Nat.le_refl _
  | t :: ts => by
    have ht := t.depth_lt_size
    have hts := depths_le_sizes ts
    rw [depths, sizes]
    omega

end

/-! ## bodies -/

/-- The body of a reader: steps, and calls that give a `V` back. -/
inductive Prog (ε ρ V : Type) : Type → Type 1 where
  | pure {α : Type} (a : α) : Prog ε ρ V α
  | step {α β : Type} (p : Parser ε ρ β) (k : β → Prog ε ρ V α) : Prog ε ρ V α
  | call {α : Type} (k : V → Prog ε ρ V α) : Prog ε ρ V α

namespace Prog

variable {ε ρ V α β : Type}

def bind : Prog ε ρ V α → (α → Prog ε ρ V β) → Prog ε ρ V β
  | .pure a, f => f a
  | .step p k, f => .step p fun b => (k b).bind f
  | .call k, f => .call fun v => (k v).bind f

instance : Monad (Prog ε ρ V) where
  pure := .pure
  bind := bind

/-- A single step. -/
def lift (p : Parser ε ρ α) : Prog ε ρ V α := .step p .pure

instance : MonadLift (Parser ε ρ) (Prog ε ρ V) := ⟨lift⟩

/-- A single call. -/
def callV : Prog ε ρ V V := .call .pure

/-- The run of a body with the calls answered by `read`. -/
def run (read : Parser ε ρ V) : Prog ε ρ V α → Parser ε ρ α
  | .pure a => return a
  | .step p k => do (k (← p)).run read
  | .call k => do (k (← read)).run read

/-- The run with the trees of its calls. -/
def trace (read : Parser ε ρ (V × Tree)) : Prog ε ρ V α → Parser ε ρ (α × List Tree)
  | .pure a => return (a, [])
  | .step p k => do (k (← p)).trace read
  | .call k => do
    let (v, t) ← read
    let (a, ts) ← (k v).trace read
    return (a, t :: ts)

/-- The run with a counter. -/
def counted (read : Int32 → Parser ε ρ (V × Int32)) :
    Prog ε ρ V α → Int32 → Parser ε ρ (α × Int32)
  | .pure a, d => return (a, d)
  | .step p k, d => do (k (← p)).counted read d
  | .call k, d => do
    let (v, d) ← read d
    (k v).counted read d

end Prog

/-! ## readers -/

section Readers

variable {ε ρ V : Type} (body : Nat → Prog ε ρ V V) (outOfFuel : ε)

/-- The reader with this body; `n` bounds how deep its calls are nested. -/
def read : Nat → Parser ε ρ V
  | 0 => throw outOfFuel
  | n + 1 => (body n).run (read n)

/-- The reader with the tree of its calls. -/
def readTree : Nat → Parser ε ρ (V × Tree)
  | 0 => throw outOfFuel
  | n + 1 => do
    let (v, calls) ← (body n).trace (readTree n)
    return (v, .node calls)

/-- The reader with a counter; `back` says whether it is put down again. -/
def readCounted (back : Bool) (limit : Int32) (exceeded : Parser ε ρ (V × Int32)) :
    Nat → Int32 → Parser ε ρ (V × Int32)
  | 0, _ => throw outOfFuel
  | n + 1, depth =>
    if 0 < limit ∧ limit < depth + 1 then exceeded
    else do
      let (v, depth) ← (body n).counted (readCounted back limit exceeded n) (depth + 1)
      return (v, if back then depth - 1 else depth)

/-! ## the tree of a run -/

variable {body outOfFuel}

/-- A body in two parts is run in two parts. -/
theorem Prog.run_bind (read : Parser ε ρ V) {α β : Type} (p : Prog ε ρ V α)
    (f : α → Prog ε ρ V β) : (p >>= f).run read = p.run read >>= fun a => (f a).run read := by
  induction p with
  | pure a => exact (pure_bind (m := Parser ε ρ) a fun a => (f a).run read).symm
  | step p k ih =>
    change (p >>= fun b => ((k b).bind f).run read) = _
    rw [run, bind_assoc]
    exact bind_congr fun b => ih b
  | call k ih =>
    change (read >>= fun v => ((k v).bind f).run read) = _
    rw [run, bind_assoc]
    exact bind_congr fun v => ih v

@[simp] theorem Prog.run_lift (read : Parser ε ρ V) {α : Type} (p : Parser ε ρ α) :
    (liftM p : Prog ε ρ V α).run read = p := bind_pure p

@[simp] theorem Prog.run_callV (read : Parser ε ρ V) : (callV : Prog ε ρ V V).run read = read :=
  bind_pure read

@[simp] theorem Prog.run_pure (read : Parser ε ρ V) {α : Type} (a : α) :
    (Pure.pure a : Prog ε ρ V α).run read = Pure.pure a := rfl

/-- What a run returns it returns with the trees of its calls. -/
theorem Prog.run_eq_ok_iff {read : Parser ε ρ V} {readTree : Parser ε ρ (V × Tree)}
    (h : ∀ c v c', read c = .ok v c' ↔ ∃ t, readTree c = .ok (v, t) c') {α : Type}
    (p : Prog ε ρ V α) (c : Cursor ρ) (a : α) (c' : Cursor ρ) :
    p.run read c = .ok a c' ↔ ∃ ts, p.trace readTree c = .ok (a, ts) c' := by
  induction p generalizing c with
  | pure b => simp [run, trace]
  | step p k ih =>
    rw [run, trace, bind_eq_ok]
    constructor
    · rintro ⟨b, c₁, hp, hk⟩
      obtain ⟨ts, hts⟩ := (ih b c₁).mp hk
      exact ⟨ts, (bind_of_ok hp).trans hts⟩
    · rintro ⟨ts, hts⟩
      obtain ⟨b, c₁, hp, hk⟩ := bind_eq_ok.mp hts
      exact ⟨b, c₁, hp, (ih b c₁).mpr ⟨ts, hk⟩⟩
  | call k ih =>
    rw [run, trace, bind_eq_ok]
    constructor
    · rintro ⟨v, c₁, hv, hk⟩
      obtain ⟨t, ht⟩ := (h c v c₁).mp hv
      obtain ⟨ts, hts⟩ := (ih v c₁).mp hk
      exact ⟨t :: ts, (bind_of_ok ht).trans ((bind_of_ok hts).trans rfl)⟩
    · rintro ⟨ts, hts⟩
      obtain ⟨⟨v, t⟩, c₁, ht, hk⟩ := bind_eq_ok.mp hts
      obtain ⟨⟨b, ts'⟩, c₂, hk', heq⟩ := bind_eq_ok.mp hk
      obtain ⟨⟨rfl, rfl⟩, rfl⟩ : (b = a ∧ t :: ts' = ts) ∧ c₂ = c' := by simpa using heq
      exact ⟨v, c₁, (h c v c₁).mpr ⟨t, ht⟩, (ih v c₁).mpr ⟨ts', hk'⟩⟩

theorem read_eq_ok_iff (n : Nat) (c : Cursor ρ) (v : V) (c' : Cursor ρ) :
    read body outOfFuel n c = .ok v c' ↔
      ∃ t, readTree body outOfFuel n c = .ok (v, t) c' := by
  induction n generalizing c v c' with
  | zero => simp [read, readTree]
  | succ n ih =>
    rw [read, readTree, Prog.run_eq_ok_iff ih]
    constructor
    · rintro ⟨ts, hts⟩
      exact ⟨.node ts, bind_of_ok hts⟩
    · rintro ⟨t, ht⟩
      obtain ⟨⟨w, ts⟩, c₁, hts, heq⟩ := bind_eq_ok.mp ht
      obtain ⟨⟨rfl, -⟩, rfl⟩ : (w = v ∧ .node ts = t) ∧ c₁ = c' := by simpa using heq
      exact ⟨ts, hts⟩

/-! ## the counter of a run -/

variable (back : Bool)

/-- What a call leaves on the counter. -/
def gain (t : Tree) : Nat := if back then 0 else t.size

/-- What the calls leave, one after the other. -/
def gains (ts : List Tree) : Nat := (ts.map (gain back)).sum

mutual

/-- How far the counter rises during a call. -/
def need : Tree → Nat
  | .node calls => needs calls + 1

def needs : List Tree → Nat
  | [] => 0
  | t :: ts => max (need t) (gain back t + needs ts)

end

@[simp] theorem gains_nil : gains back [] = 0 := rfl

@[simp] theorem gains_cons (t : Tree) (ts : List Tree) :
    gains back (t :: ts) = gain back t + gains back ts := by
  simp [gains]

theorem gains_false (ts : List Tree) : gains false ts = sizes ts := by
  induction ts with
  | nil => rfl
  | cons t ts ih => rw [gains_cons, sizes, ih]; rfl

theorem gains_true (ts : List Tree) : gains true ts = 0 := by
  induction ts with
  | nil => rfl
  | cons t ts ih => rw [gains_cons, ih]; rfl

mutual

theorem need_false : (t : Tree) → need false t = t.size
  | .node calls => congrArg (· + 1) (needs_false calls)

theorem needs_false : (ts : List Tree) → needs false ts = sizes ts
  | [] => rfl
  | t :: ts => by
    rw [needs, sizes, need_false t, needs_false ts]
    exact Nat.max_eq_right (Nat.le_add_right _ _)

end

mutual

theorem need_true : (t : Tree) → need true t = t.depth + 1
  | .node calls => congrArg (· + 1) (needs_true calls)

theorem needs_true : (ts : List Tree) → needs true ts = depths ts
  | [] => rfl
  | t :: ts => by
    rw [needs, depths, need_true t, needs_true ts]
    exact congrArg _ (Nat.zero_add _)

end

/-- A call leaves no more than it needs. -/
theorem gain_le_need (t : Tree) : gain back t ≤ need back t := by
  cases back with
  | false => exact (need_false t).ge
  | true => exact Nat.zero_le _

theorem depth_lt_need (t : Tree) : t.depth < need back t := by
  cases back with
  | false => exact (need_false t).symm ▸ t.depth_lt_size
  | true => exact (need_true t).symm ▸ Nat.lt_succ_self _

/-- What a call leaves, from what is left inside of it. -/
theorem gain_node (calls : List Tree) :
    gain back (.node calls) = if back then 0 else gains back calls + 1 := by
  cases back with
  | false => rw [gains_false]; rfl
  | true => rfl

/-! ## under the limit and over it -/

theorem toInt_add_one {d : Int32} (h : d.toInt < 2 ^ 31 - 1) :
    (d + 1).toInt = d.toInt + 1 := by
  have hd := d.le_toInt
  rw [Int32.toInt_add, Int32.toInt_one]
  exact Int.bmod_eq_of_le (by omega) (by omega)

theorem toInt_sub_one {d : Int32} (h : -2 ^ 31 < d.toInt) : (d - 1).toInt = d.toInt - 1 := by
  have hd := d.toInt_lt
  rw [Int32.toInt_sub, Int32.toInt_one]
  exact Int.bmod_eq_of_le (by omega) (by omega)

/-- The run fails where `p` does, with its error. -/
def FailsBy {α β : Type} (p : Parser ε ρ α) (run : EStateM.Result ε (Cursor ρ) β) : Prop :=
  ∃ c e c', p c = .error e c' ∧ run = .error e c'

theorem FailsBy.bind {α β γ : Type} {p : Parser ε ρ α} {q : Parser ε ρ β} {c : Cursor ρ}
    (h : FailsBy p (q c)) (f : β → Parser ε ρ γ) : FailsBy p ((q >>= f) c) := by
  obtain ⟨c₁, e, c', hp, hq⟩ := h
  exact ⟨c₁, e, c', hp, bind_of_error hq⟩

/-- A call that stays under the limit returns the same with the counter. -/
def Within (limit : Int32) (readTree : Parser ε ρ (V × Tree))
    (readCounted : Int32 → Parser ε ρ (V × Int32)) : Prop :=
  ∀ (d : Int32) c v t c', readTree c = .ok (v, t) c' →
    d.toInt + need back t ≤ limit.toInt →
      ∃ d', readCounted d c = .ok (v, d') c' ∧ d'.toInt = d.toInt + gain back t

/-- A call that goes over the limit fails with the counter. -/
def Beyond (limit : Int32) (exceeded : Parser ε ρ (V × Int32))
    (readTree : Parser ε ρ (V × Tree)) (readCounted : Int32 → Parser ε ρ (V × Int32)) : Prop :=
  ∀ (d : Int32) c v t c', readTree c = .ok (v, t) c' →
    d.toInt ≤ limit.toInt → limit.toInt < d.toInt + need back t →
      FailsBy exceeded (readCounted d c)

variable {back} {limit : Int32} {exceeded : Parser ε ρ (V × Int32)}

theorem Prog.counted_within {readTree : Parser ε ρ (V × Tree)}
    {readCounted : Int32 → Parser ε ρ (V × Int32)} (h : Within back limit readTree readCounted)
    {α : Type} (p : Prog ε ρ V α) (d : Int32) (c : Cursor ρ) (a : α) (ts : List Tree)
    (c' : Cursor ρ) (hp : p.trace readTree c = .ok (a, ts) c')
    (hd : d.toInt + needs back ts ≤ limit.toInt) :
    ∃ d', p.counted readCounted d c = .ok (a, d') c' ∧ d'.toInt = d.toInt + gains back ts := by
  induction p generalizing d c ts with
  | pure b =>
    obtain ⟨⟨rfl, rfl⟩, rfl⟩ : (b = a ∧ [] = ts) ∧ c = c' := by simpa [trace] using hp
    exact ⟨d, rfl, by simp⟩
  | step p k ih =>
    obtain ⟨b, c₁, hb, hk⟩ := bind_eq_ok.mp hp
    obtain ⟨d', hk', hd'⟩ := ih b d c₁ ts hk hd
    exact ⟨d', (bind_of_ok hb).trans hk', hd'⟩
  | call k ih =>
    obtain ⟨⟨v, t⟩, c₁, ht, hk⟩ := bind_eq_ok.mp hp
    obtain ⟨⟨b, ts'⟩, c₂, hrest, heq⟩ := bind_eq_ok.mp hk
    obtain ⟨⟨rfl, rfl⟩, rfl⟩ : (b = a ∧ t :: ts' = ts) ∧ c₂ = c' := by simpa using heq
    rw [needs] at hd
    obtain ⟨d₁, hv, hd₁⟩ := h d c v t c₁ ht (by omega)
    obtain ⟨d', hk', hd'⟩ := ih v d₁ c₁ ts' hrest (by omega)
    exact ⟨d', (bind_of_ok hv).trans hk', by rw [hd', hd₁, gains_cons]; push_cast; ring⟩

/-- Over the limit goes the first call that needs too much. -/
theorem Prog.counted_beyond {readTree : Parser ε ρ (V × Tree)}
    {readCounted : Int32 → Parser ε ρ (V × Int32)} (h : Within back limit readTree readCounted)
    (hover : Beyond back limit exceeded readTree readCounted)
    {α : Type} (p : Prog ε ρ V α) (d : Int32) (c : Cursor ρ) (a : α) (ts : List Tree)
    (c' : Cursor ρ) (hp : p.trace readTree c = .ok (a, ts) c') (hle : d.toInt ≤ limit.toInt)
    (hd : limit.toInt < d.toInt + needs back ts) :
    FailsBy exceeded (p.counted readCounted d c) := by
  induction p generalizing d c ts with
  | pure b =>
    obtain ⟨⟨rfl, rfl⟩, rfl⟩ : (b = a ∧ [] = ts) ∧ c = c' := by simpa [trace] using hp
    simp only [needs, Nat.cast_zero, add_zero] at hd
    omega
  | step p k ih =>
    obtain ⟨b, c₁, hb, hk⟩ := bind_eq_ok.mp hp
    rw [counted, bind_of_ok hb]
    exact ih b d c₁ ts hk hle hd
  | call k ih =>
    obtain ⟨⟨v, t⟩, c₁, ht, hk⟩ := bind_eq_ok.mp hp
    obtain ⟨⟨b, ts'⟩, c₂, hrest, heq⟩ := bind_eq_ok.mp hk
    obtain ⟨⟨rfl, rfl⟩, rfl⟩ : (b = a ∧ t :: ts' = ts) ∧ c₂ = c' := by simpa using heq
    rw [needs] at hd
    by_cases hfirst : limit.toInt < d.toInt + need back t
    · exact (hover d c v t c₁ ht hle hfirst).bind _
    · have hgain := gain_le_need back t
      obtain ⟨d₁, hv, hd₁⟩ := h d c v t c₁ ht (by omega)
      rw [counted, bind_of_ok hv]
      exact ih v d₁ c₁ ts' hrest (by omega) (by omega)

theorem readCounted_within (n : Nat) :
    Within back limit (readTree body outOfFuel n)
      (readCounted body outOfFuel back limit exceeded n) := by
  induction n with
  | zero => simp [Within, readTree]
  | succ n ih =>
    intro d c v t c' ht hd
    obtain ⟨⟨w, calls⟩, c₁, hcalls, heq⟩ := bind_eq_ok.mp ht
    obtain ⟨⟨rfl, rfl⟩, rfl⟩ : (w = v ∧ .node calls = t) ∧ c₁ = c' := by simpa using heq
    rw [need] at hd
    have hlimit := limit.toInt_lt
    have hup : (d + 1).toInt = d.toInt + 1 := toInt_add_one (by omega)
    have hunder : ¬ (0 < limit ∧ limit < d + 1) := by
      rintro ⟨-, hover⟩
      rw [Int32.lt_iff_toInt_lt, hup] at hover
      omega
    obtain ⟨d', hbody, hd'⟩ := (body n).counted_within ih (d + 1) c w calls c₁ hcalls (by omega)
    rw [readCounted, if_neg hunder]
    refine ⟨if back then d' - 1 else d', bind_of_ok hbody, ?_⟩
    rw [gain_node]
    have hlow := d.le_toInt
    cases back with
    | false =>
      rw [hup] at hd'
      simp only [Bool.false_eq_true, if_false]
      push_cast
      omega
    | true =>
      rw [gains_true, hup] at hd'
      simp only [if_true, Nat.cast_zero, add_zero] at hd' ⊢
      rw [toInt_sub_one (by omega)]
      omega

theorem readCounted_beyond (hexceeded : ∀ c, ∃ e c', exceeded c = .error e c')
    (hpos : 0 < limit) (hmax : limit.toInt < 2 ^ 31 - 1) (n : Nat) :
    Beyond back limit exceeded (readTree body outOfFuel n)
      (readCounted body outOfFuel back limit exceeded n) := by
  induction n with
  | zero => simp [Beyond, readTree]
  | succ n ih =>
    intro d c v t c' ht hle hd
    obtain ⟨⟨w, calls⟩, c₁, hcalls, heq⟩ := bind_eq_ok.mp ht
    obtain ⟨⟨rfl, rfl⟩, rfl⟩ : (w = v ∧ .node calls = t) ∧ c₁ = c' := by simpa using heq
    rw [need] at hd
    have hup : (d + 1).toInt = d.toInt + 1 := toInt_add_one (by omega)
    rw [readCounted]
    by_cases hover : limit < d + 1
    · rw [if_pos ⟨hpos, hover⟩]
      obtain ⟨e, c'', h⟩ := hexceeded c
      exact ⟨c, e, c'', h, h⟩
    · rw [if_neg (by tauto)]
      rw [Int32.lt_iff_toInt_lt, hup] at hover
      exact ((body n).counted_beyond (readCounted_within n) ih (d + 1) c w
        calls c₁ hcalls (by omega) (by push_cast at hd; omega)).bind _

/-! ## no limit -/

theorem Prog.counted_unlimited {readTree : Parser ε ρ (V × Tree)}
    {readCounted : Int32 → Parser ε ρ (V × Int32)}
    (h : ∀ d c v t c', readTree c = .ok (v, t) c' → ∃ d', readCounted d c = .ok (v, d') c')
    {α : Type} (p : Prog ε ρ V α) (d : Int32) (c : Cursor ρ) (a : α) (ts : List Tree)
    (c' : Cursor ρ) (hp : p.trace readTree c = .ok (a, ts) c') :
    ∃ d', p.counted readCounted d c = .ok (a, d') c' := by
  induction p generalizing d c ts with
  | pure b =>
    obtain ⟨⟨rfl, -⟩, rfl⟩ : (b = a ∧ [] = ts) ∧ c = c' := by simpa [trace] using hp
    exact ⟨d, rfl⟩
  | step p k ih =>
    obtain ⟨b, c₁, hb, hk⟩ := bind_eq_ok.mp hp
    obtain ⟨d', hk'⟩ := ih b d c₁ ts hk
    exact ⟨d', (bind_of_ok hb).trans hk'⟩
  | call k ih =>
    obtain ⟨⟨v, t⟩, c₁, ht, hk⟩ := bind_eq_ok.mp hp
    obtain ⟨⟨b, ts'⟩, c₂, hrest, heq⟩ := bind_eq_ok.mp hk
    obtain ⟨⟨rfl, -⟩, rfl⟩ : (b = a ∧ t :: ts' = ts) ∧ c₂ = c' := by simpa using heq
    obtain ⟨d₁, hv⟩ := h d c v t c₁ ht
    obtain ⟨d', hk'⟩ := ih v d₁ c₁ ts' hrest
    exact ⟨d', (bind_of_ok hv).trans hk'⟩

/-- A limit that no counter exceeds is none. -/
theorem readCounted_unlimited (hnone : ∀ d : Int32, ¬ (0 < limit ∧ limit < d)) (n : Nat)
    (d : Int32) (c : Cursor ρ) (v : V) (t : Tree) (c' : Cursor ρ) (ht : readTree body outOfFuel n c = .ok (v, t) c') :
    ∃ d', readCounted body outOfFuel back limit exceeded n d c = .ok (v, d') c' := by
  induction n generalizing d c v t c' with
  | zero => simp [readTree] at ht
  | succ n ih =>
    obtain ⟨⟨w, calls⟩, c₁, hcalls, heq⟩ := bind_eq_ok.mp ht
    obtain ⟨⟨rfl, -⟩, rfl⟩ : (w = v ∧ .node calls = t) ∧ c₁ = c' := by simpa using heq
    obtain ⟨d', hbody⟩ := (body n).counted_unlimited ih (d + 1) c w calls c₁ hcalls
    rw [readCounted, if_neg (hnone _)]
    exact ⟨_, bind_of_ok hbody⟩

theorem Prog.trace_of_counted {readTree : Parser ε ρ (V × Tree)}
    {readCounted : Int32 → Parser ε ρ (V × Int32)}
    (h : ∀ d c v d' c', readCounted d c = .ok (v, d') c' → ∃ t, readTree c = .ok (v, t) c')
    {α : Type} (p : Prog ε ρ V α) (d : Int32) (c : Cursor ρ) (a : α) (d' : Int32)
    (c' : Cursor ρ) (hp : p.counted readCounted d c = .ok (a, d') c') :
    ∃ ts, p.trace readTree c = .ok (a, ts) c' := by
  induction p generalizing d c with
  | pure b =>
    obtain ⟨⟨rfl, -⟩, rfl⟩ : (b = a ∧ d = d') ∧ c = c' := by simpa [counted] using hp
    exact ⟨[], rfl⟩
  | step p k ih =>
    obtain ⟨b, c₁, hb, hk⟩ := bind_eq_ok.mp hp
    obtain ⟨ts, hts⟩ := ih b d c₁ hk
    exact ⟨ts, (bind_of_ok hb).trans hts⟩
  | call k ih =>
    obtain ⟨⟨v, d₁⟩, c₁, hv, hk⟩ := bind_eq_ok.mp hp
    obtain ⟨t, ht⟩ := h d c v d₁ c₁ hv
    obtain ⟨ts, hts⟩ := ih v d₁ c₁ hk
    exact ⟨t :: ts, (bind_of_ok ht).trans ((bind_of_ok hts).trans rfl)⟩

/-- What is returned with a limit is returned without one. -/
theorem readTree_of_readCounted (n : Nat) (d : Int32) (c : Cursor ρ) (v : V) (d' : Int32)
    (c' : Cursor ρ) (hexceeded : ∀ c, ∃ e c', exceeded c = .error e c')
    (h : readCounted body outOfFuel back limit exceeded n d c = .ok (v, d') c') :
    ∃ t, readTree body outOfFuel n c = .ok (v, t) c' := by
  induction n generalizing d c v d' c' with
  | zero => simp [readCounted] at h
  | succ n ih =>
    rw [readCounted] at h
    split at h
    · obtain ⟨e, c'', he⟩ := hexceeded c
      simp [he] at h
    · obtain ⟨⟨w, d₁⟩, c₁, hbody, heq⟩ := bind_eq_ok.mp h
      obtain ⟨⟨rfl, -⟩, rfl⟩ : (w = v ∧ _ = d') ∧ c₁ = c' := by simpa using heq
      obtain ⟨calls, hcalls⟩ := (body n).trace_of_counted ih (d + 1) c w d₁ c₁ hbody
      exact ⟨.node calls, bind_of_ok hcalls⟩

/-! ## the limit of nesting -/

variable (body outOfFuel back limit exceeded) in
/-- The reader with a counter, which the first call puts to 0. -/
def readLimited (n : Nat) : Parser ε ρ V := do
  return (← readCounted body outOfFuel back limit exceeded n (-1)).1

/-- The limit is one of nesting: up to it the reader returns what it returns without one, above
it fails because of the limit. -/
def LimitsDepth (limit : Int32) (exceeded : Parser ε ρ (V × Int32)) (t : Tree) (v : V)
    (c' : Cursor ρ) (run : EStateM.Result ε (Cursor ρ) V) : Prop :=
  (t.depth ≤ limit.toInt → run = .ok v c') ∧ (limit.toInt < t.depth → FailsBy exceeded run)

theorem limitsDepth_iff_of_ok {t : Tree} {v : V} {c' : Cursor ρ}
    {run : EStateM.Result ε (Cursor ρ) V} (h : run = .ok v c') :
    LimitsDepth limit exceeded t v c' run ↔ t.depth ≤ limit.toInt := by
  subst h
  simp [LimitsDepth, FailsBy]

theorem limitsDepth_iff_of_error {t : Tree} {v : V} {c' : Cursor ρ}
    {run : EStateM.Result ε (Cursor ρ) V} (h : FailsBy exceeded run) :
    LimitsDepth limit exceeded t v c' run ↔ limit.toInt < t.depth := by
  have hnot : run ≠ .ok v c' := by
    obtain ⟨-, e, c'', -, rfl⟩ := h
    simp
  simp [LimitsDepth, h, hnot]

section Limited

variable {n : Nat} {c c' : Cursor ρ} {v : V} {t : Tree}

theorem readLimited_unlimited (hnone : ∀ d : Int32, ¬ (0 < limit ∧ limit < d))
    (ht : readTree body outOfFuel n c = .ok (v, t) c') :
    readLimited body outOfFuel back limit exceeded n c = .ok v c' := by
  obtain ⟨d', h⟩ := readCounted_unlimited hnone n (-1) c v t c' ht
  exact bind_of_ok h

theorem readLimited_within (ht : readTree body outOfFuel n c = .ok (v, t) c')
    (hneed : need back t ≤ limit.toInt + 1) :
    readLimited body outOfFuel back limit exceeded n c = .ok v c' := by
  have hwithin : Within back limit (readTree body outOfFuel n)
      (readCounted body outOfFuel back limit exceeded n) := readCounted_within n
  have hminus : (-1 : Int32).toInt = -1 := rfl
  obtain ⟨d', h, -⟩ := hwithin (-1) c v t c' ht (by omega)
  exact bind_of_ok h

theorem readLimited_beyond (hexceeded : ∀ c, ∃ e c', exceeded c = .error e c')
    (hpos : 0 < limit) (hmax : limit.toInt < 2 ^ 31 - 1)
    (ht : readTree body outOfFuel n c = .ok (v, t) c')
    (hneed : limit.toInt + 1 < need back t) :
    FailsBy exceeded (readLimited body outOfFuel back limit exceeded n c) := by
  have hminus : (-1 : Int32).toInt = -1 := rfl
  have hpos' : 0 < limit.toInt := by simpa [Int32.lt_iff_toInt_lt] using hpos
  have hbeyond : Beyond back limit exceeded (readTree body outOfFuel n)
      (readCounted body outOfFuel back limit exceeded n) :=
    readCounted_beyond hexceeded hpos hmax n
  exact (hbeyond (-1) c v t c' ht (by omega) (by omega)).bind _

/-- The largest counter exceeds no limit that it is. -/
theorem not_exceeded_of_max (hmax : ¬ limit.toInt < 2 ^ 31 - 1) (d : Int32) :
    ¬ (0 < limit ∧ limit < d) := by
  rintro ⟨-, h⟩
  rw [Int32.lt_iff_toInt_lt] at h
  have hd := d.toInt_lt
  omega

/-- A counter that is put down again limits nesting. -/
theorem limitsDepth_back_iff (hexceeded : ∀ c, ∃ e c', exceeded c = .error e c')
    (hpos : 0 < limit) (ht : readTree body outOfFuel n c = .ok (v, t) c') :
    LimitsDepth limit exceeded t v c' (readLimited body outOfFuel true limit exceeded n c) ↔
      limit.toInt < 2 ^ 31 - 1 ∨ t.depth ≤ limit.toInt := by
  by_cases hmax : limit.toInt < 2 ^ 31 - 1
  · have hneed := need_true t
    refine iff_of_true ⟨fun hle => ?_, fun hlt => ?_⟩ (.inl hmax)
    · exact readLimited_within ht (by omega)
    · exact readLimited_beyond hexceeded hpos hmax ht (by omega)
  · rw [limitsDepth_iff_of_ok (readLimited_unlimited (not_exceeded_of_max hmax) ht),
      or_iff_right hmax]

/-- A counter that is not limits how many calls there are. -/
theorem limitsDepth_forth_iff (hexceeded : ∀ c, ∃ e c', exceeded c = .error e c')
    (hpos : 0 < limit) (ht : readTree body outOfFuel n c = .ok (v, t) c') :
    LimitsDepth limit exceeded t v c' (readLimited body outOfFuel false limit exceeded n c) ↔
      (limit.toInt < 2 ^ 31 - 1 ∧ (t.size ≤ limit.toInt + 1 ∨ limit.toInt < t.depth)) ∨
        (¬ limit.toInt < 2 ^ 31 - 1 ∧ t.depth ≤ limit.toInt) := by
  by_cases hmax : limit.toInt < 2 ^ 31 - 1
  · have hneed := need_false t
    have hdepth := t.depth_lt_size
    by_cases hsize : t.size ≤ limit.toInt + 1
    · rw [limitsDepth_iff_of_ok (readLimited_within ht (by omega))]
      omega
    · rw [limitsDepth_iff_of_error
        (readLimited_beyond hexceeded hpos hmax ht (by omega))]
      omega
  · rw [limitsDepth_iff_of_ok (readLimited_unlimited (not_exceeded_of_max hmax) ht)]
    tauto

/-- What is returned with a limit is not nested deeper, put down or not. -/
theorem depth_le_of_readLimited (hexceeded : ∀ c, ∃ e c', exceeded c = .error e c')
    (hpos : 0 < limit) (hmax : limit.toInt < 2 ^ 31 - 1)
    (h : readLimited body outOfFuel back limit exceeded n c = .ok v c') :
    ∃ t, readTree body outOfFuel n c = .ok (v, t) c' ∧ t.depth ≤ limit.toInt := by
  obtain ⟨⟨w, d'⟩, c₁, hcounted, heq⟩ := bind_eq_ok.mp h
  obtain ⟨rfl, rfl⟩ : w = v ∧ c₁ = c' := by simpa using heq
  obtain ⟨t, ht⟩ := readTree_of_readCounted n (-1) c w d' c₁ hexceeded hcounted
  refine ⟨t, ht, ?_⟩
  by_contra hdeep
  have hneed := depth_lt_need back t
  obtain ⟨-, e, c'', -, herror⟩ := readLimited_beyond hexceeded hpos hmax ht
    (show limit.toInt + 1 < need back t by omega)
  rw [h] at herror
  cases herror

end Limited

end Readers

/-! ## what a run ensures -/

section Ensures

variable {ε ρ V α β : Type}

theorem depths_append (ts us : List Tree) : depths (ts ++ us) = max (depths ts) (depths us) := by
  induction ts with
  | nil => exact (Nat.zero_max _).symm
  | cons t ts ih => rw [List.cons_append, depths, depths, ih, Nat.max_assoc]

/-- What a reader returns has the property. -/
def Gives (p : Parser ε ρ α) (Q : α → Prop) : Prop := ∀ c a c', p c = .ok a c' → Q a

theorem Gives.pure {Q : α → Prop} {a : α} (h : Q a) : Gives (Pure.pure a : Parser ε ρ α) Q := by
  intro c b c' hb
  obtain ⟨rfl, -⟩ : a = b ∧ c = c' := by simpa using hb
  exact h

theorem Gives.throw {Q : α → Prop} {e : ε} :
    Gives (MonadExcept.throw e : Parser ε ρ α) Q := nofun

theorem Gives.bind {p : Parser ε ρ β} {f : β → Parser ε ρ α} {Q : α → Prop}
    (h : ∀ b, Gives (f b) Q) : Gives (p >>= f) Q := by
  intro c a c' ha
  obtain ⟨b, c₁, -, hb⟩ := bind_eq_ok.mp ha
  exact h b c₁ a c' hb

theorem Gives.ite {b : Prop} [Decidable b] {p q : Parser ε ρ α} {Q : α → Prop}
    (hp : b → Gives p Q) (hq : ¬ b → Gives q Q) : Gives (if b then p else q) Q := by
  by_cases h : b
  · rw [if_pos h]
    exact hp h
  · rw [if_neg h]
    exact hq h

namespace Prog

variable {Child : V → Tree → Prop}

/-- Where every call has the property `Child`, the run has the property `Q`. -/
def Ensures (Child : V → Tree → Prop) (p : Prog ε ρ V α) (Q : α → List Tree → Prop) : Prop :=
  ∀ (readTree : Parser ε ρ (V × Tree)), Gives readTree (fun vt => Child vt.1 vt.2) →
    ∀ c a ts c', p.trace readTree c = .ok (a, ts) c' → Q a ts

theorem Ensures.pure {Q : α → List Tree → Prop} {a : α} (h : Q a []) :
    Ensures Child (Pure.pure a : Prog ε ρ V α) Q := by
  intro readTree _ c b ts c' hb
  obtain ⟨⟨rfl, rfl⟩, -⟩ : (a = b ∧ [] = ts) ∧ c = c' := by
    simpa [Pure.pure, trace, EStateM.pure] using hb
  exact h

theorem Ensures.imp {Q R : α → List Tree → Prop} {p : Prog ε ρ V α} (hp : Ensures Child p Q)
    (h : ∀ a ts, Q a ts → R a ts) : Ensures Child p R :=
  fun readTree hread c a ts c' ha => h a ts (hp readTree hread c a ts c' ha)

/-- A step makes no call. -/
theorem Ensures.step {p : Parser ε ρ β} {k : β → Prog ε ρ V α} {Q : α → List Tree → Prop}
    (h : ∀ b, Ensures Child (k b) Q) : Ensures Child (liftM p >>= k) Q := by
  intro readTree hread c a ts c' ha
  obtain ⟨b, c₁, -, hb⟩ := bind_eq_ok.mp ha
  exact h b readTree hread c₁ a ts c' hb

theorem Ensures.lift {p : Parser ε ρ α} {Q : α → List Tree → Prop}
    (h : Gives p fun a => Q a []) : Ensures Child (liftM p : Prog ε ρ V α) Q := by
  intro readTree _ c a ts c' ha
  obtain ⟨b, c₁, hb, heq⟩ := bind_eq_ok.mp ha
  obtain ⟨⟨rfl, rfl⟩, -⟩ : (b = a ∧ [] = ts) ∧ c₁ = c' := by simpa [trace] using heq
  exact h c b c₁ hb

theorem Ensures.ite {b : Prop} [Decidable b] {p q : Prog ε ρ V α} {Q : α → List Tree → Prop}
    (hp : b → Ensures Child p Q) (hq : ¬ b → Ensures Child q Q) :
    Ensures Child (if b then p else q) Q := by
  by_cases h : b
  · rw [if_pos h]
    exact hp h
  · rw [if_neg h]
    exact hq h

theorem Ensures.call {k : V → Prog ε ρ V α} {Q : α → List Tree → Prop}
    (h : ∀ v t, Child v t → Ensures Child (k v) fun a ts => Q a (t :: ts)) :
    Ensures Child (callV >>= k) Q := by
  intro readTree hread c a ts c' ha
  obtain ⟨⟨v, t⟩, c₁, ht, hk⟩ := bind_eq_ok.mp ha
  obtain ⟨⟨b, us⟩, c₂, hrest, heq⟩ := bind_eq_ok.mp hk
  obtain ⟨⟨rfl, rfl⟩, -⟩ : (b = a ∧ t :: us = ts) ∧ c₂ = c' := by simpa using heq
  exact h v t (hread c _ c₁ ht) readTree hread c₁ b us c₂ hrest

theorem trace_bind (readTree : Parser ε ρ (V × Tree)) (p : Prog ε ρ V β)
    (f : β → Prog ε ρ V α) (c : Cursor ρ) (a : α) (ts : List Tree) (c' : Cursor ρ)
    (h : (p >>= f).trace readTree c = .ok (a, ts) c') :
    ∃ b us c₁ vs, p.trace readTree c = .ok (b, us) c₁ ∧
      (f b).trace readTree c₁ = .ok (a, vs) c' ∧ ts = us ++ vs := by
  induction p generalizing c ts with
  | pure b => exact ⟨b, [], c, ts, rfl, h, rfl⟩
  | step p k ih =>
    obtain ⟨b, c₁, hb, hk⟩ := bind_eq_ok.mp h
    obtain ⟨b', us, c₂, vs, hus, hvs, rfl⟩ := ih b c₁ ts hk
    exact ⟨b', us, c₂, vs, (bind_of_ok hb).trans hus, hvs, rfl⟩
  | call k ih =>
    obtain ⟨⟨v, t⟩, c₁, ht, hk⟩ := bind_eq_ok.mp h
    obtain ⟨⟨b, ws⟩, c₂, hrest, heq⟩ := bind_eq_ok.mp hk
    obtain ⟨⟨rfl, rfl⟩, rfl⟩ : (b = a ∧ t :: ws = ts) ∧ c₂ = c' := by simpa using heq
    obtain ⟨b', us, c₃, vs, hus, hvs, rfl⟩ := ih v c₁ ws hrest
    exact ⟨b', t :: us, c₃, vs, (bind_of_ok ht).trans ((bind_of_ok hus).trans rfl), hvs, rfl⟩

/-- Two parts have their calls one after the other. -/
theorem Ensures.bind {p : Prog ε ρ V β} {f : β → Prog ε ρ V α} {P : β → List Tree → Prop}
    {Q : α → List Tree → Prop} (hp : Ensures Child p P)
    (hf : ∀ b us, P b us → Ensures Child (f b) fun a vs => Q a (us ++ vs)) :
    Ensures Child (p >>= f) Q := by
  intro readTree hread c a ts c' ha
  obtain ⟨b, us, c₁, vs, hus, hvs, rfl⟩ := trace_bind readTree p f c a ts c' ha
  exact hf b us (hp readTree hread c b us c₁ hus) readTree hread c₁ a vs c' hvs

end Prog

/-- What every body ensures, given that its calls do, every call does. -/
theorem readTree_gives {body : Nat → Prog ε ρ V V} {outOfFuel : ε} {Child : V → Tree → Prop}
    (h : ∀ n, (body n).Ensures Child fun v calls => Child v (.node calls)) (n : Nat) :
    Gives (readTree body outOfFuel n) fun vt => Child vt.1 vt.2 := by
  induction n with
  | zero => exact Gives.throw
  | succ n ih =>
    intro c vt c' ht
    obtain ⟨⟨v, calls⟩, c₁, hcalls, heq⟩ := bind_eq_ok.mp ht
    obtain ⟨rfl, -⟩ : (v, .node calls) = vt ∧ c₁ = c' := by simpa using heq
    exact h n _ ih c v calls c₁ hcalls

end Ensures

end LibShv.CallTree
