import Mathlib

/-!
# LibShv.QString

Texts of Qt: place markers and their replacement (`QString::arg`), and lists of
texts that are joined and split.
-/

namespace LibShv

/-- `QString`. -/
abbrev QString := List Char

namespace QString

/-! ## place markers -/

/-- A character, or a place marker as it is written. -/
inductive Piece where
  | char (c : Char)
  | marker (n : Nat) (raw : QString)
deriving DecidableEq

/-- What is read of a marker: a percent sign, maybe with the `L` after it, or also a digit. -/
inductive Pending where
  | none
  | percent (raw : QString)
  | digit (n : Nat) (raw : QString)
deriving DecidableEq

def digitValue (c : Char) : Option Nat :=
  if 48 ≤ c.toNat ∧ c.toNat ≤ 57 then some (c.toNat - 48) else none

/-- The pieces of what is pending when no more of the marker comes. -/
def Pending.flush : Pending → List Piece
  | .none => []
  | .percent raw => raw.map .char
  | .digit n raw => [.marker n raw]

/-- A character that does not go on with what is pending. -/
def start (c : Char) : List Piece × Pending :=
  if c = '%' then ([], .percent ['%']) else ([.char c], .none)

/-- The pieces that a character completes. -/
def step (c : Char) : Pending → List Piece × Pending
  | .none => start c
  | .percent raw =>
    match digitValue c with
    | some d => ([], .digit d (raw ++ [c]))
    | none =>
      if raw = ['%'] ∧ c = 'L' then ([], .percent ['%', 'L'])
      else (raw.map .char ++ (start c).1, (start c).2)
  | .digit n raw =>
    match digitValue c with
    | some d => ([.marker (10 * n + d) (raw ++ [c])], .none)
    | none => (.marker n raw :: (start c).1, (start c).2)

def pieces (p : Pending) : QString → List Piece
  | [] => p.flush
  | c :: s => (step c p).1 ++ pieces (step c p).2 s

def Piece.number? : Piece → Option Nat
  | .char _ => none
  | .marker n _ => some n

/-- A piece as it is written. -/
def Piece.text : Piece → QString
  | .char c => [c]
  | .marker _ raw => raw

def Piece.substitute (n : Nat) (a : QString) (x : Piece) : QString :=
  if x.number? = some n then a else x.text

/-- The numbers of the place markers. -/
def numbers (s : QString) : List Nat := (pieces .none s).filterMap Piece.number?

/-- All place markers with the number are replaced. -/
def substitute (n : Nat) (a s : QString) : QString := (pieces .none s).flatMap (Piece.substitute n a)

/-- `QString::arg`: the place markers with the lowest number are replaced. -/
def arg (s a : QString) : QString :=
  match (numbers s).min? with
  | none => s
  | some n => substitute n a s

example : arg "a%2b%1c%L1".toList "xy".toList = "a%2bxycxy".toList := by decide

/-! ## lists of texts -/

/-- `QChar::isSpace`. -/
def isSpace (c : Char) : Bool :=
  (9 ≤ c.toNat ∧ c.toNat ≤ 13) ∨ c.toNat = 0x20 ∨ c.toNat = 0x85 ∨ c.toNat = 0xA0 ∨
    c.toNat = 0x1680 ∨ (0x2000 ≤ c.toNat ∧ c.toNat ≤ 0x200A) ∨ c.toNat = 0x2028 ∨
    c.toNat = 0x2029 ∨ c.toNat = 0x202F ∨ c.toNat = 0x205F ∨ c.toNat = 0x3000

/-- `QString::trimmed`. -/
def trimmed (s : QString) : QString := (s.dropWhile isSpace).rdropWhile isSpace

/-- `QStringList::join`. -/
def join (sep : Char) (l : List QString) : QString := [sep].intercalate l

/-- `QString::split` with `Qt::SkipEmptyParts`. -/
def splitSkipEmpty (sep : Char) (s : QString) : List QString := (s.splitOn sep).filter (· ≠ [])

/-! ## texts between apostrophes -/

theorem step_apostrophe (p : Pending) : step '\'' p = (p.flush ++ [.char '\''], .none) := by
  cases p with
  | none => rfl
  | percent raw => simp [step, start, digitValue, Pending.flush]
  | digit n raw => simp [step, start, digitValue, Pending.flush]

/-- No marker goes on beyond an apostrophe. -/
theorem pieces_apostrophe (p : Pending) (s t : QString) :
    pieces p (s ++ '\'' :: t) = pieces p s ++ .char '\'' :: pieces .none t := by
  induction s generalizing p with
  | nil =>
    have hstep : pieces p ('\'' :: t) = (step '\'' p).1 ++ pieces (step '\'' p).2 t := rfl
    rw [List.nil_append, hstep, step_apostrophe, List.append_assoc]
    rfl
  | cons c s ih => rw [List.cons_append, pieces, pieces, ih, List.append_assoc]

theorem numbers_apostrophe (s t : QString) : numbers (s ++ '\'' :: t) = numbers s ++ numbers t := by
  rw [numbers, pieces_apostrophe, List.filterMap_append]
  rfl

theorem substitute_apostrophe (n : Nat) (a s t : QString) :
    substitute n a (s ++ '\'' :: t) = substitute n a s ++ '\'' :: substitute n a t := by
  rw [substitute, pieces_apostrophe, List.flatMap_append]
  rfl

/-- What is written while something is pending. -/
def Pending.text : Pending → QString
  | .none => []
  | .percent raw => raw
  | .digit _ raw => raw

theorem flatMap_text_step (c : Char) (p : Pending) :
    (step c p).1.flatMap Piece.text ++ (step c p).2.text = p.text ++ [c] := by
  have hchars : ∀ raw : QString, (raw.map Piece.char).flatMap Piece.text = raw := fun raw => by
    rw [List.flatMap_map]
    exact List.flatMap_singleton' raw
  have hstart : (start c).1.flatMap Piece.text ++ (start c).2.text = [c] := by
    rw [start]
    by_cases hc : c = '%'
    · rw [if_pos hc, hc]
      rfl
    · rw [if_neg hc]
      rfl
  cases p with
  | none => exact hstart
  | percent raw =>
    rw [step]
    cases digitValue c with
    | some d => rfl
    | none =>
      simp only
      by_cases hL : raw = ['%'] ∧ c = 'L'
      · rw [if_pos hL, hL.1, hL.2]
        rfl
      · rw [if_neg hL, List.flatMap_append, hchars, List.append_assoc, hstart]
        rfl
  | digit n raw =>
    rw [step]
    cases digitValue c with
    | some d => simp [Piece.text, Pending.text]
    | none =>
      simp only
      rw [List.flatMap_cons, List.append_assoc, hstart]
      rfl

/-- The pieces are the text. -/
theorem flatMap_text_pieces (p : Pending) (s : QString) :
    (pieces p s).flatMap Piece.text = p.text ++ s := by
  induction s generalizing p with
  | nil =>
    rw [pieces, List.append_nil]
    cases p with
    | none => rfl
    | percent raw =>
      rw [Pending.flush, List.flatMap_map]
      exact List.flatMap_singleton' raw
    | digit n raw => exact List.append_nil raw
  | cons c s ih =>
    rw [pieces, List.flatMap_append, ih, ← List.append_assoc, flatMap_text_step, List.append_assoc]
    rfl

theorem substitute_of_not_mem {n : Nat} {a s : QString} (h : n ∉ numbers s) : substitute n a s = s := by
  have hpieces : (pieces .none s).flatMap (Piece.substitute n a) =
      (pieces .none s).flatMap Piece.text := by
    refine List.flatMap_congr fun x hx => if_neg fun hn => h ?_
    exact List.mem_filterMap.mpr ⟨x, hx, hn⟩
  rw [substitute, hpieces]
  exact flatMap_text_pieces .none s

/-- A marker between apostrophes is replaced if all the others have higher numbers. -/
theorem arg_between {s mk t a : QString} {n : Nat} (hmk : numbers mk = [n])
    (hsub : substitute n a mk = a) (hs : ∀ m ∈ numbers s, n < m) (ht : ∀ m ∈ numbers t, n < m) :
    arg (s ++ '\'' :: (mk ++ '\'' :: t)) a = s ++ '\'' :: (a ++ '\'' :: t) := by
  have hmin : (numbers (s ++ '\'' :: (mk ++ '\'' :: t))).min? = some n := by
    rw [List.min?_eq_some_iff, numbers_apostrophe, numbers_apostrophe, hmk]
    refine ⟨List.mem_append_right _ List.mem_cons_self, fun m hm => ?_⟩
    obtain hm | hm := List.mem_append.mp hm
    · exact (hs m hm).le
    · obtain rfl | hm := List.mem_cons.mp hm
      · exact le_refl m
      · exact (ht m hm).le
  rw [arg, hmin]
  simp only
  rw [substitute_apostrophe, substitute_apostrophe, hsub,
    substitute_of_not_mem fun hn => Nat.lt_irrefl n (hs n hn),
    substitute_of_not_mem fun hn => Nat.lt_irrefl n (ht n hn)]

end QString

end LibShv
