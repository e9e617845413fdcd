import LibShv.CoreQt
import LibShv.Lib.SortedMap

/-!
# LibShv.CoreQt.JsonText

What a JSON text denotes (`QJsonValue`, RFC 8259). The members of an object are in the order
of their keys here, so that a text denotes one value whatever order it has them in.
-/

namespace LibShv

/-- A number of JSON, or a `double` that is none. -/
inductive QDouble where
  | finite (x : ℚ)
  | nonFinite (bits : UInt64)
deriving DecidableEq

/-- `QJsonValue`. -/
inductive QJsonValue where
  | null
  | bool (b : Bool)
  | double (x : QDouble)
  | string (s : QString)
  | array (vs : List QJsonValue)
  | object (m : List (QString × QJsonValue))
  | undefined

namespace JsonText

/-! ## strings -/

def isWs (c : Char) : Bool := c = ' ' ∨ c = '\t' ∨ c = '\n' ∨ c = '\r'

def skipWs (cs : QString) : QString := cs.dropWhile isWs

def isDigit (c : Char) : Bool := 48 ≤ c.toNat ∧ c.toNat ≤ 57

def hexValue (c : Char) : Option Nat :=
  if isDigit c then some (c.toNat - 48)
  else if 97 ≤ c.toNat ∧ c.toNat ≤ 102 then some (c.toNat - 87)
  else if 65 ≤ c.toNat ∧ c.toNat ≤ 70 then some (c.toNat - 55)
  else none

/-- Four hexadecimal digits. -/
def hex4 (a b c d : Char) : Option Nat := do
  return (((← hexValue a) * 16 + (← hexValue b)) * 16 + (← hexValue c)) * 16 + (← hexValue d)

/-- A character that is escaped by one letter. -/
def shortEscape (c : Char) : Option Char :=
  if c = '"' ∨ c = '\\' ∨ c = '/' then some c
  else if c = 'b' then some '\x08'
  else if c = 'f' then some '\x0c'
  else if c = 'n' then some '\n'
  else if c = 'r' then some '\r'
  else if c = 't' then some '\t'
  else none

/-- What is behind the `u` of an escape: a character, or the first half of one and the second
half in an escape of its own. -/
def longEscape : QString → Option (Char × QString)
  | a :: b :: c :: d :: rest => do
    let v ← hex4 a b c d
    if 0xdc00 ≤ v ∧ v < 0xe000 then none
    else if 0xd800 ≤ v ∧ v < 0xdc00 then
      match rest with
      | x :: u :: e :: f :: g :: h :: rest' => do
        let w ← hex4 e f g h
        if x = '\\' ∧ u = 'u' ∧ 0xdc00 ≤ w ∧ w < 0xe000 then
          return (Char.ofNat (0x10000 + (v - 0xd800) * 0x400 + (w - 0xdc00)), rest')
        else none
      | _ => none
    else return (Char.ofNat v, rest)
  | _ => none

/-- The characters up to the closing quote, and what is behind it. -/
def stringChars : Nat → QString → Option (QString × QString)
  | 0, _ => none
  | _, [] => none
  | fuel + 1, c :: rest =>
    if c = '"' then some ([], rest)
    else if c = '\\' then
      match rest with
      | [] => none
      | e :: rest' => do
        let (x, rest') ← if e = 'u' then longEscape rest' else (·, rest') <$> shortEscape e
        let (s, rest') ← stringChars fuel rest'
        return (x :: s, rest')
    else if c.toNat < 0x20 then none
    else do
      let (s, rest') ← stringChars fuel rest
      return (c :: s, rest')

/-! ## numbers -/

def digitsValue (ds : QString) : Nat := ds.foldl (fun n c => n * 10 + (c.toNat - 48)) 0

/-- The digits behind a point. -/
def fraction : QString → Option (QString × QString)
  | c :: rest =>
    if c = '.' then
      let (ds, rest) := rest.span isDigit
      if ds = [] then none else some (ds, rest)
    else some ([], c :: rest)
  | [] => some ([], [])

/-- The exponent behind an `e`, 0 without one. -/
def exponent : QString → Option (Int × QString)
  | c :: rest =>
    if c = 'e' ∨ c = 'E' then
      let (neg, rest) := match rest with
        | s :: r => if s = '-' then (true, r) else if s = '+' then (false, r) else (false, s :: r)
        | [] => (false, [])
      let (ds, rest) := rest.span isDigit
      if ds = [] then none
      else some (if neg then -digitsValue ds else digitsValue ds, rest)
    else some (0, c :: rest)
  | [] => some (0, [])

/-- A number without its sign. -/
def unsignedNumber (cs : QString) : Option (ℚ × QString) := do
  let (int, cs) := cs.span isDigit
  if int = [] ∨ (int.head? = some '0' ∧ int ≠ ['0']) then none
  else
    let (frac, cs) ← fraction cs
    let (ex, cs) ← exponent cs
    if frac = [] ∧ ex = 0 then return (digitsValue int, cs)
    else return (digitsValue (int ++ frac) * 10 ^ (ex - frac.length), cs)

def number : QString → Option (ℚ × QString)
  | c :: cs => if c = '-' then (fun r => (-r.1, r.2)) <$> unsignedNumber cs
    else unsignedNumber (c :: cs)
  | [] => none

/-! ## values -/

/-- A text that stands for a value. -/
def literal (text : QString) (v : QJsonValue) (cs : QString) : Option (QJsonValue × QString) :=
  if text.isPrefixOf cs then some (v, cs.drop text.length) else none

mutual

/-- A value at the beginning of a text, and what is behind it. -/
def value : Nat → QString → Option (QJsonValue × QString)
  | 0, _ => none
  | fuel + 1, cs =>
    match skipWs cs with
    | [] => none
    | c :: rest =>
      if c = '"' then (fun r => (.string r.1, r.2)) <$> stringChars (rest.length + 1) rest
      else if c = '[' then
        match skipWs rest with
        | [] => none
        | x :: rest' =>
          if x = ']' then some (.array [], rest')
          else (fun r => (.array r.1, r.2)) <$> elements fuel (x :: rest')
      else if c = '\x7b' then
        match skipWs rest with
        | [] => none
        | x :: rest' =>
          if x = '\x7d' then some (.object [], rest')
          else (fun r => (.object r.1, r.2)) <$> members fuel [] (x :: rest')
      else if c = 'n' then literal "null".toList .null (c :: rest)
      else if c = 't' then literal "true".toList (.bool true) (c :: rest)
      else if c = 'f' then literal "false".toList (.bool false) (c :: rest)
      else (fun r => (.double (.finite r.1), r.2)) <$> number (c :: rest)

/-- The elements of an array up to its end. -/
def elements : Nat → QString → Option (List QJsonValue × QString)
  | 0, _ => none
  | fuel + 1, cs => do
    let (v, cs) ← value fuel cs
    match skipWs cs with
    | [] => none
    | c :: rest =>
      if c = ',' then do
        let (vs, rest) ← elements fuel rest
        return (v :: vs, rest)
      else if c = ']' then return ([v], rest)
      else none

/-- The members of an object up to its end. -/
def members : Nat → List (QString × QJsonValue) → QString →
    Option (List (QString × QJsonValue) × QString)
  | 0, _, _ => none
  | fuel + 1, m, cs =>
    match skipWs cs with
    | [] => none
    | q :: cs =>
      if q = '"' then do
        let (key, cs) ← stringChars (cs.length + 1) cs
        match skipWs cs with
        | [] => none
        | colon :: cs =>
          if colon = ':' then do
            let (v, cs) ← value fuel cs
            match skipWs cs with
            | [] => none
            | c :: rest =>
              if c = ',' then members fuel (SortedMap.insert key v m) rest
              else if c = '\x7d' then return (SortedMap.insert key v m, rest)
              else none
          else none
      else none

end

/-- The value of a whole text. -/
def parse (cs : QString) : Option QJsonValue := do
  let (v, rest) ← value (cs.length + 1) cs
  if skipWs rest = [] then return v else none

/-- The bytes are the UTF-8 of a text that denotes the value. -/
def Denotes (bs : Bytes) (v : QJsonValue) : Prop :=
  ∃ cs : QString, bs = cs.toStdString ∧ parse cs = some v

/-! ## texts between quotes -/

/-- A character that stands for itself in a string, in one byte. -/
def IsPlain (c : Char) : Prop := 0x20 ≤ c.toNat ∧ c.toNat < 0x80 ∧ c ≠ '"' ∧ c ≠ '\\'

instance (c : Char) : Decidable (IsPlain c) := inferInstanceAs (Decidable (_ ∧ _))

/-- The bytes that a character takes at least. -/
def cost (c : Char) : Nat := if IsPlain c then 1 else if c.toNat < 0x10000 then 2 else 4

def costs (s : QString) : Nat := (s.map cost).sum

def utf8Length (cs : QString) : Nat := cs.toStdString.length

@[simp] theorem utf8Length_nil : utf8Length [] = 0 := rfl

@[simp] theorem utf8Length_cons (c : Char) (cs : QString) :
    utf8Length (c :: cs) = c.utf8Size + utf8Length cs := by
  simp [utf8Length, QString.toStdString]

theorem cost_le_two {c : Char} (h : c.toNat < 0x10000) : cost c ≤ 2 := by
  rw [cost]
  split_ifs <;> omega

theorem cost_le_four (c : Char) : cost c ≤ 4 := by
  rw [cost]
  split_ifs <;> omega

theorem utf8Size_pos (c : Char) : 1 ≤ c.utf8Size := Char.utf8Size_pos c

/-- A character that is not escaped takes its bytes. -/
theorem cost_le_utf8Size {c : Char} (h : 0x20 ≤ c.toNat) (hquote : c ≠ '"')
    (hback : c ≠ '\\') : cost c ≤ c.utf8Size := by
  have hval : c.val.toNat = c.toNat := rfl
  simp only [cost, IsPlain, h, hquote, hback, ne_eq, not_false_eq_true, and_true, true_and,
    Char.utf8Size, UInt32.le_iff_toNat_le, hval]
  split_ifs <;> simp_all <;> omega

theorem shortEscape_lt {e c : Char} (h : shortEscape e = some c) : c.toNat < 0x10000 := by
  rw [shortEscape] at h
  split_ifs at h with he <;> cases h
  · rcases he with rfl | rfl | rfl <;> decide
  all_goals decide

/-- An escape by a number takes four bytes at least. -/
theorem longEscape_length {cs rest : QString} {x : Char} (h : longEscape cs = some (x, rest)) :
    4 + utf8Length rest ≤ utf8Length cs := by
  match cs, h with
  | a :: b :: c :: d :: cs, h =>
    have ha := utf8Size_pos a
    have hb := utf8Size_pos b
    have hc := utf8Size_pos c
    have hd := utf8Size_pos d
    simp only [utf8Length_cons]
    rw [longEscape] at h
    obtain ⟨v, -, h⟩ := Option.bind_eq_some_iff.mp h
    split_ifs at h with hlow hhigh
    · match cs, h with
      | y :: u :: e :: f :: g :: k :: cs, h =>
        obtain ⟨w, -, h⟩ := Option.bind_eq_some_iff.mp h
        split_ifs at h with hpair
        obtain ⟨-, rfl⟩ := Prod.mk.inj (Option.some.inj h)
        simp only [utf8Length_cons]
        omega
    · cases h
      omega

/-- What is read takes at least its cost, and the closing quote. -/
theorem costs_le {fuel : Nat} {cs s rest : QString} (h : stringChars fuel cs = some (s, rest)) :
    costs s + 1 + utf8Length rest ≤ utf8Length cs := by
  induction fuel generalizing cs s rest with
  | zero => cases h
  | succ fuel ih =>
    match cs, h with
    | c :: cs, h =>
      rw [stringChars.eq_def] at h
      dsimp only at h
      rw [utf8Length_cons]
      split_ifs at h with hquote hback hcontrol
      · cases h
        have hpos := utf8Size_pos c
        simp only [costs, List.map_nil, List.sum_nil]
        omega
      · match cs, h with
        | e :: cs, h =>
          dsimp only at h
          have hc := utf8Size_pos c
          have he := utf8Size_pos e
          rw [utf8Length_cons]
          split_ifs at h with hu
          · obtain ⟨⟨x, cs'⟩, hescape, h⟩ := Option.bind_eq_some_iff.mp h
            obtain ⟨⟨t, rest'⟩, hchars, h⟩ := Option.bind_eq_some_iff.mp h
            obtain ⟨rfl, rfl⟩ := Prod.mk.inj (Option.some.inj h)
            have hrest := ih hchars
            have hlong := longEscape_length hescape
            have hcost := cost_le_four x
            simp only [costs, List.map_cons, List.sum_cons] at hrest ⊢
            omega
          · obtain ⟨⟨x, cs'⟩, hescape, h⟩ := Option.bind_eq_some_iff.mp h
            obtain ⟨⟨t, rest'⟩, hchars, h⟩ := Option.bind_eq_some_iff.mp h
            obtain ⟨rfl, rfl⟩ := Prod.mk.inj (Option.some.inj h)
            obtain ⟨y, hy, heq⟩ := Option.map_eq_some_iff.mp hescape
            obtain ⟨rfl, rfl⟩ := Prod.mk.inj heq
            have hrest := ih hchars
            have hcost := cost_le_two (shortEscape_lt hy)
            simp only [costs, List.map_cons, List.sum_cons] at hrest ⊢
            omega
      · obtain ⟨⟨t, rest'⟩, hchars, h⟩ := Option.bind_eq_some_iff.mp h
        cases h
        have hrest := ih hchars
        have hcost := cost_le_utf8Size (Nat.not_lt.mp hcontrol) hquote hback
        simp only [costs, List.map_cons, List.sum_cons] at hrest ⊢
        omega

/-- Plain characters are read as they are. -/
theorem stringChars_plain {s : QString} (h : ∀ c ∈ s, IsPlain c) (rest : QString) {fuel : Nat}
    (hfuel : s.length < fuel) : stringChars fuel (s ++ '"' :: rest) = some (s, rest) := by
  induction s generalizing fuel with
  | nil =>
    obtain ⟨fuel, rfl⟩ := Nat.exists_eq_succ_of_ne_zero (Nat.ne_of_gt hfuel)
    rfl
  | cons c s ih =>
    obtain ⟨fuel, rfl⟩ := Nat.exists_eq_succ_of_ne_zero (Nat.ne_of_gt (Nat.zero_lt_of_lt hfuel))
    obtain ⟨⟨hlo, -, hquote, hback⟩, hs⟩ := List.forall_mem_cons.mp h
    have hchars := ih hs (Nat.lt_of_succ_lt_succ hfuel)
    rw [List.cons_append, stringChars.eq_def]
    dsimp only
    rw [if_neg hquote, if_neg hback, if_neg (Nat.not_lt.mpr hlo), hchars]
    rfl

/-- A text between quotes, as it stands. -/
def quoted (s : QString) : QString := '"' :: (s ++ ['"'])

theorem parse_quoted {s : QString} (h : ∀ c ∈ s, IsPlain c) :
    parse (quoted s) = some (.string s) := by
  have hchars : stringChars ((s ++ ['"']).length + 1) (s ++ ['"']) = some (s, []) :=
    stringChars_plain h [] (by simp)
  have hvalue : value ((quoted s).length + 1) (quoted s) = some (.string s, []) := by
    have hws : skipWs (quoted s) = quoted s := rfl
    rw [value, hws]
    simp only [quoted, if_true, hchars]
    rfl
  rw [parse, hvalue]
  rfl

/-- A value that is a string is read from a text that starts with a quote. -/
theorem stringChars_of_parse {cs s : QString} (h : parse cs = some (.string s)) :
    ∃ c rest fuel rest', skipWs cs = c :: rest ∧ stringChars fuel rest = some (s, rest') := by
  rw [parse] at h
  obtain ⟨⟨v, r⟩, hvalue, h⟩ := Option.bind_eq_some_iff.mp h
  dsimp only at h
  split_ifs at h
  cases h
  rw [value] at hvalue
  split at hvalue
  · cases hvalue
  · rename_i c rest hws
    split_ifs at hvalue with h1 h2 h3 h4 h5 h6
    · obtain ⟨⟨t, rest'⟩, hchars, heq⟩ := Option.map_eq_some_iff.mp hvalue
      cases heq
      exact ⟨c, rest, _, rest', hws, hchars⟩
    · split at hvalue
      · cases hvalue
      · split_ifs at hvalue
        · cases hvalue
        · obtain ⟨t, -, heq⟩ := Option.map_eq_some_iff.mp hvalue
          cases heq
    · split at hvalue
      · cases hvalue
      · split_ifs at hvalue
        · cases hvalue
        · obtain ⟨t, -, heq⟩ := Option.map_eq_some_iff.mp hvalue
          cases heq
    all_goals first
      | (rw [literal] at hvalue; split_ifs at hvalue; cases hvalue)
      | (obtain ⟨t, -, heq⟩ := Option.map_eq_some_iff.mp hvalue; cases heq)

theorem utf8Length_skipWs (cs : QString) : utf8Length (skipWs cs) ≤ utf8Length cs := by
  induction cs with
  | nil => exact Nat.le_refl _
  | cons c cs ih =>
    rw [skipWs, List.dropWhile_cons]
    split
    · rw [utf8Length_cons]
      exact Nat.le_trans ih (Nat.le_add_left _ _)
    · exact Nat.le_refl _

/-- A text that denotes a string takes the cost of the string and two quotes at least. -/
theorem costs_of_denotes {bs : Bytes} {s : QString} (h : Denotes bs (.string s)) :
    costs s + 2 ≤ bs.length := by
  obtain ⟨cs, rfl, hparse⟩ := h
  obtain ⟨c, rest, fuel, rest', hws, hchars⟩ := stringChars_of_parse hparse
  have hcosts := costs_le hchars
  have hskip := utf8Length_skipWs cs
  have hpos := utf8Size_pos c
  rw [hws, utf8Length_cons] at hskip
  change costs s + 2 ≤ utf8Length cs
  omega

end JsonText

end LibShv
