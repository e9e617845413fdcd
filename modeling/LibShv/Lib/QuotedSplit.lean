import Mathlib

/-!
# LibShv.Lib.QuotedSplit

Lists that are split at a delimiter, except between quotes, and joined again. The
quotes around a piece are taken off when it is split, and put on again when it is
joined if a delimiter is in it.

Splitting what was joined gives the pieces back where they are `Plain`, and makes
the pieces lighter otherwise, for a weight in which delimiters count most.
-/

namespace LibShv.QuotedSplit

variable {α : Type}

/-! ## splitting -/

/-- An element in front of the first piece. -/
def consHead (c : α) : List (List α) → List (List α)
  | [] => [[c]]
  | p :: ps => (c :: p) :: ps

theorem consHead_append (c : α) {ps : List (List α)} (h : ps ≠ []) (qs : List (List α)) :
    consHead c (ps ++ qs) = consHead c ps ++ qs := by
  cases ps with
  | nil => contradiction
  | cons p ps => rfl

theorem consHead_ne_nil (c : α) (ps : List (List α)) : consHead c ps ≠ [] := by
  cases ps <;> simp [consHead]

theorem length_consHead (c : α) {ps : List (List α)} (h : ps ≠ []) :
    (consHead c ps).length = ps.length := by
  cases ps with
  | nil => contradiction
  | cons p ps => rfl

variable [DecidableEq α] (delim quote : α)

/-- The pieces between delimiters that are not in quotes. -/
def pieces (inQuotes : Bool) : List α → List (List α)
  | [] => [[]]
  | c :: cs =>
    if c = quote then consHead c (pieces (!inQuotes) cs)
    else if c = delim ∧ !inQuotes then [] :: pieces false cs
    else consHead c (pieces inQuotes cs)

/-- Whether a list ends inside of quotes. -/
def isOpen (inQuotes : Bool) : List α → Bool
  | [] => inQuotes
  | c :: cs => isOpen (if c = quote then !inQuotes else inQuotes) cs

/-- Quotes at both ends. -/
def Quoted (s : List α) : Prop := 2 ≤ s.length ∧ s.head? = some quote ∧ s.getLast? = some quote

instance (s : List α) : Decidable (Quoted quote s) := inferInstanceAs (Decidable (_ ∧ _))

/-- The quotes at both ends are taken off. -/
def unquote (s : List α) : List α := if Quoted quote s then s.tail.dropLast else s

/-- The pieces that are not empty, without the quotes around them. -/
def split (s : List α) : List (List α) :=
  ((pieces delim quote false s).filter (· ≠ [])).map (unquote quote)

/-- A piece with a delimiter in it gets quotes, if it has none. -/
def requote (s : List α) : List α :=
  if delim ∈ s ∧ ¬Quoted quote s then quote :: s ++ [quote] else s

/-- Pieces with a delimiter between them; empty ones are left out. -/
def join (ps : List (List α)) : List α :=
  ps.foldl (fun ret p =>
    if p = [] then ret
    else if ret = [] then requote delim quote p
    else ret ++ delim :: requote delim quote p) []

/-- Pieces that are joined as they are written by `enc`. -/
def joinWith (enc : List α → List α) (ps : List (List α)) : List α :=
  ps.foldl (fun ret p =>
    if p = [] then ret else if ret = [] then enc p else ret ++ delim :: enc p) []

/-- A piece with a delimiter in it gets quotes, whether it has some or not. -/
def quoteDelims (s : List α) : List α := if delim ∈ s then quote :: s ++ [quote] else s

/-- A piece that is not empty, has no quotes around it, and no delimiter in quotes. -/
def Plain (s : List α) : Prop :=
  s ≠ [] ∧ ¬Quoted quote s ∧ pieces delim quote true s = [s]

instance (s : List α) : Decidable (Plain delim quote s) := inferInstanceAs (Decidable (_ ∧ _))

variable {delim quote}

theorem pieces_ne_nil (inQuotes : Bool) (s : List α) : pieces delim quote inQuotes s ≠ [] := by
  cases s with
  | nil => simp [pieces]
  | cons c cs =>
    rw [pieces]
    split
    · exact consHead_ne_nil _ _
    · split
      · simp
      · exact consHead_ne_nil _ _

/-- A list is its only piece. -/
theorem eq_of_pieces_eq {inQuotes : Bool} {s p : List α}
    (h : pieces delim quote inQuotes s = [p]) : p = s := by
  induction s generalizing inQuotes p with
  | nil => simpa [pieces] using h.symm
  | cons c cs ih =>
    have hcons {b : Bool} (hp : consHead c (pieces delim quote b cs) = [p]) : p = c :: cs := by
      cases hps : pieces delim quote b cs with
      | nil => exact absurd hps (pieces_ne_nil _ _)
      | cons q qs =>
        rw [hps, consHead, List.cons.injEq] at hp
        obtain ⟨rfl, rfl⟩ := hp
        rw [ih hps]
    rw [pieces] at h
    split at h
    · exact hcons h
    · split at h
      · exact absurd (List.cons.inj h).2 (pieces_ne_nil _ _)
      · exact hcons h

/-- A delimiter outside of quotes divides the pieces. -/
theorem pieces_append_delim (hne : delim ≠ quote) {inQuotes : Bool} {s : List α}
    (h : isOpen quote inQuotes s = false) (t : List α) :
    pieces delim quote inQuotes (s ++ delim :: t) =
      pieces delim quote inQuotes s ++ pieces delim quote false t := by
  induction s generalizing inQuotes with
  | nil =>
    obtain rfl : inQuotes = false := h
    simp [pieces, hne]
  | cons c cs ih =>
    rw [isOpen] at h
    rw [List.cons_append, pieces, pieces]
    by_cases hquote : c = quote
    · rw [if_pos hquote] at h
      rw [if_pos hquote, if_pos hquote, ih h, consHead_append c (pieces_ne_nil _ _)]
    · rw [if_neg hquote] at h
      rw [if_neg hquote, if_neg hquote]
      by_cases hdelim : c = delim ∧ (!inQuotes) = true
      · have hfalse : inQuotes = false := by simpa using hdelim.2
        rw [if_pos hdelim, if_pos hdelim, List.cons_append]
        rw [hfalse] at h
        rw [ih h]
      · rw [if_neg hdelim, if_neg hdelim, ih h, consHead_append c (pieces_ne_nil _ _)]

theorem split_nil : split delim quote [] = [] := rfl

theorem split_append_delim (hne : delim ≠ quote) {s : List α} (h : isOpen quote false s = false)
    (t : List α) :
    split delim quote (s ++ delim :: t) = split delim quote s ++ split delim quote t := by
  rw [split, pieces_append_delim hne h, List.filter_append, List.map_append]
  rfl

/-! ## quotes -/

theorem isOpen_append (inQuotes : Bool) (s t : List α) :
    isOpen quote inQuotes (s ++ t) = isOpen quote (isOpen quote inQuotes s) t := by
  induction s generalizing inQuotes with
  | nil => rfl
  | cons c cs ih => rw [List.cons_append, isOpen, isOpen, ih]

theorem isOpen_not (inQuotes : Bool) (s : List α) :
    isOpen quote (!inQuotes) s = !isOpen quote inQuotes s := by
  induction s generalizing inQuotes with
  | nil => rfl
  | cons c cs ih =>
    rw [isOpen, isOpen]
    by_cases hquote : c = quote
    · rw [if_pos hquote, if_pos hquote, ih]
    · rw [if_neg hquote, if_neg hquote, ih]

theorem isOpen_quoted (s : List α) :
    isOpen quote false (quote :: s ++ [quote]) = isOpen quote false s := by
  rw [List.cons_append, isOpen, if_pos rfl, isOpen_append, isOpen_not]
  simp [isOpen]

omit [DecidableEq α] in
/-- A quoted list is another one in quotes. -/
theorem exists_of_quoted {s : List α} (h : Quoted quote s) : ∃ u, s = quote :: u ++ [quote] := by
  obtain ⟨hlength, hhead, hlast⟩ := h
  cases s with
  | nil => simp at hlength
  | cons c cs =>
    obtain rfl : c = quote := by simpa using hhead
    have hcs : cs ≠ [] := by
      rintro rfl
      simp at hlength
    rw [List.getLast?_cons_of_ne_nil hcs] at hlast
    obtain ⟨u, rfl⟩ : ∃ u, cs = u ++ [c] := by
      rw [List.getLast?_eq_some_iff] at hlast
      exact hlast
    exact ⟨u, rfl⟩

omit [DecidableEq α] in
theorem quoted_quote (s : List α) : Quoted quote (quote :: s ++ [quote]) := by
  refine ⟨by simp, rfl, ?_⟩
  rw [List.getLast?_append]
  rfl

theorem unquote_quote (s : List α) : unquote quote (quote :: s ++ [quote]) = s := by
  rw [unquote, if_pos (quoted_quote s), List.cons_append, List.tail_cons, List.dropLast_concat]

theorem isOpen_unquote (s : List α) : isOpen quote false (unquote quote s) = isOpen quote false s := by
  by_cases h : Quoted quote s
  · obtain ⟨u, rfl⟩ := exists_of_quoted h
    rw [unquote_quote, isOpen_quoted]
  · rw [unquote, if_neg h]

theorem isOpen_requote (s : List α) :
    isOpen quote false (requote delim quote s) = isOpen quote false s := by
  rw [requote]
  split
  · exact isOpen_quoted s
  · rfl

theorem isOpen_quoteDelims (s : List α) :
    isOpen quote false (quoteDelims delim quote s) = isOpen quote false s := by
  rw [quoteDelims]
  split
  · exact isOpen_quoted s
  · rfl

/-! ## joining and splitting again -/

/-- Every piece but the last ends outside of quotes. -/
def Closed (quote : α) : List (List α) → Prop
  | s :: t :: ps => isOpen quote false s = false ∧ Closed quote (t :: ps)
  | _ => True

theorem Closed.tail {s : List α} {ps : List (List α)} (h : Closed quote (s :: ps)) :
    Closed quote ps := by
  cases ps with
  | nil => trivial
  | cons t ps => exact h.2

theorem Closed.head {s : List α} {ps : List (List α)} (h : Closed quote (s :: ps)) (hne : ps ≠ []) :
    isOpen quote false s = false := by
  cases ps with
  | nil => contradiction
  | cons t ps => exact h.1

theorem closed_cons {s : List α} {ps : List (List α)} (hs : isOpen quote false s = false)
    (h : Closed quote ps) : Closed quote (s :: ps) := by
  cases ps with
  | nil => trivial
  | cons t ps => exact ⟨hs, h⟩

/-- A list ends outside of quotes if it has an even number of them. -/
theorem isOpen_eq_false_iff (inQuotes : Bool) (s : List α) :
    isOpen quote inQuotes s = false ↔ (inQuotes = false ↔ Even (s.count quote)) := by
  induction s generalizing inQuotes with
  | nil => simp [isOpen]
  | cons c cs ih =>
    rw [isOpen, ih]
    by_cases hquote : c = quote
    · rw [if_pos hquote, hquote, List.count_cons_self, Nat.even_add_one]
      cases inQuotes <;> simp
    · rw [if_neg hquote, List.count_cons_of_ne hquote]

theorem closed_iff (ps : List (List α)) :
    Closed quote ps ↔ ∀ s ∈ ps.dropLast, Even (s.count quote) := by
  induction ps with
  | nil => simp [Closed]
  | cons s ps ih =>
    cases ps with
    | nil => simp [Closed]
    | cons t ps =>
      rw [Closed, ih, isOpen_eq_false_iff, List.dropLast_cons_cons, List.forall_mem_cons]
      simp

/-- The pieces of a list, the first of which may begin in quotes. -/
theorem pieces_closed (inQuotes : Bool) (s : List α) :
    (∃ p ps, pieces delim quote inQuotes s = p :: ps ∧
      (ps ≠ [] → isOpen quote inQuotes p = false) ∧ Closed quote ps) := by
  induction s generalizing inQuotes with
  | nil => exact ⟨[], [], rfl, by simp, trivial⟩
  | cons c cs ih =>
    rw [pieces]
    by_cases hquote : c = quote
    · obtain ⟨p, ps, hps, hp, hclosed⟩ := ih (!inQuotes)
      rw [if_pos hquote, hps]
      exact ⟨c :: p, ps, rfl, by simpa [isOpen, hquote] using hp, hclosed⟩
    · rw [if_neg hquote]
      by_cases hdelim : c = delim ∧ (!inQuotes) = true
      · obtain ⟨p, ps, hps, hp, hclosed⟩ := ih false
        rw [if_pos hdelim, hps]
        refine ⟨[], p :: ps, rfl, fun _ => by simpa [isOpen] using hdelim.2, ?_⟩
        by_cases hnil : ps = []
        · rw [hnil]
          trivial
        · exact closed_cons (hp hnil) hclosed
      · obtain ⟨p, ps, hps, hp, hclosed⟩ := ih inQuotes
        rw [if_neg hdelim, hps]
        exact ⟨c :: p, ps, rfl, by simpa [isOpen, hquote] using hp, hclosed⟩

theorem Closed.filter {ps : List (List α)} (h : Closed quote ps) (P : List α → Bool) :
    Closed quote (ps.filter P) := by
  induction ps with
  | nil => trivial
  | cons s ps ih =>
    rw [List.filter_cons]
    by_cases hs : P s = true
    · rw [if_pos hs]
      by_cases hnil : ps = []
      · rw [hnil]
        trivial
      · exact closed_cons (h.head hnil) (ih h.tail)
    · rw [if_neg hs]
      exact ih h.tail

theorem Closed.map_unquote {ps : List (List α)} (h : Closed quote ps) :
    Closed quote (ps.map (unquote quote)) := by
  induction ps with
  | nil => trivial
  | cons s ps ih =>
    rw [List.map_cons]
    by_cases hnil : ps = []
    · rw [hnil]
      trivial
    · exact closed_cons ((isOpen_unquote s).trans (h.head hnil)) (ih h.tail)

theorem closed_split (s : List α) : Closed quote (split delim quote s) := by
  obtain ⟨p, ps, hps, hp, hclosed⟩ := @pieces_closed α _ delim quote false s
  have h : Closed quote (pieces delim quote false s) := by
    rw [hps]
    by_cases hnil : ps = []
    · rw [hnil]
      trivial
    · exact closed_cons (hp hnil) hclosed
  exact (h.filter _).map_unquote

section Written

variable {enc : List α → List α}

/-- What is joined is split piece by piece. -/
theorem split_foldl (hne : delim ≠ quote) (hnil : enc [] = [])
    (hopen : ∀ s, isOpen quote false (enc s) = isOpen quote false s) (ps : List (List α))
    (ret : List α) (h : Closed quote ps)
    (hret : ps ≠ [] → ret = [] ∨ isOpen quote false ret = false) :
    split delim quote (ps.foldl (fun ret p =>
        if p = [] then ret else if ret = [] then enc p else ret ++ delim :: enc p) ret) =
      split delim quote ret ++ ps.flatMap fun p => split delim quote (enc p) := by
  induction ps generalizing ret with
  | nil => simp
  | cons p ps ih =>
    rw [List.foldl_cons, List.flatMap_cons]
    have hret := hret (by simp)
    by_cases hp : p = []
    · rw [if_pos hp, ih ret h.tail fun _ => hret, hp, hnil, split_nil, List.nil_append]
    · rw [if_neg hp]
      by_cases hempty : ret = []
      · rw [if_pos hempty, ih _ h.tail, hempty, split_nil, List.nil_append]
        intro hps
        exact .inr ((hopen p).trans (h.head hps))
      · have hclosed := hret.resolve_left hempty
        rw [if_neg hempty, ih _ h.tail, split_append_delim hne hclosed, List.append_assoc]
        intro hps
        refine .inr ?_
        rw [isOpen_append, hclosed, isOpen, if_neg hne, hopen]
        exact h.head hps

theorem split_joinWith (hne : delim ≠ quote) (hnil : enc [] = [])
    (hopen : ∀ s, isOpen quote false (enc s) = isOpen quote false s) {ps : List (List α)}
    (h : Closed quote ps) :
    split delim quote (joinWith delim enc ps) = ps.flatMap fun p => split delim quote (enc p) := by
  rw [joinWith, split_foldl hne hnil hopen ps [] h fun _ => .inl rfl, split_nil, List.nil_append]

end Written

theorem split_join (hne : delim ≠ quote) {ps : List (List α)} (h : Closed quote ps) :
    split delim quote (join delim quote ps) =
      ps.flatMap fun p => split delim quote (requote delim quote p) :=
  split_joinWith hne (by simp [requote]) isOpen_requote h

/-! ## weights -/

/-- The weight of a piece: three for a delimiter, one for anything else, and one for the piece. -/
def weight (delim : α) (s : List α) : Nat := 3 * s.count delim + s.length + 1

def weights (delim : α) (ps : List (List α)) : Nat := (ps.map (weight delim)).sum

@[simp] theorem weights_nil : weights delim [] = 0 := rfl

@[simp] theorem weights_cons (s : List α) (ps : List (List α)) :
    weights delim (s :: ps) = weight delim s + weights delim ps := rfl

@[simp] theorem weights_append (ps qs : List (List α)) :
    weights delim (ps ++ qs) = weights delim ps + weights delim qs := by
  simp [weights]

theorem weight_pos (s : List α) : 0 < weight delim s := by
  unfold weight
  omega

/-- Each delimiter between pieces takes three off the weight. -/
theorem weights_pieces (inQuotes : Bool) (s : List α) :
    weights delim (pieces delim quote inQuotes s) +
        3 * (pieces delim quote inQuotes s).length =
      weight delim s + 3 := by
  induction s generalizing inQuotes with
  | nil => simp [pieces, weight]
  | cons c cs ih =>
    have hcons (b : Bool) : weights delim (consHead c (pieces delim quote b cs)) +
        3 * (consHead c (pieces delim quote b cs)).length = weight delim (c :: cs) + 3 := by
      have hih := ih b
      cases hps : pieces delim quote b cs with
      | nil => exact absurd hps (pieces_ne_nil _ _)
      | cons p ps =>
        rw [hps] at hih
        simp only [consHead, weights_cons, List.length_cons, weight, List.count_cons] at hih ⊢
        omega
    rw [pieces]
    by_cases hquote : c = quote
    · rw [if_pos hquote]
      exact hcons _
    · rw [if_neg hquote]
      by_cases hdelim : c = delim ∧ (!inQuotes) = true
      · have hih := ih false
        rw [if_pos hdelim]
        simp only [weights_cons, List.length_cons, weight, List.count_cons, hdelim.1] at hih ⊢
        simp only [List.count_nil, List.length_nil, beq_self_eq_true, if_true]
        omega
      · rw [if_neg hdelim]
        exact hcons _

theorem weight_quote (hne : delim ≠ quote) (s : List α) :
    weight delim (quote :: s ++ [quote]) = weight delim s + 2 := by
  have hne' : quote ≠ delim := fun h => hne h.symm
  simp [weight, List.count_append, hne']
  omega

theorem weight_unquote (hne : delim ≠ quote) (s : List α) :
    weight delim (unquote quote s) + (if Quoted quote s then 2 else 0) = weight delim s := by
  by_cases h : Quoted quote s
  · obtain ⟨u, rfl⟩ := exists_of_quoted h
    rw [if_pos h, unquote_quote, weight_quote hne]
  · rw [if_neg h, unquote, if_neg h, Nat.add_zero]

/-- Leaving out pieces and taking off quotes adds no weight. -/
theorem weights_split_le (hne : delim ≠ quote) (s : List α) :
    weights delim (split delim quote s) ≤ weights delim (pieces delim quote false s) := by
  rw [split]
  induction pieces delim quote false s with
  | nil => simp
  | cons p ps ih =>
    rw [List.filter_cons]
    split
    · have hp := weight_unquote hne p
      simp only [List.map_cons, weights_cons]
      omega
    · rw [weights_cons]
      omega

theorem pieces_of_not_mem (inQuotes : Bool) {s : List α} (h : delim ∉ s) :
    pieces delim quote inQuotes s = [s] := by
  induction s generalizing inQuotes with
  | nil => rfl
  | cons c cs ih =>
    rw [List.mem_cons, not_or] at h
    have hc : c ≠ delim := fun hc => h.1 hc.symm
    rw [pieces]
    split
    · rw [ih _ h.2]
      rfl
    · rw [if_neg fun hdelim => hc hdelim.1, ih _ h.2]
      rfl

/-- A quote at the end belongs to the last piece. -/
theorem length_pieces_concat_quote (inQuotes : Bool) (s : List α) :
    (pieces delim quote inQuotes (s ++ [quote])).length =
      (pieces delim quote inQuotes s).length := by
  induction s generalizing inQuotes with
  | nil => simp [pieces, consHead]
  | cons c cs ih =>
    rw [List.cons_append, pieces, pieces]
    split
    · rw [length_consHead c (pieces_ne_nil _ _), length_consHead c (pieces_ne_nil _ _), ih]
    · split
      · rw [List.length_cons, List.length_cons, ih]
      · rw [length_consHead c (pieces_ne_nil _ _), length_consHead c (pieces_ne_nil _ _), ih]

theorem pieces_eq_singleton_iff (inQuotes : Bool) (s : List α) :
    pieces delim quote inQuotes s = [s] ↔ (pieces delim quote inQuotes s).length = 1 := by
  refine ⟨fun h => by rw [h]; rfl, fun h => ?_⟩
  obtain ⟨p, hp⟩ := List.length_eq_one_iff.mp h
  rw [hp, eq_of_pieces_eq hp]

/-- In quotes a piece comes back or gets lighter. -/
theorem weights_split_quote (hne : delim ≠ quote) (s : List α) :
    split delim quote (quote :: s ++ [quote]) = [s] ∨
      weights delim (split delim quote (quote :: s ++ [quote])) < weight delim s := by
  have hle := weights_split_le hne (quote :: s ++ [quote])
  have hpieces := @weights_pieces α _ delim quote false (quote :: s ++ [quote])
  have hlength : (pieces delim quote false (quote :: s ++ [quote])).length ≠ 0 := by
    simp [pieces_ne_nil]
  rw [weight_quote hne] at hpieces
  by_cases hone : (pieces delim quote false (quote :: s ++ [quote])).length = 1
  · left
    obtain ⟨p, hp⟩ := List.length_eq_one_iff.mp hone
    obtain rfl := eq_of_pieces_eq hp
    rw [split, hp, List.filter_cons_of_pos (by simp), List.filter_nil, List.map_cons, List.map_nil,
      unquote_quote]
  · right
    omega

/-- In quotes a piece comes back if its delimiters are outside of its own quotes. -/
theorem split_quote_eq_iff (hne : delim ≠ quote) (s : List α) :
    split delim quote (quote :: s ++ [quote]) = [s] ↔ pieces delim quote true s = [s] := by
  have hlength : (pieces delim quote false (quote :: s ++ [quote])).length =
      (pieces delim quote true s).length := by
    rw [List.cons_append, pieces, if_pos rfl, length_consHead quote (pieces_ne_nil _ _)]
    exact length_pieces_concat_quote _ s
  rw [pieces_eq_singleton_iff, ← hlength]
  constructor
  · intro h
    have hle := weights_split_le hne (quote :: s ++ [quote])
    have hpieces := @weights_pieces α _ delim quote false (quote :: s ++ [quote])
    have hzero : (pieces delim quote false (quote :: s ++ [quote])).length ≠ 0 := by
      rw [ne_eq, List.length_eq_zero_iff]
      exact pieces_ne_nil _ _
    rw [h, weights_cons, weights_nil] at hle
    rw [weight_quote hne] at hpieces
    omega
  · intro hone
    have hsingle := (pieces_eq_singleton_iff false (quote :: s ++ [quote])).mpr hone
    rw [split, hsingle, List.filter_cons_of_pos (by simp), List.filter_nil, List.map_cons,
      List.map_nil, unquote_quote]

theorem split_of_not_mem {s : List α} (h : delim ∉ s) :
    split delim quote s = if s = [] then [] else [unquote quote s] := by
  rw [split, pieces_of_not_mem _ h]
  by_cases hnil : s = [] <;> simp [hnil]

/-- Without a delimiter in it a piece comes back if it is not empty and has no quotes around it. -/
theorem split_eq_iff_of_not_mem (hne : delim ≠ quote) {s : List α} (h : delim ∉ s) :
    split delim quote s = [s] ↔ s ≠ [] ∧ ¬Quoted quote s := by
  rw [split_of_not_mem h]
  by_cases hnil : s = []
  · simp [hnil]
  · by_cases hquoted : Quoted quote s
    · have hweight := weight_unquote hne s
      rw [if_pos hquoted] at hweight
      refine iff_of_false ?_ fun hplain => hplain.2 hquoted
      rw [if_neg hnil, List.cons.injEq]
      rintro ⟨hsame, -⟩
      rw [hsame] at hweight
      omega
    · rw [if_neg hnil, unquote, if_neg hquoted]
      exact iff_of_true rfl ⟨hnil, hquoted⟩

/-- A piece that is joined and split is itself again, or gets lighter. -/
theorem weights_split_requote (hne : delim ≠ quote) (s : List α) :
    split delim quote (requote delim quote s) = [s] ∨
      weights delim (split delim quote (requote delim quote s)) < weight delim s := by
  rw [requote]
  by_cases hquote : delim ∈ s ∧ ¬Quoted quote s
  · rw [if_pos hquote]
    exact weights_split_quote hne s
  · rw [if_neg hquote]
    have hle := weights_split_le hne s
    have hpieces := @weights_pieces α _ delim quote false s
    have hlength : (pieces delim quote false s).length ≠ 0 := by simp [pieces_ne_nil]
    by_cases hone : (pieces delim quote false s).length = 1
    · have hsingle := (pieces_eq_singleton_iff false s).mpr hone
      have hweight := weight_unquote hne s
      rw [split, hsingle]
      by_cases hnil : s = []
      · right
        rw [hnil]
        simp [weight_pos]
      · by_cases hq : Quoted quote s
        · right
          rw [if_pos hq] at hweight
          simp [hnil]
          omega
        · left
          simp [hnil, unquote, hq]
    · right
      omega

theorem weights_split_quoteDelims (hne : delim ≠ quote) (s : List α) :
    split delim quote (quoteDelims delim quote s) = [s] ∨
      weights delim (split delim quote (quoteDelims delim quote s)) < weight delim s := by
  rw [quoteDelims]
  by_cases hmem : delim ∈ s
  · rw [if_pos hmem]
    exact weights_split_quote hne s
  · rw [if_neg hmem]
    by_cases hplain : s ≠ [] ∧ ¬Quoted quote s
    · exact .inl ((split_eq_iff_of_not_mem hne hmem).mpr hplain)
    · right
      have hweight := weight_unquote hne s
      rw [split_of_not_mem hmem]
      by_cases hnil : s = []
      · simp [hnil, weight_pos]
      · have hquoted : Quoted quote s := by simpa [hnil] using hplain
        rw [if_pos hquoted] at hweight
        rw [if_neg hnil, weights_cons, weights_nil]
        omega

/-- The pieces that come back when every delimiter is put in quotes. -/
theorem split_quoteDelims_eq_iff (hne : delim ≠ quote) (s : List α) :
    split delim quote (quoteDelims delim quote s) = [s] ↔
      s ≠ [] ∧ if delim ∈ s then pieces delim quote true s = [s] else ¬Quoted quote s := by
  rw [quoteDelims]
  by_cases hmem : delim ∈ s
  · rw [if_pos hmem, if_pos hmem, split_quote_eq_iff hne, and_iff_right (List.ne_nil_of_mem hmem)]
  · rw [if_neg hmem, if_neg hmem, split_eq_iff_of_not_mem hne hmem]

/-- The pieces that come back. -/
theorem split_requote_eq_iff (hne : delim ≠ quote) (s : List α) :
    split delim quote (requote delim quote s) = [s] ↔ Plain delim quote s := by
  rw [Plain]
  by_cases hquoted : Quoted quote s
  · have hweight := weight_unquote hne s
    have hle := weights_split_le hne s
    have hpieces := @weights_pieces α _ delim quote false s
    have hlength : (pieces delim quote false s).length ≠ 0 := by simp [pieces_ne_nil]
    rw [if_pos hquoted] at hweight
    refine iff_of_false (fun h => ?_) fun h => h.2.1 hquoted
    rw [requote, if_neg fun hquote => hquote.2 hquoted] at h
    by_cases hone : (pieces delim quote false s).length = 1
    · have hsingle := (pieces_eq_singleton_iff false s).mpr hone
      have hnil : s ≠ [] := by
        rintro rfl
        simp [Quoted] at hquoted
      rw [split, hsingle, List.filter_cons_of_pos (by simpa using hnil), List.filter_nil,
        List.map_cons, List.map_nil, List.cons.injEq] at h
      rw [h.1] at hweight
      omega
    · rw [h, weights_cons, weights_nil] at hle
      omega
  · by_cases hmem : delim ∈ s
    · have hnil : s ≠ [] := List.ne_nil_of_mem hmem
      rw [requote, if_pos ⟨hmem, hquoted⟩, split_quote_eq_iff hne]
      exact ⟨fun hone => ⟨hnil, hquoted, hone⟩, fun hplain => hplain.2.2⟩
    · rw [requote, if_neg fun hquote => hmem hquote.1, split_eq_iff_of_not_mem hne hmem,
        pieces_of_not_mem _ hmem]
      simp

section Written

variable {enc : List α → List α}

/-- If a piece that does not come back gets lighter, pieces that do not all come back do. -/
theorem weights_flatMap
    (hweight : ∀ s, split delim quote (enc s) = [s] ∨
      weights delim (split delim quote (enc s)) < weight delim s) (ps : List (List α)) :
    (∀ p ∈ ps, split delim quote (enc p) = [p]) ∨
      weights delim (ps.flatMap fun p => split delim quote (enc p)) < weights delim ps := by
  induction ps with
  | nil => exact .inl (by simp)
  | cons p ps ih =>
    rw [List.flatMap_cons, weights_append, weights_cons]
    have hps : weights delim (ps.flatMap fun p => split delim quote (enc p)) ≤
        weights delim ps := by
      obtain hsame | hlt := ih
      · have heq : (ps.flatMap fun p => split delim quote (enc p)) = ps.flatMap fun p => [p] :=
          List.flatMap_congr hsame
        exact Nat.le_of_eq (by rw [heq, List.flatMap_singleton'])
      · omega
    obtain hp | hp := hweight p
    · obtain hsame | hlt := ih
      · left
        intro q hq
        obtain rfl | hq := List.mem_cons.mp hq
        · exact hp
        · exact hsame q hq
      · right
        rw [hp, weights_cons, weights_nil]
        omega
    · right
      omega

/-- Exactly the lists come back whose pieces do, each but the last closed. -/
theorem split_joinWith_eq_iff (hne : delim ≠ quote) (hnil : enc [] = [])
    (hopen : ∀ s, isOpen quote false (enc s) = isOpen quote false s)
    (hweight : ∀ s, split delim quote (enc s) = [s] ∨
      weights delim (split delim quote (enc s)) < weight delim s) (ps : List (List α)) :
    split delim quote (joinWith delim enc ps) = ps ↔
      Closed quote ps ∧ ∀ p ∈ ps, split delim quote (enc p) = [p] := by
  constructor
  · intro h
    have hclosed : Closed quote ps := by
      rw [← h]
      exact closed_split _
    refine ⟨hclosed, ?_⟩
    obtain hall | hlt := weights_flatMap hweight ps
    · exact hall
    · rw [← split_joinWith hne hnil hopen hclosed, h] at hlt
      exact absurd hlt (lt_irrefl _)
  · rintro ⟨hclosed, hall⟩
    rw [split_joinWith hne hnil hopen hclosed, List.flatMap_congr hall, List.flatMap_singleton']

end Written

/-- Plain pieces, and no others, are the same again after they are joined and split. -/
theorem split_join_eq_iff (hne : delim ≠ quote) (ps : List (List α)) :
    split delim quote (join delim quote ps) = ps ↔
      Closed quote ps ∧ ∀ p ∈ ps, Plain delim quote p := by
  simp only [← split_requote_eq_iff hne]
  exact split_joinWith_eq_iff hne (by simp [requote]) isOpen_requote (weights_split_requote hne) ps

theorem split_join_of_plain (hne : delim ≠ quote) {ps : List (List α)} (h : Closed quote ps)
    (hplain : ∀ p ∈ ps, Plain delim quote p) : split delim quote (join delim quote ps) = ps :=
  (split_join_eq_iff hne ps).mpr ⟨h, hplain⟩

/-- Pieces that are not all plain get lighter. -/
theorem weights_split_join (hne : delim ≠ quote) {ps : List (List α)} (h : Closed quote ps) :
    (∀ p ∈ ps, Plain delim quote p) ∨
      weights delim (split delim quote (join delim quote ps)) < weights delim ps := by
  rw [split_join hne h]
  simp only [← split_requote_eq_iff hne]
  exact weights_flatMap (weights_split_requote hne) ps

end LibShv.QuotedSplit
