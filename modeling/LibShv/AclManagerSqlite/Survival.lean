import LibShv.AclManagerSqlite.Definitions

/-!
# LibShv.AclManagerSqlite.Survival

Users, roles and mount definitions survive a SQLite table if none of their texts
has an apostrophe or a zero, none but the last one has a place marker that is
still to come, and the lists of roles and the profile are read back as themselves.
-/

namespace LibShv

namespace AclManagerSqlite

variable (S : SqliteRows)

/-! ## statements with texts in them -/

/-- What is between a value and those that follow it. -/
def comma (vs : List QString) : QString := if vs = [] then [] else [',', ' ']

/-- The rest of a statement from the first value on. -/
def valuesText : List QString → QString
  | [] => [')']
  | v :: vs => '\'' :: (v ++ '\'' :: (comma vs ++ valuesText vs))

/-- The place marker with a number of one digit. -/
def markerText (k : Nat) : QString := ['%', Char.ofNat (48 + k)]

def markersFrom (k : Nat) : Nat → List QString
  | 0 => []
  | n + 1 => markerText k :: markersFrom (k + 1) n

/-- No text but the last has a place marker that is replaced. -/
def Unmarked (texts : List QString) : Prop :=
  ∀ t ∈ texts.dropLast, ∀ m ∈ QString.numbers t, texts.length < m

instance (texts : List QString) : Decidable (Unmarked texts) :=
  inferInstanceAs (Decidable (∀ t ∈ texts.dropLast, ∀ m ∈ QString.numbers t, texts.length < m))

theorem pieces_markerText : ∀ k < 10,
    QString.pieces .none (markerText k) = [.marker k (markerText k)] := by decide

theorem numbers_value (v t : QString) : QString.numbers ('\'' :: (v ++ '\'' :: t)) =
    QString.numbers v ++ QString.numbers t :=
  (QString.numbers_apostrophe [] _).trans (QString.numbers_apostrophe v t)

theorem numbers_comma (vs : List QString) :
    QString.numbers (comma vs ++ valuesText vs) = QString.numbers (valuesText vs) := by
  cases vs with
  | nil => rfl
  | cons v vs =>
    have hsep : QString.numbers [',', ' '] = [] := by decide
    rw [comma, if_neg (List.cons_ne_nil v vs), valuesText, QString.numbers_apostrophe, hsep]
    exact (QString.numbers_apostrophe [] _).symm

theorem numbers_valuesText (vs : List QString) :
    QString.numbers (valuesText vs) = vs.flatMap QString.numbers := by
  induction vs with
  | nil => rfl
  | cons v vs ih => rw [valuesText, numbers_value, numbers_comma, ih, List.flatMap_cons]

theorem numbers_markersFrom {k n m : Nat} (h : k + n ≤ 10)
    (hm : m ∈ (markersFrom k n).flatMap QString.numbers) : k ≤ m := by
  induction n generalizing k with
  | zero => exact absurd hm List.not_mem_nil
  | succ n ih =>
    rw [markersFrom, List.flatMap_cons] at hm
    obtain hm | hm := List.mem_append.mp hm
    · rw [QString.numbers, pieces_markerText k (by omega)] at hm
      exact (List.mem_singleton.mp hm).ge
    · exact (Nat.le_succ k).trans (ih (by omega) hm)

theorem markersFrom_eq_nil_iff {k n : Nat} : markersFrom k n = [] ↔ n = 0 := by
  cases n with
  | zero => exact iff_of_true rfl rfl
  | succ n => exact iff_of_false (List.cons_ne_nil _ _) (Nat.succ_ne_zero n)

/-- Texts are put at the markers one after another. -/
theorem foldl_arg {texts : List QString} {k : Nat} {s : QString} (hk : k + texts.length ≤ 10)
    (hs : ∀ m ∈ QString.numbers s, k + texts.length ≤ m)
    (htexts : ∀ t ∈ texts.dropLast, ∀ m ∈ QString.numbers t, k + texts.length ≤ m) :
    texts.foldl QString.arg (s ++ valuesText (markersFrom k texts.length)) =
      s ++ valuesText texts := by
  induction texts generalizing k s with
  | nil => rfl
  | cons t ts ih =>
    rw [List.length_cons] at hk hs htexts
    have hpieces := pieces_markerText k (by omega)
    have hcomma : comma (markersFrom (k + 1) ts.length) = comma ts := by
      have hempty : (markersFrom (k + 1) ts.length = []) = (ts = []) :=
        propext (markersFrom_eq_nil_iff.trans List.length_eq_zero_iff)
      simp only [comma, hempty]
    have hstep : QString.arg (s ++ valuesText (markersFrom k (t :: ts).length)) t =
        s ++ '\'' :: (t ++ '\'' :: (comma ts ++ valuesText (markersFrom (k + 1) ts.length))) := by
      rw [List.length_cons, markersFrom, valuesText, hcomma]
      refine @QString.arg_between _ _ _ _ k ?_ ?_ ?_ ?_
      · rw [QString.numbers, hpieces]
        rfl
      · rw [QString.substitute, hpieces]
        simp [QString.Piece.substitute, QString.Piece.number?]
      · intro m hm
        have hle := hs m hm
        omega
      · intro m hm
        rw [← hcomma, numbers_comma, numbers_valuesText] at hm
        exact numbers_markersFrom (by omega) hm
    rw [List.foldl_cons, hstep]
    cases ts with
    | nil => rfl
    | cons u us =>
      have hsep : QString.numbers (comma (u :: us)) = [] := by
        rw [comma, if_neg (List.cons_ne_nil u us)]
        decide
      have hregroup : ∀ rest, s ++ '\'' :: (t ++ '\'' :: (comma (u :: us) ++ rest)) =
          s ++ '\'' :: (t ++ '\'' :: comma (u :: us)) ++ rest := fun rest => by
        simp only [List.append_assoc, List.cons_append]
      rw [hregroup, ih (by omega) ?_ ?_, ← hregroup]
      · rfl
      · intro m hm
        rw [QString.numbers_apostrophe, QString.numbers_apostrophe, hsep, List.append_nil] at hm
        obtain hm | hm := List.mem_append.mp hm
        · have hle := hs m hm
          omega
        · have hle := htexts t List.mem_cons_self m hm
          omega
      · intro v hv m hm
        have hle := htexts v (List.mem_cons_of_mem t hv) m hm
        omega

/-! ## what SQLite reads -/

-- two apostrophes in a text do not end it
example : tokens none ['a', '\'', '\'', '\''] = [.char 'a', .unterminated ['\'']] := by
  simp [tokens]

theorem tokens_append {pre : QString} (h : '\'' ∉ pre) (hnul : '\x00' ∉ pre) (s : QString) :
    tokens none (pre ++ s) = chars pre ++ tokens none s := by
  induction pre with
  | nil => rfl
  | cons c pre ih =>
    rw [List.mem_cons, not_or] at h hnul
    rw [List.cons_append, tokens, ih h.2 hnul.2]
    · rfl
    · exact Ne.symm hnul.1
    · exact Ne.symm h.1

theorem tokens_in_text {c : Char} (hc : c ≠ '\'') (hnul : c ≠ '\x00') (acc s : QString) :
    tokens (some acc) (c :: s) = tokens (some (acc ++ [c])) s := by
  rw [tokens]
  · exact hnul
  · exact fun s' h => absurd h hc
  · exact hc

theorem tokens_end_of_text {c : Char} (hc : c ≠ '\'') (acc s : QString) :
    tokens (some acc) ('\'' :: c :: s) = .literal acc :: tokens none (c :: s) := by
  conv_lhs => rw [tokens.eq_def]
  simp [hc]

theorem noNul_iff {s : QString} : NoNul s = true ↔ '\x00' ∉ s := by simp [NoNul]

/-- A text without apostrophes is read as it is. -/
theorem tokens_value {v : QString} (h : Literal v) (acc : QString) {c : Char} (hc : c ≠ '\'')
    (s : QString) : tokens (some acc) (v ++ '\'' :: c :: s) =
      .literal (acc ++ v) :: tokens none (c :: s) := by
  obtain ⟨hv, hnul⟩ := h
  rw [noNul_iff] at hnul
  induction v generalizing acc with
  | nil => rw [List.nil_append, tokens_end_of_text hc, List.append_nil]
  | cons d v ih =>
    rw [List.mem_cons, not_or] at hv hnul
    rw [List.cons_append, tokens_in_text (Ne.symm hv.1) (Ne.symm hnul.1), ih _ hv.2 hnul.2,
      List.append_assoc, List.singleton_append]

/-- The tokens of values and what is between them. -/
def valueTokens (vs : List QString) : List Token :=
  (chars ", ".toList).intercalate (vs.map fun v => [.literal v]) ++ chars [')']

theorem tokens_valuesText {vs : List QString} (h : ∀ v ∈ vs, Literal v) :
    tokens none (valuesText vs) = valueTokens vs := by
  induction vs with
  | nil => rfl
  | cons v vs ih =>
    obtain ⟨hv, hvs⟩ := List.forall_mem_cons.mp h
    have hopen : tokens none (valuesText (v :: vs)) =
        tokens (some []) (v ++ '\'' :: (comma vs ++ valuesText vs)) := rfl
    rw [hopen]
    cases vs with
    | nil =>
      have hend : comma [] ++ valuesText [] = ')' :: [] := rfl
      rw [hend, tokens_value hv _ (by decide)]
      rfl
    | cons w ws =>
      have hcomma : comma (w :: ws) ++ valuesText (w :: ws) =
          ',' :: ' ' :: valuesText (w :: ws) := by
        rw [comma, if_neg (List.cons_ne_nil w ws)]
        rfl
      have hnext : tokens none (',' :: ' ' :: valuesText (w :: ws)) =
          chars [',', ' '] ++ tokens none (valuesText (w :: ws)) :=
        @tokens_append [',', ' '] (by decide) (by decide) _
      rw [hcomma, tokens_value hv _ (by decide), hnext, ih hvs]
      rfl

/-- How long the text of a token is at least. -/
def Token.width : Token → Nat
  | .char _ => 1
  | .literal s => s.length + s.count '\'' + 2
  | .unterminated s => s.length + s.count '\'' + 1

def widths (ts : List Token) : Nat := (ts.map Token.width).sum

theorem widths_cons (t : Token) (ts : List Token) : widths (t :: ts) = t.width + widths ts := rfl

/-- An apostrophe in a text takes two characters of the statement. -/
theorem widths_tokens_le (st : Option QString) (s : QString) : widths (tokens st s) ≤
    s.length + (st.map fun acc => acc.length + acc.count '\'' + 1).getD 0 := by
  induction st, s using tokens.induct with
  | case1 => exact Nat.le_refl 0
  | case2 => exact Nat.zero_le _
  | case3 s ih =>
    have htokens : tokens none ('\'' :: s) = tokens (some []) s := rfl
    rw [htokens]
    simp at ih ⊢
    omega
  | case4 c s hnul hquote ih =>
    rw [tokens, widths_cons]
    · simp [Token.width] at ih ⊢
      omega
    · exact hnul
    · exact hquote
  | case5 text =>
    rw [tokens, widths_cons]
    simp [Token.width, widths]
  | case6 text s =>
    have htokens : tokens (some text) ('\x00' :: s) = [.unterminated text] := rfl
    rw [htokens, widths_cons]
    simp [Token.width, widths]
  | case7 text s ih =>
    have htokens : tokens (some text) ('\'' :: '\'' :: s) = tokens (some (text ++ ['\''])) s := rfl
    rw [htokens]
    simp at ih ⊢
    omega
  | case8 text s hquote ih =>
    rw [tokens, widths_cons]
    · simp [Token.width] at ih ⊢
      omega
    · exact hquote
  | case9 text c s hnul hquote hc ih =>
    rw [tokens_in_text hc hnul]
    have hcount : List.count '\'' [c] = 0 :=
      List.count_eq_zero.mpr fun hmem => hc (List.mem_singleton.mp hmem).symm
    simp [hcount] at ih ⊢
    omega

theorem nul_not_mem_of_literal_mem {st : Option QString} {s v : QString}
    (hst : ∀ acc ∈ st, '\x00' ∉ acc) (h : .literal v ∈ tokens st s) : '\x00' ∉ v := by
  induction st, s using tokens.induct with
  | case1 => exact absurd h List.not_mem_nil
  | case2 => exact absurd h List.not_mem_nil
  | case3 s ih => exact ih (by simp) h
  | case4 c s hnul hquote ih =>
    rw [tokens] at h
    · exact ih hst (by simpa using h)
    · exact hnul
    · exact hquote
  | case5 text =>
    rw [tokens] at h
    simp at h
  | case6 text s =>
    have htokens : tokens (some text) ('\x00' :: s) = [.unterminated text] := rfl
    rw [htokens] at h
    simp at h
  | case7 text s ih =>
    refine ih (fun acc hacc => ?_) h
    obtain rfl := Option.some.inj hacc
    have htext := hst text rfl
    simp [htext]
  | case8 text s hquote ih =>
    rw [tokens] at h
    · obtain heq | h := List.mem_cons.mp h
      · rw [Token.literal.inj heq]
        exact hst text rfl
      · exact ih (by simp) h
    · exact hquote
  | case9 text c s hnul hquote hc ih =>
    rw [tokens_in_text hc hnul] at h
    refine ih (fun acc hacc => ?_) h
    obtain rfl := Option.some.inj hacc
    have htext := hst text rfl
    simp [htext, Ne.symm hnul]

theorem widths_valueTokens (vs : List QString) : widths (valueTokens vs) =
    (valuesText vs).length + (vs.map (List.count '\'')).sum := by
  induction vs with
  | nil => rfl
  | cons v vs ih =>
    cases vs with
    | nil =>
      have hone : valueTokens [v] = [.literal v, .char ')'] := rfl
      rw [hone]
      simp [widths, Token.width, valuesText, comma]
      omega
    | cons w ws =>
      have hmore : valueTokens (v :: w :: ws) =
          .literal v :: .char ',' :: .char ' ' :: valueTokens (w :: ws) := rfl
      have hlen : (valuesText (v :: w :: ws)).length =
          v.length + 4 + (valuesText (w :: ws)).length := by
        rw [valuesText, comma, if_neg (List.cons_ne_nil w ws)]
        simp
        omega
      have hsum : ((v :: w :: ws).map (List.count '\'')).sum =
          v.count '\'' + ((w :: ws).map (List.count '\'')).sum := List.sum_cons
      rw [hmore, widths_cons, widths_cons, widths_cons, ih, hlen, hsum]
      simp only [Token.width]
      omega

theorem mem_valueTokens {v : QString} {vs : List QString} (h : v ∈ vs) :
    .literal v ∈ valueTokens vs := by
  induction vs with
  | nil => exact absurd h List.not_mem_nil
  | cons w ws ih =>
    have hhead : ∃ ts, valueTokens (w :: ws) = .literal w :: ts ∧
        ∀ t ∈ valueTokens ws, ws ≠ [] → t ∈ ts := by
      cases ws with
      | nil => exact ⟨_, rfl, fun _ _ hne => absurd rfl hne⟩
      | cons u us =>
        exact ⟨_, rfl, fun _ ht _ => List.mem_cons_of_mem _ (List.mem_cons_of_mem _ ht)⟩
    obtain ⟨ts, hts, hmem⟩ := hhead
    rw [hts]
    obtain rfl | h := List.mem_cons.mp h
    · exact List.mem_cons_self
    · exact List.mem_cons_of_mem _ (hmem _ (ih h) (List.ne_nil_of_mem h))

/-- Values are read as they are just if they have no apostrophe and no zero. -/
theorem tokens_valuesText_iff {pre : QString} (hpre : '\'' ∉ pre) (hnul : '\x00' ∉ pre)
    {vs : List QString} : tokens none (pre ++ valuesText vs) = chars pre ++ valueTokens vs ↔
      ∀ v ∈ vs, Literal v := by
  rw [tokens_append hpre hnul, List.append_cancel_left_eq]
  refine ⟨fun h v hv => ⟨?_, ?_⟩, tokens_valuesText⟩
  · have hle := widths_tokens_le none (valuesText vs)
    rw [h, widths_valueTokens] at hle
    have hzero : (vs.map (List.count '\'')).sum = 0 := by
      rw [Option.map_none, Option.getD_none] at hle
      omega
    have hcount := List.sum_eq_zero_iff.mp hzero _ (List.mem_map_of_mem hv)
    exact List.count_eq_zero.mp hcount
  · rw [noNul_iff]
    refine @nul_not_mem_of_literal_mem none (valuesText vs) v (by simp) ?_
    rw [h]
    exact mem_valueTokens hv

theorem template_eq (d : Definition) :
    d.template = insertInto d.table ++ valuesText (markersFrom 1 (d.texts S).length) := by
  have hthree : "'%1', '%2', '%3')".toList = valuesText (markersFrom 1 3) := by decide
  have hfour : "'%1', '%2', '%3', '%4')".toList = valuesText (markersFrom 1 4) := by decide
  cases d with
  | mount => exact congrArg (insertInto _ ++ ·) hthree
  | user => exact congrArg (insertInto _ ++ ·) hfour
  | role => exact congrArg (insertInto _ ++ ·) hthree

/-- No apostrophe, no zero and no place marker. -/
def Inert (s : QString) : Prop := '\'' ∉ s ∧ '\x00' ∉ s ∧ QString.numbers s = []

instance (s : QString) : Decidable (Inert s) := inferInstanceAs (Decidable (_ ∧ _ ∧ _))

theorem inert_insertInto (d : Definition) : Inert (insertInto d.table) := by
  generalize d.table = table
  cases table <;> decide

variable {S} {d : Definition} {rows : List Row}

/-- The texts are put where their markers are. -/
theorem statement_eq (hvalid : d.isValid = true) (h : Unmarked (d.texts S)) :
    d.statement S = insertInto d.table ++ valuesText (d.texts S) := by
  obtain ⟨-, -, hnumbers⟩ := inert_insertInto d
  have hlen : (d.texts S).length ≤ 4 := by cases d <;> simp [Definition.texts]
  rw [Definition.statement, if_pos hvalid, template_eq S]
  refine foldl_arg (by omega) (fun m hm => ?_) (fun t ht m hm => ?_)
  · rw [hnumbers] at hm
    exact absurd hm List.not_mem_nil
  · have hlt := h t ht m hm
    omega

theorem tokens_statement_iff (hvalid : d.isValid = true) (h : Unmarked (d.texts S)) :
    tokens none (d.statement S) = insertTokens d.table (d.texts S) ↔
      ∀ t ∈ d.texts S, Literal t := by
  obtain ⟨hquote, hnul, -⟩ := inert_insertInto d
  rw [statement_eq hvalid h, insertTokens, List.append_assoc]
  exact tokens_valuesText_iff hquote hnul

/-- The record that is stored. -/
def Definition.row (S : SqliteRows) (d : Definition) : Row := d.table.columns.zip (d.texts S)

/-- The records with other names. -/
def others (S : SqliteRows) (d : Definition) (rows : List Row) : List Row :=
  rows.filter fun row => row.head? ≠ (d.row S).head?

theorem aclSet_eq (h : tokens none (d.statement S) = insertTokens d.table (d.texts S)) :
    aclSet S d rows = .ok (others S d rows ++ [d.row S]) :=
  S.exec_insert _ d.table _ rows h (by cases d <;> rfl)

/-- Only the stored record has its name. -/
theorem filter_stored {key : String × QString} (hkey : (d.row S).head? = some key) :
    (others S d rows ++ [d.row S]).filter (fun row => row.head? = some key) = [d.row S] := by
  rw [others, hkey, List.filter_append, List.filter_filter, List.filter_eq_nil_iff.mpr]
  · simp [hkey]
  · simp

/-! ## lists of roles -/

/-- A role that is read back from a list: no comma in it, not empty, no spaces around it. -/
def KeptInList (S : SqliteRows) (r : Bytes) : Prop :=
  ',' ∉ S.fromStdString r ∧ S.fromStdString r ≠ [] ∧
    S.toStdString (QString.trimmed (S.fromStdString r)) = r

theorem mem_of_mem_trimmed {c : Char} {s : QString} (h : c ∈ QString.trimmed s) : c ∈ s :=
  (List.dropWhile_sublist _).subset ((List.rdropWhile_prefix _ _).subset h)

theorem not_mem_of_mem_splitOn {sep : Char} {s part : QString} (h : part ∈ s.splitOn sep) :
    sep ∉ part := by
  induction s generalizing part with
  | nil =>
    rw [List.splitOn_nil, List.mem_singleton] at h
    rw [h]
    exact List.not_mem_nil
  | cons c s ih =>
    rw [List.splitOn_cons_eq_if_modifyHead] at h
    by_cases hc : c = sep
    · rw [if_pos (beq_iff_eq.mpr hc)] at h
      obtain rfl | h := List.mem_cons.mp h
      · exact List.not_mem_nil
      · exact ih h
    · rw [if_neg (by simpa using hc)] at h
      cases hparts : s.splitOn sep with
      | nil => exact absurd hparts (List.splitOn_ne_nil _ _)
      | cons first parts =>
        rw [hparts] at h ih
        obtain rfl | h := List.mem_cons.mp h
        · rw [List.mem_cons, not_or]
          exact ⟨Ne.symm hc, ih List.mem_cons_self⟩
        · exact ih (List.mem_cons_of_mem _ h)

/-- Joined texts without commas are split into those that are not empty. -/
theorem splitSkipEmpty_join {qs : List QString} (h : ∀ q ∈ qs, ',' ∉ q) :
    QString.splitSkipEmpty ',' (QString.join ',' qs) = qs.filter (· ≠ []) := by
  rw [QString.splitSkipEmpty, QString.join]
  by_cases hqs : qs = []
  · rw [hqs]
    rfl
  · rw [List.splitOn_intercalate ',' h hqs]

/-- A role that is read from a list has no comma. -/
theorem comma_not_mem_of_mem {ss : QString} {r : Bytes} (h : r ∈ splitStrVec S ss) :
    ',' ∉ S.fromStdString r := by
  obtain ⟨part, hpart, rfl⟩ := List.mem_map.mp h
  rw [S.fromStdString_toStdString]
  exact fun hmem => not_mem_of_mem_splitOn (List.mem_of_mem_filter hpart) (mem_of_mem_trimmed hmem)

/-- A list of roles is read back as itself if all of them are. -/
theorem splitStrVec_joinStrVec_iff {roles : List Bytes} :
    splitStrVec S (joinStrVec S roles) = roles ↔ ∀ r ∈ roles, KeptInList S r := by
  have hsplit : (∀ r ∈ roles, ',' ∉ S.fromStdString r) → splitStrVec S (joinStrVec S roles) =
      ((roles.map S.fromStdString).filter (· ≠ [])).map
        fun s => S.toStdString (QString.trimmed s) := fun h => by
    refine congrArg (List.map _) (splitSkipEmpty_join fun q hq => ?_)
    obtain ⟨r, hr, rfl⟩ := List.mem_map.mp hq
    exact h r hr
  constructor
  · intro hback
    have hcomma : ∀ r ∈ roles, ',' ∉ S.fromStdString r := fun r hr => by
      rw [← hback] at hr
      exact comma_not_mem_of_mem hr
    rw [hsplit hcomma] at hback
    have hne : (roles.map S.fromStdString).filter (· ≠ []) = roles.map S.fromStdString := by
      refine List.filter_sublist.eq_of_length ?_
      have hlen := congrArg List.length hback
      rw [List.length_map] at hlen
      rw [hlen, List.length_map]
    rw [hne, List.map_map] at hback
    intro r hr
    refine ⟨hcomma r hr, ?_, ?_⟩
    · exact of_decide_eq_true (List.filter_eq_self.mp hne _ (List.mem_map_of_mem hr))
    · exact List.map_inj_left.mp (hback.trans (List.map_id' roles).symm) r hr
  · intro h
    rw [hsplit fun r hr => (h r hr).1, List.filter_eq_self.mpr, List.map_map]
    · exact (List.map_congr_left fun r hr => (h r hr).2.2).trans (List.map_id' roles)
    · intro q hq
      obtain ⟨r, hr, rfl⟩ := List.mem_map.mp hq
      exact decide_eq_true (h r hr).2.1

/-! ## definitions that are read back -/

/-- A profile that is read back from its text. -/
def KeptProfile (S : SqliteRows) (r : AclRole) : Prop :=
  r.profile = .invalid ∨ (r.profile.isMap = true ∧
    ShvJournalFileReader.fromCpon (S.toStdString (S.fromStdString (Definition.profileText r))) =
      .ok (some r.profile))

/-- A definition that is not deleted, and that a `QString`, a list with commas and CPON keep. -/
def Definition.Kept (S : SqliteRows) : Definition → Prop
  | .mount _ md => md.isValid = true ∧ S.toStdString (S.fromStdString md.mountPoint) = md.mountPoint ∧
      S.toStdString (S.fromStdString md.description) = md.description
  | .user _ u => u.isValid = true ∧
      S.toStdString (S.fromStdString u.password.password) = u.password.password ∧
      ∀ r ∈ u.roles, KeptInList S r
  | .role _ r => (∀ r' ∈ r.roles, KeptInList S r') ∧ KeptProfile S r

theorem profileOf_iff {r : AclRole} :
    profileOf (S.toStdString (S.fromStdString (Definition.profileText r))) = .ok r.profile ↔
      KeptProfile S r := by
  constructor
  · intro h
    rw [profileOf] at h
    split at h
    · exact .inl (Except.ok.inj h).symm
    · cases hread : ShvJournalFileReader.fromCpon
        (S.toStdString (S.fromStdString (Definition.profileText r))) with
      | error e =>
        rw [hread] at h
        cases h
      | ok profile =>
        rw [hread] at h
        cases profile with
        | none => exact .inl (Except.ok.inj h).symm
        | some profile =>
          by_cases hmap : profile.isMap = true
          · have heq : profile = r.profile := (if_pos hmap).symm.trans (Except.ok.inj h)
            exact .inr ⟨heq ▸ hmap, by rw [hread, heq]⟩
          · exact .inl ((if_neg hmap).symm.trans (Except.ok.inj h)).symm
  · rintro (hinvalid | ⟨hmap, hread⟩)
    · have htext : Definition.profileText r = [] := by
        rw [Definition.profileText, hinvalid]
        rfl
      rw [htext, S.toStdString_nil, hinvalid]
      rfl
    · rw [profileOf, if_neg]
      · rw [hread]
        exact congrArg Except.ok (if_pos hmap)
      · intro hnil
        rw [hnil] at hread
        cases hread

theorem select_stored (h : ∀ t ∈ d.texts S, Literal t) :
    S.select d.table (selectRow d.table (S.fromStdString d.name))
      (others S d rows ++ [d.row S]) = .ok [d.row S] := by
  have hkey : (d.row S).head? = some (d.table.key, S.fromStdString d.name) := by
    cases d <;> rfl
  have hname : S.fromStdString d.name ∈ d.texts S := by
    cases d <;> exact List.mem_cons_self
  rw [S.select_row _ _ _ (h _ hname), filter_stored hkey]

/-- What is read once a definition is stored. -/
theorem read_stored (h : ∀ t ∈ d.texts S, Literal t) :
    read S (others S d rows ++ [d.row S]) d =
      match d with
      | .mount device_id md => .ok (.mount device_id ⟨S.toStdString (S.fromStdString md.mountPoint),
          S.toStdString (S.fromStdString md.description)⟩)
      | .user user_name u => .ok (.user user_name
          ⟨⟨S.toStdString (S.fromStdString u.password.password), u.password.format⟩,
            splitStrVec S (joinStrVec S u.roles)⟩)
      | .role role_name r =>
          (profileOf (S.toStdString (S.fromStdString (Definition.profileText r)))).map
            fun profile => .role role_name ⟨splitStrVec S (joinStrVec S r.roles), profile⟩ := by
  cases d with
  | mount device_id md =>
    have hselect := @select_stored S _ rows h
    simp only [Definition.table, Definition.name] at hselect
    rw [read, aclMountDef, hselect]
    simp [Definition.row, Definition.table, Table.columns, Definition.texts, Row.valueOf, List.lookup, bind,
      Except.bind, pure, Except.pure, Except.map]
  | user user_name u =>
    have hselect := @select_stored S _ rows h
    simp only [Definition.table, Definition.name] at hselect
    rw [read, aclUser, hselect]
    simp [Definition.row, Definition.table, Table.columns, Definition.texts, Row.valueOf, List.lookup, bind,
      Except.bind, pure, Except.pure, Except.map, S.toStdString_format,
      AclPassword.formatFromString_formatToString]
  | role role_name r =>
    have hselect := @select_stored S _ rows h
    simp only [Definition.table, Definition.name] at hselect
    rw [read, aclRole, hselect]
    cases hprofile : profileOf (S.toStdString (S.fromStdString (Definition.profileText r))) <;>
      simp [Definition.row, Definition.table, Table.columns, Definition.texts, Row.valueOf, List.lookup, bind,
        Except.bind, pure, Except.pure, Except.map, hprofile]

theorem kept_of_valid : d.Kept S → d.isValid = true := by
  cases d with
  | mount => exact fun h => h.1
  | user => exact fun h => h.1
  | role => exact fun _ => rfl

theorem read_stored_iff (hvalid : d.isValid = true) (h : ∀ t ∈ d.texts S, Literal t) :
    read S (others S d rows ++ [d.row S]) d = .ok d ↔ d.Kept S := by
  rw [read_stored h]
  cases d with
  | mount device_id md =>
    obtain ⟨mountPoint, description⟩ := md
    rw [Definition.Kept]
    simp only [Except.ok.injEq, Definition.mount.injEq, AclMountDef.mk.injEq, true_and]
    exact (and_iff_right hvalid).symm
  | user user_name u =>
    obtain ⟨⟨password, format⟩, roles⟩ := u
    rw [Definition.Kept, ← splitStrVec_joinStrVec_iff]
    simp only [Except.ok.injEq, Definition.user.injEq, AclUser.mk.injEq, AclPassword.mk.injEq,
      true_and, and_true]
    exact (and_iff_right hvalid).symm
  | role role_name r =>
    rw [Definition.Kept, ← splitStrVec_joinStrVec_iff, ← profileOf_iff]
    obtain ⟨roles, profile⟩ := r
    simp only
    cases profileOf (S.toStdString (S.fromStdString (Definition.profileText ⟨roles, profile⟩))) with
    | error e => simp [Except.map]
    | ok profile' => simp [Except.map]

/-- A definition that is deleted is no `INSERT`. -/
theorem tokens_ne_of_not_valid (hvalid : d.isValid = false) :
    tokens none (d.statement S) ≠ insertTokens d.table (d.texts S) := by
  have hdelete : ∃ s, d.statement S = 'D' :: s := by
    have hbegin : "DELETE FROM ".toList = 'D' :: "ELETE FROM ".toList := by decide
    rw [Definition.statement, if_neg (by rw [hvalid]; exact Bool.false_ne_true)]
    simp only [String.toList_append, hbegin, List.cons_append]
    exact ⟨_, rfl⟩
  have hinsert : ∃ s, insertInto d.table = 'I' :: s := by
    have hbegin : "INSERT OR REPLACE INTO ".toList = 'I' :: "NSERT OR REPLACE INTO ".toList := by
      decide
    simp only [insertInto, String.toList_append, hbegin, List.cons_append]
    exact ⟨_, rfl⟩
  obtain ⟨s, hs⟩ := hdelete
  obtain ⟨s', hs'⟩ := hinsert
  rw [hs, insertTokens, hs']
  intro heq
  have hhead : Token.char 'D' = Token.char 'I' := List.head_eq_of_cons_eq heq
  exact absurd hhead (by decide)

/-- Texts that are put where their markers are survive just if they mean themselves, the definition
is valid, and its lists and its profile are kept. -/
theorem definitionSurvives_iff (h : Unmarked (d.texts S)) :
    Survives S d rows ↔ (∀ t ∈ d.texts S, Literal t) ∧ d.Kept S := by
  by_cases hvalid : d.isValid = true
  · have htokens := tokens_statement_iff hvalid h
    constructor
    · rintro ⟨hinsert, rows', hrows', hread⟩
      have hliteral := htokens.mp hinsert
      obtain rfl := Except.ok.inj ((aclSet_eq hinsert).symm.trans hrows')
      exact ⟨hliteral, (read_stored_iff hvalid hliteral).mp hread⟩
    · rintro ⟨hliteral, hkept⟩
      have hinsert := htokens.mpr hliteral
      exact ⟨hinsert, _, aclSet_eq hinsert, (read_stored_iff hvalid hliteral).mpr hkept⟩
  · exact iff_of_false (fun hs => tokens_ne_of_not_valid (Bool.eq_false_iff.mpr hvalid) hs.1)
      fun hkept => hvalid (kept_of_valid hkept.2)

/-! ## tables in memory -/

/-- The texts of a statement. -/
def literals (ts : List Token) : List QString :=
  ts.filterMap fun
    | .literal s => some s
    | _ => none

theorem literals_insertTokens (table : Table) (values : List QString) :
    literals (insertTokens table values) = values := by
  have hchars : ∀ s, literals (chars s) = [] := fun s => by simp [literals, chars]
  have hvalues : literals (valueTokens values) = values := by
    induction values with
    | nil => rfl
    | cons v vs ih =>
      cases vs with
      | nil => rfl
      | cons w ws => exact congrArg (v :: ·) ih
  have happend : insertTokens table values = chars (insertInto table) ++ valueTokens values :=
    List.append_assoc _ _ _
  rw [happend, literals, List.filterMap_append]
  exact congrArg₂ (· ++ ·) (hchars (insertInto table)) hvalues

/-- Tables that run an `INSERT` and a `SELECT` as SQLite does. -/
def inMemoryRows : SqliteRows where
  fromStdString := utf8Decode
  toStdString := utf8Encode
  exec table sql rows :=
    let values := literals (tokens none sql)
    if tokens none sql = insertTokens table values then
      .ok (rows.filter (fun row => row.head? ≠ (table.columns.zip values).head?) ++
        [table.columns.zip values])
    else .error "syntax error"
  select table sql rows :=
    .ok (rows.filter fun row => row.head? =
      some (table.key, between (selectRow table []).dropLast.length 1 sql))
  fromStdString_toStdString := utf8Decode_utf8Encode
  toStdString_nil := by decide
  toStdString_format f := by cases f <;> decide
  exec_insert sql table values rows h _ := by
    have hvalues : literals (tokens none sql) = values := h ▸ literals_insertTokens table values
    simp only [hvalues, if_pos h]
  select_row table key_value rows _ := by
    have hbegin : (selectRow table []).dropLast =
        ("SELECT * FROM " ++ table.name ++ " WHERE " ++ table.key ++ "='").toList := by
      rw [selectRow, List.append_nil, List.dropLast_concat]
    have hkey : between (selectRow table []).dropLast.length 1 (selectRow table key_value) =
        key_value := by
      rw [hbegin]
      exact between_append _ key_value ['\'']
    simp only [hkey]

/-- A mount definition with texts of ASCII characters. -/
def testMount (device_id mountPoint description : String) : Definition :=
  .mount (utf8Encode device_id.toList)
    ⟨utf8Encode mountPoint.toList, utf8Encode description.toList⟩

theorem texts_testMount (device_id mountPoint description : String) :
    (testMount device_id mountPoint description).texts inMemoryRows =
      [device_id.toList, mountPoint.toList, description.toList] := by
  simp only [testMount, Definition.texts, inMemoryRows, utf8Decode_utf8Encode]

theorem survives_device : Survives inMemoryRows (testMount "dev" "test/a" "100%") [] ↔
    (∀ t ∈ (testMount "dev" "test/a" "100%").texts inMemoryRows, Literal t) ∧
      (testMount "dev" "test/a" "100%").Kept inMemoryRows :=
  definitionSurvives_iff (by rw [texts_testMount]; decide)

/-- An apostrophe ends a text, and a place marker in a text is replaced by a later text. -/
theorem not_survives_quote_marker :
    ¬ Survives inMemoryRows (testMount "dev" "test/a" "it's") [] ∧
      ¬ Survives inMemoryRows (testMount "dev" "test/%3" "x") [] := by
  constructor
  · rintro ⟨htokens, -⟩
    rw [Definition.statement, if_pos (by decide), texts_testMount] at htokens
    exact absurd htokens (by decide)
  · rintro ⟨htokens, -⟩
    rw [Definition.statement, if_pos (by decide), texts_testMount] at htokens
    exact absurd htokens (by decide)

end AclManagerSqlite

end LibShv
