import LibShv.AclManager
import LibShv.Lib.KeyedTable
import LibShv.QString

/-!
# LibShv.AclManagerSqlite

The access rules in a SQLite table (`aclmanagersqlite.cpp`): the rules of a role
are deleted and the new ones are inserted one after another, each statement on
its own. An insert that fails leaves the rules before it.

Qt and SQLite are parameters: what is known of them is how the three statements
act on the table, and that a text is read back from a `QString` as it was put in.
-/

namespace LibShv

namespace AclManagerSqlite

/-! ## the table -/

/-- The columns of `acl_access` that are set. -/
structure AccessRow where
  role : QString
  path : QString
  method : QString
  accessRole : QString
  ruleNumber : Int32
deriving DecidableEq

/-- `PRIMARY KEY (role, path, method)`. -/
def AccessRow.key (row : AccessRow) : QString × QString × QString := (row.role, row.path, row.method)

/-- SQLite reads a statement up to a null character. -/
def NoNul (s : QString) : Bool := !s.contains '\x00'

def AccessRow.noNul (row : AccessRow) : Bool :=
  NoNul row.role && NoNul row.path && NoNul row.method && NoNul row.accessRole

/-- A text that means itself between two apostrophes. -/
def Literal (s : QString) : Prop := '\'' ∉ s ∧ NoNul s = true

instance (s : QString) : Decidable (Literal s) := inferInstanceAs (Decidable (_ ∧ _))

def deleteStatement (role : QString) : QString :=
  "DELETE FROM acl_access WHERE role='".toList ++ role ++ ['\'']

def selectStatement (role : QString) : QString :=
  "SELECT * FROM acl_access WHERE role='".toList ++ role ++ "' ORDER BY ruleNumber".toList

/-- `ORDER BY ruleNumber`. -/
def byNumber (a b : AccessRow) : Bool := a.ruleNumber ≤ b.ruleNumber

/-- Qt and SQLite. A statement is a text or what `sqlStatement` makes of a record;
an insert fails on a key that is taken and on a text with a null character. -/
structure Sqlite where
  fromStdString : Bytes → QString
  toStdString : QString → Bytes
  Statement : Type
  text : QString → Statement
  insertStatement : AccessRow → Statement
  exec : Statement → List AccessRow → Except String (List AccessRow)
  select : Statement → List AccessRow → Except String (List AccessRow)
  fromStdString_toStdString : ∀ s, fromStdString (toStdString s) = s
  exec_delete : ∀ role t, Literal role →
    exec (text (deleteStatement role)) t = .ok (t.filter (·.role ≠ role))
  exec_insert : ∀ row t, row.noNul = true → row.key ∉ t.map AccessRow.key →
    exec (insertStatement row) t = .ok (t ++ [row])
  exec_insert_refused : ∀ row t, ¬ (row.noNul = true ∧ row.key ∉ t.map AccessRow.key) →
    ∃ e, exec (insertStatement row) t = .error e
  select_role : ∀ role t, Literal role → select (text (selectStatement role)) t =
    .ok ((t.filter (·.role = role)).mergeSort byNumber)

variable (S : Sqlite)

/-- The record of a rule. -/
def Sqlite.rowOf (role : QString) (rule_number : Int32) (rule : AclAccessRule) : AccessRow where
  role := role
  path := S.fromStdString rule.path
  method := S.fromStdString rule.method
  accessRole := S.fromStdString rule.access
  ruleNumber := rule_number

/-- The rule of a record. -/
def Sqlite.ruleOf (row : AccessRow) : AclAccessRule where
  path := S.toStdString row.path
  method := S.toStdString row.method
  access := S.toStdString row.accessRole

/-- `aclAccessRoleRules`. -/
def aclAccessRoleRules (role_name : Bytes) (t : List AccessRow) : Except String AclRoleAccessRules :=
  (S.select (S.text (selectStatement (S.fromStdString role_name))) t).map (·.map S.ruleOf)

/-- The loop over the rules. -/
def insertRules (role : QString) :
    Int32 → AclRoleAccessRules → List AccessRow → Except String Unit × List AccessRow
  | _, [], t => (.ok (), t)
  | rule_number, rule :: rules, t =>
    match S.exec (S.insertStatement (S.rowOf role rule_number rule)) t with
    | .error e => (.error e, t)
    | .ok t => insertRules role (rule_number + 1) rules t

/-- `aclSetAccessRoleRules`. -/
def aclSetAccessRoleRules (role_name : Bytes) (rules : AclRoleAccessRules) (t : List AccessRow) :
    Except String Unit × List AccessRow :=
  match S.exec (S.text (deleteStatement (S.fromStdString role_name))) t with
  | .error e => (.error e, t)
  | .ok t => insertRules S (S.fromStdString role_name) 0 rules t

/-- The call returns and the new rules are read back, or it throws and the rules
are read back as before. -/
def AllOrNothing (role_name : Bytes) (rules : AclRoleAccessRules) (t : List AccessRow) : Prop :=
  match aclSetAccessRoleRules S role_name rules t with
  | (.ok (), t') => aclAccessRoleRules S role_name t' = .ok rules
  | (.error _, t') => aclAccessRoleRules S role_name t' = aclAccessRoleRules S role_name t

/-! ## the rules that are inserted -/

/-- The texts of a rule have no null character. -/
def Sqlite.accepts (rule : AclAccessRule) : Bool :=
  NoNul (S.fromStdString rule.path) && NoNul (S.fromStdString rule.method) &&
    NoNul (S.fromStdString rule.access)

/-- The part of the primary key that differs between the rules of a role. -/
def Sqlite.ruleKey (rule : AclAccessRule) : QString × QString :=
  (S.fromStdString rule.path, S.fromStdString rule.method)

/-- Every rule can be inserted: no null characters, no path and method twice. -/
def Sqlite.Accepted (rules : AclRoleAccessRules) : Prop :=
  (∀ rule ∈ rules, S.accepts rule = true) ∧ (rules.map S.ruleKey).Nodup

/-- The rules before the first one that cannot be inserted. -/
def Sqlite.acceptedPrefix (rules : AclRoleAccessRules) : AclRoleAccessRules :=
  KeyedTable.taken S.accepts S.ruleKey [] rules

/-- The texts of a rule are read back from a `QString`. -/
def Sqlite.Survives (rule : AclAccessRule) : Prop :=
  S.ruleOf (S.rowOf [] 0 rule) = rule

/-- The records of some rules. -/
def Sqlite.rowsOf (role : QString) : Int32 → AclRoleAccessRules → List AccessRow
  | _, [] => []
  | rule_number, rule :: rules =>
    S.rowOf role rule_number rule :: rowsOf role (rule_number + 1) rules

/-- What is read once some rules are inserted: they are ordered by their numbers,
and the texts are what a `QString` keeps of them. -/
def Sqlite.readBack (rules : AclRoleAccessRules) : AclRoleAccessRules :=
  ((S.rowsOf [] 0 rules).mergeSort byNumber).map S.ruleOf

variable {S} {role : QString} {rules : AclRoleAccessRules} {t : List AccessRow}

theorem acceptedPrefix_eq_self_iff : S.acceptedPrefix rules = rules ↔ S.Accepted rules := by
  rw [Sqlite.acceptedPrefix, KeyedTable.taken_eq_self_iff, Sqlite.Accepted]
  simp

theorem role_of_mem_rowsOf {n : Int32} {row : AccessRow} (h : row ∈ S.rowsOf role n rules) :
    row.role = role := by
  induction rules generalizing n with
  | nil => exact absurd h List.not_mem_nil
  | cons rule rules ih =>
    obtain rfl | h := List.mem_cons.mp h
    · rfl
    · exact ih h

/-- The loop inserts the accepted rules and throws at the first one that is not. -/
theorem insertRules_eq (hrole : NoNul role = true) {seen : List (QString × QString)} {n : Int32}
    (hseen : ∀ x, (role, x) ∈ t.map AccessRow.key ↔ x ∈ seen) :
    (insertRules S role n rules t).2 =
        t ++ S.rowsOf role n (KeyedTable.taken S.accepts S.ruleKey seen rules) ∧
      ((insertRules S role n rules t).1 = .ok () ↔
        KeyedTable.taken S.accepts S.ruleKey seen rules = rules) := by
  induction rules generalizing t seen n with
  | nil => exact ⟨(List.append_nil t).symm, iff_of_true rfl rfl⟩
  | cons rule rules ih =>
    have hkey : (S.rowOf role n rule).key = (role, S.ruleKey rule) := rfl
    have hnoNul : (S.rowOf role n rule).noNul = S.accepts rule := by
      have hrow : (S.rowOf role n rule).noNul = (NoNul role && NoNul (S.fromStdString rule.path) &&
        NoNul (S.fromStdString rule.method) && NoNul (S.fromStdString rule.access)) := rfl
      rw [hrow, hrole, Bool.true_and]
      rfl
    rw [insertRules, KeyedTable.taken]
    by_cases h : S.accepts rule = true ∧ S.ruleKey rule ∉ seen
    · have hfree : (S.rowOf role n rule).key ∉ t.map AccessRow.key := by
        rw [hkey, hseen]
        exact h.2
      rw [S.exec_insert _ _ (hnoNul.trans h.1) hfree, if_pos h]
      have hseen' : ∀ x, (role, x) ∈ (t ++ [S.rowOf role n rule]).map AccessRow.key ↔
          x ∈ seen ++ [S.ruleKey rule] := by
        intro x
        rw [List.map_append, List.mem_append, List.mem_append, hseen, List.map_singleton, hkey,
          List.mem_singleton, List.mem_singleton, Prod.mk.injEq, eq_self, true_and]
      obtain ⟨htable, hok⟩ := @ih _ _ (n + 1) hseen'
      refine ⟨?_, ?_⟩
      · rw [Sqlite.rowsOf]
        refine htable.trans ?_
        rw [List.append_assoc, List.singleton_append]
      · rw [List.cons.injEq, eq_self, true_and]
        exact hok
    · have hrefused : ¬ ((S.rowOf role n rule).noNul = true ∧
          (S.rowOf role n rule).key ∉ t.map AccessRow.key) := by
        rw [hnoNul, hkey, hseen]
        exact h
      obtain ⟨e, he⟩ := S.exec_insert_refused _ t hrefused
      rw [he, if_neg h]
      exact ⟨(List.append_nil t).symm, iff_of_false (by simp) (by simp)⟩

/-! ## what is read back -/

theorem length_rowsOf {n : Int32} : (S.rowsOf role n rules).length = rules.length := by
  induction rules generalizing n with
  | nil => rfl
  | cons rule rules ih => exact congrArg (· + 1) ih

theorem getElem_rowsOf {n : Int32} {i : Nat} (hi : i < (S.rowsOf role n rules).length)
    (h : i < rules.length) :
    (S.rowsOf role n rules)[i] = S.rowOf role (n + Int32.ofNat i) rules[i] := by
  induction rules generalizing n i with
  | nil => exact absurd h (Nat.not_lt_zero i)
  | cons rule rules ih =>
    cases i with
    | zero => exact congrArg (S.rowOf role · rule) (Int32.add_zero n).symm
    | succ i =>
      refine (ih (Nat.lt_of_succ_lt_succ hi) (Nat.lt_of_succ_lt_succ h)).trans ?_
      have hnumber : n + 1 + Int32.ofNat i = n + Int32.ofNat (i + 1) := by
        rw [Int32.ofNat_add, Int32.add_assoc, Int32.add_comm 1]
        rfl
      rw [hnumber]
      rfl

theorem map_rowsOf {f : AccessRow → α} {g : AclAccessRule → α}
    (h : ∀ n rule, f (S.rowOf role n rule) = g rule) {n : Int32} :
    (S.rowsOf role n rules).map f = rules.map g := by
  induction rules generalizing n with
  | nil => rfl
  | cons rule rules ih =>
    rw [Sqlite.rowsOf, List.map_cons, List.map_cons, h, ih]

/-- The rules are numbered in order until `int` overflows. -/
theorem rowsOf_sorted_iff :
    (S.rowsOf role 0 rules).Pairwise (fun a b => byNumber a b = true) ↔ rules.length ≤ 2 ^ 31 := by
  rw [List.pairwise_iff_getElem]
  constructor
  · intro h
    by_contra hlong
    have h0 : 0 < rules.length := by omega
    have hlast : 2 ^ 31 < rules.length := by omega
    have hle := h 0 (2 ^ 31) (by rw [length_rowsOf]; exact h0) (by rw [length_rowsOf]; exact hlast)
      (by decide)
    rw [getElem_rowsOf _ h0, getElem_rowsOf _ hlast] at hle
    have hnot : ¬ (0 + Int32.ofNat 0) ≤ 0 + Int32.ofNat (2 ^ 31) := by decide
    exact hnot (of_decide_eq_true hle)
  · intro hlen i j hi' hj' hij
    have hi : i < rules.length := length_rowsOf (S := S) ▸ hi'
    have hj : j < rules.length := length_rowsOf (S := S) ▸ hj'
    rw [getElem_rowsOf hi' hi, getElem_rowsOf hj' hj]
    refine decide_eq_true (Int32.le_iff_toInt_le.mpr ?_)
    have hnumber : ∀ k < rules.length, (0 + Int32.ofNat k).toInt = k := fun k hk => by
      rw [Int32.zero_add, Int32.toInt_ofNat_of_lt (by omega)]
    refine (hnumber i hi).le.trans (le_trans ?_ (hnumber j hj).ge)
    omega

theorem ruleKey_ruleOf (row : AccessRow) : S.ruleKey (S.ruleOf row) = (row.path, row.method) :=
  Prod.ext (S.fromStdString_toStdString row.path) (S.fromStdString_toStdString row.method)

/-- Inserted rules are read back if `int` can number them and a `QString` keeps their texts. -/
theorem readBack_eq_self_iff (h : S.Accepted rules) : S.readBack rules = rules ↔
    rules.length ≤ 2 ^ 31 ∧ ∀ rule ∈ rules, S.Survives rule := by
  have hkeys : (S.rowsOf [] 0 rules).map (fun row => (row.path, row.method)) =
      rules.map S.ruleKey := map_rowsOf fun _ _ => rfl
  have hrules : (S.rowsOf [] 0 rules).map S.ruleOf =
      rules.map fun rule => S.ruleOf (S.rowOf [] 0 rule) := map_rowsOf fun _ _ => rfl
  have hsurvive : (rules.map fun rule => S.ruleOf (S.rowOf [] 0 rule)) = rules ↔
      ∀ rule ∈ rules, S.Survives rule := by
    refine Iff.trans ?_ List.map_inj_left
    rw [List.map_id']
  constructor
  · intro hback
    have hsorted : (S.rowsOf [] 0 rules).mergeSort byNumber = S.rowsOf [] 0 rules := by
      refine KeyedTable.eq_of_perm_of_map_eq (List.mergeSort_perm _ _) ?_ (hkeys ▸ h.2)
      rw [hkeys, ← congrArg (List.map S.ruleKey) hback, Sqlite.readBack, List.map_map]
      exact List.map_congr_left fun row _ => (ruleKey_ruleOf row).symm
    refine ⟨(@rowsOf_sorted_iff S [] rules).mp ?_, hsurvive.mp ?_⟩
    · rw [← hsorted]
      refine List.pairwise_mergeSort (fun a b c hab hbc => ?_) (fun a b => ?_) _
      · exact decide_eq_true (Int32.le_trans (of_decide_eq_true hab) (of_decide_eq_true hbc))
      · exact (Bool.or_eq_true _ _).mpr ((Int32.le_total a.ruleNumber b.ruleNumber).imp
          decide_eq_true decide_eq_true)
    · rw [← hrules, ← hsorted]
      exact hback
  · rintro ⟨hlen, hall⟩
    rw [Sqlite.readBack, List.mergeSort_of_pairwise (rowsOf_sorted_iff.mpr hlen), hrules]
    exact hsurvive.mpr hall

/-- The record of the same rule without its role. -/
def AccessRow.anyRole (row : AccessRow) : AccessRow := { row with role := [] }

/-- The rules of a role when no other record of it is in the table. -/
theorem aclAccessRoleRules_append {role_name : Bytes} (hrole : Literal (S.fromStdString role_name))
    (hnone : ∀ row ∈ t, row.role ≠ S.fromStdString role_name) :
    aclAccessRoleRules S role_name (t ++ S.rowsOf (S.fromStdString role_name) 0 rules) =
      .ok (S.readBack rules) := by
  have hrows : (t ++ S.rowsOf (S.fromStdString role_name) 0 rules).filter
      (·.role = S.fromStdString role_name) = S.rowsOf (S.fromStdString role_name) 0 rules := by
    rw [List.filter_append, List.filter_eq_nil_iff.mpr, List.nil_append, List.filter_eq_self]
    · exact fun row hrow => decide_eq_true (role_of_mem_rowsOf hrow)
    · exact fun row hrow h => hnone row hrow (of_decide_eq_true h)
  have hmap : S.rowsOf [] 0 rules =
      (S.rowsOf (S.fromStdString role_name) 0 rules).map AccessRow.anyRole := by
    refine List.ext_getElem ?_ fun i hi hi' => ?_
    · rw [List.length_map, length_rowsOf, length_rowsOf]
    · have hlt : i < rules.length := length_rowsOf (S := S) ▸ hi
      rw [List.getElem_map, getElem_rowsOf _ hlt, getElem_rowsOf _ hlt]
      rfl
  have hsort : (S.rowsOf [] 0 rules).mergeSort byNumber =
      ((S.rowsOf (S.fromStdString role_name) 0 rules).mergeSort byNumber).map
        AccessRow.anyRole := by
    rw [hmap]
    exact (List.map_mergeSort (r := byNumber) (f := AccessRow.anyRole) fun _ _ _ _ => rfl).symm
  rw [aclAccessRoleRules, S.select_role _ _ hrole, hrows, Sqlite.readBack, hsort, List.map_map]
  rfl

/-- After a call the rules before the first refused one are stored. -/
theorem aclSetAccessRoleRules_eq {role_name : Bytes} (hrole : Literal (S.fromStdString role_name)) :
    ((aclSetAccessRoleRules S role_name rules t).1 = .ok () ↔ S.Accepted rules) ∧
      aclAccessRoleRules S role_name (aclSetAccessRoleRules S role_name rules t).2 =
        .ok (S.readBack (S.acceptedPrefix rules)) := by
  have hnone : ∀ row ∈ t.filter (·.role ≠ S.fromStdString role_name),
      row.role ≠ S.fromStdString role_name := fun row hrow =>
    of_decide_eq_true (List.mem_filter.mp hrow).2
  have hseen : ∀ x, (S.fromStdString role_name, x) ∈
      (t.filter (·.role ≠ S.fromStdString role_name)).map AccessRow.key ↔ x ∈ [] := by
    refine fun x => iff_of_false (fun hx => ?_) List.not_mem_nil
    obtain ⟨row, hrow, hkey⟩ := List.mem_map.mp hx
    exact hnone row hrow (congrArg Prod.fst hkey)
  obtain ⟨htable, hok⟩ := @insertRules_eq S _ rules _ hrole.2 [] 0 hseen
  rw [aclSetAccessRoleRules, S.exec_delete _ t hrole]
  refine ⟨hok.trans acceptedPrefix_eq_self_iff, ?_⟩
  rw [htable]
  exact aclAccessRoleRules_append hrole hnone

theorem allOrNothing_of_accepted {role_name : Bytes} (hrole : Literal (S.fromStdString role_name))
    (h : S.Accepted rules) : AllOrNothing S role_name rules t ↔
      rules.length ≤ 2 ^ 31 ∧ ∀ rule ∈ rules, S.Survives rule := by
  obtain ⟨hok, hread⟩ := @aclSetAccessRoleRules_eq S rules t role_name hrole
  have htaken : S.acceptedPrefix rules = rules := acceptedPrefix_eq_self_iff.mpr h
  rw [AllOrNothing, ← readBack_eq_self_iff h]
  generalize aclSetAccessRoleRules S role_name rules t = run at hok hread
  obtain ⟨result, t'⟩ := run
  obtain rfl : result = .ok () := hok.mpr h
  refine (Eq.congr_left hread).trans ?_
  rw [htaken, Except.ok.injEq]

theorem allOrNothing_of_not_accepted {role_name : Bytes}
    (hrole : Literal (S.fromStdString role_name)) (h : ¬ S.Accepted rules) :
    AllOrNothing S role_name rules t ↔
      aclAccessRoleRules S role_name t = .ok (S.readBack (S.acceptedPrefix rules)) := by
  obtain ⟨hok, hread⟩ := @aclSetAccessRoleRules_eq S rules t role_name hrole
  rw [AllOrNothing]
  generalize aclSetAccessRoleRules S role_name rules t = run at hok hread
  obtain ⟨result, t'⟩ := run
  cases result with
  | ok => exact absurd (hok.mp rfl) h
  | error => exact (Eq.congr_left hread).trans eq_comm

/-- A list of rules is stored completely or not at all just if it is accepted
and kept, or what was stored is what its accepted part reads back as. -/
theorem allOrNothing_iff {role_name : Bytes} (hrole : Literal (S.fromStdString role_name)) :
    AllOrNothing S role_name rules t ↔
      (S.Accepted rules ∧ rules.length ≤ 2 ^ 31 ∧ ∀ rule ∈ rules, S.Survives rule) ∨
      (¬ S.Accepted rules ∧
        aclAccessRoleRules S role_name t = .ok (S.readBack (S.acceptedPrefix rules))) := by
  by_cases h : S.Accepted rules
  · rw [allOrNothing_of_accepted hrole h]
    simp [h]
  · rw [allOrNothing_of_not_accepted hrole h]
    simp [h]

/-! ## a table in memory -/

/-- `QString::fromStdString` on valid UTF-8. -/
def utf8Decode (s : Bytes) : QString := ((String.fromUTF8? ⟨s.toArray⟩).getD "").toList

/-- `QString::toStdString`. -/
def utf8Encode (s : QString) : Bytes := (String.ofList s).toByteArray.data.toList

theorem utf8Decode_utf8Encode (s : QString) : utf8Decode (utf8Encode s) = s := by
  have h : String.fromUTF8? (String.ofList s).toByteArray = some (String.ofList s) := by
    rw [String.fromUTF8?, dif_pos (String.ofList s).isValidUTF8]
    rfl
  rw [utf8Decode, utf8Encode, Array.toArray_toList, h, Option.getD_some, String.toList_ofList]

/-- The text between the first `before` characters and the last `after` ones. -/
def between (before after : Nat) (s : QString) : QString :=
  (s.drop before).take ((s.drop before).length - after)

theorem between_append (before role after : QString) :
    between before.length after.length (before ++ role ++ after) = role := by
  rw [between, List.append_assoc, List.drop_left, List.length_append, Nat.add_sub_cancel,
    List.take_left]

theorem between_deleteStatement (role : QString) : between 35 1 (deleteStatement role) = role :=
  between_append "DELETE FROM acl_access WHERE role='".toList role ['\'']

theorem between_selectStatement (role : QString) : between 37 21 (selectStatement role) = role :=
  between_append "SELECT * FROM acl_access WHERE role='".toList role
    "' ORDER BY ruleNumber".toList

/-- A table that runs the statements as SQLite does. -/
def inMemory : Sqlite where
  fromStdString := utf8Decode
  toStdString := utf8Encode
  Statement := QString ⊕ AccessRow
  text := .inl
  insertStatement := .inr
  exec
    | .inl s, t => .ok (t.filter (·.role ≠ between 35 1 s))
    | .inr row, t =>
      if row.noNul = true ∧ row.key ∉ t.map AccessRow.key then .ok (t ++ [row])
      else .error "UNIQUE constraint failed"
  select
    | .inl s, t => .ok ((t.filter (·.role = between 37 21 s)).mergeSort byNumber)
    | .inr _, _ => .error "not a query"
  fromStdString_toStdString := utf8Decode_utf8Encode
  exec_delete role t _ := by simp only [between_deleteStatement]
  exec_insert _ _ h hfree := if_pos ⟨h, hfree⟩
  exec_insert_refused _ _ h := ⟨_, if_neg h⟩
  select_role role t _ := by simp only [between_selectStatement]

/-- A rule for a path and a method. -/
def testRule (path method : String) : AclAccessRule where
  path := utf8Encode path.toList
  method := utf8Encode method.toList
  access := utf8Encode "rd".toList

theorem literal_user : Literal (inMemory.fromStdString (utf8Encode "user".toList)) := by
  have h : inMemory.fromStdString (utf8Encode "user".toList) = "user".toList :=
    utf8Decode_utf8Encode _
  rw [h]
  decide

theorem allOrNothing_user :
    AllOrNothing inMemory (utf8Encode "user".toList) [testRule "a" "get", testRule "a" "set"] [] ↔
      (inMemory.Accepted [testRule "a" "get", testRule "a" "set"] ∧
        [testRule "a" "get", testRule "a" "set"].length ≤ 2 ^ 31 ∧
        ∀ rule ∈ [testRule "a" "get", testRule "a" "set"], inMemory.Survives rule) ∨
      (¬ inMemory.Accepted [testRule "a" "get", testRule "a" "set"] ∧
        aclAccessRoleRules inMemory (utf8Encode "user".toList) [] =
          .ok (inMemory.readBack (inMemory.acceptedPrefix
            [testRule "a" "get", testRule "a" "set"]))) :=
  allOrNothing_iff literal_user

/-- A rule that is given twice is refused the second time and stays stored. -/
theorem not_allOrNothing_twice : ¬ AllOrNothing inMemory (utf8Encode "user".toList)
    [testRule "a" "get", testRule "a" "get"] [] := by
  have hrefused : ¬ inMemory.Accepted [testRule "a" "get", testRule "a" "get"] :=
    fun h => absurd h.2 (by simp)
  have hfirst : inMemory.acceptedPrefix [testRule "a" "get", testRule "a" "get"] =
      [testRule "a" "get"] := by
    have hget : inMemory.accepts (testRule "a" "get") = true := by
      have h : inMemory.accepts (testRule "a" "get") =
          (NoNul "a".toList && NoNul "get".toList && NoNul "rd".toList) := by
        simp only [Sqlite.accepts, inMemory, testRule, utf8Decode_utf8Encode]
      rw [h]
      decide
    simp [Sqlite.acceptedPrefix, KeyedTable.taken, hget]
  rw [allOrNothing_of_not_accepted literal_user hrefused, hfirst]
  simp [Sqlite.readBack, Sqlite.rowsOf, aclAccessRoleRules, inMemory, Except.map]

end AclManagerSqlite

end LibShv
