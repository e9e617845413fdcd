import LibShv.AclManager.Caches
import LibShv.BrokerApp
import LibShv.Lib.Decimal

/-!
# LibShv.AccessAclNode

The node of the access rules (`AccessAclNode` in `brokeraclnode.cpp`): below it
is a node for each role, and below that one for each rule of the role, with a
method for each field of a rule that sets it. The rules of a role are stored as a
whole, as a value of `AclRoleAccessRules`.
-/

namespace LibShv

/-! ## rules as values -/

/-- `RpcValue::at` of a text: invalid if the value is no map. -/
def RpcValue.atKey (v : RpcValue) (key : Bytes) : RpcValue :=
  match v.value with
  | .map m => (SortedMap.find? key m).getD .invalid
  | _ => .invalid

def SHV_PATH_METHOD_DELIM : UInt8 := 0x3a

namespace AclAccessRule

/-- `AclAccessRule::toRpcValue`. -/
def toRpcValue (rule : AclAccessRule) : RpcValue :=
  .ofVariant (.map
    [(ascii "method", .ofVariant (.string rule.method)),
      (ascii "pathPattern", .ofVariant (.string rule.path)),
      (ascii "role", .ofVariant (.string rule.access))])

/-- `AclAccessRule::fromRpcValue`. -/
def fromRpcValue (v : RpcValue) : AclAccessRule where
  access := (v.atKey (ascii "role")).asString
  method := (v.atKey (ascii "method")).asString
  path := (v.atKey (ascii "pathPattern")).asString

def isValid (rule : AclAccessRule) : Bool := rule.path ≠ [] ∧ rule.access ≠ []

end AclAccessRule

namespace AclRoleAccessRules

/-- `AclRoleAccessRules::toRpcValue`. -/
def toRpcValue (rules : AclRoleAccessRules) : RpcValue :=
  .ofVariant (.list (rules.map AclAccessRule.toRpcValue))

/-- The rule of an entry of a map: its key is the path, and the method behind the last colon. -/
def ruleOfEntry (kv : Bytes × RpcValue) : AclAccessRule :=
  let g := AclAccessRule.fromRpcValue kv.2
  if SHV_PATH_METHOD_DELIM ∈ kv.1 then
    let method := (kv.1.reverse.takeWhile (· ≠ SHV_PATH_METHOD_DELIM)).reverse
    { g with path := kv.1.take (kv.1.length - method.length - 1), method }
  else { g with path := kv.1 }

/-- `AclRoleAccessRules::fromRpcValue`: a map of rules or a list of them, without those that are
not valid. -/
def fromRpcValue (v : RpcValue) : AclRoleAccessRules :=
  match v.value with
  | .map m => (m.map ruleOfEntry).filter (·.isValid)
  | .list l => (l.map AclAccessRule.fromRpcValue).filter (·.isValid)
  | _ => []

/-- The value of one rule is taken for a map of rules, none of which has a grant. -/
theorem fromRpcValue_rule (rule : AclAccessRule) : fromRpcValue rule.toRpcValue = [] := rfl

end AclRoleAccessRules

/-! ## the node -/

def M_VALUE : Bytes := ascii "value"
def M_SET_VALUE : Bytes := ascii "setValue"
def M_GET_GRANT : Bytes := ascii "grant"
def M_GET_PATH_PATTERN : Bytes := ascii "pathPattern"
def M_GET_METHOD : Bytes := ascii "method"
def M_SET_GRANT : Bytes := ascii "setGrant"
def M_SET_PATH_PATTERN : Bytes := ascii "setPathPattern"
def M_SET_METHOD : Bytes := ascii "setMethod"

/-- How a call fails, or that it goes on to `saveConfigFile` or to `ShvNode::callMethod`. -/
inductive AclNodeFault where
  | exception (message : Bytes)
  | elsewhere
deriving DecidableEq

namespace AccessAclNode

def InvalidIndex : Nat := 2 ^ 32 - 1

/-- The digits of the number of rules, as the loop of `ruleKey` counts them. -/
def keyWidth (rules_cnt : Nat) : Nat :=
  if 9 < rules_cnt then keyWidth (rules_cnt / 10) + 1 else 1
termination_by rules_cnt
decreasing_by omega

/-- `QString::arg` of a number, filled up with zeros. -/
def padded (width n : Nat) : Bytes :=
  List.replicate (width - (Decimal.digits n).length) 0x30 ++ Decimal.digits n

/-- `ruleKey`. -/
def ruleKey (rule_ix rules_cnt : UInt32) (rule : AclAccessRule) : Bytes :=
  ascii "[" ++ padded (keyWidth rules_cnt.toNat) rule_ix.toNat ++ ascii "] " ++ rule.path ++
    if rule.method = [] then [] else SHV_PATH_METHOD_DELIM :: rule.method

/-- `keyToRuleIndex`: the number in brackets at the start of the key, if it is an `int`. -/
def keyToRuleIndex : Bytes → Nat
  | [] => InvalidIndex
  | c :: cs =>
    let ds := cs.takeWhile (decide <| Decimal.IsDigit ·)
    if c = 0x5b ∧ ds ≠ [] ∧ (cs.drop ds.length).head? = some 0x5d ∧ Decimal.value 0 ds < 2 ^ 31 then
      Decimal.value 0 ds
    else InvalidIndex

variable {B : AclBackend}

/-- `childNames` of a role: the keys of its rules in quotes. -/
def childNames (m : AclManager B) (role_name : Bytes) :
    Except String (List Bytes) × AclManager B :=
  let r := m.accessRoleRules role_name
  (r.1.map fun role_rules =>
    role_rules.mapIdx fun ix rule =>
      SHV_PATH_QUOTE ::
        ruleKey (UInt32.ofNat ix) (UInt32.ofNat role_rules.length) rule ++ [SHV_PATH_QUOTE],
    r.2)

/-- `setValue` on the node itself. -/
def setValue (m : AclManager B) (params : RpcValue) :
    Except AclNodeFault RpcValue × AclManager B :=
  if params.isList then
    let role_name := (params.asList.getD 0 .invalid).asString
    let rv := params.asList.getD 1 .invalid
    match m.setAccessRoleRules role_name (.fromRpcValue rv) with
    | (.error e, m) => (.error (.exception (ascii e)), m)
    | (.ok (), m) => (.ok (.ofVariant (.bool true)), m)
  else (.error (.exception (ascii "Invalid parameters, method: " ++ M_SET_VALUE)), m)

/-- `callMethod`. -/
def callMethod (m : AclManager B) (shv_path : List Bytes) (method : Bytes) (params : RpcValue) :
    Except AclNodeFault RpcValue × AclManager B :=
  let text (s : Bytes) : RpcValue := .ofVariant (.string s)
  match shv_path with
  | [] => if method = M_SET_VALUE then setValue m params else (.error .elsewhere, m)
  | [role_name] =>
    if method = M_VALUE then
      match m.accessRoleRules role_name with
      | (.error e, m) => (.error (.exception (ascii e)), m)
      | (.ok v, m) => (.ok v.toRpcValue, m)
    else (.error .elsewhere, m)
  | [rule_name, key] =>
    match m.accessRoleRules rule_name with
    | (.error e, m) => (.error (.exception (ascii e)), m)
    | (.ok role_rules, m) =>
      let key := removeQuotes key
      match role_rules[keyToRuleIndex key]? with
      | none => (.error (.exception (ascii "Invalid access rule key: " ++ key)), m)
      | some rule =>
        if method = M_GET_PATH_PATTERN then (.ok (text rule.path), m)
        else if method = M_GET_METHOD then (.ok (text rule.method), m)
        else if method = M_GET_GRANT then (.ok (text rule.access), m)
        -- the setters pass on the rule alone, not the rules of the role
        else if method = M_SET_PATH_PATTERN then
          let rule := { rule with path := params.toString }
          setValue m (.ofVariant (.list [text rule_name, rule.toRpcValue]))
        else if method = M_SET_METHOD then
          let rule := { rule with method := params.toString }
          setValue m (.ofVariant (.list [text rule_name, rule.toRpcValue]))
        else if method = M_SET_GRANT then
          let rule := { rule with access := params.asString }
          setValue m (.ofVariant (.list [text rule_name, rule.toRpcValue]))
        else (.error .elsewhere, m)
  | _ => (.error .elsewhere, m)

/-! ## keys -/

theorem value_replicate_zero (n : Nat) (ds : Bytes) :
    Decimal.value 0 (List.replicate n 0x30 ++ ds) = Decimal.value 0 ds := by
  induction n with
  | zero => rfl
  | succ n ih => rw [List.replicate_succ, List.cons_append, Decimal.value_cons]; exact ih

theorem value_padded (width n : Nat) : Decimal.value 0 (padded width n) = n := by
  rw [padded, value_replicate_zero, Decimal.value_digits]

theorem isDigit_of_mem_padded {width n : Nat} {b : UInt8} (h : b ∈ padded width n) :
    Decimal.IsDigit b := by
  obtain h | h := List.mem_append.mp h
  · rw [List.eq_of_mem_replicate h]
    decide
  · exact Decimal.isDigit_of_mem_digits h

theorem padded_ne_nil (width n : Nat) : padded width n ≠ [] := by
  simp [padded, Decimal.digits_ne_nil]

/-- The index of a rule is read back from its key, if it is an `int`. -/
theorem keyToRuleIndex_ruleKey (rule_ix rules_cnt : UInt32) (rule : AclAccessRule) :
    keyToRuleIndex (ruleKey rule_ix rules_cnt rule) =
      if rule_ix.toNat < 2 ^ 31 then rule_ix.toNat else InvalidIndex := by
  generalize hw : keyWidth rules_cnt.toNat = width
  have hkey : ∃ rest, ruleKey rule_ix rules_cnt rule =
      0x5b :: (padded width rule_ix.toNat ++ 0x5d :: rest) := by
    refine ⟨0x20 :: (rule.path ++
      if rule.method = [] then [] else SHV_PATH_METHOD_DELIM :: rule.method), ?_⟩
    simp only [ruleKey, hw, List.append_assoc]
    rfl
  obtain ⟨rest, hkey⟩ := hkey
  have hdigits : (padded width rule_ix.toNat ++ 0x5d :: rest).takeWhile
      (decide <| Decimal.IsDigit ·) = padded width rule_ix.toNat := by
    rw [List.takeWhile_append_of_pos fun b hb => by simpa using isDigit_of_mem_padded hb]
    rw [List.takeWhile_cons_of_neg (by decide), List.append_nil]
  rw [hkey, keyToRuleIndex]
  simp only [hdigits, List.drop_left, List.head?_cons, value_padded]
  simp [padded_ne_nil]

theorem removeQuotes_quoted (key : Bytes) :
    removeQuotes (SHV_PATH_QUOTE :: key ++ [SHV_PATH_QUOTE]) = key := by
  rw [removeQuotes, if_pos ⟨by simp, rfl, List.getLast?_concat⟩, List.cons_append, List.tail_cons,
    List.dropLast_concat]

theorem removeQuotes_ruleKey (rule_ix rules_cnt : UInt32) (rule : AclAccessRule) :
    removeQuotes (ruleKey rule_ix rules_cnt rule) = ruleKey rule_ix rules_cnt rule := by
  rw [removeQuotes, if_neg]
  rintro ⟨-, hhead, -⟩
  simp [ruleKey, ascii, SHV_PATH_QUOTE] at hhead

/-! ## editing a rule -/

/-- The fields of a rule. -/
inductive RuleField where
  | pathPattern
  | method
  | grant

namespace RuleField

/-- The method that sets the field. -/
def setter : RuleField → Bytes
  | pathPattern => M_SET_PATH_PATTERN
  | method => M_SET_METHOD
  | grant => M_SET_GRANT

def get (rule : AclAccessRule) : RuleField → Bytes
  | pathPattern => rule.path
  | method => rule.method
  | grant => rule.access

def set (rule : AclAccessRule) (v : Bytes) : RuleField → AclAccessRule
  | pathPattern => { rule with path := v }
  | method => { rule with method := v }
  | grant => { rule with access := v }

/-- A rule stays as it is if a field is set to what it is. -/
theorem set_eq_self_iff (field : RuleField) (rule : AclAccessRule) (v : Bytes) :
    field.set rule v = rule ↔ v = field.get rule := by
  cases field <;> cases rule <;> simp [set, get]

end RuleField

/-- The rules of a role as they are stored, none if the role is not listed. -/
def storedRules (t : B.Rules) (role : Bytes) : Except String AclRoleAccessRules :=
  match B.rules.keys t with
  | .error e => .error e
  | .ok ks => if role ∈ ks then B.rules.fetch t role else .ok []

/-- A role whose rules are taken away has none, and rules that cannot be taken away stay. -/
structure ClearsRules (B : AclBackend) : Prop where
  cleared : ∀ t role t', B.rules.set t role [] = (.ok (), t') → storedRules t' role = .ok []
  refused : ∀ t role e t', B.rules.set t role [] = (.error e, t') → t' = t

/-- Exactly the field of the rule has the new value: the other rules of the role and the rules
of the other roles are those from before. -/
structure EditsOneRule (m : AclManager B) (role : Bytes) (rules : AclRoleAccessRules) (i : Nat)
    (field : RuleField) (v : Bytes) (m' : AclManager B) : Prop where
  rules : (m'.accessRoleRules role).1 = .ok (rules.modify i (field.set · v))
  others : ∀ role' ≠ role, (m'.accessRoleRules role').1 = (m.accessRoleRules role').1

section

variable {asked : AskedRoles} {m : AclManager B} {role : Bytes}
  {rules : AclRoleAccessRules}

theorem accessRoleRules_eq (hm : m.Coherent asked) (role : Bytes) :
    (m.accessRoleRules role).1 = storedRules m.data.rules role := by
  rw [(AclManager.accessRoleRules_eq_answer hm role).1, storedRules, LazyMap.Source.answer]
  simp only [AclManager.rulesSource]
  cases B.rules.keys m.data.rules with
  | error e => rfl
  | ok ks =>
    by_cases hrole : role ∈ ks
    · simp only [hrole, if_true]
      cases B.rules.fetch m.data.rules role <;> rfl
    · simp [hrole, Except.map, AclManager.blankRules]

/-- The rules of a role that are put in place by a setter are none. -/
theorem setValue_rule (m : AclManager B) (role : Bytes) (rule : AclAccessRule) :
    (setValue m (.ofVariant (.list [.ofVariant (.string role), rule.toRpcValue]))).2 =
      (m.setAccessRoleRules role []).2 := by
  have hvalue : setValue m (.ofVariant (.list [.ofVariant (.string role), rule.toRpcValue])) =
      match m.setAccessRoleRules role [] with
      | (.error e, m) => (.error (.exception (ascii e)), m)
      | (.ok (), m) => (.ok (.ofVariant (.bool true)), m) := rfl
  rw [hvalue]
  cases m.setAccessRoleRules role [] with
  | mk r m' => cases r <;> rfl

/-- A setter takes the rules of the role away, if the key leads to a rule. -/
theorem callMethod_setter (hrules : (m.accessRoleRules role).1 = .ok rules) (field : RuleField)
    (key : Bytes) (params : RpcValue) :
    (callMethod m [role, key] field.setter params).2 =
      if keyToRuleIndex (removeQuotes key) < rules.length then
        ((m.accessRoleRules role).2.setAccessRoleRules role []).2
      else (m.accessRoleRules role).2 := by
  have hread : m.accessRoleRules role = (.ok rules, (m.accessRoleRules role).2) :=
    Prod.ext hrules rfl
  rw [callMethod]
  simp only
  rw [hread]
  simp only
  by_cases hlt : keyToRuleIndex (removeQuotes key) < rules.length
  · rw [if_pos hlt, List.getElem?_eq_getElem hlt]
    cases field
    · exact setValue_rule _ _ _
    · exact setValue_rule _ _ _
    · exact setValue_rule _ _ _
  · rw [if_neg hlt, List.getElem?_eq_none (by omega)]

/-- A key is the listed one if it is that of the rule, in quotes or not. -/
theorem removeQuotes_listed {names : List Bytes} {i : Nat} {name key : Bytes}
    (hrules : (m.accessRoleRules role).1 = .ok rules) (hnames : (childNames m role).1 = .ok names)
    (hname : names[i]? = some name) (hkey : key = name ∨ key = removeQuotes name) :
    ∃ rule, rules[i]? = some rule ∧
      removeQuotes key = ruleKey (UInt32.ofNat i) (UInt32.ofNat rules.length) rule := by
  simp only [childNames, hrules, Except.map, Except.ok.injEq] at hnames
  rw [← hnames, List.getElem?_mapIdx] at hname
  cases hrule : rules[i]? with
  | none => simp [hrule] at hname
  | some rule =>
    rw [hrule] at hname
    have hquoted := (Option.some.inj hname).symm
    refine ⟨rule, rfl, ?_⟩
    obtain rfl | rfl := hkey
    · rw [hquoted, removeQuotes_quoted]
    · rw [hquoted, removeQuotes_quoted, removeQuotes_ruleKey]

/-- The key of a rule leads to a rule, unless the index is too big for an `int` and the list too
short for `InvalidIndex`. -/
theorem keyToRuleIndex_lt_iff {i n : Nat} (hi : i < n) (rule : AclAccessRule) :
    keyToRuleIndex (ruleKey (UInt32.ofNat i) (UInt32.ofNat n) rule) < n ↔
      ¬(2 ^ 31 ≤ i ∧ n < 2 ^ 32) := by
  have hix : (UInt32.ofNat i).toNat = i % 2 ^ 32 := UInt32.toNat_ofNat'
  rw [keyToRuleIndex_ruleKey, hix, InvalidIndex]
  by_cases hint : i % 2 ^ 32 < 2 ^ 31
  · rw [if_pos hint]
    omega
  · rw [if_neg hint]
    omega

theorem modify_eq_self_iff {i : Nat} (hi : i < rules.length) (field : RuleField) (v : Bytes) :
    rules.modify i (field.set · v) = rules ↔ v = field.get rules[i] := by
  rw [← field.set_eq_self_iff]
  refine ⟨fun h => ?_, fun h => List.ext_getElem? fun k => ?_⟩
  · have hget := congrArg (·[i]?) h
    simpa [List.getElem?_modify, hi] using hget
  · by_cases hk : i = k
    · subst hk
      simp [hi, h]
    · simp [hk]

/-- Where nothing changes, a rule is edited if the field had the value before. -/
theorem editsOneRule_unchanged_iff (hm : AclManager.Coherent asked m)
    (hrules : (m.accessRoleRules role).1 = .ok rules) {i : Nat} (hi : i < rules.length)
    (field : RuleField) (v : Bytes) :
    EditsOneRule m role rules i field v (m.accessRoleRules role).2 ↔ v = field.get rules[i] := by
  have hsame (role' : Bytes) :
      ((m.accessRoleRules role).2.accessRoleRules role').1 = (m.accessRoleRules role').1 := by
    rw [accessRoleRules_eq (AclManager.accessRoleRules_eq_answer hm role).2, accessRoleRules_eq hm]
    rfl
  rw [← modify_eq_self_iff hi]
  refine ⟨fun h => ?_, fun h => ⟨?_, fun role' _ => hsame role'⟩⟩
  · have hread := h.rules
    rw [hsame, hrules] at hread
    exact (Except.ok.inj hread).symm
  · rw [hsame, hrules, h]

/-- A setter of the node of a rule edits the rule only where nothing is stored and nothing has
to be: the field has the value already, and the rules cannot be taken away or the index is too
big. Otherwise the role has no rules any more. -/
theorem editsOneRule_iff (hB : ClearsRules B) (hm : AclManager.Coherent asked m)
    (hrules : (m.accessRoleRules role).1 = .ok rules) {i : Nat} (hi : i < rules.length)
    {names : List Bytes} (hnames : (childNames m role).1 = .ok names) {name key : Bytes}
    (hname : names[i]? = some name) (hkey : key = name ∨ key = removeQuotes name)
    (field : RuleField) (params : RpcValue) :
    EditsOneRule m role rules i field params.asString
        (callMethod m [role, key] field.setter params).2 ↔
      params.asString = field.get rules[i] ∧
        ((2 ^ 31 ≤ i ∧ rules.length < 2 ^ 32) ∨
          ∃ e, (B.rules.set m.data.rules role []).1 = .error e) := by
  obtain ⟨rule, -, hruleKey⟩ := removeQuotes_listed hrules hnames hname hkey
  have hunchanged := editsOneRule_unchanged_iff hm hrules hi field params.asString
  rw [callMethod_setter hrules, hruleKey]
  by_cases hbig : 2 ^ 31 ≤ i ∧ rules.length < 2 ^ 32
  · have hnot : ¬ keyToRuleIndex (ruleKey (UInt32.ofNat i) (UInt32.ofNat rules.length) rule) <
        rules.length := fun hlt => (keyToRuleIndex_lt_iff hi rule).mp hlt hbig
    rw [if_neg hnot, hunchanged]
    exact (and_iff_left (.inl hbig)).symm
  · rw [if_pos ((keyToRuleIndex_lt_iff hi rule).mpr hbig)]
    have hm₁ := (AclManager.accessRoleRules_eq_answer hm role).2
    have hdata : (m.accessRoleRules role).2.data = m.data := rfl
    cases hset : B.rules.set m.data.rules role [] with
    | mk r t =>
      cases r with
      | error e =>
        -- refused, and everything is as it was
        obtain rfl := hB.refused _ _ _ _ hset
        have hsame : ((m.accessRoleRules role).2.setAccessRoleRules role []).2 =
            (m.accessRoleRules role).2 := by
          simp only [AclManager.setAccessRoleRules, hdata, hset]
          rfl
        rw [hsame, hunchanged]
        simp
      | ok u =>
        refine iff_of_false (fun hedit => ?_) ?_
        · have hatomic : (AclOp.setAccessRoleRules role []).AtomicIn
              (m.accessRoleRules role).2.data := by
            intro e t' herror
            rw [hdata] at herror
            exact hB.refused _ _ _ _ herror
          have hread := hedit.rules
          rw [accessRoleRules_eq (AclManager.coherent_setAccessRoleRules hm₁ hatomic)] at hread
          have hstored : ((m.accessRoleRules role).2.setAccessRoleRules role []).2.data.rules = t := by
            simp only [AclManager.setAccessRoleRules, hdata, hset]
          rw [hstored, hB.cleared _ _ _ hset] at hread
          have hlength := congrArg List.length (Except.ok.inj hread)
          rw [List.length_modify, List.length_nil] at hlength
          omega
        · rintro ⟨-, hlarge | ⟨e, he⟩⟩
          · exact hbig hlarge
          · contradiction

end

/-! ### two rules -/

def ruleA : AclAccessRule := ⟨ascii "a", [], ascii "rd"⟩
def ruleB : AclAccessRule := ⟨ascii "b", [], ascii "wr"⟩

/-- A role with two rules. -/
def twoRules : AclData .configFiles where
  mounts := []
  users := []
  roles := []
  rules := [(ascii "r", [ruleA, ruleB])]

/-- The name of the node of the first rule. -/
def nameOfRuleA : Bytes := SHV_PATH_QUOTE :: ruleKey 0 2 ruleA ++ [SHV_PATH_QUOTE]

theorem clearsRules_configFiles : ClearsRules .configFiles where
  cleared t role t' h := by
    have herror := congrArg Prod.fst h
    contradiction
  refused t role e t' h := (congrArg Prod.snd h).symm

/-- Rules in files stay, so the grant that a rule has can be set. -/
theorem editsOneRule_sameGrant :
    EditsOneRule ⟨twoRules, .empty, [], []⟩ (ascii "r") [ruleA, ruleB] 0 .grant (ascii "rd")
      (callMethod ⟨twoRules, .empty, [], []⟩ [ascii "r", nameOfRuleA] M_SET_GRANT
        (.ofVariant (.string (ascii "rd")))).2 :=
  (editsOneRule_iff clearsRules_configFiles (AclManager.coherent_empty twoRules [] []) rfl
    (by decide) rfl rfl (.inl rfl) .grant (.ofVariant (.string (ascii "rd")))).mpr
    ⟨rfl, .inr ⟨_, rfl⟩⟩

/-- Rules in memory. -/
def rulesInMemory : AclTable (List (Bytes × AclRoleAccessRules)) AclRoleAccessRules
    AclRoleAccessRules where
  keys t := .ok (t.map (·.1))
  fetch t role := .ok ((SortedMap.find? role t).getD [])
  set t role rules := (.ok (), SortedMap.insert role rules t)

def rulesMemory : AclBackend := { AclBackend.configFiles with
  Rules := List (Bytes × AclRoleAccessRules)
  rules := rulesInMemory }

def twoRulesInMemory : AclManager rulesMemory :=
  ⟨⟨[], [], [], twoRules.rules⟩, .empty, [], []⟩

/-- The grant of one of two valid rules is set, and none is left. -/
theorem not_editsOneRule :
    (twoRulesInMemory.accessRoleRules (ascii "r")).1 = .ok [ruleA, ruleB] ∧
      (∀ rule ∈ [ruleA, ruleB], rule.isValid = true) ∧
      (childNames twoRulesInMemory (ascii "r")).1.map (·[0]?) = .ok (some nameOfRuleA) ∧
      ¬EditsOneRule twoRulesInMemory (ascii "r") [ruleA, ruleB] 0 .grant (ascii "cmd")
        (callMethod twoRulesInMemory [ascii "r", nameOfRuleA] M_SET_GRANT
          (.ofVariant (.string (ascii "cmd")))).2 := by
  refine ⟨rfl, by decide, rfl, fun hedit => ?_⟩
  have hset := @callMethod_setter _ twoRulesInMemory (ascii "r") [ruleA, ruleB] rfl .grant
    nameOfRuleA (.ofVariant (.string (ascii "cmd")))
  have hlt : keyToRuleIndex (ruleKey 0 2 ruleA) < [ruleA, ruleB].length :=
    (@keyToRuleIndex_lt_iff 0 2 (by decide) ruleA).mpr (by decide)
  rw [nameOfRuleA, removeQuotes_quoted, if_pos hlt] at hset
  have hread := hedit.rules
  change ((callMethod twoRulesInMemory [ascii "r", nameOfRuleA] (RuleField.setter .grant)
    (.ofVariant (.string (ascii "cmd")))).2.accessRoleRules (ascii "r")).1 = _ at hread
  rw [nameOfRuleA, hset] at hread
  have hnone : (((twoRulesInMemory.accessRoleRules (ascii "r")).2.setAccessRoleRules
      (ascii "r") []).2.accessRoleRules (ascii "r")).1 = .ok [] := rfl
  rw [hnone] at hread
  exact absurd (Except.ok.inj hread) (by decide)

end AccessAclNode

end LibShv
