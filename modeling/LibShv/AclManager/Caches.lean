import LibShv.AclManager

/-!
# LibShv.AclManager.Caches

What the caches of the manager hold, over every order of changes and questions.
The caches of definitions always hold what is stored. The cache of flattened
roles is keyed by a name alone: it is right as long as one name always stands
for the same roles and no role fails to be read.
-/

namespace LibShv

/-! ## operations -/

/-- The public methods of `AclManager` that change or ask something. -/
inductive AclOp (B : AclBackend) where
  | setMountDef (device_id : Bytes) (v : AclMountDef)
  | setUser (user_name : Bytes) (u : AclUser)
  | setRole (role_name : Bytes) (v : Option AclRole)
  | setAccessRoleRules (role_name : Bytes) (v : AclRoleAccessRules)
  | setGroupForAzureUser (user_name : Bytes) (group_name : List Bytes)
  | setGroupForLdapUser (user_name : Bytes) (group_name : List Bytes)
  | clearCache
  | reload (data : AclData B)
  | mountDeviceIds
  | users
  | roles
  | accessRoles
  | mountDef (device_id : Bytes)
  | user (user_name : Bytes)
  | role (role_name : Bytes)
  | accessRoleRules (role_name : Bytes)
  | userFlattenRoles (user_name : Bytes) (roles : List Bytes)
  | flattenRole (role : Bytes)
  | ldapUserFlattenRoles (user_name : Bytes) (roles : List Bytes)
  | azureUserFlattenRoles (user_name : Bytes) (roles : List Bytes)

/-- What a method returns. -/
inductive AclAnswer where
  | done
  | names (ns : List Bytes)
  | mountDef (md : AclMountDef)
  | user (u : AclUser)
  | role (r : AclRole)
  | rules (rs : AclRoleAccessRules)

namespace AclManager

variable {B : AclBackend}

/-- An operation: its answer, or the exception, and the manager after it. -/
def step (m : AclManager B) : AclOp B → Except String AclAnswer × AclManager B
  | .setMountDef device_id v => (m.setMountDef device_id v).map (·.map fun _ => .done) id
  | .setUser user_name u => (m.setUser user_name u).map (·.map fun _ => .done) id
  | .setRole role_name v => (m.setRole role_name v).map (·.map fun _ => .done) id
  | .setAccessRoleRules role_name v =>
    (m.setAccessRoleRules role_name v).map (·.map fun _ => .done) id
  | .setGroupForAzureUser user_name group_name =>
    (.ok .done, m.setGroupForAzureUser user_name group_name)
  | .setGroupForLdapUser user_name group_name =>
    (.ok .done, m.setGroupForLdapUser user_name group_name)
  | .clearCache => (.ok .done, m.clearCache)
  | .reload data => (.ok .done, m.reload data)
  | .mountDeviceIds => m.mountDeviceIds.map (·.map .names) id
  | .users => m.users.map (·.map .names) id
  | .roles => m.roles.map (·.map .names) id
  | .accessRoles => m.accessRoles.map (·.map .names) id
  | .mountDef device_id => (m.mountDef device_id).map (·.map .mountDef) id
  | .user user_name => (m.user user_name).map (·.map .user) id
  | .role role_name => (m.role role_name).map (·.map .role) id
  | .accessRoleRules role_name => (m.accessRoleRules role_name).map (·.map .rules) id
  | .userFlattenRoles user_name rs => (m.userFlattenRoles user_name rs).map (·.map .names) id
  | .flattenRole role => (m.flattenRole role).map (·.map .names) id
  | .ldapUserFlattenRoles user_name rs =>
    (m.ldapUserFlattenRoles user_name rs).map (·.map .names) id
  | .azureUserFlattenRoles user_name rs =>
    (m.azureUserFlattenRoles user_name rs).map (·.map .names) id

end AclManager

/-! ## histories -/

/-- The roles that were flattened first under a key since the cache was emptied. -/
abbrev AskedRoles := Bytes → Option (List Bytes)

namespace AclOp

variable {B : AclBackend}

/-- The key and the roles of a question for flattened roles. -/
def flattens : AclOp B → Option (Bytes × List Bytes)
  | .userFlattenRoles user_name rs => some (user_name, rs)
  | .flattenRole r => some (AclManager.roleKey r, [r])
  | .ldapUserFlattenRoles user_name rs => some (AclManager.ldapKey user_name, rs)
  | .azureUserFlattenRoles user_name rs => some (AclManager.azureKey user_name, rs)
  | _ => none

/-- The questions the property is about. -/
def isQuery : AclOp B → Bool
  | .user _ | .role _ | .accessRoleRules _ => true
  | op => op.flattens.isSome

/-- An operation that empties the cache of flattened roles, unless it throws. -/
def clears : AclOp B → Bool
  | .setUser _ _ | .setRole _ _ | .clearCache | .reload _ => true
  | _ => false

/-- The history after an operation. -/
def note (op : AclOp B) (threw : Bool) (asked : AskedRoles) : AskedRoles :=
  if op.clears && !threw then fun _ => none
  else
    match op.flattens with
    | some (key, rs) => fun k => if k = key then some ((asked k).getD rs) else asked k
    | none => asked

/-- A setter that throws has not changed what is stored. -/
def AtomicIn (op : AclOp B) (data : AclData B) : Prop :=
  match op with
  | .setMountDef device_id v => ∀ e t, B.mounts.set data.mounts device_id v = (.error e, t) →
    t = data.mounts
  | .setUser user_name u => ∀ e t, B.users.set data.users user_name u = (.error e, t) →
    t = data.users
  | .setRole role_name v => ∀ e t, B.roles.set data.roles role_name v = (.error e, t) →
    t = data.roles
  | .setAccessRoleRules role_name v => ∀ e t, B.rules.set data.rules role_name v = (.error e, t) →
    t = data.rules
  | _ => True

/-- What keeps the caches right: the roles asked with a key stay the same until the
cache is emptied, they can be read with all their subroles, and a setter that
throws changes nothing. -/
structure Admissible (op : AclOp B) (asked : AskedRoles) (data : AclData B) : Prop where
  sameRoles : ∀ key rs, op.flattens = some (key, rs) → ∀ rs', asked key = some rs' → rs' = rs
  readable : ∀ key rs, op.flattens = some (key, rs) → B.Readable data.roles rs
  atomic : op.AtomicIn data

end AclOp

/-- The states of runs whose steps are all admissible, with their histories. -/
inductive Reached {B : AclBackend} : AskedRoles → AclManager B → Prop where
  | start (data : AclData B) : Reached (fun _ => none) ⟨data, .empty, [], []⟩
  | step {asked : AskedRoles} {m : AclManager B} (h : Reached asked m) (op : AclOp B)
    (hop : op.Admissible asked m.data) :
    Reached (op.note (!(m.step op).1.isOk) asked) (m.step op).2

namespace AclManager

variable {B : AclBackend} {asked : AskedRoles} {m : AclManager B}

/-! ## the invariant -/

/-- The caches hold what is stored. A list of flattened roles is that of the
roles its key was asked with. -/
structure Coherent (asked : AskedRoles) (m : AclManager B) : Prop where
  mountDefs : LazyMap.Coherent (B.mounts.source m.data.mounts) blankMountDef m.m_cache.aclMountDefs
  users : LazyMap.Coherent (B.users.source m.data.users) blankUser m.m_cache.aclUsers
  roles : LazyMap.Coherent (B.roles.source m.data.roles) blankRole m.m_cache.aclRoles
  rules : LazyMap.Coherent m.rulesSource blankRules m.m_cache.aclAccessRules
  flattenRoles : ∀ key flat, SortedMap.find? key m.m_cache.userFlattenRoles = some flat →
    ∃ rs, asked key = some rs ∧ B.flatten m.data.roles rs = (none, flat)

theorem coherent_empty (data : AclData B) (groups groups' : List (Bytes × List Bytes)) :
    Coherent (fun _ => none) ⟨data, .empty, groups, groups'⟩ where
  mountDefs := LazyMap.coherent_nil _ _
  users := LazyMap.coherent_nil _ _
  roles := LazyMap.coherent_nil _ _
  rules := LazyMap.coherent_nil _ _
  flattenRoles _ _ h := by contradiction

theorem blankMountDef_lawful : blankMountDef.Lawful := rfl
theorem blankUser_lawful : blankUser.Lawful := rfl
theorem blankRole_lawful : blankRole.Lawful := rfl
theorem blankRules_lawful : blankRules.Lawful := rfl

/-! ## questions for definitions -/

theorem coherent_mountDef (h : Coherent asked m) (device_id : Bytes) :
    Coherent asked (m.mountDef device_id).2 :=
  { h with mountDefs := (LazyMap.lookup_eq_answer blankMountDef_lawful h.mountDefs device_id).2 }

theorem user_eq_answer (h : Coherent asked m) (user_name : Bytes) :
    (m.user user_name).1 = (B.users.source m.data.users).answer blankUser user_name ∧
      Coherent asked (m.user user_name).2 := by
  obtain ⟨heq, hc⟩ := LazyMap.lookup_eq_answer blankUser_lawful h.users user_name
  exact ⟨heq, { h with users := hc }⟩

theorem role_eq_answer (h : Coherent asked m) (role_name : Bytes) :
    (m.role role_name).1 = (B.roles.source m.data.roles).answer blankRole role_name ∧
      Coherent asked (m.role role_name).2 := by
  obtain ⟨heq, hc⟩ := LazyMap.lookup_eq_answer blankRole_lawful h.roles role_name
  exact ⟨heq, { h with roles := hc }⟩

theorem accessRoleRules_eq_answer (h : Coherent asked m) (role_name : Bytes) :
    (m.accessRoleRules role_name).1 = (m.rulesSource.answer blankRules role_name).map (·.1) ∧
      Coherent asked (m.accessRoleRules role_name).2 := by
  obtain ⟨heq, hc⟩ := LazyMap.lookup_eq_answer blankRules_lawful h.rules role_name
  refine ⟨?_, { h with rules := hc }⟩
  rw [accessRoleRules, heq]

/-! ## questions for flattened roles -/

theorem userFlattenRoles_eq_flatten (h : Coherent asked m) (key : Bytes) {rs : List Bytes}
    (hsame : ∀ rs', asked key = some rs' → rs' = rs)
    (hread : B.Readable m.data.roles rs) :
    (m.userFlattenRoles key rs).1 = .ok (B.flatten m.data.roles rs).2 ∧
      Coherent (fun k => if k = key then some ((asked k).getD rs) else asked k)
        (m.userFlattenRoles key rs).2 := by
  have hnone := (B.flatten_breadthFirst m.data.roles hread).1
  have hflat : B.flatten m.data.roles rs = (none, (B.flatten m.data.roles rs).2) :=
    Prod.ext hnone rfl
  have hkey : (asked key).getD rs = rs := by
    cases ha : asked key with
    | none => rfl
    | some rs' => exact hsame rs' ha
  have hnote : ∀ k flat, (∃ rs', asked k = some rs' ∧ B.flatten m.data.roles rs' = (none, flat)) →
      ∃ rs', (if k = key then some ((asked k).getD rs) else asked k) = some rs' ∧
        B.flatten m.data.roles rs' = (none, flat) := by
    rintro k flat ⟨rs', ha, hf⟩
    refine ⟨rs', ?_, hf⟩
    by_cases hk : k = key
    · rw [if_pos hk, ha, Option.getD_some]
    · rw [if_neg hk, ha]
  rw [userFlattenRoles]
  cases hfind : SortedMap.find? key m.m_cache.userFlattenRoles with
  | some flat =>
    obtain ⟨rs', ha, hf⟩ := h.flattenRoles key flat hfind
    rw [hsame rs' ha] at hf
    refine ⟨by rw [hf], { h with flattenRoles := fun k f hk => hnote k f (h.flattenRoles k f hk) }⟩
  | none =>
    refine ⟨by simp only [hnone], { h with flattenRoles := fun k f hk => ?_ }⟩
    by_cases hkk : k = key
    · rw [hkk] at hk ⊢
      rw [SortedMap.find?_insert_self, Option.some.injEq] at hk
      exact ⟨rs, by rw [if_pos rfl, hkey], by rw [← hk]; exact hflat⟩
    · rw [SortedMap.find?_insert_of_ne hkk] at hk
      exact hnote k f (h.flattenRoles k f hk)

/-! ## changes -/

theorem coherent_setMountDef (h : Coherent asked m) {device_id : Bytes} {v : AclMountDef}
    (hatomic : (AclOp.setMountDef device_id v).AtomicIn m.data) :
    Coherent asked (m.setMountDef device_id v).2 := by
  rw [setMountDef]
  cases hset : B.mounts.set m.data.mounts device_id v with
  | mk r t =>
    cases r with
    | error e =>
      obtain rfl := hatomic e t hset
      exact h
    | ok u => exact { h with mountDefs := LazyMap.coherent_nil _ _ }

theorem coherent_setAccessRoleRules (h : Coherent asked m) {role_name : Bytes}
    {v : AclRoleAccessRules} (hatomic : (AclOp.setAccessRoleRules role_name v).AtomicIn m.data) :
    Coherent asked (m.setAccessRoleRules role_name v).2 := by
  rw [setAccessRoleRules]
  cases hset : B.rules.set m.data.rules role_name v with
  | mk r t =>
    cases r with
    | error e =>
      obtain rfl := hatomic e t hset
      exact h
    | ok u => exact { h with rules := LazyMap.coherent_nil _ _ }

theorem coherent_setUser (h : Coherent asked m) {user_name : Bytes} {u : AclUser}
    (hatomic : (AclOp.setUser user_name u).AtomicIn m.data) :
    Coherent (if (m.setUser user_name u).1.isOk then fun _ => none else asked)
      (m.setUser user_name u).2 := by
  rw [setUser]
  cases hset : B.users.set m.data.users user_name u with
  | mk r t =>
    cases r with
    | error e =>
      obtain rfl := hatomic e t hset
      exact h
    | ok _ => exact { h with users := LazyMap.coherent_nil _ _, flattenRoles := by simp [SortedMap.find?] }

theorem coherent_setRole (h : Coherent asked m) {role_name : Bytes} {v : Option AclRole}
    (hatomic : (AclOp.setRole role_name v).AtomicIn m.data) :
    Coherent (if (m.setRole role_name v).1.isOk then fun _ => none else asked)
      (m.setRole role_name v).2 := by
  rw [setRole]
  cases hset : B.roles.set m.data.roles role_name v with
  | mk r t =>
    cases r with
    | error e =>
      obtain rfl := hatomic e t hset
      exact h
    | ok _ => exact { h with roles := LazyMap.coherent_nil _ _, flattenRoles := by simp [SortedMap.find?] }

/-! ## one step -/

theorem isOk_map {α β : Type} (f : α → β) (x : Except String α) : (x.map f).isOk = x.isOk := by
  cases x <;> rfl

/-- A question for flattened roles is a question of `userFlattenRoles`. -/
theorem step_of_flattens {op : AclOp B} {key : Bytes} {rs : List Bytes}
    (hop : op.flattens = some (key, rs)) (m : AclManager B) :
    m.step op = (m.userFlattenRoles key rs).map (·.map .names) id := by
  cases op <;> first
    | contradiction
    | (simp only [AclOp.flattens, Option.some.injEq, Prod.mk.injEq] at hop
       obtain ⟨rfl, rfl⟩ := hop
       rfl)

/-- Every admissible operation keeps the caches coherent. -/
theorem coherent_step (h : Coherent asked m) (op : AclOp B) (hop : op.Admissible asked m.data) :
    Coherent (op.note (!(m.step op).1.isOk) asked) (m.step op).2 := by
  cases hf : op.flattens with
  | some kr =>
    obtain ⟨key, rs⟩ := kr
    have hclears : op.clears = false := by cases op <;> first | rfl | contradiction
    rw [AclOp.note, hclears, hf, step_of_flattens hf]
    exact (userFlattenRoles_eq_flatten h key (hop.sameRoles key rs hf) (hop.readable key rs hf)).2
  | none =>
    cases op with
    | setMountDef device_id v => exact coherent_setMountDef h hop.atomic
    | setAccessRoleRules role_name v => exact coherent_setAccessRoleRules h hop.atomic
    | setUser user_name u =>
      have := coherent_setUser h hop.atomic
      simp only [AclOp.note, AclOp.clears, Bool.true_and, Bool.not_not, step, Prod.map, isOk_map]
      exact this
    | setRole role_name v =>
      have := coherent_setRole h hop.atomic
      simp only [AclOp.note, AclOp.clears, Bool.true_and, Bool.not_not, step, Prod.map, isOk_map]
      exact this
    | setGroupForAzureUser user_name group_name => exact { h with }
    | setGroupForLdapUser user_name group_name => exact { h with }
    | clearCache => exact coherent_empty m.data _ _
    | reload data => exact coherent_empty data _ _
    | mountDeviceIds =>
      exact { h with mountDefs := LazyMap.coherent_enter blankMountDef_lawful h.mountDefs }
    | users => exact { h with users := LazyMap.coherent_enter blankUser_lawful h.users }
    | roles => exact { h with roles := LazyMap.coherent_enter blankRole_lawful h.roles }
    | accessRoles => exact { h with rules := LazyMap.coherent_enter blankRules_lawful h.rules }
    | mountDef device_id => exact coherent_mountDef h device_id
    | user user_name => exact (user_eq_answer h user_name).2
    | role role_name => exact (role_eq_answer h role_name).2
    | accessRoleRules role_name => exact (accessRoleRules_eq_answer h role_name).2
    | userFlattenRoles user_name rs => contradiction
    | flattenRole r => contradiction
    | ldapUserFlattenRoles user_name rs => contradiction
    | azureUserFlattenRoles user_name rs => contradiction

/-- With coherent caches a question is answered as with empty ones. -/
theorem answer_eq_of_coherent (h : Coherent asked m) (op : AclOp B) (hquery : op.isQuery = true)
    (hop : op.Admissible asked m.data) : (m.step op).1 = (m.clearCache.step op).1 := by
  have hempty : Coherent (fun _ => none) m.clearCache := coherent_empty m.data _ _
  cases hf : op.flattens with
  | some kr =>
    obtain ⟨key, rs⟩ := kr
    have hread := hop.readable key rs hf
    have heq := (userFlattenRoles_eq_flatten h key (hop.sameRoles key rs hf) hread).1
    have hnew : ∀ rs', (none : Option (List Bytes)) = some rs' → rs' = rs := by simp
    have heq' := (userFlattenRoles_eq_flatten hempty key hnew hread).1
    rw [step_of_flattens hf, step_of_flattens hf, Prod.map_fst, Prod.map_fst, heq, heq']
    rfl
  | none =>
    cases op with
    | user user_name =>
      exact congrArg (Except.map _)
        ((user_eq_answer h user_name).1.trans (user_eq_answer hempty user_name).1.symm)
    | role role_name =>
      exact congrArg (Except.map _)
        ((role_eq_answer h role_name).1.trans (role_eq_answer hempty role_name).1.symm)
    | accessRoleRules role_name =>
      exact congrArg (Except.map _) ((accessRoleRules_eq_answer h role_name).1.trans
        (accessRoleRules_eq_answer hempty role_name).1.symm)
    | _ => contradiction

end AclManager

/-! ## runs -/

theorem Reached.coherent {B : AclBackend} {asked : AskedRoles} {m : AclManager B}
    (h : Reached asked m) : m.Coherent asked := by
  induction h with
  | start data => exact AclManager.coherent_empty data _ _
  | step h op hop ih => exact AclManager.coherent_step ih op hop

/-- In every state of such a run every question is answered as on empty caches. -/
theorem answer_eq_fresh {B : AclBackend} {asked : AskedRoles} {m : AclManager B}
    (h : Reached asked m) (op : AclOp B) (hquery : op.isQuery = true)
    (hop : op.Admissible asked m.data) : (m.step op).1 = (m.clearCache.step op).1 :=
  AclManager.answer_eq_of_coherent h.coherent op hquery hop

/-- No definitions at all, in files. -/
def AclData.none : AclData .configFiles := ⟨[], [], [], []⟩

/-- A manager over no definitions that has flattened the roles of one user. -/
def flattenedOnce (user_name : Bytes) (rs : List Bytes) : AclManager .configFiles :=
  (AclManager.step ⟨.none, .empty, [], []⟩ (.userFlattenRoles user_name rs)).2

theorem answer_eq_fresh_flattenedOnce :
    ((flattenedOnce (ascii "u") [ascii "b"]).step (.flattenRole (ascii "a"))).1 =
      ((flattenedOnce (ascii "u") [ascii "b"]).clearCache.step (.flattenRole (ascii "a"))).1 :=
  answer_eq_fresh
    (.step (.start .none) (.userFlattenRoles (ascii "u") [ascii "b"])
      ⟨fun _ _ _ _ h => by contradiction, fun _ _ _ _ _ => ⟨_, rfl⟩, trivial⟩)
    _ rfl
    ⟨fun key rs hf rs' h => by
        simp only [AclOp.flattens, Option.some.injEq, Prod.mk.injEq] at hf
        rw [← hf.1] at h
        change none = some rs' at h
        contradiction,
      fun _ _ _ _ _ => ⟨_, rfl⟩, trivial⟩

/-- A user whose name is the key of a role decides what the role flattens to. -/
theorem flattenRole_stale :
    ((flattenedOnce (ascii "_Role#Key:a") [ascii "b"]).step (.flattenRole (ascii "a"))).1 =
        .ok (.names [ascii "b"]) ∧
      ((flattenedOnce (ascii "_Role#Key:a") [ascii "b"]).clearCache.step
        (.flattenRole (ascii "a"))).1 = .ok (.names [ascii "a"]) :=
  ⟨rfl, rfl⟩

end LibShv
