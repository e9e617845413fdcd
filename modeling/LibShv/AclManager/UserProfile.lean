import LibShv.AclManager.Access
import LibShv.Utils.MergeMaps

/-!
# LibShv.AclManager.UserProfile

The profile of a user: those of the roles, put over each other in the order of the flattened
roles. Whatever it has at the end of a path comes from the last role that says anything on the
way there.
-/

namespace LibShv.AclManager

open Utils

variable {B : AclBackend} {asked : AskedRoles}

/-- The loop of `userProfile`, with `ret` as it is so far. -/
def mergeProfiles (ret : RpcValue) : List Bytes → AclManager B → Except String RpcValue × AclManager B
  | [], m => (.ok ret, m)
  | rn :: roles, m =>
    match m.role rn with
    | (.error e, m) => (.error e, m)
    | (.ok r, m) => mergeProfiles (mergeMaps ret r.profile) roles m

/-- `AclManager::userProfile`. The groups that a user has from a login are not asked. -/
def userProfile (m : AclManager B) (user_name : Bytes) : Except String RpcValue × AclManager B :=
  match m.user user_name with
  | (.error e, m) => (.error e, m)
  | (.ok u, m) =>
    match m.userFlattenRoles user_name u.roles with
    | (.error e, m) => (.error e, m)
    | (.ok roles, m) => mergeProfiles .invalid roles m

theorem mergeProfiles_eq {m : AclManager B} (h : Coherent asked m) (ret : RpcValue)
    (profile : Bytes → RpcValue) (roles : List Bytes)
    (hprofile : ∀ name ∈ roles,
      ((B.roles.source m.data.roles).answer blankRole name).map (·.profile) = .ok (profile name)) :
    (mergeProfiles ret roles m).1 = .ok ((roles.map profile).foldl mergeMaps ret) := by
  induction roles generalizing m ret with
  | nil => rfl
  | cons name roles ih =>
    obtain ⟨hanswer, hcoherent⟩ := role_eq_answer h name
    have hname := hprofile name List.mem_cons_self
    have hdata : (m.role name).2.data = m.data := rfl
    rw [← hanswer] at hname
    rw [mergeProfiles]
    generalize m.role name = r at hname hcoherent hdata
    obtain ⟨r, m'⟩ := r
    cases r with
    | error e => contradiction
    | ok r =>
      have hr : r.profile = profile name := Except.ok.inj hname
      simp only
      rw [hr, ih hcoherent _ fun name' hname' => ?_, List.map_cons, List.foldl_cons]
      rw [hdata]
      exact hprofile name' (List.mem_cons_of_mem _ hname')

/-- What the profile of a user has at the end of a path is from the last of the roles, in the order
of a breadth-first search, that says anything on the way there. -/
theorem userProfile_lastRole (m : AclManager B) (h : Coherent asked m) {user_name : Bytes}
    {u : AclUser} (profile : Bytes → RpcValue)
    (hu : (B.users.source m.data.users).answer blankUser user_name = .ok u)
    (hsame : ∀ rs, asked user_name = some rs → rs = u.roles)
    (hread : B.Readable m.data.roles u.roles)
    (hprofile : ∀ name, Worklist.Reachable (B.graph m.data.roles) u.roles name →
      ((B.roles.source m.data.roles).answer blankRole name).map (·.profile) = .ok (profile name) ∧
        Ordered (profile name)) :
    ∃ roles v, Worklist.BreadthFirst (B.graph m.data.roles) u.roles roles ∧
      (m.userProfile user_name).1 = .ok v ∧
      ∀ path c, contentAt v path = some c ↔
        ∃ before role after, roles = before ++ role :: after ∧
          contentAt (profile role) path = some c ∧
          ∀ later ∈ after, silent (profile later) path = true := by
  obtain ⟨-, hbfs⟩ := B.flatten_breadthFirst m.data.roles hread
  have hreachable := fun name hname => hprofile name ((hbfs.mem_iff name).mp hname)
  refine ⟨_, mergeList ((B.flatten m.data.roles u.roles).2.map profile), hbfs, ?_,
    fun path c => ?_⟩
  · obtain ⟨huser, hcoherent⟩ := user_eq_answer h user_name
    rw [hu] at huser
    have hdata : (m.user user_name).2.data = m.data := rfl
    rw [userProfile]
    generalize m.user user_name = r at huser hcoherent hdata
    obtain ⟨r, m'⟩ := r
    obtain rfl : r = .ok u := huser
    simp only at hdata hcoherent ⊢
    rw [← hdata] at hread hreachable ⊢
    obtain ⟨hroles, hcoherent'⟩ :=
      userFlattenRoles_eq_flatten hcoherent user_name hsame hread
    have hdata' := data_userFlattenRoles m' user_name u.roles
    generalize m'.userFlattenRoles user_name u.roles = r at hroles hcoherent' hdata'
    obtain ⟨r, m''⟩ := r
    obtain rfl : r = .ok (B.flatten m'.data.roles u.roles).2 := hroles
    simp only at hdata' hcoherent' ⊢
    rw [← hdata'] at hreachable ⊢
    exact mergeProfiles_eq hcoherent' _ profile _ fun name hname => (hreachable name hname).1
  · rw [contentAt_mergeList fun v hv => ?_]
    · constructor
      · rintro ⟨before, v, after, heq, hv, hafter⟩
        obtain ⟨before', rest, hroles, rfl, hrest⟩ := List.map_eq_append_iff.mp heq
        obtain ⟨role, after', rfl, rfl, rfl⟩ := List.map_eq_cons_iff.mp hrest
        exact ⟨before', role, after', hroles, hv, fun later hlater =>
          hafter _ (List.mem_map_of_mem hlater)⟩
      · rintro ⟨before, role, after, hroles, hrole, hafter⟩
        refine ⟨before.map profile, profile role, after.map profile, by simp [hroles], hrole, ?_⟩
        intro w hw
        obtain ⟨later, hlater, rfl⟩ := List.mem_map.mp hw
        exact hafter later hlater
    · obtain ⟨name, hname, rfl⟩ := List.mem_map.mp hv
      exact (hreachable name hname).2

/-- A role and its subrole, which knows another language and something more of the view. -/
def profiles (name : Bytes) : RpcValue :=
  if name = ascii "a" then
    .ofVariant (.map [(ascii "lang", .ofVariant (.string (ascii "en"))),
      (ascii "view", .ofVariant (.map [(ascii "zoom", .ofVariant (.int 2))]))])
  else if name = ascii "b" then
    .ofVariant (.map [(ascii "lang", .ofVariant (.string (ascii "cs"))),
      (ascii "view", .ofVariant (.map [(ascii "font", .ofVariant (.string (ascii "sans")))]))])
  else .invalid

def profiledRoles : AclManager .configFiles where
  data :=
    { mounts := []
      users := [(ascii "u", ⟨⟨ascii "p", .Plain⟩, [ascii "a"]⟩)]
      roles := [(ascii "a", ⟨[ascii "b"], profiles (ascii "a")⟩),
        (ascii "b", ⟨[ascii "a"], profiles (ascii "b")⟩)]
      rules := [] }
  m_cache := .empty
  m_azureUserGroups := []
  m_ldapUserGroups := []

theorem ordered_profiles (name : Bytes) : Ordered (profiles name) := by
  rw [profiles]
  split
  · simp [Ordered, RpcValue.ofVariant, RpcValue.Each, RpcMetaData.Each, Variant.Each, eachMap,
      eachIMap]
    decide
  · split
    · simp [Ordered, RpcValue.ofVariant, RpcValue.Each, RpcMetaData.Each, Variant.Each, eachMap,
        eachIMap]
      decide
    · exact ordered_invalid

theorem userProfile_lastRole_profiledRoles :
    ∃ roles v, Worklist.BreadthFirst (AclBackend.configFiles.graph profiledRoles.data.roles)
        [ascii "a"] roles ∧
      (profiledRoles.userProfile (ascii "u")).1 = .ok v ∧
      ∀ path c, contentAt v path = some c ↔
        ∃ before role after, roles = before ++ role :: after ∧
          contentAt (profiles role) path = some c ∧
          ∀ later ∈ after, silent (profiles later) path = true := by
  refine @userProfile_lastRole .configFiles _ profiledRoles (coherent_empty _ [] []) (ascii "u")
    ⟨⟨ascii "p", .Plain⟩, [ascii "a"]⟩ profiles rfl (fun _ h => by contradiction)
    (fun _ _ => ⟨_, rfl⟩) fun name _ => ⟨?_, ordered_profiles name⟩
  by_cases ha : name = ascii "a"
  · subst ha
    rfl
  · by_cases hb : name = ascii "b"
    · subst hb
      rfl
    · have hmem : name ∉ [ascii "a", ascii "b"] := by simp [ha, hb]
      rw [profiles, if_neg ha, if_neg hb]
      exact congrArg (Except.map _) (if_neg hmem)

end LibShv.AclManager
