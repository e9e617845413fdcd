import LibShv.AclManager.Access

/-!
# LibShv.AclManager.Spelling

The tree of nodes reads a path as a list of directories, and so does not see
leading, trailing and doubled slashes or needless quotes. The access rules are
compared with the text of the path.
-/

namespace LibShv.AclManager

/-- Two texts of a path have the same grant, for every user, with any definitions, and every
method. -/
def SameGrant (path path' : Bytes) : Prop :=
  ∀ (B : AclBackend) (m : AclManager B) (user_name method : Bytes)
    (is_request_from_master_broker : Bool) (access_grant : AccessGrant),
    (m.accessGrantForShvPath user_name path method is_request_from_master_broker access_grant).1 =
      (m.accessGrantForShvPath user_name path' method is_request_from_master_broker
        access_grant).1

/-! ## a rule for one text -/

/-- A rule for a directory and everything below it. -/
def browseRule (path : Bytes) : AclAccessRule := ⟨path ++ ascii "/**", [], ascii "bws"⟩

/-- The only user has the only role, which has this rule only. -/
def browser (path : Bytes) : AclManager .configFiles where
  data :=
    { mounts := []
      users := [(ascii "u", ⟨⟨ascii "p", .Plain⟩, [ascii "r"]⟩)]
      roles := [(ascii "r", ⟨[], .invalid⟩)]
      rules := [(ascii "r", [browseRule path])] }
  m_cache := .empty
  m_azureUserGroups := []
  m_ldapUserGroups := []

theorem wildCardDir_append (path : Bytes) :
    AclAccessRule.wildCardDir (path ++ ascii "/**") = path := by
  have hstars : ascii "/**" = [SHV_PATH_DELIM, 0x2a, 0x2a] := rfl
  have hsub : (path ++ ascii "/**").take ((path ++ ascii "/**").length - 2) =
      path ++ [SHV_PATH_DELIM] := by
    rw [hstars, List.take_append]
    simp [List.take_of_length_le]
  rw [AclAccessRule.wildCardDir, hsub]
  simp

theorem browseRule_match_iff (path shv_path method : Bytes) :
    (browseRule path).isPathMethodMatch shv_path method = startsWithPath shv_path path := by
  have hsuffix : (ascii "/**").isSuffixOf (path ++ ascii "/**") = true :=
    List.isSuffixOf_iff_suffix.mpr (List.suffix_append _ _)
  have hwild : AclAccessRule.isWildCardPattern (path ++ ascii "/**") = true := by
    simp [AclAccessRule.isWildCardPattern, hsuffix]
  simp [AclAccessRule.isPathMethodMatch, browseRule, hwild, wildCardDir_append]

/-- The user may browse what lies below the directory. -/
theorem accessGrantForShvPath_browser (path shv_path method : Bytes) :
    ((browser path).accessGrantForShvPath (ascii "u") shv_path method false .none).1 =
      .ok (if shv_path = BROKER_CURRENT_CLIENT_SHV_PATH then ⟨.Write, []⟩
        else if startsWithPath shv_path path = true then ⟨.Browse, []⟩ else .none) := by
  have hroles : (browser path).flattenUserRoles (ascii "u") =
      (.ok [ascii "r"], ((browser path).flattenUserRoles (ascii "u")).2) := by rfl
  have hrules : (((browser path).flattenUserRoles (ascii "u")).2.accessRoleRules (ascii "r")).1 =
      .ok [browseRule path] := by rfl
  rw [accessGrantForShvPath]
  simp only [Bool.false_eq_true, false_and, if_false]
  rw [hroles]
  simp only
  by_cases hpath : shv_path = BROKER_CURRENT_CLIENT_SHV_PATH
  · rw [if_pos hpath, if_pos hpath]
  · rw [if_neg hpath, if_neg hpath, firstMatchingRule]
    generalize ((browser path).flattenUserRoles (ascii "u")).2.accessRoleRules (ascii "r") = r at hrules
    obtain ⟨r, m⟩ := r
    obtain rfl : r = .ok [browseRule path] := hrules
    simp only [List.find?_cons, browseRule_match_iff]
    cases startsWithPath shv_path path with
    | true => rfl
    | false => rfl

/-- Every text of a path but one is missed by the rule for the longest of them. -/
theorem not_sameGrant_of_length_le {path path' : Bytes} (hne : path ≠ path')
    (hle : path'.length ≤ path.length) : ¬ SameGrant path path' := by
  intro h
  have hgrants := h _ (browser path) (ascii "u") [] false .none
  rw [accessGrantForShvPath_browser, accessGrantForShvPath_browser] at hgrants
  have hself : startsWithPath path path = true := by simp [startsWithPath]
  have hother : startsWithPath path' path = false := by
    cases hstarts : startsWithPath path' path with
    | false => rfl
    | true =>
      have hpre := isPrefix_of_startsWithPath hstarts
      exact absurd (hpre.eq_of_length (Nat.le_antisymm hpre.length_le hle)) hne
  simp only [hself, hother, if_true, Bool.false_eq_true, if_false] at hgrants
  by_cases hpath : path = BROKER_CURRENT_CLIENT_SHV_PATH
  · have hpath' : path' ≠ BROKER_CURRENT_CLIENT_SHV_PATH := fun heq => hne (hpath.trans heq.symm)
    rw [if_pos hpath, if_neg hpath'] at hgrants
    exact absurd (Except.ok.inj hgrants) (by decide)
  · rw [if_neg hpath] at hgrants
    by_cases hpath' : path' = BROKER_CURRENT_CLIENT_SHV_PATH
    · rw [if_pos hpath'] at hgrants
      exact absurd (Except.ok.inj hgrants) (by decide)
    · rw [if_neg hpath'] at hgrants
      exact absurd (Except.ok.inj hgrants) (by decide)

/-- A user who may browse one directory and do everything in the others. -/
def guarded : AclManager .configFiles where
  data :=
    { mounts := []
      users := [(ascii "u", ⟨⟨ascii "p", .Plain⟩, [ascii "r"]⟩)]
      roles := [(ascii "r", ⟨[], .invalid⟩)]
      rules := [(ascii "r", [⟨ascii "dev/secret", [], ascii "bws"⟩, ⟨ascii "dev/**", [], ascii "su"⟩])] }
  m_cache := .empty
  m_azureUserGroups := []
  m_ldapUserGroups := []

end LibShv.AclManager
