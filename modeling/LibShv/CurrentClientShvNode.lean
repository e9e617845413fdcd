import LibShv.AclManager.Password
import LibShv.RpcMessage

/-!
# LibShv.CurrentClientShvNode

The method `changePassword` of the node of the client (`currentclientshvnode.cpp`):
the old password is compared with the stored one as digests, and the new one is
stored as a digest. A text that is as long as the stored digest is taken for a
digest.
-/

namespace LibShv

/-- How `changePassword` fails: by an exception, or by reading behind the end of the
parameters. -/
inductive ChangePasswordFault where
  | exception (message : String)
  | outOfRange
deriving DecidableEq

namespace CurrentClientShvNode

def wrongFormat : ChangePasswordFault :=
  .exception "Params must have format: [\"old_pwd\",\"new_pwd\"]"

/-- The parameters of `changePassword`. -/
def readPasswords (params : RpcValue) : Except ChangePasswordFault (Bytes × Bytes) :=
  if params.isList then
    match params.asList with
    | [] => .error .outOfRange
    | old :: param_lst =>
      if old.isString then
        match param_lst with
        | [] => .error .outOfRange
        | new :: _ =>
          if new.isString then
            if old.asString = [] ∨ new.asString = [] then
              .error (.exception "Both old and new password mustn't be empty")
            else .ok (old.asString, new.asString)
          else .error wrongFormat
      else .error wrongFormat
  else .error wrongFormat

/-- The digest of the password that is stored. -/
def currentPasswordSha1 (sha1Hex : Bytes → Bytes) (acl_user : AclUser) : Bytes :=
  if acl_user.password.format = .Plain then sha1Hex acl_user.password.password
  else acl_user.password.password

/-- A password as a digest, if it is not as long as a digest already. -/
def asDigest (sha1Hex : Bytes → Bytes) (current_password_sha1 password : Bytes) : Bytes :=
  if password.length ≠ current_password_sha1.length then sha1Hex password else password

variable {B : AclBackend}

/-- The method `changePassword`. A client has a user name. -/
def changePassword (sha1Hex : Bytes → Bytes) (clientById : Int32 → Option Bytes) (m : AclManager B)
    (md : RpcMetaData) (params : RpcValue) : Except ChangePasswordFault Bool × AclManager B :=
  match readPasswords params with
  | .error e => (.error e, m)
  | .ok (old_password, new_password) =>
    match md.peekCallerId with
    | .error e => (.error (.exception e), m)
    | .ok client_id =>
      match clientById client_id with
      | none => (.error (.exception "Invalid client ID"), m)
      | some user_name =>
        if (ascii "ldap:").isPrefixOf user_name then
          (.error (.exception "Can't change password, because you are logged in over LDAP"), m)
        else if (ascii "azure:").isPrefixOf user_name then
          (.error (.exception "Can't change password, because you are logged in over Azure"), m)
        else
          match m.user user_name with
          | (.error e, m) => (.error (.exception e), m)
          | (.ok acl_user, m) =>
            let current := currentPasswordSha1 sha1Hex acl_user
            if asDigest sha1Hex current old_password ≠ current then
              (.error (.exception "Old password does not match."), m)
            else
              let password : AclPassword := ⟨asDigest sha1Hex current new_password, .Sha1⟩
              match m.setUser user_name { acl_user with password := password } with
              | (.error e, m) => (.error (.exception e), m)
              | (.ok (), m) => (.ok true, m)

/-! ## when it succeeds -/

/-- The client may change the password of its user: the old password is right and the new one
can be stored. -/
structure Permitted (sha1Hex : Bytes → Bytes) (clientById : Int32 → Option Bytes)
    (m : AclManager B) (md : RpcMetaData) (old new user_name : Bytes) (u : AclUser) : Prop where
  nonempty : old ≠ [] ∧ new ≠ []
  caller : ∃ client_id, md.peekCallerId = .ok client_id ∧ clientById client_id = some user_name
  own : (ascii "ldap:").isPrefixOf user_name = false ∧ (ascii "azure:").isPrefixOf user_name = false
  user : (m.user user_name).1 = .ok u
  matches_old : asDigest sha1Hex (currentPasswordSha1 sha1Hex u) old = currentPasswordSha1 sha1Hex u
  stored : ((m.user user_name).2.setUser user_name
    { u with password := ⟨asDigest sha1Hex (currentPasswordSha1 sha1Hex u) new, .Sha1⟩ }).1 = .ok ()

/-- The parameters begin with two strings. -/
structure Passwords (params : RpcValue) (old new : Bytes) (rest : RpcList) : Prop where
  isList : params.isList = true
  asList : ∃ v v', params.asList = v :: v' :: rest ∧ v.isString = true ∧ v'.isString = true ∧
    v.asString = old ∧ v'.asString = new

variable {sha1Hex : Bytes → Bytes} {clientById : Int32 → Option Bytes} {m : AclManager B}
  {md : RpcMetaData} {params : RpcValue} {old new user_name : Bytes} {u : AclUser} {rest : RpcList}

theorem readPasswords_ok_iff :
    readPasswords params = .ok (old, new) ↔
      ∃ rest, Passwords params old new rest ∧ old ≠ [] ∧ new ≠ [] := by
  rw [readPasswords]
  constructor
  · intro h
    by_cases hlist : params.isList = true
    · rw [if_pos hlist] at h
      cases hparams : params.asList with
      | nil => simp [hparams] at h
      | cons v param_lst =>
        cases param_lst with
        | nil => cases hv : v.isString <;> simp [hparams, hv] at h
        | cons v' rest =>
          simp only [hparams] at h
          by_cases hv : v.isString = true
          · rw [if_pos hv] at h
            by_cases hv' : v'.isString = true
            · rw [if_pos hv'] at h
              by_cases hempty : v.asString = [] ∨ v'.asString = []
              · simp [hempty] at h
              · rw [if_neg hempty] at h
                have hpair := Except.ok.inj h
                have hold : v.asString = old := congrArg Prod.fst hpair
                have hnew : v'.asString = new := congrArg Prod.snd hpair
                rw [hold, hnew, not_or] at hempty
                exact ⟨rest, ⟨hlist, v, v', hparams, hv, hv', hold, hnew⟩, hempty⟩
            · simp [hv'] at h
          · simp [hv] at h
    · simp [hlist] at h
  · rintro ⟨rest, ⟨hlist, v, v', hparams, hv, hv', rfl, rfl⟩, hold, hnew⟩
    simp [hlist, hparams, hv, hv', hold, hnew]

/-- It succeeds if the parameters begin with two passwords with which it is permitted. -/
theorem changePassword_of_permitted (hparams : Passwords params old new rest)
    (h : Permitted sha1Hex clientById m md old new user_name u) :
    ∃ m', changePassword sha1Hex clientById m md params = (.ok true, m') ∧
      (m.user user_name).2.setUser user_name
        { u with password := ⟨asDigest sha1Hex (currentPasswordSha1 sha1Hex u) new, .Sha1⟩ } =
          (.ok (), m') := by
  have hread := readPasswords_ok_iff.mpr ⟨rest, hparams, h.nonempty⟩
  obtain ⟨client_id, hpeek, hclient⟩ := h.caller
  have huser : m.user user_name = (.ok u, (m.user user_name).2) := Prod.ext h.user rfl
  generalize hr : (m.user user_name).2.setUser user_name
    { u with password := ⟨asDigest sha1Hex (currentPasswordSha1 sha1Hex u) new, .Sha1⟩ } = r
  have hset := h.stored
  rw [hr] at hset
  obtain ⟨r, m'⟩ := r
  obtain rfl : r = .ok () := hset
  refine ⟨m', ?_, rfl⟩
  simp only [changePassword, hread, hpeek, hclient, h.own.1, h.own.2, Bool.false_eq_true, if_false,
    ne_eq]
  rw [huser]
  simp only [h.matches_old, not_true, if_false, hr]

/-- It fails in no other way than by an exception, unless two parameters are not there; and the
users are changed only if it succeeds. -/
theorem changePassword_cases (hB : AclManager.StoresUsers B) :
    ((∃ new old rest user_name u, Passwords params old new rest ∧
        Permitted sha1Hex clientById m md old new user_name u) ∧
      (changePassword sha1Hex clientById m md params).1 = .ok true) ∨
    ((∃ e, (changePassword sha1Hex clientById m md params).1 = .error e ∧
        (e = .outOfRange → readPasswords params = .error .outOfRange)) ∧
      (changePassword sha1Hex clientById m md params).2.data.users = m.data.users) := by
  rw [changePassword]
  cases hread : readPasswords params with
  | error e => exact .inr ⟨⟨e, rfl, fun he => by rw [he]⟩, rfl⟩
  | ok passwords =>
    obtain ⟨old, new⟩ := passwords
    obtain ⟨rest, hparams, hnonempty⟩ := readPasswords_ok_iff.mp hread
    cases hpeek : md.peekCallerId with
    | error e => exact .inr ⟨⟨.exception e, rfl, by simp⟩, rfl⟩
    | ok client_id =>
      cases hclient : clientById client_id with
      | none =>
        refine .inr ⟨⟨.exception "Invalid client ID", ?_, by simp⟩, ?_⟩
        · simp [hclient]
        · simp [hclient]
      | some user_name =>
        simp only [hclient]
        by_cases hldap : (ascii "ldap:").isPrefixOf user_name = true
        · rw [if_pos hldap]
          exact .inr ⟨⟨_, rfl, by simp⟩, rfl⟩
        · rw [if_neg hldap]
          by_cases hazure : (ascii "azure:").isPrefixOf user_name = true
          · rw [if_pos hazure]
            exact .inr ⟨⟨_, rfl, by simp⟩, rfl⟩
          · rw [if_neg hazure]
            have hdata := AclManager.data_user m user_name
            cases huser : m.user user_name with
            | mk r m₁ =>
              rw [huser] at hdata
              cases r with
              | error e => exact .inr ⟨⟨.exception e, rfl, by simp⟩, congrArg AclData.users hdata⟩
              | ok u =>
                simp only
                by_cases hold : asDigest sha1Hex (currentPasswordSha1 sha1Hex u) old =
                    currentPasswordSha1 sha1Hex u
                · rw [if_neg (by simpa using hold)]
                  cases hset : m₁.setUser user_name { u with password :=
                      ⟨asDigest sha1Hex (currentPasswordSha1 sha1Hex u) new, .Sha1⟩ } with
                  | mk r m₂ =>
                    cases r with
                    | error e =>
                      refine .inr ⟨⟨_, rfl, by simp⟩, ?_⟩
                      rw [AclManager.data_users_setUser_error hB hset]
                      exact congrArg AclData.users hdata
                    | ok v =>
                      refine .inl ⟨⟨new, old, rest, user_name, u, hparams, hnonempty,
                        ⟨client_id, hpeek, hclient⟩, ⟨eq_false_of_ne_true hldap,
                          eq_false_of_ne_true hazure⟩,
                        by rw [huser], hold, ?_⟩, rfl⟩
                      rw [huser, hset]
                · rw [if_pos hold]
                  exact .inr ⟨⟨_, rfl, by simp⟩, congrArg AclData.users hdata⟩

/-! ## the new password logs in -/

/-- Among the passwords with other digests, only this one logs the user in. -/
def LogsIn (sha1Hex : Bytes → Bytes) (m : AclManager B) (user_name password : Bytes) : Prop :=
  ∀ (other : Bytes) (serverNounce : Option Bytes),
    (sha1Hex other = sha1Hex password → other = password) →
      m.plainLogin sha1Hex user_name other serverNounce = .ok (decide (other = password))

/-- A changed password is the one that logs in, a failure leaves the users alone, and parameters
other than two strings are rejected by an exception. -/
structure ChangesPassword (sha1Hex : Bytes → Bytes) (clientById : Int32 → Option Bytes)
    (m : AclManager B) (md : RpcMetaData) (params : RpcValue) : Prop where
  logsIn : (changePassword sha1Hex clientById m md params).1 = .ok true →
    ∀ client_id user_name old new, md.peekCallerId = .ok client_id →
      clientById client_id = some user_name → Passwords params old new [] →
        LogsIn sha1Hex (changePassword sha1Hex clientById m md params).2 user_name new
  unchanged : ∀ e, (changePassword sha1Hex clientById m md params).1 = .error e →
    (changePassword sha1Hex clientById m md params).2.data.users = m.data.users
  rejects : (¬ ∃ old new, Passwords params old new []) →
    ∃ message, (changePassword sha1Hex clientById m md params).1 = .error (.exception message)

/-- No string is read that is not there, and no third parameter is given with a change that is
permitted; and the new password is not as long as the stored digest, or is its own digest. -/
structure WellSuited (sha1Hex : Bytes → Bytes) (clientById : Int32 → Option Bytes)
    (m : AclManager B) (md : RpcMetaData) (params : RpcValue) : Prop where
  inRange : params.isList = true →
    params.asList ≠ [] ∧ ∀ v, params.asList = [v] → v.isString = false
  digest : ∀ old new rest user_name u, Passwords params old new rest →
    Permitted sha1Hex clientById m md old new user_name u →
      rest = [] ∧
        (new.length ≠ (currentPasswordSha1 sha1Hex u).length ∨ sha1Hex new = new)

theorem readPasswords_outOfRange_iff :
    readPasswords params = .error .outOfRange ↔
      params.isList = true ∧
        (params.asList = [] ∨ ∃ v, params.asList = [v] ∧ v.isString = true) := by
  rw [readPasswords]
  by_cases hlist : params.isList = true
  · cases hparams : params.asList with
    | nil => simp [hlist]
    | cons v param_lst =>
      cases param_lst with
      | nil => cases hv : v.isString <;> simp [hlist, hv, wrongFormat]
      | cons v' rest =>
        by_cases hv : v.isString = true
        · by_cases hv' : v'.isString = true
          · by_cases hempty : v.asString = [] ∨ v'.asString = []
            · simp [hlist, hv, hv', hempty]
            · simp [hlist, hv, hv', hempty]
          · simp [hlist, hv, hv', wrongFormat]
        · simp [hlist, hv, wrongFormat]
  · simp [hlist, wrongFormat]

/-- The passwords are determined by the parameters. -/
theorem Passwords.unique {old' new' : Bytes} {rest' : RpcList} (h : Passwords params old new rest)
    (h' : Passwords params old' new' rest') : old = old' ∧ new = new' ∧ rest = rest' := by
  obtain ⟨v, w, hparams, -, -, rfl, rfl⟩ := h.asList
  obtain ⟨v', w', hparams', -, -, rfl, rfl⟩ := h'.asList
  rw [hparams] at hparams'
  obtain ⟨rfl, hrest⟩ := List.cons.inj hparams'
  obtain ⟨rfl, rfl⟩ := List.cons.inj hrest
  exact ⟨rfl, rfl, rfl⟩

/-- What is stored is not empty. -/
theorem asDigest_ne_nil (hsha1 : ∀ s, (sha1Hex s).length = 40) (hnew : new ≠ []) (current : Bytes) :
    asDigest sha1Hex current new ≠ [] := by
  rw [asDigest]
  split
  · intro hnil
    have hlen := hsha1 new
    simp [hnil] at hlen
  · exact hnew

/-- The new password logs in exactly if its digest is what is stored. -/
theorem logsIn_iff_of_permitted (hsha1 : ∀ s, (sha1Hex s).length = 40)
    (hB : AclManager.StoresUsers B) (hparams : Passwords params old new rest)
    (h : Permitted sha1Hex clientById m md old new user_name u) :
    LogsIn sha1Hex (changePassword sha1Hex clientById m md params).2 user_name new ↔
      new.length ≠ (currentPasswordSha1 sha1Hex u).length ∨ sha1Hex new = new := by
  obtain ⟨m', hchange, hset⟩ := changePassword_of_permitted hparams h
  have hlogin := AclManager.plainLogin_setUser sha1Hex hB
    (asDigest_ne_nil hsha1 h.nonempty.2 (currentPasswordSha1 sha1Hex u)) hset
  rw [hchange, LogsIn]
  constructor
  · intro hlogs
    have hself := hlogs new none fun _ => rfl
    rw [hlogin] at hself
    have hdigest : asDigest sha1Hex (currentPasswordSha1 sha1Hex u) new = sha1Hex new := by
      simpa using hself
    rw [asDigest] at hdigest
    by_cases hlen : new.length ≠ (currentPasswordSha1 sha1Hex u).length
    · exact .inl hlen
    · rw [if_neg hlen] at hdigest
      exact .inr hdigest.symm
  · intro hsuited other serverNounce hcollision
    have hdigest : asDigest sha1Hex (currentPasswordSha1 sha1Hex u) new = sha1Hex new := by
      rw [asDigest]
      obtain hlen | hown := hsuited
      · rw [if_pos hlen]
      · rw [hown]
        split <;> rfl
    rw [hlogin, hdigest]
    have hiff : sha1Hex new = sha1Hex other ↔ other = new :=
      ⟨fun heq => hcollision heq.symm, fun heq => by rw [heq]⟩
    simp [hiff]

/-- Changing a password does what it should exactly for parameters that suit it. -/
theorem changesPassword_iff_wellSuited (hsha1 : ∀ s, (sha1Hex s).length = 40)
    (hB : AclManager.StoresUsers B) (clientById : Int32 → Option Bytes) (m : AclManager B)
    (md : RpcMetaData) (params : RpcValue) :
    ChangesPassword sha1Hex clientById m md params ↔
      WellSuited sha1Hex clientById m md params := by
  constructor
  · intro h
    refine ⟨fun hlist => ?_, fun old new rest user_name u hparams hpermitted => ?_⟩
    · have hrange : readPasswords params ≠ .error .outOfRange := by
        intro hread
        have hfault : (changePassword sha1Hex clientById m md params).1 = .error .outOfRange := by
          rw [changePassword, hread]
        have hshort := (readPasswords_outOfRange_iff.mp hread).2
        obtain ⟨message, hmessage⟩ := h.rejects (by
          rintro ⟨old, new, -, v, v', hparams, -⟩
          rw [hparams] at hshort
          simp at hshort)
        rw [hfault] at hmessage
        simp at hmessage
      rw [ne_eq, readPasswords_outOfRange_iff] at hrange
      refine ⟨fun hnil => hrange ⟨hlist, .inl hnil⟩, fun v hone => ?_⟩
      refine eq_false_of_ne_true fun hv => ?_
      exact hrange ⟨hlist, .inr ⟨v, hone, hv⟩⟩
    · obtain ⟨m', hchange, -⟩ := changePassword_of_permitted hparams hpermitted
      have hok : (changePassword sha1Hex clientById m md params).1 = .ok true := by rw [hchange]
      obtain ⟨client_id, hpeek, hclient⟩ := hpermitted.caller
      have hrest : rest = [] := by
        refine Decidable.byContradiction fun hne => ?_
        obtain ⟨message, hmessage⟩ := h.rejects (by
          rintro ⟨old', new', hparams'⟩
          exact hne (hparams.unique hparams').2.2)
        rw [hok] at hmessage
        contradiction
      subst hrest
      have hlogs := h.logsIn hok client_id user_name old new hpeek hclient hparams
      exact ⟨rfl, (logsIn_iff_of_permitted hsha1 hB hparams hpermitted).mp hlogs⟩
  · intro h
    have hcases := @changePassword_cases _ sha1Hex clientById m md params hB
    refine ⟨?_, ?_, ?_⟩
    · intro hok client_id user_name old new hpeek hclient hparams
      obtain ⟨⟨new', old', rest', user_name', u, hparams', hpermitted⟩, -⟩ | ⟨⟨e, he, -⟩, -⟩ := hcases
      · obtain ⟨rfl, rfl, rfl⟩ := hparams.unique hparams'
        obtain ⟨client_id', hpeek', hclient'⟩ := hpermitted.caller
        obtain rfl := Except.ok.inj (hpeek.symm.trans hpeek')
        obtain rfl := Option.some.inj (hclient.symm.trans hclient')
        have hsuited := (h.digest _ _ _ _ _ hparams hpermitted).2
        exact (logsIn_iff_of_permitted hsha1 hB hparams hpermitted).mpr hsuited
      · rw [hok] at he
        contradiction
    · intro e he
      obtain ⟨-, hok⟩ | ⟨-, hdata⟩ := hcases
      · rw [hok] at he
        contradiction
      · exact hdata
    · intro hnot
      obtain ⟨⟨new, old, rest, user_name, u, hparams, hpermitted⟩, -⟩ | ⟨⟨e, he, hrange⟩, -⟩ := hcases
      · obtain ⟨rfl, -⟩ := h.digest _ _ _ _ _ hparams hpermitted
        exact absurd ⟨old, new, hparams⟩ hnot
      · cases e with
        | exception message => exact ⟨message, he⟩
        | outOfRange =>
          obtain ⟨hlist, hnil | ⟨v, hone, hv⟩⟩ := readPasswords_outOfRange_iff.mp (hrange rfl)
          · exact absurd hnil (h.inRange hlist).1
          · rw [(h.inRange hlist).2 v hone] at hv
            contradiction

/-! ### users in memory -/

/-- Users in a map in memory. -/
def usersInMemory : AclTable (List (Bytes × AclUser)) AclUser AclUser where
  keys t := .ok (t.map (·.1))
  fetch t user_name := .ok ((SortedMap.find? user_name t).getD ⟨⟨[], .Invalid⟩, []⟩)
  set t user_name u := (.ok (), SortedMap.insert user_name u t)

def memory : AclBackend := { AclBackend.configFiles with
  Users := List (Bytes × AclUser)
  users := usersInMemory }

theorem storesUsers_memory : AclManager.StoresUsers memory where
  stored t user_name u t' h hvalid := by
    obtain rfl : SortedMap.insert user_name u t = t' := congrArg Prod.snd h
    have hfind := SortedMap.find?_insert_self user_name u t
    refine ⟨_, u, rfl, SortedMap.key_mem_of_find? hfind, ?_, rfl⟩
    change Except.ok ((SortedMap.find? user_name (SortedMap.insert user_name u t)).getD _) = _
    rw [hfind]
    rfl
  refused t user_name u e t' h := by
    have hok := congrArg Prod.fst h
    contradiction

/-- A user with the password `old`. -/
def oldUser : AclManager memory :=
  ⟨⟨[], [(ascii "u", ⟨⟨ascii "old", .Plain⟩, []⟩)], [], []⟩, .empty, [], []⟩

def clientOfU (client_id : Int32) : Option Bytes := if client_id = 1 then some (ascii "u") else none

def callerOne : RpcMetaData := .mk [(Tag_CallerIds, .ofInt32 1)] []

def passwordParams (old new : String) : RpcValue :=
  .ofVariant (.list [.ofVariant (.string (ascii old)), .ofVariant (.string (ascii new))])

/-- The digests of the passwords that are used here. -/
def sampleSha1Hex (s : Bytes) : Bytes :=
  if s = ascii "old" then ascii "c00dbbc9dadfbe1e232e93a729dd4752fade0abf"
  else if s = ascii "new" then ascii "c2a6b03f190dfb2b4aa91f8af8d477a9bc3401dc"
  else if s = ascii "correct horse battery staple, once again" then
    ascii "119849a1a3ee8812eab245ba402051f61fb74581"
  else List.replicate 40 0x30

theorem length_sampleSha1Hex (s : Bytes) : (sampleSha1Hex s).length = 40 := by
  rw [sampleSha1Hex]
  split
  · rfl
  · split
    · rfl
    · split
      · rfl
      · rfl

theorem passwords_passwordParams (old new : String) :
    Passwords (passwordParams old new) (ascii old) (ascii new) [] :=
  ⟨rfl, _, _, rfl, rfl, rfl, rfl, rfl⟩

/-- The password of the user is changed to a short one. -/
theorem changesPassword_short :
    ChangesPassword sampleSha1Hex clientOfU oldUser callerOne (passwordParams "old" "new") := by
  refine (changesPassword_iff_wellSuited length_sampleSha1Hex storesUsers_memory clientOfU oldUser
    callerOne (passwordParams "old" "new")).mpr ⟨fun _ => ⟨by simp [passwordParams, RpcValue.asList,
      RpcValue.ofVariant], fun v hone => ?_⟩, ?_⟩
  · simp [passwordParams, RpcValue.asList, RpcValue.ofVariant] at hone
  · intro old new rest user_name u hparams hpermitted
    obtain ⟨rfl, rfl, rfl⟩ := hparams.unique (passwords_passwordParams "old" "new")
    obtain ⟨client_id, hpeek, hclient⟩ := hpermitted.caller
    obtain rfl : (1 : Int32) = client_id := Except.ok.inj hpeek
    obtain rfl : ascii "u" = user_name := Option.some.inj hclient
    have huser : (⟨⟨ascii "old", .Plain⟩, []⟩ : AclUser) = u := Except.ok.inj hpermitted.user
    rw [← huser]
    exact ⟨rfl, .inl (by decide)⟩

/-- A new password of forty characters is taken for a digest, and does not log in. Parameters
without a string are read all the same. -/
theorem not_changesPassword_fortyCharacters :
    (changePassword sampleSha1Hex clientOfU oldUser callerOne
        (passwordParams "old" "correct horse battery staple, once again")).1 = .ok true ∧
      (changePassword sampleSha1Hex clientOfU oldUser callerOne
        (passwordParams "old" "correct horse battery staple, once again")).2.plainLogin sampleSha1Hex
          (ascii "u") (ascii "correct horse battery staple, once again") none = .ok false ∧
      ¬ ChangesPassword sampleSha1Hex clientOfU oldUser callerOne
        (passwordParams "old" "correct horse battery staple, once again") ∧
      (changePassword sampleSha1Hex clientOfU oldUser callerOne (.ofVariant (.list []))).1 =
        .error .outOfRange := by
  have hok : (changePassword sampleSha1Hex clientOfU oldUser callerOne
      (passwordParams "old" "correct horse battery staple, once again")).1 = .ok true := by rfl
  have hlogin : (changePassword sampleSha1Hex clientOfU oldUser callerOne
      (passwordParams "old" "correct horse battery staple, once again")).2.plainLogin sampleSha1Hex
        (ascii "u") (ascii "correct horse battery staple, once again") none = .ok false := by rfl
  refine ⟨hok, hlogin, ?_, rfl⟩
  intro h
  have hlogs := h.logsIn hok 1 (ascii "u") _ _ rfl rfl (passwords_passwordParams _ _) _ none
    (fun _ => rfl)
  rw [hlogin] at hlogs
  simp at hlogs

end CurrentClientShvNode

end LibShv
