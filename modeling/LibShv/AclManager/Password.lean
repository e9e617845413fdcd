import LibShv.AclManager.Caches

/-!
# LibShv.AclManager.Password

Passwords of users (`AclManager::checkPassword`): a stored password is plain or
a SHA-1 digest, a login sends a plain password or a digest with the nonce of the
session. `sha1Hex` is the digest in hexadecimal digits.
-/

namespace LibShv

/-! ## logins -/

/-- `UserLogin::LoginType`. -/
inductive LoginType where
  | Invalid
  | Plain
  | Sha1
  | RsaOaep
  | None
  | AzureAccessToken
  | Token
deriving DecidableEq

/-- `UserLogin`. -/
structure UserLogin where
  user : Bytes
  password : Bytes
  loginType : LoginType
deriving DecidableEq

/-- `UserLoginContext`: the login that is requested, and the nonce if `hello` was called. -/
structure UserLoginContext where
  serverNounce : Option Bytes
  userLogin : UserLogin
deriving DecidableEq

/-- `UserLoginResult`. -/
structure UserLoginResult where
  passwordOk : Bool
  loginError : Bytes
  clientId : Int32
  userNameOverride : Option Bytes
deriving DecidableEq

/-- The constructors of a result. -/
def UserLoginResult.ok : UserLoginResult := ⟨true, [], 0, none⟩
def UserLoginResult.fail (login_error : String) : UserLoginResult :=
  ⟨false, ascii login_error, 0, none⟩

namespace AclManager

/-! ## checking a password -/

/-- `checkPassword` for the definition of the user. -/
def checkUserPassword (sha1Hex : Bytes → Bytes) (acl_user : AclUser)
    (login_context : UserLoginContext) : UserLoginResult :=
  let login := login_context.userLogin
  let acl_pwd := acl_user.password
  if !acl_user.isValid then .fail "Invalid user name."
  else if acl_pwd.password = [] then .fail "Empty password not allowed."
  else
    let usr_pwd := login.password
    match login.loginType with
    | .Plain =>
      let stored := if acl_pwd.format = .Plain then usr_pwd else sha1Hex usr_pwd
      if acl_pwd.password = stored then .ok else .fail "Invalid password."
    | .Invalid | .Sha1 =>
      match login_context.serverNounce with
      | none => .fail "Can't use SHA1 login without using `:hello` first"
      | some serverNounce =>
        let digest := if acl_pwd.format = .Plain then sha1Hex acl_pwd.password else acl_pwd.password
        if usr_pwd = sha1Hex (serverNounce ++ digest) then .ok else .fail "Invalid password."
    | _ => .fail "Invalid login type."

variable {B : AclBackend}

/-- `AclManager::checkPassword`. -/
def checkPassword (sha1Hex : Bytes → Bytes) (m : AclManager B) (login_context : UserLoginContext) :
    Except String UserLoginResult × AclManager B :=
  match m.user login_context.userLogin.user with
  | (.error e, m) => (.error e, m)
  | (.ok acl_user, m) => (.ok (checkUserPassword sha1Hex acl_user login_context), m)

/-- Whether a plain login with the password succeeds, if the user can be read. -/
def plainLogin (sha1Hex : Bytes → Bytes) (m : AclManager B) (user_name password : Bytes)
    (serverNounce : Option Bytes) : Except String Bool :=
  (m.checkPassword sha1Hex ⟨serverNounce, ⟨user_name, password, .Plain⟩⟩).1.map (·.passwordOk)

/-! ## after a change -/

/-- What is stored is found again, and what cannot be stored leaves the users alone. -/
structure StoresUsers (B : AclBackend) : Prop where
  stored : ∀ t user_name u t', B.users.set t user_name u = (.ok (), t') → u.isValid = true →
    ∃ ks u', B.users.keys t' = .ok ks ∧ user_name ∈ ks ∧ B.users.fetch t' user_name = .ok u' ∧
      u'.password = u.password
  refused : ∀ t user_name u e t', B.users.set t user_name u = (.error e, t') → t' = t

theorem data_user (m : AclManager B) (user_name : Bytes) : (m.user user_name).2.data = m.data := rfl

theorem data_users_setUser_error {m m' : AclManager B} (hB : StoresUsers B) {user_name : Bytes}
    {u : AclUser} {e : String} (h : m.setUser user_name u = (.error e, m')) :
    m'.data.users = m.data.users := by
  rw [setUser] at h
  cases hset : B.users.set m.data.users user_name u with
  | mk r t =>
    rw [hset] at h
    cases r with
    | ok v => simp at h
    | error e' =>
      have hm' : m' = _ := (congrArg Prod.snd h).symm
      rw [hm']
      exact hB.refused _ _ _ _ _ hset

/-- The caches are empty after a user is set, so the user is read from what is stored. -/
theorem user_setUser {m m' : AclManager B} (hB : StoresUsers B) {user_name : Bytes} {u : AclUser}
    (hvalid : u.isValid = true) (h : m.setUser user_name u = (.ok (), m')) :
    ∃ u', (m'.user user_name).1 = .ok u' ∧ u'.password = u.password := by
  rw [setUser] at h
  cases hset : B.users.set m.data.users user_name u with
  | mk r t =>
    rw [hset] at h
    cases r with
    | error e => simp at h
    | ok v =>
      obtain ⟨ks, u', hks, hmem, hfetch, hpassword⟩ := hB.stored _ _ _ _ hset hvalid
      have hm' := (congrArg Prod.snd h).symm
      simp only at hm'
      have hcache : m'.m_cache.aclUsers = [] := by rw [hm']
      have husers : m'.data.users = t := by rw [hm']
      have hanswer := (@LazyMap.lookup_eq_answer _ _ _ _ _ _ (B.users.source m'.data.users) _
        blankUser_lawful [] (LazyMap.coherent_nil _ _) user_name).1
      refine ⟨u', ?_, hpassword⟩
      rw [user, hcache, hanswer, husers, LazyMap.Source.answer]
      simp only [AclTable.source, hks, hmem, if_true, hfetch]

/-- After a digest is stored, plain logins succeed with the passwords that have this digest. -/
theorem plainLogin_setUser {m m' : AclManager B} (sha1Hex : Bytes → Bytes) (hB : StoresUsers B)
    {user_name digest : Bytes} {roles : List Bytes} (hdigest : digest ≠ [])
    (h : m.setUser user_name ⟨⟨digest, .Sha1⟩, roles⟩ = (.ok (), m')) (password : Bytes)
    (serverNounce : Option Bytes) :
    m'.plainLogin sha1Hex user_name password serverNounce =
      .ok (decide (digest = sha1Hex password)) := by
  obtain ⟨u', hu', hpassword⟩ := user_setUser hB rfl h
  have huser : m'.user user_name = (.ok u', (m'.user user_name).2) := Prod.ext hu' rfl
  rw [plainLogin, checkPassword]
  simp only
  rw [huser]
  have hvalid : u'.isValid = true := by simp [AclUser.isValid, hpassword]
  simp only [Except.map, checkUserPassword, hvalid, hpassword, hdigest, Bool.not_true,
    Bool.false_eq_true, if_false, reduceCtorEq]
  by_cases heq : digest = sha1Hex password
  · simp [heq, UserLoginResult.ok]
  · simp [heq, UserLoginResult.fail]

end AclManager

end LibShv
