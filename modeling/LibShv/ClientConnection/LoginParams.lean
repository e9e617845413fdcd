import LibShv.ClientConnectionOnBroker

/-!
# LibShv.ClientConnection.LoginParams

The login parameters of a client (`ClientConnection::createLoginParams`), and what
the broker they are sent to finds in them: a password is sent as it is, or as its
digest, hashed again with the nonce of the broker.

`sha1Hex` is the digest in hexadecimal digits.
-/

namespace LibShv

/-! ## login parameters -/

/-- `UserLogin::loginTypeToString`. -/
def LoginType.toBytes : LoginType → Bytes
  | .None => ascii "NONE"
  | .Plain => ascii "PLAIN"
  | .Sha1 => ascii "SHA1"
  | .RsaOaep => ascii "RSAOAEP"
  | .AzureAccessToken => ascii "AZURE"
  | .Token => ascii "TOKEN"
  | .Invalid => ascii "INVALID"

/-- What a `ClientConnection` logs in with. `tokenPassword` is the token that
`m_tokenPasswordCallback` is called back with, if one is set. -/
structure ClientLoginData where
  user : Bytes
  password : Bytes
  loginType : LoginType
  connectionOptions : RpcValue
  userAgent : Bytes
  oAuth2WaitingForUser : Bool
  token : Option Bytes
  tokenPassword : Option Bytes

/-- What the pattern `[0-9a-f]{40}` matches. -/
def isSha1Password (pwd : Bytes) : Bool :=
  pwd.length = 40 && pwd.all fun c => (0x30 ≤ c && c ≤ 0x39) || (0x61 ≤ c && c ≤ 0x66)

namespace ClientLoginData

variable (sha1Hex : Bytes → Bytes) (conn : ClientLoginData)

/-- `impl_ret`. -/
def params (user_name pass : Bytes) : RpcValue :=
  let text (s : Bytes) : RpcValue := .ofVariant (.string s)
  let options := conn.connectionOptions.asMap
  .ofVariant (.map
    [(KEY_LOGIN, .ofVariant (.map
      [(ascii (if conn.loginType = .Token then "token" else "password"), text pass),
        (ascii "type", text conn.loginType.toBytes), (ascii "user", text user_name)])),
      (KEY_OPTIONS, .ofVariant (.map
        -- options of the user are not replaced
        (match SortedMap.find? (ascii "userAgent") options with
        | some _ => options
        | none => SortedMap.insert (ascii "userAgent") (text conn.userAgent) options)))])

/-- The password as it is sent. -/
def pass (server_hello : RpcValue) : Bytes :=
  match conn.loginType with
  | .Sha1 =>
    let server_nonce := (server_hello.asMap.valueOr (ascii "nonce") .invalid).toString
    let pwd := if isSha1Password conn.password then conn.password else sha1Hex conn.password
    sha1Hex (server_nonce ++ pwd)
  | .Plain => conn.password
  | _ => []

/-- `createLoginParams`. -/
def createLoginParams (server_hello : RpcValue) : Except String RpcValue :=
  if conn.loginType = .AzureAccessToken ∨ conn.loginType = .Token then
    match conn.token, conn.tokenPassword with
    | some token, tokenPassword =>
      if conn.oAuth2WaitingForUser then .ok (conn.params [] token)
      else
        match tokenPassword with
        | some token => .ok (conn.params [] token)
        | none => .error "Can't do token login without setting a token login callback"
    | none, some token => .ok (conn.params [] token)
    | none, none => .error "Can't do token login without setting a token login callback"
  else .ok (conn.params conn.user (conn.pass sha1Hex server_hello))

end ClientLoginData

/-! ## what the broker reads -/

/-- The result of `hello`. -/
def helloResult (nonce : Bytes) : RpcValue :=
  .ofVariant (.map [(ascii "nonce", .ofVariant (.string nonce))])

theorem LoginType.fromString_toBytes {loginType : LoginType} (h : loginType ≠ .Invalid) :
    fromString loginType.toBytes = loginType := by
  cases loginType with
  | Invalid => contradiction
  | _ => rfl

theorem nonce_helloResult (nonce : Bytes) :
    ((helloResult nonce).asMap.valueOr (ascii "nonce") .invalid).toString = nonce := rfl

theorem LoginType.toBytes_ne_nil (loginType : LoginType) : loginType.toBytes ≠ [] := by
  cases loginType <;> decide

/-- A login whose type is named. -/
theorem fromRpcValue_map {m : RpcMap} {loginType : LoginType} (h : loginType ≠ .Invalid)
    (htype : (m.valueOr (ascii "type") .invalid).toString = loginType.toBytes) :
    UserLogin.fromRpcValue (.ofVariant (.map m)) =
      ⟨(m.valueOr (ascii "user") .invalid).toString,
        (m.valueOr (ascii (if loginType = .Token then "token" else "password")) .invalid).toString,
        loginType⟩ := by
  unfold UserLogin.fromRpcValue
  have hmap : (RpcValue.ofVariant (.map m)).isMap = true := rfl
  have has : (RpcValue.ofVariant (.map m)).asMap = m := rfl
  simp only [hmap, has, htype, if_true, if_neg loginType.toBytes_ne_nil,
    LoginType.fromString_toBytes h]

/-- The broker reads the login as it was made. -/
theorem fromRpcValue_params {conn : ClientLoginData} (h : conn.loginType ≠ .Invalid)
    (user_name pass : Bytes) :
    UserLogin.fromRpcValue ((conn.params user_name pass).asMap.valueOr KEY_LOGIN .invalid) =
      ⟨user_name, pass, conn.loginType⟩ := by
  have hlogin : (conn.params user_name pass).asMap.valueOr KEY_LOGIN .invalid =
      .ofVariant (.map
        [(ascii (if conn.loginType = .Token then "token" else "password"),
            .ofVariant (.string pass)),
          (ascii "type", .ofVariant (.string conn.loginType.toBytes)),
          (ascii "user", .ofVariant (.string user_name))]) := rfl
  rw [hlogin]
  by_cases htoken : conn.loginType = .Token
  · rw [htoken]
    exact @fromRpcValue_map _ .Token (by decide) rfl
  · rw [if_neg htoken]
    have hread := @fromRpcValue_map
      [(ascii "password", .ofVariant (.string pass)),
        (ascii "type", .ofVariant (.string conn.loginType.toBytes)),
        (ascii "user", .ofVariant (.string user_name))] _ h rfl
    rw [hread, if_neg htoken]
    rfl

/-! ## a login as a map -/

/-- `UserLogin::toRpcValueMap`. -/
def UserLogin.toRpcValueMap (login : UserLogin) : RpcValue :=
  let text (s : Bytes) : RpcValue := .ofVariant (.string s)
  .ofVariant (.map [(ascii "loginType", text login.loginType.toBytes),
    (ascii "password", text login.password), (ascii "user", text login.user)])

/-- The type is looked for under another key, so it is always the default one. -/
theorem fromRpcValue_toRpcValueMap (login : UserLogin) :
    UserLogin.fromRpcValue login.toRpcValueMap = ⟨login.user, login.password, .Sha1⟩ := by
  have hmap : login.toRpcValueMap.isMap = true := rfl
  have htype : (login.toRpcValueMap.asMap.valueOr (ascii "type") .invalid).toString = [] := rfl
  have huser : (login.toRpcValueMap.asMap.valueOr (ascii "user") .invalid).toString = login.user :=
    rfl
  have hpassword :
      (login.toRpcValueMap.asMap.valueOr (ascii "password") .invalid).toString = login.password :=
    rfl
  simp only [UserLogin.fromRpcValue, hmap, htype, huser, hpassword, reduceCtorEq, if_true, if_false]

/-- A login that is sent as its map is read as it was made, by itself and by the broker that is
asked for it, when its type is the default one. -/
theorem login_readBack_iff (login : UserLogin) :
    (UserLogin.fromRpcValue login.toRpcValueMap = login ∧
        ∀ conn : ClientConnectionOnBroker,
          conn.loginRequest.params.asMap.valueOr KEY_LOGIN .invalid = login.toRpcValueMap →
          conn.m_userLoginContext.userLogin.loginType = login.loginType) ↔
      login.loginType = .Sha1 := by
  rw [fromRpcValue_toRpcValueMap]
  constructor
  · intro h
    exact (congrArg UserLogin.loginType h.1).symm
  · intro hsha1
    refine ⟨by rw [← hsha1], ?_⟩
    intro conn hrequest
    have hread : conn.m_userLoginContext.userLogin = ⟨login.user, login.password, .Sha1⟩ := by
      rw [← fromRpcValue_toRpcValueMap, ← hrequest]
      rfl
    rw [hread, hsha1]

/-- A plain password comes back as a digest. -/
theorem login_readBack_plain :
    UserLogin.fromRpcValue
        (UserLogin.toRpcValueMap ⟨ascii "iot", ascii "lub", .Plain⟩) =
      ⟨ascii "iot", ascii "lub", .Sha1⟩ ∧
    (⟨ascii "iot", ascii "lub", .Sha1⟩ : UserLogin) ≠ ⟨ascii "iot", ascii "lub", .Plain⟩ :=
  ⟨fromRpcValue_toRpcValueMap ⟨ascii "iot", ascii "lub", .Plain⟩, by decide⟩

/-! ## logins with a password -/

/-- The stored password is this one, or the digest of this one. -/
def AclPassword.Stores (sha1Hex : Bytes → Bytes) (acl_pwd : AclPassword) (password : Bytes) : Prop :=
  match acl_pwd.format with
  | .Plain => acl_pwd.password = password
  | .Sha1 => acl_pwd.password = sha1Hex password
  | .Invalid => False

/-- The digest that the broker hashes with the nonce. -/
def AclPassword.digest (sha1Hex : Bytes → Bytes) (acl_pwd : AclPassword) : Bytes :=
  if acl_pwd.format = .Plain then sha1Hex acl_pwd.password else acl_pwd.password

/-- The texts that are hashed in one login, by the client or by the broker. -/
def hashedTexts (sha1Hex : Bytes → Bytes) (nonce password : Bytes) (acl_pwd : AclPassword) :
    Set Bytes :=
  {password, acl_pwd.password, nonce ++ sha1Hex password, nonce ++ acl_pwd.digest sha1Hex}

namespace AclManager

variable {sha1Hex : Bytes → Bytes} {acl_user : AclUser} {nonce password : Bytes}

theorem passwordOk_ite (p : Prop) [Decidable p] (login_error : String) :
    (if p then UserLoginResult.ok else .fail login_error).passwordOk = true ↔ p := by
  by_cases h : p <;> simp [h, UserLoginResult.ok, UserLoginResult.fail]

theorem checkUserPassword_plain (hvalid : acl_user.isValid = true) (user_name : Bytes) :
    (checkUserPassword sha1Hex acl_user ⟨some nonce, ⟨user_name, password, .Plain⟩⟩).passwordOk =
        true ↔
      acl_user.password.password ≠ [] ∧ acl_user.password.Stores sha1Hex password := by
  by_cases hempty : acl_user.password.password = []
  · simp [checkUserPassword, hvalid, hempty, UserLoginResult.fail]
  · cases hformat : acl_user.password.format with
    | Invalid => simp [AclUser.isValid, hformat] at hvalid
    | Plain =>
      simp [checkUserPassword, hvalid, hempty, hformat, AclPassword.Stores, passwordOk_ite]
    | Sha1 =>
      simp [checkUserPassword, hvalid, hempty, hformat, AclPassword.Stores, passwordOk_ite]

theorem checkUserPassword_sha1 (hvalid : acl_user.isValid = true) (user_name : Bytes) :
    (checkUserPassword sha1Hex acl_user ⟨some nonce, ⟨user_name, password, .Sha1⟩⟩).passwordOk =
        true ↔
      acl_user.password.password ≠ [] ∧
        password = sha1Hex (nonce ++ acl_user.password.digest sha1Hex) := by
  by_cases hempty : acl_user.password.password = []
  · simp [checkUserPassword, hvalid, hempty, UserLoginResult.fail]
  · simp [checkUserPassword, hvalid, hempty, AclPassword.digest, passwordOk_ite]

end AclManager

/-- Both sides come to the same digest for the stored password only. -/
theorem salted_eq_iff {sha1Hex : Bytes → Bytes} {nonce password : Bytes} {acl_pwd : AclPassword}
    (hvalid : acl_pwd.format ≠ .Invalid)
    (hinj : Set.InjOn sha1Hex (hashedTexts sha1Hex nonce password acl_pwd)) :
    sha1Hex (nonce ++ sha1Hex password) = sha1Hex (nonce ++ acl_pwd.digest sha1Hex) ↔
      acl_pwd.Stores sha1Hex password := by
  have hsalted : sha1Hex (nonce ++ sha1Hex password) = sha1Hex (nonce ++ acl_pwd.digest sha1Hex) ↔
      sha1Hex password = acl_pwd.digest sha1Hex := by
    rw [hinj.eq_iff (by simp [hashedTexts]) (by simp [hashedTexts])]
    exact List.append_cancel_left_eq nonce _ _ |>.to_iff
  rw [hsalted]
  obtain ⟨stored, format⟩ := acl_pwd
  cases format with
  | Invalid => contradiction
  | Plain =>
    have hplain : sha1Hex password = sha1Hex stored ↔ password = stored :=
      hinj.eq_iff (by simp [hashedTexts]) (by simp [hashedTexts])
    simp only [AclPassword.digest, AclPassword.Stores, if_true, hplain]
    exact eq_comm
  | Sha1 =>
    simp only [AclPassword.digest, AclPassword.Stores, reduceCtorEq, if_false]
    exact eq_comm

/-- A client with a password, and a broker that has its user, agree: the login is accepted for
the password that is stored, unless the stored one is empty. -/
theorem passwordLogin_accepted {B : AclBackend} (sha1Hex : Bytes → Bytes) (conn : ClientLoginData)
    (nonce : Bytes) (m : AclManager B) (acl_user : AclUser)
    (htype : conn.loginType = .Plain ∨ conn.loginType = .Sha1)
    (hpassword : isSha1Password conn.password = false)
    (huser : (m.user conn.user).1 = .ok acl_user) (hvalid : acl_user.isValid = true)
    (hinj : Set.InjOn sha1Hex (hashedTexts sha1Hex nonce conn.password acl_user.password)) :
    ∃ params result,
      conn.createLoginParams sha1Hex (helloResult nonce) = .ok params ∧
      (m.checkPassword sha1Hex
        ⟨some nonce, .fromRpcValue (params.asMap.valueOr KEY_LOGIN .invalid)⟩).1 = .ok result ∧
      (result.passwordOk = true ↔
        acl_user.password.password ≠ [] ∧ acl_user.password.Stores sha1Hex conn.password) := by
  have hparams : conn.createLoginParams sha1Hex (helloResult nonce) =
      .ok (conn.params conn.user (conn.pass sha1Hex (helloResult nonce))) := by
    obtain h | h := htype <;> simp [ClientLoginData.createLoginParams, h]
  have hlogin := @fromRpcValue_params conn (by obtain h | h := htype <;> simp [h]) conn.user
    (conn.pass sha1Hex (helloResult nonce))
  have hread : m.user conn.user = (.ok acl_user, (m.user conn.user).2) := Prod.ext huser rfl
  refine ⟨_, AclManager.checkUserPassword sha1Hex acl_user
    ⟨some nonce, ⟨conn.user, conn.pass sha1Hex (helloResult nonce), conn.loginType⟩⟩,
    hparams, ?_, ?_⟩
  · rw [hlogin, AclManager.checkPassword]
    simp only
    rw [hread]
  · obtain h | h := htype
    · have hpass : conn.pass sha1Hex (helloResult nonce) = conn.password := by
        simp [ClientLoginData.pass, h]
      rw [hpass, h]
      exact AclManager.checkUserPassword_plain hvalid conn.user
    · have hpass : conn.pass sha1Hex (helloResult nonce) =
          sha1Hex (nonce ++ sha1Hex conn.password) := by
        simp [ClientLoginData.pass, h, nonce_helloResult, hpassword]
      rw [hpass, h, AclManager.checkUserPassword_sha1 hvalid,
        salted_eq_iff (by simpa [AclUser.isValid] using hvalid) hinj]

/-- The digests of a password and of the text it is salted to. -/
def lubSha1Hex (s : Bytes) : Bytes :=
  if s = ascii "lub" then ascii "d4ec5c79dfabea2f4d48473f97d2d7c6c58222ab"
  else if s = ascii "1804289383d4ec5c79dfabea2f4d48473f97d2d7c6c58222ab" then
    ascii "afc7f135bf4c88e8dfe89bf5f0a9b1370d1d028b"
  else List.replicate 40 0x30

/-- A broker with one user and a plain password. -/
def brokerOf (password : Bytes) : AclManager .configFiles :=
  ⟨⟨[], [(ascii "iot", ⟨⟨password, .Plain⟩, []⟩)], [], []⟩, .empty, [], []⟩

def clientOf (password : Bytes) (loginType : LoginType) : ClientLoginData :=
  ⟨ascii "iot", password, loginType, .invalid, ascii "shv", false, none, none⟩

theorem injOn_lub :
    Set.InjOn lubSha1Hex
      (hashedTexts lubSha1Hex (ascii "1804289383") (ascii "lub") ⟨ascii "lub", .Plain⟩) := by
  have hsalted : ascii "1804289383" ++ lubSha1Hex (ascii "lub") =
      ascii "1804289383d4ec5c79dfabea2f4d48473f97d2d7c6c58222ab" := by decide
  have hne : lubSha1Hex (ascii "lub") ≠
      lubSha1Hex (ascii "1804289383d4ec5c79dfabea2f4d48473f97d2d7c6c58222ab") := by decide
  have htexts : hashedTexts lubSha1Hex (ascii "1804289383") (ascii "lub") ⟨ascii "lub", .Plain⟩ =
      {ascii "lub", ascii "1804289383d4ec5c79dfabea2f4d48473f97d2d7c6c58222ab"} := by
    simp only [hashedTexts, AclPassword.digest, if_true, hsalted, Set.pair_eq_singleton,
      Set.insert_eq_of_mem, Set.mem_insert_iff, true_or]
  rw [htexts, Set.injOn_pair]
  intro h
  exact absurd h hne

theorem passwordLogin_accepted_lub :
    ∃ params result,
      (clientOf (ascii "lub") .Sha1).createLoginParams lubSha1Hex
          (helloResult (ascii "1804289383")) = .ok params ∧
      ((brokerOf (ascii "lub")).checkPassword lubSha1Hex
        ⟨some (ascii "1804289383"),
          .fromRpcValue (params.asMap.valueOr KEY_LOGIN .invalid)⟩).1 = .ok result ∧
      (result.passwordOk = true ↔
        ascii "lub" ≠ [] ∧ AclPassword.Stores lubSha1Hex ⟨ascii "lub", .Plain⟩ (ascii "lub")) :=
  passwordLogin_accepted lubSha1Hex (clientOf (ascii "lub") .Sha1) (ascii "1804289383")
    (brokerOf (ascii "lub")) ⟨⟨ascii "lub", .Plain⟩, []⟩ (.inr rfl) (by decide) rfl rfl injOn_lub

/-- A user with an empty password cannot log in with it. -/
theorem not_accepted_emptyPassword :
    ∃ params result,
      (clientOf [] .Plain).createLoginParams lubSha1Hex (helloResult (ascii "1804289383")) =
        .ok params ∧
      ((brokerOf []).checkPassword lubSha1Hex
        ⟨some (ascii "1804289383"),
          .fromRpcValue (params.asMap.valueOr KEY_LOGIN .invalid)⟩).1 = .ok result ∧
      ((brokerOf []).user (ascii "iot")).1 = .ok ⟨⟨[], .Plain⟩, []⟩ ∧
      AclPassword.Stores lubSha1Hex ⟨[], .Plain⟩ [] ∧ result.passwordOk = false := by
  refine ⟨(clientOf [] .Plain).params (ascii "iot") [],
    .fail "Empty password not allowed.", rfl, ?_, rfl, rfl, rfl⟩
  have hlogin := @fromRpcValue_params (clientOf [] .Plain) (by decide) (ascii "iot") []
  rw [hlogin]
  rfl

end LibShv
