import CryptoBrokerage.OnboardingService
import CryptoBrokerage.Security
import Mathlib.Data.Rat.Encodable
import Mathlib.Logic.Encodable.Basic
import Mathlib.Logic.Equiv.List

/-! Whom a bearer token authenticates. `get_current_user` never looks at the `type`
claim that tells access and refresh tokens apart. -/
namespace CryptoBrokerage
open Transaction (Program Engine)

structure TokenResponse where
  accessToken : String
  refreshToken : String
  tokenType : String := "bearer"
  deriving DecidableEq, Repr

section Endpoints
variable (jwt : Jwt) (settings : Settings)

/-- The id in the `sub` claim. `uuid.UUID` takes strings only. -/
def tokenSubject (now : Timestamp) (token : String) : Except Exception Uuid := do
  let payload ← decodeToken jwt settings now token
  match payload.get "sub" with
  | none => .error (.authentication "Token missing 'sub' claim.")
  | some .null => .error (.authentication "Token missing 'sub' claim.")
  | some (.text userId) => UUID userId
  | some _ => .error (.other "AttributeError")

/-- The `except` clause of `get_current_user`. -/
def unauthorized (outcome : Except Exception Uuid) : Except Exception Uuid :=
  match outcome with
  | .error (.authentication message) => .error (.http 401 message)
  | .error (.value message) => .error (.http 401 message)
  | _ => outcome

def getCurrentUser (now : Timestamp) (token : String) : Action User := do
  let userId ← (.done (unauthorized (tokenSubject jwt settings now token)) : Action Uuid)
  match ← BaseRepository.getById .users userId with
  | none => .raise (.http 401 "User not found.")
  | some user => if user.isActive then pure user else .raise (.http 403 "User account is deactivated.")

/-- The clocks are the two readings of the clock that each token takes. -/
def login (lower : String → String) (verifyPassword : String → String → Except Exception Bool)
    (accessClock refreshClock : Timestamp × Timestamp) (username password : String) : Action TokenResponse := do
  match ← UserRepository.getByEmail lower username with
  | none => .raise (.http 401 "Invalid email or password.")
  | some user =>
    let verified ← (.done (verifyPassword password user.hashedPassword) : Action Bool)
    if verified = false then .raise (.http 401 "Invalid email or password.")
    else if user.isActive = false then .raise (.http 403 "User account is deactivated.")
    else
      pure { accessToken := createAccessToken jwt settings accessClock.1 accessClock.2 (str user.id)
             refreshToken := createRefreshToken jwt settings refreshClock.1 refreshClock.2 (str user.id) }

end Endpoints

def ActiveSubject (db : Database) (payload : Payload) (user : User) : Prop :=
  ∃ subject, payload.get "sub" = some (.text subject) ∧ UUID subject = .ok user.id ∧
    db.find .users user.id = some user ∧ user.isActive = true

section Tokens
variable {Client : Type} {server : Server Client} {client : Client} {jwt : Jwt} {settings : Settings} {now : Timestamp}
  {token : String} {db : Database} {user : User}

theorem tokenSubject_ok {id : Uuid} : unauthorized (tokenSubject jwt settings now token) = .ok id ↔
    ∃ payload subject, jwt.decode now token settings.jwtSecretKey [settings.jwtAlgorithm] = some payload ∧
      payload.get "sub" = some (.text subject) ∧ UUID subject = .ok id := by
  have passed (outcome : Except Exception Uuid) : unauthorized outcome = .ok id ↔ outcome = .ok id := by
    unfold unauthorized
    split <;> simp
  rw [passed]
  unfold tokenSubject decodeToken
  constructor
  · intro found
    split at found
    · next payload decoded =>
      change (match payload.get "sub" with
        | none => _
        | some .null => _
        | some (.text userId) => UUID userId
        | some _ => _) = Except.ok id at found
      split at found
      · cases found
      · cases found
      · next subject named => exact ⟨payload,subject,decoded,named,found⟩
      · cases found
    · cases found
  · rintro ⟨payload,subject,decoded,named,found⟩
    rw [decoded]
    change (match payload.get "sub" with
      | none => _
      | some .null => _
      | some (.text userId) => UUID userId
      | some _ => _) = Except.ok id
    rw [named]
    exact found

theorem getCurrentUser_named {id : Uuid} (named : unauthorized (tokenSubject jwt settings now token) = .ok id) :
    (server.engine.transact client (getCurrentUser jwt settings now token) db).outcome =
      match db.find .users id with
      | none => .error (.http 401 "User not found.")
      | some user => if user.isActive then .ok user else .error (.http 403 "User account is deactivated.") := by
  rw [Engine.transact_outcome,getCurrentUser,named]
  change (server.engine.run client (match db.find .users id with
    | none => Program.raise (S := sql) (.http 401 "User not found.")
    | some user => if user.isActive then pure user
      else Program.raise (S := sql) (.http 403 "User account is deactivated.")) _).1 = _
  cases db.find .users id with
  | none => rfl
  | some other =>
    cases active : other.isActive with
    | false =>
      simp only [active]
      rfl
    | true =>
      simp only [active]
      rfl

theorem getCurrentUser_ok :
    (server.engine.transact client (getCurrentUser jwt settings now token) db).outcome = .ok user ↔
      ∃ payload, jwt.decode now token settings.jwtSecretKey [settings.jwtAlgorithm] = some payload ∧
        ActiveSubject db payload user := by
  constructor
  · intro accepted
    cases named : unauthorized (tokenSubject jwt settings now token) with
    | error error =>
      rw [Engine.transact_outcome,getCurrentUser,named] at accepted
      cases accepted
    | ok id =>
      rw [getCurrentUser_named named] at accepted
      obtain ⟨payload,subject,decoded,claimed,parsed⟩ := tokenSubject_ok.mp named
      cases found : db.find .users id with
      | none =>
        rw [found] at accepted
        cases accepted
      | some other =>
        rw [found] at accepted
        obtain rfl : other.id = id := (Database.find_some found).2
        cases active : other.isActive with
        | false => simp [active] at accepted
        | true =>
          obtain rfl : other = user := by simpa [active] using accepted
          exact ⟨payload,decoded,subject,claimed,parsed,found,active⟩
  · rintro ⟨payload,decoded,subject,claimed,parsed,found,active⟩
    rw [getCurrentUser_named (tokenSubject_ok.mpr ⟨payload,subject,decoded,claimed,parsed⟩),found]
    simp [active]

theorem signed_authenticates (faithful : jwt.Faithful) (found : db.find .users user.id = some user)
    (active : user.isActive = true) {payload : Payload} (named : payload.get "sub" = some (.text (str user.id)))
    (fresh : payload.unexpired now = true) :
    (server.engine.transact client (getCurrentUser jwt settings now
      (jwt.encode payload settings.jwtSecretKey settings.jwtAlgorithm)) db).outcome = .ok user :=
  getCurrentUser_ok.mpr ⟨payload,faithful.reads fresh,str user.id,named,UUID_str _,found,active⟩

theorem access_authenticates (faithful : jwt.Faithful) (found : db.find .users user.id = some user)
    (active : user.isActive = true) {clock issued : Timestamp}
    (fresh : now ≤ clock + accessWindow settings none) :
    (server.engine.transact client (getCurrentUser jwt settings now
      (createAccessToken jwt settings clock issued (str user.id))) db).outcome = .ok user := by
  refine signed_authenticates faithful found active rfl ?_
  simpa [Payload.unexpired,Payload.get,Payload.merge,accessClaims,List.lookup_cons] using fresh

/-- A refresh token authenticates no less than an access token, and for longer. -/
theorem refresh_authenticates (faithful : jwt.Faithful) (found : db.find .users user.id = some user)
    (active : user.isActive = true) {clock issued : Timestamp}
    (fresh : now ≤ clock + settings.jwtRefreshTokenExpireDays * 86400) :
    (server.engine.transact client (getCurrentUser jwt settings now
      (createRefreshToken jwt settings clock issued (str user.id))) db).outcome = .ok user := by
  refine signed_authenticates faithful found active rfl ?_
  simpa [Payload.unexpired,Payload.get,refreshClaims,List.lookup_cons] using fresh

variable (server client jwt settings now token db) in
/-- Who is returned is active and named by an access token without extra claims,
and no refresh token returns anyone. -/
def AccessOnly : Prop :=
  (∀ user, (server.engine.transact client (getCurrentUser jwt settings now token) db).outcome = .ok user →
    (∃ clock issued subject delta, token = createAccessToken jwt settings clock issued subject none delta ∧
      UUID subject = .ok user.id) ∧ user ∈ db .users ∧ user.isActive = true) ∧
  ∀ clock issued subject, token = createRefreshToken jwt settings clock issued subject → ∀ user,
    (server.engine.transact client (getCurrentUser jwt settings now token) db).outcome ≠ .ok user

def Payload.Access (payload : Payload) : Prop :=
  ∃ subject expire issued, payload = accessClaims subject expire issued

end Tokens

/-- `get_current_user` accepts access tokens only exactly if no unexpired token
of another kind names an active user. -/
theorem access_only_iff {Client : Type} (server : Server Client) (client : Client) (jwt : Jwt)
    (faithful : jwt.Faithful) (settings : Settings) (now : Timestamp) (token : String) (db : Database) :
    AccessOnly server client jwt settings now token db ↔
      ∀ payload user, token = jwt.encode payload settings.jwtSecretKey settings.jwtAlgorithm →
        payload.unexpired now = true → ActiveSubject db payload user → payload.Access := by
  constructor
  · rintro ⟨access,_⟩ payload user rfl fresh active
    obtain ⟨⟨clock,issued,subject,delta,same,_⟩,_⟩ :=
      access user (getCurrentUser_ok.mpr ⟨payload,faithful.reads fresh,active⟩)
    exact ⟨_,_,_,faithful.single same⟩
  · intro sole
    have kind (user : User) (accepted : (server.engine.transact client (getCurrentUser jwt settings now token) db).outcome =
        .ok user) : ∃ subject expire issued, token = jwt.encode (accessClaims subject expire issued)
          settings.jwtSecretKey settings.jwtAlgorithm ∧ UUID subject = .ok user.id ∧ user ∈ db .users ∧
          user.isActive = true := by
      obtain ⟨payload,decoded,active⟩ := getCurrentUser_ok.mp accepted
      obtain ⟨signed,fresh⟩ := faithful.rejects decoded
      obtain ⟨subject,expire,issued,rfl⟩ := sole payload user signed fresh active
      obtain ⟨claimed,named,parsed,found,active⟩ := active
      cases named
      exact ⟨_,_,_,signed,parsed,(Database.find_some found).1,active⟩
    constructor
    · intro user accepted
      obtain ⟨subject,expire,issued,signed,parsed,member,active⟩ := kind user accepted
      refine ⟨⟨expire - accessWindow settings none,issued,subject,none,?_,parsed⟩,member,active⟩
      rw [signed,createAccessToken,sub_add_cancel]
      rfl
    · intro clock issued subject refresh user accepted
      obtain ⟨_,_,_,signed,_⟩ := kind user accepted
      have types := congrArg (fun payload => payload.get "type") (faithful.single (refresh.symm.trans signed))
      simp [Payload.get,refreshClaims,accessClaims,List.lookup_cons] at types

section Sample

def letters (text : String) : List ℕ := text.toList.map Char.toNat

def spell (letters : List ℕ) : String := String.ofList (letters.map Char.ofNat)

@[simp] theorem spell_letters (text : String) : spell (letters text) = text := by
  simp [spell,letters,Function.comp_def]

def Claim.code : Claim → ℕ × List ℕ × ℚ
  | .null => (0,[],0)
  | .text value => (1,letters value,0)
  | .time value => (2,[],value)
  | .other json => (3,letters json,0)

def Claim.ofCode : ℕ × List ℕ × ℚ → Claim
  | (0,_,_) => .null
  | (1,value,_) => .text (spell value)
  | (2,_,value) => .time value
  | (_,json,_) => .other (spell json)

@[simp] theorem Claim.ofCode_code (claim : Claim) : Claim.ofCode claim.code = claim := by
  cases claim <;> simp [code,ofCode]

def sampleToken (payload : Payload) (key algorithm : String) : String :=
  String.ofList (List.replicate (Encodable.encode
    (payload.map (fun pair => (letters pair.1,pair.2.code)),letters key,letters algorithm)) '.')

def tokenParts (token : String) : Option (Payload × String × String) :=
  (Encodable.decode token.length : Option (List (List ℕ × ℕ × List ℕ × ℚ) × List ℕ × List ℕ)).map fun coded =>
    (coded.1.map (fun pair => (spell pair.1,Claim.ofCode pair.2)),spell coded.2.1,spell coded.2.2)

def sampleJwt : Jwt where
  encode := sampleToken
  decode now token key algorithms := (tokenParts token).bind fun parts =>
    if token = sampleToken parts.1 key parts.2.2 ∧ parts.2.2 ∈ algorithms ∧ parts.1.unexpired now = true then some parts.1
    else none

theorem tokenParts_sampleToken (payload : Payload) (key algorithm : String) :
    tokenParts (sampleToken payload key algorithm) = some (payload,key,algorithm) := by
  rw [tokenParts,sampleToken,String.length_ofList,List.length_replicate,Encodable.encodek]
  simp [Function.comp_def]

theorem sampleJwt_faithful : sampleJwt.Faithful where
  single {payload other key algorithm} same := by
    have parts := tokenParts_sampleToken payload key algorithm
    rw [show sampleToken payload key algorithm = sampleToken other key algorithm from same,
      tokenParts_sampleToken] at parts
    exact (Prod.mk.inj (Option.some.inj parts)).1.symm
  reads {payload key algorithm now} fresh := by
    simp only [sampleJwt,tokenParts_sampleToken,Option.bind_some,fresh,List.mem_singleton,and_self,if_true]
  rejects {payload token key algorithm now} decoded := by
    obtain ⟨parts,_,kept⟩ := Option.bind_eq_some_iff.mp decoded
    obtain ⟨⟨signed,among,fresh⟩,same⟩ := Option.ite_none_right_eq_some.mp kept
    obtain rfl := Option.some.inj same
    rw [List.mem_singleton.mp among] at signed
    exact ⟨signed,fresh⟩

theorem access_single {jwt : Jwt} (faithful : jwt.Faithful) (settings : Settings) (now : Timestamp) (db : Database)
    {subject : String} {expire issued : Timestamp} :
    ∀ payload user, jwt.encode (accessClaims subject expire issued) settings.jwtSecretKey settings.jwtAlgorithm =
      jwt.encode payload settings.jwtSecretKey settings.jwtAlgorithm → payload.unexpired now = true →
      ActiveSubject db payload user → payload.Access :=
  fun _ _ same _ _ => ⟨_,_,_,(faithful.single same).symm⟩

/-- The access token of a login authenticates, and as such. -/
theorem access_only_access :
    ∃ response : TokenResponse,
      (sampleServer.engine.transact 0 (login sampleJwt {} id (fun _ _ => .ok true) (0,0) (0,0) "ana@example.com" "secret")
        sample).outcome = .ok response ∧
      (sampleServer.engine.transact 0 (getCurrentUser sampleJwt {} 60 response.accessToken) sample).outcome =
        .ok ⟨1,"ana@example.com","",true⟩ ∧
      AccessOnly sampleServer 0 sampleJwt {} 60 response.accessToken sample := by
  refine ⟨⟨createAccessToken sampleJwt {} 0 0 (str 1),createRefreshToken sampleJwt {} 0 0 (str 1),"bearer"⟩,rfl,?_,?_⟩
  · exact @access_authenticates _ sampleServer 0 sampleJwt {} 60 sample ⟨1,"ana@example.com","",true⟩
      sampleJwt_faithful rfl rfl 0 0 (by norm_num [accessWindow])
  · exact (access_only_iff sampleServer 0 sampleJwt sampleJwt_faithful {} 60 _ sample).mpr
      (access_single sampleJwt_faithful {} 60 sample)

/-- The refresh token of a login authenticates too, also when the access token
has expired. -/
theorem refresh_accepted :
    ∃ response : TokenResponse,
      (sampleServer.engine.transact 0 (login sampleJwt {} id (fun _ _ => .ok true) (0,0) (0,0) "ana@example.com" "secret")
        sample).outcome = .ok response ∧
      (sampleServer.engine.transact 0 (getCurrentUser sampleJwt {} 7200 response.refreshToken) sample).outcome =
        .ok ⟨1,"ana@example.com","",true⟩ ∧
      ¬AccessOnly sampleServer 0 sampleJwt {} 7200 response.refreshToken sample := by
  have accepted := @refresh_authenticates _ sampleServer 0 sampleJwt {} 7200 sample ⟨1,"ana@example.com","",true⟩
    sampleJwt_faithful rfl rfl 0 0 (by norm_num)
  refine ⟨⟨createAccessToken sampleJwt {} 0 0 (str 1),createRefreshToken sampleJwt {} 0 0 (str 1),"bearer"⟩,rfl,accepted,?_⟩
  intro only
  exact only.2 0 0 (str 1) rfl _ accepted

end Sample

end CryptoBrokerage
