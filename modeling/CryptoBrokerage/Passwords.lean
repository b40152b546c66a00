import CryptoBrokerage.Authentication
import CryptoBrokerage.Registration

/-! Which of the passwords that the schema admits can be hashed and verified. The
schema counts characters, `bcrypt` counts bytes. -/
namespace CryptoBrokerage
open Transaction (Engine)

structure Bcrypt where
  gensalt : (draw : ℕ) → ByteArray
  hashpw : (password salt : ByteArray) → Except Exception ByteArray
  checkpw : (password hashed : ByteArray) → Except Exception Bool

/-- Passwords over 72 bytes are refused. All others have a hash, which is text and
which no other password passes. -/
structure Bcrypt.Documented (bcrypt : Bcrypt) : Prop where
  hashRefuses : ∀ password salt, 72 < password.size → ∃ message, bcrypt.hashpw password salt = .error (.value message)
  checkRefuses : ∀ password hashed, 72 < password.size →
    ∃ message, bcrypt.checkpw password hashed = .error (.value message)
  hashes : ∀ password draw, password.size ≤ 72 →
    ∃ text : String, bcrypt.hashpw password (bcrypt.gensalt draw) = .ok text.toUTF8
  checks : ∀ password other draw hashed, password.size ≤ 72 → other.size ≤ 72 →
    bcrypt.hashpw password (bcrypt.gensalt draw) = .ok hashed →
    bcrypt.checkpw other hashed = .ok (decide (other = password))

def decodeUtf8 (bytes : ByteArray) : Except Exception String :=
  match String.fromUTF8? bytes with
  | some text => .ok text
  | none => .error (.other "UnicodeDecodeError")

section Hashing
variable (bcrypt : Bcrypt)

def hashPassword (draw : ℕ) (plainPassword : String) : Except Exception String := do
  let hashed ← bcrypt.hashpw plainPassword.toUTF8 (bcrypt.gensalt draw)
  decodeUtf8 hashed

def verifyPassword (plainPassword hashedPassword : String) : Except Exception Bool :=
  bcrypt.checkpw plainPassword.toUTF8 hashedPassword.toUTF8

def Verifies (draw : ℕ) (password other : String) : Prop :=
  ∃ hashed, hashPassword bcrypt draw password = .ok hashed ∧
    verifyPassword bcrypt other hashed = .ok (decide (other = password))

end Hashing

def passwordErrors (password : String) : List String :=
  if 8 ≤ password.length ∧ password.length ≤ 128 then [] else ["password"]

structure UserCreate where
  email : String
  password : String
  fullName : String
  country : String
  taxId : Option String := none
  deriving DecidableEq, Repr

namespace UserCreate
variable (normalizeEmail : String → Option String) (upper : String → String) (payload : UserCreate)

/-- The fields outside their declared bounds. `EmailStr` is a parameter. -/
def fieldErrors : List String :=
  (if normalizeEmail payload.email = none then ["email"] else []) ++
  passwordErrors payload.password ++
  (if 1 ≤ payload.fullName.length ∧ payload.fullName.length ≤ 255 then [] else ["full_name"]) ++
  (if payload.country.length = 2 then [] else ["country"]) ++
  (if ∃ taxId ∈ payload.taxId, 64 < taxId.length then ["tax_id"] else [])

def validate : Except Exception Registration :=
  if payload.fieldErrors normalizeEmail = [] then
    .ok { email := (normalizeEmail payload.email).getD payload.email, password := payload.password
          fullName := payload.fullName, country := upper payload.country, taxId := payload.taxId }
  else .error (.requestValidation (payload.fieldErrors normalizeEmail))

end UserCreate

def register (normalizeEmail : String → Option String) (upper : String → String) (service : OnboardingService)
    (payload : UserCreate) : Action UserRegistrationResult := do
  let request ← (.done (payload.validate normalizeEmail upper) : Action Registration)
  match ← (service.registerUser request).attempt with
  | .ok result => pure result
  | .error (.userAlreadyExists message) => .raise (.http 409 message)
  | .error error => .raise error

abbrev AdmittedPassword := { password : String // passwordErrors password = [] }

theorem UserCreate.validate_password {normalizeEmail : String → Option String} {upper : String → String}
    {payload : UserCreate} {request : Registration} (admitted : payload.validate normalizeEmail upper = .ok request) :
    passwordErrors request.password = [] := by
  unfold UserCreate.validate at admitted
  split at admitted
  · next fields =>
    cases admitted
    simp only [UserCreate.fieldErrors,List.append_eq_nil_iff] at fields
    exact fields.1.1.1.2
  · cases admitted

theorem bytes_ofList (letters : List Char) : (String.ofList letters).utf8ByteSize = (letters.map Char.utf8Size).sum := by
  induction letters with
  | nil => rfl
  | cons letter rest ih =>
    rw [String.ofList_cons,String.utf8ByteSize_append,String.utf8ByteSize_singleton,ih,List.map_cons,List.sum_cons]

/-- A character is one to four bytes. -/
theorem bytes_bounds (text : String) : text.length ≤ text.utf8ByteSize ∧ text.utf8ByteSize ≤ 4 * text.length := by
  obtain ⟨letters,rfl⟩ : ∃ letters, text = String.ofList letters := ⟨text.toList,String.ofList_toList.symm⟩
  rw [bytes_ofList,String.length_ofList]
  induction letters with
  | nil => simp
  | cons letter rest ih =>
    have least := Char.utf8Size_pos letter
    have most := Char.utf8Size_le_four letter
    rw [List.map_cons,List.sum_cons,List.length_cons]
    omega

section Verification
variable {bcrypt : Bcrypt} {draw : ℕ} {password other : String}

theorem decodeUtf8_text (text : String) : decodeUtf8 text.toUTF8 = .ok text := by
  have decoded : String.fromUTF8? text.toUTF8 = some text := dif_pos text.isValidUTF8
  rw [decodeUtf8,decoded]

theorem hashPassword_long (documented : bcrypt.Documented) (long : 72 < password.utf8ByteSize) :
    ∃ message, hashPassword bcrypt draw password = .error (.value message) := by
  obtain ⟨message,refused⟩ := documented.hashRefuses password.toUTF8 (bcrypt.gensalt draw) long
  refine ⟨message,?_⟩
  rw [hashPassword,refused]
  rfl

theorem verifyPassword_long (documented : bcrypt.Documented) (long : 72 < other.utf8ByteSize) (hashed : String) :
    ∃ message, verifyPassword bcrypt other hashed = .error (.value message) :=
  documented.checkRefuses other.toUTF8 hashed.toUTF8 long

theorem hashPassword_short (documented : bcrypt.Documented) (short : password.utf8ByteSize ≤ 72) :
    ∃ hashed, hashPassword bcrypt draw password = .ok hashed ∧
      bcrypt.hashpw password.toUTF8 (bcrypt.gensalt draw) = .ok hashed.toUTF8 := by
  obtain ⟨hashed,made⟩ := documented.hashes password.toUTF8 draw short
  refine ⟨hashed,?_,made⟩
  rw [hashPassword,made]
  exact decodeUtf8_text hashed

theorem verifies_short (documented : bcrypt.Documented) (short : password.utf8ByteSize ≤ 72)
    (same : other.utf8ByteSize ≤ 72) : Verifies bcrypt draw password other := by
  obtain ⟨hashed,returned,made⟩ := @hashPassword_short bcrypt draw _ documented short
  refine ⟨hashed,returned,?_⟩
  have checked := documented.checks password.toUTF8 other.toUTF8 draw hashed.toUTF8 short same made
  rw [verifyPassword,checked]
  simp only [String.toUTF8_eq_toByteArray,String.toByteArray_inj]

end Verification

/-- Admitted passwords work exactly up to 72 bytes. -/
theorem admitted_password_iff {bcrypt : Bcrypt} (documented : bcrypt.Documented) (draw : ℕ)
    (password other : AdmittedPassword) :
    Verifies bcrypt draw password.1 other.1 ↔ password.1.utf8ByteSize ≤ 72 ∧ other.1.utf8ByteSize ≤ 72 := by
  constructor
  · rintro ⟨hashed,returned,verified⟩
    constructor
    · by_contra long
      obtain ⟨message,refused⟩ := @hashPassword_long bcrypt draw _ documented (not_le.mp long)
      rw [refused] at returned
      cases returned
    · by_contra long
      obtain ⟨message,refused⟩ := verifyPassword_long documented (not_le.mp long) hashed
      rw [refused] at verified
      cases verified
  · exact fun both => verifies_short documented both.1 both.2

/-- Up to 18 characters every password works, over 72 characters none. -/
theorem admitted_password_lengths {bcrypt : Bcrypt} (documented : bcrypt.Documented) (draw : ℕ)
    (password : AdmittedPassword) :
    (password.1.length ≤ 18 → ∀ other : AdmittedPassword, other.1.length ≤ 18 →
      Verifies bcrypt draw password.1 other.1) ∧
    (72 < password.1.length → ∃ message, hashPassword bcrypt draw password.1 = .error (.value message)) := by
  constructor
  · intro short other brief
    have bytes := (bytes_bounds password.1).2
    have more := (bytes_bounds other.1).2
    exact verifies_short documented (by omega) (by omega)
  · intro long
    exact hashPassword_long documented (Nat.lt_of_lt_of_le long (bytes_bounds password.1).1)

section Endpoints
variable {Client : Type} {server : Server Client} {client : Client} {lower : String → String} {currency : String}
  {bcrypt : Bcrypt} {draw : ℕ} {db : Database}

theorem run_registerUser_long (documented : bcrypt.Documented) {request : Registration}
    (fresh : ¬Taken (lower request.email) db) (long : 72 < request.password.utf8ByteSize) :
    ∃ message view, server.engine.run client
      ((⟨lower,hashPassword bcrypt draw,currency⟩ : OnboardingService).registerUser request) ⟨db,[]⟩ =
        (.error (.value message),view) := by
  obtain ⟨message,refused⟩ := @hashPassword_long bcrypt draw _ documented long
  obtain ⟨next,opening,raises⟩ : ∃ next : Except Exception (Option Uuid) → Action UserRegistrationResult,
      (⟨lower,hashPassword bcrypt draw,currency⟩ : OnboardingService).registerUser request =
        .call (.selectUserId (lower request.email)) next ∧ next (.ok none) = .done (.error (.value message)) := by
    refine ⟨_,rfl,?_⟩
    change ((.done (hashPassword bcrypt draw request.password) : Action String) >>= _) = _
    rw [refused]
    rfl
  have unknown : (db .users).find? (fun user => user.email == lower request.email) = none := by
    apply List.find?_eq_none.mpr
    intro user member same
    exact fresh ⟨user,member,by simpa using same⟩
  have asked : server.engine.exec client 0 (.selectUserId (lower request.email)) db = .ok (none,[]) := by
    change Except.ok (((db .users).find? (fun user => user.email == lower request.email)).map User.id,[]) = _
    rw [unknown]
    rfl
  rw [opening,Engine.run_call,Engine.issue_ok _ asked,raises]
  exact ⟨message,_,rfl⟩

/-- A registration that the schema admits, with a password of more than 72 bytes,
fails and writes nothing. -/
theorem register_long (documented : bcrypt.Documented) {normalizeEmail : String → Option String}
    {upper : String → String} {payload : UserCreate} {request : Registration}
    (admitted : payload.validate normalizeEmail upper = .ok request) (fresh : ¬Taken (lower request.email) db)
    (long : 72 < request.password.utf8ByteSize) :
    ∃ message, (server.engine.transact client (register normalizeEmail upper
        ⟨lower,hashPassword bcrypt draw,currency⟩ payload) db).outcome = .error (.value message) ∧
      (server.engine.transact client (register normalizeEmail upper
        ⟨lower,hashPassword bcrypt draw,currency⟩ payload) db).after = db := by
  obtain ⟨message,view,ran⟩ := @run_registerUser_long _ server client lower currency bcrypt draw db documented _ fresh long
  have outcome : (server.engine.transact client (register normalizeEmail upper
      ⟨lower,hashPassword bcrypt draw,currency⟩ payload) db).outcome = .error (.value message) := by
    rw [Engine.transact_outcome,register,admitted]
    change (server.engine.run client ((OnboardingService.registerUser _ request).attempt >>= _) ⟨db,[]⟩).1 = _
    rw [Engine.run_bind,Engine.run_attempt,ran]
    rfl
  exact ⟨message,outcome,Engine.transact_rollback _ _ _ _ _ outcome⟩

end Endpoints

section Sample

/-- A `bcrypt` whose hashes are the salt and the password, each byte a character. -/
def spelled (bytes : ByteArray) : String := String.ofList (bytes.data.toList.map fun byte => Char.ofNat byte.toNat)

def sampleBcrypt : Bcrypt where
  gensalt _ := "$2b$12$".toUTF8
  hashpw password salt :=
    if 72 < password.size then .error (.value "password cannot be longer than 72 bytes")
    else .ok (salt ++ (spelled password).toUTF8)
  checkpw password hashed :=
    if 72 < password.size then .error (.value "password cannot be longer than 72 bytes")
    else .ok (decide (hashed = "$2b$12$".toUTF8 ++ (spelled password).toUTF8))

theorem spelled_single {bytes other : ByteArray} (same : spelled bytes = spelled other) : bytes = other := by
  have read (byte : UInt8) : (Char.ofNat byte.toNat).toNat = byte.toNat := by
    rw [Char.toNat_ofNat,if_pos (Or.inl (by have small := byte.toNat_lt; omega))]
  have letters : Function.Injective fun byte : UInt8 => Char.ofNat byte.toNat := by
    intro byte another alike
    have number := congrArg Char.toNat alike
    simp only [read] at number
    exact UInt8.toNat_inj.mp number
  exact ByteArray.ext (Array.toList_inj.mp (letters.list_map (String.ofList_injective same)))

theorem sampleBcrypt_documented : sampleBcrypt.Documented where
  hashRefuses password salt long := ⟨_,if_pos long⟩
  checkRefuses password hashed long := ⟨_,if_pos long⟩
  hashes password draw short := by
    refine ⟨"$2b$12$" ++ spelled password,?_⟩
    rw [String.toUTF8_eq_toByteArray,String.toByteArray_append]
    exact if_neg (not_lt.mpr short)
  checks password other draw hashed short brief made := by
    have hash : Except.ok ("$2b$12$".toUTF8 ++ (spelled password).toUTF8) = Except.ok hashed :=
      (if_neg (not_lt.mpr short)).symm.trans made
    cases hash
    refine (if_neg (not_lt.mpr brief)).trans ?_
    congr 2
    rw [ByteArray.append_right_inj,String.toUTF8_eq_toByteArray,String.toUTF8_eq_toByteArray,String.toByteArray_inj]
    exact propext ⟨fun same => (spelled_single same).symm,fun same => same ▸ rfl⟩

def faces : AdmittedPassword := ⟨String.ofList (List.replicate 19 '😀'),by decide⟩

def samplePassword : AdmittedPassword := ⟨"correct horse",by decide⟩

/-- A password verifies against its own hash. -/
theorem admitted_password_plain : Verifies sampleBcrypt 0 samplePassword.1 samplePassword.1 :=
  (admitted_password_iff sampleBcrypt_documented 0 samplePassword samplePassword).mpr (by decide)

/-- An admitted password of 76 bytes is neither hashed nor verified. -/
theorem admitted_password_faces :
    sampleBcrypt.Documented ∧ (∀ other : AdmittedPassword, ¬Verifies sampleBcrypt 0 faces.1 other.1) ∧
      ¬Verifies sampleBcrypt 0 samplePassword.1 faces.1 := by
  have long : 72 < faces.1.utf8ByteSize := by decide
  refine ⟨sampleBcrypt_documented,?_,?_⟩
  · rintro other ⟨hashed,returned,_⟩
    obtain ⟨message,refused⟩ := @hashPassword_long sampleBcrypt 0 _ sampleBcrypt_documented long
    rw [refused] at returned
    cases returned
  · rintro ⟨hashed,_,verified⟩
    obtain ⟨message,refused⟩ := verifyPassword_long sampleBcrypt_documented long hashed
    rw [refused] at verified
    cases verified

end Sample

end CryptoBrokerage
