import CryptoBrokerage.Models

/-! The tokens of the platform. `jose.jwt` is a parameter: what it makes of a
payload under a key and an algorithm, and what it reads from a string. -/
namespace CryptoBrokerage

/-- The value of a claim. Only strings and times are looked into. -/
inductive Claim
  | null
  | text (value : String)
  | time (value : Timestamp)
  | other (json : String)
  deriving DecidableEq, Repr

abbrev Payload := List (String × Claim)

namespace Payload

def get (payload : Payload) (name : String) : Option Claim := payload.lookup name

def set (payload : Payload) (name : String) (claim : Claim) : Payload :=
  if payload.any (·.1 == name) then payload.map fun pair => if pair.1 = name then (name,claim) else pair
  else payload ++ [(name,claim)]

def merge (payload extra : Payload) : Payload :=
  extra.foldl (fun payload pair => payload.set pair.1 pair.2) payload

def unexpired (payload : Payload) (now : Timestamp) : Bool :=
  match payload.get "exp" with
  | none => true
  | some (.time expire) => decide (now ≤ expire)
  | some _ => false

end Payload

/-- `jwt.encode` and `jwt.decode`, without a payload where it raises JWTError. -/
structure Jwt where
  encode : Payload → (key algorithm : String) → String
  decode : (now : Timestamp) → (token key : String) → (algorithms : List String) → Option Payload

/-- Exactly the unexpired strings made with the key are read, each as the payload
it was made of. -/
structure Jwt.Faithful (jwt : Jwt) : Prop where
  single : ∀ {payload other key algorithm},
    jwt.encode payload key algorithm = jwt.encode other key algorithm → payload = other
  reads : ∀ {payload key algorithm now}, payload.unexpired now = true →
    jwt.decode now (jwt.encode payload key algorithm) key [algorithm] = some payload
  rejects : ∀ {payload token key algorithm now}, jwt.decode now token key [algorithm] = some payload →
    token = jwt.encode payload key algorithm ∧ payload.unexpired now = true

structure Settings where
  jwtSecretKey : String := "CHANGE_ME_IN_PRODUCTION_USE_STRONG_SECRET"
  jwtAlgorithm : String := "HS256"
  jwtAccessTokenExpireMinutes : ℕ := 60
  jwtRefreshTokenExpireDays : ℕ := 7

def accessClaims (subject : String) (expire issued : Timestamp) : Payload :=
  [("sub",.text subject),("exp",.time expire),("iat",.time issued),("type",.text "access")]

def refreshClaims (subject : String) (expire issued : Timestamp) : Payload :=
  [("sub",.text subject),("exp",.time expire),("iat",.time issued),("type",.text "refresh")]

section Tokens
variable (jwt : Jwt) (settings : Settings)

/-- A delta of zero counts as none. -/
def accessWindow (expiresDelta : Option ℚ) : ℚ :=
  match expiresDelta with
  | some delta => if delta = 0 then settings.jwtAccessTokenExpireMinutes * 60 else delta
  | none => settings.jwtAccessTokenExpireMinutes * 60

/-- `now` and `issued` are the two readings of the clock. -/
def createAccessToken (now issued : Timestamp) (subject : String) (extraClaims : Option Payload := none)
    (expiresDelta : Option ℚ := none) : String :=
  jwt.encode ((accessClaims subject (now + accessWindow settings expiresDelta) issued).merge (extraClaims.getD []))
    settings.jwtSecretKey settings.jwtAlgorithm

def createRefreshToken (now issued : Timestamp) (subject : String) : String :=
  jwt.encode (refreshClaims subject (now + settings.jwtRefreshTokenExpireDays * 86400) issued)
    settings.jwtSecretKey settings.jwtAlgorithm

def decodeToken (now : Timestamp) (token : String) : Except Exception Payload :=
  match jwt.decode now token settings.jwtSecretKey [settings.jwtAlgorithm] with
  | some payload => .ok payload
  | none => .error (.authentication "Invalid or expired token.")

end Tokens

def removed (pattern : List Char) : Nat → List Char → List Char
  | _, [] => []
  | skip + 1, _::rest => removed pattern skip rest
  | 0, char::rest =>
    if pattern.isPrefixOf (char::rest) then removed pattern (pattern.length - 1) rest
    else char::removed pattern 0 rest

def hexValue (char : Char) : Option Nat :=
  if '0' ≤ char ∧ char ≤ '9' then some (char.toNat - 48)
  else if 'a' ≤ char ∧ char ≤ 'f' then some (char.toNat - 87)
  else if 'A' ≤ char ∧ char ≤ 'F' then some (char.toNat - 55)
  else none

def readDigits : (barred : Bool) → (number : Nat) → List Char → Option Nat
  | barred, number, [] => if barred then none else some number
  | barred, number, char::rest =>
    if char = '_' then if barred then none else readDigits true number rest
    else (hexValue char).bind fun value => readDigits false (16 * number + value) rest

/-- The zeros of the decimal digits of Unicode 15.0 outside ASCII; the other nine
follow each. -/
def decimalZeros : List ℕ :=
  [0x660,0x6f0,0x7c0,0x966,0x9e6,0xa66,0xae6,0xb66,0xbe6,0xc66,0xce6,0xd66,0xde6,0xe50,0xed0,0xf20,0x1040,0x1090,
    0x17e0,0x1810,0x1946,0x19d0,0x1a80,0x1a90,0x1b50,0x1bb0,0x1c40,0x1c50,0xa620,0xa8d0,0xa900,0xa9d0,0xa9f0,0xaa50,
    0xabf0,0xff10,0x104a0,0x10d30,0x11066,0x110f0,0x11136,0x111d0,0x112f0,0x11450,0x114d0,0x11650,0x116c0,0x11730,
    0x118e0,0x11950,0x11c50,0x11d50,0x11da0,0x11f50,0x16a60,0x16ac0,0x16b50,0x1d7ce,0x1d7d8,0x1d7e2,0x1d7ec,0x1d7f6,
    0x1e140,0x1e2f0,0x1e4f0,0x1e950,0x1fbf0]

def wideSpaces : List ℕ :=
  [0x85,0xa0,0x1680,0x2000,0x2001,0x2002,0x2003,0x2004,0x2005,0x2006,0x2007,0x2008,0x2009,0x200a,0x2028,0x2029,
    0x202f,0x205f,0x3000]

def toAscii (char : Char) : Char :=
  if char.toNat < 127 then char
  else if char.toNat ∈ wideSpaces then ' '
  else match decimalZeros.find? (fun first => first ≤ char.toNat ∧ char.toNat < first + 10) with
    | some first => Char.ofNat (char.toNat - first + 48)
    | none => '?'

def blank (char : Char) : Bool := char ∈ [' ','\t','\n','\r','\x0b','\x0c']

/-- `int` of a text to base 16, for a text without a minus sign. -/
def int16 (text : List Char) : Option Nat :=
  let bare := (((text.map toAscii).dropWhile blank).reverse.dropWhile blank).reverse
  let unsigned := if bare.head? = some '+' then bare.tail else bare
  if unsigned.take 2 = ['0','x'] ∨ unsigned.take 2 = ['0','X'] then
    if unsigned.length = 2 then none else readDigits false 0 (unsigned.drop 2)
  else readDigits true 0 unsigned

def uuidDigits (text : String) : List Char :=
  let plain := removed ['u','u','i','d',':'] 0 (removed ['u','r','n',':'] 0 text.toList)
  let brace (char : Char) : Bool := char == '\x7b' || char == '\x7d'
  (((plain.dropWhile brace).reverse.dropWhile brace).reverse).filter (· ≠ '-')

def UUID (text : String) : Except Exception Uuid :=
  let digits := uuidDigits text
  if digits.length ≠ 32 then .error (.value "badly formed hexadecimal UUID string")
  else
    match int16 digits with
    | some number => .ok (BitVec.ofNat 128 number)
    | none => .error (.value s!"invalid literal for int() with base 16: '{String.ofList digits}'")

theorem removed_absent {first : Char} {more text : List Char} (absent : first ∉ text) :
    removed (first::more) 0 text = text := by
  induction text with
  | nil => rfl
  | cons char rest ih =>
    obtain ⟨other,later⟩ := not_or.mp (List.mem_cons.not.mp absent)
    rw [removed,if_neg (by simp [other]),ih later]

theorem hexValue_hexDigit : ∀ digit < 16, hexValue (hexDigit digit) = some digit := by decide

theorem hexDigit_plain : ∀ digit < 16, hexDigit digit ∉ ['u','\x7b','\x7d','+','x','X','_'] ∧
    blank (hexDigit digit) = false := by decide

theorem toAscii_hexDigit : ∀ digit < 16, toAscii (hexDigit digit) = hexDigit digit := by decide

theorem map_toAscii_hexDigits (id : Uuid) : (hexDigits id).map toAscii = hexDigits id := by
  rw [hexDigits,List.map_map]
  exact List.map_congr_left fun place _ => toAscii_hexDigit _ (Nat.mod_lt _ (by omega))

theorem hexDigits_plain {id : Uuid} {char : Char} (member : char ∈ hexDigits id) :
    char ≠ '-' ∧ char ∉ ['u','\x7b','\x7d','+','x','X','_'] ∧ blank char = false := by
  obtain ⟨place,_,rfl⟩ := List.mem_map.mp member
  have bound : id.toNat / 16^(31 - place) % 16 < 16 := Nat.mod_lt _ (by omega)
  exact ⟨hexDigit_ne _ bound,hexDigit_plain _ bound⟩

theorem readDigits_fold {text : List Char} (plain : '_' ∉ text) (number : Nat) :
    readDigits false number text =
      text.foldlM (fun number char => (hexValue char).map (16 * number + ·)) number := by
  induction text generalizing number with
  | nil => rfl
  | cons char rest ih =>
    obtain ⟨other,later⟩ := not_or.mp (List.mem_cons.not.mp plain)
    rw [readDigits,if_neg (Ne.symm other),List.foldlM_cons]
    cases hexValue char with
    | none => rfl
    | some value => exact ih later _

theorem readDigits_hexDigits (id : Uuid) : readDigits false 0 (hexDigits id) = some id.toNat := by
  have read (count : Nat) (bound : count ≤ 32) : ((List.range count).map (fun place =>
      hexDigit (id.toNat / 16^(31 - place) % 16))).foldlM (fun number char => (hexValue char).map (16 * number + ·)) 0 =
        some (id.toNat / 16^(32 - count)) := by
    induction count with
    | zero =>
      have small : id.toNat / 16^32 = 0 := Nat.div_eq_of_lt id.isLt
      rw [small]
      rfl
    | succ count ih =>
      have earlier := ih (by omega)
      have digit : hexValue (hexDigit (id.toNat / 16^(31 - count) % 16)) = some (id.toNat / 16^(31 - count) % 16) :=
        hexValue_hexDigit _ (Nat.mod_lt _ (by omega))
      have split : id.toNat / 16^(32 - count) = id.toNat / 16^(31 - count) / 16 := by
        rw [show 32 - count = 31 - count + 1 by omega,Nat.pow_succ,Nat.div_div_eq_div_mul]
      rw [List.range_succ,List.map_append,List.foldlM_append,earlier,split]
      simp only [List.map_cons,List.map_nil,List.foldlM_cons,List.foldlM_nil,digit,Option.bind_eq_bind,
        Option.bind_some,Option.map_some,Option.pure_def]
      rw [Nat.div_add_mod,show 32 - (count + 1) = 31 - count by omega]
  have whole := read 32 (le_refl 32)
  rw [readDigits_fold fun member => absurd (hexDigits_plain member).2.1 (by simp)]
  rwa [Nat.sub_self,Nat.pow_zero,Nat.div_one] at whole

theorem mem_hyphenate {digits : List Char} {char : Char} (member : char ∈ hyphenate digits) :
    char = '-' ∨ char ∈ digits := by
  simp only [hyphenate,List.mem_append,List.mem_cons] at member
  grind [List.mem_of_mem_take,List.mem_of_mem_drop]

theorem dropWhile_never {kept : Char → Bool} {text : List Char} (never : ∀ char ∈ text, kept char = false) :
    text.dropWhile kept = text := by
  cases text with
  | nil => rfl
  | cons char rest => exact List.dropWhile_cons_of_neg (by simp [never char List.mem_cons_self])

theorem int16_hexDigits (id : Uuid) : int16 (hexDigits id) = some id.toNat := by
  have solid : ∀ char ∈ hexDigits id, blank char = false := fun char member => (hexDigits_plain member).2.2
  have bare : ((((hexDigits id).map toAscii).dropWhile blank).reverse.dropWhile blank).reverse = hexDigits id := by
    rw [map_toAscii_hexDigits,dropWhile_never solid,dropWhile_never (by simpa using solid),List.reverse_reverse]
  have unsigned : (hexDigits id).head? ≠ some '+' := fun first =>
    absurd (hexDigits_plain (List.mem_of_head? first)).2.1 (by simp)
  have unmarked (mark : Char) (special : mark ∈ ['x','X']) : (hexDigits id).take 2 ≠ ['0',mark] := by
    intro first
    have inside : mark ∈ (hexDigits id).take 2 := by
      rw [first]
      simp
    have plain := (hexDigits_plain (List.mem_of_mem_take inside)).2.1
    simp at special plain
    grind
  unfold int16
  simp only [bare]
  rw [if_neg unsigned,if_neg (not_or.mpr ⟨unmarked 'x' (by simp),unmarked 'X' (by simp)⟩),← readDigits_hexDigits id]
  cases split : hexDigits id with
  | nil => simp [hexDigits] at split
  | cons char rest =>
    have digit : char ≠ '_' := by
      rintro rfl
      exact absurd (hexDigits_plain (split ▸ List.mem_cons_self)).2.1 (by simp)
    rw [readDigits,readDigits,if_neg digit,if_neg digit]

theorem UUID_str (id : Uuid) : UUID (str id) = .ok id := by
  have digits : uuidDigits (str id) = hexDigits id := by
    have letters : ∀ char ∈ hyphenate (hexDigits id), char ∉ ['u','\x7b','\x7d'] := by
      intro char member
      rcases mem_hyphenate member with rfl | digit
      · decide
      · have plain := (hexDigits_plain digit).2.1
        simp at plain
        simp [plain]
    have braceless : ∀ char ∈ hyphenate (hexDigits id), (char == '\x7b' || char == '\x7d') = false := by
      intro char member
      have other := letters char member
      simp only [List.mem_cons,List.not_mem_nil,or_false,not_or] at other
      simp [other]
    have absent : 'u' ∉ hyphenate (hexDigits id) := fun member => letters _ member List.mem_cons_self
    unfold uuidDigits str
    simp only [String.toList_ofList,removed_absent absent]
    rw [dropWhile_never braceless,dropWhile_never (by simpa using braceless),List.reverse_reverse]
    exact filter_hyphenate fun char member => (hexDigits_plain member).1
  have length : (hexDigits id).length = 32 := by simp [hexDigits]
  unfold UUID
  simp only [digits,length,int16_hexDigits]
  simp

end CryptoBrokerage
