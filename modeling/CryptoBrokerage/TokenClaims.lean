import CryptoBrokerage.Authentication

/-! What an access token says of its bearer, whatever further claims and whatever
expiry it is made with. -/
namespace CryptoBrokerage

def Jwt.Inverts (jwt : Jwt) : Prop :=
  ∀ payload key algorithm now, payload.unexpired now = true →
    jwt.decode now (jwt.encode payload key algorithm) key [algorithm] = some payload

theorem Jwt.Faithful.inverts {jwt : Jwt} (faithful : jwt.Faithful) : jwt.Inverts :=
  fun _ _ _ _ fresh => faithful.reads fresh

namespace Payload
variable {payload extra : Payload} {name : String} {claim : Claim}

theorem get_cons (pair : String × Claim) (payload : Payload) (name : String) :
    get (pair::payload) name = if pair.1 = name then some pair.2 else payload.get name := by
  unfold get
  rw [List.lookup_cons]
  by_cases same : pair.1 = name
  · simp [same]
  · rw [if_neg same,beq_false_of_ne (Ne.symm same)]

theorem get_append (payload more : Payload) (name : String) :
    get (payload ++ more) name = (payload.get name).or (more.get name) := by
  unfold get
  exact List.lookup_append

theorem get_absent (absent : name ∉ payload.map Prod.fst) : payload.get name = none := by
  induction payload with
  | nil => rfl
  | cons pair rest ih =>
    obtain ⟨other,later⟩ := not_or.mp (List.mem_cons.not.mp absent)
    rw [get_cons,if_neg (Ne.symm other),ih later]

theorem get_set_self (payload : Payload) (name : String) (claim : Claim) :
    (payload.set name claim).get name = some claim := by
  unfold set
  split
  · next taken =>
    induction payload with
    | nil => cases taken
    | cons pair rest ih =>
      rw [List.map_cons,get_cons]
      by_cases here : pair.1 = name
      · simp [here]
      · rw [if_neg here,if_neg here]
        exact ih (by simpa [here] using taken)
  · next absent =>
    rw [get_append,get_absent (by simpa using absent),get_cons,if_pos rfl]
    rfl

theorem get_replaced (payload : Payload) {other : String} (different : name ≠ other) :
    get (payload.map fun pair => if pair.1 = name then (name,claim) else pair) other = payload.get other := by
  induction payload with
  | nil => rfl
  | cons pair rest ih =>
    rw [List.map_cons,get_cons,get_cons,ih]
    by_cases here : pair.1 = name
    · simp [here,different]
    · simp [here]

theorem get_set_other (payload : Payload) {other : String} (different : name ≠ other) :
    (payload.set name claim).get other = payload.get other := by
  unfold set
  split
  · exact get_replaced payload different
  · rw [get_append,get_cons,if_neg different]
    exact Option.or_none

/-- Merged claims replace, all others stay. -/
theorem get_merge (distinct : (extra.map Prod.fst).Nodup) (payload : Payload) (name : String) :
    (payload.merge extra).get name = (extra.get name).or (payload.get name) := by
  induction extra generalizing payload with
  | nil => rfl
  | cons pair rest ih =>
    obtain ⟨fresh,later⟩ := List.nodup_cons.mp distinct
    have merged : payload.merge (pair::rest) = (payload.set pair.1 pair.2).merge rest := rfl
    rw [merged,ih later,get_cons]
    by_cases here : pair.1 = name
    · subst here
      rw [get_absent fresh,if_pos rfl,get_set_self]
      rfl
    · rw [if_neg here,get_set_other payload here]

/-- The payload is an access token's for the subject, until that time, and says
what else was asked to be said. -/
structure Identifies (payload : Payload) (subject : String) (expire : Timestamp) (extra : Payload) : Prop where
  subject : payload.get "sub" = some (.text subject)
  kind : payload.get "type" = some (.text "access")
  expiry : payload.get "exp" = some (.time expire)
  additional : ∀ pair ∈ extra, pair.1 ∉ ["sub","exp","iat","type"] → payload.get pair.1 = some pair.2

theorem get_present (distinct : (extra.map Prod.fst).Nodup) (member : (name,claim) ∈ extra) :
    extra.get name = some claim := by
  induction extra with
  | nil => cases member
  | cons first rest ih =>
    obtain ⟨fresh,later⟩ := List.nodup_cons.mp distinct
    rw [get_cons]
    rcases List.mem_cons.mp member with rfl | member
    · exact if_pos rfl
    · have other : first.1 ≠ name := by
        intro same
        exact fresh (same ▸ List.mem_map_of_mem member)
      rw [if_neg other,ih later member]

/-- What a claim is after a merge is up to the merged claims of its name, if any. -/
theorem get_merge_iff (distinct : (extra.map Prod.fst).Nodup) : (payload.merge extra).get name = some claim ↔
    (∀ other, (name,other) ∈ extra → other = claim) ∧
      ((∀ other, (name,other) ∉ extra) → payload.get name = some claim) := by
  rw [get_merge distinct]
  by_cases given : ∃ other, (name,other) ∈ extra
  · obtain ⟨other,member⟩ := given
    rw [get_present distinct member,Option.some_or,Option.some.injEq]
    constructor
    · rintro rfl
      refine ⟨fun another more => ?_,fun absent => absurd member (absent other)⟩
      have twice := get_present distinct more
      rw [get_present distinct member] at twice
      exact (Option.some.inj twice).symm
    · exact fun both => both.1 other member
  · have absent : name ∉ extra.map Prod.fst := by simpa using given
    rw [get_absent absent,Option.none_or]
    constructor
    · exact fun own => ⟨fun other member => absurd ⟨other,member⟩ given,fun _ => own⟩
    · exact fun both => both.2 fun other member => given ⟨other,member⟩

theorem merge_keeps_iff (distinct : (extra.map Prod.fst).Nodup) (own : payload.get name = some claim) :
    (payload.merge extra).get name = some claim ↔ ∀ other, (name,other) ∈ extra → other = claim := by
  rw [get_merge_iff distinct]
  exact and_iff_left fun _ => own

end Payload

section Access
variable {jwt : Jwt} (settings : Settings)

def requestedWindow (expiresDelta : Option ℚ) : ℚ := expiresDelta.getD (settings.jwtAccessTokenExpireMinutes * 60)

def accessPayload (now issued : Timestamp) (subject : String) (extraClaims : Option Payload := none)
    (expiresDelta : Option ℚ := none) : Payload :=
  (accessClaims subject (now + accessWindow settings expiresDelta) issued).merge (extraClaims.getD [])

variable (jwt) in
/-- The token is made of a payload that identifies the subject, and reads as it
until it expires. -/
structure AccessRoundTrip (now issued : Timestamp) (subject : String) (extraClaims : Option Payload)
    (expiresDelta : Option ℚ) : Prop where
  signed : createAccessToken jwt settings now issued subject extraClaims expiresDelta =
    jwt.encode (accessPayload settings now issued subject extraClaims expiresDelta) settings.jwtSecretKey
      settings.jwtAlgorithm
  decoded : ∀ later, (accessPayload settings now issued subject extraClaims expiresDelta).unexpired later = true →
    decodeToken jwt settings later (createAccessToken jwt settings now issued subject extraClaims expiresDelta) =
      .ok (accessPayload settings now issued subject extraClaims expiresDelta)
  identifies : (accessPayload settings now issued subject extraClaims expiresDelta).Identifies subject
    (now + requestedWindow settings expiresDelta) (extraClaims.getD [])

theorem accessWindow_requested (expiresDelta : Option ℚ) :
    accessWindow settings expiresDelta = requestedWindow settings expiresDelta ↔
      (expiresDelta = some 0 → settings.jwtAccessTokenExpireMinutes = 0) := by
  unfold accessWindow requestedWindow
  cases expiresDelta with
  | none => simp
  | some delta =>
    rw [Option.getD_some]
    by_cases zero : delta = 0
    · simp [zero]
    · simp [zero]

theorem accessPayload_additional (now issued : Timestamp) (subject : String) {extraClaims : Option Payload}
    (expiresDelta : Option ℚ) (distinct : ((extraClaims.getD []).map Prod.fst).Nodup) :
    ∀ pair ∈ extraClaims.getD [],
      (accessPayload settings now issued subject extraClaims expiresDelta).get pair.1 = some pair.2 := by
  intro pair member
  rw [accessPayload,Payload.get_merge distinct,Payload.get_present distinct member,Option.some_or]

theorem accessPayload_expiry_iff (now issued : Timestamp) (subject : String) {extraClaims : Option Payload}
    (expiresDelta : Option ℚ) (distinct : ((extraClaims.getD []).map Prod.fst).Nodup) :
    (accessPayload settings now issued subject extraClaims expiresDelta).get "exp" =
        some (.time (now + requestedWindow settings expiresDelta)) ↔
      (∀ claim, ("exp",claim) ∈ extraClaims.getD [] → claim = .time (now + requestedWindow settings expiresDelta)) ∧
      ((∀ claim, ("exp",claim) ∉ extraClaims.getD []) → expiresDelta = some 0 →
        settings.jwtAccessTokenExpireMinutes = 0) := by
  have own : (accessClaims subject (now + accessWindow settings expiresDelta) issued).get "exp" =
      some (.time (now + accessWindow settings expiresDelta)) := rfl
  rw [accessPayload,Payload.get_merge_iff distinct,own,Option.some.injEq,Claim.time.injEq,add_right_inj,
    accessWindow_requested]

theorem decodeToken_encode (inverts : jwt.Inverts) {payload : Payload} {later : Timestamp}
    (fresh : payload.unexpired later = true) :
    decodeToken jwt settings later (jwt.encode payload settings.jwtSecretKey settings.jwtAlgorithm) = .ok payload := by
  unfold decodeToken
  rw [inverts _ _ _ _ fresh]

end Access

/-- An access token identifies its subject exactly if no further claim names
another subject, kind or expiry, and if no expiry of zero was asked for, which is
taken as none. -/
theorem access_round_trip_iff {jwt : Jwt} (inverts : jwt.Inverts) (settings : Settings) (now issued : Timestamp)
    (subject : String) (extraClaims : Option Payload) (distinct : ((extraClaims.getD []).map Prod.fst).Nodup)
    (expiresDelta : Option ℚ) :
    AccessRoundTrip jwt settings now issued subject extraClaims expiresDelta ↔
      (∀ claim, ("sub",claim) ∈ extraClaims.getD [] → claim = .text subject) ∧
      (∀ claim, ("type",claim) ∈ extraClaims.getD [] → claim = .text "access") ∧
      (∀ claim, ("exp",claim) ∈ extraClaims.getD [] → claim = .time (now + requestedWindow settings expiresDelta)) ∧
      ((∀ claim, ("exp",claim) ∉ extraClaims.getD []) → expiresDelta = some 0 →
        settings.jwtAccessTokenExpireMinutes = 0) := by
  rw [← accessPayload_expiry_iff settings now issued subject expiresDelta distinct]
  have named : (accessPayload settings now issued subject extraClaims expiresDelta).get "sub" = some (.text subject) ↔
      ∀ claim, ("sub",claim) ∈ extraClaims.getD [] → claim = .text subject := Payload.merge_keeps_iff distinct rfl
  have typed : (accessPayload settings now issued subject extraClaims expiresDelta).get "type" = some (.text "access") ↔
      ∀ claim, ("type",claim) ∈ extraClaims.getD [] → claim = .text "access" := Payload.merge_keeps_iff distinct rfl
  rw [← named,← typed]
  constructor
  · rintro ⟨_,_,identifies⟩
    exact ⟨identifies.subject,identifies.kind,identifies.expiry⟩
  · rintro ⟨subjected,kind,expiry⟩
    refine ⟨rfl,?_,subjected,kind,expiry,?_⟩
    · exact fun later fresh => decodeToken_encode settings inverts fresh
    · exact fun pair member _ => accessPayload_additional settings now issued subject expiresDelta distinct pair member

/-- A token with a role and a window of its own. -/
theorem access_round_trip_clerk :
    AccessRoundTrip sampleJwt {} 0 0 "1" (some [("role",.text "clerk")]) (some 900) :=
  (access_round_trip_iff sampleJwt_faithful.inverts {} 0 0 "1" (some [("role",.text "clerk")]) (by simp) (some 900)).mpr
    (by simp)

/-- A further claim names another subject, and an expiry of zero is an hour. -/
theorem access_round_trip_lost :
    sampleJwt.Inverts ∧ ¬AccessRoundTrip sampleJwt {} 0 0 "1" (some [("sub",.text "2")]) none ∧
      ¬AccessRoundTrip sampleJwt {} 0 0 "1" none (some 0) := by
  refine ⟨sampleJwt_faithful.inverts,?_,?_⟩
  · intro ⟨_,_,identifies⟩
    have named : some (Claim.text "2") = some (.text "1") := identifies.subject
    simp at named
  · intro ⟨_,_,identifies⟩
    have window : some (Claim.time (0 + (60 : ℕ) * 60)) = some (.time (0 + 0)) := identifies.expiry
    simp at window

end CryptoBrokerage
