import CryptoBrokerage.Integrity

/-! How a registration ends among any other requests. The check of the email is a
race, but whoever loses it finds the email registered. -/
namespace CryptoBrokerage
open Transaction

namespace Progress

def user : Progress → Option User
  | .asking => none
  | .created user | .profiled user _ | .opened user _ _ => some user

def Awaits (email : String) : Progress → (t : Table) → t.Row → Prop
  | .asking, .users, row => row.email = email
  | .created user, .userProfiles, row => row.userId = user.id
  | .profiled user _, .accounts, row => row.userId = user.id
  | _, _, _ => False

def extend (progress : Progress) : (t : Table) → t.Row → Progress
  | .users, row => .created row
  | .userProfiles, row => progress.profile row
  | .accounts, row => progress.account row
  | _, _ => progress

theorem Awaits.writes {email : String} {progress : Progress} {t : Table} {row : t.Row}
    (awaits : progress.Awaits email t row) : (progress.extend t row).writes = progress.writes ++ [.insert t row] := by
  cases progress <;> cases t <;> first | rfl | exact awaits.elim

theorem Awaits.user {email : String} {progress : Progress} {t : Table} {row : t.Row}
    (awaits : progress.Awaits email t row) (own : ∀ user ∈ progress.user, user.email = email) :
    ∀ user ∈ (progress.extend t row).user, user.email = email := by
  cases progress <;> cases t <;> first | exact own | exact awaits.elim | skip
  intro user same
  cases same
  exact awaits

end Progress

/-- How far a registration has come: rows inserted, the email found taken, with the
error if an insertion told it, an id drawn that is a key already, or a text that a
column refuses. -/
inductive Attempt
  | other
  | going (progress : Progress)
  | taken (error : Option Exception)
  | collided (error : Exception)
  | refused (error : Exception)
  | astray

namespace Attempt

def Permits (email : String) : Attempt → Statement → Prop
  | .going progress, .selectUserId address => progress = .asking ∧ address = email
  | .going _, .uuid4 => True
  | .going progress, .insert t row => progress.Awaits email t row
  | .going progress, .get t key => ∃ row, .insert t row ∈ progress.writes ∧ t.key row = key
  | .going _, _ => False
  | _, _ => True

def told (t : Table) (error : Exception) : Attempt :=
  match error with
  | .data _ => .refused error
  | _ =>
    if error = .integrity (t.name ++ "_pkey") then .collided error
    else if t = .users then .taken (some error) else .astray

theorem told_integrity (t : Table) (constraint : String) : told t (.integrity constraint) =
    if Exception.integrity constraint = .integrity (t.name ++ "_pkey") then .collided (.integrity constraint)
    else if t = .users then .taken (some (.integrity constraint)) else .astray :=
  rfl

def after (state : Attempt) (op : Statement) (reply : Except Exception op.Reply) : Attempt :=
  match state with
  | .going progress =>
    match op, reply with
    | .selectUserId _, .ok (some _) => .taken none
    | .insert t row, .ok _ => .going (progress.extend t row)
    | .insert t _, .error error => told t error
    | .get _ _, .ok none => .astray
    | _, .ok _ => .going progress
    | _, .error _ => .astray
  | state => state

def Holds {α : Type} (email : String) (session : Session sql Write Resource α) (committed : Database) : Attempt → Prop
  | .other => True
  | .going progress => session.writes = progress.writes ∧ ∀ user ∈ progress.user, user.email = email
  | .taken error => (∃ user ∈ committed .users, user.email = email) ∧ ∀ told ∈ error, told = .integrity "uq_users"
  | .collided error => ∃ t : Table, error = .integrity (t.name ++ "_pkey")
  | .refused _ => True
  | .astray => False

end Attempt

section Sessions
variable {Client α : Type} {server : Server Client} {client : Client} {session : Session sql Write Resource α}
  {committed : Database} {email : String} {user : User}

theorem inserted_member {writes : List Write} {t : Table} {row : t.Row} (inserted : .insert t row ∈ writes) :
    row ∈ writes.flatMap (Write.inserted t) :=
  List.mem_flatMap.mpr ⟨_,inserted,by rw [Write.inserted_self]; exact List.mem_singleton_self row⟩

theorem Marking.stored (marking : Marking session committed) {t : Table} {row : t.Row}
    (inserted : .insert t row ∈ session.writes) :
    ∃ stored ∈ (session.writes.foldl Database.apply committed) t, t.key stored = t.key row := by
  have marked : t.mark row ∈ (session.writes.foldl Database.apply committed).marks t := by
    rw [visible_marks marking.pointing]
    exact List.mem_append_right _ (List.mem_map_of_mem (inserted_member inserted))
  obtain ⟨stored,member,same⟩ := List.mem_map.mp marked
  exact ⟨stored,member,congrArg Mark.key same⟩

/-- Nothing that is committed names a user that the transaction has inserted. -/
theorem Marking.unnamed (marking : Marking session committed) (intact : committed.Intact)
    (own : .insert .users user ∈ session.writes) {t : Table} {row : t.Row} (member : row ∈ committed t) :
    (.users,user.id) ∉ t.references row := by
  intro named
  have present := (refers_iff committed t row).mp (intact.refers t row member) _ named
  obtain ⟨other,stored,same⟩ := Database.has_iff.mp present
  obtain ⟨_,_,apart⟩ := List.pairwise_append.mp (marking.coherent.apart .users)
  have added : Table.mark .users user ∈ addedMarks session.writes .users := List.mem_map_of_mem (inserted_member own)
  exact (apart _ (List.mem_map_of_mem stored) _ added).1 same

/-- A row that names only the user of the transaction, in a table where the
transaction has no other row, can only be refused for its key. -/
theorem Marking.refused (marking : Marking session committed) (intact : committed.Intact)
    (own : .insert .users user ∈ session.writes) {t : Table} {row : t.Row}
    (bare : (session.writes.foldl Database.apply committed) t = committed t)
    (names : t.references row = [(.users,user.id)])
    (sole : ∀ other, (∃ entry ∈ t.indexEntries other, entry ∈ t.indexEntries row) → (.users,user.id) ∈ t.references other)
    {constraint : String} (violated : (session.writes.foldl Database.apply committed).violated t row = some constraint) :
    constraint = t.name ++ "_pkey" := by
  unfold Database.violated at violated
  split at violated
  · exact (Option.some.inj violated).symm
  · split at violated
    · next clashes =>
      simp only [Database.clashes,bare,List.any_eq_true,decide_eq_true_eq] at clashes
      obtain ⟨other,member,entry,theirs,mine⟩ := clashes
      exact absurd (sole other ⟨entry,theirs,mine⟩) (marking.unnamed intact own member)
    · next missing =>
      have present : (session.writes.foldl Database.apply committed).refers t row = true := by
        rw [refers_iff,names]
        intro reference member
        rw [List.mem_singleton.mp member,Database.has_iff,visible_users]
        exact ⟨user,List.mem_append_right _ (inserted_member own),rfl⟩
      rw [if_pos present] at violated
      cases violated

theorem insert_error {turn : Nat} {t : Table} {row : t.Row} {db : Database} {error : Exception}
    (failed : server.exec client turn (.insert t row) db = .error error) :
    t.store server.numeric (t.stamp (server.now client) row) = .error error ∨
      ∃ stored constraint, t.store server.numeric (t.stamp (server.now client) row) = .ok stored ∧
        db.violated t stored = some constraint ∧ error = .integrity constraint := by
  cases ok : t.store server.numeric (t.stamp (server.now client) row) with
  | error other =>
    simp only [Server.exec,ok,bind,Except.bind] at failed
    cases failed
    exact Or.inl rfl
  | ok stored =>
    simp only [Server.exec,ok,bind,Except.bind] at failed
    cases violated : db.violated t stored with
    | none =>
      rw [violated] at failed
      cases failed
    | some constraint =>
      rw [violated] at failed
      exact Or.inr ⟨stored,constraint,rfl,violated,(Except.error.inj failed).symm⟩

/-- The next row is refused for its key or a text of it, or the email of the user is taken. -/
theorem attempt_refused {progress : Progress} (marking : Marking session committed) (intact : committed.Intact)
    (written : session.writes = progress.writes) {t : Table} {row : t.Row} (awaits : progress.Awaits email t row)
    {turn : Nat} {error : Exception}
    (failed : server.exec client turn (.insert t row) (session.writes.foldl Database.apply committed) = .error error) :
    (∃ message, error = .data message) ∨ error = .integrity (t.name ++ "_pkey") ∨
      t = .users ∧ (∃ user ∈ committed .users, user.email = email) ∧ error = .integrity "uq_users" := by
  cases t with
  | users =>
    rcases insert_error failed with failed | ⟨stored,constraint,ok,violated,rfl⟩
    · exact Or.inl (user_error failed)
    right
    obtain rfl : stored = row := store_user ok
    cases progress with
    | asking =>
      rw [written] at violated
      change committed.violated .users stored = some constraint at violated
      unfold Database.violated at violated
      split at violated
      · exact Or.inl (congrArg _ (Option.some.inj violated).symm)
      · split at violated
        · next clashes =>
          simp only [Database.clashes,List.any_eq_true,decide_eq_true_eq] at clashes
          obtain ⟨other,member,entry,theirs,mine⟩ := clashes
          obtain rfl := List.mem_singleton.mp theirs
          have same : other.email = stored.email := by simpa [Table.indexEntries] using mine
          exact Or.inr ⟨rfl,⟨other,member,same.trans awaits⟩,congrArg _ (Option.some.inj violated).symm⟩
        · cases violated
    | _ => exact awaits.elim
  | userProfiles =>
    rcases insert_error failed with failed | ⟨stored,constraint,ok,violated,rfl⟩
    · exact Or.inl (profile_error failed)
    obtain rfl : stored = row := store_profile ok
    cases progress with
    | created user =>
      have own : .insert .users user ∈ session.writes := by rw [written]; exact List.mem_cons_self
      refine Or.inr (Or.inl (congrArg _ (marking.refused intact own ?_ ?_ ?_ violated)))
      · rw [written]
        exact Database.insert_other committed user (show Table.userProfiles ≠ .users by decide)
      · rw [← show stored.userId = user.id from awaits]
        rfl
      · intro other shared
        have same : other.userId = stored.userId := by simpa [Table.indexEntries] using shared
        rw [← show stored.userId = user.id from awaits,← same]
        exact List.mem_singleton_self _
    | _ => exact awaits.elim
  | accounts =>
    rcases insert_error failed with failed | ⟨stored,constraint,ok,violated,rfl⟩
    · cases failed
    obtain rfl : row = stored := Except.ok.inj ok
    cases progress with
    | profiled user profile =>
      have own : .insert .users user ∈ session.writes := by rw [written]; exact List.mem_cons_self
      refine Or.inr (Or.inl (congrArg _ (marking.refused intact own ?_ ?_ ?_ violated)))
      · rw [written]
        exact (Database.insert_other _ profile (show Table.accounts ≠ .userProfiles by decide)).trans
          (Database.insert_other committed user (show Table.accounts ≠ .users by decide))
      · rw [← show row.userId = user.id from awaits]
        rfl
      · intro other shared
        have same : other.userId = row.userId ∧ other.currency = row.currency := by
          simpa [Table.indexEntries] using shared
        rw [← show row.userId = user.id from awaits,← same.1]
        exact List.mem_singleton_self _
    | _ => exact awaits.elim
  | _ => cases progress <;> exact awaits.elim

theorem Attempt.Holds.failed {state : Attempt} (holds : state.Holds email session committed)
    (marking : Marking session committed) (intact : committed.Intact) {op : Statement}
    (permitted : state.Permits email op) {turn : Nat} {error : Exception}
    (failed : server.exec client turn op (session.writes.foldl Database.apply committed) = .error error)
    (rest : Program sql α) (held : List Resource) (issued : List Statement) :
    (state.after op (.error error)).Holds email ⟨rest,session.writes,held,issued⟩ committed := by
  cases state with
  | going progress =>
    cases op with
    | insert t row =>
      have refused := attempt_refused marking intact holds.1 permitted failed
      rcases refused with ⟨message,rfl⟩ | rfl | ⟨rfl,taken,rfl⟩
      · trivial
      · change (Attempt.told t (.integrity (t.name ++ "_pkey"))).Holds email _ committed
        rw [Attempt.told_integrity,if_pos rfl]
        exact ⟨t,rfl⟩
      · change (Attempt.told .users (.integrity "uq_users")).Holds email _ committed
        rw [Attempt.told_integrity,if_neg (by decide),if_pos rfl]
        exact ⟨taken,fun other same => by cases same; rfl⟩
    | get t key => cases failed
    | uuid4 => cases failed
    | selectUserId address => cases failed
    | _ => exact permitted.elim
  | _ => exact holds

theorem Attempt.Holds.answered {state : Attempt} (holds : state.Holds email session committed)
    (marking : Marking session committed) {op : Statement} (permitted : state.Permits email op) {turn : Nat}
    {reply : op.Reply} {writes : List Write}
    (answered : server.exec client turn op (session.writes.foldl Database.apply committed) = .ok (reply,writes))
    (rest : Program sql α) (held : List Resource) (issued : List Statement) :
    (state.after op (.ok reply)).Holds email ⟨rest,session.writes ++ writes,held,issued⟩ committed := by
  have written := Server.exec_writes answered
  cases state with
  | going progress =>
    cases op with
    | insert t row =>
      obtain ⟨stored,ok,_,rfl⟩ := written
      have same : stored = row := by
        cases t with
        | users => exact store_user ok
        | userProfiles => exact store_profile ok
        | accounts => exact (Except.ok.inj ok).symm
        | _ => cases progress <;> exact permitted.elim
      rw [same]
      refine ⟨?_,Progress.Awaits.user permitted holds.2⟩
      rw [holds.1,Progress.Awaits.writes permitted]
    | get t key =>
      obtain ⟨row,inserted,named⟩ := permitted
      obtain ⟨found,rfl⟩ := Prod.mk.inj (Except.ok.inj answered)
      rw [List.append_nil]
      cases reply with
      | none =>
        obtain ⟨stored,member,same⟩ := marking.stored (holds.1 ▸ inserted)
        exact absurd (List.find?_eq_none.mp found stored member) (by simp [same,named])
      | some stored => exact holds
    | uuid4 =>
      obtain rfl : writes = [] := written
      rw [List.append_nil]
      exact holds
    | selectUserId address =>
      obtain ⟨rfl,rfl⟩ := permitted
      obtain ⟨found,rfl⟩ := Prod.mk.inj (Except.ok.inj answered)
      rw [holds.1] at found
      rw [List.append_nil]
      cases reply with
      | none => exact holds
      | some key =>
        obtain ⟨user,stored,_⟩ := Option.map_eq_some_iff.mp found
        refine ⟨⟨user,List.mem_of_find?_eq_some stored,?_⟩,fun _ same => by cases same⟩
        simpa using List.find?_some stored
    | _ => exact permitted.elim
  | _ => exact holds

theorem Attempt.Holds.rely {state : Attempt} (holds : state.Holds email session committed) (writes : List Write) :
    state.Holds email session (writes.foldl Database.apply committed) := by
  cases state with
  | taken error =>
    obtain ⟨⟨user,member,same⟩,told⟩ := holds
    refine ⟨⟨user,?_,same⟩,told⟩
    rw [visible_users]
    exact List.mem_append_left _ member
  | _ => exact holds

end Sessions

section Programs
variable {Client : Type} {server : Server Client} {client : Client} {email : Client → Option String}

def Fails (Unstorable : Exception → Prop) (error : Exception) (last : Attempt) : Prop :=
  last = .astray ∨ last = .taken (some error) ∨ last = .collided error ∨ last = .refused error ∧ Unstorable error

theorem Fails.weaken {Strong Weak : Exception → Prop} {error : Exception} {last : Attempt}
    (fails : Fails Strong error last) (weaker : Strong error → Weak error) : Fails Weak error last := by
  rcases fails with astray | taken | collided | ⟨refused,unstorable⟩
  · exact Or.inl astray
  · exact Or.inr (Or.inl taken)
  · exact Or.inr (Or.inr (Or.inl collided))
  · exact Or.inr (Or.inr (Or.inr ⟨refused,weaker unstorable⟩))

def Registration.Refused (request : Registration) (lower : String → String) (hashedPassword : String)
    (error : Exception) : Prop :=
  varchar 254 (lower request.email) = .error error ∨ varchar 128 hashedPassword = .error error ∨
    varchar 255 request.fullName = .error error ∨ (∃ taxId ∈ request.taxId, varchar 64 taxId = .error error) ∨
    varchar 2 request.country = .error error

def Resolved (lower : String → String) (request : Registration) (hashedPassword : String)
    (outcome : Except Exception UserRegistrationResult) (last : Attempt) : Prop :=
  (∀ result, outcome = .ok result → ∃ user profile account, last = .going (.opened user profile account)) ∧
    ∀ error, outcome = .error error → Fails (request.Refused lower hashedPassword) error last ∨
      last = .taken none ∧ error = OnboardingService.userAlreadyExists request.email

theorem Fails.resolved {lower : String → String} {request : Registration} {hashedPassword : String} {error : Exception}
    {last : Attempt} (fails : Fails (request.Refused lower hashedPassword) error last) :
    Resolved lower request hashedPassword (.error error) last := by
  refine ⟨fun _ same => (by cases same),fun other same => ?_⟩
  cases same
  exact Or.inl fails

variable {platform : Platform} {moment : Moment}

/-- What the answer of a registration tells: its email is taken now, unless an id
that it drew was a key already or a column has refused a text. -/
def Settles (lower : String → String) (request : Registration) (hashedPassword : String)
    (outcome : Except Exception Response) (db : Database) : Prop :=
  ((∃ user ∈ db .users, user.email = lower request.email) ∧
    ((∃ result, outcome = .ok (.registered result)) ∨
      outcome = .error (.http 409 s!"Email '{request.email}' is already registered.") ∨
      outcome = .error (.integrity "uq_users"))) ∨
  (∃ t : Table, outcome = .error (.integrity (t.name ++ "_pkey"))) ∨
  ∃ error, request.Refused lower hashedPassword error ∧ outcome = .error error

def Concludes (lower : String → String) (request : Registration) (hashedPassword : String)
    (outcome : Except Exception Response) (last : Attempt) : Prop :=
  (∃ result user profile account, outcome = .ok (.registered result) ∧ last = .going (.opened user profile account)) ∨
  (outcome = .error (.http 409 s!"Email '{request.email}' is already registered.") ∧ last = .taken none) ∨
  ∃ error, Fails (request.Refused lower hashedPassword) error last ∧
    ((∀ message, error ≠ .userAlreadyExists message) → outcome = .error error)

theorem Settles.mono {lower : String → String} {request : Registration} {hashedPassword : String}
    {outcome : Except Exception Response} {db later : Database}
    (settles : Settles lower request hashedPassword outcome db) (kept : db .users ⊆ later .users) :
    Settles lower request hashedPassword outcome later := by
  rcases settles with ⟨⟨user,member,same⟩,told⟩ | otherwise
  · exact Or.inl ⟨⟨user,kept member,same⟩,told⟩
  · exact Or.inr otherwise

theorem Registration.Refused.message {lower : String → String} {request : Registration} {hashedPassword : String}
    {error : Exception} (refused : request.Refused lower hashedPassword error) : ∃ message, error = .data message := by
  rcases refused with failed | failed | failed | ⟨_,_,failed⟩ | failed <;> exact varchar_error failed

theorem Concludes.settles {α : Type} {lower : String → String} {request : Registration} {hashedPassword : String}
    {outcome : Except Exception Response} {last : Attempt} {session : Session sql Write Resource α}
    {committed db : Database} (concludes : Concludes lower request hashedPassword outcome last)
    (holds : last.Holds (lower request.email) session committed)
    (kept : committed .users ⊆ db .users)
    (shown : ∀ value, outcome = .ok value → db = session.writes.foldl Database.apply committed) :
    Settles lower request hashedPassword outcome db := by
  rcases concludes with ⟨result,user,profile,account,returned,rfl⟩ | ⟨refused,rfl⟩ | ⟨error,fails,told⟩
  · refine Or.inl ⟨⟨user,?_,holds.2 user rfl⟩,Or.inl ⟨result,returned⟩⟩
    rw [shown _ returned,visible_users,holds.1]
    exact List.mem_append_right _ (inserted_member List.mem_cons_self)
  · obtain ⟨⟨user,member,same⟩,_⟩ := holds
    exact Or.inl ⟨⟨user,kept member,same⟩,Or.inr (Or.inl refused)⟩
  · rcases fails with rfl | rfl | rfl | ⟨rfl,refused⟩
    · exact holds.elim
    · obtain ⟨⟨user,member,same⟩,named⟩ := holds
      obtain rfl := named error rfl
      exact Or.inl ⟨⟨user,kept member,same⟩,Or.inr (Or.inr (told fun _ impossible => by cases impossible))⟩
    · obtain ⟨t,rfl⟩ := holds
      exact Or.inr (Or.inl ⟨t,told fun _ impossible => by cases impossible⟩)
    · obtain ⟨message,rfl⟩ := refused.message
      exact Or.inr (Or.inr ⟨_,refused,told fun _ impossible => by cases impossible⟩)

def Call.registers (platform : Platform) (moment : Moment) : Call → Option (Registration × String)
  | .register payload =>
    match payload.validate platform.normalizeEmail platform.upper with
    | .ok request => (hashPassword platform.bcrypt moment.draw request.password).toOption.map fun hashed => (request,hashed)
    | .error _ => none
  | _ => none

end Programs

section Runs
variable {Client : Type} {server : Server Client} {platform : Platform} {moment : Client → Moment}
  {call : Client → Call}

def enrolled (platform : Platform) (moment : Client → Moment) (call : Client → Call) (client : Client) : Option String :=
  ((call client).registers platform (moment client)).map fun pair => platform.lower pair.1.email

variable [DecidableEq Client] {db : Database} {config : Config sql Client Database Write Resource Response}

end Runs

end CryptoBrokerage
