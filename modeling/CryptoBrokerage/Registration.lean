import CryptoBrokerage.OnboardingService
import CryptoBrokerage.UniqueIndex
import Mathlib

/-! The registration invariant over every interleaving of requests. The existence
check is a race; what keeps emails distinct is the unique index. -/
namespace CryptoBrokerage
open Transaction (Program Engine Protocol Session Status Config Label Step Runs Reachable Guarantee Upheld)

inductive Progress
  | asking
  | created (user : User)
  | profiled (user : User) (profile : UserProfile)
  | opened (user : User) (profile : UserProfile) (account : Account)
  deriving DecidableEq, Repr

namespace Progress

def writes : Progress → List Write
  | .asking => []
  | .created user => [.insert .users user]
  | .profiled user profile => [.insert .users user,.insert .userProfiles profile]
  | .opened user profile account => [.insert .users user,.insert .userProfiles profile,.insert .accounts account]

def profile (row : UserProfile) : Progress → Progress
  | .created user => .profiled user row
  | progress => progress

def account (row : Account) : Progress → Progress
  | .profiled user profile => .opened user profile row
  | progress => progress

def Sound (email currency : String) : Progress → Prop
  | .asking => True
  | .created user => user.email = email
  | .profiled user profile => user.email = email ∧ profile.userId = user.id ∧ profile.kycStatus = .pending
  | .opened user profile account => (user.email = email ∧ profile.userId = user.id ∧ profile.kycStatus = .pending) ∧
    account.userId = user.id ∧ account.currency = currency

end Progress

def registering {Client : Type} (email : Client → String) (currency : String) : Protocol sql Client Progress where
  start _ := .asking
  allowed client state op :=
    match op with
    | .insert .users row => state = .asking ∧ row.email = email client
    | .insert .userProfiles row => ∃ user, state = .created user ∧ row.userId = user.id ∧ row.kycStatus = .pending
    | .insert .accounts row => ∃ user profile, state = .profiled user profile ∧ row.userId = user.id ∧
        row.currency = currency
    | .insert _ _ => False
    | .update _ _ _ => False
    | _ => True
  after _ state op reply :=
    match op, reply with
    | .insert .users row, .ok _ => .created row
    | .insert .userProfiles row, .ok _ => state.profile row
    | .insert .accounts row, .ok _ => state.account row
    | _, _ => state

def Registers (outcome : Except Exception UserRegistrationResult) (state : Progress) : Prop :=
  ∀ result, outcome = .ok result → ∃ user profile account, state = .opened user profile account ∧
    result.userId = user.id

section Program
variable {Client : Type} {server : Server Client} {email : Client → String} {currency : String} {client : Client}
  {state : Progress}

theorem existsByEmail_obeys (lower : String → String) (address : String) :
    (UserRepository.existsByEmail lower address).Obeys server.engine (fun _ => True) (registering email currency) client
      state (fun _ last => last = state) := by
  change Program.Obeys _ _ _ _ (send (.selectUserId (lower address)) >>= fun id => pure id.isSome) _ _
  rw [Program.obeys_bind,Program.obeys_perform]
  refine ⟨trivial,fun reply _ => ?_⟩
  cases reply <;> rfl

theorem createWithProfile_obeys {lower : String → String} {address hashedPassword fullName country : String}
    {taxId : Option String} (own : lower address = email client) :
    (UserRepository.createWithProfile lower address hashedPassword fullName country taxId).Obeys server.engine
      (fun _ => True) (registering email currency) client .asking (fun outcome last => ∀ row, outcome = .ok row →
        ∃ user profile, last = .profiled user profile ∧ row.id = user.id) := by
  unfold UserRepository.createWithProfile
  rw [Program.obeys_bind]
  have users := @add_moves _ _ server (registering email currency) client .asking .users
    (fun id => ⟨id,lower address,hashedPassword,true⟩) (fun id => .created ⟨id,lower address,hashedPassword,true⟩)
    trivial (fun _ => rfl) (fun _ => ⟨rfl,own⟩) (fun _ => rfl) (fun _ => trivial) (fun _ _ => rfl)
  refine users.weaken ?_
  intro outcome last created
  cases outcome with
  | error error => exact fun _ same => (by cases same)
  | ok row =>
    obtain rfl := created row rfl
    change Program.Obeys _ _ _ _ (BaseRepository.add .userProfiles _ >>= fun _ => pure row) _ _
    rw [Program.obeys_bind]
    have profiles := @add_moves _ _ server (registering email currency) client
      (.created ⟨row.id,lower address,hashedPassword,true⟩) .userProfiles
      (fun id => ⟨id,row.id,fullName,taxId,.pending,country⟩)
      (fun id => .profiled ⟨row.id,lower address,hashedPassword,true⟩ ⟨id,row.id,fullName,taxId,.pending,country⟩)
      trivial (fun _ => rfl) (fun _ => ⟨_,rfl,rfl,rfl⟩) (fun _ => rfl) (fun _ => trivial) (fun _ _ => rfl)
    refine profiles.weaken ?_
    intro outcome last profiled
    cases outcome with
    | error error => exact fun _ same => (by cases same)
    | ok profile =>
      obtain rfl := profiled profile rfl
      intro other same
      cases same
      exact ⟨_,_,rfl,rfl⟩

theorem registerUser_obeys (service : OnboardingService) (request : Registration)
    (own : service.lower request.email = email client) (base : service.defaultAccountCurrency = currency) :
    (service.registerUser request).Obeys server.engine (fun _ => True) (registering email currency) client .asking
      Registers := by
  unfold OnboardingService.registerUser
  rw [Program.obeys_bind]
  refine (existsByEmail_obeys _ _).weaken ?_
  rintro outcome last rfl
  cases outcome with
  | error error => exact fun _ same => (by cases same)
  | ok taken =>
    cases taken with
    | true => exact fun _ same => (by cases same)
    | false =>
      cases hashed : service.hashPassword request.password with
      | error error => exact fun _ same => (by cases same)
      | ok hashedPassword =>
        change Program.Obeys _ _ _ _ (UserRepository.createWithProfile service.lower request.email hashedPassword
          request.fullName request.country request.taxId >>= fun user => _) _ _
        rw [Program.obeys_bind]
        refine (createWithProfile_obeys own).weaken fun outcome last created => ?_
        cases outcome with
        | error error => exact fun _ same => (by cases same)
        | ok row =>
          obtain ⟨user,profile,rfl,named⟩ := created row rfl
          have accounts := @add_moves _ _ server (registering email currency) client (.profiled user profile) .accounts
            (fun id => ⟨id,row.id,service.defaultAccountCurrency,.fiat⟩)
            (fun id => .opened user profile ⟨id,row.id,service.defaultAccountCurrency,.fiat⟩) trivial (fun _ => rfl)
            (fun _ => ⟨user,profile,rfl,named,base⟩) (fun _ => rfl) (fun _ => trivial) (fun _ _ => rfl)
          change Program.Obeys _ _ _ _ (BaseRepository.add .accounts
            (fun id => ⟨id,row.id,service.defaultAccountCurrency,.fiat⟩) >>= fun account =>
              (pure ⟨row.id,account.id⟩ : Action UserRegistrationResult)) _ _
          rw [Program.obeys_bind]
          refine accounts.weaken ?_
          intro outcome last opened
          cases outcome with
          | error error => exact fun _ same => (by cases same)
          | ok account =>
            obtain rfl := opened account rfl
            intro result same
            cases same
            exact ⟨user,profile,_,rfl,named⟩

end Program

/-- The requests of any number of clients. Each hash has its own salt. -/
def registrations {Client : Type} (lower : String → String) (currency : String)
    (hashPassword : Client → String → Except Exception String) (request : Client → Registration) (client : Client) :
    Action UserRegistrationResult :=
  (⟨lower,hashPassword client,currency⟩ : OnboardingService).registerUser (request client)

section Invariant
variable {Client : Type} {server : Server Client} {lower : String → String} {currency : String}
  {hashPassword : Client → String → Except Exception String} {request : Client → Registration}

def Enrolling {α : Type} (email : Client → String) (currency : String) (client : Client) (state : Progress)
    (session : Session sql Write Resource α) (committed : Database) : Prop :=
  Inserting session committed ∧ session.writes = state.writes ∧ state.Sound (email client) currency

theorem enrolling_guarantee {α : Type} [DecidableEq Client] (email : Client → String) (currency : String)
    (programs : Client → Action α) :
    Guarantee server.engine (registering email currency) programs (fun _ => True)
      (fun db => ∀ t, Indexed t (db t)) (Enrolling email currency) where
  start client committed indexed := ⟨inserting_start _ indexed,rfl,trivial⟩
  sees _ _ _ _ _ _ := trivial
  answered client state session committed op rest reply writes _ holds permitted answered _ := by
    obtain ⟨inserting,sent,sound⟩ := holds
    have written := @Server.exec_writes _ server client session.issued.length op _ _ _ answered
    cases op with
    | update t id set => exact permitted.elim
    | insert t row =>
      have inserted := inserting.answered (fun _ _ _ same => (by cases same)) answered rest
        (session.issued ++ [.insert t row])
      cases t with
      | users =>
        obtain ⟨rfl,own⟩ := permitted
        obtain ⟨stored,ok,_,rfl⟩ := written
        obtain rfl := store_user ok
        exact ⟨inserted,congrArg (· ++ _) sent,own⟩
      | userProfiles =>
        obtain ⟨user,rfl,owner,pending⟩ := permitted
        obtain ⟨stored,ok,_,rfl⟩ := written
        obtain rfl := store_profile ok
        exact ⟨inserted,congrArg (· ++ _) sent,sound,owner,pending⟩
      | accounts =>
        obtain ⟨user,profile,rfl,owner,base⟩ := permitted
        obtain ⟨stored,ok,_,rfl⟩ := written
        cases ok
        exact ⟨inserted,congrArg (· ++ _) sent,sound,owner,base⟩
      | _ => exact permitted.elim
    | _ =>
      obtain rfl : writes = [] := written
      refine ⟨inserting.answered (fun _ _ _ same => (by cases same)) answered rest _,?_,sound⟩
      exact (List.append_nil _).trans sent
  failed client state session committed op rest error _ holds _ _ := by
    have still : (registering email currency).after client state op (.error error) = state := by
      cases op with
      | insert t row => cases t <;> rfl
      | _ => rfl
    rw [still]
    exact ⟨⟨holds.1.inserts,holds.1.held,holds.1.indexed⟩,holds.2⟩
  commit client state session committed _ holds := holds.1.commits
  rely client other state session state' session' committed _ _ mine theirs exclusive :=
    ⟨mine.1.rely theirs.1 exclusive,mine.2⟩

variable [DecidableEq Client] {client : Client} {label : Label sql Client}
  {before after config : Config sql Client Database Write Resource UserRegistrationResult}

theorem registrations_upheld
    (reached : Reachable server.engine (registrations lower currency hashPassword request) (fun _ => []) config) :
    Upheld server.engine (registering (fun client => lower (request client).email) currency) (fun _ => True)
      (fun db => ∀ t, Indexed t (db t)) (Enrolling (fun client => lower (request client).email) currency)
      (fun _ => Registers) config :=
  (enrolling_guarantee _ currency _).upheld (fun _ => registerUser_obeys _ _ rfl rfl) (fun _ => List.Pairwise.nil)
    reached

structure Enrolled (email currency : String) (result : UserRegistrationResult) (before after : Database) (user : User)
    (profile : UserProfile) (account : Account) : Prop where
  users : after .users = before .users ++ [user]
  userProfiles : after .userProfiles = before .userProfiles ++ [profile]
  accounts : after .accounts = before .accounts ++ [account]
  id : user.id = result.userId
  email : user.email = email
  owner : profile.userId = user.id
  pending : profile.kycStatus = .pending
  holder : account.userId = user.id
  base : account.currency = currency

theorem commit_enrols
    (reached : Reachable server.engine (registrations lower currency hashPassword request) (fun _ => []) config)
    {session : Session sql Write Resource UserRegistrationResult} {result : UserRegistrationResult}
    (opened : config.status client = .running session) (returned : session.program = .done (.ok result)) :
    ∃ user profile account, Enrolled (lower (request client).email) currency result config.committed
      (server.engine.visible config.committed session.writes) user profile account := by
  obtain ⟨state,⟨inserting,writes,sound⟩,obeys⟩ := (registrations_upheld reached).2 client session opened
  rw [returned] at obeys
  obtain ⟨user,profile,account,rfl,id⟩ := obeys result rfl
  have visible (t : Table) := inserting.visible server t
  rw [writes] at visible
  obtain ⟨⟨email,owner,pending⟩,holder,base⟩ := sound
  rw [writes]
  exact ⟨user,profile,account,visible .users,visible .userProfiles,visible .accounts,id.symm,email,owner,pending,
    holder,base⟩

/-- The committed users are those of the requests that have returned, each with
its profile and its account. -/
structure Roster (lower : String → String) (currency : String) (request : Client → Registration)
    (config : Config sql Client Database Write Resource UserRegistrationResult) : Prop where
  stored : ∀ client result issued, config.status client = .ended (.ok result) issued →
    ∃ user ∈ config.committed .users, user.id = result.userId ∧ user.email = lower (request client).email
  origin : ∀ user ∈ config.committed .users, ∃ client result issued, config.status client = .ended (.ok result) issued ∧
    user.id = result.userId ∧ user.email = lower (request client).email
  profile : ∀ user ∈ config.committed .users, ∃ profile ∈ config.committed .userProfiles, profile.userId = user.id
  pending : ∀ profile ∈ config.committed .userProfiles, profile.kycStatus = .pending
  account : ∀ user ∈ config.committed .users, ∃ account ∈ config.committed .accounts, account.userId = user.id
  base : ∀ account ∈ config.committed .accounts, account.currency = currency

omit [DecidableEq Client] in
theorem roster_initial : Roster lower currency request
    (.initial (fun _ => []) : Config sql Client Database Write Resource UserRegistrationResult) := by
  constructor
  · intro client result issued ended
    cases ended
  all_goals
    intro row member
    cases member

omit [DecidableEq Client] in
theorem Roster.still (roster : Roster lower currency request before) (same : after.committed = before.committed)
    (ended : ∀ client result issued, after.status client = .ended (.ok result) issued ↔
      before.status client = .ended (.ok result) issued) : Roster lower currency request after where
  stored := by simpa only [same,ended] using roster.stored
  origin := by simpa only [same,ended] using roster.origin
  profile := by simpa only [same] using roster.profile
  pending := by simpa only [same] using roster.pending
  account := by simpa only [same] using roster.account
  base := by simpa only [same] using roster.base

omit [DecidableEq Client] in
theorem Roster.enrol (roster : Roster lower currency request before) {result : UserRegistrationResult}
    {issued : List Statement} {user : User} {profile : UserProfile} {account : Account}
    (enrolled : Enrolled (lower (request client).email) currency result before.committed after.committed user profile
      account)
    (mine : after.status client = .ended (.ok result) issued)
    (others : ∀ other, other ≠ client → after.status other = before.status other)
    (unended : (before.status client).isEnded = false) : Roster lower currency request after := by
  have users (row : User) : row ∈ after.committed .users ↔ row ∈ before.committed .users ∨ row = user := by
    rw [enrolled.users]
    simp
  have profiles (row : UserProfile) :
      row ∈ after.committed .userProfiles ↔ row ∈ before.committed .userProfiles ∨ row = profile := by
    rw [enrolled.userProfiles]
    simp
  have accounts (row : Account) : row ∈ after.committed .accounts ↔ row ∈ before.committed .accounts ∨ row = account := by
    rw [enrolled.accounts]
    simp
  constructor
  · intro other answer sent ended
    by_cases same : other = client
    · subst same
      cases mine.symm.trans ended
      exact ⟨user,(users user).mpr (Or.inr rfl),enrolled.id,enrolled.email⟩
    · rw [others other same] at ended
      obtain ⟨row,member,named⟩ := roster.stored other answer sent ended
      exact ⟨row,(users row).mpr (Or.inl member),named⟩
  · intro row member
    rcases (users row).mp member with old | rfl
    · obtain ⟨other,answer,sent,ended,named⟩ := roster.origin row old
      have different : other ≠ client := by
        rintro rfl
        rw [ended] at unended
        cases unended
      exact ⟨other,answer,sent,(others other different).trans ended,named⟩
    · exact ⟨client,result,issued,mine,enrolled.id,enrolled.email⟩
  · intro row member
    rcases (users row).mp member with old | rfl
    · obtain ⟨owned,inside,named⟩ := roster.profile row old
      exact ⟨owned,(profiles owned).mpr (Or.inl inside),named⟩
    · exact ⟨profile,(profiles profile).mpr (Or.inr rfl),enrolled.owner⟩
  · intro row member
    rcases (profiles row).mp member with old | rfl
    · exact roster.pending row old
    · exact enrolled.pending
  · intro row member
    rcases (users row).mp member with old | rfl
    · obtain ⟨owned,inside,named⟩ := roster.account row old
      exact ⟨owned,(accounts owned).mpr (Or.inl inside),named⟩
    · exact ⟨account,(accounts account).mpr (Or.inr rfl),enrolled.holder⟩
  · intro row member
    rcases (accounts row).mp member with old | rfl
    · exact roster.base row old
    · exact enrolled.base

theorem roster_step
    (reached : Reachable server.engine (registrations lower currency hashPassword request) (fun _ => []) before)
    (step : Step server.engine (registrations lower currency hashPassword request) before label after)
    (roster : Roster lower currency request before) : Roster lower currency request after := by
  by_cases commits : label = .commit label.client
  · cases step with
    | commit client session result opened returned =>
      obtain ⟨user,profile,account,enrolled⟩ := commit_enrols reached opened returned
      exact roster.enrol enrolled (Config.set_self _ _ _) (fun other different => Config.set_other _ _ different)
        (congrArg Status.isEnded opened)
    | _ => cases commits
  · exact roster.still (step.kept commits) fun _ _ _ => step.returned_iff commits

theorem roster_reachable
    (reached : Reachable server.engine (registrations lower currency hashPassword request) (fun _ => []) config) :
    Roster lower currency request config := by
  refine (Runs.invariant (fun config => Reachable server.engine (registrations lower currency hashPassword request)
    (fun _ => []) config ∧ Roster lower currency request config) reached ⟨.refl,roster_initial⟩ ?_).2
  rintro before label after ⟨reached,roster⟩ step _
  exact ⟨reached.step step,roster_step reached step roster⟩

end Invariant

theorem filter_unique {α β : Type} [DecidableEq β] {key : α → β} {rows : List α} (distinct : (rows.map key).Nodup)
    {row : α} (member : row ∈ rows) : rows.filter (fun other => key other == key row) = [row] := by
  induction rows with
  | nil => cases member
  | cons first rest ih =>
    obtain ⟨fresh,distinct⟩ := List.nodup_cons.mp distinct
    rcases List.mem_cons.mp member with rfl | later
    · rw [List.filter_cons_of_pos (by simp),List.filter_eq_nil_iff.mpr]
      intro other inside same
      exact fresh (List.mem_map.mpr ⟨other,inside,by simpa using same⟩)
    · have different : key first ≠ key row := fun same => fresh (same ▸ List.mem_map_of_mem later)
      rw [List.filter_cons_of_neg (by simpa using different),ih distinct later]

/-- The user has one profile, with KYC pending, and one account, in the currency. -/
structure Complete (currency : String) (db : Database) (user : User) : Prop where
  profile : ∃ profile, (db .userProfiles).filter (fun row => row.userId == user.id) = [profile] ∧
    profile.kycStatus = .pending
  account : ∃ account, (db .accounts).filter (fun row => row.userId == user.id) = [account] ∧
    account.currency = currency

section Results
variable {Client : Type} [DecidableEq Client] {server : Server Client} {lower : String → String} {currency : String}
  {hashPassword : Client → String → Except Exception String} {request : Client → Registration} {client : Client}
  {label : Label sql Client} {before after config : Config sql Client Database Write Resource UserRegistrationResult}

theorem indexed_map {t : Table} {β : Type} {key : t.Row → β} {rows : List t.Row} (indexed : Indexed t rows)
    (clashes : ∀ first ∈ rows, ∀ second ∈ rows, key first = key second → Clash t first second) :
    (rows.map key).Nodup := by
  refine List.pairwise_map.mpr (indexed.imp_of_mem ?_)
  intro first second early late apart same
  exact apart (clashes first early second late same)

theorem emails_distinct {db : Database} (indexed : ∀ t, Indexed t (db t)) : ((db .users).map User.email).Nodup := by
  refine indexed_map (indexed .users) fun first _ second _ same => Or.inr ⟨.email first.email,?_,?_⟩
  · exact List.mem_singleton_self _
  · exact List.mem_singleton.mpr (congrArg IndexEntry.email same)

omit [DecidableEq Client] in
theorem Roster.complete (roster : Roster lower currency request config) (indexed : ∀ t, Indexed t (config.committed t))
    {user : User} (member : user ∈ config.committed .users) : Complete currency config.committed user := by
  constructor
  · obtain ⟨profile,inside,named⟩ := roster.profile user member
    have distinct : ((config.committed .userProfiles).map UserProfile.userId).Nodup := by
      refine indexed_map (indexed .userProfiles) fun first _ second _ same => Or.inr ⟨.profile first.userId,?_,?_⟩
      · exact List.mem_singleton_self _
      · exact List.mem_singleton.mpr (congrArg IndexEntry.profile same)
    rw [← named]
    exact ⟨profile,filter_unique distinct inside,roster.pending profile inside⟩
  · obtain ⟨account,inside,named⟩ := roster.account user member
    have distinct : ((config.committed .accounts).map Account.userId).Nodup := by
      refine indexed_map (indexed .accounts) fun first early second late same =>
        Or.inr ⟨.userCurrency first.userId first.currency,List.mem_singleton_self _,List.mem_singleton.mpr ?_⟩
      rw [same,roster.base first early,roster.base second late]
    rw [← named]
    exact ⟨account,filter_unique distinct inside,roster.base account inside⟩

def Registered (config : Config sql Client Database Write Resource UserRegistrationResult) (client : Client)
    (result : UserRegistrationResult) : Prop := ∃ issued, config.status client = .ended (.ok result) issued

omit [DecidableEq Client] in
theorem Roster.lookup (roster : Roster lower currency request config) (indexed : ∀ t, Indexed t (config.committed t))
    (email : String) (found : Option User)
    (read : (config.committed .users).find? (fun user => user.email == lower email) = found) :
    (∀ client result, Registered config client result → lower (request client).email = lower email →
      ∃ user, found = some user ∧ user.id = result.userId ∧ user.email = lower (request client).email) ∧
    (found = none ↔ ∀ client result, Registered config client result →
      lower (request client).email ≠ lower email) := by
  subst found
  have known (client : Client) (result : UserRegistrationResult) (registered : Registered config client result)
      (same : lower (request client).email = lower email) : ∃ user,
        (config.committed .users).find? (fun user => user.email == lower email) = some user ∧
          user.id = result.userId ∧ user.email = lower (request client).email := by
    obtain ⟨issued,ended⟩ := registered
    obtain ⟨user,member,id,named⟩ := roster.stored client result issued ended
    cases read : (config.committed .users).find? (fun user => user.email == lower email) with
    | none =>
      have absent := List.find?_eq_none.mp read user member
      simp [named,same] at absent
    | some other =>
      have chosen : other.email = lower email := by simpa using List.find?_some read
      have equal := List.inj_on_of_nodup_map (emails_distinct indexed) (List.mem_of_find?_eq_some read) member
        (chosen.trans (same.symm.trans named.symm))
      subst equal
      exact ⟨other,rfl,id,named⟩
  refine ⟨known,fun absent client result registered same => ?_,fun nobody => ?_⟩
  · obtain ⟨user,read,_⟩ := known client result registered same
    rw [absent] at read
    cases read
  · refine List.find?_eq_none.mpr fun user member same => ?_
    obtain ⟨client,result,issued,ended,_,named⟩ := roster.origin user member
    have chosen : user.email = lower email := by simpa using same
    exact nobody client result ⟨issued,ended⟩ (named.symm.trans chosen)

def refusedEmail (request : Registration) : Except Exception UserRegistrationResult :=
  .error (OnboardingService.userAlreadyExists request.email)

def Taken (email : String) (db : Database) : Prop := ∃ user ∈ db .users, user.email = email

omit [DecidableEq Client] in
theorem registration_opening : ∃ next,
    registrations lower currency hashPassword request client = .call (.selectUserId (lower (request client).email)) next ∧
      ∀ id, next (.ok (some id)) = .done (refusedEmail (request client)) :=
  ⟨_,rfl,fun _ => rfl⟩

omit [DecidableEq Client] in
theorem Taken.found {email : String} {db : Database} (taken : Taken email db) (turn : Nat) :
    ∃ id, server.engine.exec client turn (.selectUserId email) db = .ok (some id,[]) := by
  obtain ⟨user,member,named⟩ := taken
  cases read : (db .users).find? (fun user => user.email == email) with
  | none =>
    have absent := List.find?_eq_none.mp read user member
    simp [named] at absent
  | some other =>
    refine ⟨other.id,?_⟩
    change Except.ok (((db .users).find? (fun user => user.email == email)).map User.id,[]) = _
    rw [read]
    rfl

omit [DecidableEq Client] in
theorem taken_transact {db : Database} (taken : Taken (lower (request client).email) db) :
    (server.engine.transact client (registrations lower currency hashPassword request client) db).outcome =
        refusedEmail (request client) ∧
      (server.engine.transact client (registrations lower currency hashPassword request client) db).after = db := by
  obtain ⟨next,opening,refuses⟩ := @registration_opening Client lower currency hashPassword request client
  obtain ⟨id,found⟩ := @Taken.found Client server client _ db taken 0
  have outcome : (server.engine.transact client (registrations lower currency hashPassword request client) db).outcome =
      refusedEmail (request client) := by
    rw [Engine.transact_outcome,opening,Engine.run_call,Engine.issue_ok _ found,refuses]
    rfl
  exact ⟨outcome,Engine.transact_rollback _ _ _ _ _ outcome⟩

theorem taken_step {email : String}
    (reached : Reachable server.engine (registrations lower currency hashPassword request) (fun _ => []) before)
    (step : Step server.engine (registrations lower currency hashPassword request) before label after)
    (taken : Taken email before.committed) : Taken email after.committed := by
  by_cases commits : label = .commit label.client
  · cases step with
    | commit client session result opened returned =>
      obtain ⟨user,member,named⟩ := taken
      obtain ⟨_,_,_,enrolled⟩ := commit_enrols reached opened returned
      refine ⟨user,?_,named⟩
      change user ∈ (server.engine.visible before.committed session.writes) .users
      rw [enrolled.users]
      exact List.mem_append_left _ member
    | _ => cases commits
  · rw [step.kept commits]
    exact taken

inductive Refusing (program : Action UserRegistrationResult) (answer : Except Exception UserRegistrationResult) :
    Status sql Write Resource UserRegistrationResult → Prop
  | ready : Refusing program answer .ready
  | asking : Refusing program answer (.running ⟨program,[],[],[]⟩)
  | told (session) (refused : session.program = .done answer) : Refusing program answer (.running session)
  | ended (issued) : Refusing program answer (.ended answer issued)

theorem Refusing.running {program : Action UserRegistrationResult} {answer : Except Exception UserRegistrationResult}
    {session : Session sql Write Resource UserRegistrationResult} (refusing : Refusing program answer (.running session)) :
    session = ⟨program,[],[],[]⟩ ∨ session.program = .done answer := by
  cases refusing with
  | asking => exact Or.inl rfl
  | told _ refused => exact Or.inr refused

theorem refusing_step (step : Step server.engine (registrations lower currency hashPassword request) before label after)
    (taken : Taken (lower (request client).email) before.committed)
    (refusing : Refusing (registrations lower currency hashPassword request client) (refusedEmail (request client))
      (before.status client)) :
    Refusing (registrations lower currency hashPassword request client) (refusedEmail (request client))
        (after.status client) ∧ (label.client = client → after.committed = before.committed) := by
  by_cases mine : client = label.client
  · obtain ⟨next,opening,refuses⟩ := @registration_opening Client lower currency hashPassword request client
    cases opened : before.status client with
    | ready =>
      obtain ⟨running,committed⟩ := step.opens mine opened
      rw [running]
      exact ⟨.asking,fun _ => committed⟩
    | running session =>
      rw [opened] at refusing
      rcases refusing.running with rfl | refused
      · obtain ⟨_,running,committed⟩ := step.sends mine opened opening
        obtain ⟨id,found⟩ := @Taken.found Client server client _ before.committed taken 0
        rw [running,Engine.proceed_ok _ _ found]
        exact ⟨.told _ (refuses id),fun _ => committed⟩
      · obtain ⟨ended,committed⟩ := step.finishes mine opened refused
        rw [ended]
        exact ⟨.ended _,fun _ => committed⟩
    | ended outcome issued => exact absurd opened (step.alive mine)
  · rw [step.others mine]
    exact ⟨refusing,fun same => absurd same.symm mine⟩

theorem refusing_runs {later : Config sql Client Database Write Resource UserRegistrationResult}
    (reached : Reachable server.engine (registrations lower currency hashPassword request) (fun _ => []) config)
    (taken : Taken (lower (request client).email) config.committed) (ready : config.status client = .ready)
    (runs : Runs server.engine (registrations lower currency hashPassword request) (fun _ _ => True) config later) :
    Taken (lower (request client).email) later.committed ∧
      Refusing (registrations lower currency hashPassword request client) (refusedEmail (request client))
        (later.status client) := by
  refine (Runs.invariant (fun later =>
    Reachable server.engine (registrations lower currency hashPassword request) (fun _ => []) later ∧
      Taken (lower (request client).email) later.committed ∧
      Refusing (registrations lower currency hashPassword request client) (refusedEmail (request client))
        (later.status client)) runs ⟨reached,taken,?_⟩ ?_).2
  · rw [ready]
    exact .ready
  · rintro before label after ⟨reached,taken,refusing⟩ step _
    exact ⟨reached.step step,taken_step reached step taken,(refusing_step step taken refusing).1⟩

end Results

/-- The request raises UserAlreadyExistsError, alone and in every interleaving
with others, and none of its steps changes the committed state. -/
def AlreadyRegistered {Client : Type} [DecidableEq Client] (server : Server Client)
    (programs : Client → Action UserRegistrationResult) (request : Client → Registration)
    (config : Config sql Client Database Write Resource UserRegistrationResult) (client : Client) : Prop :=
  ((server.engine.transact client (programs client) config.committed).outcome = refusedEmail (request client) ∧
    (server.engine.transact client (programs client) config.committed).after = config.committed) ∧
  ∀ later, Runs server.engine programs (fun _ _ => True) config later →
    (∀ outcome issued, later.status client = .ended outcome issued → outcome = refusedEmail (request client)) ∧
    ∀ label after, Step server.engine programs later label after → label.client = client →
      after.committed = later.committed

/-- In every committed state that an interleaving of registrations reaches from
the empty database, emails are lowered and distinct, users are complete, the
lookup by email finds exactly the registered ones, and a request that starts
after its email was registered is refused. -/
theorem registration_invariant {Client : Type} [DecidableEq Client] (server : Server Client)
    (lower : String → String) (idempotent : ∀ email, lower (lower email) = lower email) (currency : String)
    (hashPassword : Client → String → Except Exception String) (request : Client → Registration)
    (config : Config sql Client Database Write Resource UserRegistrationResult)
    (reached : Reachable server.engine (registrations lower currency hashPassword request) (fun _ => []) config) :
    ((∀ user ∈ config.committed .users, lower user.email = user.email) ∧
      ((config.committed .users).map User.email).Nodup) ∧
    (∀ user ∈ config.committed .users, Complete currency config.committed user) ∧
    (∀ reader email, ∃ found,
      (server.engine.transact reader (UserRepository.getByEmail lower email) config.committed).outcome = .ok found ∧
      (∀ client result, Registered config client result → lower (request client).email = lower email →
        ∃ user, found = some user ∧ user.id = result.userId ∧ user.email = lower (request client).email) ∧
      (found = none ↔ ∀ client result, Registered config client result →
        lower (request client).email ≠ lower email)) ∧
    ∀ client other result, Registered config other result →
      lower (request other).email = lower (request client).email → config.status client = .ready →
      AlreadyRegistered server (registrations lower currency hashPassword request) request config client := by
  have roster := roster_reachable reached
  have indexed := (registrations_upheld reached).1
  refine ⟨⟨fun user member => ?_,emails_distinct indexed⟩,fun user member => roster.complete indexed member,
    fun reader email => ⟨_,rfl,roster.lookup indexed email _ rfl⟩,?_⟩
  · obtain ⟨client,_,_,_,_,named⟩ := roster.origin user member
    rw [named,idempotent]
  · rintro client other result ⟨issued,ended⟩ same ready
    obtain ⟨user,member,_,named⟩ := roster.stored other result issued ended
    have taken : Taken (lower (request client).email) config.committed := ⟨user,member,named.trans same⟩
    refine ⟨taken_transact taken,fun later runs => ⟨fun outcome issued ended => ?_,fun label after step mine => ?_⟩⟩
    · have refusing := (refusing_runs reached taken ready runs).2
      rw [ended] at refusing
      cases refusing
      rfl
    · obtain ⟨taken,refusing⟩ := refusing_runs reached taken ready runs
      exact (refusing_step step taken refusing).2 mine

section Sample

def lowered (text : String) : String := String.ofList (text.toList.map Char.toLower)

theorem lowered_lowered (text : String) : lowered (lowered text) = lowered text := by
  simp [lowered,Function.comp_def]

def sampleRegistrations (client : Fin 2) : Registration :=
  ⟨if client = oneClient then "Ana@Example.com" else "ana@EXAMPLE.com","secret12","Ana","BR",none⟩

def standing (status : Status sql Write Resource UserRegistrationResult) : Option UserRegistrationResult × Bool :=
  match status with
  | .ended (.ok result) _ => (some result,false)
  | .ready => (none,true)
  | _ => (none,false)

theorem standing_returned {status : Status sql Write Resource UserRegistrationResult} {result : UserRegistrationResult}
    {idle : Bool} (stands : standing status = (some result,idle)) : ∃ issued, status = .ended (.ok result) issued := by
  unfold standing at stands
  split at stands
  · next value issued =>
    cases stands
    exact ⟨issued,rfl⟩
  · cases stands
  · cases stands

theorem standing_ready {status : Status sql Write Resource UserRegistrationResult}
    (stands : standing status = (none,true)) : status = .ready := by
  unfold standing at stands
  split at stands
  · cases stands
  · rfl
  · cases stands

/-- The same email in another case, once the first request has returned. -/
theorem registration_repeated :
    ∃ config, Reachable sampleServer.engine
        (registrations lowered "BRL" (fun _ password => .ok password) sampleRegistrations) (fun _ => []) config ∧
      Registered config 0 ⟨101,107⟩ ∧ AlreadyRegistered sampleServer
        (registrations lowered "BRL" (fun _ password => .ok password) sampleRegistrations) sampleRegistrations config 1 := by
  have scheduled : (Transaction.follow sampleServer.engine
      (registrations lowered "BRL" (fun _ password => .ok password) sampleRegistrations)
      (List.replicate 12 0) (.initial (fun _ => []))).map (fun config =>
        (standing (config.status 0),standing (config.status 1))) = some ((some ⟨101,107⟩,false),(none,true)) := by
    decide +kernel
  obtain ⟨config,followed,facts⟩ := Option.map_eq_some_iff.mp scheduled
  obtain ⟨first,second⟩ := Prod.mk.inj facts
  have reached := Transaction.follow_reachable .refl followed
  have registered : Registered config 0 ⟨101,107⟩ := standing_returned first
  exact ⟨config,reached,registered,(registration_invariant sampleServer lowered lowered_lowered "BRL"
    (fun _ password => .ok password) sampleRegistrations config reached).2.2.2 1 0 _ registered (by decide +kernel)
    (standing_ready second)⟩

end Sample

end CryptoBrokerage
