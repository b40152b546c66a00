import CryptoBrokerage.Api
import CryptoBrokerage.OwnRows
import CryptoBrokerage.UniqueIndex

/-! What a request with a bearer token sends before its user is known, and whose
rows it reaches with what follows. -/
namespace CryptoBrokerage
open Transaction

def Table.owner : (t : Table) → t.Row → Option Uuid
  | .userProfiles, row => some row.userId
  | .accounts, row => some row.userId
  | .bankAccounts, row => some row.userId
  | .orders, row => some row.userId
  | .positions, row => some row.userId
  | .transactions, row => some row.userId
  | _, _ => none

def Database.Owns (db : Database) (userId : Uuid) (t : Table) (id : Uuid) : Prop :=
  ∃ row ∈ db t, t.key row = id ∧ t.owner row = some userId

/-- A row of the user's, or one that the transaction has itself inserted. -/
def Mine (userId : Uuid) (db : Database) (writes : List Write) (t : Table) (id : Uuid) : Prop :=
  db.Owns userId t id ∨ ∃ row, .insert t row ∈ writes ∧ t.key row = id

/-- A statement that selects by the user's id, reads, locks, updates or sums up rows
that are `mine`, or inserts a row of the user's. Assets are everybody's. -/
def Statement.Within (userId : Uuid) (mine : Table → Uuid → Prop) : Statement → Prop
  | .uuid4 | .submitOrder _ | .getInstrumentPrices _ => True
  | .insert .tradeExecutions row => mine .orders row.orderId
  | .insert t row => t.owner row = some userId
  | .update t key _ => mine t key
  | .get t key => t = .assets ∨ mine t key
  | .selectAccountForUpdate key | .sumCredits key | .sumDebits key => mine .accounts key
  | .selectAccount owner _ | .selectAccounts owner | .selectBankAccounts owner | .selectBankAccount owner _
  | .selectOrders owner _ _ _ | .selectPosition owner _ | .selectPositions owner => owner = userId
  | _ => False

/-- The one lookup of a row that the request itself names. -/
def UserCall.Names : UserCall → Statement → Prop
  | .getBalance accountId, op => op = .get .accounts accountId
  | .getOrder orderId, op => op = .get .orders orderId
  | .createOrder payload, op => op = .selectOrder payload.idempotencyKey
  | _, _ => False

section Ownership
variable {userId : Uuid} {t : Table} {id : Uuid}

theorem Statement.Within.mono {mine more : Table → Uuid → Prop} {op : Statement} (within : op.Within userId mine)
    (wider : ∀ t id, mine t id → more t id) : op.Within userId more := by
  cases op with
  | insert t row => cases t <;> first | exact wider _ _ within | exact within
  | get t id => exact within.imp_right (wider t id)
  | update t id set => exact wider t id within
  | selectAccountForUpdate id => exact wider _ _ within
  | sumCredits id => exact wider _ _ within
  | sumDebits id => exact wider _ _ within
  | _ => exact within

theorem Table.owner_assign (t : Table) (set : t.Columns) (row : t.Row) : t.owner (t.assign set row) = t.owner row := by
  cases t <;> first | rfl | exact set.elim

theorem Database.owns_apply (db : Database) (write : Write) : (db.apply write).Owns userId t id ↔
    db.Owns userId t id ∨ ∃ row, write = .insert t row ∧ t.key row = id ∧ t.owner row = some userId := by
  constructor
  · rintro ⟨row,member,named,owned⟩
    rcases apply_mem member with old | rfl | ⟨set,old,rfl,inside,rfl⟩
    · exact Or.inl ⟨row,old,named,owned⟩
    · exact Or.inr ⟨row,rfl,named,owned⟩
    · rw [Table.key_assign] at named
      rw [Table.owner_assign] at owned
      exact Or.inl ⟨old,inside,named,owned⟩
  · rintro (⟨row,member,named,owned⟩ | ⟨row,rfl,named,owned⟩)
    · by_cases touched : write.table = t
      · cases write with
        | insert other fresh =>
          obtain rfl : other = t := touched
          refine ⟨row,?_,named,owned⟩
          change row ∈ db.insert other fresh other
          rw [insert_self]
          exact List.mem_append_left _ member
        | update other key set =>
          obtain rfl : other = t := touched
          refine ⟨if other.key row = key then other.assign set row else row,?_,?_⟩
          · change _ ∈ db.modify other key set other
            rw [modify_self]
            exact List.mem_map_of_mem member
          · split
            · rw [Table.key_assign,Table.owner_assign]
              exact ⟨named,owned⟩
            · exact ⟨named,owned⟩
      · rw [← apply_other db touched] at member
        exact ⟨row,member,named,owned⟩
    · refine ⟨row,?_,named,owned⟩
      change row ∈ db.insert t row t
      rw [insert_self]
      exact List.mem_append_right _ (List.mem_singleton_self row)

theorem Database.owns_visible (writes : List Write) (db : Database) : Database.Owns (writes.foldl apply db) userId t id ↔
    db.Owns userId t id ∨ ∃ row, .insert t row ∈ writes ∧ t.key row = id ∧ t.owner row = some userId := by
  induction writes generalizing db with
  | nil => simp
  | cons write rest ih =>
    rw [List.foldl_cons,ih,owns_apply,or_assoc]
    refine or_congr_right ?_
    constructor
    · rintro (⟨row,rfl,holds⟩ | ⟨row,member,holds⟩)
      · exact ⟨row,List.mem_cons_self,holds⟩
      · exact ⟨row,List.mem_cons_of_mem _ member,holds⟩
    · rintro ⟨row,member,holds⟩
      rcases List.mem_cons.mp member with rfl | member
      · exact Or.inl ⟨row,rfl,holds⟩
      · exact Or.inr ⟨row,member,holds⟩

theorem Mine.grow {committed : Database} {writes : List Write}
    (mine : Mine userId (writes.foldl Database.apply committed) writes t id)
    (more : List Write) : Mine userId ((writes ++ more).foldl Database.apply committed) (writes ++ more) t id := by
  rcases mine with owned | ⟨row,inserted,named⟩
  · rw [List.foldl_append]
    exact Or.inl ((Database.owns_visible more _).mpr (Or.inl owned))
  · exact Or.inr ⟨row,List.mem_append_left _ inserted,named⟩

theorem Mine.rely {committed : Database} {writes : List Write}
    (mine : Mine userId (writes.foldl Database.apply committed) writes t id)
    (others : List Write) : Mine userId (writes.foldl Database.apply (others.foldl Database.apply committed)) writes t id := by
  refine mine.imp_left fun owned => ?_
  rw [Database.owns_visible] at owned ⊢
  exact owned.imp_left fun old => (Database.owns_visible others _).mpr (Or.inl old)

end Ownership

/-- The user of a request with a token, and the rows that are known to be the user's
or inserted by it. Refused is a request that has found the row of another user. -/
inductive Mediation
  | asking
  | serving (user : User) (own : List (Table × Uuid))
  | refused

namespace Mediation

def Permits (userId : Uuid) (request : UserCall) : Mediation → Statement → Prop
  | .asking, op => op = .get .users userId
  | .serving user own, op => user.id = userId ∧ user.isActive = true ∧
      (op.Within userId (fun t id => (t,id) ∈ own) ∨ request.Names op)
  | .refused, _ => False

def after (state : Mediation) (op : Statement) (reply : Except Exception op.Reply) : Mediation :=
  match state with
  | .asking =>
    match op, reply with
    | .get .users _, .ok (some user) => .serving user []
    | _, _ => .asking
  | .serving user own =>
    match op, reply with
    | .insert t row, .ok _ => .serving user ((t,t.key row)::own)
    | .selectAccount _ _, .ok (some account) => .serving user ((.accounts,account.id)::own)
    | .selectAccounts _, .ok accounts => .serving user (accounts.map (fun account => (.accounts,account.id)) ++ own)
    | .get t key, .ok (some row) =>
      if (t,key) ∈ own ∨ t = .assets then .serving user own
      else if t.owner row = some user.id then .serving user ((t,key)::own) else .refused
    | .selectOrder _, .ok (some order) => if order.userId = user.id then .serving user own else .refused
    | _, _ => .serving user own
  | .refused => .refused

def Holds {α : Type} (session : Session sql Write Resource α) (committed : Database) : Mediation → Prop
  | .asking => session.writes = []
  | .serving user own => user ∈ committed .users ∧
      ∀ t id, (t,id) ∈ own → Mine user.id (session.writes.foldl Database.apply committed) session.writes t id
  | .refused => True

end Mediation
/-- A request with a token first asks for its user, and sends the rest for that one,
if it is active, until it finds a row of another user. -/
def mediation {Client : Type} (bearer : Client → Option (Except Exception Uuid × UserCall)) :
    Protocol sql Client Mediation where
  start _ := .asking
  allowed client state op := ∀ subject request, bearer client = some (subject,request) →
    ∃ userId, subject = .ok userId ∧ state.Permits userId request op
  after _ state op reply := state.after op reply

def Serves (user : User) (base : List (Table × Uuid)) (state : Mediation) : Prop :=
  ∃ own, state = .serving user own ∧ ∀ t id, (t,id) ∈ base → (t,id) ∈ own

section Programs
variable {Client α β : Type} {server : Server Client} {client : Client}
  {bearer : Client → Option (Except Exception Uuid × UserCall)} {user : User} {base : List (Table × Uuid)}

/-- What a program obeys where some rows are known to be the user's: if it returns,
more are known. -/
def Mediates (server : Server Client) (bearer : Client → Option (Except Exception Uuid × UserCall)) (client : Client)
    (user : User) (base : List (Table × Uuid)) (program : Action α) (later : α → List (Table × Uuid)) : Prop :=
  ∀ state, Serves user base state → program.Obeys server.engine (fun _ => True) (mediation bearer) client state
    (fun outcome last => ∀ value, outcome = .ok value → Serves user (later value) last)

theorem Serves.after {state : Mediation} (serves : Serves user base state) {op : Statement}
    (within : op.Within user.id (fun t id => (t,id) ∈ base)) (reply : Except Exception op.Reply) :
    Serves user base (state.after op reply) := by
  obtain ⟨own,rfl,more⟩ := serves
  cases reply with
  | error error => cases op <;> exact ⟨own,rfl,more⟩
  | ok reply =>
    cases op with
    | insert t row => exact ⟨_,rfl,fun t id member => List.mem_cons_of_mem _ (more t id member)⟩
    | selectAccount owner currency =>
      cases reply with
      | none => exact ⟨own,rfl,more⟩
      | some account => exact ⟨_,rfl,fun t id member => List.mem_cons_of_mem _ (more t id member)⟩
    | selectAccounts owner => exact ⟨_,rfl,fun t id member => List.mem_append_right _ (more t id member)⟩
    | get t key =>
      cases reply with
      | none => exact ⟨own,rfl,more⟩
      | some row => exact ⟨own,if_pos (within.symm.imp_left (more t key)),more⟩
    | selectOrder idempotencyKey => exact within.elim
    | _ => exact ⟨own,rfl,more⟩

section Served
variable {request : UserCall} (known : bearer client = some (.ok user.id,request)) (active : user.isActive = true)
include known active

end Served

theorem Mediates.bind {program : Action α} {next : α → Action β} {later : α → List (Table × Uuid)}
    {last : β → List (Table × Uuid)} (first : Mediates server bearer client user base program later)
    (rest : ∀ value, Mediates server bearer client user (later value) (next value) last) :
    Mediates server bearer client user base (program >>= next) last := by
  intro state serves
  rw [Program.obeys_bind]
  refine (first state serves).weaken fun outcome last reached => ?_
  cases outcome with
  | error error => exact fun _ same => by cases same
  | ok value => exact rest value last (reached value rfl)

def Closed (outcome : Except Exception α) (last : Mediation) : Prop :=
  last = .refused → ∃ error, outcome = .error error

theorem closed_error (error : Exception) (last : Mediation) : Closed (.error error : Except Exception α) last :=
  fun _ => ⟨error,rfl⟩

theorem Mediates.closes {program : Action α} {later : α → List (Table × Uuid)} {state : Mediation}
    (mediates : Mediates server bearer client user base program later) (serves : Serves user base state) :
    program.Obeys server.engine (fun _ => True) (mediation bearer) client state Closed := by
  refine (mediates state serves).weaken fun outcome last reached refused => ?_
  cases outcome with
  | error error => exact ⟨error,rfl⟩
  | ok value =>
    obtain ⟨own,same,_⟩ := reached value rfl
    cases same.symm.trans refused

theorem Closed.map {program : Action α} {state : Mediation} (f : α → β)
    (closes : program.Obeys server.engine (fun _ => True) (mediation bearer) client state Closed) :
    (f <$> program).Obeys server.engine (fun _ => True) (mediation bearer) client state Closed := by
  rw [map_eq_pure_bind,Program.obeys_bind]
  refine closes.weaken fun outcome last closed => ?_
  cases outcome with
  | error error => exact closed_error error last
  | ok value =>
    intro refused
    obtain ⟨error,impossible⟩ := closed refused
    cases impossible

end Programs

section Reach
variable {userId : Uuid} {mine : Table → Uuid → Prop}

end Reach

section Endpoints
variable {Client : Type} {server : Server Client} {client : Client}
  {bearer : Client → Option (Except Exception Uuid × UserCall)} {user : User} {base : List (Table × Uuid)}
  {request : UserCall} (known : bearer client = some (.ok user.id,request)) (active : user.isActive = true)
include known active

section Trades
variable {gateway : SubmittedOrder → Except Exception OrderSubmission} {now : Timestamp} {trade : TradeRequest}

end Trades

end Endpoints

def Call.bearer (platform : Platform) (moment : Moment) : Call → Option (Except Exception Uuid × UserCall)
  | .user token call => some (tokenSubject platform.jwt platform.settings moment.now token,call)
  | _ => none

section Mediated
variable {Client : Type} {server : Server Client} {client : Client}
  {bearer : Client → Option (Except Exception Uuid × UserCall)}

theorem Mediation.Holds.proceeds {α : Type} {user : User} {own : List (Table × Uuid)} {session : Session sql Write Resource α}
    {committed : Database} (holds : Mediation.Holds session committed (.serving user own)) {request : UserCall} {op : Statement}
    (reaches : op.Within user.id (fun t id => (t,id) ∈ own) ∨ request.Names op) {turn : Nat} {reply : op.Reply}
    {writes : List Write}
    (answered : server.exec client turn op (session.writes.foldl Database.apply committed) = .ok (reply,writes))
    (rest : Program sql α) (held : List Resource) (issued : List Statement) :
    Mediation.Holds ⟨rest,session.writes ++ writes,held,issued⟩ committed
      (Mediation.after (.serving user own) op (.ok reply)) := by
  obtain ⟨stored,known⟩ := holds
  have kept (t : Table) (id : Uuid) (member : (t,id) ∈ own) :
      Mine user.id ((session.writes ++ writes).foldl Database.apply committed) (session.writes ++ writes) t id :=
    (known t id member).grow writes
  have more {t : Table} {id : Uuid} (mine : Mine user.id ((session.writes ++ writes).foldl Database.apply committed)
      (session.writes ++ writes) t id) : Mediation.Holds ⟨rest,session.writes ++ writes,held,issued⟩ committed
        (.serving user ((t,id)::own)) := by
    refine ⟨stored,fun other key member => ?_⟩
    rcases List.mem_cons.mp member with same | member
    · cases same
      exact mine
    · exact kept other key member
  have read {t : Table} {row : t.Row} (member : row ∈ (session.writes.foldl Database.apply committed) t)
      (owned : t.owner row = some user.id) : Mine user.id ((session.writes ++ writes).foldl Database.apply committed)
        (session.writes ++ writes) t (t.key row) :=
    Mine.grow (Or.inl ⟨row,member,rfl,owned⟩) writes
  cases op with
  | insert t row =>
    obtain ⟨entered,ok,_,rfl⟩ := Server.exec_writes answered
    refine more (Or.inr ⟨entered,List.mem_append_right _ (List.mem_singleton_self _),?_⟩)
    exact (Table.key_store _ ok).trans (Table.key_stamp _ _ _)
  | selectAccount owner currency =>
    obtain rfl : owner = user.id := reaches.resolve_right fun named => by cases request <;> cases named
    have found := congrArg Prod.fst (Except.ok.inj answered)
    cases reply with
    | none => exact ⟨stored,kept⟩
    | some account =>
      have matched := List.find?_some found
      rw [Bool.and_eq_true,beq_iff_eq] at matched
      exact more (read (List.mem_of_find?_eq_some found) (congrArg some matched.1))
  | selectAccounts owner =>
    obtain rfl : owner = user.id := reaches.resolve_right fun named => by cases request <;> cases named
    obtain rfl := congrArg Prod.fst (Except.ok.inj answered)
    refine ⟨stored,fun t id member => ?_⟩
    rcases List.mem_append.mp member with listed | member
    · obtain ⟨account,inside,same⟩ := List.mem_map.mp listed
      cases same
      obtain ⟨present,owned⟩ := List.mem_filter.mp inside
      exact read present (congrArg some (beq_iff_eq.mp owned))
    · exact kept t id member
  | get t key =>
    have found := congrArg Prod.fst (Except.ok.inj answered)
    cases reply with
    | none => exact ⟨stored,kept⟩
    | some row =>
      obtain ⟨member,named⟩ := Database.find_some found
      change Mediation.Holds _ _ (if _ then _ else if _ then _ else _)
      split
      · exact ⟨stored,kept⟩
      · split
        · next owned =>
          rw [← named]
          exact more (read member owned)
        · trivial
  | selectOrder idempotencyKey =>
    cases reply with
    | none => exact ⟨stored,kept⟩
    | some order =>
      change Mediation.Holds _ _ (if _ then _ else _)
      split
      · exact ⟨stored,kept⟩
      · trivial
  | _ => exact ⟨stored,kept⟩

theorem Mediation.Holds.rely {α : Type} {state : Mediation} {session : Session sql Write Resource α} {committed : Database}
    (holds : state.Holds session committed) (writes : List Write) :
    state.Holds session (writes.foldl Database.apply committed) := by
  cases state with
  | serving user own =>
    refine ⟨?_,fun t id member => (holds.2 t id member).rely writes⟩
    rw [visible_users]
    exact List.mem_append_left _ holds.1
  | _ => exact holds

end Mediated

end CryptoBrokerage
