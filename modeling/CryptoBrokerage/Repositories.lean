import CryptoBrokerage.Database

/-! The repositories: what each of their methods sends, and what a run of it
has done when it returns. A flush of a new entity draws its UUID, and every
flush ends with a refresh that reads the row back. -/
namespace CryptoBrokerage
open Transaction (Program Engine Protocol View)
open DecimalContext (rounded)

/-- A product of two values from outside, the one operation whose result can
leave the range of exponents. -/
def product [DecimalContext] (first second : ℚ) : Except Exception ℚ :=
  if DecimalContext.overflows (first * second) then .error .overflow else .ok (rounded (first * second))

@[simp] theorem product_exact (first second : ℚ) : @product DecimalContext.exact first second = .ok (first * second) := rfl

theorem product_error [DecimalContext] {first second : ℚ} {error : Exception} (failed : product first second = .error error) :
    error = .overflow := by
  unfold product at failed
  split at failed
  · exact (Except.error.inj failed).symm
  · cases failed

structure Posting where
  debitAccountId : Uuid
  creditAccountId : Uuid
  amount : ℚ
  currency : String
  referenceType : String
  referenceId : String
  deriving DecidableEq, Repr

namespace BaseRepository

def getById (t : Table) (id : Uuid) : Action (Option t.Row) := send (.get t id)

def refresh (t : Table) (id : Uuid) : Action t.Row := do
  match ← getById t id with
  | some row => pure row
  | none => .raise (.invalidRequest "Could not refresh instance")

def add (t : Table) (entity : Uuid → t.Row) : Action t.Row := do
  let id ← send .uuid4
  send (.insert t (entity id))
  refresh t id

def flush (t : Table) (row : t.Row) (set : t.Columns) : Action Unit :=
  match t.dirty row set with
  | some columns => send (.update t (t.key row) columns)
  | none => pure ()

def update (t : Table) (row : t.Row) (set : t.Columns) : Action t.Row := do
  flush t row set
  refresh t (t.key row)

end BaseRepository

namespace AccountRepository

def getByUserAndCurrency (userId : Uuid) (currency : String) : Action (Option Account) :=
  send (.selectAccount userId currency)

def listByUser (userId : Uuid) : Action (List Account) := send (.selectAccounts userId)

def getBalance [DecimalContext] (accountId : Uuid) : Action ℚ := do
  let credits ← send (.sumCredits accountId)
  let debits ← send (.sumDebits accountId)
  pure (rounded (credits - debits))

def getBalanceForUpdate [DecimalContext] (accountId : Uuid) : Action (Account × ℚ) := do
  match ← send (.selectAccountForUpdate accountId) with
  | none => .raise (.accountNotFound s!"Account {str accountId} not found.")
  | some account =>
    let balance ← getBalance accountId
    pure (account,balance)

def createDefaultAccount (userId : Uuid) (currency : String) (accountType : AccountType := .fiat) :
    Action Account :=
  BaseRepository.add .accounts fun id => { id, userId, currency, accountType }

end AccountRepository

namespace BankAccountRepository

def getByUser (userId : Uuid) : Action (List BankAccount) := send (.selectBankAccounts userId)

def getByExternalReference (userId : Uuid) (externalReference : String) : Action (Option BankAccount) :=
  send (.selectBankAccount userId externalReference)

end BankAccountRepository

namespace LedgerRepository

def refusal (posting : Posting) : Option String :=
  if posting.amount ≤ 0 then some "LedgerEntry amount must be positive."
  else if posting.debitAccountId = posting.creditAccountId then
    some "Debit and credit accounts must be different."
  else none

def entry (posting : Posting) (id : Uuid) : LedgerEntry :=
  { id, debitAccountId := posting.debitAccountId, creditAccountId := posting.creditAccountId
    amount := posting.amount, currency := posting.currency, referenceType := posting.referenceType
    referenceId := posting.referenceId, createdAt := 0 }

/-- `create_double_entry` with its verdict on the posting as a parameter. -/
def judged (verdict : Option String) (posting : Posting) : Action LedgerEntry :=
  match verdict with
  | some message => .raise (.ledgerImbalance message)
  | none => BaseRepository.add .ledgerEntries (entry posting)

def createDoubleEntry (posting : Posting) : Action LedgerEntry := judged (refusal posting) posting

end LedgerRepository

namespace OrderRepository

def getByIdempotencyKey (idempotencyKey : String) : Action (Option Order) :=
  send (.selectOrder idempotencyKey)

def getByUser (userId : Uuid) (status : Option OrderStatus) (limit offset : Int) : Action (List Order) :=
  send (.selectOrders userId status limit offset)

def updateStatus (order : Order) (status : OrderStatus) : Action Order :=
  BaseRepository.update .orders order { status }

def applyFill [DecimalContext] (order : Order) (filledQty : ℚ) : Action Order :=
  let newFilled := rounded (order.filledAmount + filledQty)
  let newStatus := if order.amount ≤ newFilled then OrderStatus.filled else .partiallyFilled
  BaseRepository.update .orders order { filledAmount := newFilled, status := newStatus }

end OrderRepository

def Order.fill (order : Order) (quantity : ℚ) : Order :=
  { order with
    filledAmount := order.filledAmount + quantity
    status := if order.amount ≤ order.filledAmount + quantity then .filled else .partiallyFilled }

@[simp] theorem Order.fill_fill (order : Order) (first second : ℚ) :
    (order.fill first).fill second = order.fill (first + second) := by
  simp only [fill,add_assoc]

namespace PositionRepository

def getByUser (userId : Uuid) : Action (List Position) := send (.selectPositions userId)

def getByUserAndAsset (userId assetId : Uuid) : Action (Option Position) :=
  send (.selectPosition userId assetId)

def upsertPosition [DecimalContext] (userId assetId : Uuid) (quantityDelta fillPrice : ℚ) : Action Position := do
  match ← getByUserAndAsset userId assetId with
  | none =>
    BaseRepository.add .positions fun id =>
      { id, userId, assetId, quantity := quantityDelta
        averagePrice := if 0 < quantityDelta then fillPrice else 0 }
  | some position =>
    let oldQty := position.quantity
    let oldAvg := position.averagePrice
    let newQty := rounded (oldQty + quantityDelta)
    if 0 < quantityDelta then
      let bought ← (.done (product quantityDelta fillPrice) : Action ℚ)
      -- a BUY that closes a short position exactly
      if newQty = 0 then .raise .divisionByZero
      else
        let newAvg := rounded (rounded (rounded (oldQty * oldAvg) + bought) / newQty)
        BaseRepository.update .positions position { quantity := newQty, averagePrice := newAvg }
    else
      BaseRepository.update .positions position { quantity := newQty, averagePrice := oldAvg }

end PositionRepository

namespace TransactionRepository

def create (userId : Uuid) (transactionType : TransactionType) (referenceId : Option String) :
    Action CryptoBrokerage.Transaction :=
  BaseRepository.add .transactions fun id =>
    { id, userId, transactionType, status := .pending, referenceId, createdAt := 0 }

def updateStatus (transaction : CryptoBrokerage.Transaction) (status : TransactionStatus)
    (referenceId : Option String := none) : Action CryptoBrokerage.Transaction :=
  BaseRepository.update .transactions transaction { status, referenceId }

def getByReference (referenceId : String) : Action (Option CryptoBrokerage.Transaction) :=
  send (.selectTransaction referenceId)

def getPending : Action (List CryptoBrokerage.Transaction) := send (.selectTransactions .pending)

end TransactionRepository

def Server.added {Client : Type} (server : Server Client) (client : Client) (t : Table) (row : t.Row) (db : Database) :
    Except Exception (t.Row × Database) := do
  let stored ← t.store server.numeric (t.stamp (server.now client) row)
  match db.violated t stored with
  | some constraint => .error (.integrity constraint)
  | none => .ok (stored,db.insert t stored)

section Errors
variable {numeric : ℚ → Except Exception ℚ}

theorem except_bind_ok {α β : Type} {first : Except Exception α} {next : α → Except Exception β} {value : β}
    (ok : (first >>= next) = .ok value) : ∃ inner, first = .ok inner ∧ next inner = .ok value := by
  cases first with
  | error error => cases ok
  | ok inner => exact ⟨inner,rfl,ok⟩

/-- A stored order is the row with the numbers that the columns keep. -/
theorem store_order {row stored : Order} (ok : Table.store numeric .orders row = .ok stored) :
    stored = { row with amount := stored.amount, filledAmount := stored.filledAmount, price := stored.price } ∧
      numeric row.amount = .ok stored.amount ∧ numeric row.filledAmount = .ok stored.filledAmount ∧
      row.price.mapM numeric = .ok stored.price := by
  obtain ⟨amount,amountKept,ok⟩ := except_bind_ok ok
  obtain ⟨filledAmount,filledKept,ok⟩ := except_bind_ok ok
  obtain ⟨price,priceKept,ok⟩ := except_bind_ok ok
  cases ok
  exact ⟨rfl,amountKept,filledKept,priceKept⟩

theorem store_user {row stored : User} (ok : Table.store numeric .users row = .ok stored) : stored = row := by
  obtain ⟨email,emailKept,ok⟩ := except_bind_ok ok
  obtain ⟨hashedPassword,hashKept,ok⟩ := except_bind_ok ok
  cases ok
  rw [varchar_ok emailKept,varchar_ok hashKept]

theorem store_profile {row stored : UserProfile} (ok : Table.store numeric .userProfiles row = .ok stored) :
    stored = row := by
  obtain ⟨fullName,nameKept,ok⟩ := except_bind_ok ok
  obtain ⟨taxId,taxKept,ok⟩ := except_bind_ok ok
  obtain ⟨country,countryKept,ok⟩ := except_bind_ok ok
  cases ok
  have same : taxId = row.taxId := by
    cases tax : row.taxId with
    | none =>
      rw [tax] at taxKept
      exact (Except.ok.inj taxKept).symm
    | some text =>
      rw [tax,Option.mapM_some] at taxKept
      obtain ⟨stored,kept,ok⟩ := except_bind_ok taxKept
      cases ok
      rw [varchar_ok kept]
  rw [varchar_ok nameKept,varchar_ok countryKept,same]

theorem store_position {row stored : Position} (ok : Table.store numeric .positions row = .ok stored) :
    stored.userId = row.userId ∧ stored.assetId = row.assetId ∧ numeric row.quantity = .ok stored.quantity := by
  obtain ⟨quantity,quantityKept,ok⟩ := except_bind_ok ok
  obtain ⟨averagePrice,_,ok⟩ := except_bind_ok ok
  cases ok
  exact ⟨rfl,rfl,quantityKept⟩

theorem except_bind_error {α β : Type} {first : Except Exception α} {next : α → Except Exception β} {error : Exception}
    (failed : (first >>= next) = .error error) :
    first = .error error ∨ ∃ value, first = .ok value ∧ next value = .error error := by
  cases first with
  | error other =>
    cases failed
    exact Or.inl rfl
  | ok value => exact Or.inr ⟨value,rfl,failed⟩

theorem mapM_error {α : Type} {kept : α → Except Exception α} {column : Option α} {error : Exception}
    (failed : column.mapM kept = .error error) : ∃ value, kept value = .error error := by
  cases column with
  | none => cases failed
  | some value =>
    rw [Option.mapM_some] at failed
    rcases except_bind_error failed with failed | ⟨_,_,impossible⟩
    · exact ⟨value,failed⟩
    · cases impossible

theorem varchar_error {width : ℕ} {text : String} {error : Exception} (failed : varchar width text = .error error) :
    ∃ message, error = .data message := by
  unfold varchar at failed
  split at failed
  · cases failed
    exact ⟨_,rfl⟩
  · split at failed
    · cases failed
      exact ⟨_,rfl⟩
    · cases failed

theorem user_error {user : User} {error : Exception} (failed : Table.store numeric .users user = .error error) :
    ∃ message, error = .data message := by
  rcases except_bind_error failed with failed | ⟨_,_,failed⟩
  · exact varchar_error failed
  rcases except_bind_error failed with failed | ⟨_,_,failed⟩
  · exact varchar_error failed
  · cases failed

theorem profile_error {profile : UserProfile} {error : Exception}
    (failed : Table.store numeric .userProfiles profile = .error error) : ∃ message, error = .data message := by
  rcases except_bind_error failed with failed | ⟨_,_,failed⟩
  · exact varchar_error failed
  rcases except_bind_error failed with failed | ⟨_,_,failed⟩
  · obtain ⟨_,failed⟩ := mapM_error failed
    exact varchar_error failed
  rcases except_bind_error failed with failed | ⟨_,_,failed⟩
  · exact varchar_error failed
  · cases failed

theorem store_error {t : Table} {row : t.Row} {error : Exception} (failed : t.store numeric row = .error error) :
    (∃ value, numeric value = .error error) ∨ ∃ message, error = .data message := by
  cases t with
  | users => exact Or.inr (user_error failed)
  | userProfiles => exact Or.inr (profile_error failed)
  | orders =>
    left
    rcases except_bind_error failed with failed | ⟨_,_,failed⟩
    · exact ⟨_,failed⟩
    rcases except_bind_error failed with failed | ⟨_,_,failed⟩
    · exact ⟨_,failed⟩
    rcases except_bind_error failed with failed | ⟨_,_,failed⟩
    · exact mapM_error failed
    · cases failed
  | tradeExecutions =>
    left
    rcases except_bind_error failed with failed | ⟨_,_,failed⟩
    · exact ⟨_,failed⟩
    rcases except_bind_error failed with failed | ⟨_,_,failed⟩
    · exact ⟨_,failed⟩
    rcases except_bind_error failed with failed | ⟨_,_,failed⟩
    · exact ⟨_,failed⟩
    · cases failed
  | positions =>
    left
    rcases except_bind_error failed with failed | ⟨_,_,failed⟩
    · exact ⟨_,failed⟩
    rcases except_bind_error failed with failed | ⟨_,_,failed⟩
    · exact ⟨_,failed⟩
    · cases failed
  | ledgerEntries =>
    left
    rcases except_bind_error failed with failed | ⟨_,_,failed⟩
    · exact ⟨_,failed⟩
    · cases failed
  | _ => cases failed

theorem storeColumns_error {t : Table} {set : t.Columns} {error : Exception}
    (failed : t.storeColumns numeric set = .error error) : ∃ value, numeric value = .error error := by
  cases t with
  | orders =>
    rcases except_bind_error failed with failed | ⟨_,_,failed⟩
    · exact mapM_error failed
    · cases failed
  | positions =>
    rcases except_bind_error failed with failed | ⟨_,_,failed⟩
    · exact mapM_error failed
    rcases except_bind_error failed with failed | ⟨_,_,failed⟩
    · exact mapM_error failed
    · cases failed
  | ledgerEntries =>
    rcases except_bind_error failed with failed | ⟨_,_,failed⟩
    · exact mapM_error failed
    · cases failed
  | transactions => cases failed
  | _ => exact set.elim

variable {Client : Type} {server : Server Client} {client : Client}

theorem exec_error {turn : Nat} {op : Statement} {db : Database} {error : Exception}
    (failed : server.exec client turn op db = .error error) : (∃ value, server.numeric value = .error error) ∨
      (∃ constraint, error = .integrity constraint) ∨ ∃ message, error = .data message := by
  cases op with
  | insert t row =>
    rcases except_bind_error failed with failed | ⟨stored,_,failed⟩
    · exact (store_error failed).imp_right Or.inr
    · split at failed
      · next constraint _ =>
        cases failed
        exact Or.inr (Or.inl ⟨constraint,rfl⟩)
      · cases failed
  | update t id set =>
    rcases except_bind_error failed with failed | ⟨stored,_,failed⟩
    · exact Or.inl (storeColumns_error failed)
    · cases failed
  | selectOrders userId status limit offset =>
    change (if _ then _ else _) = Except.error error at failed
    split at failed
    · cases failed
      exact Or.inr (Or.inr ⟨_,rfl⟩)
    · split at failed
      · cases failed
        exact Or.inr (Or.inr ⟨_,rfl⟩)
      · cases failed
  | _ => cases failed

end Errors

section Runs
variable {Client : Type} {server : Server Client} {client : Client} {view last : View sql Database}

theorem run_send_ok {statement : Statement} {reply : statement.Reply}
    (ran : server.engine.run client (send statement) view = (.ok reply,last)) :
    ∃ writes, server.exec client view.issued.length statement view.db = .ok (reply,writes) ∧
      last.db = writes.foldl Database.apply view.db := by
  obtain ⟨writes,answered,rfl⟩ := Engine.run_perform_ok _ ran
  exact ⟨writes,answered,rfl⟩

def Statement.Leaves (t : Table) (op : Statement) : Prop :=
  match op with
  | .insert other _ => other ≠ t
  | .update other _ _ => other ≠ t
  | _ => True

theorem run_leaves {α : Type} {t : Table} {program : Action α} (only : program.Only (Statement.Leaves t))
    (view : View sql Database) : (server.engine.run client program view).2.db t = view.db t := by
  refine @Engine.run_keeps _ _ _ _ _ _ server.engine client _ (fun db => db t = view.db t) ?_ _ only view rfl
  intro op turn db reply writes leaves kept answered
  have written := Server.exec_writes answered
  cases op with
  | insert other row =>
    obtain ⟨stored,_,_,rfl⟩ := written
    exact (Database.insert_other db stored (Ne.symm leaves)).trans kept
  | update other id set =>
    obtain ⟨stored,_,rfl⟩ := written
    exact (Database.modify_other db id stored (Ne.symm leaves)).trans kept
  | _ =>
    obtain rfl : writes = [] := written
    exact kept

theorem run_read_ok {statement : Statement} {reply : statement.Reply} {answer : statement.Reply}
    (pure : server.exec client view.issued.length statement view.db = .ok (answer,[]))
    (ran : server.engine.run client (send statement) view = (.ok reply,last)) :
    reply = answer ∧ last.db = view.db := by
  obtain ⟨writes,answered,after⟩ := run_send_ok ran
  rw [pure] at answered
  cases answered
  exact ⟨rfl,after⟩

theorem run_getById (t : Table) (id : Uuid) : server.engine.run client (BaseRepository.getById t id) view =
    (.ok (view.db.find t id),⟨view.db,view.issued ++ [.get t id]⟩) := rfl

def Database.accountOf (db : Database) (userId : Uuid) (currency : String) : Option Account :=
  (db .accounts).find? fun account => account.userId == userId && account.currency == currency

theorem run_getByUserAndCurrency (userId : Uuid) (currency : String) :
    server.engine.run client (AccountRepository.getByUserAndCurrency userId currency) view =
      (.ok (view.db.accountOf userId currency),⟨view.db,view.issued ++ [.selectAccount userId currency]⟩) := rfl

theorem run_refresh {t : Table} {id : Uuid} {row : t.Row} (found : view.db.find t id = some row) :
    server.engine.run client (BaseRepository.refresh t id) view =
      (.ok row,⟨view.db,view.issued ++ [.get t id]⟩) := by
  unfold BaseRepository.refresh
  rw [Engine.run_bind,run_getById,found]
  rfl

theorem Server.added_ok {t : Table} {row stored : t.Row} {db after : Database}
    (added : server.added client t row db = .ok (stored,after)) :
    t.store server.numeric (t.stamp (server.now client) row) = .ok stored ∧ db.violated t stored = none ∧
      after = db.insert t stored := by
  simp only [Server.added,bind,Except.bind] at added
  split at added
  · cases added
  · next kept ok =>
    split at added
    · cases added
    · next valid =>
      cases added
      exact ⟨ok,valid,rfl⟩

theorem run_insert (t : Table) (row : t.Row) :
    server.engine.run client (send (.insert t row)) view =
      match server.added client t row view.db with
      | .ok (_,db) => (.ok (),⟨db,view.issued ++ [.insert t row]⟩)
      | .error error => (.error error,⟨view.db,view.issued ++ [.insert t row]⟩) := by
  have sent : server.engine.exec client view.issued.length (.insert t row) view.db =
      (server.added client t row view.db).map fun pair => ((),[.insert t pair.1]) := by
    change server.exec client view.issued.length (.insert t row) view.db = _
    simp only [Server.exec,Server.added,bind,Except.bind]
    cases t.store server.numeric (t.stamp (server.now client) row) with
    | error error => rfl
    | ok stored => cases valid : view.db.violated t stored <;> simp only [valid] <;> rfl
  rw [Engine.run_perform]
  cases added : server.added client t row view.db with
  | error error =>
    rw [added] at sent
    exact Engine.issue_error _ sent
  | ok pair =>
    rw [added] at sent
    obtain ⟨stored,db⟩ := pair
    obtain ⟨_,_,rfl⟩ := Server.added_ok added
    exact Engine.issue_ok _ sent

theorem run_add_drawn (t : Table) (entity : Uuid → t.Row) :
    server.engine.run client (BaseRepository.add t entity) view =
      server.engine.run client (send (.insert t (entity (server.uuid4 client view.issued.length))) >>=
        fun _ => BaseRepository.refresh t (server.uuid4 client view.issued.length))
        ⟨view.db,view.issued ++ [.uuid4]⟩ := rfl

theorem run_add {t : Table} {entity : Uuid → t.Row} (named : ∀ id, t.key (entity id) = id) :
    server.engine.run client (BaseRepository.add t entity) view =
      let id := server.uuid4 client view.issued.length
      let issued := view.issued ++ [.uuid4] ++ [.insert t (entity id)]
      match server.added client t (entity id) view.db with
      | .ok (row,db) => (.ok row,⟨db,issued ++ [.get t id]⟩)
      | .error error => (.error error,⟨view.db,issued⟩) := by
  rw [run_add_drawn,Engine.run_bind,run_insert]
  cases added : server.added client t (entity (server.uuid4 client view.issued.length)) view.db with
  | error error => simp only [added]
  | ok pair =>
    obtain ⟨row,db⟩ := pair
    obtain ⟨stored,valid,rfl⟩ := Server.added_ok added
    have key : t.key row = server.uuid4 client view.issued.length := by
      rw [Table.key_store _ stored,Table.key_stamp,named]
    have found : (view.db.insert t row).find t (server.uuid4 client view.issued.length) = some row := by
      rw [← key]
      exact Database.find_insert (Database.violated_none valid).1
    simp only [added]
    exact run_refresh found

theorem run_add_sent (t : Table) (entity : Uuid → t.Row) :
    .insert t (entity (server.uuid4 client view.issued.length)) ∈
      (server.engine.run client (BaseRepository.add t entity) view).2.issued := by
  rw [run_add_drawn]
  apply Engine.run_bind_sent
  rw [Engine.run_perform,Engine.issue_issued]
  simp

theorem run_add_ok {t : Table} {entity : Uuid → t.Row} {row : t.Row} (named : ∀ id, t.key (entity id) = id)
    (ran : server.engine.run client (BaseRepository.add t entity) view = (.ok row,last)) :
    ∃ turn, t.store server.numeric (t.stamp (server.now client) (entity (server.uuid4 client turn))) = .ok row ∧
      view.db.violated t row = none ∧ last.db = view.db.insert t row := by
  have added := @run_add _ server client view t entity named
  rw [ran] at added
  refine ⟨view.issued.length,?_⟩
  cases result : server.added client t (entity (server.uuid4 client view.issued.length)) view.db with
  | error error =>
    simp only [result] at added
    cases added
  | ok pair =>
    simp only [result] at added
    cases added
    exact Server.added_ok result

theorem run_add_error {t : Table} {entity : Uuid → t.Row} {error : Exception}
    (named : ∀ id, t.key (entity id) = id)
    (ran : server.engine.run client (BaseRepository.add t entity) view = (.error error,last)) :
    last.db = view.db := by
  have added := @run_add _ server client view t entity named
  rw [ran] at added
  cases result : server.added client t (entity (server.uuid4 client view.issued.length)) view.db with
  | error raised =>
    simp only [result] at added
    cases added
    rfl
  | ok pair =>
    simp only [result] at added
    cases added

/-- The run of `update` on a row that is found under its key. -/
theorem run_update_found {t : Table} {row : t.Row} {set : t.Columns} (found : view.db.find t (t.key row) = some row) :
    ∃ issued, server.engine.run client (BaseRepository.update t row set) view =
      match t.dirty row set with
      | none => (.ok row,⟨view.db,issued⟩)
      | some columns =>
        match t.storeColumns server.numeric columns with
        | .ok stored => (.ok (t.assign stored row),⟨view.db.modify t (t.key row) stored,issued⟩)
        | .error error => (.error error,⟨view.db,issued⟩) := by
  unfold BaseRepository.update BaseRepository.flush
  cases changes : t.dirty row set with
  | none => exact ⟨_,run_refresh found⟩
  | some columns =>
    change ∃ issued, server.engine.run client (send (.update t (t.key row) columns) >>= fun _ =>
      BaseRepository.refresh t (t.key row)) view = _
    have executed : server.engine.exec client view.issued.length (.update t (t.key row) columns) view.db =
        (t.storeColumns server.numeric columns).map fun stored => ((),[.update t (t.key row) stored]) := by
      change (t.storeColumns server.numeric columns >>= fun stored => Except.ok _) = _
      cases t.storeColumns server.numeric columns <;> rfl
    rw [Engine.run_bind,Engine.run_perform]
    cases kept : t.storeColumns server.numeric columns with
    | error error =>
      rw [kept] at executed
      rw [Engine.issue_error _ executed]
      simp only [kept]
      exact ⟨_,rfl⟩
    | ok stored =>
      rw [kept] at executed
      have reread : (view.db.modify t (t.key row) stored).find t (t.key row) = some (t.assign stored row) := by
        rw [Database.find_modify,found]
        rfl
      rw [Engine.issue_ok _ executed]
      simp only [kept]
      exact ⟨_,run_refresh reread⟩

theorem run_update_ok {t : Table} {row result : t.Row} {set : t.Columns}
    (found : view.db.find t (t.key row) = some row)
    (ran : server.engine.run client (BaseRepository.update t row set) view = (.ok result,last)) :
    (t.dirty row set = none ∧ result = row ∧ last.db = view.db) ∨
      ∃ columns stored, t.dirty row set = some columns ∧
        t.storeColumns server.numeric columns = .ok stored ∧
        result = t.assign stored row ∧ last.db = view.db.modify t (t.key row) stored := by
  obtain ⟨issued,updated⟩ := @run_update_found _ server client view t row set found
  rw [updated] at ran
  cases changes : t.dirty row set with
  | none =>
    rw [changes] at ran
    cases ran
    exact Or.inl ⟨rfl,rfl,rfl⟩
  | some columns =>
    simp only [changes] at ran
    cases stored : t.storeColumns server.numeric columns with
    | error error =>
      rw [stored] at ran
      cases ran
    | ok exact =>
      rw [stored] at ran
      cases ran
      exact Or.inr ⟨columns,exact,rfl,stored,rfl,rfl⟩

def Table.updated (numeric : ℚ → Except Exception ℚ) (t : Table) (row : t.Row) (set : t.Columns) :
    Except Exception t.Row :=
  match t.dirty row set with
  | some columns => (t.storeColumns numeric columns).map fun stored => t.assign stored row
  | none => .ok row

section Updated
variable {numeric : ℚ → Except Exception ℚ} {t : Table} {row : t.Row} {set columns : t.Columns}

theorem Table.updated_clean (clean : t.dirty row set = none) : t.updated numeric row set = .ok row := by
  simp only [updated,clean]

theorem Table.updated_dirty (dirty : t.dirty row set = some columns) :
    t.updated numeric row set = (t.storeColumns numeric columns).map fun stored => t.assign stored row := by
  simp only [updated,dirty]

theorem Table.updated_kept (kept : ∀ columns, t.dirty row set = some columns → t.storeColumns numeric columns = .ok columns) :
    t.updated numeric row set = .ok (t.assign set row) := by
  have whole := t.assign_dirty row set
  cases changes : t.dirty row set with
  | none =>
    rw [changes] at whole
    rw [updated_clean changes]
    exact congrArg _ whole
  | some columns =>
    rw [changes] at whole
    rw [updated_dirty changes,kept columns changes]
    exact congrArg _ whole

end Updated

/-- The run of `update` on a stored row. -/
theorem run_update {t : Table} {row : t.Row} {set : t.Columns} (keyed : view.db.Keyed) (member : row ∈ view.db t) :
    ∃ issued, server.engine.run client (BaseRepository.update t row set) view =
      match t.updated server.numeric row set with
      | .ok result => (.ok result,⟨view.db.replace t result,issued⟩)
      | .error error => (.error error,⟨view.db,issued⟩) := by
  obtain ⟨issued,ran⟩ := @run_update_found _ server client view t row set (keyed.find member)
  refine ⟨issued,ran.trans ?_⟩
  cases changes : t.dirty row set with
  | none =>
    rw [Table.updated_clean changes]
    simp only [keyed.replace_same member]
  | some columns =>
    rw [Table.updated_dirty changes]
    simp only [keyed.modify member]
    cases t.storeColumns server.numeric columns <;> rfl

/-- The run of `update` on a stored row, whose new values the columns keep as they are. -/
theorem run_update_stored {t : Table} {row : t.Row} {set : t.Columns} (keyed : view.db.Keyed) (member : row ∈ view.db t)
    (kept : ∀ columns, t.dirty row set = some columns → t.storeColumns server.numeric columns = .ok columns) :
    ∃ issued, server.engine.run client (BaseRepository.update t row set) view =
      (.ok (t.assign set row),⟨view.db.replace t (t.assign set row),issued⟩) := by
  obtain ⟨issued,ran⟩ := @run_update _ server client view t row set keyed member
  rw [Table.updated_kept kept] at ran
  exact ⟨issued,ran⟩

theorem run_judged_ok {verdict : Option String} {posting : Posting} {row : LedgerEntry}
    (ran : server.engine.run client (LedgerRepository.judged verdict posting) view = (.ok row,last)) :
    verdict = none ∧
      server.engine.run client (BaseRepository.add .ledgerEntries (LedgerRepository.entry posting)) view =
        (.ok row,last) := by
  cases verdict with
  | some message => cases ran
  | none => exact ⟨rfl,ran⟩

def Database.readBalance [DecimalContext] (db : Database) (account : Uuid) : ℚ := rounded (db.balance account)

theorem run_getBalance [DecimalContext] (account : Uuid) :
    server.engine.run client (AccountRepository.getBalance account) view =
      (.ok (view.db.readBalance account),⟨view.db,view.issued ++ [.sumCredits account] ++ [.sumDebits account]⟩) := rfl

theorem run_getBalanceForUpdate [DecimalContext] (id : Uuid) :
    server.engine.run client (AccountRepository.getBalanceForUpdate id) view =
      let issued := view.issued ++ [.selectAccountForUpdate id]
      match view.db.find .accounts id with
      | none => (.error (.accountNotFound s!"Account {str id} not found."),⟨view.db,issued⟩)
      | some account =>
        (.ok (account,view.db.readBalance id),⟨view.db,issued ++ [.sumCredits id] ++ [.sumDebits id]⟩) := by
  have read : server.engine.run client (send (.selectAccountForUpdate id)) view =
      (.ok (view.db.find .accounts id),⟨view.db,view.issued ++ [.selectAccountForUpdate id]⟩) := rfl
  unfold AccountRepository.getBalanceForUpdate
  rw [Engine.run_bind,read]
  cases view.db.find .accounts id <;> rfl

theorem run_getBalance_ok [DecimalContext] {account : Uuid} {balance : ℚ}
    (ran : server.engine.run client (AccountRepository.getBalance account) view = (.ok balance,last)) :
    balance = view.db.readBalance account ∧ last.db = view.db := by
  rw [run_getBalance] at ran
  cases ran
  exact ⟨rfl,rfl⟩

end Runs

section Exact
variable {Client : Type} {uuid4 : Client → Nat → Uuid} {now : Client → Timestamp} {client : Client}
  {view last : View sql Database}

theorem run_update_whole {t : Table} {row : t.Row} {set : t.Columns} (keyed : view.db.Keyed) (member : row ∈ view.db t) :
    ∃ issued, (Server.exact uuid4 now).engine.run client (BaseRepository.update t row set) view =
      (.ok (t.assign set row),⟨view.db.replace t (t.assign set row),issued⟩) :=
  run_update_stored keyed member fun columns _ => t.storeColumns_ok columns

theorem run_update_exact {t : Table} {row result : t.Row} {set : t.Columns} (keyed : view.db.Keyed)
    (member : row ∈ view.db t)
    (ran : (Server.exact uuid4 now).engine.run client (BaseRepository.update t row set) view =
      (.ok result,last)) :
    result = t.assign set row ∧ last.db = view.db.replace t result := by
  obtain ⟨issued,updated⟩ := @run_update_whole _ uuid4 now client view t row set keyed member
  rw [updated] at ran
  cases ran
  exact ⟨rfl,rfl⟩

end Exact

section Positions
variable {Client : Type} {server : Server Client} {client : Client} {view last : View sql Database}

def Database.newQuantity [DecimalContext] (db : Database) (userId assetId : Uuid) (quantityDelta : ℚ) : ℚ :=
  ((db .positions).find? (fun position => position.userId == userId && position.assetId == assetId)).elim
    quantityDelta fun position => rounded (position.quantity + quantityDelta)

/-- What `upsert_position` has done when it returns: the one position holds what
the column keeps of the new quantity, and all else is as it was. -/
structure Upserted [DecimalContext] (server : Server Client) (userId assetId : Uuid) (quantityDelta : ℚ)
    (before after : Database) : Prop where
  keyed : after.Keyed
  others : ∀ t, t ≠ .positions → after t = before t
  present : ((after .positions).find? (fun position => position.userId == userId &&
    position.assetId == assetId)).isSome
  quantity : ∃ kept, (kept = before.newQuantity userId assetId quantityDelta ∧ kept = before.quantity userId assetId ∨
      server.numeric (before.newQuantity userId assetId quantityDelta) = .ok kept) ∧
    ∀ user asset, after.quantity user asset =
      if user = userId ∧ asset = assetId then kept else before.quantity user asset

/-- A column is left out when its value is the old one, else it is sent as the column keeps it. -/
theorem flushed_changed {numeric : ℚ → Except Exception ℚ} {old new : ℚ} {kept : Option ℚ}
    (flushed : (changed old (some new)).mapM numeric = .ok kept) :
    (kept = none ∧ old = new) ∨ numeric new = .ok (kept.getD old) := by
  unfold changed at flushed
  split at flushed
  · next same =>
    cases flushed
    exact Or.inl ⟨rfl,(Option.some.inj same).symm⟩
  · right
    rw [Option.mapM_some] at flushed
    cases rounded : numeric new with
    | error error =>
      rw [rounded] at flushed
      cases flushed
    | ok value =>
      rw [rounded] at flushed
      cases flushed
      rfl

theorem flushed_quantity {numeric : ℚ → Except Exception ℚ} {position : Position} {set columns stored : PositionColumns}
    {quantity : ℚ} (sets : set.quantity = some quantity) (dirty : Table.dirty .positions position set = some columns)
    (ok : Table.storeColumns numeric .positions columns = .ok stored) :
    stored.quantity.getD position.quantity = quantity ∧ stored.quantity.getD position.quantity = position.quantity ∨
      numeric quantity = .ok (stored.quantity.getD position.quantity) := by
  obtain rfl := Table.dirty_position dirty
  simp only [Table.storeColumns,bind,Except.bind] at ok
  split at ok
  · cases ok
  · next kept flushed =>
    split at ok
    · cases ok
    · cases ok
      rw [sets] at flushed
      rcases flushed_changed flushed with ⟨rfl,same⟩ | rounded
      · exact Or.inl ⟨same,rfl⟩
      · exact Or.inr rounded

theorem run_addPosition_ok [DecimalContext] {userId assetId : Uuid} {quantityDelta averagePrice : ℚ} {row : Position}
    (keyed : view.db.Keyed)
    (absent : (view.db .positions).find? (fun position =>
      position.userId == userId && position.assetId == assetId) = none)
    (ran : server.engine.run client (BaseRepository.add .positions fun id =>
      { id, userId, assetId, quantity := quantityDelta, averagePrice }) view = (.ok row,last)) :
    Upserted server userId assetId quantityDelta view.db last.db := by
  obtain ⟨turn,stored,valid,after⟩ := run_add_ok (fun _ => rfl) ran
  obtain ⟨user,asset,quantity⟩ := store_position stored
  obtain rfl : row.userId = userId := user
  obtain rfl : row.assetId = assetId := asset
  have first : view.db.newQuantity row.userId row.assetId quantityDelta = quantityDelta := by
    unfold Database.newQuantity
    rw [absent]
    rfl
  refine ⟨?_,?_,?_,row.quantity,Or.inr (by rw [first]; exact quantity),fun user asset => ?_⟩
  · rw [after]
    exact keyed.insert (Database.violated_none valid).1
  · intro t other
    rw [after,Database.insert_other _ _ other]
  · rw [after,Database.insert_self,List.find?_append,absent]
    simp
  · rw [after,Database.quantity_insert absent]

theorem run_updatePosition_ok [DecimalContext] {position row : Position} {quantityDelta average : ℚ} (keyed : view.db.Keyed)
    (chosen : (view.db .positions).find? (fun other =>
      other.userId == position.userId && other.assetId == position.assetId) = some position)
    (ran : server.engine.run client (BaseRepository.update .positions position
      ({ quantity := rounded (position.quantity + quantityDelta), averagePrice := average } : PositionColumns)) view =
        (.ok row,last)) :
    Upserted server position.userId position.assetId quantityDelta view.db last.db := by
  have member := List.mem_of_find?_eq_some chosen
  have old : view.db.quantity position.userId position.assetId = position.quantity := by
    unfold Database.quantity
    rw [chosen]
    rfl
  have new : view.db.newQuantity position.userId position.assetId quantityDelta =
      rounded (position.quantity + quantityDelta) := by
    unfold Database.newQuantity
    rw [chosen]
    rfl
  have whole := Table.assign_dirty .positions position
    { quantity := some (rounded (position.quantity + quantityDelta)), averagePrice := some average }
  rcases run_update_ok (keyed.find member) ran with ⟨clean,_,same⟩ | ⟨columns,stored,changes,ok,_,after⟩
  · rw [clean] at whole
    have idle : position.quantity = rounded (position.quantity + quantityDelta) := congrArg Position.quantity whole
    rw [same]
    refine ⟨keyed,fun t _ => rfl,by rw [chosen]; rfl,_,Or.inl ⟨rfl,by rw [new,old,← idle]⟩,fun user asset => ?_⟩
    split
    · next pair =>
      rw [pair.1,pair.2,old,new]
      exact idle
    · rfl
  · rw [after]
    refine ⟨?_,fun t other => Database.modify_other _ _ _ other,?_,
      stored.quantity.getD position.quantity,?_,fun user asset => keyed.quantity_modify chosen stored user asset⟩
    · rw [keyed.modify member]
      exact keyed.replace _ _
    · change Option.isSome (((view.db.modify .positions position.id stored) .positions).find? _) = true
      rw [Database.find_position_modify,chosen]
      rfl
    · rw [new,old]
      exact flushed_quantity rfl changes ok

theorem run_upsertPosition_ok [DecimalContext] {userId assetId : Uuid} {quantityDelta fillPrice : ℚ} {row : Position}
    (keyed : view.db.Keyed)
    (ran : server.engine.run client
      (PositionRepository.upsertPosition userId assetId quantityDelta fillPrice) view = (.ok row,last)) :
    Upserted server userId assetId quantityDelta view.db last.db := by
  obtain ⟨found,middle,select,rest⟩ := Engine.run_bind_ok _ ran
  obtain ⟨rfl,unchanged⟩ := run_read_ok rfl select
  rw [← unchanged]
  rw [← unchanged] at keyed
  cases chosen : (view.db .positions).find?
      (fun position => position.userId == userId && position.assetId == assetId) with
  | none =>
    rw [chosen] at rest
    rw [← unchanged] at chosen
    exact run_addPosition_ok keyed chosen rest
  | some position =>
    rw [chosen] at rest
    obtain ⟨rfl,rfl⟩ : position.userId = userId ∧ position.assetId = assetId := by
      simpa using List.find?_some chosen
    rw [← unchanged] at chosen
    change server.engine.run client (if 0 < quantityDelta then _ else _) middle = _ at rest
    split at rest
    · obtain ⟨bought,priced,valued,rest⟩ := Engine.run_bind_ok _ rest
      obtain ⟨_,rfl⟩ := Prod.mk.inj valued
      change server.engine.run client (if _ then _ else _) middle = _ at rest
      split at rest
      · cases rest
      · exact run_updatePosition_ok keyed chosen rest
    · exact run_updatePosition_ok keyed chosen rest

theorem Upserted.added [DecimalContext] {userId assetId : Uuid} {quantityDelta : ℚ} {before after : Database}
    (upserted : Upserted server userId assetId quantityDelta before after)
    (whole : before.newQuantity userId assetId quantityDelta = before.quantity userId assetId + quantityDelta)
    (exact : ∀ kept, server.numeric (before.quantity userId assetId + quantityDelta) = .ok kept →
      kept = before.quantity userId assetId + quantityDelta) (user asset : Uuid) :
    after.quantity user asset = before.quantity user asset +
      if user = userId ∧ asset = assetId then quantityDelta else 0 := by
  obtain ⟨kept,stored,quantity⟩ := upserted.quantity
  rw [whole] at stored
  have sum := stored.elim And.left (exact kept)
  rw [quantity]
  split
  · next pair => rw [sum,pair.1,pair.2]
  · rw [add_zero]

end Positions

section Protocols
variable {Client State : Type} {server : Server Client} {P : Protocol sql Client State} {client : Client} {state : State}

theorem refresh_keyed {t : Table} {id : Uuid} (permitted : P.allowed client state (.get t id))
    (still : ∀ reply, P.after client state (.get t id) reply = state) :
    (BaseRepository.refresh t id).Obeys server.engine (fun _ => True) P client state
      (fun outcome last => last = state ∧ ∀ row, outcome = .ok row → t.key row = id) := by
  change Program.Obeys _ _ _ _ (send (.get t id) >>= fun found => _) _ _
  rw [Program.obeys_bind,Program.obeys_perform]
  refine ⟨permitted,fun reply answer => ?_⟩
  obtain ⟨turn,db,_,same⟩ := answer
  rw [still reply]
  cases reply with
  | error error => exact ⟨rfl,fun _ same => (by cases same)⟩
  | ok found =>
    have read : db.find t id = found := Except.ok.inj same
    cases found with
    | none => exact ⟨rfl,fun _ same => (by cases same)⟩
    | some row =>
      refine ⟨rfl,fun _ same => ?_⟩
      cases same
      exact (Database.find_some read).2

/-- A new entity moves the state by its insertion alone, and comes back with its id. -/
theorem add_moves {t : Table} {entity : Uuid → t.Row} {moved : Uuid → State}
    (draws : P.allowed client state .uuid4) (drawn : ∀ reply, P.after client state .uuid4 reply = state)
    (inserts : ∀ id, P.allowed client state (.insert t (entity id)))
    (moves : ∀ id, P.after client state (.insert t (entity id)) (.ok ()) = moved id)
    (reads : ∀ id, P.allowed client (moved id) (.get t id))
    (still : ∀ id reply, P.after client (moved id) (.get t id) reply = moved id) :
    (BaseRepository.add t entity).Obeys server.engine (fun _ => True) P client state
      (fun outcome last => ∀ row, outcome = .ok row → last = moved (t.key row)) := by
  change Program.Obeys _ _ _ _ (send .uuid4 >>= fun id => _) _ _
  rw [Program.obeys_bind,Program.obeys_perform]
  refine ⟨draws,fun reply _ => ?_⟩
  rw [drawn reply]
  cases reply with
  | error error => exact fun _ same => (by cases same)
  | ok id =>
    change Program.Obeys _ _ _ _ (send (.insert t (entity id)) >>= fun _ => BaseRepository.refresh t id) _ _
    rw [Program.obeys_bind,Program.obeys_perform]
    refine ⟨inserts id,fun reply _ => ?_⟩
    cases reply with
    | error error => exact fun _ same => (by cases same)
    | ok _ =>
      rw [moves id]
      refine (refresh_keyed (reads id) (still id)).weaken ?_
      rintro outcome last ⟨rfl,named⟩ row same
      rw [named row same]

end Protocols

end CryptoBrokerage
