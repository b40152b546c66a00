import CryptoBrokerage.Repositories

/-! `TradingService.execute_trade`, its steps numbered as in the source. The
exchange is a function from the submitted order to its answer; what else a
request awaits are the statements of its repositories. -/
namespace CryptoBrokerage
open Transaction (Program Engine View)

structure TradeRequest where
  userId : Uuid
  assetId : Uuid
  side : OrderSide
  orderType : OrderType
  amount : ℚ
  price : Option ℚ := none
  idempotencyKey : String
  quoteCurrency : String := "BRL"
  deriving DecidableEq, Repr

/-- `verdict` is what `create_double_entry` decides on the posting of a fill;
the source's own is `LedgerRepository.refusal`. -/
structure TradingService where
  exchangeGateway : SubmittedOrder → Except Exception OrderSubmission
  now : Timestamp
  verdict : FillEvent → Posting → Option String

namespace TradeRequest
variable (request : TradeRequest)

def estimatedCost [DecimalContext] : Except Exception ℚ := product request.amount (request.price.getD 0)

/-- The balance check of step 4. Without a price the estimated cost is 0, and no
balance is required. -/
def Affords [DecimalContext] (balance : ℚ) : Prop :=
  match request.estimatedCost with
  | .ok cost => ¬(request.side = .buy ∧ 0 < cost ∧ balance < cost)
  | .error _ => False

instance [DecimalContext] (balance : ℚ) : Decidable (request.Affords balance) := by
  unfold Affords
  split <;> infer_instance

def submitted : SubmittedOrder :=
  { clientOrderId := request.idempotencyKey, symbol := "BTCBRL", side := request.side.value
    orderType := request.orderType.value, amount := request.amount, price := request.price }

/-- Step 2. -/
def validate : Action Unit :=
  if request.amount ≤ 0 then .raise (.invalidOrder "Order amount must be positive.")
  else if request.orderType = .limit ∧ request.price = none then
    .raise (.invalidOrder "LIMIT orders require a price.")
  else pure ()

/-- Steps 3 and 4: the quote-currency account, locked and with enough funds. -/
def debitAccount [DecimalContext] : Action Account := do
  match ← AccountRepository.getByUserAndCurrency request.userId request.quoteCurrency with
  | none =>
    .raise (.accountNotFound s!"No {request.quoteCurrency} account found for user {str request.userId}.")
  | some account =>
    let (lockedAccount,balance) ← AccountRepository.getBalanceForUpdate account.id
    let estimatedCost ← (.done request.estimatedCost : Action ℚ)
    if request.side = .buy ∧ 0 < estimatedCost ∧ balance < estimatedCost then
      .raise (.insufficientFunds balance estimatedCost request.quoteCurrency)
    else pure lockedAccount

def order (id : Uuid) : Order :=
  { id, userId := request.userId, assetId := request.assetId, side := request.side
    orderType := request.orderType, amount := request.amount, filledAmount := 0, price := request.price
    status := .pending, idempotencyKey := request.idempotencyKey, createdAt := 0 }

/-- Step 5. -/
def openOrder : Action (Order × CryptoBrokerage.Transaction) := do
  let order ← BaseRepository.add .orders request.order
  let transaction ← TransactionRepository.create request.userId .trade (some (str order.id))
  pure (order,transaction)

/-- Steps 2 to 5. -/
def opening [DecimalContext] : Action (Account × Order × CryptoBrokerage.Transaction) := do
  request.validate
  let account ← request.debitAccount
  let (order,transaction) ← request.openOrder
  pure (account,order,transaction)

end TradeRequest

/-- `datetime.fromtimestamp`, which knows the years 1 to 9999. -/
def fromTimestamp (timestamp : Timestamp) : Except Exception Timestamp :=
  if -62135596800 ≤ timestamp ∧ timestamp < 253402300800 then .ok timestamp
  else .error (.value "year is out of range")

def execution (order : Order) (fill : FillEvent) (timestamp : Timestamp) (id : Uuid) : TradeExecution :=
  { id, orderId := order.id, executedPrice := fill.price, executedAmount := fill.amount, fee := fill.fee
    timestamp, externalFillId := some fill.fillId }

/-- The ledger posting of a fill. BUY and SELL alike name the locked account on
both sides. -/
def tradePosting (fillValue : ℚ) (account : Account) (quoteCurrency : String) (transactionId : Uuid) : Posting :=
  { debitAccountId := account.id, creditAccountId := account.id, amount := fillValue
    currency := quoteCurrency, referenceType := "TRADE", referenceId := str transactionId }

def quantityDelta (side : OrderSide) (amount : ℚ) : ℚ := if side = .buy then amount else -amount

/-- The fills that step 7 processes: a FILLED answer without fills is taken as a
single fill. -/
def OrderSubmission.fillsToProcess (submission : OrderSubmission) (now : Timestamp) : List FillEvent :=
  if submission.fills = [] ∧ submission.status = "FILLED" then
    [{ fillId := submission.externalOrderId, price := submission.averagePrice
       amount := submission.filledAmount, fee := submission.fee, timestamp := now }]
  else submission.fills

/-- Step 8. -/
def finalise (order : Order) (transaction : CryptoBrokerage.Transaction) (status : String) :
    Action Order := do
  if status = "REJECTED" then
    let order ← OrderRepository.updateStatus order .failed
    let _ ← TransactionRepository.updateStatus transaction .failed
    pure order
  else if status = "FILLED" ∨ status = "PARTIALLY_FILLED" then
    let _ ← TransactionRepository.updateStatus transaction
      (if order.status = .filled then .completed else .processing)
    pure order
  else pure order

/-- The loop of step 7 over whatever `_process_fill` does, with the fill ids it has seen. -/
def fillLoop {m : Type → Type} [Monad m] {State : Type} (processFill : State → FillEvent → m State) :
    List String → State → List FillEvent → m State
  | _, state, [] => pure state
  | seen, state, fill::rest =>
    -- only the ids of this answer are compared, not those of recorded executions
    if fill.fillId ∈ seen then fillLoop processFill seen state rest
    else do
      let state ← processFill state fill
      fillLoop processFill (fill.fillId::seen) state rest

namespace TradingService

def init (exchangeGateway : SubmittedOrder → Except Exception OrderSubmission) (now : Timestamp) :
    TradingService := ⟨exchangeGateway,now,fun _ => LedgerRepository.refusal⟩

variable [DecimalContext] (service : TradingService)

def processFill (order : Order) (fill : FillEvent) (account : Account) (quoteCurrency : String)
    (transactionId : Uuid) : Action Order := do
  let fillValue ← (.done (product fill.price fill.amount) : Action ℚ)
  let timestamp ← (.done (fromTimestamp fill.timestamp) : Action Timestamp)
  let _ ← BaseRepository.add .tradeExecutions (execution order fill timestamp)
  let posting := tradePosting fillValue account quoteCurrency transactionId
  let _ ← LedgerRepository.judged (service.verdict fill posting) posting
  let _ ← PositionRepository.upsertPosition order.userId order.assetId
    (quantityDelta order.side fill.amount) fill.price
  OrderRepository.applyFill order fill.amount

/-- Step 7. -/
def processFills (account : Account) (quoteCurrency : String) (transactionId : Uuid) :
    List String → Order → List FillEvent → Action Order :=
  fillLoop fun order fill => service.processFill order fill account quoteCurrency transactionId

theorem processFills_cons (account : Account) (quoteCurrency : String) (transactionId : Uuid) (seen : List String)
    (order : Order) (fill : FillEvent) (rest : List FillEvent) :
    service.processFills account quoteCurrency transactionId seen order (fill::rest) =
      if fill.fillId ∈ seen then service.processFills account quoteCurrency transactionId seen order rest
      else service.processFill order fill account quoteCurrency transactionId >>= fun order =>
        service.processFills account quoteCurrency transactionId (fill.fillId::seen) order rest := by
  unfold processFills
  rw [fillLoop]

/-- Steps 7 and 8. -/
def settle (order : Order) (transaction : CryptoBrokerage.Transaction) (account : Account)
    (quoteCurrency : String) (submission : OrderSubmission) : Action Order := do
  let order ← service.processFills account quoteCurrency transaction.id [] order
    (submission.fillsToProcess service.now)
  finalise order transaction submission.status

def submitOrder (order : SubmittedOrder) : Action OrderSubmission := do
  send (.submitOrder order)
  .done (service.exchangeGateway order)

/-- Step 6. A failed submission marks the order and the transaction FAILED
before it is raised again. -/
def submit (request : TradeRequest) (order : Order) (transaction : CryptoBrokerage.Transaction) :
    Action OrderSubmission := do
  match ← (service.submitOrder request.submitted).attempt with
  | .ok submission => pure submission
  | .error error =>
    let _ ← OrderRepository.updateStatus order .failed
    let _ ← TransactionRepository.updateStatus transaction .failed
    .raise error

/-- Steps 2 to 8. -/
def placeOrder (request : TradeRequest) : Action Order := do
  let (account,order,transaction) ← request.opening
  let submission ← service.submit request order transaction
  service.settle order transaction account request.quoteCurrency submission

def executeTrade (request : TradeRequest) : Action Order := do
  match ← OrderRepository.getByIdempotencyKey request.idempotencyKey with
  | some existingOrder => pure existingOrder
  | none => service.placeOrder request

end TradingService

section Statements
variable {allowed : Statement → Prop}

def Reads (statement : Statement) : Prop :=
  match statement with
  | .submitOrder _ | .initiateTransfer _ | .insert _ _ | .update _ _ _ => False
  | _ => True

theorem add_sends {t : Table} {entity : Uuid → t.Row} (draws : allowed .uuid4)
    (inserts : ∀ id, allowed (.insert t (entity id))) (reads : ∀ id, allowed (.get t id)) :
    (BaseRepository.add t entity).Only allowed := by
  refine Program.Only.bind ((Program.only_perform _).mpr draws) fun id => ?_
  refine Program.Only.bind ((Program.only_perform _).mpr (inserts id)) fun _ => ?_
  refine Program.Only.bind ((Program.only_perform _).mpr (reads id)) fun found => ?_
  cases found <;> trivial

theorem update_flushes {t : Table} {row : t.Row} {set : t.Columns}
    (updates : ∀ columns, t.dirty row set = some columns → allowed (.update t (t.key row) columns))
    (reads : allowed (.get t (t.key row))) : (BaseRepository.update t row set).Only allowed := by
  refine Program.Only.bind ?_ fun _ => Program.Only.bind ((Program.only_perform _).mpr reads) fun found => ?_
  · unfold BaseRepository.flush
    split
    · next columns changes => exact (Program.only_perform _).mpr (updates columns changes)
    · trivial
  · cases found <;> trivial

theorem update_sends {t : Table} {row : t.Row} {set : t.Columns}
    (updates : ∀ columns, allowed (.update t (t.key row) columns)) (reads : allowed (.get t (t.key row))) :
    (BaseRepository.update t row set).Only allowed :=
  update_flushes (fun columns _ => updates columns) reads

theorem add_only (reads : ∀ op, Reads op → allowed op) {t : Table} {entity : Uuid → t.Row}
    (inserts : ∀ id, allowed (.insert t (entity id))) : (BaseRepository.add t entity).Only allowed :=
  add_sends (reads _ trivial) inserts fun _ => reads _ trivial

theorem update_only (reads : ∀ op, Reads op → allowed op) {t : Table} {row : t.Row} {set : t.Columns}
    (updates : ∀ columns, allowed (.update t (t.key row) columns)) :
    (BaseRepository.update t row set).Only allowed :=
  update_sends updates (reads _ trivial)

theorem validate_only (request : TradeRequest) : request.validate.Only allowed := by
  unfold TradeRequest.validate
  split
  · trivial
  · split <;> trivial

theorem debitAccount_only [DecimalContext] (reads : ∀ op, Reads op → allowed op) (request : TradeRequest) :
    request.debitAccount.Only allowed := by
  have locked (id : Uuid) : (AccountRepository.getBalanceForUpdate id).Only allowed := by
    refine Program.Only.bind ((Program.only_perform _).mpr (reads _ trivial)) fun found => ?_
    cases found with
    | none => trivial
    | some account =>
      refine Program.Only.bind (Program.Only.bind ((Program.only_perform _).mpr (reads _ trivial)) fun _ =>
        Program.Only.bind ((Program.only_perform _).mpr (reads _ trivial)) fun _ => trivial) fun _ => trivial
  refine Program.Only.bind ((Program.only_perform _).mpr (reads _ trivial)) fun found => ?_
  cases found with
  | none => trivial
  | some account =>
    refine Program.Only.bind (locked account.id) fun value => Program.Only.bind (Program.only_done _) fun cost => ?_
    change (if _ then _ else _ : Action Account).Only allowed
    split <;> trivial

theorem opening_only [DecimalContext] (reads : ∀ op, Reads op → allowed op) {request : TradeRequest}
    (orders : ∀ id, allowed (.insert .orders (request.order id)))
    (transactions : ∀ row, allowed (.insert .transactions row)) : request.opening.Only allowed :=
  Program.Only.bind (validate_only request) fun _ => Program.Only.bind (debitAccount_only reads request)
    fun _ => Program.Only.bind (Program.Only.bind (add_only reads orders) fun _ =>
      Program.Only.bind (add_only reads fun _ => transactions _) fun _ => trivial) fun _ => trivial

theorem upsertPosition_only [DecimalContext] (reads : ∀ op, Reads op → allowed op)
    (inserts : ∀ row, allowed (.insert .positions row))
    (updates : ∀ id columns, allowed (.update .positions id columns)) (userId assetId : Uuid)
    (delta price : ℚ) : (PositionRepository.upsertPosition userId assetId delta price).Only allowed := by
  refine Program.Only.bind ((Program.only_perform _).mpr (reads _ trivial)) fun found => ?_
  cases found with
  | none => exact add_only reads fun id => inserts _
  | some position =>
    change (if _ then _ else _ : Action Position).Only allowed
    split
    · refine Program.Only.bind (Program.only_done _) fun bought => ?_
      change (if _ then _ else _ : Action Position).Only allowed
      split
      · trivial
      · exact update_only reads fun columns => updates _ columns
    · exact update_only reads fun columns => updates _ columns

variable (service : TradingService)

theorem processFills_only [DecimalContext] (reads : ∀ op, Reads op → allowed op)
    (executions : ∀ row, allowed (.insert .tradeExecutions row))
    (entries : ∀ row, allowed (.insert .ledgerEntries row))
    (positions : ∀ row, allowed (.insert .positions row))
    (quantities : ∀ id columns, allowed (.update .positions id columns))
    (orders : ∀ id columns, allowed (.update .orders id columns)) (account : Account)
    (quoteCurrency : String) (transactionId : Uuid) (seen : List String) (order : Order)
    (fills : List FillEvent) :
    (service.processFills account quoteCurrency transactionId seen order fills).Only allowed := by
  have posted (verdict : Option String) (posting : Posting) :
      (LedgerRepository.judged verdict posting).Only allowed := by
    cases verdict with
    | some message => trivial
    | none => exact add_only reads fun id => entries _
  induction fills generalizing seen order with
  | nil => trivial
  | cons fill rest ih =>
    rw [TradingService.processFills_cons]
    split
    · exact ih seen order
    · refine Program.Only.bind ?_ fun order => ih _ order
      exact Program.Only.bind (Program.only_done _) fun _ => Program.Only.bind (Program.only_done _) fun _ =>
        Program.Only.bind (add_only reads fun id => executions _) fun _ => Program.Only.bind (posted _ _) fun _ =>
        Program.Only.bind (upsertPosition_only reads positions quantities _ _ _ _) fun _ =>
        update_only reads fun columns => orders _ columns

theorem finalise_only (reads : ∀ op, Reads op → allowed op)
    (orders : ∀ id columns, allowed (.update .orders id columns))
    (transactions : ∀ id columns, allowed (.update .transactions id columns)) (order : Order)
    (transaction : CryptoBrokerage.Transaction) (status : String) :
    (finalise order transaction status).Only allowed := by
  unfold finalise
  split
  · exact Program.Only.bind (update_only reads fun columns => orders _ columns) fun _ =>
      Program.Only.bind (update_only reads fun columns => transactions _ columns) fun _ => trivial
  · split
    · exact Program.Only.bind (update_only reads fun columns => transactions _ columns) fun _ => trivial
    · trivial

theorem submit_only (reads : ∀ op, Reads op → allowed op)
    (orders : ∀ id columns, allowed (.update .orders id columns))
    (transactions : ∀ id columns, allowed (.update .transactions id columns)) {request : TradeRequest}
    (submits : allowed (.submitOrder request.submitted)) (order : Order)
    (transaction : CryptoBrokerage.Transaction) :
    (service.submit request order transaction).Only allowed := by
  refine Program.Only.bind (Program.Only.attempt (Program.Only.bind
    ((Program.only_perform _).mpr submits) fun _ => trivial)) fun answer => ?_
  cases answer with
  | ok submission => trivial
  | error error =>
    exact Program.Only.bind (update_only reads fun columns => orders _ columns) fun _ =>
      Program.Only.bind (update_only reads fun columns => transactions _ columns) fun _ => trivial

theorem placeOrder_only [DecimalContext] (reads : ∀ op, Reads op → allowed op) {request : TradeRequest}
    (submits : allowed (.submitOrder request.submitted))
    (orders : ∀ id, allowed (.insert .orders (request.order id)))
    (inserts : ∀ t, t = .transactions ∨ t = .tradeExecutions ∨ t = .ledgerEntries ∨ t = .positions →
      ∀ row, allowed (.insert t row))
    (updates : ∀ t, t = .orders ∨ t = .transactions ∨ t = .positions →
      ∀ id columns, allowed (.update t id columns)) : (service.placeOrder request).Only allowed := by
  refine Program.Only.bind (opening_only reads orders (inserts _ (by simp))) fun opened => ?_
  obtain ⟨account,order,transaction⟩ := opened
  refine Program.Only.bind (submit_only service reads (updates _ (by simp)) (updates _ (by simp)) submits order
    transaction) fun submission => ?_
  exact Program.Only.bind (processFills_only service reads (inserts _ (by simp)) (inserts _ (by simp))
    (inserts _ (by simp)) (updates _ (by simp)) (updates _ (by simp)) _ _ _ _ _ _) fun order =>
    finalise_only reads (updates _ (by simp)) (updates _ (by simp)) order transaction _

/-- What a request sends: reads, its own order and its submission, and rows of
the tables it books to; it neither touches accounts nor updates a ledger entry. -/
theorem executeTrade_only [DecimalContext] (reads : ∀ op, Reads op → allowed op) {request : TradeRequest}
    (submits : allowed (.submitOrder request.submitted))
    (orders : ∀ id, allowed (.insert .orders (request.order id)))
    (inserts : ∀ t, t = .transactions ∨ t = .tradeExecutions ∨ t = .ledgerEntries ∨ t = .positions →
      ∀ row, allowed (.insert t row))
    (updates : ∀ t, t = .orders ∨ t = .transactions ∨ t = .positions →
      ∀ id columns, allowed (.update t id columns)) : (service.executeTrade request).Only allowed := by
  refine Program.Only.bind ((Program.only_perform _).mpr (reads _ trivial)) fun found => ?_
  cases found with
  | some order => trivial
  | none => exact placeOrder_only service reads submits orders inserts updates

end Statements

structure Opened [DecimalContext] {Client : Type} (server : Server Client) (client : Client) (request : TradeRequest)
    (before : Database) (account : Account) (order : Order) (transaction : CryptoBrokerage.Transaction)
    (after : Database) : Prop where
  positive : 0 < request.amount
  priced : ¬(request.orderType = .limit ∧ request.price = none)
  funded : request.Affords (before.readBalance account.id)
  locked : ∃ first, (before .accounts).find? (fun row => row.userId == request.userId &&
    row.currency == request.quoteCurrency) = some first ∧ before.find .accounts first.id = some account
  ordered : ∃ turn, Table.store server.numeric .orders
    ({ request.order (server.uuid4 client turn) with createdAt := server.now client } : Order) = .ok order
  tracked : ∃ turn, transaction =
    { id := server.uuid4 client turn, userId := request.userId, transactionType := .trade, status := .pending
      referenceId := some (str order.id), createdAt := server.now client }
  orderValid : before.violated .orders order = none
  transactionValid : (before.insert .orders order).violated .transactions transaction = none
  written : after = (before.insert .orders order).insert .transactions transaction

section Runs
variable {Client : Type} {server : Server Client} {client : Client} {view last : View sql Database}

theorem run_validate_ok {request : TradeRequest} {value : Unit}
    (ran : server.engine.run client request.validate view = (.ok value,last)) :
    0 < request.amount ∧ ¬(request.orderType = .limit ∧ request.price = none) ∧ last = view := by
  unfold TradeRequest.validate at ran
  split at ran
  · cases ran
  · next positive =>
    split at ran
    · cases ran
    · next priced =>
      cases ran
      exact ⟨not_le.mp positive,priced,rfl⟩

theorem run_getBalanceForUpdate_ok [DecimalContext] {id : Uuid} {account : Account} {balance : ℚ}
    (ran : server.engine.run client (AccountRepository.getBalanceForUpdate id) view =
      (.ok (account,balance),last)) :
    view.db.find .accounts id = some account ∧ balance = view.db.readBalance id ∧
      last.db = view.db := by
  obtain ⟨reply,locked,lock,ran⟩ := Engine.run_bind_ok _ ran
  obtain ⟨rfl,unchanged⟩ := run_read_ok rfl lock
  cases found : view.db.find .accounts id with
  | none =>
    rw [found] at ran
    cases ran
  | some row =>
    rw [found] at ran
    obtain ⟨sum,summed,read,ran⟩ := Engine.run_bind_ok _ ran
    obtain ⟨rfl,same⟩ := run_getBalance_ok read
    cases ran
    rw [same,unchanged]
    exact ⟨rfl,rfl,rfl⟩

theorem run_debitAccount_ok [DecimalContext] {request : TradeRequest} {account : Account}
    (ran : server.engine.run client request.debitAccount view = (.ok account,last)) :
    ∃ first, (view.db .accounts).find? (fun row => row.userId == request.userId &&
      row.currency == request.quoteCurrency) = some first ∧ view.db.find .accounts first.id = some account ∧
      request.Affords (view.db.readBalance account.id) ∧ last.db = view.db := by
  obtain ⟨reply,middle,select,ran⟩ := Engine.run_bind_ok _ ran
  obtain ⟨rfl,unchanged⟩ := run_read_ok rfl select
  split at ran
  · cases ran
  · next first chosen =>
    obtain ⟨⟨lockedAccount,balance⟩,locked,lock,ran⟩ := Engine.run_bind_ok _ ran
    obtain ⟨found,rfl,same⟩ := run_getBalanceForUpdate_ok lock
    rw [unchanged] at found
    obtain ⟨cost,priced,estimated,ran⟩ := Engine.run_bind_ok _ ran
    obtain ⟨valued,rfl⟩ := Prod.mk.inj estimated
    change server.engine.run client (if _ then _ else _) locked = _ at ran
    split at ran
    · cases ran
    · next funded =>
      cases ran
      rw [unchanged,← (Database.find_some found).2] at funded
      refine ⟨first,chosen,found,?_,same.trans unchanged⟩
      simp only [TradeRequest.Affords,valued]
      exact funded

/-- Steps 2 to 5 return only after they have checked and written all of `Opened`. -/
theorem run_opening_ok [DecimalContext] {request : TradeRequest} {account : Account} {order : Order}
    {transaction : CryptoBrokerage.Transaction}
    (ran : server.engine.run client request.opening view = (.ok (account,order,transaction),last)) :
    Opened server client request view.db account order transaction last.db := by
  obtain ⟨_,checked,check,rest⟩ := Engine.run_bind_ok _ ran
  obtain ⟨positive,priced,same⟩ := run_validate_ok check
  subst checked
  obtain ⟨owner,locked,lock,rest⟩ := Engine.run_bind_ok _ rest
  obtain ⟨first,chosen,found,funded,unchanged⟩ := run_debitAccount_ok lock
  obtain ⟨⟨placed,traced⟩,opened,place,rest⟩ := Engine.run_bind_ok _ rest
  cases rest
  obtain ⟨placed,inserted,insertion,place⟩ := Engine.run_bind_ok _ place
  obtain ⟨traced,recorded,record,place⟩ := Engine.run_bind_ok _ place
  cases place
  obtain ⟨turn,ordered,orderValid,afterOrder⟩ := run_add_ok (fun _ => rfl) insertion
  obtain ⟨later,tracked,transactionValid,afterRecord⟩ := run_add_ok (fun _ => rfl) record
  rw [unchanged] at orderValid afterOrder
  rw [afterOrder] at transactionValid afterRecord
  exact ⟨positive,priced,funded,⟨first,chosen,found⟩,⟨turn,ordered⟩,⟨later,(Except.ok.inj tracked).symm⟩,
    orderValid,transactionValid,afterRecord⟩

section Opened
variable {request : TradeRequest} {account : Account} {order : Order} {transaction : CryptoBrokerage.Transaction}
  {db after : Database}

theorem Opened.others [DecimalContext] (opened : Opened server client request db account order transaction after) {t : Table}
    (orders : t ≠ .orders) (transactions : t ≠ .transactions) : after t = db t := by
  rw [opened.written,Database.insert_other _ _ transactions,Database.insert_other _ _ orders]

theorem Opened.orders [DecimalContext] (opened : Opened server client request db account order transaction after) :
    after .orders = db .orders ++ [order] := by
  rw [opened.written,Database.insert_other _ _ (by decide),Database.insert_self]

theorem Opened.transactions [DecimalContext] (opened : Opened server client request db account order transaction after) :
    after .transactions = db .transactions ++ [transaction] := by
  rw [opened.written,Database.insert_self,Database.insert_other _ _ (by decide)]

end Opened

variable {service : TradingService}

theorem run_submit {request : TradeRequest} {submission : OrderSubmission}
    (answer : service.exchangeGateway request.submitted = .ok submission) (order : Order)
    (transaction : CryptoBrokerage.Transaction) :
    server.engine.run client (service.submit request order transaction) view =
      (.ok submission,⟨view.db,view.issued ++ [.submitOrder request.submitted]⟩) := by
  have sent : server.engine.run client (service.submitOrder request.submitted) view =
      (.ok submission,⟨view.db,view.issued ++ [.submitOrder request.submitted]⟩) := by
    rw [← answer]
    rfl
  unfold TradingService.submit
  rw [Engine.run_bind,Engine.run_attempt,sent]
  rfl

theorem run_submit_ok {request : TradeRequest} {submission : OrderSubmission} {order : Order}
    {transaction : CryptoBrokerage.Transaction}
    (ran : server.engine.run client (service.submit request order transaction) view = (.ok submission,last)) :
    service.exchangeGateway request.submitted = .ok submission ∧ last.db = view.db := by
  cases answer : service.exchangeGateway request.submitted with
  | ok answered =>
    rw [run_submit answer] at ran
    cases ran
    exact ⟨rfl,rfl⟩
  | error error =>
    have sent : server.engine.run client (service.submitOrder request.submitted) view =
        (.error error,⟨view.db,view.issued ++ [.submitOrder request.submitted]⟩) := by
      rw [← answer]
      rfl
    unfold TradingService.submit at ran
    rw [Engine.run_bind,Engine.run_attempt,sent] at ran
    obtain ⟨_,_,_,ran⟩ := Engine.run_bind_ok _ ran
    obtain ⟨_,_,_,ran⟩ := Engine.run_bind_ok _ ran
    cases ran

end Runs

end CryptoBrokerage
