import CryptoBrokerage.TradingService

/-! Settlement of fills. Each fill posts a ledger entry from the locked account to
itself, which `create_double_entry` rejects, so no request with a fill to process
commits. -/
namespace CryptoBrokerage
open Transaction (Program Engine View Receipt)

/-- A request that passes the input and balance checks of `execute_trade`, by a
user with an account on both sides of the market, and a filled answer to it. -/
def Fillable (request : TradeRequest) (submission : OrderSubmission) (db : Database) : Prop :=
  ((∃ account ∈ db .accounts, account.userId = request.userId ∧ account.currency = request.quoteCurrency) ∧
    ∃ asset ∈ db .assets, asset.id = request.assetId ∧ ∃ account ∈ db .accounts,
      account.userId = request.userId ∧ account.currency = asset.symbol) ∧
  ((∀ order ∈ db .orders, order.idempotencyKey ≠ request.idempotencyKey) ∧ 0 < request.amount ∧
    (request.orderType = .limit → request.price ≠ none) ∧
    ∀ account ∈ db .accounts, account.userId = request.userId → account.currency = request.quoteCurrency →
      request.Affords (db.readBalance account.id)) ∧
  (submission.status = "FILLED" ∨ submission.status = "PARTIALLY_FILLED") ∧ submission.fills ≠ [] ∧
  (submission.fills.map FillEvent.fillId).Nodup ∧
  (∀ fill ∈ submission.fills, 0 < fill.price ∧ 0 < fill.amount ∧ 0 ≤ fill.fee) ∧
  (submission.fills.map FillEvent.amount).sum ≤ request.amount

instance (request : TradeRequest) (submission : OrderSubmission) (db : Database) :
    Decidable (Fillable request submission db) := by
  unfold Fillable
  infer_instance

/-- The order is returned with every fill booked: an execution, a TRADE entry
between the user's quote-currency account and another one, a FEE entry if there
is a fee, the filled amount and the position. -/
def Settled (request : TradeRequest) (fills : List FillEvent) (receipt : Receipt sql Database Order) : Prop :=
  ∃ order account executions trades fees, receipt.outcome = .ok order ∧
    order.idempotencyKey = request.idempotencyKey ∧ order ∈ receipt.after .orders ∧
    account ∈ receipt.before .accounts ∧ account.userId = request.userId ∧
    account.currency = request.quoteCurrency ∧
    receipt.after .tradeExecutions = receipt.before .tradeExecutions ++ executions ∧
    List.Forall₂ (fun (fill : FillEvent) (row : TradeExecution) => row.orderId = order.id ∧
      row.executedPrice = fill.price ∧ row.executedAmount = fill.amount ∧ row.fee = fill.fee ∧
      row.externalFillId = some fill.fillId) fills executions ∧
    (receipt.after .ledgerEntries).Perm (receipt.before .ledgerEntries ++ trades ++ fees) ∧
    List.Forall₂ (fun (fill : FillEvent) (entry : LedgerEntry) => entry.referenceType = "TRADE" ∧
      entry.amount = fill.price * fill.amount ∧ entry.debitAccountId ≠ entry.creditAccountId ∧
      (match request.side with
        | .buy => entry.debitAccountId = account.id
        | .sell => entry.creditAccountId = account.id)) fills trades ∧
    List.Forall₂ (fun (fill : FillEvent) (entry : LedgerEntry) => entry.referenceType = "FEE" ∧
      entry.amount = fill.fee) (fills.filter (fun fill => 0 < fill.fee)) fees ∧
    order.filledAmount = (fills.map FillEvent.amount).sum ∧
    receipt.after.quantity request.userId request.assetId =
      receipt.before.quantity request.userId request.assetId +
        quantityDelta request.side (fills.map FillEvent.amount).sum

theorem fillsToProcess_nil {now : Timestamp} {submission : OrderSubmission} :
    submission.fillsToProcess now = [] ↔ submission.fills = [] ∧ submission.status ≠ "FILLED" := by
  unfold OrderSubmission.fillsToProcess
  split
  · next single => simp [single.2]
  · next many =>
    constructor
    · exact fun empty => ⟨empty,fun filled => many ⟨empty,filled⟩⟩
    · exact fun empty => empty.1

section Fills
variable {Client : Type} {server : Server Client} {client : Client}
  (gateway : SubmittedOrder → Except Exception OrderSubmission) (now : Timestamp)

theorem refusal_tradePosting (fillValue : ℚ) (account : Account) (quoteCurrency : String)
    (transactionId : Uuid) :
    LedgerRepository.refusal (tradePosting fillValue account quoteCurrency transactionId) ≠ none := by
  unfold LedgerRepository.refusal tradePosting
  split <;> simp

theorem processFill_refused [DecimalContext] (order : Order) (fill : FillEvent) (account : Account)
    (quoteCurrency : String) (transactionId : Uuid) :
    ((TradingService.init gateway now).processFill order fill account quoteCurrency transactionId).Returns
      fun _ => False := by
  refine Program.Returns.bind (Program.returns_any _) fun fillValue _ => ?_
  refine Program.Returns.bind (Program.returns_any _) fun timestamp _ => ?_
  refine Program.Returns.bind (Program.returns_any _) fun row _ => ?_
  obtain ⟨message,refused⟩ := Option.ne_none_iff_exists'.mp
    (refusal_tradePosting fillValue account quoteCurrency transactionId)
  change Program.Returns _ (LedgerRepository.judged (LedgerRepository.refusal
    (tradePosting fillValue account quoteCurrency transactionId)) _ >>= fun _ => _)
  rw [refused]
  trivial

/-- A fill is refused by the ledger, and with it the request. -/
theorem settle_refused [DecimalContext] (order : Order) (transaction : CryptoBrokerage.Transaction) (account : Account)
    (quoteCurrency : String) {submission : OrderSubmission} (reported : submission.fillsToProcess now ≠ []) :
    ((TradingService.init gateway now).settle order transaction account quoteCurrency submission).Returns
      fun _ => False := by
  change Program.Returns _ ((TradingService.init gateway now).processFills account quoteCurrency transaction.id [] order
    (submission.fillsToProcess now) >>= fun order => finalise order transaction submission.status)
  cases fills : submission.fillsToProcess now with
  | nil => exact absurd fills reported
  | cons fill rest =>
    have refused : ((TradingService.init gateway now).processFills account quoteCurrency transaction.id [] order
        (fill::rest)).Returns fun _ => False := by
      rw [TradingService.processFills_cons,if_neg List.not_mem_nil]
      exact Program.Returns.bind (processFill_refused gateway now order fill account quoteCurrency transaction.id)
        fun _ never => never.elim
    exact Program.Returns.bind refused fun _ never => never.elim

theorem run_executeTrade [DecimalContext] (service : TradingService) {request : TradeRequest} {view : View sql Database}
    (unused : ∀ order ∈ view.db .orders, order.idempotencyKey ≠ request.idempotencyKey) :
    server.engine.run client (service.executeTrade request) view =
      server.engine.run client (service.placeOrder request)
        ⟨view.db,view.issued ++ [.selectOrder request.idempotencyKey]⟩ := by
  have absent := Database.find_key_none.mpr unused
  have read : server.engine.run client (OrderRepository.getByIdempotencyKey request.idempotencyKey) view =
      (.ok none,⟨view.db,view.issued ++ [.selectOrder request.idempotencyKey]⟩) := by
    rw [← absent]
    rfl
  unfold TradingService.executeTrade
  rw [Engine.run_bind,read]

theorem run_executeTrade_replay [DecimalContext] (service : TradingService) {request : TradeRequest} {view : View sql Database}
    {existing : Order}
    (found : (view.db .orders).find? (fun order => order.idempotencyKey == request.idempotencyKey) = some existing) :
    server.engine.run client (service.executeTrade request) view =
      (.ok existing,⟨view.db,view.issued ++ [.selectOrder request.idempotencyKey]⟩) := by
  have read : server.engine.run client (OrderRepository.getByIdempotencyKey request.idempotencyKey) view =
      (.ok (some existing),⟨view.db,view.issued ++ [.selectOrder request.idempotencyKey]⟩) := by
    rw [← found]
    rfl
  unfold TradingService.executeTrade
  rw [Engine.run_bind,read]
  rfl

theorem fills_raise [DecimalContext] {request : TradeRequest} {submission : OrderSubmission} {view last : View sql Database}
    (unused : ∀ order ∈ view.db .orders, order.idempotencyKey ≠ request.idempotencyKey)
    (answer : gateway request.submitted = .ok submission) (some : submission.fillsToProcess now ≠ [])
    (value : Order) :
    server.engine.run client ((TradingService.init gateway now).executeTrade request) view ≠
      (.ok value,last) := by
  intro ran
  rw [run_executeTrade _ unused] at ran
  obtain ⟨⟨account,order,transaction⟩,opened,_,ran⟩ := Engine.run_bind_ok _ ran
  obtain ⟨submitted,sent,submit,ran⟩ := Engine.run_bind_ok _ ran
  obtain ⟨same,_⟩ := run_submit_ok submit
  obtain rfl : submission = submitted := Except.ok.inj (answer.symm.trans same)
  exact Engine.run_returns _ (settle_refused gateway now order transaction account _ some) ran

/-- A request that returns a new order has had no fill to process. -/
theorem returned_unfilled [DecimalContext] {request : TradeRequest} {view last : View sql Database} {order : Order}
    (unused : ∀ order ∈ view.db .orders, order.idempotencyKey ≠ request.idempotencyKey)
    (ran : server.engine.run client ((TradingService.init gateway now).executeTrade request) view = (.ok order,last)) :
    ∃ account placed transaction opened submission,
      Opened server client request view.db account placed transaction opened.db ∧
      gateway request.submitted = .ok submission ∧ submission.fillsToProcess now = [] ∧
      server.engine.run client (finalise placed transaction submission.status) opened = (.ok order,last) := by
  rw [run_executeTrade _ unused] at ran
  obtain ⟨⟨account,placed,transaction⟩,opened,opening,ran⟩ := Engine.run_bind_ok _ ran
  obtain ⟨submission,sent,submit,ran⟩ := Engine.run_bind_ok _ ran
  obtain ⟨answer,same⟩ := run_submit_ok submit
  have idle : submission.fillsToProcess now = [] := by
    by_contra some
    exact Engine.run_returns _ (settle_refused gateway now placed transaction account _ some) ran
  have written := run_opening_ok opening
  refine ⟨account,placed,transaction,sent,submission,?_,answer,idle,?_⟩
  · rw [same]
    exact written
  · change server.engine.run client (TradingService.processFills _ _ _ _ [] placed
      (submission.fillsToProcess now) >>= fun order => finalise order transaction submission.status) sent = _ at ran
    rw [idle] at ran
    exact ran

end Fills

/-- No fill is ever settled: every such request raises, and its
transaction is rolled back. -/
theorem fills_never_settled {Client : Type} (server : Server Client) (client : Client)
    (gateway : SubmittedOrder → Except Exception OrderSubmission) (now : Timestamp) (request : TradeRequest)
    (submission : OrderSubmission) (db : Database) (fillable : Fillable request submission db)
    (answer : gateway request.submitted = .ok submission) :
    ¬Settled request submission.fills (server.engine.transact client
      ((TradingService.init gateway now).executeTrade request) db) := by
  obtain ⟨_,⟨unused,_⟩,_,nonempty,_⟩ := fillable
  have process : submission.fillsToProcess now ≠ [] := by
    unfold OrderSubmission.fillsToProcess
    rw [if_neg fun empty => nonempty empty.1]
    exact nonempty
  rintro ⟨order,_,_,_,_,returned,_⟩
  unfold Engine.transact at returned
  rcases ran : server.engine.run client ((TradingService.init gateway now).executeTrade request) ⟨db,[]⟩ with
    ⟨_ | value,last⟩
  · rw [ran] at returned
    cases returned
  · exact fills_raise gateway now unused answer process value ran

def sampleBuy : TradeRequest :=
  { userId := 1, assetId := 11, side := .buy, orderType := .limit, amount := 2, price := some 100
    idempotencyKey := "k1" }

def sampleFill : OrderSubmission :=
  { externalOrderId := "x1", status := "FILLED", filledAmount := 2, averagePrice := 100, fee := 1
    fills := [⟨"f1",100,2,1,0⟩] }

def sampleOpen : OrderSubmission := { externalOrderId := "x1", status := "OPEN" }

theorem sampleBuy_never_settled : ¬Settled sampleBuy sampleFill.fills (sampleServer.engine.transact 0
    ((TradingService.init (fun _ => .ok sampleFill) 0).executeTrade sampleBuy) sample) :=
  fills_never_settled sampleServer 0 (fun _ => .ok sampleFill) 0 sampleBuy sampleFill sample
    (by decide +kernel) rfl

/-- A LIMIT BUY of 2 BTC at 100 BRL by a customer who has 1000 BRL, filled at
once, raises `LedgerImbalanceError` and leaves nothing behind. -/
theorem sampleBuy_unsettled :
    let receipt := sampleServer.engine.transact 0
      ((TradingService.init (fun _ => .ok sampleFill) 0).executeTrade sampleBuy) sample
    Fillable sampleBuy sampleFill sample ∧
      receipt.outcome = .error (.ledgerImbalance "Debit and credit accounts must be different.") ∧
      receipt.after .orders = [] ∧ ¬Settled sampleBuy sampleFill.fills receipt := by
  have raised : (sampleServer.engine.transact 0 ((TradingService.init (fun _ => .ok sampleFill) 0).executeTrade
      sampleBuy) sample).outcome = .error (.ledgerImbalance "Debit and credit accounts must be different.") := by
    decide +kernel
  refine ⟨by decide +kernel,raised,by decide +kernel,?_⟩
  rintro ⟨order,_,_,_,_,returned,_⟩
  rw [raised] at returned
  cases returned

def Statement.submission : Statement → Option SubmittedOrder
  | .submitOrder order => some order
  | _ => none

def submissions (receipt : Receipt sql Database Order) : List SubmittedOrder :=
  receipt.issued.filterMap Statement.submission

theorem mem_submissions {order : SubmittedOrder} {receipt : Receipt sql Database Order} :
    order ∈ submissions receipt ↔ .submitOrder order ∈ receipt.issued := by
  unfold submissions
  rw [List.mem_filterMap]
  constructor
  · rintro ⟨op,member,same⟩
    cases op with
    | submitOrder sent =>
      cases same
      exact member
    | _ => cases same
  · exact fun member => ⟨_,member,rfl⟩

section Submissions
variable {Client : Type} {server : Server Client} {client : Client} {service : TradingService}
  {request : TradeRequest}

theorem submitted_only [DecimalContext] {order : SubmittedOrder} {db : Database}
    (sent : .submitOrder order ∈ (server.engine.transact client (service.executeTrade request) db).issued) :
    order = request.submitted := by
  have only : (service.executeTrade request).Only
      (fun op : Statement => ∀ order, op = .submitOrder order → order = request.submitted) := by
    refine executeTrade_only service ?_ (by simp) (by simp) (by simp) (by simp)
    intro op read order same
    subst op
    cases read
  obtain ⟨issued,ran,permitted⟩ := server.engine.run_issued client only ⟨db,[]⟩
  rw [Engine.transact_issued,ran,List.nil_append] at sent
  exact permitted _ sent order rfl

theorem store_idempotencyKey {numeric : ℚ → Except Exception ℚ} {row stored : Order}
    (ok : Table.store numeric .orders row = .ok stored) : stored.idempotencyKey = row.idempotencyKey := by
  rw [(store_order ok).1]

theorem unused_of_submitted [DecimalContext] {db : Database} {sent : SubmittedOrder}
    (submitted : .submitOrder sent ∈ (server.engine.transact client (service.executeTrade request) db).issued) :
    ∀ order ∈ db .orders, order.idempotencyKey ≠ request.idempotencyKey := by
  cases found : (db .orders).find? (fun order => order.idempotencyKey == request.idempotencyKey) with
  | none => exact Database.find_key_none.mp found
  | some existing =>
    rw [Engine.transact_issued,run_executeTrade_replay _ found] at submitted
    simp at submitted

theorem opening_of_submitted [DecimalContext] {db : Database} {sent : SubmittedOrder}
    (unused : ∀ order ∈ db .orders, order.idempotencyKey ≠ request.idempotencyKey)
    (submitted : .submitOrder sent ∈ (server.engine.transact client (service.executeTrade request) db).issued) :
    ∃ account order transaction opened, server.engine.run client request.opening
      ⟨db,[.selectOrder request.idempotencyKey]⟩ = (.ok (account,order,transaction),opened) := by
  rw [Engine.transact_issued,run_executeTrade _ unused,List.nil_append] at submitted
  have only : request.opening.Only (fun op : Statement => ∀ order, op ≠ .submitOrder order) := by
    refine opening_only ?_ (by simp) (by simp)
    intro op read order same
    subst op
    cases read
  obtain ⟨issued,ran,permitted⟩ := server.engine.run_issued client only ⟨db,[.selectOrder request.idempotencyKey]⟩
  rcases opening : server.engine.run client request.opening ⟨db,[.selectOrder request.idempotencyKey]⟩ with
    ⟨error | ⟨account,order,transaction⟩,opened⟩
  · unfold TradingService.placeOrder at submitted
    rw [Engine.run_bind,opening] at submitted
    rw [opening] at ran
    change _ ∈ opened.issued at submitted
    rw [show opened.issued = _ from ran] at submitted
    rcases List.mem_append.mp submitted with first | later
    · simp at first
    · exact absurd rfl (permitted _ later _)
  · exact ⟨account,order,transaction,opened,rfl⟩

end Submissions

def trades [DecimalContext] {Client : Type} (gateway : Client → SubmittedOrder → Except Exception OrderSubmission)
    (now : Client → Timestamp) (request : Client → TradeRequest) (client : Client) : Action Order :=
  (TradingService.init (gateway client) (now client)).executeTrade (request client)

end CryptoBrokerage
