import CryptoBrokerage.Admission
import CryptoBrokerage.PortfolioService

/-! The instrument to which `execute_trade` routes an order, against the asset
that its rows name and that the portfolio prices. -/
namespace CryptoBrokerage
open Transaction (Program Engine View Receipt)

/-- A position in a known asset is priced under the symbol of the asset and the
quote currency. -/
theorem PortfolioService.symbols_position {assets : AssetMap} {position : Position} {asset : Asset}
    (known : assets.lookup position.assetId = some asset) (quoteCurrency : String) :
    symbols assets quoteCurrency [position] = [asset.symbol ++ quoteCurrency] := by
  simp [symbols,known]

/-- The exchange gets the symbol of the request's asset, under which positions
in it are priced. Without the asset the request raises before its first write. -/
def Routed (request : TradeRequest) (receipt : Receipt sql Database Order) : Prop :=
  match receipt.before.find .assets request.assetId with
  | some asset => ∀ sent ∈ submissions receipt, sent.symbol = asset.symbol ++ request.quoteCurrency ∧
      ∀ position : Position, position.assetId = request.assetId →
        PortfolioService.symbols [(request.assetId,asset)] request.quoteCurrency [position] = [sent.symbol]
  | none => (∃ message, receipt.outcome = .error (.assetNotFound message)) ∧ receipt.after = receipt.before ∧
      ∀ op ∈ receipt.issued, Reads op

section Rows
variable {Client : Type} {server : Server Client} {client : Client} {view : View sql Database}

def TradeRequest.rows (request : TradeRequest) (server : Server Client) (client : Client) (turn : Nat)
    (db : Database) : Except Exception ((Order × CryptoBrokerage.Transaction) × Database) := do
  let (order,ordered) ← server.added client .orders (request.order (server.uuid4 client turn)) db
  let transaction : CryptoBrokerage.Transaction :=
    { id := server.uuid4 client (turn + 3), userId := request.userId, transactionType := .trade
      status := .pending, referenceId := some (str order.id), createdAt := 0 }
  let (transaction,tracked) ← server.added client .transactions transaction ordered
  return ((order,transaction),tracked)

theorem run_openOrder (request : TradeRequest) :
    (server.engine.run client request.openOrder view).1 =
      (request.rows server client view.issued.length view.db).map Prod.fst := by
  unfold TradeRequest.openOrder TradeRequest.rows
  rw [Engine.run_bind,run_add fun _ => rfl]
  cases ordered : server.added client .orders (request.order (server.uuid4 client view.issued.length)) view.db with
  | error error =>
    simp only [ordered]
    rfl
  | ok pair =>
    obtain ⟨order,after⟩ := pair
    simp only [ordered]
    unfold TransactionRepository.create
    rw [Engine.run_bind,run_add fun _ => rfl]
    change _ = Except.map Prod.fst (server.added client .transactions
      { id := server.uuid4 client (view.issued.length + 3), userId := request.userId, transactionType := .trade
        status := .pending, referenceId := some (str order.id), createdAt := 0 } after >>= fun pair =>
        pure ((order,pair.1),pair.2))
    simp only [List.length_append,List.length_singleton,Nat.add_assoc,Nat.reduceAdd]
    cases server.added client .transactions
      { id := server.uuid4 client (view.issued.length + 3), userId := request.userId, transactionType := .trade
        status := .pending, referenceId := some (str order.id), createdAt := 0 } after <;> rfl

def Placeable (server : Server Client) (client : Client) (request : TradeRequest) (db : Database) : Prop :=
  (∀ order ∈ db .orders, order.idempotencyKey ≠ request.idempotencyKey) ∧
    (∃ account, request.verdict db = .ok account) ∧ ∃ rows, request.rows server client 5 db = .ok rows

variable {service : TradingService} {request : TradeRequest} {db : Database}

theorem opening_checks (request : TradeRequest) : request.opening = (do
    let account ← request.checks
    let (order,transaction) ← request.openOrder
    pure (account,order,transaction)) := by
  unfold TradeRequest.opening TradeRequest.checks
  simp only [bind_assoc]

theorem submit_sends (order : Order) (transaction : CryptoBrokerage.Transaction) :
    .submitOrder request.submitted ∈
      (server.engine.run client (service.submit request order transaction) view).2.issued := by
  unfold TradingService.submit TradingService.submitOrder
  apply Engine.run_bind_sent
  rw [Engine.run_attempt]
  apply Engine.run_bind_sent
  rw [Engine.run_perform,Engine.issue_issued]
  simp

/-- Exactly the placeable requests reach the exchange. -/
theorem submitted_iff :
    .submitOrder request.submitted ∈ (server.engine.transact client (service.executeTrade request) db).issued ↔
      Placeable server client request db := by
  obtain ⟨sent,ran,_,count⟩ := @run_checks _ server client ⟨db,[.selectOrder request.idempotencyKey]⟩ request
  constructor
  · intro submitted
    have unused := unused_of_submitted submitted
    obtain ⟨account,order,transaction,opened,opening⟩ := opening_of_submitted unused submitted
    rw [opening_checks,Engine.run_bind,ran] at opening
    cases verdict : request.verdict db with
    | error error => simp [verdict] at opening
    | ok account =>
      simp only [verdict] at opening
      obtain ⟨rows,middle,placed,_⟩ := Engine.run_bind_ok _ opening
      have stored := @run_openOrder _ server client
        ⟨db,[.selectOrder request.idempotencyKey] ++ sent⟩ request
      rw [placed,List.length_append,count account verdict] at stored
      refine ⟨unused,⟨account,verdict⟩,?_⟩
      cases result : request.rows server client 5 db with
      | error error =>
        rw [show [Statement.selectOrder request.idempotencyKey].length + 4 = 5 from rfl,result] at stored
        cases stored
      | ok rows => exact ⟨rows,rfl⟩
  · intro placeable
    obtain ⟨unused,⟨account,verdict⟩,rows,stored⟩ := placeable
    have opened := @run_openOrder _ server client ⟨db,[.selectOrder request.idempotencyKey] ++ sent⟩ request
    rw [List.length_append,count account verdict,show [Statement.selectOrder request.idempotencyKey].length + 4 = 5
      from rfl,stored] at opened
    rw [Engine.transact_issued,run_executeTrade service unused,placeOrder_checks,Engine.run_bind,List.nil_append,ran]
    simp only [verdict]
    rw [Engine.run_bind]
    rcases placed : server.engine.run client request.openOrder ⟨db,[.selectOrder request.idempotencyKey] ++ sent⟩ with
      ⟨error | pair,last⟩
    · rw [placed] at opened
      cases opened
    · simp only [placed]
      exact Engine.run_bind_sent _ (submit_sends pair.1 pair.2) _

theorem verdict_listed {error : Exception} (refused : request.verdict db = .error error) (message : String) :
    error ≠ .assetNotFound message := by
  rintro rfl
  unfold TradeRequest.verdict TradeRequest.funding at refused
  split at refused
  · cases refused
  split at refused
  · cases refused
  split at refused
  · cases refused
  split at refused
  · cases refused
  · rcases except_bind_error refused with overflow | ⟨cost,_,refused⟩
    · cases product_error overflow
    · split at refused
      · cases refused
      · cases refused

end Rows

/-- An order is routed to its asset exactly if the asset exists and the order is
either stopped before the exchange or one for BTC in BRL. -/
theorem orders_routed_iff {Client : Type} (server : Server Client) (client : Client) (service : TradingService)
    (request : TradeRequest) (db : Database) :
    Routed request (server.engine.transact client (service.executeTrade request) db) ↔
      ∃ asset, db.find .assets request.assetId = some asset ∧
        (Placeable server client request db → asset.symbol ++ request.quoteCurrency = "BTCBRL") := by
  unfold Routed
  rw [Engine.transact_before]
  cases found : db.find .assets request.assetId with
  | none =>
    simp only [reduceCtorEq,false_and,exists_false,iff_false]
    intro routed
    obtain ⟨⟨message,raised⟩,_,reads⟩ := routed
    exact verdict_listed ((executeTrade_refused_iff service).mp ⟨raised,reads⟩).2 message rfl
  | some asset =>
    simp only [Option.some.injEq,exists_eq_left']
    constructor
    · intro routed placeable
      have sent := mem_submissions.mpr ((@submitted_iff _ _ _ service _ _).mpr placeable)
      exact (routed _ sent).1.symm
    · intro listed sent submitted
      rw [mem_submissions] at submitted
      obtain rfl := submitted_only submitted
      have symbol := listed (submitted_iff.mp submitted)
      refine ⟨symbol.symm,fun position held => ?_⟩
      rw [@PortfolioService.symbols_position _ position asset (by simp [held]),symbol]
      rfl

def sampleAssets : Database := sample.insert .assets ⟨12,"ETH","Ether"⟩

def sampleEther (assetId : Uuid) : TradeRequest :=
  { userId := 1, assetId, side := .buy, orderType := .limit, amount := 2, price := some 100, idempotencyKey := "k1" }

def sampleEtherReceipt (assetId : Uuid) : Receipt sql Database Order :=
  sampleServer.engine.transact oneClient
    ((TradingService.init (fun _ => .ok sampleOpen) 0).executeTrade (sampleEther assetId)) sampleAssets

/-- A BUY of Ether is submitted as one of BTCBRL, and a BUY of an asset that does
not exist fails on the foreign key of its order. -/
theorem ether_misrouted :
    (submissions (sampleEtherReceipt 12)).map SubmittedOrder.symbol = ["BTCBRL"] ∧
      ((sampleEtherReceipt 12).after .orders).map Order.assetId = [12] ∧
      ¬Routed (sampleEther 12) (sampleEtherReceipt 12) ∧
      (sampleEtherReceipt 13).outcome = .error (.integrity "orders_fkey") ∧
      ¬Routed (sampleEther 13) (sampleEtherReceipt 13) := by
  have symbol : (submissions (sampleEtherReceipt 12)).map SubmittedOrder.symbol = ["BTCBRL"] := by decide +kernel
  have raised : (sampleEtherReceipt 13).outcome = .error (.integrity "orders_fkey") := by decide +kernel
  refine ⟨symbol,by decide +kernel,?_,raised,?_⟩
  · intro routed
    have listed : (sampleEtherReceipt 12).before.find .assets 12 = some ⟨12,"ETH","Ether"⟩ := by decide +kernel
    unfold Routed at routed
    simp only [sampleEther,listed] at routed
    obtain ⟨sent,member,named⟩ := List.mem_map.mp (symbol ▸ List.mem_singleton.mpr rfl)
    have other := (routed sent member).1
    rw [named] at other
    revert other
    decide
  · intro routed
    have unlisted : (sampleEtherReceipt 13).before.find .assets 13 = none := by decide +kernel
    unfold Routed at routed
    simp only [sampleEther,unlisted] at routed
    obtain ⟨⟨message,other⟩,_⟩ := routed
    rw [raised] at other
    cases other

end CryptoBrokerage
