import CryptoBrokerage.TradingRoutes

/-! The checks of `execute_trade`, which come before its first write, and the
requests that they turn away: what the balance check asks of a BUY and of a SELL. -/
namespace CryptoBrokerage
open Transaction (Program Engine View Receipt)
open DecimalContext (rounded overflows)

namespace TradeRequest
variable (request : TradeRequest)

/-- Steps 2 to 4. -/
def checks : Action Account := do
  request.validate
  request.debitAccount

def funding (db : Database) : Except Exception Account :=
  match (db .accounts).find? (fun row => row.userId == request.userId && row.currency == request.quoteCurrency) with
  | none => .error (.accountNotFound s!"No {request.quoteCurrency} account found for user {str request.userId}.")
  | some account =>
    match db.find .accounts account.id with
    | none => .error (.accountNotFound s!"Account {str account.id} not found.")
    | some lockedAccount => do
      let estimatedCost ← request.estimatedCost
      if request.side = .buy ∧ 0 < estimatedCost ∧ db.readBalance account.id < estimatedCost then
        .error (.insufficientFunds (db.readBalance account.id) estimatedCost request.quoteCurrency)
      else .ok lockedAccount

def verdict (db : Database) : Except Exception Account :=
  if request.amount ≤ 0 then .error (.invalidOrder "Order amount must be positive.")
  else if request.orderType = .limit ∧ request.price = none then .error (.invalidOrder "LIMIT orders require a price.")
  else request.funding db

end TradeRequest

section Checks
variable {Client : Type} {server : Server Client} {client : Client} {view last : View sql Database}

/-- Steps 3 and 4 change nothing, and are four statements if they return. -/
theorem run_debitAccount (request : TradeRequest) :
    ∃ sent, server.engine.run client request.debitAccount view =
        (request.funding view.db,⟨view.db,view.issued ++ sent⟩) ∧
      ∀ account, request.funding view.db = .ok account → sent.length = 4 := by
  unfold TradeRequest.debitAccount TradeRequest.funding
  rw [Engine.run_bind,run_getByUserAndCurrency,Database.accountOf]
  cases (view.db .accounts).find? (fun row =>
      row.userId == request.userId && row.currency == request.quoteCurrency) with
  | none => exact ⟨_,rfl,by simp⟩
  | some account =>
    change ∃ sent, server.engine.run client (AccountRepository.getBalanceForUpdate account.id >>= fun pair =>
      (.done request.estimatedCost : Action ℚ) >>= fun estimatedCost =>
        if request.side = .buy ∧ 0 < estimatedCost ∧ pair.2 < estimatedCost then
          .raise (.insufficientFunds pair.2 estimatedCost request.quoteCurrency) else pure pair.1) _ = _ ∧ _
    rw [Engine.run_bind,run_getBalanceForUpdate]
    cases located : view.db.find .accounts account.id with
    | none =>
      simp only [located,List.append_assoc]
      exact ⟨_,rfl,by simp⟩
    | some lockedAccount =>
      simp only [located,List.append_assoc]
      cases request.estimatedCost with
      | error error => exact ⟨_,rfl,fun _ failed => (by cases failed)⟩
      | ok estimatedCost =>
        rw [Engine.run_bind,Engine.run_done]
        simp only [bind,Except.bind]
        split
        · exact ⟨_,rfl,fun _ failed => (by cases failed)⟩
        · exact ⟨_,rfl,fun _ _ => rfl⟩

theorem checks_only (request : TradeRequest) : request.checks.Only Reads :=
  Program.Only.bind (validate_only request) fun _ => debitAccount_only (fun _ read => read) request

theorem run_checks (request : TradeRequest) :
    ∃ sent, server.engine.run client request.checks view = (request.verdict view.db,⟨view.db,view.issued ++ sent⟩) ∧
      (∀ op ∈ sent, Reads op) ∧ ∀ account, request.verdict view.db = .ok account → sent.length = 4 := by
  obtain ⟨sent,ran,count⟩ : ∃ sent, server.engine.run client request.checks view =
      (request.verdict view.db,⟨view.db,view.issued ++ sent⟩) ∧
        ∀ account, request.verdict view.db = .ok account → sent.length = 4 := by
    unfold TradeRequest.checks TradeRequest.validate TradeRequest.verdict
    split
    · exact ⟨[],by rw [List.append_nil]; rfl,by simp⟩
    · split
      · exact ⟨[],by rw [List.append_nil]; rfl,by simp⟩
      · exact run_debitAccount request
  obtain ⟨issued,grown,reads⟩ := server.engine.run_issued client (checks_only request) view
  rw [ran] at grown
  obtain rfl : sent = issued := List.append_cancel_left grown
  exact ⟨sent,ran,reads,count⟩

variable (service : TradingService) {request : TradeRequest} {db : Database}

theorem placeOrder_checks (request : TradeRequest) : service.placeOrder request = (do
    let account ← request.checks
    let (order,transaction) ← request.openOrder
    let submission ← service.submit request order transaction
    service.settle order transaction account request.quoteCurrency submission) := by
  unfold TradingService.placeOrder TradeRequest.opening TradeRequest.checks
  simp only [bind_assoc,pure_bind]

theorem executeTrade_refused (unused : ∀ order ∈ db .orders, order.idempotencyKey ≠ request.idempotencyKey)
    {error : Exception} (refused : request.verdict db = .error error) :
    (server.engine.transact client (service.executeTrade request) db).outcome = .error error ∧
      ∀ op ∈ (server.engine.transact client (service.executeTrade request) db).issued, Reads op := by
  obtain ⟨sent,ran,reads,_⟩ := @run_checks _ server client ⟨db,[.selectOrder request.idempotencyKey]⟩ request
  have ended : server.engine.run client (service.executeTrade request) ⟨db,[]⟩ =
      (.error error,⟨db,[.selectOrder request.idempotencyKey] ++ sent⟩) := by
    rw [run_executeTrade service unused,placeOrder_checks,Engine.run_bind,List.nil_append,ran]
    simp only [refused]
  rw [Engine.transact_error _ ended]
  refine ⟨rfl,fun op member => ?_⟩
  rcases List.mem_append.mp member with first | later
  · obtain rfl := List.mem_singleton.mp first
    trivial
  · exact reads op later

theorem executeTrade_inserts (unused : ∀ order ∈ db .orders, order.idempotencyKey ≠ request.idempotencyKey)
    {account : Account} (admitted : request.verdict db = .ok account) :
    ∃ row, .insert .orders row ∈ (server.engine.transact client (service.executeTrade request) db).issued := by
  obtain ⟨sent,ran,_,_⟩ := @run_checks _ server client ⟨db,[.selectOrder request.idempotencyKey]⟩ request
  refine ⟨request.order (server.uuid4 client ([Statement.selectOrder request.idempotencyKey] ++ sent).length),?_⟩
  rw [Engine.transact_issued,run_executeTrade service unused,placeOrder_checks,Engine.run_bind,List.nil_append,ran]
  simp only [admitted]
  apply Engine.run_bind_sent
  apply Engine.run_bind_sent
  exact run_add_sent .orders request.order

/-- A request raises an exception before its first write exactly if its key is
new and the checks raise it. -/
theorem executeTrade_refused_iff {error : Exception} :
    ((server.engine.transact client (service.executeTrade request) db).outcome = .error error ∧
      ∀ op ∈ (server.engine.transact client (service.executeTrade request) db).issued, Reads op) ↔
    (∀ order ∈ db .orders, order.idempotencyKey ≠ request.idempotencyKey) ∧ request.verdict db = .error error := by
  constructor
  · intro ended
    obtain ⟨raised,reads⟩ := ended
    have unused : ∀ order ∈ db .orders, order.idempotencyKey ≠ request.idempotencyKey := by
      rw [← Database.find_key_none]
      cases found : (db .orders).find? (fun order => order.idempotencyKey == request.idempotencyKey) with
      | none => rfl
      | some existing =>
        rw [Engine.transact_outcome,run_executeTrade_replay _ found] at raised
        cases raised
    refine ⟨unused,?_⟩
    cases verdict : request.verdict db with
    | error other =>
      rw [(executeTrade_refused service unused verdict).1] at raised
      rw [Except.error.inj raised]
    | ok account =>
      obtain ⟨row,inserted⟩ := @executeTrade_inserts _ server client service request db unused account verdict
      exact (reads _ inserted).elim
  · intro refused
    exact executeTrade_refused service refused.1 refused.2

end Checks

def Unfunded (error : Exception) : Prop :=
  ∃ available required currency, error = .insufficientFunds available required currency

def Rejected (receipt : Receipt sql Database Order) : Prop :=
  (∃ error, receipt.outcome = .error error ∧ Unfunded error) ∧ receipt.after = receipt.before ∧
    ∀ op ∈ receipt.issued, Reads op

theorem Rejected.unsubmitted {receipt : Receipt sql Database Order} (rejected : Rejected receipt) :
    submissions receipt = [] := by
  apply List.eq_nil_iff_forall_not_mem.mpr
  intro order sent
  exact rejected.2.2 _ (mem_submissions.mp sent)

section Rejections
variable {Client : Type} {server : Server Client} {client : Client} {service : TradingService}
  {request : TradeRequest} {db : Database}

theorem rejected_iff :
    Rejected (server.engine.transact client (service.executeTrade request) db) ↔
      (∀ order ∈ db .orders, order.idempotencyKey ≠ request.idempotencyKey) ∧
        ∃ error, request.verdict db = .error error ∧ Unfunded error := by
  constructor
  · intro rejected
    obtain ⟨⟨error,raised,unfunded⟩,_,reads⟩ := rejected
    obtain ⟨unused,verdict⟩ := (executeTrade_refused_iff service).mp ⟨raised,reads⟩
    exact ⟨unused,error,verdict,unfunded⟩
  · intro refused
    obtain ⟨unused,error,verdict,unfunded⟩ := refused
    obtain ⟨raised,reads⟩ := @executeTrade_refused _ server client service request db unused error verdict
    refine ⟨⟨error,raised,unfunded⟩,?_,reads⟩
    rw [server.engine.transact_rollback client _ db error raised,Engine.transact_before]

theorem unfunded_iff : (∃ error, request.verdict db = .error error ∧ Unfunded error) ↔
    0 < request.amount ∧ ¬(request.orderType = .limit ∧ request.price = none) ∧
      ∃ account, (db .accounts).find? (fun row => row.userId == request.userId &&
        row.currency == request.quoteCurrency) = some account ∧
        request.side = .buy ∧ ∃ cost, request.estimatedCost = .ok cost ∧ 0 < cost ∧
          db.readBalance account.id < cost := by
  unfold TradeRequest.verdict TradeRequest.funding
  by_cases positive : request.amount ≤ 0
  · simp [positive,Unfunded,not_lt.mpr positive]
  · by_cases unpriced : request.orderType = .limit ∧ request.price = none
    · simp [positive,unpriced,Unfunded]
    · rw [if_neg positive,if_neg unpriced]
      simp only [not_le.mp positive,unpriced,not_false_eq_true,true_and]
      cases chosen : (db .accounts).find? (fun row => row.userId == request.userId &&
          row.currency == request.quoteCurrency) with
      | none => simp [Unfunded]
      | some account =>
        cases located : db.find .accounts account.id with
        | none =>
          have absent := List.find?_eq_none.mp located account (List.mem_of_find?_eq_some chosen)
          simp [Table.key] at absent
        | some lockedAccount =>
          cases costs : request.estimatedCost with
          | error error =>
            obtain rfl : error = .overflow := product_error costs
            simp [located,Unfunded,bind,Except.bind]
          | ok cost =>
            by_cases short : request.side = .buy ∧ 0 < cost ∧ db.readBalance account.id < cost
            · simp [located,short,Unfunded,bind,Except.bind]
            · simp [located,short,bind,Except.bind]

end Rejections

def Raises {Client α : Type} (server : Server Client) (client : Client) (Expected : Exception → Prop)
    (program : Action α) : Prop :=
  ∀ view error last, server.engine.run client program view = (.error error,last) → Expected error

structure Ordinary {Client : Type} (server : Server Client) (Expected : Exception → Prop) : Prop where
  columns : ∀ value error, server.numeric value = .error error → Expected error
  plain : ∀ error, ¬Unfunded error → Expected error

section Raised
variable {Client α β : Type} {server : Server Client} {client : Client} {Expected : Exception → Prop}

theorem raises_done {outcome : Except Exception α} (expected : ∀ error, outcome = .error error → Expected error) :
    Raises server client Expected (.done outcome) := by
  intro view error last ran
  apply expected error
  rw [Engine.run_done] at ran
  exact congrArg Prod.fst ran

theorem Raises.bind {program : Action α} {next : α → Action β} (first : Raises server client Expected program)
    (rest : ∀ value, Raises server client Expected (next value)) : Raises server client Expected (program >>= next) := by
  intro view error last ran
  rw [Engine.run_bind] at ran
  rcases started : server.engine.run client program view with ⟨raised | value,middle⟩
  · rw [started] at ran
    cases ran
    exact first view error last started
  · rw [started] at ran
    exact rest value middle error last ran

theorem raises_pure (value : α) : Raises server client Expected (pure value : Action α) :=
  raises_done fun _ same => (by cases same)

variable (ordinary : Ordinary server Expected)
include ordinary

theorem raises_plain {error : Exception} (plain : ¬Unfunded error) :
    Raises server client Expected (Program.raise (S := sql) error : Action α) := by
  apply raises_done
  intro other same
  cases same
  exact ordinary.plain error plain

theorem raises_send (statement : Statement) : Raises server client Expected (send statement) := by
  intro view error last ran
  rw [Engine.run_perform,Engine.issue] at ran
  split at ran
  · cases ran
  · next failed =>
    cases ran
    rcases exec_error failed with ⟨value,raised⟩ | ⟨constraint,rfl⟩ | ⟨message,rfl⟩
    · exact ordinary.columns value error raised
    · apply ordinary.plain
      simp [Unfunded]
    · apply ordinary.plain
      simp [Unfunded]

theorem raises_refresh (t : Table) (id : Uuid) : Raises server client Expected (BaseRepository.refresh t id) := by
  apply (raises_send ordinary (.get t id)).bind
  intro found
  cases found with
  | none => exact raises_plain ordinary (by simp [Unfunded])
  | some row => exact raises_pure row

theorem raises_add (t : Table) (entity : Uuid → t.Row) : Raises server client Expected (BaseRepository.add t entity) :=
  (raises_send ordinary .uuid4).bind fun id => (raises_send ordinary (.insert t (entity id))).bind fun _ =>
    raises_refresh ordinary t id

theorem raises_update (t : Table) (row : t.Row) (set : t.Columns) :
    Raises server client Expected (BaseRepository.update t row set) := by
  have flushed : Raises server client Expected (BaseRepository.flush t row set) := by
    unfold BaseRepository.flush
    split
    · exact raises_send ordinary _
    · exact raises_pure ()
  exact flushed.bind fun _ => raises_refresh ordinary t _

theorem raises_product (first second : ℚ) : Raises server client Expected (.done (product first second) : Action ℚ) := by
  apply raises_done
  intro error failed
  rw [product_error failed]
  exact ordinary.plain _ (by simp [Unfunded])

theorem raises_upsertPosition (userId assetId : Uuid) (quantityDelta fillPrice : ℚ) :
    Raises server client Expected (PositionRepository.upsertPosition userId assetId quantityDelta fillPrice) := by
  apply (raises_send ordinary (.selectPosition userId assetId)).bind
  intro found
  cases found with
  | none => exact raises_add ordinary _ _
  | some position =>
    change Raises server client Expected (if _ then _ else _ : Action Position)
    split
    · refine (raises_product ordinary _ _).bind fun bought => ?_
      change Raises server client Expected (if _ then _ else _ : Action Position)
      split
      · exact raises_plain ordinary (by simp [Unfunded])
      · exact raises_update ordinary _ _ _
    · exact raises_update ordinary _ _ _

variable (service : TradingService)

theorem raises_processFill (order : Order) (fill : FillEvent) (account : Account) (quoteCurrency : String)
    (transactionId : Uuid) : Raises server client Expected (service.processFill order fill account quoteCurrency
      transactionId) := by
  have dated : Raises server client Expected (.done (fromTimestamp fill.timestamp)) := by
    apply raises_done
    intro error failed
    unfold fromTimestamp at failed
    split at failed
    · cases failed
    · cases failed
      exact ordinary.plain _ (by simp [Unfunded])
  have posted (verdict : Option String) (posting : Posting) :
      Raises server client Expected (LedgerRepository.judged verdict posting) := by
    cases verdict with
    | some message => exact raises_plain ordinary (by simp [Unfunded])
    | none => exact raises_add ordinary _ _
  exact (raises_product ordinary _ _).bind fun _ => dated.bind fun _ => (raises_add ordinary _ _).bind fun _ => (posted _ _).bind fun _ =>
    (raises_upsertPosition ordinary _ _ _ _).bind fun _ => raises_update ordinary _ _ _

theorem raises_settle (order : Order) (row : CryptoBrokerage.Transaction) (account : Account) (quoteCurrency : String)
    (submission : OrderSubmission) :
    Raises server client Expected (service.settle order row account quoteCurrency submission) := by
  have filled (seen : List String) (order : Order) (fills : List FillEvent) :
      Raises server client Expected (service.processFills account quoteCurrency row.id seen order fills) := by
    induction fills generalizing seen order with
    | nil => exact raises_pure order
    | cons fill rest ih =>
      rw [TradingService.processFills_cons]
      split
      · exact ih seen order
      · exact (raises_processFill ordinary service _ _ _ _ _).bind fun order => ih _ order
  apply (filled _ _ _).bind
  intro order
  unfold finalise
  split
  · exact (raises_update ordinary _ _ _).bind fun _ => (raises_update ordinary _ _ _).bind fun _ =>
      raises_pure _
  · split
    · exact (raises_update ordinary _ _ _).bind fun _ => raises_pure _
    · exact raises_pure _

theorem raises_submit (request : TradeRequest)
    (exchange : ∀ error, service.exchangeGateway request.submitted = .error error → Expected error) (order : Order)
    (row : CryptoBrokerage.Transaction) : Raises server client Expected (service.submit request order row) := by
  intro view error last ran
  have sent : server.engine.run client (service.submitOrder request.submitted) view =
      (service.exchangeGateway request.submitted,⟨view.db,view.issued ++ [.submitOrder request.submitted]⟩) := rfl
  unfold TradingService.submit at ran
  rw [Engine.run_bind,Engine.run_attempt,sent] at ran
  cases answered : service.exchangeGateway request.submitted with
  | ok submission =>
    rw [answered] at ran
    cases ran
  | error raised =>
    rw [answered] at ran
    have failing : Raises server client Expected (do
        let _ ← OrderRepository.updateStatus order .failed
        let _ ← TransactionRepository.updateStatus row .failed
        .raise raised : Action OrderSubmission) := by
      refine (raises_update ordinary _ _ _).bind fun _ => (raises_update ordinary _ _ _).bind fun _ => ?_
      apply raises_done
      intro other same
      cases same
      exact exchange raised answered
    exact failing _ error last ran

theorem raises_admitted {request : TradeRequest} {db : Database}
    (exchange : ∀ error, service.exchangeGateway request.submitted = .error error → Expected error)
    (unused : ∀ order ∈ db .orders, order.idempotencyKey ≠ request.idempotencyKey) {account : Account}
    (admitted : request.verdict db = .ok account) {error : Exception}
    (raised : (server.engine.transact client (service.executeTrade request) db).outcome = .error error) :
    Expected error := by
  obtain ⟨sent,ran,_,_⟩ := @run_checks _ server client ⟨db,[.selectOrder request.idempotencyKey]⟩ request
  rw [Engine.transact_outcome,run_executeTrade service unused,placeOrder_checks,Engine.run_bind,List.nil_append,ran]
    at raised
  simp only [admitted] at raised
  have opened : Raises server client Expected request.openOrder :=
    (raises_add ordinary _ _).bind fun _ => (raises_add ordinary _ _).bind fun _ => raises_pure _
  have placed : Raises server client Expected (request.openOrder >>= fun pair =>
      service.submit request pair.1 pair.2 >>= fun submission =>
        service.settle pair.1 pair.2 account request.quoteCurrency submission) :=
    opened.bind fun pair => (raises_submit ordinary service request exchange _ _).bind fun submission =>
      raises_settle ordinary service _ _ _ _ submission
  exact placed _ error _ (Prod.ext raised rfl)

end Raised

def OrderCreate.executionPrice (payload : OrderCreate) (quote : InstrumentPrice) : ℚ :=
  match payload.orderType with
  | .limit => payload.price.getD 0
  | .market => quote.ask

/-- A request with less than the cost is rejected; one with enough is not, and raises
InsufficientFundsError only as the exchange or a numeric column raises it. -/
def FundsChecked {Client : Type} (server : Server Client) (service : TradingService) (request : TradeRequest)
    (balance cost : ℚ) (receipt : Receipt sql Database Order) : Prop :=
  (balance < cost → Rejected receipt) ∧
  (cost ≤ balance → ¬Rejected receipt ∧ ∀ error, receipt.outcome = .error error → Unfunded error →
    service.exchangeGateway request.submitted = .error error ∨ ∃ value, server.numeric value = .error error)

section Funds
variable {Client : Type} {server : Server Client} {client : Client} {service : TradingService}
  {request : TradeRequest} {db : Database} {payload : OrderCreate}

theorem OrderCreate.admitted (admitted : payload.validate = .ok ()) : 0 < payload.amount ∧
    (payload.orderType = .limit → ∃ price, payload.price = some price ∧ 0 < price) ∧
    (payload.orderType = .market → payload.price = none) := by
  have fields : payload.fieldErrors = [] := by
    by_contra bad
    rw [validate,if_neg bad] at admitted
    cases admitted
  rw [validate,if_pos fields,validateLimitPrice] at admitted
  simp only [fieldErrors,List.append_eq_nil_iff,ite_eq_right_iff,reduceCtorEq,imp_false,not_le] at fields
  obtain ⟨⟨⟨positive,priced⟩,_⟩,_⟩ := fields
  refine ⟨positive,?_,?_⟩
  · intro limit
    cases price : payload.price with
    | none => simp [limit,price] at admitted
    | some value =>
      refine ⟨value,rfl,?_⟩
      by_contra bad
      exact priced ⟨value,price,not_lt.mp bad⟩
  · intro market
    by_contra priced
    simp [market,priced] at admitted

/-- A request that the checks do not reject raises InsufficientFundsError only as
the exchange or a numeric column raises it. -/
theorem unfunded_outside (unused : ∀ order ∈ db .orders, order.idempotencyKey ≠ request.idempotencyKey)
    (funded : ¬∃ error, request.verdict db = .error error ∧ Unfunded error) {error : Exception}
    (raised : (server.engine.transact client (service.executeTrade request) db).outcome = .error error)
    (unfunded : Unfunded error) :
    service.exchangeGateway request.submitted = .error error ∨ ∃ value, server.numeric value = .error error := by
  have ordinary : Ordinary server fun error => Unfunded error →
      service.exchangeGateway request.submitted = .error error ∨ ∃ value, server.numeric value = .error error :=
    ⟨fun value error raised _ => Or.inr ⟨value,raised⟩,fun error plain unfunded => absurd unfunded plain⟩
  cases verdict : request.verdict db with
  | error other =>
    rw [(executeTrade_refused service unused verdict).1] at raised
    cases raised
    exact absurd ⟨error,verdict,unfunded⟩ funded
  | ok account =>
    exact raises_admitted ordinary service (fun error raised _ => Or.inl raised) unused verdict raised unfunded

end Funds

def Compared (balance cost : ℚ) : Prop :=
  if overflows cost then cost ≤ balance else (balance < cost ↔ 0 < rounded cost ∧ rounded balance < rounded cost)

instance (balance cost : ℚ) : Decidable (Compared balance cost) := by
  unfold Compared
  infer_instance

def Short (balance amount price : ℚ) : Prop := ∃ cost, product amount price = .ok cost ∧ 0 < cost ∧ balance < cost

theorem short_iff {balance amount price : ℚ} : Short balance amount price ↔
    overflows (amount * price) = false ∧ 0 < rounded (amount * price) ∧ balance < rounded (amount * price) := by
  unfold Short product
  cases overflows (amount * price) with
  | true => simp
  | false => simp

theorem short_unpriced {balance amount : ℚ} : ¬Short balance amount 0 := by
  have zero : rounded (0 : ℚ) = 0 := by decide +kernel
  rw [short_iff,mul_zero,zero]
  exact fun short => lt_irrefl _ short.2.1

theorem compared_iff {balance amount price : ℚ} : Compared balance (amount * price) ↔
    (balance < amount * price ↔ Short (rounded balance) amount price) := by
  unfold Compared
  rw [short_iff]
  cases overflows (amount * price) with
  | true => simp
  | false => simp

/-- A BUY that the API admits is checked against the price at which it executes exactly
if it is a LIMIT order whose cost rounding does not move across the balance, or a MARKET
order that the balance covers anyway. -/
theorem funds_checked_iff {Client : Type} (server : Server Client) (client : Client) (service : TradingService)
    (user : User) (payload : OrderCreate) (quote : InstrumentPrice) (db : Database) (account : Account)
    (admitted : payload.validate = .ok ()) (buys : payload.side = .buy)
    (unused : ∀ order ∈ db .orders, order.idempotencyKey ≠ payload.idempotencyKey)
    (chosen : (db .accounts).find? (fun row => row.userId == user.id && row.currency == payload.quoteCurrency) =
      some account) :
    FundsChecked server service (payload.request user) (db.balance account.id)
        (payload.amount * payload.executionPrice quote)
        (server.engine.transact client (service.executeTrade (payload.request user)) db) ↔
      if payload.orderType = .limit then Compared (db.balance account.id) (payload.amount * payload.price.getD 0)
      else payload.amount * quote.ask ≤ db.balance account.id := by
  obtain ⟨positive,limited,market⟩ := OrderCreate.admitted admitted
  have short : (∃ error, (payload.request user).verdict db = .error error ∧ Unfunded error) ↔
      Short (db.readBalance account.id) payload.amount (payload.price.getD 0) := by
    rw [unfunded_iff]
    constructor
    · intro checked
      obtain ⟨_,_,other,found,_,less⟩ := checked
      cases chosen.symm.trans found
      exact less
    · intro less
      refine ⟨positive,?_,account,chosen,buys,less⟩
      intro unpriced
      obtain ⟨price,some,_⟩ := limited unpriced.1
      cases some.symm.trans unpriced.2
  have judged : Rejected (server.engine.transact client (service.executeTrade (payload.request user)) db) ↔
      Short (db.readBalance account.id) payload.amount (payload.price.getD 0) :=
    rejected_iff.trans ((and_iff_right unused).trans short)
  have funded (enough : ¬Short (db.readBalance account.id) payload.amount (payload.price.getD 0)) :=
    fun error raised unfunded => @unfunded_outside _ server client service (payload.request user) db unused
      (mt short.mp enough) error raised unfunded
  unfold FundsChecked OrderCreate.executionPrice
  rw [judged]
  cases kind : payload.orderType with
  | limit =>
    obtain ⟨price,some,_⟩ := limited kind
    rw [some] at short judged funded ⊢
    rw [if_pos rfl,compared_iff]
    constructor
    · intro checked
      refine ⟨checked.1,fun turned => ?_⟩
      by_contra covered
      exact (checked.2 (not_lt.mp covered)).1 turned
    · intro compared
      have kept (covered : payload.amount * price ≤ db.balance account.id) :
          ¬Short (db.readBalance account.id) payload.amount price :=
        fun turned => absurd (compared.mpr turned) (not_lt.mpr covered)
      exact ⟨compared.mp,fun covered => ⟨kept covered,funded (kept covered)⟩⟩
  | market =>
    rw [market kind] at short judged funded ⊢
    rw [if_neg (by decide)]
    constructor
    · intro checked
      by_contra less
      exact short_unpriced (checked.1 (not_le.mp less))
    · intro enough
      exact ⟨fun less => absurd less (not_lt.mpr enough),fun _ => ⟨short_unpriced,funded short_unpriced⟩⟩

def sampleBuyer : User := ⟨1,"ana@example.com","",true⟩

def sampleQuote : InstrumentPrice := ⟨"BTCBRL",99,100,100,0⟩

def sampleOffer (orderType : OrderType) (price : Option ℚ) : OrderCreate :=
  { assetId := 11, side := .buy, orderType, amount := 20, price, idempotencyKey := "k1" }

/-- A LIMIT BUY of 20 BTC at 100 BRL by a customer who has 1000 BRL is rejected. -/
theorem funds_checked_limit :
    FundsChecked sampleServer (TradingService.init (fun _ => .ok sampleOpen) 0)
      ((sampleOffer .limit (some 100)).request sampleBuyer) (sample.balance 21) (20 * 100)
      (sampleServer.engine.transact 0 ((TradingService.init (fun _ => .ok sampleOpen) 0).executeTrade
        ((sampleOffer .limit (some 100)).request sampleBuyer)) sample) :=
  (funds_checked_iff sampleServer 0 (TradingService.init (fun _ => .ok sampleOpen) 0) sampleBuyer
    (sampleOffer .limit (some 100)) sampleQuote sample ⟨21,1,"BRL",.fiat⟩ (by decide +kernel) rfl
    (by simp [sample]) (by decide +kernel)).mpr (by decide +kernel)

/-- A MARKET BUY of the same amount, with an ask of 100 BRL, reaches the exchange. -/
theorem funds_unchecked_market :
    let payload := sampleOffer .market none
    let service := TradingService.init (fun _ => .ok sampleOpen) 0
    let receipt := sampleServer.engine.transact 0 (service.executeTrade (payload.request sampleBuyer)) sample
    payload.validate = .ok () ∧ sample.balance 21 < payload.amount * payload.executionPrice sampleQuote ∧
      (submissions receipt).length = 1 ∧ (receipt.after .orders).length = 1 ∧
      ¬FundsChecked sampleServer service (payload.request sampleBuyer) (sample.balance 21)
        (payload.amount * payload.executionPrice sampleQuote) receipt := by
  have short : sample.balance 21 < (sampleOffer .market none).amount *
      (sampleOffer .market none).executionPrice sampleQuote := by decide +kernel
  have sent : (submissions (sampleServer.engine.transact 0 ((TradingService.init (fun _ => .ok sampleOpen) 0).executeTrade
      ((sampleOffer .market none).request sampleBuyer)) sample)).length = 1 := by decide +kernel
  refine ⟨by decide +kernel,short,sent,by decide +kernel,?_⟩
  intro checked
  rw [(checked.1 short).unsubmitted] at sent
  cases sent

section Sales
variable {Client : Type} {server : Server Client} {client : Client} {service : TradingService}
  {request : TradeRequest} {db : Database}

theorem sell_unrejected (sells : request.side = .sell) :
    ¬Rejected (server.engine.transact client (service.executeTrade request) db) := by
  intro rejected
  obtain ⟨_,_,_,_,buys,_⟩ := unfunded_iff.mp (rejected_iff.mp rejected).2
  rw [sells] at buys
  cases buys

variable {gateway : Client → SubmittedOrder → Except Exception OrderSubmission} {now : Client → Timestamp}
  {requests : Client → TradeRequest}

theorem trade_positions : (server.engine.transact client (trades gateway now requests client) db).after .positions =
    db .positions := by
  rcases ran : server.engine.run client (trades gateway now requests client) ⟨db,[]⟩ with ⟨error | order,last⟩
  · rw [Engine.transact_error _ ran]
  · rw [Engine.transact_ok _ ran]
    change last.db .positions = db .positions
    cases found : (db .orders).find? (fun order => order.idempotencyKey == (requests client).idempotencyKey) with
    | some existing =>
      rw [trades,run_executeTrade_replay _ found] at ran
      cases ran
      rfl
    | none =>
      obtain ⟨_,placed,transaction,opened,submission,opening,_,_,finished⟩ :=
        returned_unfilled (gateway client) (now client) (Database.find_key_none.mp found) ran
      have kept := @run_leaves _ server client _ .positions (finalise placed transaction submission.status) ?_ opened
      · rw [finished] at kept
        exact kept.trans (opening.others (by decide) (by decide))
      · apply finalise_only
        · intro op read
          cases op <;> trivial
        · simp [Statement.Leaves]
        · simp [Statement.Leaves]

theorem settled_positions (clients : List Client) :
    (server.engine.settled (trades gateway now requests) clients db) .positions = db .positions := by
  induction clients generalizing db with
  | nil => rfl
  | cons client rest ih => exact ih.trans trade_positions

end Sales

/-- A SELL is checked against the holding exactly if the holding covers it anyway.
In a run of requests no position becomes negative, as no request moves one. -/
theorem sells_covered_iff {Client : Type} (server : Server Client)
    (gateway : Client → SubmittedOrder → Except Exception OrderSubmission) (now : Client → Timestamp)
    (request : Client → TradeRequest) (db : Database) :
    (∀ client, (request client).side = .sell →
      ((db.quantity (request client).userId (request client).assetId < (request client).amount →
          Rejected (server.engine.transact client (trades gateway now request client) db)) ↔
        (request client).amount ≤ db.quantity (request client).userId (request client).assetId)) ∧
    ((∀ position ∈ db .positions, 0 ≤ position.quantity) → ∀ clients, ∀ position ∈
      (server.engine.settled (trades gateway now request) clients db) .positions, 0 ≤ position.quantity) := by
  constructor
  · intro client sells
    constructor
    · intro checked
      by_contra uncovered
      exact sell_unrejected sells (checked (not_le.mp uncovered))
    · intro covered short
      exact absurd short (not_lt.mpr covered)
  · intro covered clients
    rw [settled_positions]
    exact covered

def sampleSell : TradeRequest :=
  { userId := 1, assetId := 11, side := .sell, orderType := .market, amount := 2, idempotencyKey := "k1" }

/-- A MARKET SELL of 2 BTC by a customer who holds none reaches the exchange. -/
theorem sell_uncovered :
    let receipt := sampleServer.engine.transact 0
      (trades (fun _ _ => .ok sampleOpen) (fun _ => 0) (fun _ => sampleSell) 0) sample
    sample.quantity 1 11 < sampleSell.amount ∧ (submissions receipt).length = 1 ∧
      (receipt.after .orders).map Order.status = [.pending] ∧ ¬Rejected receipt := by
  have sent : (submissions (sampleServer.engine.transact 0
      (trades (fun _ _ => .ok sampleOpen) (fun _ => 0) (fun _ => sampleSell) 0) sample)).length = 1 := by decide +kernel
  refine ⟨by decide +kernel,sent,by decide +kernel,?_⟩
  intro rejected
  rw [rejected.unsubmitted] at sent
  cases sent

end CryptoBrokerage
