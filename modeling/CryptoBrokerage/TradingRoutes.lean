import CryptoBrokerage.Settlement

/-! The endpoints under `/orders` and whose orders their responses contain. A
response reads the executions of an order, which are loaded lazily; outside a
greenlet that load raises, so that no response with an order is ever built. Amounts
are rendered by a parameter, since a rational has no exponent to print. -/
namespace CryptoBrokerage
open Transaction (Program Engine Reachable Status)

structure OrderCreate where
  assetId : Uuid
  side : OrderSide
  orderType : OrderType
  amount : ℚ
  price : Option ℚ := none
  idempotencyKey : String
  quoteCurrency : String := "BRL"
  deriving DecidableEq, Repr

namespace OrderCreate
variable (payload : OrderCreate)

def fieldErrors : List String :=
  (if payload.amount ≤ 0 then ["amount"] else []) ++
  (if ∃ price ∈ payload.price, price ≤ 0 then ["price"] else []) ++
  (if 1 ≤ payload.idempotencyKey.length ∧ payload.idempotencyKey.length ≤ 128 then [] else ["idempotency_key"]) ++
  (if 2 ≤ payload.quoteCurrency.length ∧ payload.quoteCurrency.length ≤ 10 then [] else ["quote_currency"])

def validateLimitPrice : Except Exception Unit :=
  if payload.orderType = .limit ∧ payload.price = none then .error (.value "LIMIT orders require a price.")
  else if payload.orderType = .market ∧ payload.price ≠ none then
    .error (.value "MARKET orders must not have a price.")
  else .ok ()

def validate : Except Exception Unit :=
  if payload.fieldErrors = [] then payload.validateLimitPrice
  else .error (.requestValidation payload.fieldErrors)

def request (user : User) : TradeRequest :=
  { userId := user.id, assetId := payload.assetId, side := payload.side, orderType := payload.orderType
    amount := payload.amount, price := payload.price, idempotencyKey := payload.idempotencyKey
    quoteCurrency := payload.quoteCurrency }

theorem validate_request (user : User) (admitted : payload.validate = .ok ()) :
    (payload.request user).validate = pure () := by
  have fields : payload.fieldErrors = [] := by
    by_contra bad
    rw [validate,if_neg bad] at admitted
    cases admitted
  rw [validate,if_pos fields,validateLimitPrice] at admitted
  have positive : ¬payload.amount ≤ 0 := by
    intro bad
    simp [fieldErrors,bad] at fields
  have priced : ¬(payload.orderType = .limit ∧ payload.price = none) := by
    intro bad
    rw [if_pos bad] at admitted
    cases admitted
  rw [TradeRequest.validate]
  exact (if_neg positive).trans (if_neg priced)

end OrderCreate

structure OrderRead extends Order where
  executions : List TradeExecution
  deriving DecidableEq, Repr

/-- Reading `executions` raises `MissingGreenlet` before a SELECT is sent. -/
def modelValidate (_order : Order) : Action OrderRead := .raise (.validation "OrderRead" "executions")

def Exception.detail (decimal : ℚ → String) : Exception → Option (Nat × String)
  | .duplicateIdempotencyKey key => some (409,s!"An order with idempotency key '{key}' already exists.")
  | .insufficientFunds available required currency =>
    some (422,s!"Insufficient funds: available={decimal available} {currency}, required={decimal required} {currency}")
  | .accountNotFound message => some (400,message)
  | .invalidOrder message => some (400,message)
  | _ => none

section Endpoints
variable (decimal : ℚ → String) (exchangeGateway : SubmittedOrder → Except Exception OrderSubmission)
  (now : Timestamp) (currentUser : User)

def createOrder (payload : OrderCreate) : Action OrderRead := do
  let placed : Action OrderRead := do
    let order ← (TradingService.init exchangeGateway now).executeTrade (payload.request currentUser)
    modelValidate order
  match ← placed.attempt with
  | .ok order => pure order
  | .error error =>
    match error.detail decimal with
    | some (status,detail) => .raise (.http status detail)
    | none => .raise error

def getOrder (orderId : Uuid) : Action OrderRead := do
  match ← BaseRepository.getById .orders orderId with
  | none => .raise (.http 404 s!"Order {str orderId} not found.")
  | some order =>
    if order.userId ≠ currentUser.id then .raise (.http 404 s!"Order {str orderId} not found.")
    else modelValidate order

def listOrders (limit offset : Int) : Action (List OrderRead) := do
  let orders ← OrderRepository.getByUser currentUser.id none limit offset
  orders.mapM modelValidate

inductive OrderCall
  | createOrder (payload : OrderCreate)
  | getOrder (orderId : Uuid)
  | listOrders (limit offset : Int)
  deriving DecidableEq, Repr

def respond : OrderCall → Action (List OrderRead)
  | .createOrder payload => do
    .done payload.validate
    let order ← CryptoBrokerage.createOrder decimal exchangeGateway now currentUser payload
    pure [order]
  | .getOrder orderId => do
    let order ← CryptoBrokerage.getOrder currentUser orderId
    pure [order]
  | .listOrders limit offset => CryptoBrokerage.listOrders currentUser limit offset

end Endpoints

section Responses
variable {decimal : ℚ → String} {gateway : SubmittedOrder → Except Exception OrderSubmission} {now : Timestamp}
  {currentUser : User}

theorem createOrder_unanswered (payload : OrderCreate) :
    (createOrder decimal gateway now currentUser payload).Returns (fun _ => False) := by
  have placed : ((TradingService.init gateway now).executeTrade (payload.request currentUser) >>= modelValidate).Returns
      (fun _ => False) :=
    Program.Returns.bind (Program.returns_any _) fun _ _ => trivial
  refine Program.Returns.bind placed.attempt fun outcome unanswered => ?_
  cases outcome with
  | ok order => exact unanswered order rfl
  | error error =>
    change Program.Returns _ (match error.detail decimal with
      | some (status,detail) => .raise (.http status detail)
      | none => .raise error : Action OrderRead)
    split <;> trivial

theorem getOrder_unanswered (orderId : Uuid) : (getOrder currentUser orderId).Returns (fun _ => False) := by
  refine Program.Returns.bind (Program.returns_any _) fun found _ => ?_
  cases found with
  | none => trivial
  | some order =>
    change (if _ then _ else _ : Action OrderRead).Returns _
    split
    · trivial
    · trivial

theorem listOrders_empty (limit offset : Int) : (listOrders currentUser limit offset).Returns (· = []) := by
  refine Program.Returns.bind (Program.returns_any _) fun orders _ => ?_
  cases orders with
  | nil => exact rfl
  | cons order rest => trivial

/-- No response contains an order. -/
theorem respond_empty (call : OrderCall) : (respond decimal gateway now currentUser call).Returns (· = []) := by
  cases call with
  | createOrder payload =>
    exact Program.Returns.bind (Program.returns_any _) fun _ _ =>
      Program.Returns.bind (createOrder_unanswered payload) fun _ answered => answered.elim
  | getOrder orderId => exact Program.Returns.bind (getOrder_unanswered orderId) fun _ answered => answered.elim
  | listOrders limit offset => exact listOrders_empty limit offset

end Responses

def Private (user : User) (outcome : Except Exception (List OrderRead)) : Prop :=
  ∀ reads, outcome = .ok reads → ∀ read ∈ reads, read.userId = user.id

section Runs
variable {Client : Type} (server : Server Client) (decimal : ℚ → String)
  (gateway : Client → SubmittedOrder → Except Exception OrderSubmission) (now : Client → Timestamp)
  (user : Client → User) (call : Client → OrderCall)

def responses (client : Client) : Action (List OrderRead) :=
  respond decimal (gateway client) (now client) (user client) (call client)

/-- In every interleaving of calls by any users every response contains only orders of
its user, whatever keys and ids the calls name. -/
theorem responses_private [DecidableEq Client] (db : Database)
    (config : Transaction.Config sql Client Database Write Resource (List OrderRead))
    (reached : Reachable server.engine (responses decimal gateway now user call) db config) (client : Client)
    (outcome : Except Exception (List OrderRead)) (issued : List Statement)
    (ended : config.status client = .ended outcome issued) : Private (user client) outcome := by
  intro reads returned read member
  rw [returned] at ended
  have unshown : (responses decimal gateway now user call client).Returns (· = []) := respond_empty (call client)
  have empty := reached.returned unshown ended
  rw [empty] at member
  cases member

end Runs

def samplePayload : OrderCreate :=
  { assetId := 11, side := .buy, orderType := .limit, amount := 2, price := some 100, idempotencyKey := "k1" }

def sampleOrder : Order := sampleBuy.order 105

def sampleUser (client : Fin 2) : User :=
  if client = oneClient then ⟨1,"ana@example.com","",true⟩ else ⟨2,"bruno@example.com","",true⟩

def sampleOrderCalls (client : Fin 2) : OrderCall :=
  if client = oneClient then .listOrders 50 1 else .createOrder samplePayload

theorem responses_private_pair :
    ∃ config, Reachable sampleServer.engine (responses toString (fun _ _ => .ok sampleOpen) (fun _ => 0) sampleUser
        sampleOrderCalls) (sample.insert .orders sampleOrder) config ∧ (config.status 0).isCommitted = true ∧
      ∀ client, ∃ outcome issued, config.status client = .ended outcome issued ∧
        Private (sampleUser client) outcome := by
  have scheduled : (Transaction.follow sampleServer.engine (responses toString (fun _ _ => .ok sampleOpen) (fun _ => 0)
      sampleUser sampleOrderCalls) [0,1,1,0,0,1] (.initial (sample.insert .orders sampleOrder))).map (fun config =>
        ((config.status 0).isCommitted,decide (∀ client, (config.status client).isEnded = true))) = some (true,true) := by
    decide +kernel
  obtain ⟨config,followed,facts⟩ := Option.map_eq_some_iff.mp scheduled
  obtain ⟨committed,ended⟩ := Prod.mk.inj facts
  have reached := Transaction.follow_reachable .refl followed
  refine ⟨config,reached,committed,fun client => ?_⟩
  obtain ⟨outcome,issued,same⟩ := Status.isEnded_iff.mp (of_decide_eq_true ended client)
  exact ⟨outcome,issued,same,responses_private sampleServer toString (fun _ _ => .ok sampleOpen) (fun _ => 0) sampleUser
    sampleOrderCalls (sample.insert .orders sampleOrder) config reached client outcome issued same⟩

end CryptoBrokerage
