import CryptoBrokerage.StandingBooks

/-! The gateways that the dependencies of the routes provide. They answer without a
call: each order is filled at once, each transfer is pending. What an exchange of
this kind is sent never becomes an order of the platform. -/
namespace CryptoBrokerage
open Transaction

structure Draws where
  externalOrderId : Uuid
  fillId : Uuid
  transferId : Uuid
  time : Timestamp

namespace HttpExchangeGateway

def getInstrumentPrices (time : Timestamp) (symbols : List String) :
    Except Exception (String → Option InstrumentPrice) :=
  .ok fun symbol => if symbol ∈ symbols then
    some { symbol, bid := 290000, ask := 290500, last := 290250, timestamp := time } else none

def submitOrder (draws : Draws) (order : SubmittedOrder) : Except Exception OrderSubmission :=
  let fillPrice : ℚ := 290250
  .ok
    { externalOrderId := str draws.externalOrderId, status := "FILLED", filledAmount := order.amount
      averagePrice := fillPrice, fee := order.amount * fillPrice * (1 / 1000)
      fills :=
        [{ fillId := str draws.fillId, price := fillPrice, amount := order.amount
           fee := order.amount * fillPrice * (1 / 1000), timestamp := draws.time }] }

end HttpExchangeGateway

namespace HttpBankingGateway

def initiateTransfer (draws : Draws) (_ : InitiatedTransfer) : Except Exception TransferInitiation :=
  .ok { externalTransferId := str draws.transferId, status := "PENDING" }

end HttpBankingGateway

/-- A request that finds the gateways of `deps.py`. -/
def Moment.deployed (moment : Moment) (draws : Draws) : Moment :=
  { moment with
    exchange := HttpExchangeGateway.submitOrder draws
    prices := HttpExchangeGateway.getInstrumentPrices draws.time
    bank := HttpBankingGateway.initiateTransfer draws }

def Moment.Fills (moment : Moment) : Prop :=
  ∀ order submission, moment.exchange order = .ok submission → submission.fillsToProcess moment.now ≠ []

theorem deployed_fills (moment : Moment) (draws : Draws) : (moment.deployed draws).Fills := by
  intro order submission answered
  cases answered
  simp [OrderSubmission.fillsToProcess]

def Statement.trades : Statement → Bool
  | .insert .orders _ | .update .orders _ _ | .submitOrder _ => true
  | _ => false

def trading (Client : Type) : Protocol sql Client Bool where
  start _ := false
  allowed _ _ _ := True
  after _ state op _ := state || op.trades

section Program
variable {Client α : Type} {server : Server Client} {client : Client} {platform : Platform} {moment : Moment} {state : Bool}

def Untraded (outcome : Except Exception α) (last : Bool) : Prop := ∀ value, outcome = .ok value → last = false

theorem untrading_serving : Serving fun op : Statement => op.trades = false where
  reads op reads := by cases op <;> first | rfl | exact reads.elim
  inserts t other row := by
    cases t with
    | orders => exact absurd rfl other
    | _ => rfl
  updates _ _ := rfl
  transfers _ := rfl

theorem untrading_obeys {program : Action α} (only : program.Only fun op : Statement => op.trades = false) :
    program.Obeys server.engine (fun _ => True) (trading Client) client state (fun _ last => last = state) := by
  refine only.obeys (fun _ _ => trivial) fun op quiet reply => ?_
  change (state || op.trades) = state
  rw [quiet,Bool.or_false]

theorem trading_returns {program : Action α} {returned : α → Prop} (returns : program.Returns returned) :
    program.Obeys server.engine (fun _ => True) (trading Client) client state
      (fun outcome _ => ∀ value, outcome = .ok value → returned value) := by
  induction program generalizing state with
  | done outcome =>
    rintro value rfl
    exact returns
  | call op next ih => exact ⟨trivial,fun reply _ => ih reply (returns reply)⟩

theorem submit_answers (service : TradingService) (request : TradeRequest) (order : Order)
    (transaction : CryptoBrokerage.Transaction) :
    (service.submit request order transaction).Returns fun submission =>
      service.exchangeGateway request.submitted = .ok submission := by
  have answered : (service.submitOrder request.submitted).Returns fun submission =>
      service.exchangeGateway request.submitted = .ok submission := by
    refine Program.Returns.bind (Program.returns_any _) fun _ _ => ?_
    cases service.exchangeGateway request.submitted with
    | error error => trivial
    | ok submission => rfl
  refine Program.Returns.bind answered.attempt fun outcome answered => ?_
  cases outcome with
  | ok submission => exact answered submission rfl
  | error error =>
    exact Program.Returns.bind (Program.returns_any _) fun _ _ => Program.Returns.bind (Program.returns_any _) fun _ _ =>
      trivial

theorem placeOrder_refused {gateway : SubmittedOrder → Except Exception OrderSubmission} {now : Timestamp}
    (fills : ∀ order submission, gateway order = .ok submission → submission.fillsToProcess now ≠ [])
    (request : TradeRequest) : ((TradingService.init gateway now).placeOrder request).Returns fun _ => False := by
  refine Program.Returns.bind (Program.returns_any _) fun opened _ => ?_
  obtain ⟨account,order,transaction⟩ := opened
  refine Program.Returns.bind (submit_answers _ request order transaction) fun submission answered => ?_
  exact settle_refused gateway now order transaction account _ (fills _ submission answered)

theorem executeTrade_untraded {gateway : SubmittedOrder → Except Exception OrderSubmission} {now : Timestamp}
    (fills : ∀ order submission, gateway order = .ok submission → submission.fillsToProcess now ≠ [])
    (request : TradeRequest) :
    ((TradingService.init gateway now).executeTrade request).Obeys server.engine (fun _ => True) (trading Client)
      client false Untraded := by
  change Program.Obeys _ _ _ _ (OrderRepository.getByIdempotencyKey request.idempotencyKey >>= fun found => _) _ _
  rw [Program.obeys_bind]
  have asked : (OrderRepository.getByIdempotencyKey request.idempotencyKey).Only fun op : Statement => op.trades = false :=
    sends_look (fun _ => untrading_serving.looks) trivial
  refine (untrading_obeys asked).weaken ?_
  rintro outcome _ rfl
  cases outcome with
  | error error => exact fun _ same => by cases same
  | ok found =>
    cases found with
    | some existing => exact fun _ _ => rfl
    | none =>
      exact (trading_returns (placeOrder_refused fills request)).weaken fun _ _ never value same => (never value same).elim

/-- An order that is placed through the endpoint is never answered, however the
exchange answers. -/
theorem handle_unanswered (platform : Platform) (moment : Moment) (token : String) (payload : OrderCreate) :
    (platform.handle moment (.user token (.createOrder payload))).Returns fun _ => False := by
  refine Program.Returns.bind (Program.returns_any _) fun user _ => ?_
  refine Program.Returns.bind (Program.returns_any _) fun admitted _ => ?_
  rw [map_eq_pure_bind]
  exact Program.Returns.bind (createOrder_unanswered payload) fun _ never => never.elim

theorem handle_untraded (call : Call) (fills : ∀ request, call = .executeTrade request → moment.Fills) :
    (platform.handle moment call).Obeys server.engine (fun _ => True) (trading Client) client false Untraded := by
  by_cases places : ∃ request, call.Places request
  · cases call with
    | executeTrade request =>
      change Program.Obeys _ _ _ _ (Response.traded <$> (TradingService.init moment.exchange moment.now).executeTrade
        request) _ _
      rw [map_eq_pure_bind,Program.obeys_bind]
      refine (executeTrade_untraded (fills request rfl) request).weaken fun outcome last untraded => ?_
      cases outcome with
      | error error => exact fun _ same => by cases same
      | ok order => exact fun _ _ => untraded order rfl
    | user token call =>
      cases call with
      | createOrder payload =>
        have unanswered := handle_unanswered platform moment token payload
        exact (trading_returns unanswered).weaken fun _ _ never value same => (never value same).elim
      | _ => exact places.choose_spec.elim
    | _ => exact places.choose_spec.elim
  · refine (untrading_obeys (handle_only untrading_serving platform moment fun request placed =>
      absurd ⟨request,placed⟩ places)).weaken ?_
    rintro outcome _ rfl
    exact fun _ _ => rfl

end Program

section Runs
variable {Client α : Type} {server : Server Client} {platform : Platform} {moment : Client → Moment}
  {call : Client → Call} {db : Database} {session : Session sql Write Resource α}

structure Aloof (session : Session sql Write Resource α) : Prop where
  orders : ∀ db, (session.writes.foldl Database.apply db) .orders = db .orders
  unsent : ∀ order, .submitOrder order ∉ session.issued

theorem trading_guarantee (programs : Client → Action α) :
    Guarantee server.engine (trading Client) programs (fun _ => True) (fun _ => True)
      (fun _ state session _ => state = false → Aloof session) where
  start _ _ _ _ := ⟨fun _ => rfl,fun _ => List.not_mem_nil⟩
  sees _ _ _ _ _ _ := trivial
  answered client state session committed op rest reply writes _ holds _ answered _ untraded := by
    obtain ⟨before,quiet⟩ := Bool.or_eq_false_iff.mp untraded
    obtain ⟨orders,unsent⟩ := holds before
    have written := @Server.exec_writes _ server client session.issued.length op _ _ _ answered
    constructor
    · intro db
      rw [List.foldl_append]
      cases op with
      | insert t row =>
        obtain ⟨stored,_,_,rfl⟩ := written
        have other : Table.orders ≠ t := by
          rintro rfl
          cases quiet
        exact (Database.insert_other _ stored other).trans (orders db)
      | update t id set =>
        obtain ⟨stored,_,rfl⟩ := written
        have other : Table.orders ≠ t := by
          rintro rfl
          cases quiet
        exact (Database.modify_other _ id stored other).trans (orders db)
      | _ =>
        obtain rfl : writes = [] := written
        exact orders db
    · intro order member
      rcases List.mem_append.mp member with earlier | last
      · exact unsent order earlier
      · rw [← List.mem_singleton.mp last] at quiet
        cases quiet
  failed client state session committed op rest error _ holds _ _ untraded := by
    obtain ⟨before,quiet⟩ := Bool.or_eq_false_iff.mp untraded
    obtain ⟨orders,unsent⟩ := holds before
    refine ⟨orders,fun order member => ?_⟩
    rcases List.mem_append.mp member with earlier | last
    · exact unsent order earlier
    · rw [← List.mem_singleton.mp last] at quiet
      cases quiet
  commit _ _ _ _ _ _ := trivial
  rely _ _ _ _ _ _ _ _ _ mine _ _ := mine

variable [DecidableEq Client] {config : Config sql Client Database Write Resource Response}

def Lost (db : Database) (config : Config sql Client Database Write Resource Response) : Prop :=
  config.committed .orders = db .orders ∧ ∀ client outcome issued order,
    config.status client = .ended outcome issued → .submitOrder order ∈ issued → ∃ error, outcome = .error error

theorem lost_reachable (fills : ∀ client request, call client = .executeTrade request → (moment client).Fills)
    (reached : Reachable server.engine (platform.requests moment call) db config) : Lost db config := by
  have settled := (@trading_guarantee _ _ server (platform.requests moment call)).settled
    (fun committed => committed .orders = db .orders)
    (fun _ outcome issued _ => ∀ order, .submitOrder order ∈ issued → ∃ error, outcome = .error error)
    (fun client => handle_untraded (call client) (fills client)) trivial rfl
  obtain ⟨orders,answered⟩ := settled (by
    intro client state session committed value _ stored holds untraded
    obtain ⟨orders,unsent⟩ := holds (untraded value rfl)
    exact ⟨(orders committed).trans stored,fun order sent => absurd sent (unsent order),fun _ _ _ known => known⟩)
    (fun _ _ _ _ error _ _ _ _ _ _ => ⟨error,rfl⟩) reached
  exact ⟨orders,fun client outcome issued order ended sent => answered client outcome issued ended order sent⟩

end Runs

/-- Whatever the exchange answers, an order that is placed through the endpoint ends
in an error, and where no service places one either, none is ever added to the orders
and executions of the start. -/
theorem routed_orders_lost {Client : Type} [DecidableEq Client] (server : Server Client) (platform : Platform)
    (moment : Client → Moment) (call : Client → Call) (db : Database)
    (config : Config sql Client Database Write Resource Response)
    (reached : Reachable server.engine (platform.requests moment call) db config) :
    (∀ client token payload outcome issued, call client = .user token (.createOrder payload) →
      config.status client = .ended outcome issued → ∃ error, outcome = .error error) ∧
    ((∀ client request, call client ≠ .executeTrade request) →
      config.committed .orders = db .orders ∧ config.committed .tradeExecutions = db .tradeExecutions) := by
  constructor
  · intro client token payload outcome issued places ended
    have unanswered : (platform.requests moment call client).Returns fun _ => False := by
      rw [Platform.requests,places]
      exact handle_unanswered platform (moment client) token payload
    cases outcome with
    | error error => exact ⟨error,rfl⟩
    | ok response => exact (reached.returned unanswered ended).elim
  · intro routed
    exact ⟨(lost_reachable (fun client request traded => absurd traded (routed client request)) reached).1,
      (grows_runs .refl reached).2.executions⟩

def sentInVain (status : Status sql Write Resource Response) : Option (Exception × ℕ) :=
  match status with
  | .ended (.error error) issued => some (error,issued.countP fun op => op matches .submitOrder _)
  | _ => none

/-- The exchange has the order, the platform has not. -/
theorem routed_orders_lost_one :
    ∃ config, Reachable sampleServer.engine (samplePlatform.requests (sampleMoment fun _ => .ok sampleOpen) sampleRequests)
        sample config ∧ sentInVain (config.status 0) = some (.validation "OrderRead" "executions",1) ∧
      config.committed .orders = [] := by
  have scheduled : (follow sampleServer.engine (samplePlatform.requests (sampleMoment fun _ => .ok sampleOpen)
      sampleRequests) (List.replicate 15 0) (.initial sample)).map (fun config => sentInVain (config.status 0)) =
        some (some (.validation "OrderRead" "executions",1)) := by
    decide +kernel
  obtain ⟨config,followed,vain⟩ := Option.map_eq_some_iff.mp scheduled
  have reached := follow_reachable .refl followed
  have lost := routed_orders_lost sampleServer samplePlatform (sampleMoment fun _ => .ok sampleOpen) sampleRequests
    sample config reached
  exact ⟨config,reached,vain,(lost.2 fun client request impossible => by cases impossible).1⟩

/-- With the gateways that the platform is deployed with, no run of requests ever
adds an order, and whoever has sent one to the exchange, which has filled it, is
answered with an error. -/
theorem deployed_orders_lost {Client : Type} [DecidableEq Client] (server : Server Client) (platform : Platform)
    (moment : Client → Moment) (draws : Client → Draws) (call : Client → Call) (db : Database)
    (config : Config sql Client Database Write Resource Response)
    (reached : Reachable server.engine
      (platform.requests (fun client => (moment client).deployed (draws client)) call) db config) :
    config.committed .orders = db .orders ∧ config.committed .tradeExecutions = db .tradeExecutions ∧
      ∀ client outcome issued order, config.status client = .ended outcome issued → .submitOrder order ∈ issued →
        ∃ error, outcome = .error error := by
  obtain ⟨orders,answered⟩ := lost_reachable (fun client _ _ => deployed_fills (moment client) (draws client)) reached
  exact ⟨orders,(grows_runs .refl reached).2.executions,answered⟩

theorem deployed_orders_lost_one :
    ∃ config, Reachable sampleServer.engine (samplePlatform.requests (fun client =>
        (sampleMoment (fun _ => .ok sampleOpen) client).deployed ⟨7,8,9,0⟩) sampleRequests) sample config ∧
      sentInVain (config.status 0) =
        some (.ledgerImbalance "Debit and credit accounts must be different.",1) ∧
      config.committed .orders = [] := by
  have scheduled : (follow sampleServer.engine (samplePlatform.requests (fun client =>
      (sampleMoment (fun _ => .ok sampleOpen) client).deployed ⟨7,8,9,0⟩) sampleRequests) (List.replicate 18 0)
      (.initial sample)).map (fun config => sentInVain (config.status 0)) =
        some (some (.ledgerImbalance "Debit and credit accounts must be different.",1)) := by
    decide +kernel
  obtain ⟨config,followed,vain⟩ := Option.map_eq_some_iff.mp scheduled
  have reached := follow_reachable .refl followed
  have lost := deployed_orders_lost sampleServer samplePlatform (sampleMoment fun _ => .ok sampleOpen)
    (fun _ => ⟨7,8,9,0⟩) sampleRequests sample config reached
  exact ⟨config,reached,vain,lost.1⟩

end CryptoBrokerage
