import CryptoBrokerage.Api
import CryptoBrokerage.Transaction.Likeness

/-! The exception handlers of the application, and what a client can learn from its
answers about the errors of the exchange and the bank. -/
namespace CryptoBrokerage
open Transaction

namespace Exception

/-- The classes of an exception that `exceptions.py` declares, its own first. -/
def mro : Exception → List String
  | .authentication _ => ["AuthenticationError","BrokerageError"]
  | .userAlreadyExists _ => ["UserAlreadyExistsError","BrokerageError"]
  | .accountNotFound _ => ["AccountNotFoundError","BrokerageError"]
  | .bankAccountNotFound _ => ["BankAccountNotFoundError","BrokerageError"]
  | .bankAccountAlreadyLinked _ => ["BankAccountAlreadyLinkedError","BrokerageError"]
  | .assetNotFound _ => ["AssetNotFoundError","BrokerageError"]
  | .insufficientFunds _ _ _ => ["InsufficientFundsError","BrokerageError"]
  | .duplicateIdempotencyKey _ => ["DuplicateIdempotencyKeyError","BrokerageError"]
  | .invalidOrder _ => ["InvalidOrderError","BrokerageError"]
  | .orderAlreadyFinalized _ => ["OrderAlreadyFinalizedError","BrokerageError"]
  | .ledgerImbalance _ => ["LedgerImbalanceError","BrokerageError"]
  | .externalGateway _ _ => ["ExternalGatewayError","BrokerageError"]
  | _ => []

def code (error : Exception) : String := error.mro.head?.getD ""

def message (decimal : ℚ → String) : Exception → String
  | .authentication message => message
  | .userAlreadyExists message => message
  | .accountNotFound message => message
  | .bankAccountNotFound message => message
  | .bankAccountAlreadyLinked message => message
  | .assetNotFound message => message
  | .insufficientFunds available required currency =>
    s!"Insufficient funds: available={decimal available} {currency}, required={decimal required} {currency}"
  | .duplicateIdempotencyKey key => s!"An order with idempotency key '{key}' already exists."
  | .invalidOrder message => message
  | .orderAlreadyFinalized message => message
  | .ledgerImbalance message => message
  | .externalGateway gateway message => s!"[{gateway}] {message}"
  | _ => ""

end Exception

/-- The answer to a request that raises: of a handler of the application, of the
framework for its own exceptions, or the bare 500. -/
inductive ErrorResponse
  | json (status : Nat) (content headers : List (String × String))
  | http (status : Nat) (detail : String)
  | validation (fields : List String)
  | serverError
  deriving DecidableEq, Repr

section Handlers
variable (decimal : ℚ → String)

def Exception.content (error : Exception) : List (String × String) :=
  [("detail",error.message decimal),("code",error.code)]

def plainHandler (status : Nat) (error : Exception) : ErrorResponse := .json status (error.content decimal) []

def authenticationErrorHandler (error : Exception) : ErrorResponse :=
  .json 401 (error.content decimal) [("WWW-Authenticate","Bearer")]

def insufficientFundsHandler (error : Exception) : ErrorResponse :=
  match error with
  | .insufficientFunds available required currency =>
    .json 422 (error.content decimal ++
      [("available",decimal available),("required",decimal required),("currency",currency)]) []
  | _ => .json 422 (error.content decimal) []

def gatewayErrorHandler (error : Exception) : ErrorResponse :=
  .json 502 [("detail","External service error. Please try again later."),("code",error.code)] []

def exceptionHandlers : List (String × (Exception → ErrorResponse)) :=
  [("AuthenticationError",authenticationErrorHandler decimal),
   ("AuthorizationError",plainHandler decimal 403),
   ("UserAlreadyExistsError",plainHandler decimal 409),
   ("UserNotFoundError",plainHandler decimal 404),
   ("AccountNotFoundError",plainHandler decimal 404),
   ("InsufficientFundsError",insufficientFundsHandler decimal),
   ("DuplicateIdempotencyKeyError",plainHandler decimal 409),
   ("KYCNotApprovedError",plainHandler decimal 403),
   ("ExternalGatewayError",gatewayErrorHandler),
   ("BrokerageError",plainHandler decimal 400)]

def Exception.respond (error : Exception) : ErrorResponse :=
  match error.mro.findSome? fun name => (exceptionHandlers decimal).lookup name with
  | some handler => handler error
  | none =>
    match error with
    | .http status detail => .http status detail
    | .requestValidation fields => .validation fields
    | _ => .serverError

def reply (status : Status sql Write Resource Response) : Option (Except ErrorResponse Response) :=
  match status with
  | .ended (.ok response) _ => some (.ok response)
  | .ended (.error error) _ => some (.error (error.respond decimal))
  | _ => none

end Handlers

/-- Errors that differ in what a gateway, or something outside the platform, says. -/
inductive Hidden : Exception → Exception → Prop
  | same (error : Exception) : Hidden error error
  | gateway (gateway message gateway' message' : String) :
      Hidden (.externalGateway gateway message) (.externalGateway gateway' message')
  | other (message message' : String) : Hidden (.other message) (.other message')

theorem Hidden.respond {error error' : Exception} (hidden : Hidden error error') (decimal : ℚ → String) :
    error.respond decimal = error'.respond decimal := by
  cases hidden <;> rfl

theorem Hidden.detail {error error' : Exception} (hidden : Hidden error error') (decimal : ℚ → String) :
    error = error' ∨ (error.detail decimal = none ∧ error'.detail decimal = none) := by
  cases hidden with
  | same => exact Or.inl rfl
  | gateway => exact Or.inr ⟨rfl,rfl⟩
  | other => exact Or.inr ⟨rfl,rfl⟩

/-- Two surroundings of a request that differ only in how the exchange and the bank
put their errors. A failure to fetch prices may differ in kind. -/
structure Moment.Alike (moment other : Moment) : Prop where
  now : other.now = moment.now
  accessClock : other.accessClock = moment.accessClock
  refreshClock : other.refreshClock = moment.refreshClock
  draw : other.draw = moment.draw
  exchange : ∀ order, Resembles Hidden Eq (moment.exchange order) (other.exchange order)
  prices : ∀ symbols, Resembles (fun _ _ => True) Eq (moment.prices symbols) (other.prices symbols)
  bank : ∀ transfer, Resembles Hidden Eq (moment.bank transfer) (other.bank transfer)

section Matching
variable {α β : Type} {gateway gateway' : SubmittedOrder → Except Exception OrderSubmission}
  (alike : ∀ order, Resembles Hidden Eq (gateway order) (gateway' order)) (now : Timestamp)

theorem hidden_refl (program : Action α) : program.Matches Hidden Eq program :=
  Program.matches_refl (fun error => .same error) program

theorem hidden_after {program : Action α} {next rest : α → Action β}
    (later : ∀ value, (next value).Matches Hidden Eq (rest value)) :
    (program >>= next).Matches Hidden Eq (program >>= rest) :=
  Program.matches_after (fun error => .same error) program later

theorem hidden_map (f : α → β) {program other : Action α} (same : program.Matches Hidden Eq other) :
    (f <$> program).Matches Hidden Eq (f <$> other) := by
  rw [map_eq_pure_bind,map_eq_pure_bind]
  refine same.bind ?_
  rintro value _ rfl
  exact hidden_refl _

theorem processFills_init (account : Account) (quoteCurrency : String) (transactionId : Uuid) (seen : List String)
    (order : Order) (fills : List FillEvent) :
    (TradingService.init gateway now).processFills account quoteCurrency transactionId seen order fills =
      (TradingService.init gateway' now).processFills account quoteCurrency transactionId seen order fills :=
  rfl

include alike

theorem submit_matches (request : TradeRequest) (order : Order) (transaction : CryptoBrokerage.Transaction) :
    ((TradingService.init gateway now).submit request order transaction).Matches Hidden Eq
      ((TradingService.init gateway' now).submit request order transaction) := by
  have submitted : ((TradingService.init gateway now).submitOrder request.submitted).Matches Hidden Eq
      ((TradingService.init gateway' now).submitOrder request.submitted) :=
    hidden_after fun _ => Program.matches_done (alike request.submitted)
  refine submitted.attempt.bind ?_
  rintro _ _ (⟨rfl⟩ | ⟨hidden⟩)
  · exact hidden_refl _
  · exact hidden_after fun _ => hidden_after fun _ => Program.matches_done (.error hidden)

theorem executeTrade_matches (request : TradeRequest) :
    ((TradingService.init gateway now).executeTrade request).Matches Hidden Eq
      ((TradingService.init gateway' now).executeTrade request) := by
  refine hidden_after fun found => ?_
  cases found with
  | some existing => exact hidden_refl _
  | none =>
    refine hidden_after fun opened => ?_
    obtain ⟨account,order,transaction⟩ := opened
    refine (submit_matches alike now request order transaction).bind ?_
    rintro submission _ rfl
    unfold TradingService.settle
    rw [@processFills_init gateway gateway' now]
    exact hidden_refl _

theorem createOrder_matches (decimal : ℚ → String) (user : User) (payload : OrderCreate) :
    (createOrder decimal gateway now user payload).Matches Hidden Eq
      (createOrder decimal gateway' now user payload) := by
  have placed : (do
      let order ← (TradingService.init gateway now).executeTrade (payload.request user)
      modelValidate order : Action OrderRead).Matches Hidden Eq (do
      let order ← (TradingService.init gateway' now).executeTrade (payload.request user)
      modelValidate order) := by
    refine (executeTrade_matches alike now (payload.request user)).bind ?_
    rintro order _ rfl
    exact hidden_refl _
  refine placed.attempt.bind ?_
  rintro _ _ (⟨rfl⟩ | ⟨hidden⟩)
  · exact hidden_refl _
  · rcases hidden.detail decimal with rfl | ⟨silent,mute⟩
    · exact hidden_refl _
    · dsimp only
      rw [silent,mute]
      exact Program.matches_done (.error hidden)

end Matching

section Requests
variable {platform : Platform} {moment other : Moment}

theorem depositFunds_matches {bank bank' : InitiatedTransfer → Except Exception TransferInitiation}
    (alike : ∀ transfer, Resembles Hidden Eq (bank transfer) (bank' transfer)) (request : DepositRequest) :
    (BankingService.depositFunds bank request).Matches Hidden Eq (BankingService.depositFunds bank' request) := by
  refine hidden_after fun bankAccount => hidden_after fun transaction => ?_
  have initiated : (BankingService.initiate bank request bankAccount transaction).Matches Hidden Eq
      (BankingService.initiate bank' request bankAccount transaction) := by
    have transferred : (BankingService.initiateTransfer bank (request.transfer bankAccount transaction.id)).Matches Hidden
        Eq (BankingService.initiateTransfer bank' (request.transfer bankAccount transaction.id)) :=
      hidden_after fun _ => Program.matches_done (alike _)
    refine transferred.bind ?_
    rintro transfer _ rfl
    exact hidden_refl _
  refine initiated.attempt.bind ?_
  rintro _ _ (⟨rfl⟩ | ⟨hidden⟩)
  · exact hidden_refl _
  · exact hidden_after fun _ => Program.matches_done (.error hidden)

/-- Whatever error it is, there are no prices then. -/
theorem fetchPrices_matches {gateway gateway' : List String → Except Exception (String → Option InstrumentPrice)}
    (alike : ∀ symbols, Resembles (fun _ _ => True) Eq (gateway symbols) (gateway' symbols)) (symbols : List String) :
    (PortfolioService.fetchPrices gateway symbols).Matches Hidden Eq
      (PortfolioService.fetchPrices gateway' symbols) := by
  unfold PortfolioService.fetchPrices
  split
  · exact hidden_refl _
  · have caught : (PortfolioService.getInstrumentPrices gateway symbols).attempt.Matches Hidden
        (Resembles (fun _ _ => True) Eq) (PortfolioService.getInstrumentPrices gateway' symbols).attempt := by
      refine ⟨_,rfl,fun reply => ?_⟩
      cases reply with
      | error error => exact Program.matches_done (.ok (.error trivial))
      | ok _ => exact Program.matches_done (.ok (alike symbols))
    refine caught.bind ?_
    rintro _ _ (⟨rfl⟩ | _)
    · exact hidden_refl _
    · exact hidden_refl _

theorem getPortfolio_matches {gateway gateway' : List String → Except Exception (String → Option InstrumentPrice)}
    (alike : ∀ symbols, Resembles (fun _ _ => True) Eq (gateway symbols) (gateway' symbols)) (user : User)
    (currency : String) : (getPortfolio gateway user currency).Matches Hidden Eq (getPortfolio gateway' user currency) := by
  refine hidden_after fun positions => ?_
  cases positions with
  | nil => exact hidden_refl _
  | cons position rest =>
    refine hidden_after fun assets => (fetchPrices_matches alike _).bind ?_
    rintro prices _ rfl
    exact hidden_refl _

theorem handle_matches (alike : moment.Alike other) (call : Call) :
    (platform.handle moment call).Matches Hidden Eq (platform.handle other call) := by
  obtain ⟨now,accessClock,refreshClock,draw,exchange,prices,bank⟩ := alike
  cases call with
  | register payload =>
    have same : platform.onboarding other = platform.onboarding moment := by rw [Platform.onboarding,draw,Platform.onboarding]
    unfold Platform.handle
    rw [same]
    exact hidden_refl _
  | login username password =>
    unfold Platform.handle
    rw [accessClock,refreshClock]
    exact hidden_refl _
  | getMe => exact hidden_refl _
  | user token call =>
    unfold Platform.handle
    rw [now]
    refine hidden_after fun currentUser => ?_
    cases call with
    | createOrder payload =>
      unfold Platform.answer
      rw [now]
      exact hidden_after fun _ => hidden_map _ (createOrder_matches exchange moment.now platform.decimal currentUser payload)
    | getPortfolio currency => exact hidden_map _ (getPortfolio_matches prices currentUser currency)
    | _ => exact hidden_refl _
  | depositFunds request => exact hidden_map _ (depositFunds_matches bank request)
  | confirmDeposit externalTransferId => exact hidden_refl _
  | withdrawFunds request => exact hidden_refl _
  | executeTrade request =>
    unfold Platform.handle
    rw [now]
    exact hidden_map _ (executeTrade_matches exchange moment.now request)

theorem reply_matches (decimal : ℚ → String) {status other : Status sql Write Resource Response}
    (alike : status.Matches Hidden Eq other) : reply decimal status = reply decimal other := by
  cases alike with
  | ready => rfl
  | running programs writes held issued => rfl
  | ended resembles issued =>
    cases resembles with
    | ok same =>
      subst same
      rfl
    | error hidden => exact congrArg (some ∘ Except.error) (hidden.respond decimal)

end Requests

/-- What the exchange and the bank say when they fail stays inside: two worlds that
differ in nothing else reach the same stores with the same statements, and every
client gets the same answer. -/
theorem gateway_errors_hidden {Client : Type} [DecidableEq Client] (server : Server Client) (platform : Platform)
    (moment other : Client → Moment) (alike : ∀ client, (moment client).Alike (other client)) (call : Client → Call)
    (db : Database) (config : Config sql Client Database Write Resource Response)
    (reached : Reachable server.engine (platform.requests moment call) db config) :
    ∃ mirror, Reachable server.engine (platform.requests other call) db mirror ∧
      mirror.committed = config.committed ∧ mirror.history = config.history ∧
      ∀ client, reply platform.decimal (mirror.status client) = reply platform.decimal (config.status client) := by
  obtain ⟨mirror,there,matched⟩ := Reachable.matched (fun client => handle_matches (alike client) (call client)) reached
  exact ⟨mirror,there,matched.committed.symm,matched.history.symm,fun client =>
    (reply_matches platform.decimal (matched.status client)).symm⟩

def refusal (answer : Option (Except ErrorResponse Response)) : Option ErrorResponse :=
  answer.bind fun
    | .error response => some response
    | .ok _ => none

/-- The exchange names its own fault in one world and the caller's in the other. -/
theorem gateway_errors_hidden_pair :
    ∃ config mirror, Reachable sampleServer.engine (samplePlatform.requests
        (sampleMoment fun _ => .error (.externalGateway "exchange" "pool exhausted")) sampleRequests) sample config ∧
      Reachable sampleServer.engine (samplePlatform.requests
        (sampleMoment fun _ => .error (.externalGateway "broker" "bad api key")) sampleRequests) sample mirror ∧
      mirror.history = config.history ∧
      refusal (reply samplePlatform.decimal (mirror.status 0)) = some (.json 502
        [("detail","External service error. Please try again later."),("code","ExternalGatewayError")] []) := by
  have scheduled : (follow sampleServer.engine (samplePlatform.requests
      (sampleMoment fun _ => .error (.externalGateway "exchange" "pool exhausted")) sampleRequests) (List.replicate 19 0)
      (.initial sample)).map (fun config => refusal (reply samplePlatform.decimal (config.status 0))) =
        some (some (.json 502
          [("detail","External service error. Please try again later."),("code","ExternalGatewayError")] [])) := by
    decide +kernel
  obtain ⟨config,followed,refused⟩ := Option.map_eq_some_iff.mp scheduled
  have reached := follow_reachable .refl followed
  have alike (client : Fin 2) : (sampleMoment (fun _ => .error (.externalGateway "exchange" "pool exhausted"))
      client).Alike (sampleMoment (fun _ => .error (.externalGateway "broker" "bad api key")) client) :=
    { now := rfl, accessClock := rfl, refreshClock := rfl, draw := rfl
      exchange := fun _ => .error (.gateway _ _ _ _)
      prices := fun _ => .ok rfl
      bank := fun _ => .ok rfl }
  obtain ⟨mirror,there,_,history,answers⟩ := gateway_errors_hidden sampleServer samplePlatform _ _ alike sampleRequests
    sample config reached
  exact ⟨config,mirror,reached,there,history,(congrArg refusal (answers 0)).trans refused⟩

end CryptoBrokerage
