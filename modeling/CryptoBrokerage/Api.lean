import CryptoBrokerage.AccountRoutes
import CryptoBrokerage.BankingService
import CryptoBrokerage.Passwords
import CryptoBrokerage.PortfolioService
import CryptoBrokerage.TradingRoutes

/-! The requests of the whole platform: every route with its dependencies, and the
methods of the services without a route around them. A request is one transaction. -/
namespace CryptoBrokerage
open Transaction (Program)

structure BankAccountCreate where
  externalReference : String
  bankName : String
  deriving DecidableEq, Repr

namespace BankAccountCreate
variable (payload : BankAccountCreate)

def fieldErrors : List String :=
  (if 1 ≤ payload.externalReference.length ∧ payload.externalReference.length ≤ 255 then []
    else ["external_reference"]) ++
  (if 1 ≤ payload.bankName.length ∧ payload.bankName.length ≤ 100 then [] else ["bank_name"])

def validate (user : User) : Except Exception BankAccountLink :=
  if payload.fieldErrors = [] then
    .ok { userId := user.id, externalReference := payload.externalReference, bankName := payload.bankName }
  else .error (.requestValidation payload.fieldErrors)

end BankAccountCreate

def linkBankAccount (currentUser : User) (payload : BankAccountCreate) : Action BankAccountLinkResult := do
  let request ← (.done (payload.validate currentUser) : Action BankAccountLink)
  match ← (OnboardingService.linkBankAccount request).attempt with
  | .ok result => pure result
  | .error (.bankAccountAlreadyLinked message) => .raise (.http 409 message)
  | .error error => .raise error

def getMe {α : Type} : Action α := .raise (.http 501 "Use the Authorization header with a valid bearer token.")

structure Platform where
  jwt : Jwt
  settings : Settings
  bcrypt : Bcrypt
  lower : String → String
  upper : String → String
  normalizeEmail : String → Option String
  decimal : ℚ → String
  defaultAccountCurrency : String := "BRL"

/-- What one request finds outside the database: its readings of the clock, its
draw of a salt, and the answers of the exchange and of the bank. -/
structure Moment where
  now : Timestamp
  accessClock : Timestamp × Timestamp
  refreshClock : Timestamp × Timestamp
  draw : ℕ
  exchange : SubmittedOrder → Except Exception OrderSubmission
  prices : List String → Except Exception (String → Option InstrumentPrice)
  bank : InitiatedTransfer → Except Exception TransferInitiation

inductive UserCall
  | listAccounts
  | getBalance (accountId : Uuid)
  | linkBankAccount (payload : BankAccountCreate)
  | listBankAccounts
  | getPortfolio (quoteCurrency : String)
  | createOrder (payload : OrderCreate)
  | getOrder (orderId : Uuid)
  | listOrders (limit offset : Int)
  deriving DecidableEq, Repr

/-- A request. The last four are calls of a service. -/
inductive Call
  | register (payload : UserCreate)
  | login (username password : String)
  | getMe
  | user (token : String) (call : UserCall)
  | executeTrade (request : TradeRequest)
  | depositFunds (request : DepositRequest)
  | confirmDeposit (externalTransferId : String)
  | withdrawFunds (request : WithdrawRequest)

inductive Response
  | registered (result : UserRegistrationResult)
  | tokens (tokens : TokenResponse)
  | accounts (accounts : List AccountRead)
  | account (account : AccountRead)
  | linked (result : BankAccountLinkResult)
  | bankAccounts (bankAccounts : List BankAccount)
  | portfolio (summary : PortfolioSummary)
  | order (order : OrderRead)
  | orders (orders : List OrderRead)
  | traded (order : Order)
  | deposited (result : DepositResult)
  | confirmed
  | withdrawn (result : WithdrawResult)

namespace Platform
variable (platform : Platform) (moment : Moment)

def onboarding : OnboardingService :=
  { lower := platform.lower, hashPassword := hashPassword platform.bcrypt moment.draw
    defaultAccountCurrency := platform.defaultAccountCurrency }

def answer (currentUser : User) : UserCall → Action Response
  | .listAccounts => .accounts <$> CryptoBrokerage.listAccounts currentUser
  | .getBalance accountId => .account <$> CryptoBrokerage.getBalance currentUser accountId
  | .linkBankAccount payload => .linked <$> CryptoBrokerage.linkBankAccount currentUser payload
  | .listBankAccounts => .bankAccounts <$> CryptoBrokerage.listBankAccounts currentUser
  | .getPortfolio quoteCurrency => .portfolio <$> CryptoBrokerage.getPortfolio moment.prices currentUser quoteCurrency
  | .createOrder payload => do
    .done payload.validate
    .order <$> CryptoBrokerage.createOrder platform.decimal moment.exchange moment.now currentUser payload
  | .getOrder orderId => .order <$> CryptoBrokerage.getOrder currentUser orderId
  | .listOrders limit offset => .orders <$> CryptoBrokerage.listOrders currentUser limit offset

/-- The current user is resolved before the payload is validated. -/
def handle : Call → Action Response
  | .register payload =>
    .registered <$> register platform.normalizeEmail platform.upper (platform.onboarding moment) payload
  | .login username password =>
    .tokens <$> CryptoBrokerage.login platform.jwt platform.settings platform.lower (verifyPassword platform.bcrypt)
      moment.accessClock moment.refreshClock username password
  | .getMe => CryptoBrokerage.getMe
  | .user token call => do
    let currentUser ← getCurrentUser platform.jwt platform.settings moment.now token
    platform.answer moment currentUser call
  | .executeTrade request => .traded <$> (TradingService.init moment.exchange moment.now).executeTrade request
  | .depositFunds request => .deposited <$> BankingService.depositFunds moment.bank request
  | .confirmDeposit externalTransferId => do
    BankingService.confirmDeposit externalTransferId
    pure .confirmed
  | .withdrawFunds request => .withdrawn <$> BankingService.withdrawFunds request

def requests {Client : Type} (moment : Client → Moment) (call : Client → Call) (client : Client) : Action Response :=
  platform.handle (moment client) (call client)

theorem requests_congr {Client : Type} {platform : Platform} {moment other : Client → Moment} {call another : Client → Call}
    {client : Client} (same : other client = moment client ∧ another client = call client) :
    platform.requests other another client = platform.requests moment call client := by
  rw [requests,same.1,same.2,requests]

end Platform

/-- The statements that neither write nor take a resource, nor call a gateway that acts. -/
def Looks (statement : Statement) : Prop :=
  match statement with
  | .submitOrder _ | .initiateTransfer _ | .insert _ _ | .update _ _ _ | .selectAccountForUpdate _ => False
  | _ => True

section Reading
variable {allowed : Statement → Prop}

theorem only_map {α β : Type} (f : α → β) {program : Action α} (only : program.Only allowed) :
    (f <$> program).Only allowed := by
  rw [map_eq_pure_bind]
  exact Program.Only.bind only fun _ => trivial

theorem only_mapM {α β : Type} {program : α → Action β} (items : List α)
    (only : ∀ item ∈ items, (program item).Only allowed) : (items.mapM program).Only allowed := by
  induction items with
  | nil => trivial
  | cons item rest ih =>
    rw [List.mapM_cons]
    refine Program.Only.bind (only item List.mem_cons_self) fun _ => ?_
    exact Program.Only.bind (ih fun other member => only other (List.mem_cons_of_mem _ member)) fun _ => trivial

variable (looks : ∀ op, Looks op → allowed op)
include looks

theorem sends_look {op : Statement} (look : Looks op) : (send op).Only allowed :=
  (Program.only_perform (S := sql) op).mpr (looks op look)

theorem getCurrentUser_looks (jwt : Jwt) (settings : Settings) (now : Timestamp) (token : String) :
    (getCurrentUser jwt settings now token).Only allowed := by
  refine Program.Only.bind (Program.only_done _) fun id => Program.Only.bind (sends_look looks trivial) fun found => ?_
  cases found with
  | none => trivial
  | some user =>
    change (if _ then _ else _ : Action User).Only allowed
    split <;> trivial

theorem login_looks (jwt : Jwt) (settings : Settings) (lower : String → String)
    (verify : String → String → Except Exception Bool) (access refresh : Timestamp × Timestamp)
    (username password : String) : (login jwt settings lower verify access refresh username password).Only allowed := by
  refine Program.Only.bind (sends_look looks trivial) fun found => ?_
  cases found with
  | none => trivial
  | some user =>
    refine Program.Only.bind (Program.only_done _) fun verified => ?_
    change (if _ then _ else if _ then _ else _ : Action TokenResponse).Only allowed
    split
    · trivial
    · split <;> trivial

theorem accountBalance_looks (id : Uuid) : (AccountRepository.getBalance id).Only allowed :=
  Program.Only.bind (sends_look looks trivial) fun _ => Program.Only.bind (sends_look looks trivial) fun _ => trivial

theorem listAccounts_looks (user : User) : (listAccounts user).Only allowed :=
  Program.Only.bind (sends_look looks trivial) fun accounts => only_mapM accounts fun account _ =>
    Program.Only.bind (accountBalance_looks looks account.id) fun _ => trivial

theorem getBalance_looks (user : User) (id : Uuid) : (getBalance user id).Only allowed := by
  refine Program.Only.bind (sends_look looks trivial) fun found => ?_
  cases found with
  | none => trivial
  | some account =>
    change (if _ then _ else _ : Action AccountRead).Only allowed
    split
    · trivial
    · exact Program.Only.bind (accountBalance_looks looks account.id) fun _ => trivial

theorem getOrder_looks (user : User) (id : Uuid) : (getOrder user id).Only allowed := by
  refine Program.Only.bind (sends_look looks trivial) fun found => ?_
  cases found with
  | none => trivial
  | some order =>
    change (if _ then _ else _ : Action OrderRead).Only allowed
    split <;> trivial

theorem listOrders_looks (user : User) (limit offset : Int) : (listOrders user limit offset).Only allowed :=
  Program.Only.bind (sends_look looks trivial) fun orders => only_mapM orders fun _ _ => trivial

theorem resolveAssets_looks (positions : List Position) (assets : AssetMap) :
    (PortfolioService.resolveAssets positions assets).Only allowed := by
  induction positions generalizing assets with
  | nil => trivial
  | cons position rest ih =>
    refine Program.Only.bind (sends_look looks trivial) fun found => ?_
    cases found with
    | none => exact ih _
    | some asset => exact ih _

theorem fetchPrices_looks (gateway : List String → Except Exception (String → Option InstrumentPrice))
    (symbols : List String) : (PortfolioService.fetchPrices gateway symbols).Only allowed := by
  unfold PortfolioService.fetchPrices
  split
  · trivial
  · refine Program.Only.bind (Program.Only.attempt ?_) fun answer => ?_
    · exact Program.Only.bind (sends_look looks trivial) fun _ => trivial
    · cases answer <;> trivial

theorem cashBalance_looks (userId : Uuid) (currency : String) :
    (PortfolioService.cashBalance userId currency).Only allowed := by
  refine Program.Only.bind (sends_look looks trivial) fun found => ?_
  cases found with
  | none => trivial
  | some account => exact accountBalance_looks looks account.id

theorem getPortfolio_looks (gateway : List String → Except Exception (String → Option InstrumentPrice)) (user : User)
    (currency : String) : (getPortfolio gateway user currency).Only allowed := by
  refine Program.Only.bind (sends_look looks trivial) fun positions => ?_
  cases positions with
  | nil => trivial
  | cons position rest =>
    refine Program.Only.bind (resolveAssets_looks looks _ _) fun assets => ?_
    refine Program.Only.bind (fetchPrices_looks looks gateway _) fun prices => ?_
    refine Program.Only.bind (Program.only_done _) fun totals => ?_
    exact Program.Only.bind (cashBalance_looks looks _ _) fun _ => Program.Only.bind (Program.only_done _) fun _ => trivial

end Reading

def Call.Places : Call → TradeRequest → Prop
  | .user _ (.createOrder payload), request => ∃ user, payload.request user = request
  | .executeTrade placed, request => placed = request
  | _, _ => False

def UserCall.reads : UserCall → Bool
  | .createOrder _ | .linkBankAccount _ => false
  | _ => true

theorem answer_looks {allowed : Statement → Prop} (looks : ∀ op, Looks op → allowed op) (platform : Platform)
    (moment : Moment) (user : User) {call : UserCall} (reads : call.reads = true) :
    (platform.answer moment user call).Only allowed := by
  cases call with
  | listAccounts => exact only_map _ (listAccounts_looks looks user)
  | getBalance id => exact only_map _ (getBalance_looks looks user id)
  | listBankAccounts => exact only_map _ (sends_look looks trivial)
  | getPortfolio currency => exact only_map _ (getPortfolio_looks looks moment.prices user currency)
  | getOrder id => exact only_map _ (getOrder_looks looks user id)
  | listOrders limit offset => exact only_map _ (listOrders_looks looks user limit offset)
  | createOrder payload => cases reads
  | linkBankAccount payload => cases reads

/-- The statements of all requests but the placing of an order. -/
structure Serving (allowed : Statement → Prop) : Prop where
  reads : ∀ op, Reads op → allowed op
  inserts : ∀ t, t ≠ .orders → ∀ row, allowed (.insert t row)
  updates : ∀ id set, allowed (.update .transactions id set)
  transfers : ∀ transfer, allowed (.initiateTransfer transfer)

section Serving
variable {allowed : Statement → Prop} (serving : Serving allowed)
include serving

theorem Serving.looks {op : Statement} (look : Looks op) : allowed op := by
  cases op with
  | insert t row => exact look.elim
  | update t id set => exact look.elim
  | submitOrder order => exact look.elim
  | initiateTransfer transfer => exact look.elim
  | selectAccountForUpdate id => exact look.elim
  | _ => exact serving.reads _ trivial

theorem register_only (normalizeEmail : String → Option String) (upper : String → String)
    (service : OnboardingService) (payload : UserCreate) :
    (register normalizeEmail upper service payload).Only allowed := by
  have added {t : Table} (other : t ≠ .orders) (entity : Uuid → t.Row) : (BaseRepository.add t entity).Only allowed :=
    add_only serving.reads fun _ => serving.inserts t other _
  refine Program.Only.bind (Program.only_done _) fun request => ?_
  refine Program.Only.bind (Program.Only.attempt ?_) fun answer => ?_
  · refine Program.Only.bind (Program.Only.bind (sends_look (fun _ => serving.looks) trivial) fun _ => trivial) fun taken => ?_
    cases taken with
    | true => trivial
    | false =>
      refine Program.Only.bind (Program.only_done _) fun _ => Program.Only.bind ?_ fun _ =>
        Program.Only.bind (added (by decide) _) fun _ => trivial
      exact Program.Only.bind (added (by decide) _) fun _ => Program.Only.bind (added (by decide) _) fun _ => trivial
  · split <;> trivial

theorem linkBankAccount_only (user : User) (payload : BankAccountCreate) :
    (linkBankAccount user payload).Only allowed := by
  refine Program.Only.bind (Program.only_done _) fun request => ?_
  refine Program.Only.bind (Program.Only.attempt ?_) fun answer => ?_
  · refine Program.Only.bind (sends_look (fun _ => serving.looks) trivial) fun found => ?_
    cases found with
    | none =>
      refine Program.Only.bind (add_only serving.reads fun _ => ?_) fun _ => trivial
      exact serving.inserts .bankAccounts (by decide) _
    | some bankAccount => trivial
  · split <;> trivial

theorem updateTransaction_only (row : CryptoBrokerage.Transaction) (status : TransactionStatus)
    (referenceId : Option String) : (TransactionRepository.updateStatus row status referenceId).Only allowed :=
  update_only serving.reads fun _ => serving.updates _ _

theorem depositFunds_only (bank : InitiatedTransfer → Except Exception TransferInitiation)
    (request : DepositRequest) : (BankingService.depositFunds bank request).Only allowed := by
  refine Program.Only.bind (source_only serving.reads request) fun bankAccount => ?_
  refine Program.Only.bind (add_only serving.reads fun _ => serving.inserts .transactions (by decide) _) fun row => ?_
  refine Program.Only.bind (Program.Only.attempt ?_) fun answer => ?_
  · refine Program.Only.bind (Program.Only.bind ((Program.only_perform (S := sql) _).mpr (serving.transfers _)) fun _ =>
      Program.only_done _) fun transfer => ?_
    exact Program.Only.bind (updateTransaction_only serving _ _ _) fun _ => trivial
  · cases answer with
    | ok result => trivial
    | error error => exact Program.Only.bind (updateTransaction_only serving _ _ none) fun _ => trivial

theorem confirmDeposit_only (externalTransferId : String) :
    (BankingService.confirmDeposit externalTransferId).Only allowed := by
  refine Program.Only.bind (sends_look (fun _ => serving.looks) trivial) fun found => ?_
  cases found with
  | none => trivial
  | some row =>
    change (if _ then _ else if _ then _ else _ : Action Unit).Only allowed
    split
    · trivial
    · split
      · trivial
      · exact Program.Only.bind (updateTransaction_only serving _ _ none) fun _ => trivial

theorem withdrawFunds_only (request : WithdrawRequest) : (BankingService.withdrawFunds request).Only allowed := by
  refine Program.Only.bind (sends_look (fun _ => serving.looks) trivial) fun id => Program.Only.bind ?_ fun pair => ?_
  · refine Program.Only.bind ((Program.only_perform (S := sql) _).mpr (serving.reads _ trivial)) fun found => ?_
    cases found with
    | none => trivial
    | some account => exact Program.Only.bind (accountBalance_looks (fun _ => serving.looks) id) fun _ => trivial
  · change (if _ then _ else _ : Action WithdrawResult).Only allowed
    split <;> trivial

omit serving in
theorem createOrder_only {decimal : ℚ → String} {exchange : SubmittedOrder → Except Exception OrderSubmission}
    {now : Timestamp} {user : User} {payload : OrderCreate}
    (only : ((TradingService.init exchange now).executeTrade (payload.request user)).Only allowed) :
    (createOrder decimal exchange now user payload).Only allowed := by
  refine Program.Only.bind (Program.Only.attempt (Program.Only.bind only fun _ => trivial)) fun answer => ?_
  split
  · trivial
  · split <;> trivial

/-- All requests send statements of one kind if the trades that they place do. -/
theorem handle_only (platform : Platform) (moment : Moment) {call : Call}
    (trades : ∀ request, call.Places request →
      ((TradingService.init moment.exchange moment.now).executeTrade request).Only allowed) :
    (platform.handle moment call).Only allowed := by
  cases call with
  | register payload => exact only_map _ (register_only serving _ _ _ payload)
  | login username password => exact only_map _ (login_looks (fun _ => serving.looks) ..)
  | getMe => trivial
  | user token call =>
    refine Program.Only.bind (getCurrentUser_looks (fun _ => serving.looks) ..) fun currentUser => ?_
    cases call with
    | createOrder payload =>
      exact Program.Only.bind (Program.only_done _) fun _ => only_map _ (createOrder_only (trades _ ⟨currentUser,rfl⟩))
    | linkBankAccount payload => exact only_map _ (linkBankAccount_only serving currentUser payload)
    | _ => exact answer_looks (fun _ => serving.looks) platform moment currentUser rfl
  | executeTrade request => exact only_map _ (trades request rfl)
  | depositFunds request => exact only_map _ (depositFunds_only serving moment.bank request)
  | confirmDeposit externalTransferId =>
    exact Program.Only.bind (confirmDeposit_only serving externalTransferId) fun _ => trivial
  | withdrawFunds request => exact only_map _ (withdrawFunds_only serving request)

end Serving

def sampleBearer : Jwt where
  encode _ _ _ := ""
  decode _ token _ _ :=
    if token = "ana" then some [("sub",.text (str 1))]
    else if token = "bruno" then some [("sub",.text (str 2))]
    else none

def samplePlatform : Platform :=
  { jwt := sampleBearer, settings := {}, bcrypt := sampleBcrypt, lower := lowered, upper := id
    normalizeEmail := some, decimal := toString }

def sampleMoment (exchange : SubmittedOrder → Except Exception OrderSubmission) (_ : Fin 2) : Moment :=
  { now := 0, accessClock := (0,0), refreshClock := (0,0), draw := 0, exchange, prices := fun _ => .ok fun _ => none
    bank := fun _ => .ok sampleTransfer }

def sampleCalls (client : Fin 2) : Call :=
  .executeTrade { sampleBuy with idempotencyKey := if client = oneClient then "k1" else "k2" }

def sampleRequests (client : Fin 2) : Call :=
  .user "ana" (.createOrder { samplePayload with idempotencyKey := if client = oneClient then "k1" else "k2" })

end CryptoBrokerage
