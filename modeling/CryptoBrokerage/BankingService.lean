import CryptoBrokerage.TradingService

/-! `BankingService`: deposits and their confirmation, and the beginning of a
withdrawal. The bank is a function from the initiated transfer to its answer. -/
namespace CryptoBrokerage
open Transaction (Program)

structure DepositRequest where
  userId : Uuid
  bankAccountId : Uuid
  amount : ℚ
  currency : String
  deriving DecidableEq, Repr

structure DepositResult where
  transactionId : Uuid
  externalTransferId : String
  status : TransactionStatus
  deriving DecidableEq, Repr

structure WithdrawRequest where
  userId : Uuid
  bankAccountId : Uuid
  amount : ℚ
  currency : String
  deriving DecidableEq, Repr

structure WithdrawResult where
  transactionId : Uuid
  externalTransferId : String
  status : TransactionStatus
  deriving DecidableEq, Repr

namespace DepositRequest
variable (request : DepositRequest)

def transfer (bankAccount : BankAccount) (transactionId : Uuid) : InitiatedTransfer :=
  { externalReference := bankAccount.externalReference, amount := request.amount
    currency := request.currency, direction := "INBOUND"
    description := s!"Deposit for transaction {str transactionId}" }

def bankAccountNotFound : Exception :=
  .bankAccountNotFound s!"Bank account {str request.bankAccountId} not found for user {str request.userId}."

def accountNotFound : Exception :=
  .accountNotFound
    s!"No {request.currency} account found for user {str request.userId}. Create one before depositing."

/-- The checks of a deposit. The status of the bank account is not among them. -/
def source : Action BankAccount := do
  match ← BaseRepository.getById .bankAccounts request.bankAccountId with
  | none => .raise request.bankAccountNotFound
  | some bankAccount =>
    if bankAccount.userId ≠ request.userId then .raise request.bankAccountNotFound
    else
      match ← AccountRepository.getByUserAndCurrency request.userId request.currency with
      | none => .raise request.accountNotFound
      | some _ => pure bankAccount

end DepositRequest

namespace BankingService
variable (gateway : InitiatedTransfer → Except Exception TransferInitiation)

def initiateTransfer (transfer : InitiatedTransfer) : Action TransferInitiation := do
  send (.initiateTransfer transfer)
  .done (gateway transfer)

def initiate (request : DepositRequest) (bankAccount : BankAccount)
    (transaction : CryptoBrokerage.Transaction) : Action DepositResult := do
  let transfer ← initiateTransfer gateway (request.transfer bankAccount transaction.id)
  let transaction ← TransactionRepository.updateStatus transaction .processing
    (some transfer.externalTransferId)
  pure ⟨transaction.id,transfer.externalTransferId,transaction.status⟩

def depositFunds (request : DepositRequest) : Action DepositResult := do
  let bankAccount ← request.source
  let transaction ← TransactionRepository.create request.userId .deposit none
  match ← (initiate gateway request bankAccount transaction).attempt with
  | .ok result => pure result
  | .error error =>
    let _ ← TransactionRepository.updateStatus transaction .failed
    .raise error

def confirmDeposit (externalTransferId : String) : Action Unit := do
  match ← TransactionRepository.getByReference externalTransferId with
  | none => pure ()
  | some transaction =>
    if transaction.status = .completed then pure ()
    else if transaction.status = .failed then pure ()
    else
      -- no ledger entry is posted here
      let _ ← TransactionRepository.updateStatus transaction .completed
      pure ()

/-- What stands for steps 4 to 7 of a withdrawal. -/
def notImplemented : Exception :=
  .notImplemented ("withdraw_funds: steps 4–7 not yet implemented. " ++
    "See banking_service.py docstring for the full algorithm.")

/-- Steps 1 to 3. Neither the user nor the currency selects the account. -/
def withdrawFunds (request : WithdrawRequest) : Action WithdrawResult := do
  let accountId ← send .uuid4
  let (_,balance) ← AccountRepository.getBalanceForUpdate accountId
  if balance < request.amount then .raise (.insufficientFunds balance request.amount request.currency)
  else .raise notImplemented

end BankingService

theorem source_only {allowed : Statement → Prop} (reads : ∀ op, Reads op → allowed op)
    (request : DepositRequest) : request.source.Only allowed := by
  refine Program.Only.bind ((Program.only_perform _).mpr (reads _ trivial)) fun found => ?_
  cases found with
  | none => trivial
  | some bankAccount =>
    change (if _ then _ else _ : Action BankAccount).Only allowed
    split
    · trivial
    · refine Program.Only.bind ((Program.only_perform _).mpr (reads _ trivial)) fun account => ?_
      cases account <;> trivial

namespace Server
variable {Client : Type} {server : Server Client} {client : Client} {db : Database} {referenceId : String}

def referred (server : Server Client) (client : Client) (db : Database) (referenceId : String) :
    Option CryptoBrokerage.Transaction :=
  (server.first client 0).pick ((db .transactions).filter fun transaction => transaction.referenceId == some referenceId)

theorem referred_some {row : CryptoBrokerage.Transaction} (found : server.referred client db referenceId = some row) :
    row ∈ db .transactions ∧ row.referenceId = some referenceId := by
  obtain ⟨present,carries⟩ := List.mem_filter.mp ((server.first client 0).member found)
  exact ⟨present,by simpa using carries⟩

theorem referred_none (missing : server.referred client db referenceId = none) :
    ∀ row ∈ db .transactions, row.referenceId ≠ some referenceId := by
  intro row present carries
  have empty := List.filter_eq_nil_iff.mp ((server.first client 0).absent missing) row present
  simp [carries] at empty

/-- The only row with the reference is the one returned. -/
theorem referred_only {row : CryptoBrokerage.Transaction} (present : row ∈ db .transactions)
    (carries : row.referenceId = some referenceId)
    (only : ∀ other ∈ db .transactions, other.referenceId = some referenceId → other = row) :
    server.referred client db referenceId = some row := by
  cases found : server.referred client db referenceId with
  | none => exact absurd carries (referred_none found row present)
  | some other =>
    obtain ⟨member,named⟩ := referred_some found
    rw [only other member named]

end Server

def Statement.transfer : Statement → Option InitiatedTransfer
  | .initiateTransfer transfer => some transfer
  | _ => none

def Statement.lookup : Statement → Option String
  | .selectTransaction referenceId => some referenceId
  | _ => none

inductive Movement
  | deposit (request : DepositRequest)
  | confirm (externalTransferId : String)
  | trade (request : TradeRequest)
  deriving DecidableEq, Repr

section Movements
variable {Client : Type} (bank : Client → InitiatedTransfer → Except Exception TransferInitiation)
  (exchange : Client → SubmittedOrder → Except Exception OrderSubmission) (now : Client → Timestamp)
  (movement : Client → Movement)

def movements (client : Client) : Action (Option DepositResult) :=
  match movement client with
  | .deposit request => do
    let result ← BankingService.depositFunds (bank client) request
    pure (some result)
  | .confirm externalTransferId => do
    BankingService.confirmDeposit externalTransferId
    pure none
  | .trade request => do
    let _ ← (TradingService.init (exchange client) (now client)).executeTrade request
    pure none

end Movements

def sampleBank : Database := sample.insert .bankAccounts (⟨51,1,"ana@bank","Bank",.active⟩ : BankAccount)

def sampleDeposit : DepositRequest := ⟨1,51,100,"BRL"⟩

def sampleTransfer : TransferInitiation := ⟨"t1","PENDING"⟩

end CryptoBrokerage
