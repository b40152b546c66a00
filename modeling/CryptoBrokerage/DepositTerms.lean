import CryptoBrokerage.DepositChecks

/-! What the database keeps of the terms of a deposit until it is confirmed. -/
namespace CryptoBrokerage
open Transaction (Program Engine View Receipt)

def DepositRequest.inFlight (request : DepositRequest) (id : Uuid) (externalTransferId : String) (createdAt : Timestamp) :
    CryptoBrokerage.Transaction :=
  { id, userId := request.userId, transactionType := .deposit, status := .processing
    referenceId := some externalTransferId, createdAt }

/-- Two states that come from one, and whose new transactions differ at most in
their ids and times. -/
def Indistinguishable (before first second : Database) : Prop :=
  (∀ t, t ≠ .transactions → first t = second t) ∧ ∃ row other : CryptoBrokerage.Transaction,
    first .transactions = before .transactions ++ [row] ∧ second .transactions = before .transactions ++ [other] ∧
      other = { row with id := other.id, createdAt := other.createdAt }

section Runs
variable {Client : Type} {server : Server Client} {client : Client}
  {gateway : InitiatedTransfer → Except Exception TransferInitiation} {request : DepositRequest} {db : Database}

theorem run_initiate_ok {bankAccount : BankAccount} {transaction : CryptoBrokerage.Transaction} {view last : View sql Database}
    {result : DepositResult} (keyed : view.db.Keyed) (placed : transaction ∈ view.db .transactions)
    (ran : server.engine.run client (BankingService.initiate gateway request bankAccount transaction) view =
      (.ok result,last)) :
    result.transactionId = transaction.id ∧ last.db = view.db.replace .transactions
      { transaction with status := .processing, referenceId := some result.externalTransferId } := by
  obtain ⟨transfer,called,call,rest⟩ := Engine.run_bind_ok _ ran
  obtain ⟨_,sent,send,answer⟩ := Engine.run_bind_ok _ call
  obtain ⟨_,same⟩ := run_read_ok rfl send
  obtain rfl : sent = called := congrArg Prod.snd answer
  have moved : ∃ issued, server.engine.run client (TransactionRepository.updateStatus transaction .processing
      (some transfer.externalTransferId)) sent = (.ok { transaction with
        status := .processing, referenceId := some transfer.externalTransferId },⟨sent.db.replace .transactions
          { transaction with status := .processing, referenceId := some transfer.externalTransferId },issued⟩) :=
    run_update_stored (same ▸ keyed) (same ▸ placed) fun _ _ => rfl
  obtain ⟨issued,updated⟩ := moved
  rw [Engine.run_bind,updated] at rest
  cases rest
  exact ⟨rfl,by rw [same]⟩

/-- A deposit that returns leaves one transaction, and of the request only its user. -/
theorem transact_depositFunds_ok {result : DepositResult} (keyed : db.Keyed)
    (accepted : (server.engine.transact client (BankingService.depositFunds gateway request) db).outcome = .ok result) :
    (server.engine.transact client (BankingService.depositFunds gateway request) db).after = db.insert .transactions
      (request.inFlight result.transactionId result.externalTransferId (server.now client)) := by
  rw [Engine.transact_outcome] at accepted
  rcases ran : server.engine.run client (BankingService.depositFunds gateway request) ⟨db,[]⟩ with ⟨outcome,last⟩
  rw [ran] at accepted
  subst accepted
  rw [Engine.transact_ok _ ran]
  obtain ⟨bankAccount,sourced,check,rest⟩ := Engine.run_bind_ok _ ran
  obtain ⟨_,_,_,same⟩ := run_source_ok check
  obtain ⟨row,created,create,rest⟩ := Engine.run_bind_ok _ rest
  obtain ⟨turn,stored,valid,after⟩ := run_add_ok (fun _ => rfl) create
  rw [same] at valid after
  obtain ⟨outcome,tried,attempt,rest⟩ := Engine.run_bind_ok _ rest
  rw [Engine.run_attempt] at attempt
  rcases initiated : server.engine.run client (BankingService.initiate gateway request bankAccount row) created with
    ⟨error | value,middle⟩
  · rw [initiated] at attempt
    cases attempt
    obtain ⟨_,_,_,raised⟩ := Engine.run_bind_ok _ rest
    cases raised
  · rw [initiated] at attempt
    cases attempt
    cases rest
    have fresh := Database.fresh_of_valid valid
    have keyed' : created.db.Keyed := by
      rw [after]
      exact keyed.insert (Database.violated_none valid).1
    have placed : row ∈ created.db .transactions := by
      rw [after,Database.insert_self]
      simp
    obtain ⟨named,written⟩ := run_initiate_ok keyed' placed initiated
    have left : middle.db = db.insert .transactions
        { row with status := .processing, referenceId := some result.externalTransferId } := by
      rw [written,after]
      exact Database.replace_insert fresh rfl
    change middle.db = _
    rw [left,named]
    cases stored
    rfl

end Runs

/-- Two deposits of a user that get the same transfer id leave the same state but
for the id and the time of the transaction, whatever their amounts and currencies
are: no state determines the terms. -/
theorem deposit_terms_lost {Client : Type} (server other : Server Client) (client : Client)
    (gateway bank : InitiatedTransfer → Except Exception TransferInitiation) (request second : DepositRequest)
    (user : second.userId = request.userId) (db : Database) (keyed : db.Keyed) (result again : DepositResult)
    (accepted : (server.engine.transact client (BankingService.depositFunds gateway request) db).outcome = .ok result)
    (repeated : (other.engine.transact client (BankingService.depositFunds bank second) db).outcome = .ok again)
    (same : again.externalTransferId = result.externalTransferId) :
    let first := (server.engine.transact client (BankingService.depositFunds gateway request) db).after
    let last := (other.engine.transact client (BankingService.depositFunds bank second) db).after
    Indistinguishable db first last ∧
      (again.transactionId = result.transactionId → other.now client = server.now client → last = first) := by
  intro first last
  have left : first = _ := transact_depositFunds_ok keyed accepted
  have right : last = _ := transact_depositFunds_ok keyed repeated
  rw [left,right]
  refine ⟨⟨fun t different => ?_,_,_,Database.insert_self _ _ _,Database.insert_self _ _ _,?_⟩,fun id now => ?_⟩
  · rw [Database.insert_other _ _ different,Database.insert_other _ _ different]
  · simp only [DepositRequest.inFlight,user,same]
  · simp only [DepositRequest.inFlight,user,same,id,now]

def sampleDollars : DepositRequest := { sampleDeposit with amount := 200, currency := "USD" }

def sampleAccepted (request : DepositRequest) : Receipt sql Database DepositResult :=
  sampleServer.engine.transact oneClient (BankingService.depositFunds (fun _ => .ok sampleTransfer) request) sampleBank

theorem sampleBank_keyed : sampleBank.Keyed := sample_keyed.insert rfl

theorem deposit_terms_lost_pair :
    Indistinguishable sampleBank (sampleAccepted sampleDeposit).after (sampleAccepted sampleDollars).after :=
  (deposit_terms_lost sampleServer sampleServer 0 (fun _ => .ok sampleTransfer) (fun _ => .ok sampleTransfer) sampleDeposit
    sampleDollars rfl sampleBank sampleBank_keyed ⟨102,"t1",.processing⟩ ⟨102,"t1",.processing⟩ (by decide +kernel)
    (by decide +kernel) rfl).1

/-- Deposits of 100 BRL and of 200 USD leave one and the same state. -/
theorem deposit_terms_unknown :
    sampleDeposit.amount ≠ sampleDollars.amount ∧ sampleDeposit.currency ≠ sampleDollars.currency ∧
      (sampleAccepted sampleDeposit).outcome = .ok ⟨102,"t1",.processing⟩ ∧
      (sampleAccepted sampleDollars).outcome = .ok ⟨102,"t1",.processing⟩ ∧
      (sampleAccepted sampleDollars).after = (sampleAccepted sampleDeposit).after := by
  have first : (sampleAccepted sampleDeposit).outcome = .ok ⟨102,"t1",.processing⟩ := by decide +kernel
  have second : (sampleAccepted sampleDollars).outcome = .ok ⟨102,"t1",.processing⟩ := by decide +kernel
  refine ⟨by decide +kernel,by decide +kernel,first,second,?_⟩
  unfold sampleAccepted at first second ⊢
  rw [transact_depositFunds_ok sampleBank_keyed first,transact_depositFunds_ok sampleBank_keyed second]
  rfl

end CryptoBrokerage
