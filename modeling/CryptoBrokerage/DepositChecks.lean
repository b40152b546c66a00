import CryptoBrokerage.BankingService

/-! The conditions under which a deposit calls the bank, against those that it
documents. -/
namespace CryptoBrokerage
open Transaction (Program Engine View Receipt)

namespace DepositRequest
variable (request : DepositRequest)

def HasAccount (db : Database) : Prop :=
  ∃ account ∈ db .accounts, account.userId = request.userId ∧ account.currency = request.currency

instance (db : Database) : Decidable (request.HasAccount db) := by
  unfold HasAccount
  infer_instance

/-- The bank account is the user's and active, and there is an account to credit a positive amount to. -/
def Valid (db : Database) : Prop :=
  ∃ bankAccount, db.find .bankAccounts request.bankAccountId = some bankAccount ∧ bankAccount.userId = request.userId ∧
    bankAccount.status = .active ∧ request.HasAccount db ∧ 0 < request.amount

/-- Only a valid deposit calls the bank, and any other raises before its transaction is written. -/
def Guarded (receipt : Receipt sql Database DepositResult) : Prop :=
  ((∃ transfer, .initiateTransfer transfer ∈ receipt.issued) → request.Valid receipt.before) ∧
    (¬request.Valid receipt.before → (∃ error, receipt.outcome = .error error) ∧
      ∀ row, .insert .transactions row ∉ receipt.issued)

end DepositRequest

section Source
variable {Client : Type} {server : Server Client} {client : Client} {request : DepositRequest} {view last : View sql Database}
  {bankAccount : BankAccount}

theorem hasAccount_iff {db : Database} :
    request.HasAccount db ↔ (db.accountOf request.userId request.currency).isSome := by
  simp [DepositRequest.HasAccount,Database.accountOf,List.find?_isSome]

theorem run_source_ok (ran : server.engine.run client request.source view = (.ok bankAccount,last)) :
    view.db.find .bankAccounts request.bankAccountId = some bankAccount ∧ bankAccount.userId = request.userId ∧
      request.HasAccount view.db ∧ last.db = view.db := by
  unfold DepositRequest.source at ran
  rw [Engine.run_bind,run_getById] at ran
  cases stored : view.db.find .bankAccounts request.bankAccountId with
  | none =>
    rw [stored] at ran
    cases ran
  | some row =>
    simp only [stored] at ran
    by_cases owned : row.userId = request.userId
    · rw [if_neg (not_not.mpr owned),Engine.run_bind,run_getByUserAndCurrency] at ran
      cases listed : view.db.accountOf request.userId request.currency with
      | none =>
        rw [listed] at ran
        cases ran
      | some first =>
        rw [listed] at ran
        cases ran
        exact ⟨rfl,owned,hasAccount_iff.mpr (by rw [listed]; rfl),rfl⟩
    · rw [if_pos owned] at ran
      cases ran

theorem run_source (found : view.db.find .bankAccounts request.bankAccountId = some bankAccount)
    (owned : bankAccount.userId = request.userId) (account : request.HasAccount view.db) :
    server.engine.run client request.source view = (.ok bankAccount,⟨view.db,view.issued ++
      [.get .bankAccounts request.bankAccountId] ++ [.selectAccount request.userId request.currency]⟩) := by
  obtain ⟨first,listed⟩ := Option.isSome_iff_exists.mp (hasAccount_iff.mp account)
  unfold DepositRequest.source
  rw [Engine.run_bind,run_getById,found]
  simp only [owned,ne_eq,not_true_eq_false,if_false]
  rw [Engine.run_bind,run_getByUserAndCurrency,listed]
  rfl

/-- A deposit whose checks fail has only read. -/
theorem source_reads (request : DepositRequest) (view : View sql Database) :
    ∃ sent, (server.engine.run client request.source view).2.issued = view.issued ++ sent ∧ ∀ op ∈ sent, Reads op :=
  server.engine.run_issued client (source_only (fun _ => id) request) view

end Source

/-- A deposit is guarded exactly if the checks that it makes, of the user's bank
account and account, leave out only an active bank account and a positive amount. -/
theorem deposit_guarded_iff {Client : Type} (server : Server Client) (client : Client)
    (gateway : InitiatedTransfer → Except Exception TransferInitiation) (request : DepositRequest) (db : Database) :
    request.Guarded (server.engine.transact client (BankingService.depositFunds gateway request) db) ↔
      ∀ bankAccount, db.find .bankAccounts request.bankAccountId = some bankAccount →
        bankAccount.userId = request.userId → request.HasAccount db →
          bankAccount.status = .active ∧ 0 < request.amount := by
  unfold DepositRequest.Guarded
  rw [Engine.transact_before,Engine.transact_outcome,Engine.transact_issued]
  constructor
  · intro guarded bankAccount found owned account
    have valid : request.Valid db := by
      by_contra invalid
      have ran := @run_source _ server client request ⟨db,[]⟩ bankAccount found owned account
      apply (guarded.2 invalid).2
      unfold BankingService.depositFunds
      rw [Engine.run_bind,ran]
      exact Engine.run_bind_sent _ (run_add_sent _ _) _
    obtain ⟨other,same,_,active,_,positive⟩ := valid
    cases found.symm.trans same
    exact ⟨active,positive⟩
  · intro complete
    obtain ⟨sent,issued,reads⟩ := @source_reads _ server client request ⟨db,[]⟩
    rcases ran : server.engine.run client request.source ⟨db,[]⟩ with ⟨error | bankAccount,middle⟩
    · have raised : server.engine.run client (BankingService.depositFunds gateway request) ⟨db,[]⟩ =
          (.error error,middle) := by
        unfold BankingService.depositFunds
        rw [Engine.run_bind,ran]
      have only : ∀ op ∈ middle.issued, Reads op := by
        have same : middle.issued = sent := by simpa [ran] using issued
        rwa [same]
      rw [raised]
      refine ⟨?_,fun _ => ⟨⟨error,rfl⟩,fun row member => False.elim (only _ member)⟩⟩
      rintro ⟨transfer,member⟩
      exact False.elim (only _ member)
    · obtain ⟨found,owned,account,_⟩ := run_source_ok ran
      obtain ⟨active,positive⟩ := complete bankAccount found owned account
      have valid : request.Valid db := ⟨bankAccount,found,owned,active,account,positive⟩
      exact ⟨fun _ => valid,fun invalid => absurd valid invalid⟩

def sampleLinked (status : BankAccountStatus) : Database :=
  sample.insert .bankAccounts (⟨51,1,"ana@bank","Bank",status⟩ : BankAccount)

/-- The bank is asked for 100 BRL from an inactive account, and for -100 BRL from an active one. -/
theorem deposit_unguarded :
    let request (amount : ℚ) : DepositRequest := { sampleDeposit with amount }
    let receipt (status : BankAccountStatus) (amount : ℚ) := sampleServer.engine.transact 0
      (BankingService.depositFunds (fun _ => .ok sampleTransfer) (request amount)) (sampleLinked status)
    ((receipt .inactive 100).issued.filterMap Statement.transfer).map InitiatedTransfer.amount = [100] ∧
      ¬(request 100).Guarded (receipt .inactive 100) ∧
      ((receipt .active (-100)).issued.filterMap Statement.transfer).map InitiatedTransfer.amount = [-100] ∧
      ¬(request (-100)).Guarded (receipt .active (-100)) := by
  intro request receipt
  have unguarded (status : BankAccountStatus) (amount : ℚ) (invalid : ¬(request amount).Valid (sampleLinked status))
      (accepted : (receipt status amount).outcome = .ok ⟨102,"t1",.processing⟩) :
      ¬(request amount).Guarded (receipt status amount) := by
    intro guarded
    have before : (receipt status amount).before = sampleLinked status := Engine.transact_before _ _ _ _
    obtain ⟨⟨error,raised⟩,_⟩ := guarded.2 (by rwa [before])
    rw [accepted] at raised
    cases raised
  refine ⟨by decide +kernel,unguarded .inactive 100 ?_ (by decide +kernel),by decide +kernel,
    unguarded .active (-100) ?_ (by decide +kernel)⟩
  · rintro ⟨bankAccount,found,_,active,_⟩
    cases found
    cases active
  · rintro ⟨bankAccount,_,_,_,_,positive⟩
    revert positive
    decide +kernel

end CryptoBrokerage
