import CryptoBrokerage.BankingService

/-! What a confirmation changes. `confirm_deposit` looks a transaction up by its
reference alone, which trades and deposits share. -/
namespace CryptoBrokerage
open Transaction (Program Engine View Receipt)

def Transaction.Confirmable (externalTransferId : String) (row : CryptoBrokerage.Transaction) : Prop :=
  row.transactionType = .deposit ∧ row.referenceId = some externalTransferId ∧
    (row.status = .pending ∨ row.status = .processing)

instance (externalTransferId : String) (row : CryptoBrokerage.Transaction) :
    Decidable (row.Confirmable externalTransferId) := inferInstanceAs (Decidable (_ ∧ _ ∧ _))

def Transaction.completed (row : CryptoBrokerage.Transaction) : CryptoBrokerage.Transaction :=
  { row with status := .completed }

/-- At most the status of one pending deposit with the reference has become
COMPLETED; a trade or a terminal transaction is as it was. -/
def ConfirmsOnly (externalTransferId : String) (receipt : Receipt sql Database Unit) : Prop :=
  (receipt.after = receipt.before ∨ ∃ row ∈ receipt.before .transactions, row.Confirmable externalTransferId ∧
    receipt.after = receipt.before.replace .transactions row.completed) ∧
  ∀ row ∈ receipt.before .transactions, row.transactionType = .trade ∨ row.status.isTerminal →
    row ∈ receipt.after .transactions

section Rows
variable {db : Database} {row other : CryptoBrokerage.Transaction}

theorem mem_completed (member : other ∈ (db.replace .transactions row.completed) .transactions)
    (live : other.status ≠ .completed) : other ∈ db .transactions ∧ other.id ≠ row.id := by
  rw [Database.replace_self,List.mem_map] at member
  obtain ⟨old,present,same⟩ := member
  by_cases key : old.id = row.id
  · have replaced : row.completed = other := (if_pos key).symm.trans same
    exact absurd (replaced ▸ rfl) live
  · have kept : old = other := (if_neg key).symm.trans same
    subst kept
    exact ⟨present,key⟩

theorem completed_keeps (keyed : db.Keyed) (present : row ∈ db .transactions) (member : other ∈ db .transactions)
    (different : other ≠ row) : other ∈ (db.replace .transactions row.completed) .transactions := by
  rw [Database.replace_self,List.mem_map]
  exact ⟨other,member,if_neg fun key => different (keyed.same present member key)⟩

end Rows

section Runs
variable {Client : Type} {server : Server Client} {client : Client} {db : Database} {externalTransferId : String}

theorem run_lookup (referenceId : String) :
    server.engine.run client (TransactionRepository.getByReference referenceId) ⟨db,[]⟩ =
      (.ok (server.referred client db referenceId),⟨db,[.selectTransaction referenceId]⟩) := rfl

theorem transact_confirmDeposit_idle
    (idle : ∀ row, server.referred client db externalTransferId = some row → row.status = .completed ∨ row.status = .failed) :
    (server.engine.transact client (BankingService.confirmDeposit externalTransferId) db).after = db := by
  unfold Engine.transact BankingService.confirmDeposit
  rw [Engine.run_bind,run_lookup]
  cases found : server.referred client db externalTransferId with
  | none => rfl
  | some row =>
    rcases idle row found with completed | failed
    · simp only [completed,if_true]
      rfl
    · simp only [failed,if_true,reduceCtorEq,if_false]
      rfl

theorem transact_confirmDeposit {row : CryptoBrokerage.Transaction} (keyed : db.Keyed)
    (found : server.referred client db externalTransferId = some row) (live : row.status ≠ .completed ∧ row.status ≠ .failed) :
    (server.engine.transact client (BankingService.confirmDeposit externalTransferId) db).after =
      db.replace .transactions row.completed := by
  have stored : Table.assign .transactions { status := some .completed } row = row.completed := by
    cases row
    rfl
  have updated : ∃ issued, server.engine.run client (TransactionRepository.updateStatus row .completed)
      ⟨db,[.selectTransaction externalTransferId]⟩ =
        (.ok row.completed,⟨db.replace .transactions row.completed,issued⟩) := by
    rw [← stored]
    exact run_update_stored keyed (Server.referred_some found).1 fun _ _ => rfl
  obtain ⟨issued,ran⟩ := updated
  unfold Engine.transact BankingService.confirmDeposit
  rw [Engine.run_bind,run_lookup,found]
  simp only [live,if_false]
  rw [Engine.run_bind,ran]
  rfl

end Runs

/-- A confirmation changes only the deposit it confirms exactly if the
transaction that its lookup returns, if it returns one, is closed or a pending deposit. -/
theorem confirms_only_iff {Client : Type} (server : Server Client) (client : Client) (externalTransferId : String)
    (db : Database) (keyed : db.Keyed) :
    ConfirmsOnly externalTransferId
        (server.engine.transact client (BankingService.confirmDeposit externalTransferId) db) ↔
      ∀ row, server.referred client db externalTransferId = some row →
        row.status = .completed ∨ row.status = .failed ∨ row.Confirmable externalTransferId := by
  unfold ConfirmsOnly
  rw [Engine.transact_before]
  constructor
  · intro only row found
    by_contra other
    simp only [not_or] at other
    obtain ⟨present,_⟩ := Server.referred_some found
    rw [transact_confirmDeposit keyed found ⟨other.1,other.2.1⟩] at only
    rcases only.1 with same | ⟨deposit,member,confirmable,same⟩
    · exact (mem_completed (same.symm ▸ present) other.1).2 rfl
    · have different : row ≠ deposit := by
        rintro rfl
        exact other.2.2 confirmable
      have kept := completed_keeps keyed member present different
      rw [← same] at kept
      exact (mem_completed kept other.1).2 rfl
  · intro closed
    by_cases idle : ∀ row, server.referred client db externalTransferId = some row →
        row.status = .completed ∨ row.status = .failed
    · rw [transact_confirmDeposit_idle idle]
      exact ⟨Or.inl rfl,fun _ member _ => member⟩
    · simp only [not_forall,not_or] at idle
      obtain ⟨row,found,live⟩ := idle
      obtain ⟨present,_⟩ := Server.referred_some found
      have confirmable := ((closed row found).resolve_left live.1).resolve_left live.2
      rw [transact_confirmDeposit keyed found live]
      refine ⟨Or.inr ⟨row,present,confirmable,rfl⟩,fun other member kept => ?_⟩
      apply completed_keeps keyed present member
      rintro rfl
      obtain ⟨deposit,_,pending | processing⟩ := confirmable
      · simp [deposit,pending,TransactionStatus.isTerminal] at kept
      · simp [deposit,processing,TransactionStatus.isTerminal] at kept

def sampleReferred (transactionType : TransactionType) (status : TransactionStatus) : Database :=
  sample.insert .transactions ⟨71,1,transactionType,status,some "t1",0⟩

theorem confirms_only_deposit : ConfirmsOnly "t1"
    (sampleServer.engine.transact 0 (BankingService.confirmDeposit "t1") (sampleReferred .deposit .processing)) := by
  refine (confirms_only_iff sampleServer 0 "t1" (sampleReferred .deposit .processing)
    (sample_keyed.insert rfl)).mpr ?_
  intro row found
  cases found
  decide

/-- A trade is completed by the confirmation of its reference, and a reversed deposit is completed again. -/
theorem trade_confirmed :
    let receipt (transactionType : TransactionType) (status : TransactionStatus) :=
      sampleServer.engine.transact 0 (BankingService.confirmDeposit "t1") (sampleReferred transactionType status)
    ((receipt .trade .pending).after .transactions).map Transaction.status = [.completed] ∧
      ¬ConfirmsOnly "t1" (receipt .trade .pending) ∧
      ((receipt .deposit .reversed).after .transactions).map Transaction.status = [.completed] ∧
      ¬ConfirmsOnly "t1" (receipt .deposit .reversed) := by
  intro receipt
  have gone (transactionType : TransactionType) (status : TransactionStatus) (kept : transactionType = .trade ∨ status.isTerminal)
      (live : status ≠ .completed)
      (all : ((receipt transactionType status).after .transactions).map Transaction.status = [.completed]) :
      ¬ConfirmsOnly "t1" (receipt transactionType status) := by
    intro only
    have before : (receipt transactionType status).before = sampleReferred transactionType status :=
      Engine.transact_before _ _ _ _
    have member := only.2 ⟨71,1,transactionType,status,some "t1",0⟩ (by rw [before]; exact List.mem_singleton.mpr rfl) kept
    have listed := List.mem_map_of_mem (f := Transaction.status) member
    rw [all] at listed
    exact live (List.mem_singleton.mp listed)
  have traded : ((receipt .trade .pending).after .transactions).map Transaction.status = [.completed] := by decide +kernel
  have reversed : ((receipt .deposit .reversed).after .transactions).map Transaction.status = [.completed] := by
    decide +kernel
  exact ⟨traded,gone .trade .pending (Or.inl rfl) (by decide) traded,reversed,
    gone .deposit .reversed (Or.inr rfl) (by decide) reversed⟩

end CryptoBrokerage
