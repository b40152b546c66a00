import CryptoBrokerage.BankingService

/-! The account that `withdraw_funds` locks and judges, against the user's own. -/
namespace CryptoBrokerage
open Transaction (Program Engine View Receipt)

namespace WithdrawRequest
variable (request : WithdrawRequest)

def Owns (account : Account) : Prop := account.userId = request.userId ∧ account.currency = request.currency

instance (account : Account) : Decidable (request.Owns account) := inferInstanceAs (Decidable (_ ∧ _))

/-- The request fails for want of an account exactly if the user has none, and
otherwise locks one of them and fails for want of funds exactly if it has too few. -/
def Judged (receipt : Receipt sql Database WithdrawResult) : Prop :=
  let own := ∃ account ∈ receipt.before .accounts, request.Owns account
  ((∃ message, receipt.outcome = .error (.accountNotFound message)) ↔ ¬own) ∧
    (own → ∃ account ∈ receipt.before .accounts, request.Owns account ∧
      receipt.issued.flatMap (fun op => Server.locks op receipt.before) = [.row .accounts account.id] ∧
      ((∃ available required currency, receipt.outcome = .error (.insufficientFunds available required currency)) ↔
        receipt.before.readBalance account.id < request.amount))

end WithdrawRequest

section Runs
variable {Client : Type} {server : Server Client} {client : Client} {request : WithdrawRequest} {db : Database}

theorem run_withdrawFunds : server.engine.run client (BankingService.withdrawFunds request) ⟨db,[]⟩ =
    server.engine.run client (AccountRepository.getBalanceForUpdate (server.uuid4 client 0) >>= fun locked =>
      if locked.2 < request.amount then .raise (.insufficientFunds locked.2 request.amount request.currency)
      else .raise BankingService.notImplemented) ⟨db,[.uuid4]⟩ := rfl

/-- A drawn UUID that is no account's id finds none. -/
theorem transact_withdrawFunds_absent (absent : db.find .accounts (server.uuid4 client 0) = none) :
    server.engine.transact client (BankingService.withdrawFunds request) db =
      ⟨db,.error (.accountNotFound s!"Account {str (server.uuid4 client 0)} not found."),
        [.uuid4,.selectAccountForUpdate (server.uuid4 client 0)],db⟩ := by
  unfold Engine.transact
  rw [run_withdrawFunds,Engine.run_bind,run_getBalanceForUpdate]
  simp only [absent]
  rfl

/-- Else the account with that id is judged. -/
theorem transact_withdrawFunds_present {account : Account}
    (present : db.find .accounts (server.uuid4 client 0) = some account) :
    server.engine.transact client (BankingService.withdrawFunds request) db =
      ⟨db,.error (if db.readBalance (server.uuid4 client 0) < request.amount then
          .insufficientFunds (db.readBalance (server.uuid4 client 0)) request.amount request.currency
        else BankingService.notImplemented),
        [.uuid4,.selectAccountForUpdate (server.uuid4 client 0),.sumCredits (server.uuid4 client 0),
          .sumDebits (server.uuid4 client 0)],db⟩ := by
  unfold Engine.transact
  rw [run_withdrawFunds,Engine.run_bind,run_getBalanceForUpdate]
  simp only [present]
  split <;> rfl

end Runs

/-- A withdrawal is judged on the user's own account exactly if the UUID that it
draws is the id of one, or of no account at all when the user has none. -/
theorem withdrawal_judged_iff {Client : Type} (server : Server Client) (client : Client) (request : WithdrawRequest)
    (db : Database) :
    request.Judged (server.engine.transact client (BankingService.withdrawFunds request) db) ↔
      (∃ account ∈ db .accounts, request.Owns account ∧ account.id = server.uuid4 client 0) ∨
        ((¬∃ account ∈ db .accounts, request.Owns account) ∧
          ∀ account ∈ db .accounts, account.id ≠ server.uuid4 client 0) := by
  unfold WithdrawRequest.Judged
  cases found : db.find .accounts (server.uuid4 client 0) with
  | none =>
    have unlisted : ∀ account ∈ db .accounts, account.id ≠ server.uuid4 client 0 := by
      simpa [Database.find,Table.key] using found
    rw [transact_withdrawFunds_absent found]
    constructor
    · intro judged
      exact Or.inr ⟨judged.1.mp ⟨_,rfl⟩,unlisted⟩
    · rintro (⟨account,member,_,drawn⟩ | ⟨none,_⟩)
      · exact absurd drawn (unlisted account member)
      · exact ⟨⟨fun _ => none,fun _ => ⟨_,rfl⟩⟩,fun own => absurd own none⟩
  | some first =>
    obtain ⟨listed,drawn⟩ := Database.find_some found
    have locked : [Statement.uuid4,.selectAccountForUpdate (server.uuid4 client 0),.sumCredits (server.uuid4 client 0),
        .sumDebits (server.uuid4 client 0)].flatMap (fun op => Server.locks op db) =
          [.row .accounts (server.uuid4 client 0)] := by
      have present : db.has .accounts (server.uuid4 client 0) = true := Database.has_iff.mpr ⟨first,listed,drawn⟩
      simp [Server.locks,present]
    rw [transact_withdrawFunds_present found]
    simp only [locked,List.cons.injEq,and_true,Resource.row.injEq,true_and]
    constructor
    · intro judged
      have own : ∃ account ∈ db .accounts, request.Owns account := by
        by_contra none
        obtain ⟨message,raised⟩ := judged.1.mpr none
        split at raised <;> cases raised
      obtain ⟨account,member,owns,same,_⟩ := judged.2 own
      exact Or.inl ⟨account,member,owns,same.symm⟩
    · rintro (⟨account,member,owns,same⟩ | ⟨_,unlisted⟩)
      · refine ⟨⟨?_,fun none => absurd ⟨account,member,owns⟩ none⟩,fun _ => ⟨account,member,owns,same.symm,?_⟩⟩
        · rintro ⟨message,raised⟩
          split at raised <;> cases raised
        · rw [same]
          split
          · next short => simp [short]
          · next enough => simp [enough,BankingService.notImplemented]
      · exact absurd drawn (unlisted first listed)

def sampleWithdrawal : WithdrawRequest := ⟨1,51,100,"BRL"⟩

/-- A withdrawal of 100 BRL by a customer who has 1000 BRL finds no account, and
if the UUID drawn is that of the reserve it is refused on the reserve's balance. -/
theorem withdrawal_misjudged :
    let receipt (drawn : Uuid) := ({ sampleServer with uuid4 := fun _ _ => drawn } : Server (Fin 2)).engine.transact 0
      (BankingService.withdrawFunds sampleWithdrawal) sample
    sample.balance 21 = 1000 ∧ (∃ message, (receipt 99).outcome = .error (.accountNotFound message)) ∧
      ¬sampleWithdrawal.Judged (receipt 99) ∧ (receipt 24).outcome = .error (.insufficientFunds (-1000) 100 "BRL") ∧
      ¬sampleWithdrawal.Judged (receipt 24) := by
  intro receipt
  have owned : ∃ account ∈ sample .accounts, sampleWithdrawal.Owns account := by decide
  have missing : ∃ message, (receipt 99).outcome = .error (.accountNotFound message) := ⟨_,rfl⟩
  refine ⟨by decide +kernel,missing,fun judged => judged.1.mp missing owned,by decide +kernel,?_⟩
  intro judged
  have single : ∀ account ∈ sample .accounts, sampleWithdrawal.Owns account → account.id = 21 := by decide
  have reserve : (receipt 24).issued.flatMap (fun op => Server.locks op sample) = [.row .accounts 24] := by decide +kernel
  have same : (receipt 24).before = sample := Engine.transact_before _ _ _ _
  unfold WithdrawRequest.Judged at judged
  rw [same] at judged
  obtain ⟨account,member,owns,locked,_⟩ := judged.2 owned
  rw [reserve,single account member owns] at locked
  revert locked
  decide

end CryptoBrokerage
