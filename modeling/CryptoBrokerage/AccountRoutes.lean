import CryptoBrokerage.Repositories

/-! The reading endpoints under `/accounts`. Balances are derived from the ledger. -/
namespace CryptoBrokerage
open Transaction (Program Engine View)

structure AccountRead where
  id : Uuid
  userId : Uuid
  currency : String
  accountType : AccountType
  balance : ℚ
  deriving DecidableEq, Repr

def Account.read (account : Account) (balance : ℚ) : AccountRead :=
  { id := account.id, userId := account.userId, currency := account.currency, accountType := account.accountType
    balance }

section Endpoints
variable (currentUser : User)

def listAccounts : Action (List AccountRead) := do
  let accounts ← AccountRepository.listByUser currentUser.id
  accounts.mapM fun account => do
    let balance ← AccountRepository.getBalance account.id
    pure (account.read balance)

def getBalance (accountId : Uuid) : Action AccountRead := do
  match ← BaseRepository.getById .accounts accountId with
  | none => .raise (.http 404 s!"Account {str accountId} not found.")
  | some account =>
    if account.userId ≠ currentUser.id then .raise (.http 404 s!"Account {str accountId} not found.")
    else do
      let balance ← AccountRepository.getBalance account.id
      pure (account.read balance)

def listBankAccounts : Action (List BankAccount) := BankAccountRepository.getByUser currentUser.id

end Endpoints

end CryptoBrokerage
