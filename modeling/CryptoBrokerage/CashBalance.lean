import CryptoBrokerage.AccountRoutes
import CryptoBrokerage.PortfolioTotals

/-! The cash of a portfolio against the ledger, and against the list of accounts. -/
namespace CryptoBrokerage
open Transaction (Program Engine View)

/-- A summary is returned, with the balance that `get_balance` derives for the
user's account in the currency, and that the list of accounts has for it. -/
structure CashShown {Client : Type} (server : Server Client) (client : Client)
    (gateway : List String → Except Exception (String → Option InstrumentPrice)) (currentUser : User)
    (quoteCurrency : String) (db : Database) (summary : PortfolioSummary) (reads : List AccountRead) : Prop where
  summarised : (server.engine.transact client
    (PortfolioService.getPortfolioSummary gateway currentUser.id quoteCurrency) db).outcome = .ok summary
  listed : (server.engine.transact client (listAccounts currentUser) db).outcome = .ok reads
  absent : db.accountOf currentUser.id quoteCurrency = none → summary.cashBalance = 0
  derived : ∀ account, db.accountOf currentUser.id quoteCurrency = some account →
    (server.engine.transact client (AccountRepository.getBalance account.id) db).outcome = .ok summary.cashBalance
  among : ∀ account, db.accountOf currentUser.id quoteCurrency = some account →
    (∃ read ∈ reads, read.id = account.id) ∧ ∀ read ∈ reads, read.id = account.id → read.balance = summary.cashBalance

section Runs
variable {Client : Type} {server : Server Client} {client : Client} {db : Database} {currentUser : User}
  {gateway : List String → Except Exception (String → Option InstrumentPrice)} {quoteCurrency : String}

theorem transact_getBalance (account : Uuid) :
    (server.engine.transact client (AccountRepository.getBalance account) db).outcome = .ok (db.readBalance account) := by
  rw [Engine.transact_outcome,run_getBalance]

theorem CashShown.cash {summary : PortfolioSummary} {reads : List AccountRead}
    (shown : CashShown server client gateway currentUser quoteCurrency db summary reads) :
    summary.cashBalance = db.cash currentUser.id quoteCurrency := by
  unfold Database.cash
  cases own : db.accountOf currentUser.id quoteCurrency with
  | none => exact shown.absent own
  | some account =>
    have derived := shown.derived account own
    rw [transact_getBalance] at derived
    exact (Except.ok.inj derived).symm

end Runs

end CryptoBrokerage
