import CryptoBrokerage.AcceptedOrders
import CryptoBrokerage.BalanceRead
import CryptoBrokerage.BankLinking
import CryptoBrokerage.Books
import CryptoBrokerage.BrokenRequests
import CryptoBrokerage.CashBalance
import CryptoBrokerage.Completion
import CryptoBrokerage.ConfirmationFrame
import CryptoBrokerage.DepositTerms
import CryptoBrokerage.DuplicateFills
import CryptoBrokerage.Enrolment
import CryptoBrokerage.ErrorResponses
import CryptoBrokerage.FillStatus
import CryptoBrokerage.Funding
import CryptoBrokerage.Gateways
import CryptoBrokerage.Isolation
import CryptoBrokerage.LostRace
import CryptoBrokerage.Mediation
import CryptoBrokerage.Overdraft
import CryptoBrokerage.PagedListing
import CryptoBrokerage.PositionUpdate
import CryptoBrokerage.QuoteCurrency
import CryptoBrokerage.ReadRequests
import CryptoBrokerage.Reconciliation
import CryptoBrokerage.SameAccount
import CryptoBrokerage.SignIn
import CryptoBrokerage.StatusHistory
import CryptoBrokerage.SubmittedAmount
import CryptoBrokerage.TokenClaims
import CryptoBrokerage.TransferRecord
import CryptoBrokerage.Webhook
import CryptoBrokerage.Withdrawal
