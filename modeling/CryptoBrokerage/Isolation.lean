import CryptoBrokerage.AccountRoutes
import CryptoBrokerage.PortfolioService
import CryptoBrokerage.TradingRoutes
import CryptoBrokerage.Transaction.Alike

/-! The reading endpoints do not interfere across users. Some of them load a row
by its id before they check the owner, or sum a ledger that all users share. -/
namespace CryptoBrokerage
open Transaction (Program Engine View)

inductive ReadCall
  | listAccounts
  | getBalance (accountId : Uuid)
  | listBankAccounts
  | getOrder (orderId : Uuid)
  | listOrders (limit offset : Int)
  | getPortfolio (quoteCurrency : String)
  deriving DecidableEq, Repr

inductive ReadResponse
  | accounts (accounts : List AccountRead)
  | account (account : AccountRead)
  | bankAccounts (bankAccounts : List BankAccount)
  | order (order : OrderRead)
  | orders (orders : List OrderRead)
  | portfolio (summary : PortfolioSummary)
  deriving DecidableEq, Repr

def answer (gateway : List String → Except Exception (String → Option InstrumentPrice)) (currentUser : User) :
    ReadCall → Action ReadResponse
  | .listAccounts => .accounts <$> listAccounts currentUser
  | .getBalance accountId => .account <$> getBalance currentUser accountId
  | .listBankAccounts => .bankAccounts <$> listBankAccounts currentUser
  | .getOrder orderId => .order <$> getOrder currentUser orderId
  | .listOrders limit offset => .orders <$> listOrders currentUser limit offset
  | .getPortfolio quoteCurrency => .portfolio <$> getPortfolio gateway currentUser quoteCurrency

namespace Database

def touches (db : Database) (user : Uuid) (entry : LedgerEntry) : Bool :=
  (db .accounts).any fun account =>
    account.userId == user && (account.id == entry.debitAccountId || account.id == entry.creditAccountId)

def executes (db : Database) (user : Uuid) (execution : TradeExecution) : Bool :=
  (db .orders).any fun order => order.userId == user && order.id == execution.orderId

/-- The databases have the same rows of the user, and the same assets. -/
structure Agree (user : Uuid) (first second : Database) : Prop where
  accounts : ((first .accounts).filter (fun row => row.userId == user)).Perm
    ((second .accounts).filter (fun row => row.userId == user))
  ledgerEntries : ((first .ledgerEntries).filter (first.touches user)).Perm
    ((second .ledgerEntries).filter (second.touches user))
  orders : ((first .orders).filter (fun row => row.userId == user)).Perm
    ((second .orders).filter (fun row => row.userId == user))
  tradeExecutions : ((first .tradeExecutions).filter (first.executes user)).Perm
    ((second .tradeExecutions).filter (second.executes user))
  positions : ((first .positions).filter (fun row => row.userId == user)).Perm
    ((second .positions).filter (fun row => row.userId == user))
  bankAccounts : ((first .bankAccounts).filter (fun row => row.userId == user)).Perm
    ((second .bankAccounts).filter (fun row => row.userId == user))
  assets : (first .assets).Perm (second .assets)

/-- SQL returns the selected rows in an order that depends only on those rows. -/
def Ordered (first second : Database) : Prop :=
  ∀ (t : Table) (one other : t.Row → Bool), ((first t).filter one).Perm ((second t).filter other) →
    (first t).filter one = (second t).filter other

variable {user : Uuid} {first second : Database}

theorem filter_within {α : Type} {rows : List α} {wide narrow : α → Bool}
    (within : ∀ row, narrow row = true → wide row = true) : (rows.filter wide).filter narrow = rows.filter narrow := by
  rw [List.filter_filter]
  refine List.filter_congr fun row _ => ?_
  cases inside : narrow row with
  | false => rfl
  | true => simp [within row inside]

theorem find_shared {t : Table} {own : t.Row → Bool} {id : Uuid} {row : t.Row}
    (agree : ((first t).filter own).Perm ((second t).filter own)) (keyed : second.Keyed)
    (found : first.find t id = some row) (mine : own row = true) : second.find t id = some row := by
  obtain ⟨member,key⟩ := find_some found
  have shared := agree.mem_iff.mp (List.mem_filter.mpr ⟨member,mine⟩)
  rw [← key]
  exact keyed.find (List.mem_filter.mp shared).1

theorem find_same {t : Table} (agree : (first t).Perm (second t)) (one : first.Keyed) (other : second.Keyed)
    (id : Uuid) : first.find t id = second.find t id := by
  have whole : ((first t).filter fun _ => true).Perm ((second t).filter fun _ => true) := by simpa using agree
  cases found : first.find t id with
  | some row => exact (find_shared whole other found rfl).symm
  | none =>
    cases there : second.find t id with
    | none => rfl
    | some row =>
      have here := find_shared whole.symm one there rfl
      rw [found] at here
      cases here

variable {account : Account}

theorem credits_own (mine : account ∈ (first .accounts).filter (fun row => row.userId == user)) :
    first.credits account.id = ((((first .ledgerEntries).filter (first.touches user)).filter
      (fun entry => entry.creditAccountId == account.id)).map LedgerEntry.amount).sum := by
  rw [filter_within]
  · rfl
  · intro entry credited
    obtain ⟨member,own⟩ := List.mem_filter.mp mine
    exact List.any_eq_true.mpr ⟨account,member,by simp_all⟩

theorem debits_own (mine : account ∈ (first .accounts).filter (fun row => row.userId == user)) :
    first.debits account.id = ((((first .ledgerEntries).filter (first.touches user)).filter
      (fun entry => entry.debitAccountId == account.id)).map LedgerEntry.amount).sum := by
  rw [filter_within]
  · rfl
  · intro entry debited
    obtain ⟨member,own⟩ := List.mem_filter.mp mine
    exact List.any_eq_true.mpr ⟨account,member,by simp_all⟩

theorem Agree.credits (agree : Agree user first second)
    (mine : account ∈ (first .accounts).filter (fun row => row.userId == user)) :
    first.credits account.id = second.credits account.id := by
  rw [credits_own mine,credits_own (agree.accounts.mem_iff.mp mine)]
  exact ((agree.ledgerEntries.filter _).map _).sum_eq

theorem Agree.debits (agree : Agree user first second)
    (mine : account ∈ (first .accounts).filter (fun row => row.userId == user)) :
    first.debits account.id = second.debits account.id := by
  rw [debits_own mine,debits_own (agree.accounts.mem_iff.mp mine)]
  exact ((agree.ledgerEntries.filter _).map _).sum_eq

end Database

section Endpoints
variable {Client : Type} {server : Server Client} {client : Client} {first second : Database} {currentUser : User}

theorem alike_send {statement : Statement} {one other : statement.Reply}
    (left : ∀ turn, server.exec client turn statement first = .ok (one,[]))
    (right : ∀ turn, server.exec client turn statement second = .ok (other,[])) (same : one = other) :
    server.engine.Alike client first second (send statement) := by
  subst same
  exact @Engine.alike_perform sql Client Database Write Resource server.engine client first second statement (.ok one)
    left right

theorem getBalance_alike (agree : Database.Agree currentUser.id first second) {account : Account}
    (mine : account ∈ (first .accounts).filter (fun row => row.userId == currentUser.id)) :
    server.engine.Alike client first second (AccountRepository.getBalance account.id) :=
  (alike_send (fun _ => rfl) (fun _ => rfl) (agree.credits mine)).bind fun _ =>
    (alike_send (fun _ => rfl) (fun _ => rfl) (agree.debits mine)).bind fun _ => Engine.alike_done _

theorem listAccounts_alike (agree : Database.Agree currentUser.id first second) (ordered : first.Ordered second) :
    server.engine.Alike client first second (listAccounts currentUser) := by
  have same := ordered .accounts _ _ agree.accounts
  refine Engine.alike_read (fun _ => rfl) (fun _ => rfl) (congrArg _ same) ?_
  exact Engine.Alike.mapM fun account mine => (getBalance_alike agree mine).bind fun _ => Engine.alike_done _

theorem getBalance_hidden {accountId : Uuid} (hidden : ∀ row, first.find .accounts accountId = some row →
    row.userId ≠ currentUser.id) (issued : List Statement) :
    server.engine.run client (getBalance currentUser accountId) ⟨first,issued⟩ =
      (.error (.http 404 s!"Account {str accountId} not found."),⟨first,issued ++ [.get .accounts accountId]⟩) := by
  change server.engine.run client (send (.get .accounts accountId) >>= fun found => _) _ = _
  have read : server.engine.run client (send (.get .accounts accountId)) ⟨first,issued⟩ =
      (.ok (first.find .accounts accountId),⟨first,issued ++ [.get .accounts accountId]⟩) := rfl
  rw [Engine.run_bind,read]
  cases found : first.find .accounts accountId with
  | none => rfl
  | some account =>
    change server.engine.run client (if _ then _ else _ : Action AccountRead) _ = _
    rw [if_pos (hidden account found)]
    rfl

theorem getOrder_hidden {orderId : Uuid} (hidden : ∀ row, first.find .orders orderId = some row →
    row.userId ≠ currentUser.id) (issued : List Statement) :
    server.engine.run client (getOrder currentUser orderId) ⟨first,issued⟩ =
      (.error (.http 404 s!"Order {str orderId} not found."),⟨first,issued ++ [.get .orders orderId]⟩) := by
  change server.engine.run client (send (.get .orders orderId) >>= fun found => _) _ = _
  have read : server.engine.run client (send (.get .orders orderId)) ⟨first,issued⟩ =
      (.ok (first.find .orders orderId),⟨first,issued ++ [.get .orders orderId]⟩) := rfl
  rw [Engine.run_bind,read]
  cases found : first.find .orders orderId with
  | none => rfl
  | some order =>
    change server.engine.run client (if _ then _ else _ : Action OrderRead) _ = _
    rw [if_pos (hidden order found)]
    rfl

/-- A row is found in both databases, or in neither as the user's own. -/
theorem found_alike {t : Table} {own : t.Row → Bool} (agree : ((first t).filter own).Perm ((second t).filter own))
    (one : first.Keyed) (other : second.Keyed) (id : Uuid) :
    (∃ row, first.find t id = some row ∧ second.find t id = some row ∧ own row = true) ∨
      ((∀ row, first.find t id = some row → own row = false) ∧ ∀ row, second.find t id = some row → own row = false) := by
  by_cases mine : ∃ row, first.find t id = some row ∧ own row = true
  · obtain ⟨row,found,own⟩ := mine
    exact Or.inl ⟨row,found,Database.find_shared agree other found own,own⟩
  · refine Or.inr ⟨fun row found => ?_,fun row found => ?_⟩
    · by_contra own
      exact mine ⟨row,found,by simpa using own⟩
    · by_contra own
      have own := Bool.eq_true_of_not_eq_false own
      exact mine ⟨row,Database.find_shared agree.symm one found own,own⟩

theorem getBalance_answers (agree : Database.Agree currentUser.id first second) (one : first.Keyed)
    (other : second.Keyed) (accountId : Uuid) :
    server.engine.Alike client first second (getBalance currentUser accountId) := by
  rcases found_alike agree.accounts one other accountId with ⟨account,left,right,mine⟩ | ⟨left,right⟩
  · have own : account.userId = currentUser.id := by simpa using mine
    refine Engine.alike_read (fun _ => rfl) (fun _ => rfl) (by rw [left,right]) ?_
    rw [left]
    change server.engine.Alike client first second (if _ then _ else _ : Action AccountRead)
    rw [if_neg (not_not.mpr own)]
    have member : account ∈ (first .accounts).filter (fun row => row.userId == currentUser.id) :=
      List.mem_filter.mpr ⟨(Database.find_some left).1,mine⟩
    exact (getBalance_alike agree member).bind fun _ => Engine.alike_done _
  · exact fun issued issued' => ⟨_,_,_,getBalance_hidden (fun row found => by simpa using left row found) issued,
      getBalance_hidden (fun row found => by simpa using right row found) issued'⟩

theorem getOrder_answers (agree : Database.Agree currentUser.id first second) (one : first.Keyed)
    (other : second.Keyed) (orderId : Uuid) :
    server.engine.Alike client first second (getOrder currentUser orderId) := by
  rcases found_alike agree.orders one other orderId with ⟨order,left,right,mine⟩ | ⟨left,right⟩
  · have own : order.userId = currentUser.id := by simpa using mine
    refine Engine.alike_read (fun _ => rfl) (fun _ => rfl) (by rw [left,right]) ?_
    rw [left]
    change server.engine.Alike client first second (if _ then _ else _ : Action OrderRead)
    rw [if_neg (not_not.mpr own)]
    exact Engine.alike_done _
  · exact fun issued issued' => ⟨_,_,_,getOrder_hidden (fun row found => by simpa using left row found) issued,
      getOrder_hidden (fun row found => by simpa using right row found) issued'⟩

theorem listOrders_alike (agree : Database.Agree currentUser.id first second) (ordered : first.Ordered second)
    (limit offset : Int) : server.engine.Alike client first second (listOrders currentUser limit offset) := by
  have same : first.ordersOf currentUser.id none = second.ordersOf currentUser.id none := by
    have own := ordered .orders _ _ agree.orders
    unfold Database.ordersOf
    simp only [Option.all_none,Bool.and_true]
    rw [own]
  have selected (db : Database) (turn : Nat) : server.exec client turn (.selectOrders currentUser.id none limit offset) db =
      if limit < 0 then .error (.data "LIMIT must not be negative")
      else if offset < 0 then .error (.data "OFFSET must not be negative")
      else .ok ((((db.ordersOf currentUser.id none).drop offset.toNat).take limit.toNat),[]) := rfl
  by_cases short : limit < 0
  · exact Engine.alike_refused (fun turn => (selected first turn).trans (if_pos short))
      (fun turn => (selected second turn).trans (if_pos short)) _
  by_cases before : offset < 0
  · exact Engine.alike_refused (fun turn => (selected first turn).trans ((if_neg short).trans (if_pos before)))
      (fun turn => (selected second turn).trans ((if_neg short).trans (if_pos before))) _
  refine Engine.alike_read (fun turn => (selected first turn).trans ((if_neg short).trans (if_neg before)))
    (fun turn => (selected second turn).trans ((if_neg short).trans (if_neg before))) (by rw [same]) ?_
  exact Engine.Alike.mapM fun order listed => Engine.alike_done _

theorem resolveAssets_alike (agree : Database.Agree currentUser.id first second) (one : first.Keyed)
    (other : second.Keyed) (positions : List Position) (assets : AssetMap) :
    server.engine.Alike client first second (PortfolioService.resolveAssets positions assets) := by
  induction positions generalizing assets with
  | nil => exact Engine.alike_done _
  | cons position rest ih =>
    refine (alike_send (fun _ => rfl) (fun _ => rfl)
      (Database.find_same agree.assets one other position.assetId)).bind fun found => ?_
    cases found with
    | none => exact ih assets
    | some asset => exact ih _

variable {gateway : List String → Except Exception (String → Option InstrumentPrice)}

theorem fetchPrices_alike (symbols : List String) :
    server.engine.Alike client first second (PortfolioService.fetchPrices gateway symbols) := by
  unfold PortfolioService.fetchPrices
  split
  · exact Engine.alike_done _
  · have called : server.engine.Alike client first second (PortfolioService.getInstrumentPrices gateway symbols) :=
      (alike_send (fun _ => rfl) (fun _ => rfl) rfl).bind fun _ => Engine.alike_done _
    refine called.attempt.bind fun outcome => ?_
    cases outcome <;> exact Engine.alike_done _

theorem cashBalance_alike (agree : Database.Agree currentUser.id first second) (ordered : first.Ordered second)
    (quoteCurrency : String) :
    server.engine.Alike client first second (PortfolioService.cashBalance currentUser.id quoteCurrency) := by
  have same : (first .accounts).find? (fun account => account.userId == currentUser.id && account.currency == quoteCurrency) =
      (second .accounts).find? (fun account => account.userId == currentUser.id && account.currency == quoteCurrency) := by
    have own (db : Database) : (db .accounts).find? (fun account => account.userId == currentUser.id &&
        account.currency == quoteCurrency) = ((db .accounts).filter (fun account =>
          account.userId == currentUser.id)).find? (fun account => account.currency == quoteCurrency) := by
      rw [List.find?_filter]
      congr 1
      funext account
      rw [Bool.eq_iff_iff]
      simp
    rw [own first,own second,ordered .accounts _ _ agree.accounts]
  refine Engine.alike_read (fun _ => rfl) (fun _ => rfl) (by rw [same]) ?_
  cases found : (first .accounts).find? (fun account => account.userId == currentUser.id &&
      account.currency == quoteCurrency) with
  | none => exact Engine.alike_done _
  | some account =>
    refine getBalance_alike agree (List.mem_filter.mpr ⟨List.mem_of_find?_eq_some found,?_⟩)
    have named := List.find?_some found
    simp_all

theorem getPortfolio_alike (agree : Database.Agree currentUser.id first second) (ordered : first.Ordered second)
    (one : first.Keyed) (other : second.Keyed) (quoteCurrency : String) :
    server.engine.Alike client first second (getPortfolio gateway currentUser quoteCurrency) := by
  refine (alike_send (fun _ => rfl) (fun _ => rfl) (ordered .positions _ _ agree.positions)).bind fun positions => ?_
  cases positions with
  | nil => exact Engine.alike_done _
  | cons position rest =>
    refine (resolveAssets_alike agree one other _ _).bind fun assets => ?_
    refine (fetchPrices_alike _).bind fun prices => ?_
    refine (Engine.alike_done _).bind fun totals => ?_
    refine (cashBalance_alike agree ordered quoteCurrency).bind fun cash => ?_
    exact (Engine.alike_done _).bind fun pnlPct => Engine.alike_done _

end Endpoints

/-- Whatever a user reads, the response depends on the user's own rows, the
assets and the prices only, and the id of another user's row is answered like
one that does not exist. -/
theorem reads_isolated {Client : Type} (server : Server Client) (client : Client)
    (gateway : List String → Except Exception (String → Option InstrumentPrice)) (currentUser : User)
    (first second : Database) (one : first.Keyed) (other : second.Keyed) (ordered : first.Ordered second)
    (agree : Database.Agree currentUser.id first second) :
    (∀ call, (server.engine.transact client (answer gateway currentUser call) first).outcome =
      (server.engine.transact client (answer gateway currentUser call) second).outcome) ∧
    (∀ accountId, (∀ row, first.find .accounts accountId = some row → row.userId ≠ currentUser.id) →
      (server.engine.transact client (answer gateway currentUser (.getBalance accountId)) first).outcome =
        .error (.http 404 s!"Account {str accountId} not found.")) ∧
    ∀ orderId, (∀ row, first.find .orders orderId = some row → row.userId ≠ currentUser.id) →
      (server.engine.transact client (answer gateway currentUser (.getOrder orderId)) first).outcome =
        .error (.http 404 s!"Order {str orderId} not found.") := by
  have mapped {α : Type} {program : Action α} (wrap : α → ReadResponse)
      (alike : server.engine.Alike client first second program) :
      server.engine.Alike client first second (wrap <$> program) := by
    rw [← bind_pure_comp]
    exact alike.bind fun _ => Engine.alike_done _
  refine ⟨fun call => Engine.Alike.outcome ?_,fun accountId hidden => ?_,fun orderId hidden => ?_⟩
  · cases call with
    | listAccounts => exact mapped _ (listAccounts_alike agree ordered)
    | getBalance accountId => exact mapped _ (getBalance_answers agree one other accountId)
    | listBankAccounts =>
      exact mapped _ (alike_send (fun _ => rfl) (fun _ => rfl) (ordered .bankAccounts _ _ agree.bankAccounts))
    | getOrder orderId => exact mapped _ (getOrder_answers agree one other orderId)
    | listOrders limit offset => exact mapped _ (listOrders_alike agree ordered limit offset)
    | getPortfolio quoteCurrency => exact mapped _ (getPortfolio_alike agree ordered one other quoteCurrency)
  · change (server.engine.transact client (ReadResponse.account <$> getBalance currentUser accountId) first).outcome = _
    rw [← bind_pure_comp,Engine.transact_outcome,Engine.run_bind,getBalance_hidden hidden]
  · change (server.engine.transact client (ReadResponse.order <$> getOrder currentUser orderId) first).outcome = _
    rw [← bind_pure_comp,Engine.transact_outcome,Engine.run_bind,getOrder_hidden hidden]

def sampleOthers : Database :=
  (sample.insert .accounts (⟨25,2,"BTC",.crypto⟩ : Account)).insert .orders
    (⟨71,2,11,.buy,.limit,1,0,some 100,.pending,"k9",0⟩ : Order)

theorem ordered_keys {first second : Database} (one : ∀ t, (first t).Pairwise fun row next => t.key row < t.key next)
    (other : ∀ t, (second t).Pairwise fun row next => t.key row < t.key next) : first.Ordered second := by
  intro t left right same
  refine List.Perm.eq_of_pairwise (fun row next _ _ before after => ?_) ((one t).filter left) ((other t).filter right) same
  exact absurd (BitVec.lt_trans before after) (BitVec.lt_irrefl _)

theorem reads_isolated_sample :
    (sampleServer.engine.transact 0 (answer (fun _ => .ok fun _ => none) ⟨1,"ana@example.com","",true⟩
        (.getBalance 21)) sample).outcome =
      (sampleServer.engine.transact 0 (answer (fun _ => .ok fun _ => none) ⟨1,"ana@example.com","",true⟩
        (.getBalance 21)) sampleOthers).outcome ∧
    (sampleServer.engine.transact 0 (answer (fun _ => .ok fun _ => none) ⟨1,"ana@example.com","",true⟩
        (.getOrder 71)) sample).outcome =
      (sampleServer.engine.transact 0 (answer (fun _ => .ok fun _ => none) ⟨1,"ana@example.com","",true⟩
        (.getOrder 71)) sampleOthers).outcome := by
  have keyed : sample.Keyed ∧ sampleOthers.Keyed :=
    ⟨sample_keyed,fun t => by cases t <;> decide +kernel⟩
  have ordered : sample.Ordered sampleOthers :=
    ordered_keys (fun t => by cases t <;> decide +kernel) (fun t => by cases t <;> decide +kernel)
  have agree : Database.Agree 1 sample sampleOthers :=
    ⟨by decide +kernel,by decide +kernel,by decide +kernel,by decide +kernel,by decide +kernel,by decide +kernel,
      by decide +kernel⟩
  have same := (reads_isolated sampleServer 0 (fun _ => .ok fun _ => none) ⟨1,"ana@example.com","",true⟩ sample
    sampleOthers keyed.1 keyed.2 ordered agree).1
  exact ⟨same _,same _⟩

end CryptoBrokerage
