import CryptoBrokerage.Settlement

/-! What the balance check of step 4 says about open orders. Each request is
checked alone against the ledger, which an open order does not touch. -/
namespace CryptoBrokerage
open Transaction (Program Engine View Protocol Session Config Reachable Guarantee)

def LimitBuy (request : TradeRequest) : Prop :=
  request.side = .buy ∧ request.orderType = .limit ∧ 0 < request.amount ∧ ∃ price, request.price = some price ∧ 0 < price

def Representable (numeric : ℚ → Except Exception ℚ) (request : TradeRequest) : Prop :=
  numeric request.amount = .ok request.amount ∧ request.price.mapM numeric = .ok request.price

def Order.cost (order : Order) : ℚ := order.amount * order.price.getD 0

def Order.Within (order : Order) (bound : ℚ) : Prop :=
  ∃ cost, product order.amount (order.price.getD 0) = .ok cost ∧ cost ≤ bound

/-- Of the user's orders a request that is left open inserts only such that cost no
more than the bound, and it updates nothing. -/
def openProtocol {Client : Type} (numeric : ℚ → Except Exception ℚ) (user : Uuid) (bound : ℚ) :
    Protocol sql Client Unit where
  start _ := ()
  allowed _ _ op :=
    match op with
    | .insert .orders row => (numeric row.amount = .ok row.amount ∧ row.price.mapM numeric = .ok row.price) ∧
        (row.userId = user → row.Within bound)
    | .insert t _ => t = .transactions
    | .update _ _ _ => False
    | _ => True
  after _ _ _ _ := ()

section Program
variable {Client : Type} {server : Server Client} {client : Client} {first : Database} {user : Uuid} {bound : ℚ}
  {request : TradeRequest}

def SameBooks (first db : Database) : Prop :=
  db .ledgerEntries = first .ledgerEntries ∧ db .accounts = first .accounts

theorem SameBooks.credits {db : Database} (same : SameBooks first db) (account : Uuid) :
    db.credits account = first.credits account := by
  unfold Database.credits
  rw [same.1]

theorem SameBooks.debits {db : Database} (same : SameBooks first db) (account : Uuid) :
    db.debits account = first.debits account := by
  unfold Database.debits
  rw [same.1]

theorem SameBooks.balance {db : Database} (same : SameBooks first db) (account : Uuid) :
    db.balance account = first.balance account := by
  unfold Database.balance
  rw [same.credits,same.debits]

theorem SameBooks.find {db : Database} (same : SameBooks first db) (id : Uuid) :
    db.find .accounts id = first.find .accounts id := by
  unfold Database.find
  rw [same.2]

theorem SameBooks.readBalance {db : Database} (same : SameBooks first db) (account : Uuid) :
    db.readBalance account = first.readBalance account := by
  unfold Database.readBalance
  rw [same.balance]

theorem debitAccount_covers (buy : request.side = .buy) :
    request.debitAccount.Obeys server.engine (SameBooks first) (openProtocol server.numeric user bound) client ()
      (fun outcome _ => ∀ account, outcome = .ok account → ∃ chosen,
        (first .accounts).find? (fun row => row.userId == request.userId &&
          row.currency == request.quoteCurrency) = some chosen ∧
        ∃ cost, request.estimatedCost = .ok cost ∧
          (0 ≤ first.readBalance chosen.id → cost ≤ first.readBalance chosen.id)) := by
  refine Program.obeys_fixed ((first .accounts).find? (fun row => row.userId == request.userId &&
    row.currency == request.quoteCurrency)) trivial (fun turn db same => ⟨[],?_⟩) ?_
  · rw [← same.2]
    rfl
  cases chosen : (first .accounts).find? (fun row => row.userId == request.userId &&
    row.currency == request.quoteCurrency) with
  | none => exact fun _ same => (by cases same)
  | some row =>
    change Program.Obeys _ _ _ _ (AccountRepository.getBalanceForUpdate row.id >>= fun value => _) _ _
    rw [Program.obeys_bind]
    refine Program.obeys_fixed (first.find .accounts row.id) trivial (fun turn db same => ⟨[],?_⟩) ?_
    · rw [← same.find]
      rfl
    cases found : first.find .accounts row.id with
    | none => exact fun _ same => (by cases same)
    | some account =>
      change Program.Obeys _ _ _ _ (AccountRepository.getBalance row.id >>= fun value => _) _ _
      rw [Program.obeys_bind]
      refine Program.obeys_fixed (first.credits row.id) trivial (fun turn db same => ⟨[],?_⟩) ?_
      · rw [← same.credits]
        rfl
      refine Program.obeys_fixed (first.debits row.id) trivial (fun turn db same => ⟨[],?_⟩) ?_
      · rw [← same.debits]
        rfl
      change Program.Obeys _ _ _ _ ((Program.done request.estimatedCost : Action ℚ) >>= fun cost => _) _ _
      cases estimated : request.estimatedCost with
      | error error => exact fun _ same => (by cases same)
      | ok cost =>
        change Program.Obeys _ _ _ _ (if _ then _ else _ : Action Account) _ _
        split
        · exact fun _ same => (by cases same)
        · next funded =>
          refine fun _ _ => ⟨row,rfl,cost,rfl,fun solvent => ?_⟩
          by_contra short
          exact funded ⟨buy,solvent.trans_lt (not_le.mp short),not_le.mp short⟩

theorem opening_admits (buy : LimitBuy request) (representable : Representable server.numeric request)
    (covered : ∀ chosen, (first .accounts).find? (fun row => row.userId == request.userId &&
        row.currency == request.quoteCurrency) = some chosen →
      request.userId = user → 0 ≤ first.readBalance chosen.id ∧ first.readBalance chosen.id ≤ bound) :
    request.opening.Obeys server.engine (SameBooks first) (openProtocol server.numeric user bound) client ()
      (fun _ _ => True) := by
  have quiet {α : Type} {program : Action α} (only : program.Only fun op : Statement => Reads op ∨
      ∃ row, op = .insert .transactions row) {state : Unit} : program.Obeys server.engine (SameBooks first)
        (openProtocol server.numeric user bound) client state (fun _ _ => True) := by
    refine (only.obeys (fun op permitted => ?_) fun _ _ _ => rfl).weaken fun _ _ _ => trivial
    rcases permitted with reads | ⟨row,rfl⟩
    · cases op <;> trivial
    · exact rfl
  unfold TradeRequest.opening
  rw [Program.obeys_bind]
  refine (quiet (validate_only request)).weaken fun outcome _ _ => ?_
  cases outcome with
  | error error => trivial
  | ok _ =>
    change Program.Obeys _ _ _ _ (request.debitAccount >>= fun account => _) () _
    rw [Program.obeys_bind]
    refine (debitAccount_covers buy.1).weaken fun outcome _ enough => ?_
    cases outcome with
    | error error => trivial
    | ok account =>
      obtain ⟨chosen,found,cost,estimated,enough⟩ := enough account rfl
      have within (own : request.userId = user) : (request.order 0).Within bound :=
        ⟨cost,estimated,(enough (covered chosen found own).1).trans (covered chosen found own).2⟩
      change Program.Obeys _ _ _ _ (request.openOrder >>= fun pair => _) () _
      rw [Program.obeys_bind]
      unfold TradeRequest.openOrder
      rw [Program.obeys_bind]
      change Program.Obeys _ _ _ _ (send .uuid4 >>= fun id => _) () _
      rw [Program.obeys_bind,Program.obeys_perform]
      refine ⟨trivial,fun reply _ => ?_⟩
      cases reply with
      | error error => trivial
      | ok id =>
        change Program.Obeys _ _ _ _ (send (.insert .orders (request.order id)) >>= fun _ =>
          BaseRepository.refresh .orders id) () _
        rw [Program.obeys_bind,Program.obeys_perform]
        refine ⟨⟨representable,within⟩,fun reply _ => ?_⟩
        cases reply with
        | error error => trivial
        | ok _ =>
          have refreshed : (BaseRepository.refresh .orders id).Only fun op : Statement => Reads op ∨
              ∃ row, op = .insert .transactions row := by
            refine Program.Only.bind ((Program.only_perform _).mpr (Or.inl trivial)) fun found => ?_
            cases found <;> trivial
          refine (quiet refreshed).weaken fun outcome _ _ => ?_
          cases outcome with
          | error error => trivial
          | ok order =>
            refine (quiet ?_).weaken fun outcome _ _ => ?_
            · exact Program.Only.bind (add_only (fun _ reads => Or.inl reads) fun id => Or.inr ⟨_,rfl⟩)
                fun _ => trivial
            · cases outcome <;> trivial

theorem executeTrade_admits (service : TradingService) (buy : LimitBuy request)
    (representable : Representable server.numeric request) {submission : OrderSubmission}
    (answer : service.exchangeGateway request.submitted = .ok submission) (status : submission.status = "OPEN")
    (none : submission.fills = [])
    (covered : ∀ chosen, (first .accounts).find? (fun row => row.userId == request.userId &&
        row.currency == request.quoteCurrency) = some chosen →
      request.userId = user → 0 ≤ first.readBalance chosen.id ∧ first.readBalance chosen.id ≤ bound) :
    (service.executeTrade request).Obeys server.engine (SameBooks first)
      (openProtocol server.numeric user bound) client () (fun _ _ => True) := by
  unfold TradingService.executeTrade OrderRepository.getByIdempotencyKey
  rw [Program.obeys_bind,Program.obeys_perform]
  refine ⟨trivial,fun reply _ => ?_⟩
  rcases reply with _ | _ | _
  · trivial
  · change Program.Obeys _ _ _ _ (request.opening >>= fun values => _) () _
    rw [Program.obeys_bind]
    refine (opening_admits buy representable covered).weaken fun outcome _ _ => ?_
    cases outcome with
    | error error => trivial
    | ok values =>
      obtain ⟨account,order,transaction⟩ := values
      have settled : service.settle order transaction account request.quoteCurrency submission = pure order := by
        have idle : submission.fillsToProcess service.now = [] := by
          unfold OrderSubmission.fillsToProcess
          rw [none,if_neg (by simp [status])]
        unfold TradingService.settle
        rw [idle]
        change finalise order transaction submission.status = _
        unfold finalise
        rw [status,if_neg (by decide),if_neg (by decide)]
      change Program.Obeys _ _ _ _ (service.submit request order transaction >>= fun submission =>
        service.settle order transaction account request.quoteCurrency submission) () _
      unfold TradingService.submit
      rw [Program.obeys_bind,Program.obeys_bind,Program.obeys_attempt]
      refine Program.obeys_fixed () trivial (fun _ _ _ => ⟨[],rfl⟩) ?_
      rw [answer]
      change Program.Obeys _ _ _ _ (service.settle order transaction account request.quoteCurrency submission) () _
      rw [settled]
      trivial
  · trivial

end Program

def Covered (first : Database) (user : Uuid) (bound : ℚ) (db : Database) : Prop :=
  SameBooks first db ∧ ∀ order ∈ db .orders, order.userId = user → order.status.isTerminal = false →
    order.Within bound

def Opens (user : Uuid) (bound : ℚ) : Write → Prop
  | .insert .orders row => row.userId = user → row.Within bound
  | .insert t _ => t = .transactions
  | .update _ _ _ => False

section Invariant
variable {Client α : Type} {server : Server Client} {first : Database} {user : Uuid} {bound : ℚ}

theorem Covered.apply {db : Database} (covered : Covered first user bound db) {write : Write}
    (opens : Opens user bound write) : Covered first user bound (db.apply write) := by
  cases write with
  | insert t row =>
    cases t with
    | orders =>
      refine ⟨covered.1,fun order member own live => ?_⟩
      change order ∈ db.insert .orders row .orders at member
      rw [Database.insert_self] at member
      rcases List.mem_append.mp member with old | new
      · exact covered.2 order old own live
      · rw [List.mem_singleton.mp new] at own ⊢
        exact opens own
    | transactions => exact covered
    | _ => cases opens
  | update t id set => exact absurd opens not_false

theorem Covered.visible {db : Database} (covered : Covered first user bound db) {writes : List Write}
    (opens : ∀ write ∈ writes, Opens user bound write) :
    Covered first user bound (server.engine.visible db writes) := by
  induction writes generalizing db with
  | nil => exact covered
  | cons write rest ih =>
    exact ih (covered.apply (opens write List.mem_cons_self))
      fun other member => opens other (List.mem_cons_of_mem _ member)

theorem store_within {row stored : Order}
    (kept : server.numeric row.amount = .ok row.amount ∧ row.price.mapM server.numeric = .ok row.price)
    (ok : Table.store server.numeric .orders row = .ok stored) :
    stored.userId = row.userId ∧ (stored.Within bound ↔ row.Within bound) := by
  obtain ⟨same,amountKept,_,priceKept⟩ := store_order ok
  have amount : stored.amount = row.amount := Except.ok.inj (amountKept.symm.trans kept.1)
  have price : stored.price = row.price := Except.ok.inj (priceKept.symm.trans kept.2)
  unfold Order.Within
  rw [same,amount,price]
  exact ⟨rfl,Iff.rfl⟩

theorem open_guarantee (programs : Client → Program sql α) :
    Guarantee server.engine (openProtocol server.numeric user bound) programs (SameBooks first)
      (Covered first user bound) (fun _ _ session _ => ∀ write ∈ session.writes, Opens user bound write) where
  start _ _ _ := by simp
  sees _ _ _ _ covered opens := (covered.visible opens).1
  answered client state session committed op rest reply writes covered opens allowed answered _ := by
    have written := Server.exec_writes answered
    intro write member
    rcases List.mem_append.mp member with old | new
    · exact opens write old
    · cases op with
      | insert t row =>
        obtain ⟨stored,ok,_,rfl⟩ := written
        rw [List.mem_singleton.mp new]
        cases t with
        | orders =>
          obtain ⟨kept,within⟩ := allowed
          have same : stored.userId = row.userId ∧ (stored.Within bound ↔ row.Within bound) :=
            @store_within _ server bound (Table.stamp (server.now client) .orders row) stored kept ok
          exact fun own => same.2.mpr (within (same.1.symm.trans own))
        | transactions => exact rfl
        | _ => cases allowed
      | update t id set => exact absurd allowed not_false
      | _ =>
        rw [show writes = [] from written] at new
        cases new
  failed _ _ _ _ _ _ _ _ opens _ _ := opens
  commit _ _ _ _ covered opens := covered.visible opens
  rely _ _ _ _ _ _ _ _ _ opens _ _ := opens

end Invariant

/-- Every single open order of the user fits the balance that `get_balance` returns,
in every interleaving of LIMIT BUY requests that the exchange leaves open. -/
theorem open_orders_covered {Client : Type} [DecidableEq Client] (server : Server Client)
    (gateway : Client → SubmittedOrder → Except Exception OrderSubmission) (now : Client → Timestamp)
    (request : Client → TradeRequest) (db : Database) (user : Uuid) (currency : String) (account : Account)
    (resolved : (db .accounts).find? (fun row => row.userId == user && row.currency == currency) = some account)
    (solvent : 0 ≤ db.balance account.id)
    (closed : ∀ order ∈ db .orders, order.userId = user → order.status.isTerminal = true)
    (buys : ∀ client, LimitBuy (request client) ∧ (request client).quoteCurrency = currency ∧
      Representable server.numeric (request client))
    (left : ∀ client, ∃ submission, gateway client (request client).submitted = .ok submission ∧
      submission.status = "OPEN" ∧ submission.fills = [])
    (config : Config sql Client Database Write Resource Order)
    (reached : Reachable server.engine (trades gateway now request) db config) :
    ∀ order ∈ config.committed .orders, order.userId = user → order.status.isTerminal = false →
      order.Within (config.committed.readBalance account.id) := by
  have obeys (client : Client) : (trades gateway now request client).Obeys server.engine (SameBooks db)
      (openProtocol server.numeric user (db.readBalance account.id)) client () (fun _ _ => True) := by
    obtain ⟨buy,quote,representable⟩ := buys client
    obtain ⟨submission,answer,status,none⟩ := left client
    refine executeTrade_admits (TradingService.init (gateway client) (now client)) buy representable answer
      status none fun chosen found own => ?_
    rw [own,quote,resolved] at found
    cases found
    exact ⟨DecimalContext.le_rounded (by decide +kernel) solvent,le_refl _⟩
  have base : Covered db user (db.readBalance account.id) db := by
    refine ⟨⟨rfl,rfl⟩,fun order member own live => ?_⟩
    rw [closed order member own] at live
    cases live
  obtain ⟨⟨same,covered⟩,_⟩ := (open_guarantee (trades gateway now request)).reachable obeys base reached
  rw [same.readBalance account.id]
  exact covered

def samplePair (client : Fin 2) : TradeRequest :=
  { sampleBuy with amount := 6, idempotencyKey := if client = oneClient then "k1" else "k2" }

theorem samplePair_buys (client : Fin 2) : LimitBuy (samplePair client) ∧ (samplePair client).quoteCurrency = "BRL" ∧
    Representable numeric36 (samplePair client) := by
  have kept : numeric36 6 = .ok 6 ∧ numeric36 100 = .ok 100 := by decide +kernel
  refine ⟨⟨rfl,rfl,by change (0 : ℚ) < 6; decide +kernel,100,rfl,by decide +kernel⟩,rfl,kept.1,?_⟩
  change Option.mapM numeric36 (some 100) = .ok (some 100)
  rw [Option.mapM_some,kept.2]
  rfl

/-- One request after the other, both stay open: each fits the 1000 BRL of the
account, their sum does not. -/
theorem open_orders_overcommit :
    (0 ≤ sample.balance 21 ∧ ∀ order ∈ sample .orders, order.userId = 1 → order.status.isTerminal = true) ∧
      ∃ config, Reachable sampleServer.engine (trades (fun _ _ => .ok sampleOpen) (fun _ => 0) samplePair)
          sample config ∧
        config.committed.balance 21 <
          (((config.committed .orders).filter (fun order => order.userId == 1 && !order.status.isTerminal)).map
            Order.cost).sum := by
  refine ⟨by decide +kernel,?_⟩
  have scheduled : (Transaction.follow sampleServer.engine
      (trades (fun _ _ => .ok sampleOpen) (fun _ => 0) samplePair)
      (List.replicate 14 0 ++ List.replicate 14 1) (.initial sample)).map (fun config =>
        (config.committed.balance 21,(((config.committed .orders).filter
          (fun order => order.userId == 1 && !order.status.isTerminal)).map Order.cost).sum)) =
        some (1000,1200) := by
    decide +kernel
  obtain ⟨config,followed,sums⟩ := Option.map_eq_some_iff.mp scheduled
  obtain ⟨balance,sum⟩ := Prod.mk.inj sums
  refine ⟨config,Transaction.follow_reachable .refl followed,?_⟩
  rw [balance,sum]
  decide +kernel

theorem open_orders_covered_pair :
    ∃ config, Reachable sampleServer.engine (trades (fun _ _ => .ok sampleOpen) (fun _ => 0) samplePair)
        sample config ∧ (config.committed .orders).length = 2 ∧
      ∀ order ∈ config.committed .orders, order.userId = 1 → order.status.isTerminal = false →
        order.Within (config.committed.readBalance 21) := by
  have scheduled : (Transaction.follow sampleServer.engine
      (trades (fun _ _ => .ok sampleOpen) (fun _ => 0) samplePair)
      (List.replicate 14 0 ++ List.replicate 14 1) (.initial sample)).map
        (fun config => (config.committed .orders).length) = some 2 := by
    decide +kernel
  obtain ⟨config,followed,length⟩ := Option.map_eq_some_iff.mp scheduled
  have reached := Transaction.follow_reachable .refl followed
  exact ⟨config,reached,length,open_orders_covered sampleServer (fun _ _ => .ok sampleOpen) (fun _ => 0)
    samplePair sample 1 "BRL" ⟨21,1,"BRL",.fiat⟩ (by decide +kernel) (by decide +kernel) (by decide +kernel) samplePair_buys
    (fun _ => ⟨sampleOpen,rfl,rfl,rfl⟩) config reached⟩

end CryptoBrokerage
