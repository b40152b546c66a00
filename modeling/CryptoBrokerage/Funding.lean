import CryptoBrokerage.Integrity
import CryptoBrokerage.StandingBooks

/-! What the exchange is sent, over whole runs of requests. No request credits an
account, so the balances at the start bound every BUY that costs something. -/
namespace CryptoBrokerage
open Transaction

def SameLedger (first db : Database) : Prop := db .ledgerEntries = first .ledgerEntries

/-- A BUY that is sent with a price and costs something costs no more than the
balance of some account. -/
def Affordable (first : Database) : Statement → Prop
  | .submitOrder order => order.side = OrderSide.buy.value → ∀ price, order.price = some price →
      ∃ cost, product order.amount price = .ok cost ∧ (0 < cost → ∃ account, cost ≤ first.readBalance account)
  | _ => True

def Orderless : Statement → Prop
  | .submitOrder _ => False
  | _ => True

section Program
variable {Client α : Type} {server : Server Client} {client : Client} {first : Database} {platform : Platform}
  {moment : Moment} {state : Unit}

theorem orderless_serving : Serving Orderless where
  reads op reads := by
    cases op with
    | submitOrder order => exact reads.elim
    | _ => trivial
  inserts _ _ _ := trivial
  updates _ _ := trivial
  transfers _ := trivial

theorem orderless_affordable {program : Action α} (only : program.Only Orderless) :
    program.Obeys server.engine (SameLedger first) (abiding (Affordable first) Client) client state (fun _ _ => True) := by
  refine only.permitted fun _ op orderless => ?_
  cases op with
  | submitOrder order => exact orderless.elim
  | _ => trivial

theorem getBalance_ledger (id : Uuid) :
    (AccountRepository.getBalance id).Obeys server.engine (SameLedger first) (abiding (Affordable first) Client) client
      state (fun outcome _ => ∀ balance, outcome = .ok balance → balance = first.readBalance id) := by
  have credited (turn : Nat) (db : Database) (same : SameLedger first db) :
      server.engine.exec client turn (.sumCredits id) db = .ok (first.credits id,[]) := by
    rw [Database.credits,← same]
    rfl
  have debited (turn : Nat) (db : Database) (same : SameLedger first db) :
      server.engine.exec client turn (.sumDebits id) db = .ok (first.debits id,[]) := by
    rw [Database.debits,← same]
    rfl
  refine Program.obeys_fixed (first.credits id) trivial (fun turn db same => ⟨[],credited turn db same⟩) ?_
  refine Program.obeys_fixed (first.debits id) trivial (fun turn db same => ⟨[],debited turn db same⟩) ?_
  intro balance same
  cases same
  rfl

/-- Whatever account the selection finds, the check is against its balance at the start. -/
theorem debitAccount_affordable (request : TradeRequest) :
    request.debitAccount.Obeys server.engine (SameLedger first) (abiding (Affordable first) Client) client state
      (fun outcome _ => ∀ account, outcome = .ok account → ∃ cost, request.estimatedCost = .ok cost ∧
        (request.side = .buy → 0 < cost → ∃ id, cost ≤ first.readBalance id)) := by
  unfold TradeRequest.debitAccount
  rw [Program.obeys_bind]
  have selects : (AccountRepository.getByUserAndCurrency request.userId request.quoteCurrency).Only Orderless :=
    (Program.only_perform (S := sql) _).mpr trivial
  refine (orderless_affordable selects).weaken fun outcome _ _ => ?_
  cases outcome with
  | error error => exact fun _ same => by cases same
  | ok found =>
    cases found with
    | none => exact fun _ same => by cases same
    | some account =>
      change Program.Obeys _ _ _ _ (AccountRepository.getBalanceForUpdate account.id >>= fun value => _) _ _
      rw [Program.obeys_bind]
      change Program.Obeys _ _ _ _ (send (.selectAccountForUpdate account.id) >>= fun found => _) _ _
      rw [Program.obeys_bind]
      have locks : (send (.selectAccountForUpdate account.id)).Only Orderless :=
        (Program.only_perform (S := sql) _).mpr trivial
      refine (orderless_affordable locks).weaken fun outcome _ _ => ?_
      cases outcome with
      | error error => exact fun _ same => by cases same
      | ok found =>
        cases found with
        | none => exact fun _ same => by cases same
        | some locked =>
          change Program.Obeys _ _ _ _ (AccountRepository.getBalance account.id >>= fun value => _) _ _
          rw [Program.obeys_bind]
          refine (getBalance_ledger account.id).weaken fun outcome _ read => ?_
          cases outcome with
          | error error => exact fun _ same => by cases same
          | ok balance =>
            obtain rfl := read balance rfl
            change Program.Obeys _ _ _ _ ((.done request.estimatedCost : Action ℚ) >>= fun cost => _) _ _
            rw [Program.obeys_bind]
            cases estimated : request.estimatedCost with
            | error error => exact fun _ same => by cases same
            | ok cost =>
              change Program.Obeys _ _ _ _ (if _ then _ else _ : Action Account) _ _
              split
              · exact fun _ same => by cases same
              · next funded =>
                refine fun _ _ => ⟨cost,rfl,fun buy positive => ⟨account.id,?_⟩⟩
                by_contra short
                exact funded ⟨buy,positive,not_le.mp short⟩

theorem add_orderless {t : Table} {entity : Uuid → t.Row} : (BaseRepository.add t entity).Only Orderless :=
  add_only orderless_serving.reads fun _ => trivial

theorem update_orderless {t : Table} {row : t.Row} {set : t.Columns} : (BaseRepository.update t row set).Only Orderless :=
  update_only orderless_serving.reads fun _ => trivial

theorem submit_affordable (service : TradingService) {request : TradeRequest}
    (affordable : Affordable first (.submitOrder request.submitted)) (order : Order)
    (transaction : CryptoBrokerage.Transaction) :
    (service.submit request order transaction).Obeys server.engine (SameLedger first)
      (abiding (Affordable first) Client) client state (fun _ _ => True) := by
  unfold TradingService.submit
  rw [Program.obeys_bind,Program.obeys_attempt]
  change Program.Obeys _ _ _ _ (send (.submitOrder request.submitted) >>= fun _ => .done _) _ _
  rw [Program.obeys_bind,Program.obeys_perform]
  refine ⟨affordable,fun reply _ => ?_⟩
  have failed (error : Exception) : (do
      let _ ← OrderRepository.updateStatus order .failed
      let _ ← TransactionRepository.updateStatus transaction .failed
      .raise error : Action OrderSubmission).Only Orderless :=
    Program.Only.bind update_orderless fun _ => Program.Only.bind update_orderless fun _ => trivial
  cases reply with
  | error error => exact orderless_affordable (failed error)
  | ok sent =>
    cases service.exchangeGateway request.submitted with
    | error error => exact orderless_affordable (failed error)
    | ok submission => trivial

theorem settle_orderless (service : TradingService) (order : Order) (transaction : CryptoBrokerage.Transaction)
    (account : Account) (quoteCurrency : String) (submission : OrderSubmission) :
    (service.settle order transaction account quoteCurrency submission).Only Orderless := by
  refine Program.Only.bind (processFills_only service orderless_serving.reads ?_ ?_ ?_ ?_ ?_ _ _ _ _ _ _) fun filled =>
    finalise_only orderless_serving.reads ?_ ?_ filled transaction _
  all_goals intros; trivial

theorem opening_affordable (request : TradeRequest) :
    request.opening.Obeys server.engine (SameLedger first) (abiding (Affordable first) Client) client state
      (fun outcome _ => ∀ opened, outcome = .ok opened → Affordable first (.submitOrder request.submitted)) := by
  unfold TradeRequest.opening
  rw [Program.obeys_bind]
  refine (orderless_affordable (validate_only request)).weaken fun outcome _ _ => ?_
  cases outcome with
  | error error => exact fun _ same => by cases same
  | ok _ =>
    change Program.Obeys _ _ _ _ (request.debitAccount >>= fun account => _) _ _
    rw [Program.obeys_bind]
    refine (debitAccount_affordable request).weaken fun outcome _ covers => ?_
    cases outcome with
    | error error => exact fun _ same => by cases same
    | ok account =>
      have opens : (request.openOrder >>= fun pair => pure (account,pair.1,pair.2)).Only Orderless :=
        Program.Only.bind (Program.Only.bind add_orderless fun _ => Program.Only.bind add_orderless fun _ => trivial)
          fun _ => trivial
      refine (orderless_affordable opens).weaken fun _ _ _ _ _ buy price known => ?_
      have sided : request.side = .buy := by
        cases side : request.side with
        | buy => rfl
        | sell =>
          rw [TradeRequest.submitted,side] at buy
          change OrderSide.sell.value = OrderSide.buy.value at buy
          exact absurd buy (by decide)
      obtain ⟨cost,estimated,covered⟩ := covers account rfl
      rw [TradeRequest.estimatedCost,show request.price = some price from known] at estimated
      exact ⟨cost,estimated,covered sided⟩

theorem executeTrade_affordable (service : TradingService) (request : TradeRequest) :
    (service.executeTrade request).Obeys server.engine (SameLedger first) (abiding (Affordable first) Client) client
      state (fun _ _ => True) := by
  unfold TradingService.executeTrade
  rw [Program.obeys_bind]
  have asked : (OrderRepository.getByIdempotencyKey request.idempotencyKey).Only Orderless :=
    (Program.only_perform (S := sql) _).mpr trivial
  refine (orderless_affordable asked).weaken fun outcome _ _ => ?_
  cases outcome with
  | error error => trivial
  | ok found =>
    cases found with
    | some existing => trivial
    | none =>
      change Program.Obeys _ _ _ _ (request.opening >>= fun opened => _) _ _
      rw [Program.obeys_bind]
      refine (opening_affordable request).weaken fun outcome _ affordable => ?_
      cases outcome with
      | error error => trivial
      | ok opened =>
        obtain ⟨account,order,transaction⟩ := opened
        change Program.Obeys _ _ _ _ (service.submit request order transaction >>= fun submission =>
          service.settle order transaction account request.quoteCurrency submission) _ _
        rw [Program.obeys_bind]
        refine (submit_affordable service (affordable _ rfl) order transaction).weaken fun outcome _ _ => ?_
        cases outcome with
        | error error => trivial
        | ok submission => exact orderless_affordable (settle_orderless service order transaction account _ submission)

theorem createOrder_affordable (user : User) (payload : OrderCreate) :
    (createOrder platform.decimal moment.exchange moment.now user payload).Obeys server.engine (SameLedger first)
      (abiding (Affordable first) Client) client state (fun _ _ => True) := by
  unfold createOrder
  rw [Program.obeys_bind,Program.obeys_attempt,Program.obeys_bind]
  refine (executeTrade_affordable _ (payload.request user)).weaken fun outcome last _ => ?_
  cases outcome with
  | error error =>
    dsimp only
    split <;> trivial
  | ok order => trivial

theorem handle_affordable (call : Call) :
    (platform.handle moment call).Obeys server.engine (SameLedger first) (abiding (Affordable first) Client) client
      () (fun _ _ => True) := by
  have mapped {β γ : Type} (f : β → γ) {program : Action β} (affordable : program.Obeys server.engine (SameLedger first)
      (abiding (Affordable first) Client) client () (fun _ _ => True)) : (f <$> program).Obeys server.engine
        (SameLedger first) (abiding (Affordable first) Client) client () (fun _ _ => True) := by
    rw [map_eq_pure_bind,Program.obeys_bind]
    refine affordable.weaken fun outcome _ _ => ?_
    cases outcome <;> trivial
  by_cases places : ∃ request, call.Places request
  · cases call with
    | executeTrade request => exact mapped _ (executeTrade_affordable _ request)
    | user token call =>
      cases call with
      | createOrder payload =>
        change Program.Obeys _ _ _ _ (getCurrentUser platform.jwt platform.settings moment.now token >>= fun _ => _) _ _
        rw [Program.obeys_bind]
        refine (orderless_affordable (getCurrentUser_looks (fun _ => orderless_serving.looks) ..)).weaken ?_
        intro outcome _ _
        cases outcome with
        | error error => trivial
        | ok currentUser =>
          change Program.Obeys _ _ _ _ ((.done payload.validate : Action Unit) >>= fun _ => _) _ _
          cases payload.validate with
          | error error => trivial
          | ok _ => exact mapped _ (createOrder_affordable currentUser payload)
      | _ => exact places.choose_spec.elim
    | _ => exact places.choose_spec.elim
  · exact orderless_affordable (handle_only orderless_serving platform moment fun request placed =>
      absurd ⟨request,placed⟩ places)

/-- No request writes a posting. -/
theorem handle_leaves (call : Call) :
    (platform.handle moment call).Obeys server.engine (fun _ => True)
      (abiding (Statement.Leaves .ledgerEntries) Client) client () (fun _ _ => True) := by
  refine (handle_footprint platform moment call).project (fun _ => ()) ?_ (fun _ _ _ => rfl) fun _ _ _ => trivial
  rintro footprint op ⟨permits,_⟩
  cases op with
  | insert t row =>
    rintro rfl
    exact permits.elim
  | update t id set =>
    rintro rfl
    exact permits.elim
  | _ => trivial

end Program

section Runs
variable {Client α : Type} {server : Server Client} {first : Database}

theorem funding_guarantee (programs : Client → Action α) :
    Guarantee server.engine ((abiding (Statement.Leaves .ledgerEntries) Client).meet (abiding (Affordable first) Client))
      programs (fun db => True ∧ SameLedger first db) (SameLedger first)
      (fun _ _ session _ => ∀ db, (session.writes.foldl Database.apply db) .ledgerEntries = db .ledgerEntries) where
  start _ _ _ _ := rfl
  sees _ _ session committed same unwritten := ⟨trivial,(unwritten committed).trans same⟩
  answered client _ session committed op rest reply writes _ unwritten allowed answered _ := by
    have written := @Server.exec_writes _ server client session.issued.length op _ _ _ answered
    intro db
    rw [List.foldl_append]
    cases op with
    | insert t row =>
      obtain ⟨stored,_,_,rfl⟩ := written
      exact (Database.insert_other _ stored (Ne.symm allowed.1)).trans (unwritten db)
    | update t id set =>
      obtain ⟨stored,_,rfl⟩ := written
      exact (Database.modify_other _ id stored (Ne.symm allowed.1)).trans (unwritten db)
    | _ =>
      obtain rfl : writes = [] := written
      exact unwritten db
  failed _ _ _ _ _ _ _ _ unwritten _ _ := unwritten
  commit _ _ session committed same unwritten := (unwritten committed).trans same
  rely _ _ _ _ _ _ _ _ _ mine _ _ := mine

end Runs

/-- In every run of requests, a BUY that is sent to the exchange with a price costs
nothing, or no more than what `get_balance` gave for some account at the start. From
an empty ledger it costs nothing, whatever is deposited and confirmed. -/
theorem buys_affordable {Client : Type} [DecidableEq Client] (server : Server Client) (platform : Platform)
    (moment : Client → Moment) (call : Client → Call) (db : Database)
    (config : Config sql Client Database Write Resource Response)
    (reached : Reachable server.engine (platform.requests moment call) db config) (client : Client)
    (order : SubmittedOrder) (sent : (client,.submitOrder order) ∈ config.history)
    (buy : order.side = OrderSide.buy.value) :
    ∀ price, order.price = some price → ∃ cost, product order.amount price = .ok cost ∧
      (0 < cost → ∃ account, cost ≤ db.readBalance account) ∧ (db .ledgerEntries = [] → cost ≤ 0) := by
  have obeys (client : Client) : (platform.requests moment call client).Obeys server.engine
      (fun stored => True ∧ SameLedger db stored)
      ((abiding (Statement.Leaves .ledgerEntries) Client).meet (abiding (Affordable db) Client)) client ((),())
      (fun _ _ => True) :=
    ((handle_leaves (call client)).meet (handle_affordable (call client))).weaken fun _ _ _ => trivial
  have base : SameLedger db db := rfl
  obtain ⟨_,_,affordable⟩ := (funding_guarantee (platform.requests moment call)).history obeys base reached sent
  intro price known
  obtain ⟨cost,estimated,covered⟩ := affordable buy price known
  refine ⟨cost,estimated,covered,fun empty => not_lt.mp fun positive => ?_⟩
  obtain ⟨account,enough⟩ := covered positive
  have nothing : db.balance account = 0 := by
    rw [Database.balance,Database.credits,Database.debits,empty]
    exact sub_self 0
  rw [Database.readBalance,nothing,show DecimalContext.rounded (0 : ℚ) = 0 by decide +kernel] at enough
  exact absurd positive (not_lt.mpr enough)

/-- A customer with 1000 BRL sends a BUY that costs 200. -/
theorem buys_affordable_one :
    ∃ config order, Reachable sampleServer.engine
        (samplePlatform.requests (sampleMoment fun _ => .ok sampleOpen) sampleRequests) sample config ∧
      (0,.submitOrder order) ∈ config.history ∧ order.price = some 100 ∧
      ∃ cost account, product order.amount 100 = .ok cost ∧ 0 < cost ∧ cost ≤ sample.readBalance account := by
  have scheduled : (follow sampleServer.engine
      (samplePlatform.requests (sampleMoment fun _ => .ok sampleOpen) sampleRequests) (List.replicate 15 0)
      (.initial sample)).map (fun config =>
        config.history.filterMap fun sent => sent.2.submission.map fun order => (sent.1,order)) =
        some [(0,sampleBuy.submitted)] := by
    decide +kernel
  obtain ⟨config,followed,history⟩ := Option.map_eq_some_iff.mp scheduled
  have reached := follow_reachable .refl followed
  have member : (0,sampleBuy.submitted) ∈ config.history.filterMap fun sent =>
      sent.2.submission.map fun order => (sent.1,order) := by
    rw [history]
    exact List.mem_singleton_self _
  obtain ⟨⟨client,op⟩,inside,submitted⟩ := List.mem_filterMap.mp member
  obtain ⟨order,submission,same⟩ := Option.map_eq_some_iff.mp submitted
  cases same
  cases op with
  | submitOrder other =>
    cases submission
    obtain ⟨cost,estimated,covered,_⟩ := buys_affordable sampleServer samplePlatform
      (sampleMoment fun _ => .ok sampleOpen) sampleRequests sample config reached 0 _ inside rfl 100 rfl
    have same : cost = 200 := Except.ok.inj (estimated.symm.trans (by decide +kernel))
    obtain ⟨account,enough⟩ := covered (by rw [same]; norm_num)
    exact ⟨config,_,reached,inside,rfl,cost,account,estimated,by rw [same]; norm_num,enough⟩
  | _ => cases submission

end CryptoBrokerage
