import CryptoBrokerage.RepositoryFaults
import CryptoBrokerage.Settlement

/-! Whether an order that the exchange has accepted is kept. The row that anchors
its key is flushed before the exchange is called but committed after it, and with
it everything that may go wrong in between. -/
namespace CryptoBrokerage
open Transaction (Program Engine View Fault Aftermath)

/-- The exchange has accepted the order that a request sent as its `turn`-th statement. -/
def Accepted (gateway : SubmittedOrder → Except Exception OrderSubmission) (faults : ℕ → Option (Fault Exception))
    (key : String) (submission : OrderSubmission) (turn : ℕ) (aftermath : Aftermath sql Database Order) : Prop :=
  ∃ order, aftermath.issued[turn]? = some (.submitOrder order) ∧ faults turn = none ∧ order.clientOrderId = key ∧
    gateway order = .ok submission ∧ submission.status ≠ "REJECTED"

def Anchored (key : String) (db : Database) : Prop := ∃ order ∈ db .orders, order.idempotencyKey = key

/-- What the last step sends for an answer without a fill: a partly filled order
has its transaction flushed as PROCESSING and read back. -/
def finalSteps (status : String) : ℕ := if status = "PARTIALLY_FILLED" then 2 else 0

/-- The answer brings no fill to process, and nothing goes wrong after it, the
commit included. -/
def Undisturbed (faults : ℕ → Option (Fault Exception)) (submission : OrderSubmission) (turn : ℕ) : Prop :=
  (submission.fills = [] ∧ submission.status ≠ "FILLED") ∧
    ∀ later, turn < later → later ≤ turn + 1 + finalSteps submission.status → faults later = none

theorem anchored_apply {key : String} (db : Database) (write : Write) (anchored : Anchored key db) :
    Anchored key (db.apply write) := by
  obtain ⟨order,member,same⟩ := anchored
  cases write with
  | insert t row =>
    change Anchored key (db.insert t row)
    by_cases table : t = .orders
    · subst t
      exact ⟨order,by rw [Database.insert_self]; exact List.mem_append_left _ member,same⟩
    · exact ⟨order,by rw [Database.insert_other _ _ (Ne.symm table)]; exact member,same⟩
  | update t id set =>
    change Anchored key (db.modify t id set)
    by_cases table : t = .orders
    · subst t
      refine ⟨if Table.key .orders order = id then Table.assign .orders set order else order,?_,?_⟩
      · rw [Database.modify_self]
        exact List.mem_map.mpr ⟨order,member,rfl⟩
      · split
        · exact same
        · exact same
    · exact ⟨order,by rw [Database.modify_other _ _ _ (Ne.symm table)]; exact member,same⟩

theorem opening_direct [DecimalContext] (request : TradeRequest) : request.opening.Direct := by
  have added {t : Table} (entity : Uuid → t.Row) : (BaseRepository.add t entity).Direct := by
    refine Program.Direct.bind (Program.direct_perform _) fun id => ?_
    refine Program.Direct.bind (Program.direct_perform _) fun _ => ?_
    refine Program.Direct.bind (Program.direct_perform _) fun found => ?_
    cases found <;> trivial
  have locked (id : Uuid) : (AccountRepository.getBalanceForUpdate id).Direct := by
    refine Program.Direct.bind (Program.direct_perform _) fun found => ?_
    cases found with
    | none => trivial
    | some account =>
      refine Program.Direct.bind (Program.Direct.bind (Program.direct_perform _) fun _ => ?_) fun _ => trivial
      exact Program.Direct.bind (Program.direct_perform _) fun _ => trivial
  refine Program.Direct.bind ?_ fun _ => Program.Direct.bind ?_ fun _ => ?_
  · unfold TradeRequest.validate
    split
    · trivial
    · split <;> trivial
  · refine Program.Direct.bind (Program.direct_perform _) fun found => ?_
    cases found with
    | none => trivial
    | some account =>
      refine Program.Direct.bind (locked account.id) fun value => Program.Direct.bind (Program.direct_done _) fun cost => ?_
      change (if _ then _ else _ : Action Account).Direct
      split <;> trivial
  · exact Program.Direct.bind (Program.Direct.bind (added _) fun _ => Program.Direct.bind (added _) fun _ => trivial)
      fun _ => trivial

section Endured
variable {Client : Type} {server : Server Client} {faults : ℕ → Option (Fault Exception)} {client : Client}
  {gateway : SubmittedOrder → Except Exception OrderSubmission} {now : Timestamp} {request : TradeRequest}
  {view : View sql Database} {db : Database}

/-- The last step of an order without a fill returns and is committed exactly when
nothing goes wrong on the way. -/
theorem endure_finalise_iff {order : Order} {transaction : CryptoBrokerage.Transaction} {status : String}
    (accepted : status ≠ "REJECTED") (unfilled : status ≠ "FILLED") (pending : transaction.status = .pending)
    (found : view.db.find .transactions transaction.id = some transaction) :
    (∃ value last, server.engine.endure faults client (finalise order transaction status) view =
        (some (.ok value),last) ∧ faults last.issued.length = none) ↔
      ∀ turn, view.issued.length ≤ turn → turn ≤ view.issued.length + finalSteps status → faults turn = none := by
  unfold finalise finalSteps
  rw [if_neg accepted]
  by_cases partly : status = "PARTIALLY_FILLED"
  · rw [if_pos (Or.inr partly),if_pos partly]
    have different : transaction.status ≠ if order.status = .filled then .completed else .processing := by
      rw [pending]
      split <;> simp
    have completes := fun quiet => endure_updateStatus server faults client none different found quiet
    constructor
    · rintro ⟨value,last,ran,commits⟩
      obtain ⟨_,_,updated,rest⟩ := Engine.endure_bind_ok ran
      obtain ⟨_,rfl⟩ := Prod.mk.inj rest
      obtain ⟨first,second⟩ := endure_updateStatus_ok different updated
      obtain ⟨_,_,again,_,_,_,_,length⟩ := completes ⟨first,second⟩
      obtain ⟨_,rfl⟩ := Prod.mk.inj (updated.symm.trans again)
      rw [length] at commits
      intro turn low high
      obtain rfl | rfl | rfl : turn = view.issued.length ∨ turn = view.issued.length + 1 ∨
        turn = view.issued.length + 2 := by omega
      · exact first
      · exact second
      · exact commits
    · intro quiet
      obtain ⟨_,last,updated,_,_,_,_,length⟩ :=
        completes ⟨quiet _ le_rfl (by omega),quiet _ (by omega) (by omega)⟩
      exact ⟨order,last,Engine.endure_returned updated _,by rw [length]; exact quiet _ (by omega) le_rfl⟩
  · rw [if_neg (not_or.mpr ⟨unfilled,partly⟩),if_neg partly]
    constructor
    · rintro ⟨value,last,ran,commits⟩ turn low high
      cases ran
      rw [Nat.le_antisymm high low]
      exact commits
    · exact fun quiet => ⟨order,view,rfl,quiet _ le_rfl le_rfl⟩

theorem settle_unsent [DecimalContext] {sent : SubmittedOrder} (reads : ∀ op, Reads op → op ≠ .submitOrder sent)
    (service : TradingService) (order : Order) (transaction : CryptoBrokerage.Transaction) (account : Account)
    (quoteCurrency : String) (submission : OrderSubmission) :
    (service.settle order transaction account quoteCurrency submission).Only (· ≠ Statement.submitOrder sent) :=
  Program.Only.bind (processFills_only service reads (by simp) (by simp) (by simp) (by simp) (by simp) _ _ _ _ _ _)
    fun order => finalise_only reads (by simp) (by simp) order transaction _

/-- The turn at which a request has sent its order, and what it goes on with when
that has been answered. -/
theorem endure_submitted [DecimalContext] {service : TradingService} {sent : SubmittedOrder} {turn : ℕ}
    (submitted : (server.engine.survive faults client (service.executeTrade request) db).issued[turn]? =
      some (.submitOrder sent)) :
    sent = request.submitted ∧ (∀ order ∈ db .orders, order.idempotencyKey ≠ request.idempotencyKey) ∧
      ∃ account order transaction opened, opened.issued.length = turn ∧
        Opened server client request db account order transaction opened.db ∧
        server.engine.endure faults client (service.executeTrade request) ⟨db,[]⟩ =
          server.engine.endure faults client (service.submit request order transaction >>=
            service.settle order transaction account request.quoteCurrency) opened := by
  rw [Engine.survive_issued] at submitted
  have reads (op : Statement) (read : Reads op) : op ≠ .submitOrder sent := by
    rintro rfl
    exact read
  have looks : (OrderRepository.getByIdempotencyKey request.idempotencyKey).Only (· ≠ Statement.submitOrder sent) :=
    ⟨reads _ trivial,fun _ => trivial⟩
  obtain ⟨found,middle,looked,unsent,member⟩ :=
    Engine.endure_bind_sent looks List.not_mem_nil (List.mem_of_getElem? submitted)
  obtain ⟨_,rfl,rfl⟩ := endure_read_ok rfl looked
  cases replay : (db .orders).find? (fun order => order.idempotencyKey == request.idempotencyKey) with
  | some existing =>
    rw [replay] at member
    exact absurd member unsent
  | none =>
    rw [replay] at member
    have onward : server.engine.endure faults client (service.executeTrade request) ⟨db,[]⟩ =
        server.engine.endure faults client (service.placeOrder request) ⟨db,[.selectOrder request.idempotencyKey]⟩ := by
      rw [TradingService.executeTrade,Engine.endure_returned looked,replay]
      rfl
    obtain ⟨⟨account,order,transaction⟩,opened,opening,unsent,member⟩ :=
      Engine.endure_bind_sent (opening_only reads (by simp) (by simp)) unsent member
    have onward := onward.trans (Engine.endure_returned opening _)
    rw [onward] at submitted
    have same : sent = request.submitted := by
      by_contra other
      have submits : Statement.submitOrder request.submitted ≠ .submitOrder sent := by
        rintro ⟨⟩
        exact other rfl
      exact unsent (Engine.endure_unsent (Program.Only.bind
        (submit_only service reads (by simp) (by simp) submits order transaction) fun submission =>
          settle_unsent reads service order transaction account _ submission) member)
    subst same
    refine ⟨rfl,Database.find_key_none.mp replay,account,order,transaction,opened,?_,
      run_opening_ok (Engine.endure_direct (opening_direct request) opening),onward⟩
    refine (Engine.endure_turn (fun reply => ?_) unsent submitted).symm
    refine Program.Only.bind (Program.Only.bind (Program.Only.attempt (Program.Only.bind trivial fun _ => trivial))
      fun outcome => ?_) fun submission => settle_unsent reads service order transaction account _ submission
    cases outcome with
    | ok submission => trivial
    | error error =>
      exact Program.Only.bind (update_only reads (by simp)) fun _ => Program.Only.bind (update_only reads (by simp))
        fun _ => trivial

/-- The exchange's answer is what `submit_order` returns if nothing goes wrong. -/
theorem endure_submit {service : TradingService} {submission : OrderSubmission} (quiet : faults view.issued.length = none)
    (answer : service.exchangeGateway request.submitted = .ok submission) (order : Order)
    (transaction : CryptoBrokerage.Transaction) :
    server.engine.endure faults client (service.submit request order transaction) view =
      (some (.ok submission),⟨view.db,view.issued ++ [.submitOrder request.submitted]⟩) := by
  have sent : server.engine.endure faults client (service.submitOrder request.submitted) view =
      (some (.ok submission),⟨view.db,view.issued ++ [.submitOrder request.submitted]⟩) := by
    rw [TradingService.submitOrder,Engine.endure_returned (endure_read quiet rfl),answer]
    rfl
  rw [TradingService.submit,Engine.endure_bind,Engine.endure_attempt,sent]
  rfl

/-- What is committed has the order of a request that the exchange accepted exactly
when nothing has disturbed the request since. -/
theorem accepted_anchored_iff [DecimalContext] {key : String} {submission : OrderSubmission} {turn : ℕ}
    (accepted : Accepted gateway faults key submission turn (server.engine.survive faults client
      ((TradingService.init gateway now).executeTrade request) db)) :
    Anchored key (server.engine.survive faults client ((TradingService.init gateway now).executeTrade request) db).after ↔
      Undisturbed faults submission turn := by
  obtain ⟨sent,submitted,quiet,named,answer,kept⟩ := accepted
  obtain ⟨rfl,unused,account,order,transaction,opened,length,written,onward⟩ := endure_submitted submitted
  obtain rfl : request.idempotencyKey = key := named
  rw [← length] at quiet ⊢
  let answered : View sql Database := ⟨opened.db,opened.issued ++ [.submitOrder request.submitted]⟩
  have settles : server.engine.endure faults client ((TradingService.init gateway now).executeTrade request) ⟨db,[]⟩ =
      server.engine.endure faults client ((TradingService.init gateway now).settle order transaction account
        request.quoteCurrency submission) answered :=
    onward.trans (Engine.endure_returned (endure_submit quiet answer order transaction) _)
  have anchored : Anchored request.idempotencyKey opened.db := by
    obtain ⟨_,stored⟩ := written.ordered
    exact ⟨order,by rw [written.orders]; simp,store_idempotencyKey stored⟩
  have absent : ¬Anchored request.idempotencyKey db := fun ⟨other,member,same⟩ => unused other member same
  have leaves : ∀ value last, server.engine.endure faults client ((TradingService.init gateway now).executeTrade request)
      ⟨db,[]⟩ = (some (.ok value),last) → Anchored request.idempotencyKey last.db := by
    intro value last ran
    have kept := @Engine.endure_kept _ _ _ _ _ _ server.engine faults client _ anchored_apply
      ((TradingService.init gateway now).settle order transaction account request.quoteCurrency submission) answered
      anchored
    rwa [← settles,ran] at kept
  rw [Engine.survive_kept_iff absent leaves,settles]
  by_cases idle : submission.fillsToProcess now = []
  · obtain ⟨_,tracked⟩ := written.tracked
    have found : answered.db.find .transactions transaction.id = some transaction := by
      change opened.db.find .transactions transaction.id = some transaction
      rw [written.written]
      exact Database.find_insert (Database.violated_none written.transactionValid).1
    have ending := @endure_finalise_iff _ server faults client answered order transaction submission.status kept
      (fillsToProcess_nil.mp idle).2 (by rw [tracked]) found
    change (∃ value last, server.engine.endure faults client (TradingService.processFills _ _ _ _ [] order
      (submission.fillsToProcess now) >>= fun order => finalise order transaction submission.status) answered = _ ∧ _) ↔ _
    rw [idle]
    have turns : answered.issued.length = opened.issued.length + 1 := List.length_append
    rw [turns] at ending
    exact ending.trans ⟨fun quiet => ⟨fillsToProcess_nil.mp idle,quiet⟩,fun undisturbed => undisturbed.2⟩
  · refine iff_of_false ?_ fun undisturbed => idle (fillsToProcess_nil.mpr undisturbed.1)
    rintro ⟨value,last,ran,_⟩
    exact Engine.endure_returns (settle_refused gateway now order transaction account _ idle) ran

end Endured

section Runs
variable [DecimalContext] {Client : Type} (server : Server Client)
  (gateway : Client → SubmittedOrder → Except Exception OrderSubmission) (now : Client → Timestamp)
  (request : Client → TradeRequest) (faults : Client → ℕ → Option (Fault Exception))

/-- In a run of requests every order the exchange accepts stays in the database from
the end of its request on, exactly when no accepted answer brings a fill to process
and nothing goes wrong in its request after it. -/
theorem accepted_orders_kept_iff (db : Database) (clients : List Client) :
    (∀ first client rest later key submission turn, clients = first ++ client::rest ++ later →
      Accepted (gateway client) (faults client) key submission turn (server.engine.survive (faults client) client
        (trades gateway now request client) (server.engine.endured faults (trades gateway now request) first db)) →
      Anchored key (server.engine.endured faults (trades gateway now request) (first ++ client::rest) db)) ↔
    (∀ first client rest key submission turn, clients = first ++ client::rest →
      Accepted (gateway client) (faults client) key submission turn (server.engine.survive (faults client) client
        (trades gateway now request client) (server.engine.endured faults (trades gateway now request) first db)) →
      Undisturbed (faults client) submission turn) := by
  have ended (first : List Client) (client : Client) :
      server.engine.endured faults (trades gateway now request) (first ++ [client]) db =
        (server.engine.survive (faults client) client (trades gateway now request client)
          (server.engine.endured faults (trades gateway now request) first db)).after := by
    rw [Engine.endured_append]
    rfl
  constructor
  · intro kept first client rest key submission turn split accepted
    rw [← accepted_anchored_iff accepted]
    have anchored := kept first client [] rest key submission turn (by rw [split]; simp) accepted
    rwa [ended] at anchored
  · intro undisturbed first client rest later key submission turn split accepted
    have quiet := undisturbed first client (rest ++ later) key submission turn (by rw [split]; simp) accepted
    have anchored : Anchored key (server.engine.endured faults (trades gateway now request) (first ++ [client]) db) := by
      rw [ended]
      exact (accepted_anchored_iff accepted).mpr quiet
    rw [show first ++ client::rest = (first ++ [client]) ++ rest by simp,Engine.endured_append]
    exact Engine.endured_kept anchored_apply _ _ rest _ anchored

end Runs

theorem submitted_at {issued : List Statement} {turn : ℕ} {order : SubmittedOrder}
    (sent : (issued.map Statement.submission)[turn]? = some (some order)) :
    issued[turn]? = some (.submitOrder order) := by
  rw [List.getElem?_map] at sent
  obtain ⟨op,found,same⟩ := Option.map_eq_some_iff.mp sent
  rw [found]
  cases op <;> cases same
  rfl

/-- The filled LIMIT BUY of 2 BTC is accepted by the exchange, and no order is
stored under its key once its request has ended. -/
theorem sampleBuy_forgotten :
    let aftermath := sampleServer.engine.survive (fun _ => none) 0
      (trades (fun _ _ => .ok sampleFill) (fun _ => 0) (fun _ => sampleBuy) 0) sample
    Accepted (fun _ => .ok sampleFill) (fun _ => none) "k1" sampleFill 11 aftermath ∧ ¬Anchored "k1" aftermath.after := by
  refine ⟨⟨sampleBuy.submitted,submitted_at (by decide +kernel),rfl,rfl,rfl,by decide⟩,?_⟩
  unfold Anchored
  decide +kernel

end CryptoBrokerage
