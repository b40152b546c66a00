import CryptoBrokerage.ExecutionRecord
import CryptoBrokerage.PositionCost

/-! The order and position updates of `_process_fill`, for a list of fills and for
the single fill that stands for them. -/
namespace CryptoBrokerage
open Transaction (Program Engine View Receipt)
open AverageCost (Trade Inventory)

/-- The updates of `_process_fill`, without its execution and its posting. -/
def bookFill [DecimalContext] (order : Order) (fill : FillEvent) : Action Order := do
  let _ ← PositionRepository.upsertPosition order.userId order.assetId
    (quantityDelta order.side fill.amount) fill.price
  OrderRepository.applyFill order fill.amount

theorem processFill_books [DecimalContext] (service : TradingService) (order : Order) (fill : FillEvent) (account : Account)
    (quoteCurrency : String) (transactionId : Uuid) :
    service.processFill order fill account quoteCurrency transactionId = (do
      let fillValue ← (.done (product fill.price fill.amount) : Action ℚ)
      let timestamp ← (.done (fromTimestamp fill.timestamp) : Action Timestamp)
      let _ ← BaseRepository.add .tradeExecutions (execution order fill timestamp)
      let posting := tradePosting fillValue account quoteCurrency transactionId
      let _ ← LedgerRepository.judged (service.verdict fill posting) posting
      bookFill order fill) := rfl

def bookFills [DecimalContext] (order : Order) (fills : List FillEvent) : Action Order :=
  (distinctFills [] fills).foldlM bookFill order

def quantityOf (fills : List FillEvent) : ℚ := (fills.map FillEvent.amount).sum

def postedOf [DecimalContext] (fills : List FillEvent) (account : Account) (quoteCurrency : String) (transactionId : Uuid) :
    Except Exception ℚ := do
  let postings ← fills.mapM fun fill =>
    (product fill.price fill.amount).map fun fillValue => tradePosting fillValue account quoteCurrency transactionId
  return (postings.map Posting.amount).sum

def valueOf (fills : List FillEvent) : ℚ := (fills.map fun fill => fill.price * fill.amount).sum

def aggregateOf (externalOrderId : String) (fee : ℚ) (fills : List FillEvent) : OrderSubmission :=
  { externalOrderId, status := "FILLED", filledAmount := quantityOf fills
    averagePrice := valueOf fills / quantityOf fills, fee }

def FillEvent.trade (side : OrderSide) (fill : FillEvent) : Trade ℚ := ⟨quantityDelta side fill.amount,fill.price⟩

section Totals
variable {fills : List FillEvent}

theorem total_fills (side : OrderSide) (fills : List FillEvent) :
    AverageCost.total (fills.map (FillEvent.trade side)) = quantityDelta side (quantityOf fills) := by
  induction fills with
  | nil => cases side <;> simp [quantityOf,quantityDelta]
  | cons fill rest ih =>
    rw [List.map_cons,AverageCost.total_cons,ih]
    unfold FillEvent.trade quantityOf quantityDelta
    split <;> simp [add_comm]

theorem cost_buys (fills : List FillEvent) :
    AverageCost.cost (fills.map (FillEvent.trade .buy)) = valueOf fills := by
  unfold AverageCost.cost valueOf
  rw [List.map_map]
  congr 1
  apply List.map_congr_left
  intro fill _
  exact mul_comm _ _

/-- Any fills of a long holding trade it as one fill at their average price does. -/
theorem tradeAll_fills {holding : Inventory ℚ} (side : OrderSide) (some : fills ≠ [])
    (positive : ∀ fill ∈ fills, 0 < fill.amount) (long : 0 ≤ holding.quantity) :
    holding.tradeAll (fills.map (FillEvent.trade side)) =
      holding.trade ⟨quantityDelta side (quantityOf fills),valueOf fills / quantityOf fills⟩ := by
  rw [← total_fills]
  cases side with
  | buy =>
    rw [Inventory.tradeAll_buys (by simpa using some) long,cost_buys,total_fills]
    · rfl
    · simpa [FillEvent.trade,quantityDelta] using positive
  | sell =>
    apply Inventory.tradeAll_sells
    simpa [FillEvent.trade,quantityDelta] using fun fill member => (positive fill member).le

/-- Where no product is rounded, the postings amount to the value of the fills. -/
theorem postedOf_exact (fills : List FillEvent) (account : Account) (quoteCurrency : String) (transactionId : Uuid) :
    @postedOf DecimalContext.exact fills account quoteCurrency transactionId = .ok (valueOf fills) := by
  have each : fills.mapM (fun fill => (@product DecimalContext.exact fill.price fill.amount).map fun fillValue =>
      tradePosting fillValue account quoteCurrency transactionId) =
        .ok (fills.map fun fill => tradePosting (fill.price * fill.amount) account quoteCurrency transactionId) :=
    List.mapM_pure
  unfold postedOf
  rw [each]
  change Except.ok _ = _
  rw [List.map_map]
  rfl

end Totals

section Runs
attribute [local instance] DecimalContext.exact
variable {Client : Type} {uuid4 : Client → Nat → Uuid} {now : Client → Timestamp} {client : Client}
  {view : View sql Database} {order : Order}

theorem run_applyFill (keyed : view.db.Keyed) (placed : order ∈ view.db .orders) (quantity : ℚ) :
    ∃ issued, (Server.exact uuid4 now).engine.run client (OrderRepository.applyFill order quantity) view =
      (.ok (order.fill quantity),⟨view.db.replace .orders (order.fill quantity),issued⟩) :=
  run_update_whole keyed placed

theorem run_bookFill (keyed : view.db.Keyed) (placed : order ∈ view.db .orders) {fill : FillEvent} {holding : Inventory ℚ}
    (traded : (view.db.holding order.userId order.assetId).trade (fill.trade order.side) = some holding) :
    ∃ issued, (Server.exact uuid4 now).engine.run client (bookFill order fill) view =
      match view.db.hold (uuid4 client (view.issued.length + 1)) order.userId order.assetId holding with
      | .ok (_,db) => (.ok (order.fill fill.amount),⟨db.replace .orders (order.fill fill.amount),issued⟩)
      | .error error => (.error error,⟨view.db,issued⟩) := by
  obtain ⟨issued,upserted⟩ := @run_upsert_exact _ uuid4 now client view order.userId order.assetId keyed
    (quantityDelta order.side fill.amount) fill.price
  change (view.db.holding order.userId order.assetId).trade ⟨_,_⟩ = _ at traded
  rw [traded] at upserted
  unfold bookFill
  rw [Engine.run_bind,upserted]
  cases stored : view.db.hold (uuid4 client (view.issued.length + 1)) order.userId order.assetId holding with
  | error error =>
    simp only [stored]
    exact ⟨_,rfl⟩
  | ok pair =>
    obtain ⟨row,after⟩ := pair
    have held := hold_ok keyed stored
    simp only [stored]
    apply run_applyFill held.keyed
    change order ∈ after .orders
    rw [held.others .orders (by decide)]
    exact placed

theorem run_bookFills {fills : List FillEvent} (some : fills ≠ []) (keyed : view.db.Keyed)
    (placed : order ∈ view.db .orders) {holding : Inventory ℚ}
    (traded : (view.db.holding order.userId order.assetId).tradeAll (fills.map (FillEvent.trade order.side)) =
      Option.some holding) :
    ∃ issued, (Server.exact uuid4 now).engine.run client (fills.foldlM bookFill order) view =
      match view.db.hold (uuid4 client (view.issued.length + 1)) order.userId order.assetId holding with
      | .ok (_,db) => (.ok (order.fill (quantityOf fills)),⟨db.replace .orders (order.fill (quantityOf fills)),issued⟩)
      | .error error => (.error error,⟨view.db,issued⟩) := by
  induction fills generalizing order view with
  | nil => exact absurd rfl some
  | cons fill rest ih =>
    rw [List.map_cons,Inventory.tradeAll_cons,Option.bind_eq_some_iff] at traded
    obtain ⟨next,first,later⟩ := traded
    obtain ⟨issued,booked⟩ := @run_bookFill _ uuid4 now client view order keyed placed fill next first
    rw [List.foldlM_cons,Engine.run_bind,booked]
    cases stored : view.db.hold (uuid4 client (view.issued.length + 1)) order.userId order.assetId next with
    | error error =>
      rw [hold_refused stored holding]
      exact ⟨_,rfl⟩
    | ok pair =>
      obtain ⟨row,after⟩ := pair
      have held := hold_ok keyed stored
      simp only
      rw [hold_other stored holding]
      have found : (after.replace .orders (order.fill fill.amount)).position order.userId order.assetId =
          Option.some row :=
        (Database.position_replace _ _ (by decide) _ _).trans held.found
      by_cases last : rest = []
      · subst last
        obtain rfl : next = holding := Option.some.inj later
        simp only [Position.hold_same held.holds,held.keyed.replace_same (Database.position_some held.found).1]
        refine ⟨issued,?_⟩
        simp [quantityOf]
      · have stored : order.fill fill.amount ∈ (after.replace .orders (order.fill fill.amount)) .orders := by
          rw [Database.replace_self,List.mem_map]
          exact ⟨order,(held.others .orders (by decide)).symm ▸ placed,if_pos rfl⟩
        have kept : (after.replace .orders (order.fill fill.amount)).holding order.userId order.assetId = next := by
          rw [Database.holding,found]
          exact held.holds
        obtain ⟨more,ran⟩ := @ih ⟨after.replace .orders (order.fill fill.amount),issued⟩ (order.fill fill.amount) last
          (held.keyed.replace _ _) stored (kept.symm ▸ later)
        have again : (after.replace .orders (order.fill fill.amount)).hold (uuid4 client (issued.length + 1))
            (order.fill fill.amount).userId (order.fill fill.amount).assetId holding = _ :=
          hold_found found _ holding
        have overwritten := @Database.replace_replace (after.replace .positions (row.hold holding)) .orders
          (order.fill fill.amount) (order.fill (fill.amount + quantityOf rest)) rfl
        have swapped := @Database.replace_comm after .orders .positions (order.fill fill.amount) (row.hold holding)
          (by decide)
        simp only [again,Order.fill_fill] at ran
        rw [swapped,overwritten] at ran
        rw [ran]
        simp [quantityOf]

variable {db : Database}

theorem transact_bookFills {fills : List FillEvent} (some : fills ≠ []) (distinct : (fills.map FillEvent.fillId).Nodup)
    (positive : ∀ fill ∈ fills, 0 < fill.amount) (keyed : db.Keyed) (placed : order ∈ db .orders)
    (long : 0 ≤ (db.holding order.userId order.assetId).quantity) :
    ∃ holding issued, (db.holding order.userId order.assetId).trade
        ⟨quantityDelta order.side (quantityOf fills),valueOf fills / quantityOf fills⟩ = Option.some holding ∧
      (Server.exact uuid4 now).engine.transact client (bookFills order fills) db =
        match db.hold (uuid4 client 1) order.userId order.assetId holding with
        | .ok (_,after) => ⟨db,.ok (order.fill (quantityOf fills)),issued,
            after.replace .orders (order.fill (quantityOf fills))⟩
        | .error error => ⟨db,.error error,issued,db⟩ := by
  have all := tradeAll_fills order.side some positive long
  obtain ⟨holding,traded⟩ := @Inventory.trade_long _ _ _ _
    ⟨quantityDelta order.side (quantityOf fills),valueOf fills / quantityOf fills⟩ _ long
  obtain ⟨issued,ran⟩ := @run_bookFills _ uuid4 now client ⟨db,[]⟩ order fills some keyed placed holding
    (all.trans traded)
  have each : bookFills order fills = fills.foldlM bookFill order := by
    rw [bookFills,distinctFills_nodup distinct (fun _ _ => List.not_mem_nil)]
  refine ⟨holding,issued,traded,?_⟩
  rw [each]
  simp only [List.length_nil,zero_add] at ran
  cases stored : db.hold (uuid4 client 1) order.userId order.assetId holding with
  | error error =>
    simp only [stored] at ran
    exact Engine.transact_error _ ran
  | ok pair =>
    simp only [stored] at ran
    exact Engine.transact_ok _ ran

theorem bookFills_congr {fills others : List FillEvent} (some : fills ≠ []) (more : others ≠ [])
    (distinct : (fills.map FillEvent.fillId).Nodup) (apart : (others.map FillEvent.fillId).Nodup)
    (positive : ∀ fill ∈ fills, 0 < fill.amount) (above : ∀ fill ∈ others, 0 < fill.amount) (keyed : db.Keyed)
    (placed : order ∈ db .orders) (long : 0 ≤ (db.holding order.userId order.assetId).quantity)
    (quantity : quantityOf others = quantityOf fills) (value : valueOf others = valueOf fills) :
    ((Server.exact uuid4 now).engine.transact client (bookFills order others) db).outcome =
        ((Server.exact uuid4 now).engine.transact client (bookFills order fills) db).outcome ∧
      ((Server.exact uuid4 now).engine.transact client (bookFills order others) db).after =
        ((Server.exact uuid4 now).engine.transact client (bookFills order fills) db).after := by
  obtain ⟨first,_,traded,booked⟩ := @transact_bookFills _ uuid4 now client order db fills some distinct positive keyed
    placed long
  obtain ⟨second,_,same,listed⟩ := @transact_bookFills _ uuid4 now client order db others more apart above keyed
    placed long
  rw [quantity,value] at same
  obtain rfl : first = second := Option.some.inj (traded.symm.trans same)
  rw [booked,listed,quantity]
  cases db.hold (uuid4 client 1) order.userId order.assetId first <;> exact ⟨rfl,rfl⟩

end Runs

section Aggregate
attribute [local instance] DecimalContext.exact

/-- A list of fills, in whatever order, books what the single fill of an aggregate
report books, and posts the same value in total. -/
theorem fills_aggregated {Client : Type} (uuid4 : Client → Nat → Uuid) (now : Client → Timestamp) (client : Client)
    (db : Database) (keyed : db.Keyed) (order : Order) (placed : order ∈ db .orders)
    (long : ∀ position, db.position order.userId order.assetId = some position → 0 ≤ position.quantity)
    (fills : List FillEvent) (some : fills ≠ []) (distinct : (fills.map FillEvent.fillId).Nodup)
    (positive : ∀ fill ∈ fills, 0 < fill.amount ∧ 0 < fill.price) (externalOrderId : String) (fee : ℚ)
    (timestamp : Timestamp) (account : Account) (quoteCurrency : String) (transactionId : Uuid) :
    let single := (aggregateOf externalOrderId fee fills).fillsToProcess timestamp
    let receipt (fills : List FillEvent) := (Server.exact uuid4 now).engine.transact client (bookFills order fills) db
    let posted (fills : List FillEvent) := postedOf fills account quoteCurrency transactionId
    single.length = 1 ∧ (receipt fills).outcome = (receipt single).outcome ∧
      (receipt fills).after = (receipt single).after ∧ posted fills = posted single ∧
      ∀ others, others.Perm fills →
        (receipt others).outcome = (receipt fills).outcome ∧ (receipt others).after = (receipt fills).after := by
  intro single receipt posted
  have held : 0 ≤ (db.holding order.userId order.assetId).quantity := by
    unfold Database.holding
    cases chosen : db.position order.userId order.assetId with
    | none => exact le_rfl
    | some position => exact long position chosen
  have amounts : ∀ fill ∈ fills, 0 < fill.amount := fun fill member => (positive fill member).1
  have sum : 0 < quantityOf fills := by
    apply List.sum_pos
    · simpa using amounts
    · simpa using some
  have alone : single = [⟨externalOrderId,valueOf fills / quantityOf fills,quantityOf fills,fee,timestamp⟩] := by
    simp [single,aggregateOf,OrderSubmission.fillsToProcess]
  have value : valueOf single = valueOf fills := by
    rw [alone]
    simp [valueOf,div_mul_cancel₀ _ sum.ne']
  have quantity : quantityOf single = quantityOf fills := by
    rw [alone]
    simp [quantityOf]
  obtain ⟨outcome,after⟩ := @bookFills_congr _ uuid4 now client order db fills single some (by simp [alone]) distinct
    (by simp [alone]) amounts (by simpa [alone] using sum) keyed placed held quantity value
  refine ⟨by rw [alone]; rfl,outcome.symm,after.symm,?_,fun others shuffled => ?_⟩
  · exact (postedOf_exact ..).trans ((congrArg _ value.symm).trans (postedOf_exact ..).symm)
  · have more : others ≠ [] := fun none => some (List.nil_perm.mp (none ▸ shuffled))
    exact bookFills_congr some more distinct ((shuffled.map FillEvent.fillId).nodup_iff.mpr distinct) amounts
      (fun fill member => amounts fill (shuffled.subset member)) keyed placed held (shuffled.map _).sum_eq
      (shuffled.map _).sum_eq

def sampleOrdered : Database := sample.insert .orders (sampleBuy.order 41)

def sampleFills : List FillEvent := [⟨"f1",100,1,0,0⟩,⟨"f2",200,1,0,0⟩]

/-- Two fills of 1 BTC, at 100 and at 200 BRL, leave 2 BTC at 150 BRL. -/
theorem fills_aggregated_pair :
    let receipt (fills : List FillEvent) := (Server.exact sampleServer.uuid4 sampleServer.now).engine.transact 0
      (bookFills (sampleBuy.order 41) fills) sampleOrdered
    (receipt sampleFills).after = (receipt ((aggregateOf "x1" 1 sampleFills).fillsToProcess 0)).after ∧
      ((receipt sampleFills).after.holding 1 11).average = 150 := by
  refine ⟨(fills_aggregated sampleServer.uuid4 sampleServer.now 0 sampleOrdered (sample_keyed.insert rfl)
    (sampleBuy.order 41) (by decide +kernel) ?_ sampleFills (by decide) (by decide) (by decide +kernel) "x1" 1 0
    ⟨21,1,"BRL",.fiat⟩ "BRL" 51).2.2.1,by decide +kernel⟩
  intro position held
  cases held

end Aggregate

end CryptoBrokerage
