import CryptoBrokerage.OrderLifecycle
import CryptoBrokerage.Routing

/-! The amount and the price that the exchange gets against those that the
columns of the order keep. -/
namespace CryptoBrokerage
open Transaction (Program Engine View Receipt)
open DecimalContext (rounded)

/-- Whatever reaches the exchange has the amount and the price of the order's
row, and a fill of that amount makes the row FILLED. -/
def SameOrder {Client : Type} (server : Server Client) (client : Client) (service : TradingService)
    (request : TradeRequest) (db : Database) : Prop :=
  ∀ sent ∈ submissions (server.engine.transact client (service.executeTrade request) db),
    ∃ account order transaction opened, server.engine.run client request.opening
        ⟨db,[.selectOrder request.idempotencyKey]⟩ = (.ok (account,order,transaction),opened) ∧
      order ∈ opened.db .orders ∧ sent.amount = order.amount ∧ sent.price = order.price ∧
      ∃ filled, (server.engine.run client (OrderRepository.applyFill order sent.amount) opened).1 =
        .ok filled ∧ filled.status = .filled

/-- The columns keep the amount and the price, and 28 digits of the amount are
no less than it and no more than the column takes. -/
def Undistorted (request : TradeRequest) : Prop :=
  Storable request.amount ∧ (∀ price ∈ request.price, Storable price) ∧
    request.amount ≤ rounded request.amount ∧ Storable (rounded request.amount)

instance (request : TradeRequest) : Decidable (Undistorted request) := by
  unfold Undistorted
  infer_instance

theorem storable_same {value kept : ℚ} (ok : numeric36 value = .ok kept) : Storable value ↔ value = kept := by
  unfold Storable
  rw [ok,Except.ok.injEq,eq_comm]

theorem storable_price {price kept : Option ℚ} (ok : price.mapM numeric36 = .ok kept) :
    (∀ value ∈ price, Storable value) ↔ price = kept := by
  cases price with
  | none =>
    cases ok
    simp
  | some value =>
    rw [Option.mapM_some] at ok
    obtain ⟨rounded,stored,same⟩ := except_bind_ok ok
    cases same
    simp [storable_same stored]

/-- The fill of an order that has none makes it FILLED exactly if the sum reaches
the amount and the column takes it. -/
theorem fill_whole {order : Order} {filledQty : ℚ} (unfilled : order.filledAmount = 0) (ordered : 0 < order.amount) :
    (∃ filled, order.fillIn numeric36 filledQty = .ok filled ∧ filled.status = .filled) ↔
      order.amount ≤ rounded filledQty ∧ ∃ kept, numeric36 (rounded filledQty) = .ok kept := by
  have sum : order.filledAmount + filledQty = filledQty := by rw [unfilled,zero_add]
  constructor
  · rintro ⟨filled,returned,full⟩
    obtain ⟨kept,rfl,stored⟩ := Order.flushed_ok returned
    rw [sum] at full stored
    have reached : order.amount ≤ rounded filledQty := by
      by_contra short
      simp [short] at full
    rw [unfilled,rewritten,if_neg (by linarith)] at stored
    exact ⟨reached,kept,stored⟩
  · rintro ⟨reached,kept,stored⟩
    have other : rounded filledQty ≠ 0 := by linarith
    refine ⟨{ order with filledAmount := kept, status := .filled },?_,rfl⟩
    simp [Order.fillIn,Order.flushed,rewritten,unfilled,other,stored,reached,Except.map]

section Opening
variable {Client : Type} {server : Server Client} {client : Client} {request : TradeRequest} {db after : Database}
  {account : Account} {order : Order} {transaction : CryptoBrokerage.Transaction}

theorem Opened.keyed (opened : Opened server client request db account order transaction after) (keyed : db.Keyed) :
    after.Keyed := by
  rw [opened.written]
  exact (keyed.insert (Database.violated_none opened.orderValid).1).insert
    (Database.violated_none opened.transactionValid).1

theorem Opened.placed (opened : Opened server client request db account order transaction after) :
    order ∈ after .orders := by
  rw [opened.orders]
  simp

variable {view : View sql Database}

theorem undistorted_iff (columns : server.numeric = numeric36) (keyed : db.Keyed)
    (opened : Opened server client request db account order transaction view.db) :
    (request.amount = order.amount ∧ request.price = order.price ∧ ∃ filled,
      (server.engine.run client (OrderRepository.applyFill order request.amount) view).1 = .ok filled ∧
        filled.status = .filled) ↔ Undistorted request := by
  obtain ⟨turn,stored⟩ := opened.ordered
  rw [columns] at stored
  have amount : numeric36 request.amount = .ok order.amount := (store_order stored).2.1
  have price : request.price.mapM numeric36 = .ok order.price := (store_order stored).2.2.2
  have unfilled : order.filledAmount = 0 := numeric36_rounding.fixed (zero_mem _) (store_order stored).2.2.1
  have outcome : (server.engine.run client (OrderRepository.applyFill order request.amount) view).1 =
      order.fillIn numeric36 request.amount := by
    obtain ⟨issued,ran⟩ := @run_perform _ server client view order _ (opened.keyed keyed) opened.placed
      (.applyFill request.amount)
    change (Engine.run _ client (OrderUpdate.perform order (.applyFill request.amount)) view).1 = _
    rw [ran,columns]
    change _ = OrderUpdate.row numeric36 order (.applyFill request.amount)
    cases OrderUpdate.row numeric36 order (.applyFill request.amount) <;> rfl
  unfold Undistorted
  rw [outcome,storable_same amount,storable_price price]
  refine and_congr_right fun same => and_congr_right fun _ => ?_
  rw [fill_whole unfilled (same ▸ opened.positive),← same]
  refine and_congr_right fun _ => ?_
  constructor
  · rintro ⟨kept,stored⟩
    have grid := grid36_rounded (numeric36_rounding.stored ((storable_same amount).mpr same))
    rwa [numeric36_rounding.fixed grid stored] at stored
  · exact fun storable => ⟨_,storable⟩

end Opening

/-- The exchange and the database have the same order exactly if the request does
not get that far or its numbers are undistorted. -/
theorem submitted_as_stored_iff {Client : Type} (server : Server Client) (columns : server.numeric = numeric36)
    (client : Client) (service : TradingService) (request : TradeRequest) (db : Database) (keyed : db.Keyed) :
    SameOrder server client service request db ↔ (Placeable server client request db → Undistorted request) := by
  constructor
  · intro same placeable
    have submitted := (@submitted_iff _ server client service request db).mpr placeable
    obtain ⟨account,order,transaction,opened,opening,_,amount,price,filled⟩ := same _ (mem_submissions.mpr submitted)
    exact (undistorted_iff columns keyed (run_opening_ok opening)).mp ⟨amount,price,filled⟩
  · intro undistorted sent member
    have submitted := mem_submissions.mp member
    obtain rfl := submitted_only submitted
    obtain ⟨account,order,transaction,opened,opening⟩ := opening_of_submitted (unused_of_submitted submitted) submitted
    have written := run_opening_ok opening
    obtain ⟨amount,price,filled⟩ := (undistorted_iff columns keyed written).mpr (undistorted (submitted_iff.mp submitted))
    exact ⟨account,order,transaction,opened,opening,written.placed,amount,price,filled⟩

def sampleTraded (request : TradeRequest) : Receipt sql Database Order :=
  sampleServer.engine.transact oneClient ((TradingService.init (fun _ => .ok sampleOpen) 0).executeTrade request) sample

theorem submitted_as_stored_two : (submissions (sampleTraded sampleBuy)).map SubmittedOrder.amount = [2] ∧
    SameOrder sampleServer 0 (TradingService.init (fun _ => .ok sampleOpen) 0) sampleBuy sample := by
  exact ⟨by decide +kernel,(submitted_as_stored_iff sampleServer rfl 0
    (TradingService.init (fun _ => .ok sampleOpen) 0) sampleBuy sample sample_keyed).mpr fun _ => by decide +kernel⟩

def sampleFine : OrderCreate := { sampleOffer .limit (some 100) with amount := 1 + 6/10^19 }

/-- A BUY of 1.0000000000000000006 BTC is stored as one of 1.000000000000000001,
which a fill of what was submitted does not complete. -/
theorem submitted_below_stored :
    let receipt := sampleTraded (sampleFine.request sampleBuyer)
    sampleFine.validate = .ok () ∧ (submissions receipt).map SubmittedOrder.amount = [1 + 6/10^19] ∧
      (receipt.after .orders).map Order.amount = [1 + 1/10^18] ∧
      ¬SameOrder sampleServer 0 (TradingService.init (fun _ => .ok sampleOpen) 0)
        (sampleFine.request sampleBuyer) sample := by
  have sent : (submissions (sampleTraded (sampleFine.request sampleBuyer))).map SubmittedOrder.amount =
      [1 + 6/10^19] := by decide +kernel
  refine ⟨by decide +kernel,sent,by decide +kernel,?_⟩
  intro same
  obtain ⟨order,member,_⟩ := List.mem_map.mp (sent ▸ List.mem_singleton.mpr rfl)
  obtain ⟨account,row,transaction,opened,opening,_,amount,price,filled⟩ := same order member
  obtain rfl := submitted_only (mem_submissions.mp member)
  have undistorted := (undistorted_iff rfl sample_keyed (run_opening_ok opening)).mp ⟨amount,price,filled⟩
  revert undistorted
  decide +kernel

end CryptoBrokerage
