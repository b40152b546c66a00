import CryptoBrokerage.AggregateFill
import CryptoBrokerage.OrderLifecycle

/-! The status of an order against what has been filled of it: the bound of its
amount, in exact arithmetic, and the unit that the amount is in. -/
namespace CryptoBrokerage
open Transaction (Receipt)
open DecimalContext (rounded)

/-- A sum that the context and the column keep is stored as it is. -/
theorem fillIn_kept [DecimalContext] {numeric : ℚ → Except Exception ℚ} {order : Order} {filledQty : ℚ}
    (keeps : Keeps numeric (order.filledAmount + filledQty)) : order.fillIn numeric filledQty = .ok (order.fill filledQty) := by
  unfold Order.fillIn Order.flushed
  simp only [keeps.1,rewritten_keeps keeps.2,Except.map,Order.fill]

section Exact
attribute [local instance] DecimalContext.exact
variable {Client : Type} (uuid4 : Client → Nat → Uuid) (now : Client → Timestamp) (client : Client)

namespace StoredOrder
variable (state : StoredOrder) (filledQty : ℚ)

/-- `apply_fill` alone, of exact sums. -/
def filledReceipt : Receipt sql Database Order :=
  state.receipt (Server.exact uuid4 now) client (.applyFill filledQty)

def filled : StoredOrder := state.after (Server.exact uuid4 now) client (.applyFill filledQty)

@[simp] theorem filledReceipt_outcome :
    (state.filledReceipt uuid4 now client filledQty).outcome = .ok (state.order.fill filledQty) := by
  unfold filledReceipt
  rw [receipt_outcome]
  exact fillIn_kept ⟨rfl,rfl⟩

@[simp] theorem filled_order : (state.filled uuid4 now client filledQty).order = state.order.fill filledQty := by
  unfold filled
  rw [after_order]
  change (Except.toOption (state.order.fillIn .ok filledQty)).getD _ = _
  rw [fillIn_kept ⟨rfl,rfl⟩]
  rfl

end StoredOrder

/-- The fill leaves no more filled than the order is for, and a status that says
whether that is all. One that exceeds the rest is rejected. -/
def Bounded (state : StoredOrder) (filledQty : ℚ) : Prop :=
  let next := (state.filled uuid4 now client filledQty).order
  (0 ≤ next.filledAmount ∧ next.filledAmount ≤ next.amount) ∧
    (next.status = .filled ↔ next.filledAmount = next.amount) ∧
    (next.status = .partiallyFilled ↔ 0 < next.filledAmount ∧ next.filledAmount < next.amount) ∧
    (state.order.amount < state.order.filledAmount + filledQty →
      (∃ error, (state.filledReceipt uuid4 now client filledQty).outcome = .error error) ∧ next = state.order)

variable {uuid4 now client} {state : StoredOrder} {filledQty : ℚ}

theorem bounded_iff (nonneg : 0 ≤ state.order.filledAmount) (positive : 0 < filledQty) :
    Bounded uuid4 now client state filledQty ↔ state.order.filledAmount + filledQty ≤ state.order.amount := by
  unfold Bounded
  simp only [StoredOrder.filled_order,StoredOrder.filledReceipt_outcome]
  constructor
  · intro bounded
    exact bounded.1.2
  · intro fits
    have above : 0 < state.order.filledAmount + filledQty := by linarith
    refine ⟨⟨above.le,fits⟩,?_,?_,fun excess => absurd fits excess.not_ge⟩
    · by_cases full : state.order.amount ≤ state.order.filledAmount + filledQty
      · simp [Order.fill,fits.antisymm full]
      · simp [Order.fill,full,(not_le.mp full).ne]
    · by_cases full : state.order.amount ≤ state.order.filledAmount + filledQty
      · simp [Order.fill,full]
      · simp [Order.fill,full,above,not_le.mp full]

theorem every_bounded {quantities : List ℚ} (nonneg : 0 ≤ state.order.filledAmount)
    (within : state.order.filledAmount ≤ state.order.amount) (positive : ∀ quantity ∈ quantities, 0 < quantity) :
    Trail.Every (StoredOrder.filled uuid4 now client) (Bounded uuid4 now client) state quantities ↔
      state.order.filledAmount + quantities.sum ≤ state.order.amount := by
  induction quantities generalizing state with
  | nil => simpa [Trail.Every] using within
  | cons quantity rest ih =>
    have first := positive quantity List.mem_cons_self
    have later : ∀ other ∈ rest, 0 < other := fun other among => positive other (List.mem_cons_of_mem _ among)
    have sum : 0 ≤ rest.sum := List.sum_nonneg fun other among => (later other among).le
    unfold Trail.Every
    rw [bounded_iff nonneg first,List.sum_cons,← add_assoc]
    by_cases fits : state.order.filledAmount + quantity ≤ state.order.amount
    · have next := @ih (state.filled uuid4 now client quantity)
      rw [StoredOrder.filled_order] at next
      rw [next (by change 0 ≤ state.order.filledAmount + quantity; linarith) fits later]
      exact and_iff_right fits
    · simp only [fits,false_and,false_iff]
      intro all
      linarith

end Exact

/-- An order stays within its amount, fill by fill, exactly if all of the fills
together do. -/
theorem fills_bounded_iff {Client : Type} (uuid4 : Client → Nat → Uuid) (now : Client → Timestamp) (client : Client)
    (state : StoredOrder) (quantities : List ℚ) (ordered : 0 < state.order.amount) (unfilled : state.order.filledAmount = 0)
    (positive : ∀ quantity ∈ quantities, 0 < quantity) :
    Trail.Every (StoredOrder.filled uuid4 now client) (Bounded uuid4 now client) state quantities ↔
      quantities.sum ≤ state.order.amount := by
  rw [every_bounded (by rw [unfilled]) (by rw [unfilled]; exact ordered.le) positive,unfilled,zero_add]

theorem fills_bounded_three : Trail.Every (StoredOrder.filled sampleServer.uuid4 sampleServer.now 0)
    (Bounded sampleServer.uuid4 sampleServer.now 0) sampleStored [1,2] :=
  (fills_bounded_iff sampleServer.uuid4 sampleServer.now 0 sampleStored [1,2] (by decide) rfl (by decide)).mpr
    (by decide +kernel)

/-- Fills of 2 and 2 leave 4 filled of an order of 3. -/
theorem fills_exceeding :
    let run := [2,2].foldl (StoredOrder.filled sampleServer.uuid4 sampleServer.now 0) sampleStored
    run.order.amount = 3 ∧ run.order.filledAmount = 4 ∧ run.order.status = .filled ∧
      ¬Trail.Every (StoredOrder.filled sampleServer.uuid4 sampleServer.now 0)
        (Bounded sampleServer.uuid4 sampleServer.now 0) sampleStored [2,2] := by
  refine ⟨by decide +kernel,by decide +kernel,by decide +kernel,?_⟩
  rw [every_bounded (by decide) (by decide) (by decide)]
  decide +kernel

section Units
variable {Client : Type} (server : Server Client) (client : Client)

def StoredOrder.processed (state : StoredOrder) (fills : List FillEvent) : StoredOrder :=
  ((distinctFills [] fills).map fun fill => .applyFill fill.amount).foldl (StoredOrder.after server client) state

def FilledByValue (state : StoredOrder) (fills : List FillEvent) : Prop :=
  let final := (state.processed server client fills).order
  (final.status = .filled ↔ state.order.amount ≤ valueOf fills) ∧
    (0 < valueOf fills ∧ valueOf fills < state.order.amount → final.status = .partiallyFilled)

def AddsExactly (order : Order) (fills : List FillEvent) : Prop :=
  ∀ early late, fills = early ++ late → early ≠ [] → Keeps server.numeric (order.filledAmount + quantityOf early)

variable {server client} {state : StoredOrder} {fills : List FillEvent}

theorem filled_kept (keeps : ∀ early late, fills = early ++ late → early ≠ [] →
      Keeps server.numeric (state.order.filledAmount + quantityOf early)) :
    ((fills.map fun fill => OrderUpdate.applyFill fill.amount).foldl (StoredOrder.after server client) state).order =
      (fills.map FillEvent.amount).foldl Order.fill state.order := by
  induction fills generalizing state with
  | nil => rfl
  | cons fill rest ih =>
    have first := keeps [fill] rest rfl (by simp)
    rw [quantityOf,List.map_singleton,List.sum_singleton] at first
    have next : (state.after server client (.applyFill fill.amount)).order = state.order.fill fill.amount := by
      rw [StoredOrder.after_order]
      change (Except.toOption (state.order.fillIn server.numeric fill.amount)).getD _ = _
      rw [fillIn_kept first]
      rfl
    rw [List.map_cons,List.foldl_cons,List.map_cons,List.foldl_cons,ih,next]
    intro early late split some
    have later := keeps (fill::early) late (by rw [split]; rfl) (by simp)
    rw [quantityOf,List.map_cons,List.sum_cons,← add_assoc] at later
    rw [next]
    exact later

theorem processed_status (some : fills ≠ []) (distinct : (fills.map FillEvent.fillId).Nodup)
    (exact : AddsExactly server state.order fills) : (state.processed server client fills).order.status =
      if state.order.amount ≤ state.order.filledAmount + quantityOf fills then .filled else .partiallyFilled := by
  unfold StoredOrder.processed
  rw [distinctFills_nodup distinct (by simp),filled_kept exact]
  exact foldl_fill_status (by simpa using some)

end Units

/-- Where no sum is rounded, fills fill an order by their value exactly if their quantity
reaches its amount when their value does. That is so of every order, also of a SELL. -/
theorem filled_by_value_iff {Client : Type} (server : Server Client) (client : Client)
    (state : StoredOrder) (fills : List FillEvent) (distinct : (fills.map FillEvent.fillId).Nodup)
    (exact : AddsExactly server state.order fills) :
    FilledByValue server client state fills ↔
      if fills = [] then (state.order.status = .filled ↔ state.order.amount ≤ 0)
      else (state.order.amount ≤ state.order.filledAmount + quantityOf fills ↔ state.order.amount ≤ valueOf fills) := by
  unfold FilledByValue
  by_cases none : fills = []
  · subst none
    simp [StoredOrder.processed,distinctFills,valueOf]
  · rw [if_neg none]
    simp only [processed_status none distinct exact]
    by_cases full : state.order.amount ≤ state.order.filledAmount + quantityOf fills
    · simp only [full,if_true,true_iff]
      exact and_iff_left_of_imp fun worth less => absurd worth less.2.not_ge
    · simp [full]

def sampleSale : StoredOrder where
  order := { samplePending 100 with side := .sell }
  db := sample.insert .orders { samplePending 100 with side := .sell }
  keyed := sample_keyed.insert rfl
  placed := List.mem_singleton.mpr rfl

theorem filled_by_value_par : FilledByValue sampleServer 0 sampleSale [⟨"f1",1,100,0,0⟩] :=
  (filled_by_value_iff sampleServer 0 sampleSale [⟨"f1",1,100,0,0⟩] (by decide) (by
    intro early late split some
    obtain ⟨rfl,rfl⟩ | ⟨rest,rfl,_⟩ := List.append_eq_cons_iff.mp split.symm
    · exact absurd rfl some
    · obtain rfl : rest = [] := by simp_all
      decide +kernel)).mpr (by decide +kernel)

/-- The sale of 1 BTC at 100 BRL leaves the order PARTIALLY_FILLED. -/
theorem sell_worth_unfilled :
    let fills : List FillEvent := [⟨"f1",100,1,0,0⟩]
    let final := (sampleSale.processed sampleServer 0 fills).order
    sampleSale.order.side = .sell ∧ valueOf fills = sampleSale.order.amount ∧ final.status = .partiallyFilled ∧
      final.filledAmount = 1 ∧ ¬FilledByValue sampleServer 0 sampleSale fills := by
  intro fills final
  have partially : final.status = .partiallyFilled := by decide +kernel
  refine ⟨rfl,by decide +kernel,partially,by decide +kernel,?_⟩
  intro valued
  have full := valued.1.mpr (by decide +kernel)
  change final.status = .filled at full
  rw [partially] at full
  cases full

end CryptoBrokerage
