import CryptoBrokerage.FillSum

/-! The life of an order under `apply_fill` and `update_status`, against the
state machine of `OrderStatus`. -/
namespace CryptoBrokerage
open Transaction (Program Engine View Receipt)
open DecimalContext (rounded)

namespace Trail
variable {State Action : Type} {next : State → Action → State} {holds meets : State → Action → Prop}

def Every (next : State → Action → State) (holds : State → Action → Prop) : State → List Action → Prop
  | _, [] => True
  | state, action::rest => holds state action ∧ Every next holds (next state action) rest

theorem every_congr (same : ∀ state action, holds state action ↔ meets state action) {state : State}
    {actions : List Action} : Every next holds state actions ↔ Every next meets state actions := by
  induction actions generalizing state with
  | nil => exact Iff.rfl
  | cons action rest ih => exact and_congr (same state action) ih

end Trail

def OrderStatus.successors : OrderStatus → List OrderStatus
  | .pending => [.partiallyFilled,.filled,.failed,.cancelled]
  | .partiallyFilled => [.partiallyFilled,.filled,.failed,.cancelled]
  | _ => []

structure StoredOrder where
  order : Order
  db : Database
  keyed : db.Keyed
  placed : order ∈ db .orders

inductive OrderUpdate
  | applyFill (filledQty : ℚ)
  | updateStatus (status : OrderStatus)
  deriving DecidableEq, Repr

def OrderUpdate.perform [DecimalContext] (order : Order) : OrderUpdate → Action Order
  | .applyFill filledQty => OrderRepository.applyFill order filledQty
  | .updateStatus status => OrderRepository.updateStatus order status

section Rows
variable {numeric : ℚ → Except Exception ℚ}

theorem rewritten_error {old new : ℚ} {error : Exception} (failed : rewritten numeric old new = .error error) :
    numeric new = .error error := by
  unfold rewritten at failed
  split at failed
  · cases failed
  · exact failed

def Order.flushed (numeric : ℚ → Except Exception ℚ) (order : Order) (newFilled : ℚ) (status : OrderStatus) :
    Except Exception Order :=
  (rewritten numeric order.filledAmount newFilled).map fun filledAmount => { order with filledAmount, status }

def Order.fillIn [DecimalContext] (numeric : ℚ → Except Exception ℚ) (order : Order) (filledQty : ℚ) :
    Except Exception Order :=
  let newFilled := rounded (order.filledAmount + filledQty)
  order.flushed numeric newFilled (if order.amount ≤ newFilled then .filled else .partiallyFilled)

def OrderUpdate.row [DecimalContext] (numeric : ℚ → Except Exception ℚ) (order : Order) :
    OrderUpdate → Except Exception Order
  | .applyFill filledQty => order.fillIn numeric filledQty
  | .updateStatus status => .ok { order with status }

theorem clean_order {order : Order} {newFilled : ℚ} {status : OrderStatus}
    (clean : Table.dirty .orders order { filledAmount := newFilled, status } = none) :
    newFilled = order.filledAmount ∧ status = order.status := by
  rw [Table.dirty,ite_eq_left_iff] at clean
  have idle := not_imp_comm.mp clean (by simp)
  simp only [OrderColumns.mk.injEq,changed_none] at idle
  exact idle

theorem updated_order (order : Order) (newFilled : ℚ) (status : OrderStatus) :
    Table.updated numeric .orders order { filledAmount := newFilled, status } = order.flushed numeric newFilled status := by
  cases changes : Table.dirty .orders order { filledAmount := newFilled, status } with
  | none =>
    obtain ⟨rfl,rfl⟩ := clean_order changes
    rw [Table.updated_clean changes,Order.flushed,rewritten,if_pos rfl]
    rfl
  | some columns =>
    rw [Table.updated_dirty changes,Order.flushed]
    obtain rfl := Table.dirty_order changes
    simp only [Table.storeColumns,rewritten_column]
    by_cases same : newFilled = order.filledAmount
    · rw [if_pos same,rewritten,if_pos same]
      simp [Table.assign,Except.map,bind,Except.bind,pure,Except.pure,changed_getD]
    · rw [if_neg same]
      cases rewritten numeric order.filledAmount newFilled with
      | error error => rfl
      | ok kept => simp [Table.assign,Except.map,bind,Except.bind,pure,Except.pure,changed_getD]

theorem updated_status (order : Order) (status : OrderStatus) :
    Table.updated numeric .orders order { status } = .ok { order with status } := by
  apply Table.updated_kept
  intro columns dirty
  obtain rfl := Table.dirty_order dirty
  rfl

theorem Order.flushed_ok {order row : Order} {newFilled : ℚ} {status : OrderStatus}
    (ok : order.flushed numeric newFilled status = .ok row) : ∃ filledAmount, row = { order with filledAmount, status } ∧
      rewritten numeric order.filledAmount newFilled = .ok filledAmount := by
  unfold Order.flushed at ok
  cases kept : rewritten numeric order.filledAmount newFilled with
  | error error => simp [kept,Except.map] at ok
  | ok filledAmount =>
    rw [kept] at ok
    exact ⟨filledAmount,(Except.ok.inj ok).symm,rfl⟩

theorem OrderUpdate.row_id [DecimalContext] {order row : Order} {update : OrderUpdate}
    (ok : update.row numeric order = .ok row) : row.id = order.id := by
  cases update with
  | applyFill filledQty =>
    obtain ⟨_,rfl,_⟩ := Order.flushed_ok ok
    rfl
  | updateStatus status =>
    obtain rfl := Except.ok.inj ok
    rfl

end Rows

section Runs
variable {Client : Type} {server : Server Client} {client : Client} {view : View sql Database} {order : Order}

theorem run_perform [DecimalContext] (keyed : view.db.Keyed) (placed : order ∈ view.db .orders) (update : OrderUpdate) :
    ∃ issued, server.engine.run client (update.perform order) view =
      match update.row server.numeric order with
      | .ok row => (.ok row,⟨view.db.replace .orders row,issued⟩)
      | .error error => (.error error,⟨view.db,issued⟩) := by
  have performed : ∃ set, update.perform order = BaseRepository.update .orders order set ∧
      Table.updated server.numeric .orders order set = update.row server.numeric order := by
    cases update with
    | applyFill filledQty => exact ⟨_,rfl,updated_order ..⟩
    | updateStatus status => exact ⟨_,rfl,updated_status ..⟩
  obtain ⟨set,same,updated⟩ := performed
  obtain ⟨issued,ran⟩ := @run_update _ server client view .orders order set keyed placed
  rw [updated] at ran
  refine ⟨issued,?_⟩
  rw [same,ran]
  cases update.row server.numeric order <;> rfl

end Runs

section Steps
variable [DecimalContext] {Client : Type} (server : Server Client) (client : Client)

namespace StoredOrder

def receipt (state : StoredOrder) (update : OrderUpdate) : Receipt sql Database Order :=
  server.engine.transact client (update.perform state.order) state.db

theorem receipt_ok {state : StoredOrder} {update : OrderUpdate} {order : Order}
    (returned : (state.receipt server client update).outcome = .ok order) :
    update.row server.numeric state.order = .ok order ∧
      (state.receipt server client update).after = state.db.replace .orders order := by
  obtain ⟨issued,ran⟩ := @run_perform _ server client ⟨state.db,[]⟩ state.order _ state.keyed state.placed update
  unfold receipt at returned ⊢
  cases row : update.row server.numeric state.order with
  | error error =>
    simp only [row] at ran
    rw [Engine.transact_error _ ran] at returned
    cases returned
  | ok other =>
    simp only [row] at ran
    rw [Engine.transact_ok _ ran] at returned ⊢
    obtain rfl := Except.ok.inj returned
    exact ⟨rfl,rfl⟩

/-- The order as the update returns it. One that raises leaves it as it was. -/
def after (state : StoredOrder) (update : OrderUpdate) : StoredOrder :=
  match returned : (state.receipt server client update).outcome with
  | .error _ => state
  | .ok order =>
    have replaced := state.receipt_ok server client returned
    { order
      db := (state.receipt server client update).after
      keyed := replaced.2 ▸ state.keyed.replace _ _
      placed := by
        rw [replaced.2,Database.replace_self,List.mem_map]
        exact ⟨state.order,state.placed,if_pos (OrderUpdate.row_id replaced.1).symm⟩ }

theorem receipt_outcome (state : StoredOrder) (update : OrderUpdate) :
    (state.receipt server client update).outcome = update.row server.numeric state.order := by
  obtain ⟨issued,ran⟩ := @run_perform _ server client ⟨state.db,[]⟩ state.order _ state.keyed state.placed update
  unfold receipt
  rw [Engine.transact_outcome,ran]
  cases update.row server.numeric state.order <;> rfl

theorem after_order (state : StoredOrder) (update : OrderUpdate) : (state.after server client update).order =
    (update.row server.numeric state.order).toOption.getD state.order := by
  have outcome := state.receipt_outcome server client update
  unfold after
  split
  · next raised => rw [outcome.symm.trans raised]; rfl
  · next returned => exact (congrArg (fun row => row.toOption.getD state.order) (outcome.symm.trans returned)).symm

end StoredOrder

/-- The update moves the status along the machine, and neither the status nor the
filled amount of a terminal order. -/
def Lawful (state : StoredOrder) (update : OrderUpdate) : Prop :=
  let next := state.after server client update
  (next.order.status ≠ state.order.status → next.order.status ∈ state.order.status.successors) ∧
    (state.order.status.isTerminal → next.order.status = state.order.status ∧
      next.order.filledAmount = state.order.filledAmount ∧
      ∀ error, (state.receipt server client update).outcome = .error error →
        ∃ message, error = .orderAlreadyFinalized message)

/-- A terminal order gets its own status again, or a fill that rounding absorbs,
and one that is partially filled does not go back to PENDING. -/
def Respectful (order : Order) : OrderUpdate → Prop
  | .updateStatus status =>
    if order.status.isTerminal then status = order.status else ¬(order.status = .partiallyFilled ∧ status = .pending)
  | .applyFill filledQty =>
    let newFilled := rounded (order.filledAmount + filledQty)
    order.status.isTerminal → order.status = .filled ∧ order.amount ≤ newFilled ∧
      rewritten numeric36 order.filledAmount newFilled = .ok order.filledAmount

end Steps

section Verdicts
variable {numeric : ℚ → Except Exception ℚ} {order : Order}

theorem status_moves (old new : OrderStatus) :
    (new ≠ old → new ∈ old.successors) ∧ (old.isTerminal → new = old) ↔
      if old.isTerminal then new = old else ¬(old = .partiallyFilled ∧ new = .pending) := by
  cases old <;> cases new <;> simp [OrderStatus.successors,OrderStatus.isTerminal]

theorem live_successors {status : OrderStatus} (live : ¬status.isTerminal) :
    .filled ∈ status.successors ∧ .partiallyFilled ∈ status.successors := by
  cases status <;> simp_all [OrderStatus.successors,OrderStatus.isTerminal]

theorem numeric36_data {value : ℚ} {error : Exception} (failed : numeric36 value = .error error) :
    error = .data "numeric field overflow" := by
  unfold numeric36 at failed
  simp only at failed
  split at failed
  · exact (Except.error.inj failed).symm
  · cases failed

theorem fill_terminal [DecimalContext] {filledQty : ℚ} (terminal : order.status.isTerminal) :
    let newFilled := rounded (order.filledAmount + filledQty)
    let row := order.fillIn numeric36 filledQty
    ((row.toOption.getD order).status = order.status ∧ (row.toOption.getD order).filledAmount = order.filledAmount ∧
      ∀ error, row = .error error → ∃ message, error = .orderAlreadyFinalized message) ↔
      order.status = .filled ∧ order.amount ≤ newFilled ∧
        rewritten numeric36 order.filledAmount newFilled = .ok order.filledAmount := by
  intro newFilled row
  cases kept : rewritten numeric36 order.filledAmount newFilled with
  | error error =>
    have raised : row = .error error := by
      simp only [row,Order.fillIn,Order.flushed]
      rw [kept]
      rfl
    simp [raised,numeric36_data (rewritten_error kept)]
  | ok filledAmount =>
    have returned : row = .ok { order with
        filledAmount, status := if order.amount ≤ newFilled then .filled else .partiallyFilled } := by
      simp only [row,Order.fillIn,Order.flushed]
      rw [kept]
      rfl
    by_cases full : order.amount ≤ newFilled
    · simp [returned,full,Except.toOption,eq_comm]
    · have other : OrderStatus.partiallyFilled ≠ order.status := by
        intro same
        rw [← same] at terminal
        cases terminal
      simp [returned,full,other,Except.toOption]

theorem fill_live [DecimalContext] {filledQty : ℚ} (live : ¬order.status.isTerminal) :
    let row := order.fillIn numeric filledQty
    (row.toOption.getD order).status ≠ order.status → (row.toOption.getD order).status ∈ order.status.successors := by
  intro row moved
  cases returned : row with
  | error error => simp [returned,Except.toOption] at moved
  | ok row =>
    obtain ⟨filledAmount,rfl,_⟩ := Order.flushed_ok returned
    obtain ⟨filled,partially⟩ := live_successors live
    simp only [Except.toOption,Option.getD_some]
    split
    · exact filled
    · exact partially

end Verdicts

/-- An order keeps to its machine in a run of updates exactly if every update respects its state. -/
theorem orders_lawful_iff [DecimalContext] {Client : Type} (server : Server Client) (client : Client)
    (state : StoredOrder) (updates : List OrderUpdate) :
    let server : Server Client := { server with numeric := numeric36 }
    Trail.Every (StoredOrder.after server client) (Lawful server client) state updates ↔
      Trail.Every (StoredOrder.after server client) (fun state => Respectful state.order) state updates := by
  intro server
  apply Trail.every_congr
  intro state update
  unfold Lawful
  simp only [StoredOrder.after_order,StoredOrder.receipt_outcome]
  cases update with
  | updateStatus status =>
    have moves := status_moves state.order.status status
    simp only [Respectful,← moves]
    simp [OrderUpdate.row,Except.toOption]
  | applyFill filledQty =>
    simp only [Respectful,OrderUpdate.row]
    by_cases terminal : state.order.status.isTerminal
    · have absorbed := @fill_terminal state.order _ filledQty terminal
      exact ⟨fun lawful _ => absorbed.mp (lawful.2 terminal),fun respectful =>
        ⟨fun moved => absurd (absorbed.mpr (respectful terminal)).1 moved,fun _ => absorbed.mpr (respectful terminal)⟩⟩
    · exact ⟨fun _ held => absurd held terminal,fun _ => ⟨fill_live terminal,fun held => absurd held terminal⟩⟩

def sampleStored : StoredOrder where
  order := samplePending 3
  db := samplePlaced 3
  keyed := sample_keyed.insert rfl
  placed := List.mem_singleton.mpr rfl

/-- An answer REJECTED with a fill of the whole amount fails the filled order, and
a fill that comes after it fills the order again, twice over. -/
theorem filled_order_failed :
    let after := StoredOrder.after sampleServer 0
    let run (updates : List OrderUpdate) := (updates.foldl after sampleStored).order
    (run [.applyFill 3]).status = .filled ∧ (run [.applyFill 3,.updateStatus .failed]).status = .failed ∧
      (run [.applyFill 3,.updateStatus .failed,.applyFill 3]).status = .filled ∧
      (run [.applyFill 3,.updateStatus .failed,.applyFill 3]).filledAmount = 6 ∧
      ¬Trail.Every after (Lawful sampleServer 0) sampleStored [.applyFill 3,.updateStatus .failed] := by
  intro after run
  have filled : (run [.applyFill 3]).status = .filled := by decide +kernel
  have failed : (run [.applyFill 3,.updateStatus .failed]).status = .failed := by decide +kernel
  refine ⟨filled,failed,by decide +kernel,by decide +kernel,?_⟩
  intro every
  have kept := (every.2.1.2 (by change (run [.applyFill 3]).status.isTerminal; rw [filled]; rfl)).1
  change (run [.applyFill 3,.updateStatus .failed]).status = (run [.applyFill 3]).status at kept
  rw [filled,failed] at kept
  cases kept

end CryptoBrokerage
