import CryptoBrokerage.Settlement

/-! What a returned order records of the exchange's answer, whose status, amount
and fills vary independently. -/
namespace CryptoBrokerage
open Transaction (Program Engine View Receipt)

def distinctFills : List String → List FillEvent → List FillEvent
  | _, [] => []
  | seen, fill::rest =>
    if fill.fillId ∈ seen then distinctFills seen rest
    else fill::distinctFills (fill.fillId::seen) rest

theorem distinctFills_nodup {seen : List String} {fills : List FillEvent} (distinct : (fills.map FillEvent.fillId).Nodup)
    (unseen : ∀ fill ∈ fills, fill.fillId ∉ seen) : distinctFills seen fills = fills := by
  induction fills generalizing seen with
  | nil => rfl
  | cons fill rest ih =>
    rw [List.map_cons,List.nodup_cons] at distinct
    rw [distinctFills,if_neg (unseen fill (by simp)),ih distinct.2]
    intro other member
    rw [List.mem_cons]
    intro taken
    rcases taken with same | earlier
    · exact distinct.1 (same ▸ List.mem_map_of_mem member)
    · exact unseen other (List.mem_cons_of_mem _ member) earlier

/-- The loop of step 7 processes the first fill of each id. -/
theorem fillLoop_distinct {m : Type → Type} [Monad m] {State : Type} (processFill : State → FillEvent → m State)
    (seen : List String) (state : State) (fills : List FillEvent) :
    fillLoop processFill seen state fills = (distinctFills seen fills).foldlM processFill state := by
  induction fills generalizing seen state with
  | nil => rfl
  | cons fill rest ih =>
    unfold fillLoop distinctFills
    split
    · exact ih seen state
    · rw [List.foldlM_cons]
      congr 1
      funext next
      exact ih _ next

theorem processFills_distinct [DecimalContext] (service : TradingService) (account : Account) (quoteCurrency : String)
    (transactionId : Uuid) (seen : List String) (order : Order) (fills : List FillEvent) :
    service.processFills account quoteCurrency transactionId seen order fills =
      (distinctFills seen fills).foldlM (fun order fill =>
        service.processFill order fill account quoteCurrency transactionId) order :=
  fillLoop_distinct _ seen order fills

def OrderSubmission.executed (submission : OrderSubmission) : ℚ :=
  if submission.fills = [] then submission.filledAmount
  else ((distinctFills [] submission.fills).map FillEvent.amount).sum

/-- The statuses of an order and of its transaction agree, and they are FAILED
exactly for a rejected order. -/
def Agree (order : OrderStatus) (transaction : TransactionStatus) (submission : OrderSubmission) : Prop :=
  ((order = .filled ∧ transaction = .completed) ∨ (order = .partiallyFilled ∧ transaction = .processing) ∨
    (order = .failed ∧ transaction = .failed) ∨ (order = .pending ∧ transaction = .pending)) ∧
  ((order = .failed ∧ transaction = .failed) ↔ submission.status = "REJECTED")

/-- The order and its transaction are stored, the order with what the exchange
executed, and their statuses agree. -/
def ExecutionRecorded (submission : OrderSubmission) (order : Order) (receipt : Receipt sql Database Order) : Prop :=
  order.filledAmount = submission.executed ∧ receipt.after .orders = receipt.before .orders ++ [order] ∧
  ∃ row : CryptoBrokerage.Transaction, receipt.after .transactions = receipt.before .transactions ++ [row] ∧
    row.referenceId = some (str order.id) ∧ Agree order.status row.status submission

def finalised (order : Order) (row : CryptoBrokerage.Transaction) (status : String) :
    Order × CryptoBrokerage.Transaction :=
  if status = "REJECTED" then ({ order with status := .failed },{ row with status := .failed })
  else if status = "FILLED" ∨ status = "PARTIALLY_FILLED" then (order,{ row with status := .processing })
  else (order,row)

section Records
variable {Client : Type} {server : Server Client} {client : Client} {view last : View sql Database}

/-- An update of the last row of a table, of columns that are stored as they are. -/
theorem run_update_last {t : Table} {row result : t.Row} {set : t.Columns} {rest : List t.Row}
    (table : view.db t = rest ++ [row]) (fresh : ∀ other ∈ rest, t.key other ≠ t.key row)
    (whole : ∀ columns, t.dirty row set = some columns → t.storeColumns server.numeric columns = .ok columns)
    (ran : server.engine.run client (BaseRepository.update t row set) view = (.ok result,last)) :
    result = t.assign set row ∧ last.db t = rest ++ [result] ∧ ∀ other, other ≠ t → last.db other = view.db other := by
  have absent : rest.find? (fun other => t.key other == t.key row) = none := by
    rw [List.find?_eq_none]
    intro other member same
    exact fresh other member (by simpa using same)
  have found : view.db.find t (t.key row) = some row := by
    rw [Database.find,table,List.find?_append,absent]
    simp
  have assigned := t.assign_dirty row set
  rcases run_update_ok found ran with ⟨clean,same,kept⟩ | ⟨columns,stored,changes,ok,same,kept⟩
  · rw [clean] at assigned
    rw [kept,same]
    exact ⟨assigned,table,fun _ _ => rfl⟩
  · rw [changes] at assigned
    obtain rfl : columns = stored := Except.ok.inj ((whole columns changes).symm.trans ok)
    have others : rest.map (fun other => if t.key other = t.key row then t.assign columns other else other) = rest := by
      rw [List.map_congr_left fun other member => if_neg (fresh other member),List.map_id']
    refine ⟨same.trans assigned,?_,fun other different => ?_⟩
    · rw [kept,Database.modify_self,table,List.map_append,others,same]
      simp
    · rw [kept]
      exact Database.modify_other _ _ _ different

theorem run_orderStatus_last {order result : Order} {status : OrderStatus} {rest : List Order}
    (table : view.db .orders = rest ++ [order]) (fresh : ∀ other ∈ rest, other.id ≠ order.id)
    (ran : server.engine.run client (OrderRepository.updateStatus order status) view = (.ok result,last)) :
    result = { order with status } ∧ last.db .orders = rest ++ [result] ∧
      ∀ other, other ≠ .orders → last.db other = view.db other := by
  apply run_update_last table fresh _ ran
  intro columns dirty
  obtain rfl := Table.dirty_order dirty
  rfl

theorem run_transactionStatus_last {row result : CryptoBrokerage.Transaction} {status : TransactionStatus}
    {rest : List CryptoBrokerage.Transaction} (table : view.db .transactions = rest ++ [row])
    (fresh : ∀ other ∈ rest, other.id ≠ row.id)
    (ran : server.engine.run client (TransactionRepository.updateStatus row status) view = (.ok result,last)) :
    result = { row with status } ∧ last.db .transactions = rest ++ [result] ∧
      ∀ other, other ≠ .transactions → last.db other = view.db other :=
  run_update_last table fresh (fun _ _ => rfl) ran

theorem run_finalise_last {order result : Order} {row : CryptoBrokerage.Transaction} {status : String}
    {orders : List Order} {rows : List CryptoBrokerage.Transaction}
    (ordered : view.db .orders = orders ++ [order]) (unordered : ∀ other ∈ orders, other.id ≠ order.id)
    (tracked : view.db .transactions = rows ++ [row]) (untracked : ∀ other ∈ rows, other.id ≠ row.id)
    (pending : order.status = .pending)
    (ran : server.engine.run client (finalise order row status) view = (.ok result,last)) :
    result = (finalised order row status).1 ∧ last.db .orders = orders ++ [result] ∧
      last.db .transactions = rows ++ [(finalised order row status).2] := by
  unfold finalise at ran
  unfold finalised
  split at ran
  · next rejected =>
    obtain ⟨failed,middle,marked,ran⟩ := Engine.run_bind_ok _ ran
    obtain ⟨final,_,traced,ran⟩ := Engine.run_bind_ok _ ran
    cases ran
    obtain ⟨same,table,others⟩ := run_orderStatus_last ordered unordered marked
    obtain ⟨moved,rest,kept⟩ := run_transactionStatus_last ((others _ (by decide)).trans tracked) untracked traced
    rw [if_pos rejected]
    exact ⟨same,(kept _ (by decide)).trans table,moved ▸ rest⟩
  · next accepted =>
    rw [if_neg accepted]
    split at ran
    · next executed =>
      obtain ⟨final,_,traced,ran⟩ := Engine.run_bind_ok _ ran
      cases ran
      rw [pending,if_neg (by decide)] at traced
      obtain ⟨moved,rest,kept⟩ := run_transactionStatus_last tracked untracked traced
      rw [if_pos executed]
      exact ⟨rfl,(kept _ (by decide)).trans ordered,moved ▸ rest⟩
    · next idle =>
      cases ran
      rw [if_neg idle]
      exact ⟨rfl,ordered,tracked⟩

end Records

/-- The record of a new order agrees with the answer exactly if the exchange has
executed nothing and does not call the order partially filled. -/
theorem execution_recorded_iff {Client : Type} (server : Server Client) (grid : AddSubgroup ℚ)
    (rounding : Rounding server.numeric grid) (client : Client)
    (gateway : SubmittedOrder → Except Exception OrderSubmission) (now : Timestamp) (request : TradeRequest)
    (submission : OrderSubmission) (db : Database) (order : Order)
    (unused : ∀ order ∈ db .orders, order.idempotencyKey ≠ request.idempotencyKey)
    (answer : gateway request.submitted = .ok submission)
    (returned : (server.engine.transact client ((TradingService.init gateway now).executeTrade request) db).outcome =
      .ok order) :
    ExecutionRecorded submission order
        (server.engine.transact client ((TradingService.init gateway now).executeTrade request) db) ↔
      submission.filledAmount = 0 ∧ submission.status ≠ "PARTIALLY_FILLED" := by
  rcases ran : server.engine.run client ((TradingService.init gateway now).executeTrade request) ⟨db,[]⟩ with
    ⟨error | value,last⟩
  · rw [Engine.transact_error _ ran] at returned
    cases returned
  rw [Engine.transact_ok _ ran] at returned
  obtain rfl : value = order := Except.ok.inj returned
  rw [Engine.transact_ok _ ran]
  obtain ⟨_,placed,row,opened,answered,written,answer',idle,finished⟩ := returned_unfilled gateway now unused ran
  obtain rfl : submission = answered := Except.ok.inj (answer.symm.trans answer')
  obtain ⟨_,stored⟩ := written.ordered
  obtain ⟨same,_,zero,_⟩ := store_order stored
  have pending : placed.status = .pending := by rw [same]; rfl
  have unfilled : placed.filledAmount = 0 := rounding.fixed (zero_mem grid) zero
  obtain ⟨_,tracked⟩ := written.tracked
  obtain ⟨rfl,orders,transactions⟩ := run_finalise_last written.orders (Database.fresh_of_valid written.orderValid)
    written.transactions (Database.fresh_of_valid written.transactionValid) pending finished
  obtain ⟨single,unfinished⟩ := fillsToProcess_nil.mp idle
  have executed : submission.executed = submission.filledAmount := if_pos single
  unfold ExecutionRecorded
  simp only [orders,transactions,executed,List.append_cancel_left_eq,List.cons.injEq,and_true,true_and,exists_eq_left']
  unfold finalised
  split
  · next rejected => simp [tracked,rejected,Agree,unfilled,eq_comm]
  · next accepted =>
    split
    · next claimed => simp [tracked,Agree,unfilled,pending,claimed.resolve_left unfinished]
    · next other =>
      obtain ⟨_,partial'⟩ := not_or.mp other
      simp [tracked,accepted,Agree,unfilled,pending,partial',eq_comm]

def sampleReceipt (submission : OrderSubmission) : Receipt sql Database Order :=
  sampleServer.engine.transact oneClient ((TradingService.init (fun _ => .ok submission) 0).executeTrade sampleBuy)
    sample

/-- A LIMIT BUY that stays open at the exchange is recorded as it is. -/
theorem open_recorded : ExecutionRecorded sampleOpen (sampleBuy.order 105) (sampleReceipt sampleOpen) :=
  (execution_recorded_iff sampleServer grid36 numeric36_rounding 0 (fun _ => .ok sampleOpen) 0 sampleBuy sampleOpen
    sample (sampleBuy.order 105) (by simp [sample]) rfl (by decide +kernel)).mpr (by decide)

def samplePartial : OrderSubmission :=
  { externalOrderId := "x1", status := "PARTIALLY_FILLED", filledAmount := 1, averagePrice := 100, fee := 1 }

/-- A LIMIT BUY of 2 BTC, of which the exchange reports 1 as filled without a list
of fills, stays PENDING with nothing filled beside a PROCESSING transaction. -/
theorem partial_unrecorded :
    (sampleReceipt samplePartial).outcome = .ok (sampleBuy.order 105) ∧ (sampleBuy.order 105).filledAmount = 0 ∧
      samplePartial.executed = 1 ∧ (sampleBuy.order 105).status = .pending ∧
      ((sampleReceipt samplePartial).after .transactions).map CryptoBrokerage.Transaction.status = [.processing] ∧
      ¬ExecutionRecorded samplePartial (sampleBuy.order 105) (sampleReceipt samplePartial) := by
  refine ⟨by decide +kernel,rfl,rfl,rfl,by decide +kernel,?_⟩
  intro recorded
  have executed : (0 : ℚ) = 1 := recorded.1
  simp at executed

end CryptoBrokerage
