import CryptoBrokerage.Settlement

/-! The books a request keeps: what orders, executions, positions and TRADE
postings say of each other. Every fill touches all four tables; the books are in
order again after it, and a request that stops in between is rolled back. -/
namespace CryptoBrokerage
open Transaction (Program Engine View Receipt)

def Order.signedAmount (order : Order) (userId assetId : Uuid) (amount : ℚ) : ℚ :=
  if userId = order.userId ∧ assetId = order.assetId then quantityDelta order.side amount else 0

namespace Database

def executionsOf (db : Database) (orderId : Uuid) : List TradeExecution :=
  (db .tradeExecutions).filter (fun execution => execution.orderId == orderId)

def signedAmount (db : Database) (userId assetId : Uuid) (execution : TradeExecution) : ℚ :=
  (db.find .orders execution.orderId).elim 0
    (fun order => order.signedAmount userId assetId execution.executedAmount)

def traces (db : Database) (orderId : Uuid) (entry : LedgerEntry) : Bool :=
  (db .transactions).any (fun transaction => transaction.transactionType == .trade &&
    transaction.referenceId == some (str orderId) && entry.referenceId == str transaction.id)

def postingsOf (db : Database) (orderId : Uuid) : List LedgerEntry :=
  (db .ledgerEntries).filter (fun entry => entry.referenceType == "TRADE" && db.traces orderId entry)

structure Sound (db : Database) : Prop where
  keyed : db.Keyed
  attached : ∀ execution ∈ db .tradeExecutions, db.has .orders execution.orderId = true

structure Consistent (db : Database) : Prop where
  filled : ∀ order ∈ db .orders, order.filledAmount =
    ((db.executionsOf order.id).map TradeExecution.executedAmount).sum
  distinct : ∀ order ∈ db .orders, ((db.executionsOf order.id).map TradeExecution.externalFillId).Nodup
  positions : ∀ userId assetId, db.quantity userId assetId =
    ((db .tradeExecutions).map (db.signedAmount userId assetId)).sum
  posted : ∀ order ∈ db .orders, ((db.postingsOf order.id).map LedgerEntry.amount).Perm
    ((db.executionsOf order.id).map (fun execution => execution.executedPrice * execution.executedAmount))

def Unreferenced (db : Database) (id : Uuid) : Prop :=
  (∀ transaction ∈ db .transactions, transaction.referenceId ≠ some (str id)) ∧
    ∀ entry ∈ db .ledgerEntries, entry.referenceId ≠ str id

section Frames
variable {db after : Database}

theorem executionsOf_append {execution : TradeExecution}
    (added : after .tradeExecutions = db .tradeExecutions ++ [execution]) (orderId : Uuid) :
    after.executionsOf orderId =
      db.executionsOf orderId ++ if execution.orderId = orderId then [execution] else [] := by
  unfold executionsOf
  rw [added,List.filter_append]
  by_cases same : execution.orderId = orderId
  · simp [same]
  · simp [same]

theorem executionsOf_congr (same : after .tradeExecutions = db .tradeExecutions) (orderId : Uuid) :
    after.executionsOf orderId = db.executionsOf orderId := by
  unfold executionsOf
  rw [same]

theorem find_congr {t : Table} (same : after t = db t) (id : Uuid) : after.find t id = db.find t id := by
  unfold find
  rw [same]

theorem has_congr {t : Table} (same : after t = db t) (id : Uuid) : after.has t id = db.has t id := by
  unfold has
  rw [same]

theorem signedAmount_congr (userId assetId : Uuid) (execution : TradeExecution)
    (same : after.find .orders execution.orderId = db.find .orders execution.orderId) :
    after.signedAmount userId assetId execution = db.signedAmount userId assetId execution := by
  unfold signedAmount
  rw [same]

theorem quantity_congr (same : after .positions = db .positions) (userId assetId : Uuid) :
    after.quantity userId assetId = db.quantity userId assetId := by
  unfold quantity
  rw [same]

theorem find_replace (db : Database) (t : Table) (row : t.Row) (id : Uuid) :
    (db.replace t row).find t id = (db.find t id).map (fun old => if t.key old = t.key row then row else old) := by
  unfold find
  rw [replace_self]
  induction db t with
  | nil => rfl
  | cons old rows ih =>
    have key : t.key (if t.key old = t.key row then row else old) = t.key old := by
      split
      · next same => exact same.symm
      · rfl
    rw [List.map_cons,List.find?_cons,List.find?_cons,key]
    split
    · rfl
    · exact ih

theorem has_replace (db : Database) (t : Table) (row : t.Row) (id : Uuid) :
    (db.replace t row).has t id = db.has t id := by
  unfold has
  rw [replace_self,List.any_map]
  congr 1
  funext old
  by_cases same : t.key old = t.key row
  · simp [same]
  · simp [same]

theorem mem_replace {t : Table} {row old : t.Row} (member : old ∈ db t) (key : t.key old = t.key row) :
    row ∈ db.replace t row t := by
  rw [replace_self]
  exact List.mem_map.mpr ⟨old,member,if_pos key⟩

theorem Keyed.signedAmount_replace (keyed : db.Keyed) {order result : Order} (member : order ∈ db .orders)
    (id : result.id = order.id) (owner : result.userId = order.userId) (asset : result.assetId = order.assetId)
    (side : result.side = order.side) (userId assetId : Uuid) (execution : TradeExecution) :
    (db.replace .orders result).signedAmount userId assetId execution =
      db.signedAmount userId assetId execution := by
  unfold signedAmount
  rw [find_replace]
  cases found : db.find .orders execution.orderId with
  | none => rfl
  | some old =>
    by_cases same : Table.key .orders old = Table.key .orders result
    · have equal : old = order := keyed.same member (find_some found).1 (same.trans id)
      subst equal
      rw [Option.map_some,if_pos same]
      simp only [Option.elim_some,Order.signedAmount,owner,asset,side]
    · rw [Option.map_some,if_neg same]

/-- Books in order stay so where executions and positions stay, and every order is
an old one with its postings, or a new one with nothing booked to it. -/
theorem Consistent.frame (consistent : db.Consistent) (executions : after .tradeExecutions = db .tradeExecutions)
    (positions : after .positions = db .positions)
    (amounts : ∀ userId assetId, ∀ execution ∈ db .tradeExecutions,
      after.signedAmount userId assetId execution = db.signedAmount userId assetId execution)
    (orders : ∀ row ∈ after .orders, (∃ old ∈ db .orders, row.id = old.id ∧ row.filledAmount = old.filledAmount ∧
        after.postingsOf row.id = db.postingsOf old.id) ∨
      (row.filledAmount = 0 ∧ db.executionsOf row.id = [] ∧ after.postingsOf row.id = [])) :
    after.Consistent := by
  have same := executionsOf_congr executions
  constructor
  · intro row member
    rw [same]
    rcases orders row member with ⟨old,inside,key,amount,_⟩ | ⟨amount,none,_⟩
    · rw [key,amount]
      exact consistent.filled old inside
    · rw [amount,none]
      rfl
  · intro row member
    rw [same]
    rcases orders row member with ⟨old,inside,key,_,_⟩ | ⟨_,none,_⟩
    · rw [key]
      exact consistent.distinct old inside
    · rw [none]
      exact List.nodup_nil
  · intro userId assetId
    rw [quantity_congr positions,consistent.positions,executions]
    exact congrArg List.sum (List.map_congr_left fun execution member =>
      (amounts userId assetId execution member).symm)
  · intro row member
    rw [same]
    rcases orders row member with ⟨old,inside,key,_,postings⟩ | ⟨_,none,unposted⟩
    · rw [postings,key]
      exact consistent.posted old inside
    · rw [none,unposted]
      exact List.Perm.refl _

end Frames

end Database

structure Fills (order result : Order) (transaction : CryptoBrokerage.Transaction) (execution : TradeExecution)
    (entry : LedgerEntry) (db after : Database) : Prop where
  executions : after .tradeExecutions = db .tradeExecutions ++ [execution]
  entries : after .ledgerEntries = db .ledgerEntries ++ [entry]
  orders : after .orders = db.replace .orders result .orders
  transactions : after .transactions = db .transactions
  quantity : ∀ userId assetId, after.quantity userId assetId =
    db.quantity userId assetId + order.signedAmount userId assetId execution.executedAmount
  owned : execution.orderId = order.id
  grown : result = { order with filledAmount := order.filledAmount + execution.executedAmount
                                status := result.status }
  posted : entry.referenceType = "TRADE" ∧ entry.referenceId = str transaction.id ∧
    entry.amount = execution.executedPrice * execution.executedAmount

/-- The books while the fills of an order are processed: `seen` are its fill ids. -/
structure Booked (order : Order) (transaction : CryptoBrokerage.Transaction) (seen : List String)
    (db : Database) : Prop where
  sound : db.Sound
  consistent : db.Consistent
  placed : order ∈ db .orders
  traced : transaction ∈ db .transactions
  trade : transaction.transactionType = .trade ∧ transaction.referenceId = some (str order.id)
  known : ∀ execution ∈ db.executionsOf order.id, ∃ id ∈ seen, execution.externalFillId = some id

namespace Fills
variable {order result : Order} {transaction : CryptoBrokerage.Transaction} {execution : TradeExecution}
  {entry : LedgerEntry} {db after : Database} {seen : List String}

theorem id (fills : Fills order result transaction execution entry db after) : result.id = order.id := by
  rw [fills.grown]

theorem mem_orders (fills : Fills order result transaction execution entry db after) {row : Order}
    (member : row ∈ after .orders) :
    row = result ∨ (row ∈ db .orders ∧ row.id ≠ order.id) := by
  rw [fills.orders,Database.replace_self] at member
  obtain ⟨old,inside,rfl⟩ := List.mem_map.mp member
  by_cases same : Table.key .orders old = Table.key .orders result
  · exact Or.inl (if_pos same)
  · rw [if_neg same]
    exact Or.inr ⟨inside,fun equal => same (equal.trans fills.id.symm)⟩

theorem executionsOf (fills : Fills order result transaction execution entry db after) (orderId : Uuid) :
    after.executionsOf orderId =
      db.executionsOf orderId ++ if orderId = order.id then [execution] else [] := by
  rw [Database.executionsOf_append fills.executions,fills.owned]
  simp only [eq_comm]

theorem traces (fills : Fills order result transaction execution entry db after)
    (booked : Booked order transaction seen db) (orderId : Uuid) :
    after.traces orderId entry = decide (orderId = order.id) := by
  unfold Database.traces
  rw [fills.transactions,Bool.eq_iff_iff,List.any_eq_true,decide_eq_true_eq]
  constructor
  · rintro ⟨other,member,same⟩
    simp only [Bool.and_eq_true,beq_iff_eq,fills.posted.2.1] at same
    obtain ⟨⟨_,named⟩,key⟩ := same
    have equal : other = transaction := booked.sound.keyed.same booked.traced member (str_injective key.symm)
    rw [equal,booked.trade.2] at named
    exact str_injective (Option.some.inj named.symm)
  · rintro rfl
    refine ⟨transaction,booked.traced,?_⟩
    simp [booked.trade.1,booked.trade.2,fills.posted.2.1]

theorem postingsOf (fills : Fills order result transaction execution entry db after)
    (booked : Booked order transaction seen db) (orderId : Uuid) :
    after.postingsOf orderId = db.postingsOf orderId ++ if orderId = order.id then [entry] else [] := by
  have same (old : LedgerEntry) : after.traces orderId old = db.traces orderId old := by
    unfold Database.traces
    rw [fills.transactions]
  have new := fills.traces booked orderId
  unfold Database.postingsOf
  rw [fills.entries,List.filter_append]
  simp only [same] at new ⊢
  by_cases own : orderId = order.id
  · subst orderId
    simp [new,fills.posted.1]
  · simp [own,new]

theorem signedAmount (fills : Fills order result transaction execution entry db after)
    (booked : Booked order transaction seen db) (userId assetId : Uuid) :
    after.signedAmount userId assetId = db.signedAmount userId assetId := by
  funext old
  rw [Database.signedAmount_congr userId assetId old (Database.find_congr fills.orders old.orderId)]
  refine booked.sound.keyed.signedAmount_replace booked.placed fills.id ?_ ?_ ?_ userId assetId old
  all_goals rw [fills.grown]

theorem consistent (fills : Fills order result transaction execution entry db after)
    (booked : Booked order transaction seen db) {fillId : String}
    (external : execution.externalFillId = some fillId) (unseen : fillId ∉ seen) : after.Consistent := by
  have books := booked.consistent
  constructor
  · intro row member
    rw [fills.executionsOf]
    rcases fills.mem_orders member with rfl | ⟨old,other⟩
    · rw [fills.id,if_pos rfl,List.map_append,List.sum_append,← books.filled order booked.placed]
      rw [fills.grown]
      simp
    · rw [if_neg other,List.append_nil]
      exact books.filled row old
  · intro row member
    rw [fills.executionsOf]
    rcases fills.mem_orders member with rfl | ⟨old,other⟩
    · rw [fills.id,if_pos rfl,List.map_append,List.nodup_append]
      refine ⟨books.distinct order booked.placed,List.nodup_singleton _,?_⟩
      intro first inside last fresh equal
      obtain ⟨earlier,present,rfl⟩ := List.mem_map.mp inside
      obtain ⟨known,among,named⟩ := booked.known earlier present
      have same : last = some fillId := by simpa [external] using fresh
      rw [named,same] at equal
      exact unseen (Option.some.inj equal ▸ among)
    · rw [if_neg other,List.append_nil]
      exact books.distinct row old
  · intro userId assetId
    have found : db.signedAmount userId assetId execution =
        order.signedAmount userId assetId execution.executedAmount := by
      unfold Database.signedAmount
      rw [fills.owned,show db.find .orders order.id = some order from booked.sound.keyed.find booked.placed]
      rfl
    rw [fills.quantity,books.positions,fills.executions,fills.signedAmount booked,List.map_append,
      List.sum_append]
    simp [found]
  · intro row member
    rw [fills.executionsOf,fills.postingsOf booked]
    rcases fills.mem_orders member with rfl | ⟨old,other⟩
    · rw [fills.id,if_pos rfl,if_pos rfl,List.map_append,List.map_append]
      refine (books.posted order booked.placed).append (List.Perm.of_eq ?_)
      simp [fills.posted.2.2]
    · rw [if_neg other,if_neg other,List.append_nil,List.append_nil]
      exact books.posted row old

theorem sound (fills : Fills order result transaction execution entry db after)
    (booked : Booked order transaction seen db) (keyed : after.Keyed) : after.Sound := by
  have kept (id : Uuid) : after.has .orders id = db.has .orders id := by
    rw [Database.has_congr fills.orders,Database.has_replace]
  refine ⟨keyed,fun row member => ?_⟩
  rw [kept]
  rw [fills.executions] at member
  rcases List.mem_append.mp member with old | new
  · exact booked.sound.attached row old
  · rw [List.mem_singleton.mp new,fills.owned]
    exact Database.has_iff.mpr ⟨order,booked.placed,rfl⟩

/-- A fill with a new id leaves the books in order. -/
theorem booked (fills : Fills order result transaction execution entry db after)
    (booked : Booked order transaction seen db) {fillId : String}
    (external : execution.externalFillId = some fillId) (unseen : fillId ∉ seen) (keyed : after.Keyed) :
    Booked result transaction (fillId::seen) after where
  sound := fills.sound booked keyed
  consistent := fills.consistent booked external unseen
  placed := by
    rw [fills.orders]
    exact Database.mem_replace booked.placed fills.id.symm
  traced := by
    rw [fills.transactions]
    exact booked.traced
  trade := by
    rw [fills.id]
    exact booked.trade
  known := by
    intro row member
    rw [fills.id,fills.executionsOf,if_pos rfl] at member
    rcases List.mem_append.mp member with old | new
    · obtain ⟨known,among,named⟩ := booked.known row old
      exact ⟨known,List.mem_cons_of_mem _ among,named⟩
    · rw [List.mem_singleton.mp new]
      exact ⟨fillId,List.mem_cons_self,external⟩

end Fills

section Runs
attribute [local instance] DecimalContext.exact
variable {Client : Type} {uuid4 : Client → Nat → Uuid} {now : Client → Timestamp} {client : Client}
  {view last : View sql Database} {order result : Order} {transaction : CryptoBrokerage.Transaction}
  {seen : List String}

theorem run_add_exact {t : Table} {entity : Uuid → t.Row} {row : t.Row} (user : t ≠ .users)
    (profile : t ≠ .userProfiles) (named : ∀ id, t.key (entity id) = id)
    (keyed : view.db.Keyed)
    (ran : (Server.exact uuid4 now).engine.run client (BaseRepository.add t entity) view = (.ok row,last)) :
    (∃ turn, row = t.stamp (now client) (entity (uuid4 client turn))) ∧ view.db.violated t row = none ∧
      last.db = view.db.insert t row ∧ last.db.Keyed := by
  obtain ⟨turn,stored,valid,after⟩ := run_add_ok named ran
  have exact := stored
  rw [Server.exact,Table.store_ok user profile] at exact
  refine ⟨⟨turn,(Except.ok.inj exact).symm⟩,valid,after,?_⟩
  rw [after]
  exact keyed.insert (Database.violated_none valid).1

theorem newQuantity_exact (db : Database) (userId assetId : Uuid) (quantityDelta : ℚ) :
    db.newQuantity userId assetId quantityDelta = db.quantity userId assetId + quantityDelta := by
  unfold Database.newQuantity Database.quantity
  cases (db .positions).find? (fun position => position.userId == userId && position.assetId == assetId) with
  | none => exact (zero_add _).symm
  | some position => rfl

theorem processFill_fills {service : TradingService} {fill : FillEvent} {account : Account}
    {quoteCurrency : String} (booked : Booked order transaction seen view.db)
    (ran : (Server.exact uuid4 now).engine.run client (service.processFill order fill account quoteCurrency
      transaction.id) view = (.ok result,last)) :
    last.db.Keyed ∧ ∃ execution entry, Fills order result transaction execution entry view.db last.db ∧
      execution.externalFillId = some fill.fillId := by
  obtain ⟨fillValue,valued,value,ran⟩ := Engine.run_bind_ok _ ran
  obtain rfl : view = valued := congrArg Prod.snd value
  obtain rfl : fill.price * fill.amount = fillValue := Except.ok.inj (congrArg Prod.fst value)
  obtain ⟨timestamp,dated,date,ran⟩ := Engine.run_bind_ok _ ran
  obtain rfl : view = dated := congrArg Prod.snd date
  obtain ⟨execution,recorded,record,ran⟩ := Engine.run_bind_ok _ ran
  obtain ⟨⟨turn,executed⟩,_,afterRecord,keyedRecord⟩ :=
    run_add_exact (by decide) (by decide) (fun _ => rfl) booked.sound.keyed record
  obtain ⟨entry,posted,post,ran⟩ := Engine.run_bind_ok _ ran
  obtain ⟨⟨later,entered⟩,_,afterPost,keyedPost⟩ :=
    run_add_exact (by decide) (by decide) (fun _ => rfl) keyedRecord (run_judged_ok post).2
  obtain ⟨position,moved,move,ran⟩ := Engine.run_bind_ok _ ran
  have upserted := run_upsertPosition_ok keyedPost move
  have others := upserted.others
  have rest (t : Table) (position : t ≠ .positions) (entry : t ≠ .ledgerEntries)
      (execution : t ≠ .tradeExecutions) : moved.db t = view.db t := by
    rw [others t position,afterPost,Database.insert_other _ _ entry,afterRecord,
      Database.insert_other _ _ execution]
  have orders := rest .orders (by decide) (by decide) (by decide)
  have placed : order ∈ moved.db .orders := by
    rw [orders]
    exact booked.placed
  obtain ⟨grown,afterFill⟩ := run_update_exact upserted.keyed placed ran
  have same (t : Table) (order : t ≠ .orders) : last.db t = moved.db t := by
    rw [afterFill,Database.replace_other _ _ order]
  refine ⟨by rw [afterFill]; exact upserted.keyed.replace _ _,execution,entry,?_,by rw [executed]; rfl⟩
  constructor
  · rw [same _ (by decide),others _ (by decide),afterPost,Database.insert_other _ _ (by decide),afterRecord,
      Database.insert_self]
  · rw [same _ (by decide),others _ (by decide),afterPost,Database.insert_self,afterRecord,
      Database.insert_other _ _ (by decide)]
  · rw [afterFill,Database.replace_self,Database.replace_self,orders]
  · rw [same _ (by decide),rest _ (by decide) (by decide) (by decide)]
  · intro userId assetId
    have exact (kept : ℚ) (ok : (Server.exact uuid4 now).numeric (posted.db.quantity order.userId order.assetId +
        quantityDelta order.side fill.amount) = .ok kept) : kept = _ := (Except.ok.inj ok).symm
    rw [Database.quantity_congr (same _ (by decide)),upserted.added (newQuantity_exact _ _ _ _) exact]
    have unmoved : posted.db .positions = view.db .positions := by
      rw [afterPost,Database.insert_other _ _ (by decide),afterRecord,Database.insert_other _ _ (by decide)]
    rw [Database.quantity_congr unmoved,executed]
    rfl
  · rw [executed]
    rfl
  · rw [grown,executed]
    rfl
  · rw [entered,executed]
    exact ⟨rfl,rfl,rfl⟩

/-- The loop of step 7 keeps the books in order, fill by fill. -/
theorem processFills_booked {service : TradingService} {account : Account} {quoteCurrency : String}
    {fills : List FillEvent} (booked : Booked order transaction seen view.db)
    (ran : (Server.exact uuid4 now).engine.run client (service.processFills account quoteCurrency transaction.id
      seen order fills) view = (.ok result,last)) :
    ∃ seen, Booked result transaction seen last.db := by
  induction fills generalizing seen order view with
  | nil =>
    cases ran
    exact ⟨seen,booked⟩
  | cons fill rest ih =>
    rw [TradingService.processFills_cons] at ran
    split at ran
    · exact ih booked ran
    · next unseen =>
      obtain ⟨filled,middle,processed,ran⟩ := Engine.run_bind_ok _ ran
      obtain ⟨keyed,execution,entry,fills,external⟩ := processFill_fills booked processed
      exact ih (fills.booked booked external unseen keyed) ran

theorem Booked.order_status {db : Database} (booked : Booked order transaction seen db) (status : OrderStatus) :
    Booked { order with status } transaction seen (db.replace .orders ({ order with status } : Order)) := by
  have other (t : Table) (different : t ≠ .orders) :
      db.replace .orders ({ order with status } : Order) t = db t := Database.replace_other db _ different
  have postings (orderId : Uuid) : (db.replace .orders ({ order with status } : Order)).postingsOf orderId =
      db.postingsOf orderId := by
    unfold Database.postingsOf Database.traces
    rw [other .ledgerEntries (by decide),other .transactions (by decide)]
  refine ⟨⟨booked.sound.keyed.replace _ _,?_⟩,?_,Database.mem_replace booked.placed rfl,?_,booked.trade,?_⟩
  · intro execution member
    rw [Database.has_replace]
    rw [other _ (by decide)] at member
    exact booked.sound.attached execution member
  · refine booked.consistent.frame (other _ (by decide)) (other _ (by decide)) ?_ fun row member => Or.inl ?_
    · intro userId assetId execution _
      exact @Database.Keyed.signedAmount_replace db booked.sound.keyed order { order with status } booked.placed
        rfl rfl rfl rfl userId assetId execution
    · rw [Database.replace_self] at member
      obtain ⟨old,inside,rfl⟩ := List.mem_map.mp member
      by_cases same : Table.key .orders old = Table.key .orders ({ order with status } : Order)
      · rw [if_pos same]
        exact ⟨order,booked.placed,rfl,rfl,postings _⟩
      · rw [if_neg same]
        exact ⟨old,inside,rfl,rfl,postings _⟩
  · rw [other _ (by decide)]
    exact booked.traced
  · intro execution member
    rw [Database.executionsOf_congr (other _ (by decide))] at member
    exact booked.known execution member

theorem Booked.transaction_status {db : Database} (booked : Booked order transaction seen db)
    (status : TransactionStatus) :
    Database.Sound (db.replace .transactions ({ transaction with status } : CryptoBrokerage.Transaction)) ∧
    Database.Consistent (db.replace .transactions ({ transaction with status } : CryptoBrokerage.Transaction)) := by
  generalize renewed : ({ transaction with status } : CryptoBrokerage.Transaction) = result
  have other (t : Table) (different : t ≠ .transactions) : db.replace .transactions result t = db t :=
    Database.replace_other db _ different
  have orders := other .orders (by decide)
  have traced (row : CryptoBrokerage.Transaction) (member : row ∈ db .transactions) :
      (if Table.key .transactions row = Table.key .transactions result then result else row) =
        { row with status := (if row.id = transaction.id then status else row.status) } := by
    have key : Table.key .transactions result = transaction.id := by rw [← renewed]; rfl
    by_cases same : row.id = transaction.id
    · have equal : row = transaction := booked.sound.keyed.same booked.traced member same
      rw [if_pos (show Table.key .transactions row = _ from same.trans key.symm),if_pos same,← renewed,equal]
    · rw [if_neg (show ¬Table.key .transactions row = _ from fun equal => same (equal.trans key)),if_neg same]
  have postings (orderId : Uuid) : (db.replace .transactions result).postingsOf orderId =
      db.postingsOf orderId := by
    unfold Database.postingsOf Database.traces
    rw [other .ledgerEntries (by decide),Database.replace_self,List.map_congr_left traced]
    simp only [List.any_map]
    rfl
  refine ⟨⟨booked.sound.keyed.replace _ _,?_⟩,?_⟩
  · intro execution member
    rw [Database.has_congr orders]
    rw [other _ (by decide)] at member
    exact booked.sound.attached execution member
  · refine booked.consistent.frame (other _ (by decide)) (other _ (by decide)) ?_ fun row member => Or.inl ?_
    · intro userId assetId execution _
      exact Database.signedAmount_congr userId assetId execution (Database.find_congr orders _)
    · rw [orders] at member
      exact ⟨row,member,rfl,rfl,postings _⟩

theorem finalise_consistent {status : String} (booked : Booked order transaction seen view.db)
    (ran : (Server.exact uuid4 now).engine.run client (finalise order transaction status) view =
      (.ok result,last)) : last.db.Sound ∧ last.db.Consistent := by
  have tracked {view : View sql Database} {order : Order} {status : TransactionStatus}
      {row : CryptoBrokerage.Transaction} (booked : Booked order transaction seen view.db)
      {middle : View sql Database} (updated : (Server.exact uuid4 now).engine.run client
        (TransactionRepository.updateStatus transaction status) view = (.ok row,middle)) :
      middle.db.Sound ∧ middle.db.Consistent := by
    obtain ⟨rfl,after⟩ := run_update_exact booked.sound.keyed booked.traced updated
    rw [after]
    exact booked.transaction_status status
  unfold finalise at ran
  split at ran
  · obtain ⟨failed,middle,updated,ran⟩ := Engine.run_bind_ok _ ran
    obtain ⟨row,ended,traced,ran⟩ := Engine.run_bind_ok _ ran
    cases ran
    obtain ⟨rfl,after⟩ := run_update_exact booked.sound.keyed booked.placed updated
    have marked := booked.order_status .failed
    change Booked _ _ _ (view.db.replace .orders (Table.assign .orders { status := some .failed } order)) at marked
    rw [← after] at marked
    exact tracked marked traced
  · split at ran
    · obtain ⟨row,ended,traced,ran⟩ := Engine.run_bind_ok _ ran
      cases ran
      exact tracked booked traced
    · cases ran
      exact ⟨booked.sound,booked.consistent⟩

section Opening
variable {request : TradeRequest} {account : Account} {db after : Database}

theorem Opened.order_eq
    (opened : Opened (Server.exact uuid4 now) client request db account order transaction after) :
    ∃ turn, order = { request.order (uuid4 client turn) with createdAt := now client } := by
  obtain ⟨turn,stored⟩ := opened.ordered
  rw [Server.exact,Table.store_ok (by decide) (by decide)] at stored
  exact ⟨turn,(Except.ok.inj stored).symm⟩

theorem Opened.fresh (opened : Opened (Server.exact uuid4 now) client request db account order transaction after)
    {row : Order} (member : row ∈ db .orders) : row.id ≠ order.id := by
  intro equal
  have held : db.has .orders order.id = true := Database.has_iff.mpr ⟨row,member,equal⟩
  rw [show db.has .orders order.id = false from (Database.violated_none opened.orderValid).1] at held
  cases held

theorem Opened.postingsOf
    (opened : Opened (Server.exact uuid4 now) client request db account order transaction after)
    {row : Order} (member : row ∈ db .orders) : after.postingsOf row.id = db.postingsOf row.id := by
  obtain ⟨later,trace⟩ := opened.tracked
  have other : (some (str order.id) == some (str row.id)) = false := by
    rw [beq_eq_false_iff_ne]
    exact fun equal => opened.fresh member (str_injective (Option.some.inj equal)).symm
  unfold Database.postingsOf Database.traces
  rw [opened.others (t := .ledgerEntries) (by decide) (by decide),opened.transactions]
  simp [trace,other]

theorem Opened.unposted
    (opened : Opened (Server.exact uuid4 now) client request db account order transaction after)
    (fresh : ∀ turn, db.Unreferenced (uuid4 client turn)) : after.postingsOf order.id = [] := by
  obtain ⟨turn,new⟩ := opened.order_eq
  obtain ⟨later,trace⟩ := opened.tracked
  unfold Database.postingsOf Database.traces
  rw [opened.others (t := .ledgerEntries) (by decide) (by decide),opened.transactions,List.filter_eq_nil_iff]
  intro entry member named
  simp only [Bool.and_eq_true,beq_iff_eq,List.any_eq_true,List.mem_append,List.mem_singleton] at named
  obtain ⟨_,row,inside,⟨_,reference⟩,key⟩ := named
  rcases inside with old | rfl
  · have orderNew := (fresh turn).1 row old
    rw [reference,new] at orderNew
    exact orderNew rfl
  · have transactionNew := (fresh later).2 entry member
    rw [key,trace] at transactionNew
    exact transactionNew rfl

theorem Opened.unfilled
    (opened : Opened (Server.exact uuid4 now) client request db account order transaction after)
    (sound : db.Sound) : db.executionsOf order.id = [] := by
  unfold Database.executionsOf
  rw [List.filter_eq_nil_iff]
  intro execution member named
  obtain ⟨row,inside,key⟩ := Database.has_iff.mp (sound.attached execution member)
  exact opened.fresh inside (key.trans (by simpa using named))

theorem Opened.sound (opened : Opened (Server.exact uuid4 now) client request db account order transaction after)
    (sound : db.Sound) : after.Sound := by
  constructor
  · rw [opened.written]
    exact (sound.keyed.insert (Database.violated_none opened.orderValid).1).insert
      (Database.violated_none opened.transactionValid).1
  · intro execution member
    rw [opened.others (by decide) (by decide)] at member
    obtain ⟨row,inside,key⟩ := Database.has_iff.mp (sound.attached execution member)
    refine Database.has_iff.mpr ⟨row,?_,key⟩
    rw [opened.orders]
    exact List.mem_append_left _ inside

/-- Steps 2 to 5 open the books of a new order. -/
theorem Opened.booked (opened : Opened (Server.exact uuid4 now) client request db account order transaction after)
    (sound : db.Sound) (consistent : db.Consistent) (fresh : ∀ turn, db.Unreferenced (uuid4 client turn)) :
    Booked order transaction [] after := by
  have executions := opened.others (t := .tradeExecutions) (by decide) (by decide)
  refine ⟨opened.sound sound,?_,?_,?_,?_,?_⟩
  · refine consistent.frame executions (opened.others (by decide) (by decide)) ?_ fun row member => ?_
    · intro userId assetId execution member
      obtain ⟨row,inside,key⟩ := Database.has_iff.mp (sound.attached execution member)
      have found := sound.keyed.find inside
      refine Database.signedAmount_congr userId assetId execution ?_
      rw [← key,found]
      unfold Database.find
      rw [opened.orders,List.find?_append,show (db .orders).find? _ = some row from found]
      rfl
    · rw [opened.orders,List.mem_append,List.mem_singleton] at member
      rcases member with old | rfl
      · exact Or.inl ⟨row,old,rfl,rfl,opened.postingsOf old⟩
      · obtain ⟨turn,new⟩ := opened.order_eq
        exact Or.inr ⟨by rw [new]; rfl,opened.unfilled sound,opened.unposted fresh⟩
  · rw [opened.orders]
    simp
  · rw [opened.transactions]
    simp
  · obtain ⟨later,trace⟩ := opened.tracked
    rw [trace]
    exact ⟨rfl,rfl⟩
  · rw [Database.executionsOf_congr executions,opened.unfilled sound]
    simp

end Opening

end Runs

section Requests
attribute [local instance] DecimalContext.exact

/-- Whatever the exchange answers and `create_double_entry` decides, a request
leaves the books as they were when it raises, and in order when it returns. -/
theorem books_consistent {Client : Type} (uuid4 : Client → Nat → Uuid) (now : Client → Timestamp)
    (client : Client) (service : TradingService) (request : TradeRequest) (db : Database) (sound : db.Sound)
    (fresh : ∀ turn, db.Unreferenced (uuid4 client turn)) (consistent : db.Consistent) :
    let receipt := (Server.exact uuid4 now).engine.transact client (service.executeTrade request) db
    (∀ error, receipt.outcome = .error error → receipt.after = db) ∧
      ∀ order, receipt.outcome = .ok order → receipt.after.Sound ∧ receipt.after.Consistent := by
  refine ⟨fun error raised => Engine.transact_rollback _ client _ db error raised,fun order returned => ?_⟩
  rcases ran : (Server.exact uuid4 now).engine.run client (service.executeTrade request) ⟨db,[]⟩ with
    ⟨outcome,last⟩
  rw [Engine.transact_outcome,ran] at returned
  obtain rfl : outcome = .ok order := returned
  rw [Engine.transact_ok _ ran]
  obtain ⟨reply,found,select,rest⟩ := Engine.run_bind_ok _ ran
  obtain ⟨rfl,unchanged⟩ := run_read_ok rfl select
  split at rest
  · cases rest
    rw [unchanged]
    exact ⟨sound,consistent⟩
  · obtain ⟨⟨account,placed,transaction⟩,opened,opening,rest⟩ := Engine.run_bind_ok _ rest
    have written := run_opening_ok opening
    rw [unchanged] at written
    have booked := written.booked sound consistent fresh
    obtain ⟨submission,sent,submit,rest⟩ := Engine.run_bind_ok _ rest
    obtain ⟨_,same⟩ := run_submit_ok submit
    rw [← same] at booked
    obtain ⟨filled,processed,process,rest⟩ := Engine.run_bind_ok _ rest
    obtain ⟨seen,settled⟩ := processFills_booked booked process
    exact finalise_consistent settled rest

def sampleService : TradingService := ⟨fun _ => .ok sampleFill,0,fun _ _ => none⟩

theorem str_ne_empty (id : Uuid) : "" ≠ str id := by
  intro same
  have empty : hyphenate (hexDigits id) = [] := by
    simpa [str] using same.symm
  simp [hyphenate] at empty

theorem sample_books : sample.Sound ∧ sample.Consistent ∧ ∀ id, sample.Unreferenced id := by
  refine ⟨⟨?_,?_⟩,⟨?_,?_,?_,?_⟩,?_⟩
  · intro t
    cases t <;> decide
  · intro execution member
    cases member
  · intro order member
    cases member
  · intro order member
    cases member
  · intro userId assetId
    rfl
  · intro order member
    cases member
  · intro id
    refine ⟨fun transaction member => (by cases member),fun entry member => ?_⟩
    obtain rfl := List.mem_singleton.mp member
    exact str_ne_empty id

/-- A filled LIMIT BUY of 2 BTC whose posting is accepted is booked. -/
theorem books_consistent_fill :
    let receipt := (Server.exact sampleServer.uuid4 sampleServer.now).engine.transact 0
      (sampleService.executeTrade sampleBuy) sample
    receipt.outcome.map Order.filledAmount = .ok 2 ∧ (receipt.after .tradeExecutions).length = 1 ∧
      (∀ error, receipt.outcome = .error error → receipt.after = sample) ∧
      ∀ order, receipt.outcome = .ok order → receipt.after.Sound ∧ receipt.after.Consistent :=
  ⟨by decide +kernel,by decide +kernel,books_consistent sampleServer.uuid4 sampleServer.now 0 sampleService
    sampleBuy sample sample_books.1 (fun turn => sample_books.2.2 _) sample_books.2.1⟩

end Requests

end CryptoBrokerage
