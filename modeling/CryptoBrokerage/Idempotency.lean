import CryptoBrokerage.Settlement

/-! At most one live order per idempotency key. The lookup of step 1 is a race;
what excludes a second order is the insertion into the unique index, which the
transaction keeps to itself until it ends and which precedes the submission. -/
namespace CryptoBrokerage
open Transaction (Program Engine View Protocol Session Config Label Step Runs Reachable Exclusive Guarantee Kept)

/-- A request inserts one order, under its own key; it submits only after that,
and updates no other order. The state is the id of the inserted order. -/
def placement {Client : Type} (key : Client → String) : Protocol sql Client (Option Uuid) where
  start _ := none
  allowed client state op :=
    match op with
    | .insert .orders row => state = none ∧ row.idempotencyKey = key client
    | .update .orders id _ => state = some id
    | .submitOrder order => state ≠ none ∧ order.clientOrderId = key client
    | _ => True
  after _ state op reply :=
    match op, reply with
    | .insert .orders row, .ok _ => some row.id
    | _, _ => state

section Program
variable {Client : Type} {server : Server Client} {key : Client → String} {client : Client} {state : Option Uuid}

def Aside : Statement → Prop
  | .insert t _ => t ≠ .orders
  | .update t _ _ => t ≠ .orders
  | .submitOrder _ => False
  | _ => True

theorem Aside.allowed {op : Statement} (aside : Aside op) : (placement key).allowed client state op := by
  cases op with
  | insert t row =>
    cases t with
    | orders => exact absurd rfl aside
    | _ => trivial
  | update t id set =>
    cases t with
    | orders => exact absurd rfl aside
    | _ => trivial
  | submitOrder order => exact absurd aside not_false
  | _ => trivial

theorem Aside.after {op : Statement} (aside : Aside op) (reply : Except Exception op.Reply) :
    (placement key).after client state op reply = state := by
  cases op with
  | insert t row =>
    cases t with
    | orders => exact absurd rfl aside
    | _ => rfl
  | _ => rfl

theorem Reads.aside {op : Statement} (reads : Reads op) : Aside op := by
  cases op <;> trivial

theorem aside_bind {α β : Type} {program : Action α} {next : α → Action β}
    {post : Except Exception β → Option Uuid → Prop} (only : program.Only Aside)
    (raised : ∀ error, post (.error error) state)
    (rest : ∀ value, (next value).Obeys server.engine (fun _ => True) (placement key) client state post) :
    (program >>= next).Obeys server.engine (fun _ => True) (placement key) client state post :=
  only.obeys_bind (fun _ aside => aside.allowed) (fun _ aside => aside.after) raised rest

theorem placed_obeys {request : TradeRequest} (own : request.idempotencyKey = key client) :
    (BaseRepository.add .orders request.order).Obeys server.engine (fun _ => True) (placement key) client none
      (fun outcome last => ∀ order, outcome = .ok order → last = some order.id) :=
  add_moves trivial (fun _ => rfl) (fun _ => ⟨rfl,own⟩) (fun _ => rfl) (fun _ => trivial) (fun _ _ => rfl)

theorem updated_obeys {order : Order} {set : OrderColumns} :
    (BaseRepository.update .orders order set).Obeys server.engine (fun _ => True) (placement key) client
      (some order.id) (fun outcome last => last = some order.id ∧ ∀ row, outcome = .ok row → row.id = order.id) := by
  change Program.Obeys _ _ _ _ (BaseRepository.flush .orders order set >>= fun _ =>
    BaseRepository.refresh .orders order.id) _ _
  rw [Program.obeys_bind]
  have flushed : (BaseRepository.flush .orders order set).Obeys server.engine (fun _ => True) (placement key)
      client (some order.id) (fun _ last => last = some order.id) := by
    unfold BaseRepository.flush
    split
    · rw [Program.obeys_perform]
      exact ⟨rfl,fun _ _ => rfl⟩
    · exact rfl
  refine flushed.weaken ?_
  rintro outcome last rfl
  cases outcome with
  | error error => exact ⟨rfl,fun _ same => (by cases same)⟩
  | ok _ => exact refresh_keyed trivial fun _ => rfl

theorem fills_obey (service : TradingService) (account : Account) (quoteCurrency : String) (transactionId : Uuid)
    (seen : List String) (order : Order) (fills : List FillEvent) :
    (service.processFills account quoteCurrency transactionId seen order fills).Obeys server.engine
      (fun _ => True) (placement key) client (some order.id)
      (fun outcome last => last = some order.id ∧ ∀ row, outcome = .ok row → row.id = order.id) := by
  have reads : ∀ op, Reads op → Aside op := fun _ => Reads.aside
  induction fills generalizing seen order with
  | nil => exact ⟨rfl,fun _ same => (by cases same; rfl)⟩
  | cons fill rest ih =>
    rw [TradingService.processFills_cons]
    split
    · exact ih seen order
    · rw [Program.obeys_bind]
      have processed : (service.processFill order fill account quoteCurrency transactionId).Obeys server.engine
          (fun _ => True) (placement key) client (some order.id)
          (fun outcome last => last = some order.id ∧ ∀ row, outcome = .ok row → row.id = order.id) := by
        unfold TradingService.processFill
        have raised : ∀ error : Exception, some order.id = some order.id ∧
            ∀ row : Order, Except.error error = Except.ok row → row.id = order.id :=
          fun _ => ⟨rfl,fun _ same => (by cases same)⟩
        refine aside_bind (Program.only_done _) raised fun fillValue => ?_
        refine aside_bind (Program.only_done _) raised fun timestamp => ?_
        refine aside_bind (add_only reads fun id => by simp [Aside]) raised fun _ => ?_
        refine aside_bind ?_ raised fun _ => ?_
        · unfold LedgerRepository.judged
          split
          · exact Program.only_raise _
          · exact add_only reads fun id => by simp [Aside]
        · exact aside_bind (upsertPosition_only reads (by simp [Aside]) (by simp [Aside]) _ _ _ _) raised
            fun _ => updated_obeys
      refine processed.weaken ?_
      rintro outcome last ⟨rfl,named⟩
      cases outcome with
      | error error => exact ⟨rfl,fun _ same => (by cases same)⟩
      | ok row =>
        have same := named row rfl
        rw [← same]
        exact ih _ row

theorem updateStatus_only (transaction : CryptoBrokerage.Transaction) (status : TransactionStatus) :
    (TransactionRepository.updateStatus transaction status).Only Aside :=
  update_only (fun _ => Reads.aside) fun columns => by simp [Aside]

theorem finalise_obeys (order : Order) (transaction : CryptoBrokerage.Transaction) (status : String) :
    (finalise order transaction status).Obeys server.engine (fun _ => True) (placement key) client
      (some order.id) (fun _ _ => True) := by
  unfold finalise
  split
  · rw [Program.obeys_bind]
    refine updated_obeys.weaken ?_
    rintro outcome last ⟨rfl,_⟩
    cases outcome with
    | error error => trivial
    | ok row => exact aside_bind (updateStatus_only _ _) (fun _ => trivial) fun _ => trivial
  · split
    · exact aside_bind (updateStatus_only _ _) (fun _ => trivial) fun _ => trivial
    · trivial

theorem submit_obeys (service : TradingService) {request : TradeRequest}
    (own : request.idempotencyKey = key client) (order : Order) (transaction : CryptoBrokerage.Transaction) :
    (service.submit request order transaction).Obeys server.engine (fun _ => True) (placement key) client
      (some order.id) (fun outcome last => ∀ submission, outcome = .ok submission → last = some order.id) := by
  unfold TradingService.submit TradingService.submitOrder
  rw [Program.obeys_bind,Program.obeys_attempt,Program.obeys_bind,Program.obeys_perform]
  refine ⟨⟨by simp,own⟩,fun reply _ => ?_⟩
  have failed (error : Exception) : (do
      let _ ← OrderRepository.updateStatus order .failed
      let _ ← TransactionRepository.updateStatus transaction .failed
      .raise error : Action OrderSubmission).Obeys server.engine (fun _ => True) (placement key) client
        (some order.id) (fun outcome last => ∀ submission, outcome = .ok submission → last = some order.id) := by
    rw [Program.obeys_bind]
    refine updated_obeys.weaken ?_
    rintro outcome last ⟨rfl,_⟩
    cases outcome with
    | error error => exact fun _ same => (by cases same)
    | ok row =>
      exact aside_bind (updateStatus_only _ _) (fun _ _ same => (by cases same)) fun _ _ same => (by cases same)
  cases reply with
  | error error => exact failed error
  | ok _ =>
    cases answer : service.exchangeGateway request.submitted with
    | error error => exact failed error
    | ok submission => exact fun _ _ => rfl

theorem executeTrade_obeys (service : TradingService) {request : TradeRequest}
    (own : request.idempotencyKey = key client) :
    (service.executeTrade request).Obeys server.engine (fun _ => True) (placement key) client none
      (fun _ _ => True) := by
  have reads : ∀ op, Reads op → Aside op := fun _ => Reads.aside
  refine aside_bind ((Program.only_perform _).mpr (reads _ trivial)) (fun _ => trivial) fun found => ?_
  cases found with
  | some existing => trivial
  | none =>
    have opened : request.opening.Obeys server.engine (fun _ => True) (placement key) client none
        (fun outcome last => ∀ account order transaction, outcome = .ok (account,order,transaction) →
          last = some order.id) := by
      refine aside_bind (validate_only request) (fun _ _ _ _ same => (by cases same)) fun _ => ?_
      refine aside_bind (debitAccount_only reads request) (fun _ _ _ _ same => (by cases same)) fun account => ?_
      unfold TradeRequest.openOrder
      rw [Program.obeys_bind,Program.obeys_bind]
      refine (placed_obeys own).weaken fun outcome last placed => ?_
      cases outcome with
      | error error => exact fun _ _ _ same => (by cases same)
      | ok order =>
        rw [placed order rfl]
        refine aside_bind (add_only reads fun id => by simp [Aside]) (fun _ _ _ _ same => (by cases same))
          fun transaction => ?_
        intro _ _ _ same
        cases same
        rfl
    change Program.Obeys _ _ _ _ (service.placeOrder request) _ _
    unfold TradingService.placeOrder
    rw [Program.obeys_bind]
    refine opened.weaken fun outcome last placed => ?_
    cases outcome with
    | error error => trivial
    | ok values =>
      obtain ⟨account,order,transaction⟩ := values
      rw [placed account order transaction rfl]
      change Program.Obeys _ _ _ _ (service.submit request order transaction >>= fun submission =>
        service.settle order transaction account request.quoteCurrency submission) _ _
      rw [Program.obeys_bind]
      refine (submit_obeys service own order transaction).weaken fun outcome last sent => ?_
      cases outcome with
      | error error => trivial
      | ok submission =>
        rw [sent submission rfl]
        change Program.Obeys _ _ _ _ (_ >>= fun order => finalise order transaction submission.status) _ _
        rw [Program.obeys_bind]
        refine (fills_obey service account _ transaction.id [] order _).weaken ?_
        rintro outcome last ⟨rfl,named⟩
        cases outcome with
        | error error => trivial
        | ok row =>
          have same := named row rfl
          rw [← same]
          exact finalise_obeys row transaction _

end Program

def Write.orders : Write → List Order → List Order
  | .insert .orders row, rows => rows ++ [row]
  | .update .orders id set, rows =>
    rows.map (fun row => if row.id = id then Table.assign .orders set row else row)
  | _, rows => rows

theorem apply_orders (db : Database) (write : Write) : (db.apply write) .orders = write.orders (db .orders) := by
  cases write with
  | insert t row =>
    cases t with
    | orders => exact Database.insert_self ..
    | _ => rfl
  | update t id set =>
    cases t with
    | orders => exact Database.modify_self ..
    | _ => rfl

def ownOrders (writes : List Write) : List Order := writes.foldl (fun rows write => write.orders rows) []

def Placed (key : String) (state : Option Uuid) : Write → Prop
  | .insert .orders row => state = some row.id ∧ row.idempotencyKey = key
  | .update .orders id _ => state = some id
  | _ => True

section Invariant
variable {Client α : Type} {server : Server Client} {key : String} {state : Option Uuid} {writes : List Write}

theorem visible_orders (placed : ∀ write ∈ writes, Placed key state write) {committed : Database}
    (fresh : ∀ order ∈ committed .orders, state ≠ some order.id) :
    (writes.foldl Database.apply committed) .orders = committed .orders ++ ownOrders writes := by
  have first : (writes.foldl Database.apply committed) .orders =
      writes.foldl (fun rows write => write.orders rows) (committed .orders) := by
    clear placed fresh
    induction writes generalizing committed with
    | nil => rfl
    | cons write rest ih => rw [List.foldl_cons,List.foldl_cons,ih,apply_orders]
  have behind (old rows : List Order) (fresh : ∀ order ∈ old, state ≠ some order.id) :
      writes.foldl (fun rows write => write.orders rows) (old ++ rows) =
        old ++ writes.foldl (fun rows write => write.orders rows) rows := by
    clear first
    induction writes generalizing rows with
    | nil => rfl
    | cons write rest ih =>
      have step : write.orders (old ++ rows) = old ++ write.orders rows := by
        have own := placed write List.mem_cons_self
        cases write with
        | insert t row =>
          cases t with
          | orders => exact List.append_assoc old rows [row]
          | _ => rfl
        | update t id set =>
          cases t with
          | orders =>
            refine List.map_append.trans (congrArg (· ++ _) ?_)
            refine (List.map_congr_left fun order member => ?_).trans (List.map_id old)
            rw [if_neg fun same => fresh order member (own.trans (congrArg some same.symm))]
            rfl
          | _ => rfl
      rw [List.foldl_cons,List.foldl_cons,step]
      exact ih (fun other member => placed other (List.mem_cons_of_mem _ member)) _
  rw [first,← List.append_nil (committed .orders),behind _ _ fresh,List.append_nil]
  rfl

theorem ownOrders_append (write : Write) : ownOrders (writes ++ [write]) = write.orders (ownOrders writes) :=
  List.foldl_concat ..

theorem ownOrders_named (placed : ∀ write ∈ writes, Placed key state write) :
    ∀ row ∈ ownOrders writes, state = some row.id ∧ row.idempotencyKey = key := by
  induction writes using List.reverseRecOn with
  | nil => intro row member; cases member
  | append_singleton writes write ih =>
    have before := ih fun other member => placed other (List.mem_append_left _ member)
    have own := placed write (List.mem_append_right _ List.mem_cons_self)
    rw [ownOrders_append]
    intro row member
    cases write with
    | insert t stored =>
      cases t with
      | orders =>
        rcases List.mem_append.mp member with old | new
        · exact before row old
        · rw [List.mem_singleton.mp new]
          exact own
      | _ => exact before row member
    | update t id set =>
      cases t with
      | orders =>
        obtain ⟨old,inside,rfl⟩ := List.mem_map.mp member
        have named := before old inside
        split <;> exact named
      | _ => exact before row member

/-- Between its insertion and its end a transaction keeps its order's row and
key to itself. -/
structure Placing (key : String) (state : Option Uuid) (session : Session sql Write Resource α)
    (committed : Database) : Prop where
  writes : ∀ write ∈ session.writes, Placed key state write
  single : (ownOrders session.writes).length ≤ 1
  held : ∀ id, state = some id → .row .orders id ∈ session.held ∧
    .entry .orders (.idempotencyKey key) ∈ session.held
  fresh : ∀ id, state = some id → ∀ order ∈ committed .orders, order.id ≠ id ∧ order.idempotencyKey ≠ key
  submitted : ∀ order, .submitOrder order ∈ session.issued → state ≠ none ∧ order.clientOrderId = key

variable {session : Session sql Write Resource α} {committed : Database}

theorem Placing.visible (placing : Placing key state session committed) :
    (session.writes.foldl Database.apply committed) .orders =
      committed .orders ++ ownOrders session.writes := by
  refine visible_orders placing.writes fun order member same => ?_
  exact (placing.fresh order.id same order member).1 rfl

theorem Placing.aside (placing : Placing key state session committed) {client : Client} {turn : Nat}
    {op : Statement} {db : Database} {reply : op.Reply} {more : List Write}
    (answered : server.exec client turn op db = .ok (reply,more)) (aside : Aside op) (rest : Program sql α)
    (locks : List Resource) :
    Placing key state ⟨rest,session.writes ++ more,session.held ++ locks,session.issued ++ [op]⟩ committed := by
  have quiet : ∀ write ∈ more, Placed key state write ∧ ∀ rows, write.orders rows = rows := by
    have written := Server.exec_writes answered
    intro write member
    cases op with
    | insert t row =>
      obtain ⟨stored,_,_,rfl⟩ := written
      rw [List.mem_singleton.mp member]
      cases t with
      | orders => exact absurd rfl aside
      | _ => exact ⟨trivial,fun _ => rfl⟩
    | update t id set =>
      obtain ⟨stored,_,rfl⟩ := written
      rw [List.mem_singleton.mp member]
      cases t with
      | orders => exact absurd rfl aside
      | _ => exact ⟨trivial,fun _ => rfl⟩
    | _ =>
      rw [show more = [] from written] at member
      cases member
  have same : ownOrders (session.writes ++ more) = ownOrders session.writes := by
    unfold ownOrders
    rw [List.foldl_append]
    generalize session.writes.foldl (fun rows write => write.orders rows) [] = rows
    clear answered
    induction more with
    | nil => rfl
    | cons write rest ih =>
      rw [List.foldl_cons,(quiet write List.mem_cons_self).2]
      exact ih fun other member => quiet other (List.mem_cons_of_mem _ member)
  refine ⟨fun write member => ?_,same ▸ placing.single,fun id known => ?_,placing.fresh,fun order member => ?_⟩
  · rcases List.mem_append.mp member with old | new
    · exact placing.writes write old
    · exact (quiet write new).1
  · exact ⟨List.mem_append_left _ (placing.held id known).1,List.mem_append_left _ (placing.held id known).2⟩
  · rcases List.mem_append.mp member with old | new
    · exact placing.submitted order old
    · rw [← List.mem_singleton.mp new] at aside
      exact absurd aside not_false

/-- The insertion that succeeds is the only order under its key. -/
theorem Placing.insert (placing : Placing key none session committed) {client : Client} {row stored : Order}
    (ok : Table.store server.numeric .orders { row with createdAt := server.now client } = .ok stored)
    (valid : Database.violated (session.writes.foldl Database.apply committed) .orders stored = none)
    (own : row.idempotencyKey = key) (rest : Program sql α) (issued : List Statement)
    (silent : ∀ order, .submitOrder order ∈ issued → .submitOrder order ∈ session.issued) :
    Placing key (some row.id) ⟨rest,session.writes ++ [.insert .orders stored],
      session.held ++ [.row .orders row.id,.entry .orders (.idempotencyKey row.idempotencyKey)],issued⟩ committed := by
  have id : stored.id = row.id := Table.key_store _ ok
  have keyed : stored.idempotencyKey =
      ({ row with createdAt := server.now client } : Order).idempotencyKey := store_idempotencyKey ok
  have none : ownOrders session.writes = [] := by
    rw [List.eq_nil_iff_forall_not_mem]
    intro order member
    cases (ownOrders_named placing.writes order member).1
  obtain ⟨fresh,alone,_⟩ := Database.violated_none valid
  have committedOnly := placing.visible
  rw [none,List.append_nil] at committedOnly
  refine ⟨fun write member => ?_,?_,fun known same => ?_,fun known same order member => ?_,
    fun order member => ?_⟩
  · rcases List.mem_append.mp member with old | new
    · have before := placing.writes write old
      cases write with
      | insert t other =>
        cases t with
        | orders => cases before.1
        | _ => trivial
      | update t other set =>
        cases t with
        | orders => cases before
        | _ => trivial
    · rw [List.mem_singleton.mp new]
      exact ⟨congrArg some id.symm,keyed.trans own⟩
  · rw [ownOrders_append,none]
    exact le_refl 1
  · cases same
    exact ⟨by simp,by simp [own]⟩
  · cases same
    rw [← committedOnly] at member
    constructor
    · intro same
      have inside : Database.has (session.writes.foldl Database.apply committed) .orders stored.id = true :=
        Database.has_iff.mpr ⟨order,member,same.trans id.symm⟩
      rw [show Database.has _ .orders stored.id = false from fresh] at inside
      cases inside
    · intro same
      have clash : Database.clashes (session.writes.foldl Database.apply committed) .orders stored = true :=
        List.any_eq_true.mpr ⟨order,member,by simp [Table.indexEntries,same,keyed,own]⟩
      rw [alone] at clash
      cases clash
  · exact absurd rfl (placing.submitted order (silent order member)).1

variable {keys : Client → String} {client : Client}

theorem placing_answered {op : Statement} {reply : op.Reply} {more : List Write} (rest : Program sql α)
    (placing : Placing (keys client) state session committed)
    (allowed : (placement keys).allowed client state op)
    (answered : server.exec client session.issued.length op (server.engine.visible committed session.writes) =
      .ok (reply,more)) :
    Placing (keys client) ((placement keys).after client state op (.ok reply))
      ⟨rest,session.writes ++ more,
        session.held ++ server.engine.locks op (server.engine.visible committed session.writes),
        session.issued ++ [op]⟩ committed := by
  cases op with
  | insert t row =>
    cases t with
    | orders =>
      obtain ⟨stored,ok,valid,rfl⟩ := Server.exec_writes answered
      obtain ⟨rfl,own⟩ := allowed
      refine placing.insert ok valid own rest _ fun order member => ?_
      simpa using member
    | _ => exact placing.aside answered (by simp [Aside]) rest _
  | update t id set =>
    cases t with
    | orders =>
      obtain ⟨stored,_,rfl⟩ := Server.exec_writes answered
      refine ⟨fun write member => ?_,?_,fun known same => ?_,placing.fresh,fun order member => ?_⟩
      · rcases List.mem_append.mp member with old | new
        · exact placing.writes write old
        · rw [List.mem_singleton.mp new]
          exact allowed
      · rw [ownOrders_append]
        exact (List.length_map ..).trans_le placing.single
      · obtain ⟨row,entry⟩ := placing.held known same
        exact ⟨List.mem_append_left _ row,List.mem_append_left _ entry⟩
      · exact placing.submitted order (by simpa using member)
    | _ => exact placing.aside answered (by simp [Aside]) rest _
  | submitOrder sent =>
    have nothing : more = [] := Server.exec_writes answered
    subst nothing
    refine ⟨(List.append_nil _).symm ▸ placing.writes,(List.append_nil _).symm ▸ placing.single,
      fun id known => ?_,placing.fresh,fun order member => ?_⟩
    · obtain ⟨row,entry⟩ := placing.held id known
      exact ⟨List.mem_append_left _ row,List.mem_append_left _ entry⟩
    · rcases List.mem_append.mp member with old | new
      · exact placing.submitted order old
      · cases List.mem_singleton.mp new
        exact allowed
  | _ => exact placing.aside answered trivial rest _

theorem placement_error (op : Statement) (error : Exception) :
    (placement keys).after client state op (.error error) = state := by
  cases op with
  | insert t row => cases t <;> rfl
  | _ => rfl

theorem placement_guarantee (programs : Client → Program sql α) :
    Guarantee server.engine (placement keys) programs (fun _ => True)
      (fun db => ((db .orders).map Order.idempotencyKey).Nodup) (fun client => Placing (keys client)) where
  start client committed unique :=
    ⟨by simp,by simp [ownOrders],fun _ known => (by cases known),fun _ known => (by cases known),by simp⟩
  sees _ _ _ _ _ _ := trivial
  answered client state session committed op rest reply more _ placing allowed answered _ :=
    placing_answered rest placing allowed answered
  failed client state session committed op rest error _ placing allowed raised := by
    rw [placement_error]
    refine ⟨placing.writes,placing.single,placing.held,placing.fresh,fun order member => ?_⟩
    rcases List.mem_append.mp member with old | new
    · exact placing.submitted order old
    · cases List.mem_singleton.mp new
      exact allowed
  commit client state session committed unique placing := by
    have visible : (server.engine.visible committed session.writes) .orders =
        committed .orders ++ ownOrders session.writes := placing.visible
    rw [visible,List.map_append]
    refine List.nodup_append.mpr ⟨unique,?_,?_⟩
    · have single := placing.single
      rcases own : ownOrders session.writes with _ | ⟨order,_ | ⟨_,_⟩⟩
      · exact List.nodup_nil
      · exact List.nodup_singleton _
      · rw [own] at single
        simp at single
    · intro first old second new same
      obtain ⟨before,member,rfl⟩ := List.mem_map.mp old
      obtain ⟨order,own,rfl⟩ := List.mem_map.mp new
      obtain ⟨named,keyed⟩ := ownOrders_named placing.writes order own
      exact (placing.fresh order.id named before member).2 (same.trans keyed)
  rely client other state session state' session' committed different unique placing theirs disjoint := by
    have visible : (server.engine.visible committed session'.writes) .orders =
        committed .orders ++ ownOrders session'.writes := theirs.visible
    refine ⟨placing.writes,placing.single,placing.held,fun id known order member => ?_,placing.submitted⟩
    rw [visible] at member
    rcases List.mem_append.mp member with old | new
    · exact placing.fresh id known order old
    · obtain ⟨row,entry⟩ := placing.held id known
      obtain ⟨named,keyed⟩ := ownOrders_named theirs.writes order new
      obtain ⟨rowTheirs,entryTheirs⟩ := theirs.held order.id named
      constructor
      · intro same
        rw [same] at rowTheirs
        exact disjoint _ row rowTheirs
      · intro same
        rw [← keyed,same] at entryTheirs
        exact disjoint _ entry entryTheirs

end Invariant

section Requests
variable {Client : Type} {server : Server Client}
  {gateway : Client → SubmittedOrder → Except Exception OrderSubmission} {now : Client → Timestamp}
  {request : Client → TradeRequest}

/-- A request whose key is already committed: it has sent nothing but its lookup,
and returns what the lookup finds. -/
def Replayed (programs : Client → Action Order) (client : Client) (stored : Order)
    (status : Transaction.Status sql Write Resource Order) : Prop :=
  match status with
  | .ready => True
  | .running session => session.writes = [] ∧
      (session.issued = [] ∧ session.program = programs client ∨
        session.issued = [.selectOrder stored.idempotencyKey] ∧ session.program = .done (.ok stored))
  | .ended outcome issued => outcome = .ok stored ∧ issued = [.selectOrder stored.idempotencyKey]

theorem find_unique {db : Database} (unique : ((db .orders).map Order.idempotencyKey).Nodup) {stored : Order}
    (member : stored ∈ db .orders) :
    (db .orders).find? (fun order => order.idempotencyKey == stored.idempotencyKey) = some stored := by
  cases found : (db .orders).find? (fun order => order.idempotencyKey == stored.idempotencyKey) with
  | none => exact absurd rfl (Database.find_key_none.mp found stored member)
  | some order =>
    have same : order.idempotencyKey = stored.idempotencyKey := by simpa using List.find?_some found
    rw [List.inj_on_of_nodup_map unique (List.mem_of_find?_eq_some found) member same]

/-- The lookup of a committed key, sent by a transaction without writes. -/
theorem lookup_proceeds {committed : Database} (unique : ((committed .orders).map Order.idempotencyKey).Nodup)
    {client : Client} {stored : Order} (member : stored ∈ committed .orders)
    (same : (request client).idempotencyKey = stored.idempotencyKey)
    {session : Session sql Write Resource Order} (clean : session.writes = [] ∧ session.issued = [])
    {next : Except Exception (Option Order) → Action Order}
    (sent : trades gateway now request client = .call (.selectOrder stored.idempotencyKey) next) :
    (server.engine.proceed client committed session (.selectOrder stored.idempotencyKey) next).writes = [] ∧
      (server.engine.proceed client committed session (.selectOrder stored.idempotencyKey) next).issued =
        [.selectOrder stored.idempotencyKey] ∧
      (server.engine.proceed client committed session (.selectOrder stored.idempotencyKey) next).program =
        .done (.ok stored) := by
  have found := find_unique unique member
  have answered : server.engine.exec client session.issued.length (.selectOrder stored.idempotencyKey)
      (server.engine.visible committed session.writes) = .ok (some stored,[]) := by
    rw [clean.1,← found]
    rfl
  have next_eq : next (.ok (some stored)) = .done (.ok stored) := by
    have shape : trades gateway now request client =
        .call (.selectOrder (request client).idempotencyKey) (fun reply => (match reply with
          | .ok (some existing) => .done (.ok existing)
          | .ok none => (TradingService.init (gateway client) (now client)).placeOrder (request client)
          | .error error => .done (.error error) : Action Order)) := by
      change Program.call (S := sql) _ _ = _
      congr 1
      funext reply
      rcases reply with _ | _ | _ <;> rfl
    rw [same,sent] at shape
    cases shape
    rfl
  rw [@Engine.proceed_ok sql Client Database Write Resource Order server.engine client committed session
    (.selectOrder stored.idempotencyKey) next _ _ answered,clean.1,clean.2]
  exact ⟨rfl,rfl,next_eq⟩

variable [DecidableEq Client]

theorem trades_kept {db : Database} (unique : ((db .orders).map Order.idempotencyKey).Nodup)
    {config : Config sql Client Database Write Resource Order}
    (reached : Reachable server.engine (trades gateway now request) db config) :
    Kept server.engine (placement fun client => (request client).idempotencyKey) (fun _ => True)
      (fun db => ((db .orders).map Order.idempotencyKey).Nodup)
      (fun client => Placing (request client).idempotencyKey) config :=
  (placement_guarantee (trades gateway now request)).reachable (fun _ => executeTrade_obeys _ rfl) unique reached

theorem stored_step {db : Database} (unique : ((db .orders).map Order.idempotencyKey).Nodup)
    {before after : Config sql Client Database Write Resource Order} {label : Label sql Client}
    (reached : Reachable server.engine (trades gateway now request) db before)
    (step : Step server.engine (trades gateway now request) before label after) {stored : Order}
    (member : stored ∈ before.committed .orders) : stored ∈ after.committed .orders := by
  cases step with
  | commit actor session value opened returned =>
    obtain ⟨state,placing,_⟩ := (trades_kept unique reached).2 actor session opened
    have visible : (server.engine.visible before.committed session.writes) .orders =
        before.committed .orders ++ ownOrders session.writes := placing.visible
    change stored ∈ (server.engine.visible before.committed session.writes) .orders
    rw [visible]
    exact List.mem_append_left _ member
  | _ => exact member

theorem replayed_step {before after : Config sql Client Database Write Resource Order} {label : Label sql Client}
    (step : Step server.engine (trades gateway now request) before label after) {client : Client} {stored : Order}
    (same : (request client).idempotencyKey = stored.idempotencyKey)
    (keys : ((before.committed .orders).map Order.idempotencyKey).Nodup)
    (member : stored ∈ before.committed .orders)
    (replayed : Replayed (trades gateway now request) client stored (before.status client)) :
    Replayed (trades gateway now request) client stored (after.status client) := by
  by_cases mine : client = label.client
  · cases opened : before.status client with
    | ready =>
      rw [(step.opens mine opened).1]
      exact ⟨rfl,Or.inl ⟨rfl,rfl⟩⟩
    | running session =>
      rw [opened] at replayed
      obtain ⟨clean,⟨issued,program⟩ | ⟨issued,program⟩⟩ := replayed
      · cases sent : session.program with
        | call op next =>
          obtain ⟨_,running,_⟩ := step.sends mine opened sent
          have lookup : op = .selectOrder stored.idempotencyKey := by
            rw [← same]
            rw [sent] at program
            cases program
            rfl
          subst op
          obtain ⟨writes,issued,program⟩ := lookup_proceeds keys member same ⟨clean,issued⟩ (program.symm.trans sent)
          rw [running]
          exact ⟨writes,Or.inr ⟨issued,program⟩⟩
        | done outcome =>
          rw [sent] at program
          cases program
      · rw [(step.finishes mine opened program).1]
        exact ⟨rfl,issued⟩
    | ended outcome issued => exact absurd opened (step.alive mine)
  · rw [step.others mine]
    exact replayed

/-- Along a run a request whose key was committed before it started only replays. -/
theorem replayed_runs {db : Database} (unique : ((db .orders).map Order.idempotencyKey).Nodup)
    {config later : Config sql Client Database Write Resource Order}
    (reached : Reachable server.engine (trades gateway now request) db config) {client : Client} {stored : Order}
    (same : (request client).idempotencyKey = stored.idempotencyKey) (member : stored ∈ config.committed .orders)
    (idle : config.status client = .ready)
    (runs : Runs server.engine (trades gateway now request) (fun _ _ => True) config later) :
    Reachable server.engine (trades gateway now request) db later ∧ stored ∈ later.committed .orders ∧
      Replayed (trades gateway now request) client stored (later.status client) := by
  refine Runs.invariant (fun later => Reachable server.engine (trades gateway now request) db later ∧
    stored ∈ later.committed .orders ∧ Replayed (trades gateway now request) client stored (later.status client))
    runs ⟨reached,member,by rw [idle]; trivial⟩ ?_
  rintro before label after ⟨reached,member,replayed⟩ step _
  exact ⟨reached.step step,stored_step unique reached step member,
    replayed_step step same (trades_kept unique reached).1 member replayed⟩

theorem answered_returns {config : Config sql Client Database Write Resource Order} {client : Client}
    {stored : Order} {session : Session sql Write Resource Order} (opened : config.status client = .running session)
    (issued : session.issued = [.selectOrder stored.idempotencyKey])
    (program : session.program = .done (.ok stored)) :
    ∃ final, Runs server.engine (trades gateway now request) (fun _ _ => True) config final ∧
      final.status client = .ended (.ok stored) [.selectOrder stored.idempotencyKey] := by
  refine ⟨_,.single ⟨_,.commit config client session stored opened program,trivial⟩,?_⟩
  rw [← issued]
  exact Config.set_self config client _

/-- A replay that has sent nothing looks its key up, with no lock to wait for. -/
theorem opened_returns {config : Config sql Client Database Write Resource Order}
    (unique : ((config.committed .orders).map Order.idempotencyKey).Nodup) {client : Client} {stored : Order}
    (same : (request client).idempotencyKey = stored.idempotencyKey) (member : stored ∈ config.committed .orders)
    {session : Session sql Write Resource Order} (opened : config.status client = .running session)
    (clean : session.writes = [] ∧ session.issued = [])
    (program : session.program = trades gateway now request client) :
    ∃ final, Runs server.engine (trades gateway now request) (fun _ _ => True) config final ∧
      final.status client = .ended (.ok stored) [.selectOrder stored.idempotencyKey] := by
  obtain ⟨next,sent⟩ : ∃ next, trades gateway now request client =
      .call (.selectOrder stored.idempotencyKey) next := by
    rw [← same]
    exact ⟨_,rfl⟩
  obtain ⟨writes,issued,ended⟩ := lookup_proceeds unique member same clean sent
  have step : Step server.engine (trades gateway now request) config
      (.issue client (.selectOrder stored.idempotencyKey)) _ :=
    .issue config client session _ next opened (program.trans sent) fun _ _ _ member => (by cases member)
  have proceeds := Config.set_self config client
    (.running (server.engine.proceed client config.committed session (.selectOrder stored.idempotencyKey) next))
  obtain ⟨final,runs,returned⟩ := @answered_returns Client server gateway now request _ { config.set client _ with
    history := config.history ++ [(client,.selectOrder stored.idempotencyKey)] } _ _ _ proceeds issued ended
  exact ⟨final,.head ⟨_,step,trivial⟩ runs,returned⟩

/-- A replay waits for nobody: its own steps lead to its end. -/
theorem replayed_returns {config : Config sql Client Database Write Resource Order}
    (unique : ((config.committed .orders).map Order.idempotencyKey).Nodup) {client : Client} {stored : Order}
    (same : (request client).idempotencyKey = stored.idempotencyKey) (member : stored ∈ config.committed .orders)
    (replayed : Replayed (trades gateway now request) client stored (config.status client)) :
    ∃ final, Runs server.engine (trades gateway now request) (fun _ _ => True) config final ∧
      final.status client = .ended (.ok stored) [.selectOrder stored.idempotencyKey] := by
  cases status : config.status client with
  | ready =>
    have step : Step server.engine (trades gateway now request) config (.start client) _ :=
      .start config client status
    obtain ⟨final,runs,returned⟩ := @opened_returns Client server gateway now request _
      (config.set client (.running ⟨trades gateway now request client,[],[],[]⟩)) unique _ _ same member _
      (Config.set_self config client _) ⟨rfl,rfl⟩ rfl
    exact ⟨final,.head ⟨_,step,trivial⟩ runs,returned⟩
  | running session =>
    rw [status] at replayed
    obtain ⟨writes,⟨issued,program⟩ | ⟨issued,program⟩⟩ := replayed
    · exact opened_returns unique same member status ⟨writes,issued⟩ program
    · exact answered_returns status issued program
  | ended outcome issued =>
    rw [status] at replayed
    obtain ⟨rfl,rfl⟩ := replayed
    exact ⟨config,.refl,status⟩

end Requests

/-- At most one order a key, in every interleaving of any requests: no second
order is committed, the exchange is not called for a committed key, no two open
transactions have called it for one key, and a request that starts after the
commit returns the committed order, having sent nothing but its lookup. -/
theorem one_live_order {Client : Type} [DecidableEq Client] (server : Server Client)
    (gateway : Client → SubmittedOrder → Except Exception OrderSubmission) (now : Client → Timestamp)
    (request : Client → TradeRequest) (db : Database) (unique : ((db .orders).map Order.idempotencyKey).Nodup)
    (config : Config sql Client Database Write Resource Order)
    (reached : Reachable server.engine (trades gateway now request) db config) :
    ((config.committed .orders).map Order.idempotencyKey).Nodup ∧
    (∀ client order after, Step server.engine (trades gateway now request) config
        (.issue client (.submitOrder order)) after →
      ∀ stored ∈ config.committed .orders, stored.idempotencyKey ≠ order.clientOrderId) ∧
    (∀ client other mine theirs first second, client ≠ other → config.status client = .running mine →
      config.status other = .running theirs → .submitOrder first ∈ mine.issued →
      .submitOrder second ∈ theirs.issued → first.clientOrderId ≠ second.clientOrderId) ∧
    (∀ client stored, stored ∈ config.committed .orders →
      stored.idempotencyKey = (request client).idempotencyKey → config.status client = .ready →
      ∀ later, Runs server.engine (trades gateway now request) (fun _ _ => True) config later →
        (∀ session, later.status client = .running session →
          session.writes = [] ∧ ∀ op ∈ session.issued, op = .selectOrder stored.idempotencyKey) ∧
        (∀ outcome issued, later.status client = .ended outcome issued →
          outcome = .ok stored ∧ ∀ op ∈ issued, op = .selectOrder stored.idempotencyKey) ∧
        ∃ final, Runs server.engine (trades gateway now request) (fun _ _ => True) later final ∧
          final.status client = .ended (.ok stored) [.selectOrder stored.idempotencyKey]) := by
  obtain ⟨keys,locally⟩ := trades_kept unique reached
  refine ⟨keys,?_,?_,?_⟩
  · intro client order after step stored member
    cases step with
    | issue _ session _ next opened sent free =>
      obtain ⟨state,placing,obeys⟩ := locally client session opened
      rw [sent,Program.obeys_call] at obeys
      obtain ⟨inserted,own⟩ := obeys.1
      obtain ⟨id,known⟩ := Option.ne_none_iff_exists'.mp inserted
      rw [own]
      exact (placing.fresh id known stored member).2
  · intro client other mine theirs first second different running opened sent submitted same
    obtain ⟨state,placing,_⟩ := locally client mine running
    obtain ⟨state',placing',_⟩ := locally other theirs opened
    obtain ⟨inserted,own⟩ := placing.submitted first sent
    obtain ⟨inserted',own'⟩ := placing'.submitted second submitted
    obtain ⟨id,known⟩ := Option.ne_none_iff_exists'.mp inserted
    obtain ⟨id',known'⟩ := Option.ne_none_iff_exists'.mp inserted'
    have entry := (placing.held id known).2
    rw [← own,same,own'] at entry
    exact reached.exclusive client other (Ne.symm different) mine theirs running opened _ entry
      (placing'.held id' known').2
  · intro client stored member same idle later runs
    obtain ⟨reached,stays,replayed⟩ := replayed_runs unique reached same.symm member idle runs
    refine ⟨fun session running => ?_,fun outcome issued ended => ?_,
      replayed_returns (trades_kept unique reached).1 same.symm stays replayed⟩
    · rw [running] at replayed
      obtain ⟨writes,⟨issued,_⟩ | ⟨issued,_⟩⟩ := replayed
      · exact ⟨writes,by simp [issued]⟩
      · exact ⟨writes,by simp [issued]⟩
    · rw [ended] at replayed
      obtain ⟨returned,issued⟩ := replayed
      exact ⟨returned,by simp [issued]⟩

/-- Two requests with one key that both pass the lookup: the second one waits and
its insertion fails. -/
theorem one_live_order_race :
    ∃ config, Transaction.follow sampleServer.engine
        (trades (fun _ _ => .ok sampleOpen) (fun _ => 0) (fun _ => sampleBuy))
        ([0,1,0,1,0,1] ++ List.replicate 11 0 ++ List.replicate 6 1) (.initial sample) = some config ∧
      (config.committed .orders).map Order.idempotencyKey = ["k1"] ∧
      ((config.committed .orders).map Order.idempotencyKey).Nodup := by
  have scheduled : (Transaction.follow sampleServer.engine
      (trades (fun _ _ => .ok sampleOpen) (fun _ => 0) (fun _ => sampleBuy))
      ([0,1,0,1,0,1] ++ List.replicate 11 0 ++ List.replicate 6 1) (.initial sample)).map
        (fun config => (config.committed .orders).map Order.idempotencyKey) = some ["k1"] := by
    decide +kernel
  obtain ⟨config,followed,keys⟩ := Option.map_eq_some_iff.mp scheduled
  exact ⟨config,followed,keys,(one_live_order sampleServer (fun _ _ => .ok sampleOpen) (fun _ => 0)
    (fun _ => sampleBuy) sample (by decide +kernel) config
    (Transaction.follow_reachable .refl followed)).1⟩

end CryptoBrokerage
