import CryptoBrokerage.Footprint
import CryptoBrokerage.OpenOrders
import CryptoBrokerage.OwnRows

/-! What a run of the whole platform leaves of the books. Requests append rows of
their own to every table but the transactions; since the posting of a fill is
always refused, none of them is a posting, a position or an execution. -/
namespace CryptoBrokerage
open Transaction

def Appends (t : Table) (writes : List Write) (own : List t.Row) : Prop :=
  ∀ db : Database, (∀ row ∈ own, ∀ other ∈ db t, t.key other ≠ t.key row) →
    (writes.foldl Database.apply db) t = db t ++ own

section Appends
variable {t : Table} {writes more : List Write} {own : List t.Row}

theorem appends_nil (t : Table) : Appends t [] [] := fun db _ => (List.append_nil (db t)).symm

theorem Appends.untouched (appends : Appends t writes own) (untouched : ∀ write ∈ more, write.table ≠ t) :
    Appends t (writes ++ more) own := by
  intro db fresh
  rw [List.foldl_append,spares_untouched untouched]
  exact appends db fresh

theorem Appends.insert (appends : Appends t writes own) (row : t.Row) :
    Appends t (writes ++ [.insert t row]) (own ++ [row]) := by
  intro db fresh
  rw [List.foldl_append]
  refine (Database.insert_self ..).trans ?_
  rw [appends db fun other member => fresh other (List.mem_append_left _ member),List.append_assoc]

theorem Appends.update (appends : Appends t writes own) {id : Uuid} (mine : ∃ row ∈ own, t.key row = id)
    (set : t.Columns) : Appends t (writes ++ [.update t id set])
      (own.map fun row => if t.key row = id then t.assign set row else row) := by
  intro db fresh
  have keys (row : t.Row) : t.key (if t.key row = id then t.assign set row else row) = t.key row := by
    split
    · exact Table.key_assign t set row
    · rfl
  have absent : ∀ row ∈ own, ∀ other ∈ db t, t.key other ≠ t.key row := by
    intro row member other inside
    rw [← keys row]
    exact fresh _ (List.mem_map_of_mem member) other inside
  rw [List.foldl_append]
  refine (Database.modify_self ..).trans ?_
  rw [appends db absent,List.map_append]
  congr 1
  refine (List.map_congr_left fun other member => if_neg ?_).trans (List.map_id _)
  obtain ⟨row,inside,rfl⟩ := mine
  exact absent row inside other member

end Appends

section Sessions
variable {Client α : Type} {server : Server Client} {client : Client} {session other : Session sql Write Resource α}
  {committed : Database} {state : Footprint} {own : (t : Table) → List t.Row}

def Unfilled (server : Server Client) (order : Order) : Prop :=
  server.numeric 0 = .ok order.filledAmount ∧ (order.status = .pending ∨ order.status = .failed)

structure Appending (server : Server Client) (state : Footprint) (session : Session sql Write Resource α)
    (committed : Database) (own : (t : Table) → List t.Row) : Prop where
  appends : ∀ t, t ≠ .transactions → Appends t session.writes (own t)
  held : ∀ t, ∀ row ∈ own t, .row t (t.key row) ∈ session.held
  fresh : ∀ t, ∀ row ∈ own t, ∀ other ∈ committed t, t.key other ≠ t.key row
  unfilled : ∀ order ∈ own .orders, Unfilled server order
  entries : own .ledgerEntries = []
  positions : own .positions = []
  assets : own .assets = []
  executions : state.executed = false → own .tradeExecutions = []
  opened : ∀ id, .row .orders id ∈ state.held → ∃ order ∈ own .orders, order.id = id

theorem appending_start (server : Server Client) (program : Program sql α) (committed : Database) :
    Appending server {} (⟨program,[],[],[]⟩ : Session sql Write Resource α) committed fun _ => [] where
  appends t _ := appends_nil t
  held t row member := by cases member
  fresh t row member := by cases member
  unfilled order member := by cases member
  entries := rfl
  positions := rfl
  assets := rfl
  executions _ := rfl
  opened id member := by cases member

theorem Appending.visible (appending : Appending server state session committed own) {t : Table}
    (other : t ≠ .transactions) : (server.engine.visible committed session.writes) t = committed t ++ own t :=
  appending.appends t other committed (appending.fresh t)

/-- More resources, and writes to the transactions only. -/
theorem Appending.aside (appending : Appending server state session committed own) {more : List Write}
    (traced : ∀ write ∈ more, write.table = .transactions) {later : Footprint}
    (taken : ∀ id, .row .orders id ∈ later.held → .row .orders id ∈ state.held)
    (executed : later.executed = state.executed) (rest : Program sql α) (held : List Resource)
    (issued : List Statement) :
    Appending server later ⟨rest,session.writes ++ more,session.held ++ held,issued⟩ committed own where
  appends t other := (appending.appends t other).untouched fun write member same => other (same ▸ traced write member)
  held t row member := List.mem_append_left _ (appending.held t row member)
  fresh := appending.fresh
  unfilled := appending.unfilled
  entries := appending.entries
  positions := appending.positions
  assets := appending.assets
  executions idle := appending.executions (executed.symm.trans idle)
  opened id member := appending.opened id (taken id member)

def extended (own : (t : Table) → List t.Row) (t : Table) (row : t.Row) : (t : Table) → List t.Row :=
  Function.update own t (own t ++ [row])

theorem extended_self (own : (t : Table) → List t.Row) (t : Table) (row : t.Row) :
    extended own t row t = own t ++ [row] := Function.update_self ..

theorem extended_other (own : (t : Table) → List t.Row) {t other : Table} (row : t.Row) (different : other ≠ t) :
    extended own t row other = own other := Function.update_of_ne different ..

theorem mem_extended {own : (t : Table) → List t.Row} {t other : Table} {row : t.Row} {entry : other.Row}
    (member : entry ∈ extended own t row other) :
    entry ∈ own other ∨ ∃ same : t = other, entry = same ▸ row := by
  by_cases same : other = t
  · subst same
    rw [extended_self] at member
    rcases List.mem_append.mp member with old | new
    · exact Or.inl old
    · exact Or.inr ⟨rfl,List.mem_singleton.mp new⟩
  · rw [extended_other own row same] at member
    exact Or.inl member

theorem Appending.insert (appending : Appending server state session committed own) {t : Table} {row stored : t.Row}
    (permitted : state.Permits (.insert t row)) (other : t ≠ .transactions)
    (ok : t.store server.numeric (t.stamp (server.now client) row) = .ok stored)
    (valid : (server.engine.visible committed session.writes).violated t stored = none) (rest : Program sql α)
    (issued : List Statement) :
    Appending server ⟨state.held ++ Statement.needs (.insert t row),state.executed || (t == .tradeExecutions)⟩
      ⟨rest,session.writes ++ [.insert t stored],session.held ++ Statement.needs (.insert t row),issued⟩ committed
      (extended own t stored) := by
  have key : t.key stored = t.key row := (Table.key_store _ ok).trans (Table.key_stamp ..)
  have unwritten {table : Table} (excluded : table ≠ t) : extended own t stored table = own table :=
    extended_other own stored excluded
  refine ⟨?_,?_,?_,?_,?_,?_,?_,?_,?_⟩
  · intro table kept
    by_cases same : table = t
    · subst same
      rw [extended_self]
      exact (appending.appends table kept).insert stored
    · rw [unwritten same]
      refine (appending.appends table kept).untouched fun write member => ?_
      rw [List.mem_singleton.mp member]
      exact Ne.symm same
  · intro table entry member
    rcases mem_extended member with old | ⟨rfl,rfl⟩
    · exact List.mem_append_left _ (appending.held table entry old)
    · rw [key]
      exact List.mem_append_right _ List.mem_cons_self
  · intro table entry member present inside
    rcases mem_extended member with old | ⟨rfl,rfl⟩
    · exact appending.fresh table entry old present inside
    · refine Database.fresh_of_valid valid present ?_
      rw [appending.visible other]
      exact List.mem_append_left _ inside
  · intro order member
    rcases mem_extended member with old | ⟨rfl,rfl⟩
    · exact appending.unfilled order old
    · obtain ⟨same,_,filled,_⟩ := store_order ok
      obtain ⟨empty,pending⟩ : row.filledAmount = 0 ∧ row.status = .pending := permitted
      refine ⟨?_,Or.inl ?_⟩
      · rw [← empty]
        exact filled
      · rw [same]
        exact pending
  · rw [unwritten (by rintro rfl; exact permitted)]
    exact appending.entries
  · rw [unwritten (by rintro rfl; exact permitted)]
    exact appending.positions
  · rw [unwritten (by rintro rfl; exact permitted)]
    exact appending.assets
  · intro idle
    obtain ⟨before,plain⟩ := Bool.or_eq_false_iff.mp idle
    rw [unwritten (by rintro rfl; cases plain)]
    exact appending.executions before
  · intro id member
    rcases List.mem_append.mp member with old | new
    · obtain ⟨order,inside,same⟩ := appending.opened id old
      by_cases orders : t = .orders
      · subst orders
        rw [extended_self]
        exact ⟨order,List.mem_append_left _ inside,same⟩
      · rw [unwritten (Ne.symm orders)]
        exact ⟨order,inside,same⟩
    · rcases List.mem_cons.mp new with row' | entry
      · obtain ⟨rfl,same⟩ := Resource.row.inj row'
        rw [extended_self]
        exact ⟨stored,List.mem_append_right _ (List.mem_singleton_self _),key.trans same.symm⟩
      · obtain ⟨_,_,impossible⟩ := List.mem_map.mp entry
        cases impossible

/-- The order that a request fails is its own. -/
theorem Appending.update (appending : Appending server state session committed own) {id : Uuid}
    {set stored : OrderColumns} (permitted : state.Permits (.update .orders id set))
    (ok : Table.storeColumns server.numeric .orders set = .ok stored) (rest : Program sql α) (issued : List Statement) :
    Appending server ⟨state.held ++ [.row .orders id],state.executed⟩
      ⟨rest,session.writes ++ [.update .orders id stored],session.held ++ [.row .orders id],issued⟩ committed
      (Function.update own .orders ((own .orders).map fun (row : Order) =>
        if row.id = id then Table.assign .orders stored row else row)) := by
  obtain ⟨held,unset,status⟩ := permitted
  have mine := appending.opened id held
  obtain ⟨filledAmount,kept,ok⟩ := except_bind_ok ok
  rw [unset] at kept
  cases kept
  cases ok
  have keys (row : Order) : (if row.id = id then Table.assign .orders { set with filledAmount := none } row else row).id =
      row.id := by
    split <;> rfl
  have unwritten {table : Table} (excluded : table ≠ .orders) (rows : List Order) :
      Function.update own .orders rows table = own table := Function.update_of_ne excluded ..
  refine ⟨?_,?_,?_,?_,?_,?_,?_,?_,?_⟩
  · intro table other
    by_cases same : table = .orders
    · subst same
      rw [Function.update_self]
      exact (appending.appends .orders other).update mine _
    · rw [unwritten same]
      refine (appending.appends table other).untouched fun write member => ?_
      rw [List.mem_singleton.mp member]
      exact Ne.symm same
  · intro table entry member
    by_cases same : table = .orders
    · subst same
      rw [Function.update_self] at member
      obtain ⟨row,inside,rfl⟩ := List.mem_map.mp member
      have old := appending.held .orders row inside
      exact List.mem_append_left _ ((congrArg (Resource.row .orders) (keys row)).symm ▸ old)
    · rw [unwritten same] at member
      exact List.mem_append_left _ (appending.held table entry member)
  · intro table entry member other inside
    by_cases same : table = .orders
    · subst same
      rw [Function.update_self] at member
      obtain ⟨row,own,rfl⟩ := List.mem_map.mp member
      have old := appending.fresh .orders row own other inside
      exact fun key => old (key.trans (keys row))
    · rw [unwritten same] at member
      exact appending.fresh table entry member other inside
  · rw [Function.update_self]
    intro order member
    obtain ⟨row,inside,rfl⟩ := List.mem_map.mp member
    have old := appending.unfilled row inside
    split
    · refine ⟨old.1,?_⟩
      rcases status with untouched | failed
      · change (set.status.getD row.status = .pending) ∨ (set.status.getD row.status = .failed)
        rw [untouched]
        exact old.2
      · change (set.status.getD row.status = .pending) ∨ (set.status.getD row.status = .failed)
        rw [failed]
        exact Or.inr rfl
    · exact old
  · rw [unwritten (by decide)]
    exact appending.entries
  · rw [unwritten (by decide)]
    exact appending.positions
  · rw [unwritten (by decide)]
    exact appending.assets
  · intro idle
    rw [unwritten (by decide)]
    exact appending.executions idle
  · intro other member
    have old : ∃ order ∈ own .orders, order.id = other := by
      rcases List.mem_append.mp member with old | new
      · exact appending.opened other old
      · obtain ⟨_,rfl⟩ := Resource.row.inj (List.mem_singleton.mp new)
        exact mine
    obtain ⟨row,inside,rfl⟩ := old
    rw [Function.update_self]
    exact ⟨_,List.mem_map_of_mem inside,keys row⟩

theorem appending_answered (appending : Appending server state session committed own) {op : Statement}
    {reply : op.Reply} {writes : List Write} {turn : Nat} (permitted : state.Permits op)
    (answered : server.exec client turn op (server.engine.visible committed session.writes) = .ok (reply,writes))
    (rest : Program sql α) (issued : List Statement) :
    ∃ later, Appending server ((footprint Client).after client state op (.ok reply))
      ⟨rest,session.writes ++ writes,session.held ++ Server.locks op (server.engine.visible committed session.writes),
        issued⟩ committed later := by
  have written := Server.exec_writes answered
  have unwritten (nothing : writes = []) (taken : ∀ id, .row .orders id ∉ op.takes reply)
      (executes : op.executes = false) (held : List Resource) :
      Appending server ((footprint Client).after client state op (.ok reply))
        ⟨rest,session.writes ++ writes,session.held ++ held,issued⟩ committed own := by
    subst nothing
    refine appending.aside (by simp) (fun id member => ?_) ?_ rest held issued
    · exact (List.mem_append.mp member).resolve_right (taken id)
    · change (state.executed || op.executes) = state.executed
      rw [executes,Bool.or_false]
  cases op with
  | insert t row =>
    obtain ⟨stored,ok,valid,rfl⟩ := written
    by_cases other : t = .transactions
    · subst other
      refine ⟨own,appending.aside ?_ (fun id member => ?_) (Bool.or_false _) rest _ issued⟩
      · intro write member
        rw [List.mem_singleton.mp member]
        rfl
      · rcases List.mem_append.mp member with old | new
        · exact old
        · cases List.mem_singleton.mp new
    · have executes : Statement.executes (.insert t row) = (t == .tradeExecutions) := by
        cases t <;> rfl
      have inserted := appending.insert permitted other ok valid rest issued
      rw [← executes] at inserted
      exact ⟨_,inserted⟩
  | update t id set =>
    obtain ⟨stored,ok,rfl⟩ := written
    cases t with
    | orders =>
      have updated := appending.update permitted ok rest issued
      rw [← Bool.or_false state.executed] at updated
      exact ⟨_,updated⟩
    | transactions =>
      refine ⟨own,appending.aside ?_ (fun other member => ?_) (Bool.or_false _) rest _ issued⟩
      · intro write member
        rw [List.mem_singleton.mp member]
        rfl
      · rcases List.mem_append.mp member with old | new
        · exact old
        · cases List.mem_singleton.mp new
    | _ => exact absurd permitted not_false
  | selectAccountForUpdate id =>
    refine ⟨own,unwritten written (fun other member => ?_) rfl _⟩
    cases reply with
    | none => cases member
    | some account => cases List.mem_singleton.mp member
  | _ => exact ⟨own,unwritten written (fun _ member => by cases member) rfl _⟩

theorem Appending.rely (mine : Appending server state session committed own)
    (exclusive : ∀ resource ∈ session.held, resource ∉ other.held) (locked : Locked other) :
    Appending server state session (server.engine.visible committed other.writes) own where
  appends := mine.appends
  held := mine.held
  fresh t row member :=
    locked.fresh (mine.held t row member) exclusive (mine.fresh t row member)
  unfilled := mine.unfilled
  entries := mine.entries
  positions := mine.positions
  assets := mine.assets
  executions := mine.executions
  opened := mine.opened

theorem standing_guarantee (programs : Client → Program sql α) :
    Guarantee server.engine (footprint Client) programs (fun _ => True) (fun _ => True)
      (fun _ state session committed => Locked session ∧ ∃ own, Appending server state session committed own) where
  start client committed _ := ⟨locked_start _,_,appending_start server _ committed⟩
  sees _ _ _ _ _ _ := trivial
  answered client state session committed op rest reply writes _ holds permitted answered _ := by
    obtain ⟨locked,own,appending⟩ := holds
    exact ⟨locked.answered answered rest _,appending_answered appending permitted.1 answered rest _⟩
  failed client state session committed op rest error _ holds _ _ := by
    obtain ⟨locked,own,appending⟩ := holds
    refine ⟨locked,own,?_⟩
    exact ⟨appending.appends,appending.held,appending.fresh,appending.unfilled,appending.entries,appending.positions,
      appending.assets,appending.executions,appending.opened⟩
  commit _ _ _ _ _ _ := trivial
  rely _ _ _ _ _ _ _ _ _ mine theirs exclusive := by
    obtain ⟨locked,own,appending⟩ := mine
    exact ⟨locked,own,appending.rely exclusive theirs.1⟩

end Sessions

def sampleExchange (order : SubmittedOrder) : Except Exception OrderSubmission :=
  .ok { sampleOpen with status := if order.clientOrderId = "k1" then "OPEN" else "REJECTED" }

def Transaction.terms (transaction : CryptoBrokerage.Transaction) : Uuid × Uuid × TransactionType × Timestamp :=
  (transaction.id,transaction.userId,transaction.transactionType,transaction.createdAt)

/-- What a run of requests does to the committed store: it appends users, profiles,
accounts, bank accounts, transactions and unfilled orders, and neither posts nor
fills anything. -/
structure Database.Grows (server : Server Client) (before after : Database) : Prop where
  rows : ∀ t, t ≠ .transactions → before t <+: after t
  transactions : (before .transactions).map Transaction.terms <+: (after .transactions).map Transaction.terms
  entries : after .ledgerEntries = before .ledgerEntries
  positions : after .positions = before .positions
  executions : after .tradeExecutions = before .tradeExecutions
  assets : after .assets = before .assets
  orders : ∀ order ∈ after .orders, order ∈ before .orders ∨ Unfilled server order

section Runs
variable {Client : Type} {server : Server Client} {first db later : Database}

theorem Database.Grows.refl (server : Server Client) (db : Database) : db.Grows server db where
  rows t _ := List.prefix_refl (db t)
  transactions := List.prefix_refl _
  entries := rfl
  positions := rfl
  executions := rfl
  assets := rfl
  orders _ member := Or.inl member

theorem Database.Grows.trans (grows : first.Grows server db) (more : db.Grows server later) :
    first.Grows server later where
  rows t other := (grows.rows t other).trans (more.rows t other)
  transactions := grows.transactions.trans more.transactions
  entries := more.entries.trans grows.entries
  positions := more.positions.trans grows.positions
  executions := more.executions.trans grows.executions
  assets := more.assets.trans grows.assets
  orders order member := (more.orders order member).elim (grows.orders order) Or.inr

theorem Database.Grows.balance (grows : first.Grows server db) (account : Uuid) :
    db.balance account = first.balance account := by
  rw [Database.balance,Database.balance,Database.credits,Database.credits,Database.debits,Database.debits,grows.entries]

theorem apply_terms (db : Database) (write : Write) :
    (db .transactions).map Transaction.terms <+: ((db.apply write) .transactions).map Transaction.terms := by
  by_cases traced : write.table = .transactions
  · cases write with
    | insert t row =>
      subst traced
      change _ <+: ((db.insert .transactions row) .transactions).map Transaction.terms
      rw [Database.insert_self,List.map_append]
      exact List.prefix_append _ _
    | update t id set =>
      subst traced
      change _ <+: ((db.modify .transactions id set) .transactions).map Transaction.terms
      rw [Database.modify_self,List.map_map]
      have kept : (db .transactions).map (Transaction.terms ∘ fun row =>
          if Table.key .transactions row = id then Table.assign .transactions set row else row) =
          (db .transactions).map Transaction.terms := by
        refine List.map_congr_left fun row _ => ?_
        rw [Function.comp_apply]
        split <;> rfl
      exact kept.symm ▸ List.prefix_refl _
  · rw [db.apply_other traced]

theorem visible_terms (writes : List Write) (db : Database) :
    (db .transactions).map Transaction.terms <+: ((writes.foldl Database.apply db) .transactions).map Transaction.terms := by
  induction writes generalizing db with
  | nil => exact List.prefix_refl _
  | cons write rest ih => exact (apply_terms db write).trans (ih (db.apply write))

/-- What returns without an execution grows the store. -/
theorem Appending.grows {α : Type} {state : Footprint} {session : Session sql Write Resource α}
    {own : (t : Table) → List t.Row} (appending : Appending server state session db own)
    (unexecuted : state.executed = false) : db.Grows server (server.engine.visible db session.writes) where
  rows t other := by
    rw [appending.visible other]
    exact List.prefix_append _ _
  transactions := visible_terms session.writes db
  entries := by rw [appending.visible (by decide),appending.entries,List.append_nil]
  positions := by rw [appending.visible (by decide),appending.positions,List.append_nil]
  executions := by rw [appending.visible (by decide),appending.executions unexecuted,List.append_nil]
  assets := by rw [appending.visible (by decide),appending.assets,List.append_nil]
  orders order member := by
    rw [appending.visible (by decide)] at member
    exact (List.mem_append.mp member).imp id (appending.unfilled order)

variable [DecidableEq Client] {platform : Platform} {moment : Client → Moment} {call : Client → Call}
  {before after : Config sql Client Database Write Resource Response} {label : Label sql Client}

theorem grows_step (reached : Reachable server.engine (platform.requests moment call) db before)
    (step : Step server.engine (platform.requests moment call) before label after) :
    before.committed.Grows server after.committed := by
  have upheld := (@standing_guarantee _ _ server (platform.requests moment call)).upheld
    (fun client => handle_footprint platform (moment client) (call client)) trivial reached
  cases step with
  | commit client session value opened returned =>
    obtain ⟨state,⟨_,own,appending⟩,ended⟩ := upheld.2 client session opened
    rw [returned,Program.obeys_done] at ended
    exact appending.grows (ended value rfl)
  | _ => exact Database.Grows.refl server before.committed

theorem grows_runs (reached : Reachable server.engine (platform.requests moment call) db before)
    (runs : Runs server.engine (platform.requests moment call) (fun _ _ => True) before after) :
    Reachable server.engine (platform.requests moment call) db after ∧
      before.committed.Grows server after.committed := by
  apply runs.invariant (fun config => Reachable server.engine (platform.requests moment call) db config ∧
    before.committed.Grows server config.committed) ⟨reached,Database.Grows.refl server before.committed⟩
  rintro middle label last ⟨there,grows⟩ step _
  exact ⟨there.step step,grows.trans (grows_step there step)⟩

end Runs

/-- In every run of requests and between any two of its states, whatever the
exchange and the bank answer, no balance and no position changes. -/
theorem books_stand {Client : Type} [DecidableEq Client] (server : Server Client) (platform : Platform)
    (moment : Client → Moment) (call : Client → Call) (db : Database)
    (before after : Config sql Client Database Write Resource Response)
    (reached : Reachable server.engine (platform.requests moment call) db before)
    (runs : Runs server.engine (platform.requests moment call) (fun _ _ => True) before after) :
    before.committed.Grows server after.committed ∧
      (∀ account, after.committed.balance account = before.committed.balance account) ∧
      ∀ userId assetId, after.committed.quantity userId assetId = before.committed.quantity userId assetId := by
  have grows := (grows_runs reached runs).2
  refine ⟨grows,grows.balance,fun userId assetId => ?_⟩
  rw [Database.quantity,Database.quantity,grows.positions]

/-- Two orders of one customer are placed, the exchange reports the one that is
sent first open and the other one rejected. -/
theorem books_stand_pair :
    ∃ after, Reachable sampleServer.engine
        (samplePlatform.requests (sampleMoment sampleExchange) sampleCalls) sample after ∧
      (after.committed .orders).map Order.status = [.pending,.failed] ∧
      after.committed.balance 21 = sample.balance 21 := by
  have scheduled : (follow sampleServer.engine
      (samplePlatform.requests (sampleMoment sampleExchange) sampleCalls) (List.replicate 14 0 ++ List.replicate 18 1)
      (.initial sample)).map (fun config => (config.committed .orders).map Order.status) = some [.pending,.failed] := by
    decide +kernel
  obtain ⟨after,followed,statuses⟩ := Option.map_eq_some_iff.mp scheduled
  have stands := books_stand sampleServer samplePlatform (sampleMoment sampleExchange) sampleCalls sample
    (.initial sample) after .refl (follow_runs followed)
  exact ⟨after,follow_runs followed,statuses,stands.2.1 21⟩

/-- Once an order is committed, every later trade with its key returns that very
order, calls no exchange and writes nothing; a request for it sends no more, but its
response cannot be built. -/
theorem orders_replay {Client : Type} [DecidableEq Client] (server : Server Client) (platform : Platform)
    (moment : Client → Moment) (call : Client → Call) (db : Database)
    (before after : Config sql Client Database Write Resource Response)
    (reached : Reachable server.engine (platform.requests moment call) db before)
    (runs : Runs server.engine (platform.requests moment call) (fun _ _ => True) before after) (order : Order)
    (stored : (before.committed .orders).find? (fun other => other.idempotencyKey == order.idempotencyKey) = some order)
    (client : Client) (gateway : SubmittedOrder → Except Exception OrderSubmission) (now : Timestamp) :
    (∀ request : TradeRequest, request.idempotencyKey = order.idempotencyKey →
      server.engine.transact client ((TradingService.init gateway now).executeTrade request) after.committed =
        ⟨after.committed,.ok order,[.selectOrder order.idempotencyKey],after.committed⟩) ∧
    ∀ (decimal : ℚ → String) (user : User) (payload : OrderCreate), payload.idempotencyKey = order.idempotencyKey →
      server.engine.transact client (createOrder decimal gateway now user payload) after.committed =
        ⟨after.committed,.error (.validation "OrderRead" "executions"),[.selectOrder order.idempotencyKey],
          after.committed⟩ := by
  obtain ⟨more,appended⟩ := (grows_runs reached runs).2.rows .orders (by decide)
  have found : (after.committed .orders).find? (fun other => other.idempotencyKey == order.idempotencyKey) =
      some order := by
    rw [← appended,List.find?_append,stored,Option.some_or]
  have traded (request : TradeRequest) (same : request.idempotencyKey = order.idempotencyKey) :
      server.engine.run client ((TradingService.init gateway now).executeTrade request) ⟨after.committed,[]⟩ =
        (.ok order,⟨after.committed,[.selectOrder order.idempotencyKey]⟩) := by
    rw [← same] at found ⊢
    exact run_executeTrade_replay _ found
  constructor
  · intro request same
    exact Engine.transact_ok _ (traded request same)
  · intro decimal user payload same
    have ran : server.engine.run client (createOrder decimal gateway now user payload) ⟨after.committed,[]⟩ =
        (.error (.validation "OrderRead" "executions"),⟨after.committed,[.selectOrder order.idempotencyKey]⟩) := by
      unfold createOrder
      rw [Engine.run_bind,Engine.run_attempt,Engine.run_bind,traded (payload.request user) same]
      rfl
    exact Engine.transact_error _ ran

/-- The other customer, who sends the key of a committed order while the exchange
is down, is returned that order. -/
theorem orders_replay_pair :
    ∃ after, Reachable sampleServer.engine
        (samplePlatform.requests (sampleMoment sampleExchange) sampleCalls) sample after ∧
      (sampleServer.engine.transact 1 ((TradingService.init (fun _ => .error (.externalGateway "exchange" "timeout"))
        0).executeTrade { sampleBuy with userId := 2 }) after.committed).outcome = .ok (sampleBuy.order 105) := by
  have scheduled : (follow sampleServer.engine
      (samplePlatform.requests (sampleMoment sampleExchange) sampleCalls) (List.replicate 14 0 ++ List.replicate 18 1)
      (.initial sample)).map (fun config => (config.committed .orders).find?
        (fun other => other.idempotencyKey == (sampleBuy.order 105).idempotencyKey)) =
        some (some (sampleBuy.order 105)) := by
    decide +kernel
  obtain ⟨after,followed,stored⟩ := Option.map_eq_some_iff.mp scheduled
  have replayed := (orders_replay sampleServer samplePlatform (sampleMoment sampleExchange) sampleCalls sample after after
    (follow_runs followed) .refl (sampleBuy.order 105) stored 1
    (fun _ => .error (.externalGateway "exchange" "timeout")) 0).1 { sampleBuy with userId := 2 } rfl
  refine ⟨after,follow_runs followed,?_⟩
  rw [replayed]

end CryptoBrokerage
