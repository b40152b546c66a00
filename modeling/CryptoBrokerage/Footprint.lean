import CryptoBrokerage.Api
import CryptoBrokerage.Transaction.Progress
import Mathlib.Data.Fintype.Order

/-! What a request of the platform may do at each point: the tables it takes
resources of, in which order, and the rows it writes. -/
namespace CryptoBrokerage
open Transaction (Program Protocol)

def Table.rank : Table → Fin 10
  | .users => 0
  | .userProfiles => 1
  | .assets => 2
  | .accounts => 3
  | .bankAccounts => 4
  | .orders => 5
  | .transactions => 6
  | .tradeExecutions => 7
  | .positions => 8
  | .ledgerEntries => 9

def Resource.rank : Resource → Fin 10
  | .row t _ => t.rank
  | .entry t _ => t.rank

namespace Statement

def needs : Statement → List Resource
  | .insert t row => .row t (t.key row) :: (t.indexEntries row).map (.entry t)
  | .update t id _ => [.row t id]
  | .selectAccountForUpdate id => [.row .accounts id]
  | _ => []

/-- The resources that an answered statement has taken: an account that does not
exist is not locked. -/
def takes : (op : Statement) → op.Reply → List Resource
  | .insert t row, _ => needs (.insert t row)
  | .update t id set, _ => needs (.update t id set)
  | .selectAccountForUpdate id, some _ => needs (.selectAccountForUpdate id)
  | _, _ => []

end Statement

def Lockless (op : Statement) : Prop := op.needs = []

theorem Looks.lockless {op : Statement} (look : Looks op) : Lockless op := by
  cases op <;> first | rfl | exact absurd look not_false

theorem takes_lockless {op : Statement} (idle : Lockless op) (reply : op.Reply) : op.takes reply = [] := by
  cases op with
  | insert t row => cases idle
  | update t id set => cases idle
  | selectAccountForUpdate id => cases idle
  | _ => rfl

theorem locks_needs (op : Statement) (db : Database) : Server.locks op db ⊆ op.needs := by
  cases op with
  | selectAccountForUpdate id =>
    change (if db.has .accounts id then [Resource.row .accounts id] else []) ⊆ [Resource.row .accounts id]
    split
    · exact List.Subset.refl _
    · exact List.nil_subset _
  | _ => exact List.Subset.refl _

theorem locks_takes {Client : Type} {server : Server Client} {client : Client} {turn : Nat} {op : Statement}
    {db : Database} {reply : op.Reply} {writes : List Write}
    (answered : server.exec client turn op db = .ok (reply,writes)) : Server.locks op db = op.takes reply := by
  cases op with
  | selectAccountForUpdate id =>
    have read : db.find .accounts id = reply := congrArg Prod.fst (Except.ok.inj answered)
    subst read
    change (if db.has .accounts id then [Resource.row .accounts id] else []) = _
    cases found : db.find .accounts id with
    | none =>
      have absent : db.has .accounts id = false := by
        rw [Database.has,← Bool.not_eq_true,List.any_eq_true]
        rintro ⟨row,member,same⟩
        exact List.find?_eq_none.mp found row member same
      rw [if_neg (by simp [absent])]
      rfl
    | some row =>
      have present : db.has .accounts id = true :=
        Database.has_iff.mpr ⟨row,(Database.find_some found).1,(Database.find_some found).2⟩
      rw [if_pos present]
      rfl
  | _ => rfl

structure Footprint where
  held : List Resource := []
  executed : Bool := false

/-- Orders start unfilled and can only be failed by the request that opened them.
Postings and positions are never written. -/
def Footprint.Permits (state : Footprint) : Statement → Prop
  | .insert .orders row => row.filledAmount = 0 ∧ row.status = .pending
  | .insert .assets _ | .insert .positions _ | .insert .ledgerEntries _ => False
  | .insert _ _ => True
  | .update .orders id set => .row .orders id ∈ state.held ∧ set.filledAmount = none ∧
      (set.status = none ∨ set.status = some .failed)
  | .update .transactions _ _ => True
  | .update _ _ _ => False
  | _ => True

def Statement.executes : Statement → Bool
  | .insert .tradeExecutions _ => true
  | _ => false

def footprint (Client : Type) : Protocol sql Client Footprint where
  start _ := {}
  allowed _ state op := state.Permits op ∧
    ∀ needed ∈ op.needs, needed ∈ state.held ∨ ∀ resource ∈ state.held, resource.rank < needed.rank
  after _ state op reply :=
    match reply with
    | .ok value => ⟨state.held ++ op.takes value,state.executed || op.executes⟩
    | .error _ => state

section Requests
variable {Client α β : Type} {server : Server Client} {client : Client} {state : Footprint}

theorem lockless_allowed (op : Statement) (idle : Lockless op) : (footprint Client).allowed client state op := by
  refine ⟨?_,fun needed member => ?_⟩
  · cases op with
    | insert t row => cases idle
    | update t id set => cases idle
    | _ => trivial
  · rw [show op.needs = [] from idle] at member
    cases member

theorem lockless_after (op : Statement) (idle : Lockless op) (reply : Except Exception op.Reply) :
    (footprint Client).after client state op reply = state := by
  cases reply with
  | error error => rfl
  | ok value =>
    have unexecuted : op.executes = false := by
      cases op with
      | insert t row => cases idle
      | _ => rfl
    change (⟨state.held ++ op.takes value,state.executed || op.executes⟩ : Footprint) = state
    rw [takes_lockless idle,unexecuted,List.append_nil,Bool.or_false]

/-- Statements that take nothing leave the footprint as it is. -/
theorem lockless_bind {program : Action α} {next : α → Action β} {post : Except Exception β → Footprint → Prop}
    (only : program.Only Lockless) (raised : ∀ error, post (.error error) state)
    (rest : ∀ value, (next value).Obeys server.engine (fun _ => True) (footprint Client) client state post) :
    (program >>= next).Obeys server.engine (fun _ => True) (footprint Client) client state post :=
  only.obeys_bind lockless_allowed lockless_after raised rest

theorem lockless_obeys {program : Action α} (only : program.Only Lockless) :
    program.Obeys server.engine (fun _ => True) (footprint Client) client state (fun _ last => last = state) :=
  only.obeys lockless_allowed lockless_after

/-- A new row takes its resources above those of lower tables. -/
theorem add_footprint {t : Table} {entity : Uuid → t.Row} (named : ∀ id, t.key (entity id) = id)
    (permitted : ∀ id, state.Permits (.insert t (entity id)))
    (below : ∀ resource ∈ state.held, resource.rank < t.rank) :
    (BaseRepository.add t entity).Obeys server.engine (fun _ => True) (footprint Client) client state
      (fun outcome last => ∀ row, outcome = .ok row → (∀ resource ∈ last.held, resource.rank ≤ t.rank) ∧
        (∀ resource ∈ state.held, resource ∈ last.held) ∧ .row t (t.key row) ∈ last.held ∧
        last.executed = (state.executed || (t == .tradeExecutions))) := by
  have executes (id : Uuid) : Statement.executes (.insert t (entity id)) = (t == .tradeExecutions) := by
    cases t <;> rfl
  have needed_rank (id : Uuid) : ∀ needed ∈ Statement.needs (.insert t (entity id)), needed.rank = t.rank := by
    intro needed member
    rcases List.mem_cons.mp member with rfl | entry
    · rfl
    · obtain ⟨_,_,rfl⟩ := List.mem_map.mp entry
      rfl
  have added : (BaseRepository.add t entity).Obeys server.engine (fun _ => True) (footprint Client) client state
      (fun outcome last => ∀ row, outcome = .ok row →
        last = ⟨state.held ++ Statement.needs (.insert t (entity (t.key row))),
          state.executed || (t == .tradeExecutions)⟩) := by
    refine @add_moves _ _ server (footprint Client) client state t entity (fun id =>
      ⟨state.held ++ Statement.needs (.insert t (entity id)),state.executed || (t == .tradeExecutions)⟩)
      (lockless_allowed .uuid4 rfl) (lockless_after .uuid4 rfl) (fun id => ⟨permitted id,?_⟩)
      (fun id => ?_) (fun id => lockless_allowed (.get t id) rfl) fun id => lockless_after (.get t id) rfl
    · intro needed member
      rw [needed_rank id needed member]
      exact Or.inr below
    · rw [← executes id]
      rfl
  refine added.weaken ?_
  intro outcome last moved row same
  rw [moved row same]
  refine ⟨?_,fun resource member => List.mem_append_left _ member,?_,rfl⟩
  · intro resource member
    rcases List.mem_append.mp member with old | new
    · exact (below resource old).le
    · exact (needed_rank _ resource new).le
  · apply List.mem_append_right
    change Resource.row t (t.key row) ∈ _ :: _
    rw [named]
    exact List.mem_cons_self

/-- A row that the request holds is written without taking more. -/
theorem update_footprint {t : Table} {row : t.Row} {set : t.Columns} (held : .row t (t.key row) ∈ state.held)
    (permitted : ∀ columns, t.dirty row set = some columns → state.Permits (.update t (t.key row) columns)) :
    (BaseRepository.update t row set).Obeys server.engine (fun _ => True) (footprint Client) client state
      (fun _ last => (∀ resource, resource ∈ last.held ↔ resource ∈ state.held) ∧
        last.executed = state.executed) := by
  have flushed : (BaseRepository.flush t row set).Obeys server.engine (fun _ => True) (footprint Client) client state
      (fun _ last => (∀ resource, resource ∈ last.held ↔ resource ∈ state.held) ∧
        last.executed = state.executed) := by
    unfold BaseRepository.flush
    split
    · next columns changes =>
      rw [Program.obeys_perform]
      refine ⟨⟨permitted columns changes,fun needed member => Or.inl ?_⟩,fun reply _ => ?_⟩
      · rw [List.mem_singleton.mp member]
        exact held
      · cases reply with
        | error error => exact ⟨fun _ => Iff.rfl,rfl⟩
        | ok value =>
          refine ⟨fun resource => ?_,Bool.or_false _⟩
          change resource ∈ state.held ++ [.row t (t.key row)] ↔ _
          rw [List.mem_append,List.mem_singleton]
          exact ⟨fun member => member.elim id fun same => same ▸ held,Or.inl⟩
    · exact ⟨fun _ => Iff.rfl,rfl⟩
  change Program.Obeys _ _ _ _ (BaseRepository.flush t row set >>= fun _ => BaseRepository.refresh t (t.key row)) _ _
  rw [Program.obeys_bind]
  refine flushed.weaken fun outcome last same => ?_
  cases outcome with
  | error error => exact same
  | ok _ =>
    refine (refresh_keyed (lockless_allowed (.get t _) rfl) (lockless_after (.get t _) rfl)).weaken ?_
    rintro _ _ ⟨rfl,_⟩
    exact same

theorem getBalance_lockless (id : Uuid) : (AccountRepository.getBalance id).Only Lockless :=
  accountBalance_looks (fun _ => Looks.lockless) id

theorem getBalanceForUpdate_footprint (id : Uuid) (free : state.held = []) :
    (AccountRepository.getBalanceForUpdate id).Obeys server.engine (fun _ => True) (footprint Client) client state
      (fun _ last => (∀ resource ∈ last.held, resource.rank ≤ Table.rank .accounts) ∧
        last.executed = state.executed) := by
  change Program.Obeys _ _ _ _ (send (.selectAccountForUpdate id) >>= fun found => _) _ _
  rw [Program.obeys_bind,Program.obeys_perform]
  refine ⟨⟨trivial,fun needed _ => Or.inr fun resource member => ?_⟩,fun reply _ => ?_⟩
  · rw [free] at member
    cases member
  · cases reply with
    | error error =>
      refine ⟨fun resource member => ?_,rfl⟩
      change resource ∈ state.held at member
      rw [free] at member
      cases member
    | ok found =>
      have locked : ∀ resource ∈ state.held ++ Statement.takes (.selectAccountForUpdate id) found,
          resource.rank ≤ Table.rank .accounts := by
        rw [free,List.nil_append]
        intro resource member
        cases found with
        | none => cases member
        | some account =>
          rw [List.mem_singleton.mp member]
          exact le_rfl
      cases found with
      | none => exact ⟨locked,Bool.or_false _⟩
      | some account =>
        refine lockless_bind (getBalance_lockless id) (fun _ => ⟨locked,Bool.or_false _⟩) fun balance => ?_
        exact ⟨locked,Bool.or_false _⟩

theorem debitAccount_footprint (request : TradeRequest) (free : state.held = []) :
    request.debitAccount.Obeys server.engine (fun _ => True) (footprint Client) client state
      (fun _ last => (∀ resource ∈ last.held, resource.rank ≤ Table.rank .accounts) ∧
        last.executed = state.executed) := by
  have bounded : ∀ resource ∈ state.held, resource.rank ≤ Table.rank .accounts := by
    rw [free]
    simp
  refine lockless_bind (sends_look (fun _ => Looks.lockless) trivial) (fun _ => ⟨bounded,rfl⟩) fun found => ?_
  cases found with
  | none => exact ⟨bounded,rfl⟩
  | some account =>
    change Program.Obeys _ _ _ _ (AccountRepository.getBalanceForUpdate account.id >>= fun pair => _) _ _
    rw [Program.obeys_bind]
    refine (getBalanceForUpdate_footprint account.id free).weaken fun outcome last held => ?_
    cases outcome with
    | error error => exact held
    | ok pair =>
      refine lockless_bind (Program.only_done _) (fun _ => held) fun cost => ?_
      change Program.Obeys _ _ _ _ (if _ then _ else _ : Action Account) _ _
      split
      · exact held
      · exact held

structure Footprint.Placed (order : Order) (transaction : CryptoBrokerage.Transaction) (state : Footprint) : Prop where
  order : .row .orders order.id ∈ state.held
  transaction : .row .transactions transaction.id ∈ state.held
  below : ∀ resource ∈ state.held, resource.rank ≤ Table.rank .transactions
  unexecuted : state.executed = false

theorem Footprint.Placed.same {order : Order} {transaction : CryptoBrokerage.Transaction} {later : Footprint}
    (placed : state.Placed order transaction)
    (same : (∀ resource, resource ∈ later.held ↔ resource ∈ state.held) ∧ later.executed = state.executed) :
    later.Placed order transaction where
  order := (same.1 _).mpr placed.order
  transaction := (same.1 _).mpr placed.transaction
  below resource member := placed.below resource ((same.1 _).mp member)
  unexecuted := same.2.trans placed.unexecuted

theorem opening_footprint (request : TradeRequest) :
    request.opening.Obeys server.engine (fun _ => True) (footprint Client) client {}
      (fun outcome last => ∀ account order transaction, outcome = .ok (account,order,transaction) →
        last.Placed order transaction) := by
  have raised (error : Exception) : ∀ (last : Footprint) account order transaction,
      (.error error : Except Exception (Account × Order × CryptoBrokerage.Transaction)) =
        .ok (account,order,transaction) → last.Placed order transaction := by
    intro _ _ _ _ same
    cases same
  refine lockless_bind (validate_only request) (fun error => raised error _) fun _ => ?_
  change Program.Obeys _ _ _ _ (request.debitAccount >>= fun account => _) _ _
  rw [Program.obeys_bind]
  refine (debitAccount_footprint request rfl).weaken fun outcome locked held => ?_
  cases outcome with
  | error error => exact raised error _
  | ok account =>
    change Program.Obeys _ _ _ _ (request.openOrder >>= fun pair => pure (account,pair.1,pair.2)) _ _
    rw [Program.obeys_bind]
    unfold TradeRequest.openOrder
    rw [Program.obeys_bind]
    refine (add_footprint (t := .orders) (fun _ => rfl) (fun _ => ⟨rfl,rfl⟩) fun resource member =>
      lt_of_le_of_lt (held.1 resource member) (by decide)).weaken fun outcome opened order => ?_
    cases outcome with
    | error error => exact raised error _
    | ok row =>
      obtain ⟨below,_,own,unexecuted⟩ := order row rfl
      change Program.Obeys _ _ _ _
        (TransactionRepository.create request.userId .trade (some (str row.id)) >>= fun transaction =>
          pure (row,transaction)) _ _
      rw [Program.obeys_bind]
      refine (add_footprint (t := .transactions) (fun _ => rfl) (fun _ => trivial) fun resource member =>
        lt_of_le_of_lt (below resource member) (by decide)).weaken fun outcome tracked transaction => ?_
      cases outcome with
      | error error => exact raised error _
      | ok traced =>
        obtain ⟨bound,kept,traceHeld,idle⟩ := transaction traced rfl
        intro _ _ _ same
        cases same
        exact ⟨kept _ own,traceHeld,bound,by rw [idle,unexecuted,held.2]; rfl⟩

theorem failOrder_footprint {order : Order} (held : .row .orders order.id ∈ state.held) :
    (OrderRepository.updateStatus order .failed).Obeys server.engine (fun _ => True) (footprint Client) client state
      (fun _ last => (∀ resource, resource ∈ last.held ↔ resource ∈ state.held) ∧
        last.executed = state.executed) := by
  refine update_footprint (t := .orders) held fun columns changes => ?_
  rw [Table.dirty_order changes]
  exact ⟨held,rfl,ite_eq_or_eq _ _ _⟩

theorem updateTransaction_footprint {transaction : CryptoBrokerage.Transaction}
    (held : .row .transactions transaction.id ∈ state.held) (status : TransactionStatus) (referenceId : Option String) :
    (TransactionRepository.updateStatus transaction status referenceId).Obeys server.engine (fun _ => True)
      (footprint Client) client state (fun _ last => (∀ resource, resource ∈ last.held ↔ resource ∈ state.held) ∧
        last.executed = state.executed) :=
  update_footprint (t := .transactions) held fun _ _ => trivial

def Unexecuted (outcome : Except Exception α) (last : Footprint) : Prop :=
  ∀ value, outcome = .ok value → last.executed = false

theorem unexecuted_error (error : Exception) (last : Footprint) :
    Unexecuted (.error error : Except Exception α) last := by
  intro value same
  cases same

theorem finalise_footprint {order : Order} {transaction : CryptoBrokerage.Transaction}
    (placed : state.Placed order transaction) (status : String) :
    (finalise order transaction status).Obeys server.engine (fun _ => True) (footprint Client) client state
      Unexecuted := by
  unfold finalise
  split
  · rw [Program.obeys_bind]
    refine (failOrder_footprint placed.order).weaken fun outcome failed same => ?_
    cases outcome with
    | error error => exact unexecuted_error error _
    | ok row =>
      change Program.Obeys _ _ _ _ (TransactionRepository.updateStatus transaction .failed >>= fun _ => pure row) _ _
      rw [Program.obeys_bind]
      refine (updateTransaction_footprint (placed.same same).transaction _ _).weaken fun outcome last again => ?_
      cases outcome with
      | error error => exact unexecuted_error error _
      | ok _ => exact fun _ _ => ((placed.same same).same again).unexecuted
  · split
    · rw [Program.obeys_bind]
      refine (updateTransaction_footprint placed.transaction _ _).weaken fun outcome last same => ?_
      cases outcome with
      | error error => exact unexecuted_error error _
      | ok _ => exact fun _ _ => (placed.same same).unexecuted
    · exact fun _ _ => placed.unexecuted

variable (gateway : SubmittedOrder → Except Exception OrderSubmission) (now : Timestamp)

theorem submit_footprint {request : TradeRequest} {order : Order} {transaction : CryptoBrokerage.Transaction}
    (placed : state.Placed order transaction) :
    ((TradingService.init gateway now).submit request order transaction).Obeys server.engine (fun _ => True)
      (footprint Client) client state (fun outcome last => ∀ submission, outcome = .ok submission → last = state) := by
  have failed (error : Exception) : (do
      let _ ← OrderRepository.updateStatus order .failed
      let _ ← TransactionRepository.updateStatus transaction .failed
      .raise error : Action OrderSubmission).Obeys server.engine (fun _ => True) (footprint Client) client state
        (fun outcome last => ∀ submission, outcome = .ok submission → last = state) := by
    rw [Program.obeys_bind]
    refine (failOrder_footprint placed.order).weaken fun outcome last same => ?_
    cases outcome with
    | error error => exact fun _ same => (by cases same)
    | ok row =>
      change Program.Obeys _ _ _ _ (TransactionRepository.updateStatus transaction .failed >>= fun _ => .raise error) _ _
      rw [Program.obeys_bind]
      refine (updateTransaction_footprint (placed.same same).transaction _ _).weaken fun outcome _ _ => ?_
      cases outcome with
      | error error => exact fun _ same => (by cases same)
      | ok _ => exact fun _ same => (by cases same)
  have sends : ((TradingService.init gateway now).submitOrder request.submitted).Only Lockless :=
    Program.Only.bind ((Program.only_perform (S := sql) _).mpr rfl) fun _ => Program.only_done _
  unfold TradingService.submit
  rw [Program.obeys_bind,Program.obeys_attempt]
  refine (lockless_obeys sends).weaken ?_
  rintro outcome _ rfl
  cases outcome with
  | error error => exact failed error
  | ok submission => exact fun _ _ => rfl

/-- The posting of a first fill names one account on both sides, so that the
recording of its execution is the last statement. -/
theorem processFill_footprint {order : Order} {transaction : CryptoBrokerage.Transaction}
    (placed : state.Placed order transaction) (fill : FillEvent) (account : Account) (quoteCurrency : String) :
    ((TradingService.init gateway now).processFill order fill account quoteCurrency transaction.id).Obeys
      server.engine (fun _ => True) (footprint Client) client state (fun outcome _ => ∀ value, outcome ≠ .ok value) := by
  refine lockless_bind (Program.only_done _) (fun error value same => by cases same) fun fillValue => ?_
  obtain ⟨message,refused⟩ := Option.ne_none_iff_exists'.mp
    (refusal_tradePosting fillValue account quoteCurrency transaction.id)
  refine lockless_bind (Program.only_done _) (fun error value same => by cases same) fun timestamp => ?_
  rw [Program.obeys_bind]
  refine (add_footprint (t := .tradeExecutions) (fun _ => rfl) (fun _ => trivial) fun resource member =>
    lt_of_le_of_lt (placed.below resource member) (by decide)).weaken fun outcome last _ => ?_
  cases outcome with
  | error error => exact fun value same => (by cases same)
  | ok row =>
    change Program.Obeys _ _ _ _ (LedgerRepository.judged (LedgerRepository.refusal
      (tradePosting fillValue account quoteCurrency transaction.id)) _ >>= fun _ => _) _ _
    rw [refused]
    exact fun value same => (by cases same)

theorem settle_footprint {order : Order} {transaction : CryptoBrokerage.Transaction}
    (placed : state.Placed order transaction) (account : Account) (quoteCurrency : String)
    (submission : OrderSubmission) :
    ((TradingService.init gateway now).settle order transaction account quoteCurrency submission).Obeys server.engine
      (fun _ => True) (footprint Client) client state Unexecuted := by
  change Program.Obeys _ _ _ _ ((TradingService.init gateway now).processFills account quoteCurrency transaction.id []
    order (submission.fillsToProcess now) >>= fun order => finalise order transaction submission.status) _ _
  cases submission.fillsToProcess now with
  | nil => exact finalise_footprint placed submission.status
  | cons fill rest =>
    rw [Program.obeys_bind]
    change Program.Obeys _ _ _ _ ((TradingService.init gateway now).processFill order fill account quoteCurrency
      transaction.id >>= fun order => TradingService.processFills _ account quoteCurrency transaction.id [fill.fillId]
        order rest) _ _
    rw [Program.obeys_bind]
    refine (processFill_footprint gateway now placed fill account quoteCurrency).weaken fun outcome last never => ?_
    cases outcome with
    | error error => exact unexecuted_error error _
    | ok value => exact absurd rfl (never value)

theorem executeTrade_footprint (request : TradeRequest) :
    ((TradingService.init gateway now).executeTrade request).Obeys server.engine (fun _ => True) (footprint Client)
      client {} Unexecuted := by
  refine lockless_bind (sends_look (fun _ => Looks.lockless) trivial) (fun error => unexecuted_error error _) fun found => ?_
  cases found with
  | some existing => exact fun _ _ => rfl
  | none =>
    change Program.Obeys _ _ _ _ (request.opening >>= fun opened => _) _ _
    rw [Program.obeys_bind]
    refine (opening_footprint request).weaken fun outcome state placed => ?_
    cases outcome with
    | error error => exact unexecuted_error error _
    | ok values =>
      obtain ⟨account,order,transaction⟩ := values
      have opened := placed account order transaction rfl
      change Program.Obeys _ _ _ _ ((TradingService.init gateway now).submit request order transaction >>=
        fun submission => (TradingService.init gateway now).settle order transaction account request.quoteCurrency
          submission) _ _
      rw [Program.obeys_bind]
      refine (submit_footprint gateway now opened).weaken fun outcome last submitted => ?_
      cases outcome with
      | error error => exact unexecuted_error error _
      | ok submission =>
        obtain rfl := submitted submission rfl
        exact settle_footprint gateway now opened account request.quoteCurrency submission

theorem createOrder_footprint (decimal : ℚ → String) (user : User) (payload : OrderCreate) :
    (createOrder decimal gateway now user payload).Obeys server.engine (fun _ => True) (footprint Client) client {}
      Unexecuted := by
  unfold createOrder
  rw [Program.obeys_bind,Program.obeys_attempt,Program.obeys_bind]
  refine (executeTrade_footprint gateway now (payload.request user)).weaken fun outcome last _ => ?_
  cases outcome with
  | error error =>
    dsimp only
    split
    · exact unexecuted_error _ _
    · exact unexecuted_error _ _
  | ok order => exact unexecuted_error _ _

section Banking
variable (bank : InitiatedTransfer → Except Exception TransferInitiation)

theorem depositFunds_footprint (request : DepositRequest) :
    (BankingService.depositFunds bank request).Obeys server.engine (fun _ => True) (footprint Client) client {}
      Unexecuted := by
  have source : request.source.Only Lockless := by
    refine Program.Only.bind (sends_look (fun _ => Looks.lockless) trivial) fun found => ?_
    cases found with
    | none => trivial
    | some bankAccount =>
      change (if _ then _ else _ : Action BankAccount).Only Lockless
      split
      · trivial
      · refine Program.Only.bind (sends_look (fun _ => Looks.lockless) trivial) fun account => ?_
        cases account <;> trivial
  refine lockless_bind source (fun error => unexecuted_error error _) fun bankAccount => ?_
  change Program.Obeys _ _ _ _ (TransactionRepository.create request.userId .deposit none >>= fun transaction => _) _ _
  rw [Program.obeys_bind]
  refine (add_footprint (t := .transactions) (fun _ => rfl) (fun _ => trivial) fun resource member => by
    cases member).weaken fun outcome opened created => ?_
  cases outcome with
  | error error => exact unexecuted_error error _
  | ok transaction =>
    obtain ⟨_,_,held,unexecuted⟩ := created transaction rfl
    have sends (transfer : InitiatedTransfer) : (BankingService.initiateTransfer bank transfer).Only Lockless :=
      Program.Only.bind ((Program.only_perform (S := sql) _).mpr rfl) fun _ => Program.only_done _
    have initiated : (BankingService.initiate bank request bankAccount transaction).Obeys server.engine
        (fun _ => True) (footprint Client) client opened (fun _ last =>
          (∀ resource, resource ∈ last.held ↔ resource ∈ opened.held) ∧ last.executed = opened.executed) := by
      refine lockless_bind (sends _) (fun _ => ⟨fun _ => Iff.rfl,rfl⟩) fun transfer => ?_
      rw [Program.obeys_bind]
      refine (updateTransaction_footprint held _ _).weaken fun outcome last same => ?_
      cases outcome with
      | error error => exact same
      | ok _ => exact same
    change Program.Obeys _ _ _ _
      ((BankingService.initiate bank request bankAccount transaction).attempt >>= fun outcome => _) _ _
    rw [Program.obeys_bind,Program.obeys_attempt]
    refine initiated.weaken fun outcome last same => ?_
    cases outcome with
    | ok result => exact fun _ _ => same.2.trans unexecuted
    | error error =>
      change Program.Obeys _ _ _ _ (TransactionRepository.updateStatus transaction .failed >>= fun _ => .raise error) _ _
      rw [Program.obeys_bind]
      refine (updateTransaction_footprint ((same.1 _).mpr held) _ _).weaken fun outcome _ _ => ?_
      cases outcome with
      | error error => exact unexecuted_error error _
      | ok _ => exact unexecuted_error error _

/-- The transaction that a reference names is written by a request that holds nothing. -/
theorem confirmDeposit_footprint (externalTransferId : String) :
    (BankingService.confirmDeposit externalTransferId).Obeys server.engine (fun _ => True) (footprint Client) client {}
      Unexecuted := by
  refine lockless_bind (sends_look (fun _ => Looks.lockless) trivial) (fun error => unexecuted_error error _) fun found => ?_
  cases found with
  | none => exact fun _ _ => rfl
  | some transaction =>
    change Program.Obeys _ _ _ _ (if _ then _ else if _ then _ else _ : Action Unit) _ _
    split
    · exact fun _ _ => rfl
    · split
      · exact fun _ _ => rfl
      · rw [Program.obeys_bind]
        change Program.Obeys _ _ _ _ (BaseRepository.flush .transactions transaction _ >>= fun _ =>
          BaseRepository.refresh .transactions transaction.id) _ _
        have only : (BaseRepository.refresh .transactions transaction.id).Only Lockless := by
          refine Program.Only.bind (sends_look (fun _ => Looks.lockless) trivial) fun found => ?_
          cases found <;> trivial
        have flushed : (BaseRepository.flush .transactions transaction
            { status := some .completed, referenceId := none }).Obeys server.engine (fun _ => True) (footprint Client)
            client {} (fun _ last => last.executed = false) := by
          unfold BaseRepository.flush
          split
          · rw [Program.obeys_perform]
            refine ⟨⟨trivial,fun needed _ => Or.inr fun resource member => by cases member⟩,fun reply _ => ?_⟩
            cases reply <;> rfl
          · rfl
        rw [Program.obeys_bind]
        refine flushed.weaken fun outcome last unexecuted => ?_
        cases outcome with
        | error error => exact unexecuted_error error _
        | ok _ =>
          refine (lockless_obeys only).weaken ?_
          rintro outcome _ rfl
          cases outcome with
          | error error => exact unexecuted_error error _
          | ok row => exact fun _ _ => unexecuted

theorem withdrawFunds_footprint (request : WithdrawRequest) :
    (BankingService.withdrawFunds request).Obeys server.engine (fun _ => True) (footprint Client) client {}
      Unexecuted := by
  refine lockless_bind (sends_look (fun _ => Looks.lockless) trivial) (fun error => unexecuted_error error _) fun id => ?_
  change Program.Obeys _ _ _ _ (AccountRepository.getBalanceForUpdate id >>= fun pair => _) _ _
  rw [Program.obeys_bind]
  refine (getBalanceForUpdate_footprint id rfl).weaken fun outcome last _ => ?_
  cases outcome with
  | error error => exact unexecuted_error error _
  | ok pair =>
    change Program.Obeys _ _ _ _ (if _ then _ else _ : Action WithdrawResult) _ _
    split
    · exact unexecuted_error _ _
    · exact unexecuted_error _ _

end Banking

section Onboarding
variable (service : OnboardingService)

theorem registerUser_footprint (request : Registration) :
    (service.registerUser request).Obeys server.engine (fun _ => True) (footprint Client) client {} Unexecuted := by
  have exists_only : (UserRepository.existsByEmail service.lower request.email).Only Lockless :=
    Program.Only.bind (sends_look (fun _ => Looks.lockless) trivial) fun _ => trivial
  refine lockless_bind exists_only (fun error => unexecuted_error error _) fun taken => ?_
  change Program.Obeys _ _ _ _ (if _ then _ else _ : Action UserRegistrationResult) _ _
  split
  · exact unexecuted_error _ _
  · refine lockless_bind (Program.only_done _) (fun error => unexecuted_error error _) fun hashed => ?_
    rw [Program.obeys_bind]
    unfold UserRepository.createWithProfile
    rw [Program.obeys_bind]
    refine (add_footprint (t := .users) (fun _ => rfl) (fun _ => trivial) fun resource member => by
      cases member).weaken fun outcome enrolled user => ?_
    cases outcome with
    | error error => exact unexecuted_error error _
    | ok row =>
      obtain ⟨below,_,_,unexecuted⟩ := user row rfl
      change Program.Obeys _ _ _ _ (BaseRepository.add .userProfiles _ >>= fun _ => pure row) _ _
      rw [Program.obeys_bind]
      refine (add_footprint (t := .userProfiles) (fun _ => rfl) (fun _ => trivial) fun resource member =>
        lt_of_le_of_lt (below resource member) (by decide)).weaken fun outcome profiled profile => ?_
      cases outcome with
      | error error => exact unexecuted_error error _
      | ok own =>
        obtain ⟨bound,_,_,idle⟩ := profile own rfl
        change Program.Obeys _ _ _ _
          (AccountRepository.createDefaultAccount row.id service.defaultAccountCurrency >>= fun account => _) _ _
        rw [Program.obeys_bind]
        refine (add_footprint (t := .accounts) (fun _ => rfl) (fun _ => trivial) fun resource member =>
          lt_of_le_of_lt (bound resource member) (by decide)).weaken fun outcome last account => ?_
        cases outcome with
        | error error => exact unexecuted_error error _
        | ok added =>
          obtain ⟨_,_,_,still⟩ := account added rfl
          intro _ _
          rw [still,idle,unexecuted]
          rfl

theorem register_footprint (normalizeEmail : String → Option String) (upper : String → String) (payload : UserCreate) :
    (register normalizeEmail upper service payload).Obeys server.engine (fun _ => True) (footprint Client) client {}
      Unexecuted := by
  refine lockless_bind (Program.only_done _) (fun error => unexecuted_error error _) fun request => ?_
  rw [Program.obeys_bind,Program.obeys_attempt]
  refine (registerUser_footprint service request).weaken fun outcome last unexecuted => ?_
  cases outcome with
  | ok result => exact fun _ _ => unexecuted result rfl
  | error error =>
    cases error with
    | userAlreadyExists message => exact unexecuted_error _ _
    | _ => exact unexecuted_error _ _

theorem linkBankAccount_footprint (user : User) (payload : BankAccountCreate) :
    (linkBankAccount user payload).Obeys server.engine (fun _ => True) (footprint Client) client {} Unexecuted := by
  refine lockless_bind (Program.only_done _) (fun error => unexecuted_error error _) fun request => ?_
  have linked : (OnboardingService.linkBankAccount request).Obeys server.engine (fun _ => True) (footprint Client)
      client {} Unexecuted := by
    refine lockless_bind (sends_look (fun _ => Looks.lockless) trivial) (fun error => unexecuted_error error _) fun found => ?_
    cases found with
    | some _ => exact unexecuted_error _ _
    | none =>
      change Program.Obeys _ _ _ _ (BaseRepository.add .bankAccounts _ >>= fun _ => _) _ _
      rw [Program.obeys_bind]
      refine (add_footprint (t := .bankAccounts) (fun _ => rfl) (fun _ => trivial) fun resource member => by
        cases member).weaken fun outcome last added => ?_
      cases outcome with
      | error error => exact unexecuted_error error _
      | ok row => exact fun _ _ => (added row rfl).2.2.2
  rw [Program.obeys_bind,Program.obeys_attempt]
  refine linked.weaken fun outcome last unexecuted => ?_
  cases outcome with
  | ok result => exact fun _ _ => unexecuted result rfl
  | error error =>
    cases error with
    | bankAccountAlreadyLinked message => exact unexecuted_error _ _
    | _ => exact unexecuted_error _ _

end Onboarding

theorem map_footprint (f : α → β) {program : Action α}
    (obeys : program.Obeys server.engine (fun _ => True) (footprint Client) client state Unexecuted) :
    (f <$> program).Obeys server.engine (fun _ => True) (footprint Client) client state Unexecuted := by
  rw [map_eq_pure_bind,Program.obeys_bind]
  refine obeys.weaken fun outcome last unexecuted => ?_
  cases outcome with
  | error error => exact unexecuted_error error _
  | ok value => exact fun _ _ => unexecuted value rfl

theorem looks_footprint {program : Action α} (only : program.Only Lockless) :
    program.Obeys server.engine (fun _ => True) (footprint Client) client {} Unexecuted := by
  refine (lockless_obeys only).weaken ?_
  rintro outcome _ rfl _ _
  rfl

/-- Every request keeps to the footprint. -/
theorem handle_footprint (platform : Platform) (moment : Moment) (call : Call) :
    (platform.handle moment call).Obeys server.engine (fun _ => True) (footprint Client) client {} Unexecuted := by
  have look : ∀ op, Looks op → Lockless op := fun _ => Looks.lockless
  cases call with
  | register payload => exact map_footprint _ (register_footprint _ _ _ payload)
  | login username password => exact map_footprint _ (looks_footprint (login_looks look _ _ _ _ _ _ username password))
  | getMe => exact unexecuted_error _ _
  | user token call =>
    refine lockless_bind (getCurrentUser_looks look _ _ _ token) (fun error => unexecuted_error error _) fun user => ?_
    cases call with
    | createOrder payload =>
      exact lockless_bind (Program.only_done _) (fun error => unexecuted_error error _) fun _ =>
        map_footprint _ (createOrder_footprint _ _ _ user payload)
    | linkBankAccount payload => exact map_footprint _ (linkBankAccount_footprint user payload)
    | _ => exact looks_footprint (answer_looks look platform moment user rfl)
  | executeTrade request => exact map_footprint _ (executeTrade_footprint _ _ request)
  | depositFunds request => exact map_footprint _ (depositFunds_footprint _ request)
  | confirmDeposit externalTransferId =>
    change Program.Obeys _ _ _ _ (BankingService.confirmDeposit externalTransferId >>= fun _ => pure Response.confirmed) _ _
    rw [Program.obeys_bind]
    refine (confirmDeposit_footprint externalTransferId).weaken fun outcome last unexecuted => ?_
    cases outcome with
    | error error => exact unexecuted_error error _
    | ok value => exact fun _ _ => unexecuted value rfl
  | withdrawFunds request => exact map_footprint _ (withdrawFunds_footprint request)

end Requests

end CryptoBrokerage
