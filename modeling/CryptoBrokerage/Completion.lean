import CryptoBrokerage.Settlement
import CryptoBrokerage.TransactionRows

/-! Whether a COMPLETED transaction has its ledger entries. Only a confirmation
completes a transaction: a trade completes one after a fill, and the posting of
every fill is refused. A confirmation posts nothing. -/
namespace CryptoBrokerage
open Transaction (Program Engine Protocol Session Status Config Label Step Runs Reachable Guarantee Upheld)

def Credits (db : Database) (userId : Uuid) (amount : ℚ) (currency : String) (entry : LedgerEntry) : Prop :=
  entry.amount = amount ∧ entry.currency = currency ∧
    ∃ account ∈ db .accounts, account.id = entry.creditAccountId ∧ account.userId = userId ∧ account.currency = currency

/-- Every COMPLETED transaction is posted, and a deposit exactly once, on the
terms it was requested on. -/
def Posted (terms : Uuid → ℚ × String) (db : Database) : Prop :=
  ∀ row ∈ db .transactions, row.status = .completed →
    (∃ entry ∈ db .ledgerEntries, entry.referenceId = str row.id) ∧
    (row.transactionType = .deposit → ∃ entry,
      (db .ledgerEntries).filter (fun entry => entry.referenceId == str row.id) = [entry] ∧
        Credits db row.userId (terms row.id).1 (terms row.id).2 entry)

/-- A write that completes no transaction, fills no order, and leaves accounts
and ledger alone. -/
def Write.Unposting : Write → Prop
  | .insert .orders row => row.status ≠ .filled
  | .insert .transactions row => row.status ≠ .completed
  | .insert t _ => t ≠ .accounts ∧ t ≠ .ledgerEntries
  | .update .orders _ set => set.status ≠ some .filled
  | .update .transactions _ set => set.status ≠ some .completed
  | .update t _ _ => t ≠ .ledgerEntries

structure Unposted (before after : Database) : Prop where
  accounts : after .accounts = before .accounts
  ledgerEntries : after .ledgerEntries = before .ledgerEntries
  completed : ∀ row ∈ after .transactions, row.status = .completed → ∃ old ∈ before .transactions,
    old.id = row.id ∧ old.userId = row.userId ∧ old.transactionType = row.transactionType ∧ old.status = .completed
  filled : ∀ row ∈ after .orders, row.status = .filled → ∃ old ∈ before .orders, old.id = row.id ∧ old.status = .filled

section Writes
variable {db before middle after : Database} {writes : List Write}

theorem getD_kept {α : Type} {set : Option α} {old new : α} (kept : set ≠ some new) (same : set.getD old = new) :
    old = new := by
  cases set with
  | none => exact same
  | some other => exact absurd (congrArg some same) kept

theorem Write.Unposting.apply {write : Write} (unposting : write.Unposting) : Unposted db (db.apply write) where
  accounts := by
    refine db.apply_other ?_
    cases write with
    | insert t row => cases t <;> simp_all [Write.Unposting,Write.table]
    | update t id set => cases t <;> simp [Write.table]; exact set.elim
  ledgerEntries := by
    refine db.apply_other ?_
    cases write with
    | insert t row => cases t <;> simp_all [Write.Unposting,Write.table]
    | update t id set => cases t <;> simp_all [Write.Unposting,Write.table]
  completed := by
    intro row member status
    rcases Database.apply_mem member with old | rfl | ⟨set,old,rfl,inside,rfl⟩
    · exact ⟨row,old,rfl,rfl,rfl,status⟩
    · exact absurd status unposting
    · exact ⟨old,inside,rfl,rfl,rfl,getD_kept unposting status⟩
  filled := by
    intro row member status
    rcases Database.apply_mem member with old | rfl | ⟨set,old,rfl,inside,rfl⟩
    · exact ⟨row,old,rfl,status⟩
    · exact absurd status unposting
    · exact ⟨old,inside,rfl,getD_kept unposting status⟩

theorem Unposted.trans (first : Unposted before middle) (second : Unposted middle after) : Unposted before after where
  accounts := second.accounts.trans first.accounts
  ledgerEntries := second.ledgerEntries.trans first.ledgerEntries
  completed row member status := by
    obtain ⟨old,inside,id,user,kind,completed⟩ := second.completed row member status
    obtain ⟨older,committed,ids,users,kinds,first⟩ := first.completed old inside completed
    exact ⟨older,committed,ids.trans id,users.trans user,kinds.trans kind,first⟩
  filled row member status := by
    obtain ⟨old,inside,id,filled⟩ := second.filled row member status
    obtain ⟨older,committed,ids,first⟩ := first.filled old inside filled
    exact ⟨older,committed,ids.trans id,first⟩

theorem unposted_visible (unposting : ∀ write ∈ writes, write.Unposting) :
    Unposted db (writes.foldl Database.apply db) := by
  induction writes generalizing db with
  | nil => exact ⟨rfl,rfl,fun row member status => ⟨row,member,rfl,rfl,rfl,status⟩,
      fun row member status => ⟨row,member,rfl,status⟩⟩
  | cons write rest ih =>
    have first : Unposted db (db.apply write) := (unposting write List.mem_cons_self).apply
    exact first.trans (ih fun other member => unposting other (List.mem_cons_of_mem _ member))

theorem Posted.unposted {terms : Uuid → ℚ × String} (posted : Posted terms before)
    (unposted : Unposted before after) : Posted terms after := by
  intro row member status
  obtain ⟨old,inside,id,user,kind,completed⟩ := unposted.completed row member status
  obtain ⟨some,once⟩ := posted old inside completed
  rw [← id,← user,← kind,unposted.ledgerEntries]
  refine ⟨some,fun deposit => ?_⟩
  obtain ⟨entry,only,credits⟩ := once deposit
  unfold Credits
  rw [unposted.accounts]
  exact ⟨entry,only,credits⟩

end Writes

/-- What a trade knows of its own order: that it has placed it, and unless a
reply contradicts its own writes, that it is not filled. -/
inductive Filling
  | unplaced
  | placed (id : Uuid)
  | torn
  deriving DecidableEq, Repr

namespace Filling

def inserted (id : Uuid) : Filling → Filling
  | .torn => .torn
  | _ => .placed id

def read (row : Order) (state : Filling) : Filling :=
  if state = .placed row.id ∧ row.status = .filled then .torn else state

end Filling

theorem Filling.read_torn (row : Order) : Filling.torn.read row = .torn := by
  unfold read
  rw [ite_self]

theorem Filling.read_filled {row : Order} (filled : row.status = .filled) (state : Filling) :
    (state.inserted row.id).read row = .torn := by
  cases state <;> simp [inserted,read,filled]

def Statement.Unposting : Statement → Prop
  | .insert t row => (Write.insert t row).Unposting
  | .update t id set => (Write.update t id set).Unposting
  | _ => True

def posting {Client : Type} (confirms : Client → Prop) : Protocol sql Client Filling where
  start _ := .unplaced
  allowed client state op := confirms client ∨ state = .torn ∨ op.Unposting
  after _ state op reply :=
    match op, reply with
    | .insert .orders row, .ok _ => state.inserted row.id
    | .get .orders _, .ok (some row) => state.read row
    | _, _ => state

theorem Reads.unposting {op : Statement} (reads : Reads op) : op.Unposting := by
  cases op <;> trivial

section Program
variable {Client α : Type} {server : Server Client} {confirms : Client → Prop} {client : Client} {state : Filling}

theorem posting_torn (op : Statement) (reply : Except Exception op.Reply) :
    (posting confirms).after client .torn op reply = .torn := by
  cases op with
  | insert t row => cases t <;> cases reply <;> rfl
  | get t id =>
    cases t with
    | orders =>
      rcases reply with error | _ | row
      · rfl
      · rfl
      · exact Filling.read_torn row
    | _ => rfl
  | _ => rfl

theorem unposting_obeys {program : Action α} (only : program.Only Statement.Unposting) :
    program.Obeys server.engine (fun _ => True) (posting confirms) client state (fun _ _ => True) :=
  Program.Only.obeys_within (fun _ => True) only trivial (fun _ _ _ unposting => Or.inr (Or.inr unposting))
    fun _ _ _ _ _ => trivial

/-- A program is free from the protocol once it is torn, or if it confirms. -/
theorem free_obeys (free : confirms client ∨ state = .torn) (program : Action α) :
    program.Obeys server.engine (fun _ => True) (posting confirms) client state (fun _ _ => True) := by
  induction program generalizing state with
  | done outcome => trivial
  | call op next ih =>
    refine ⟨free.imp_right Or.inl,fun reply _ => ih reply ?_⟩
    refine free.imp_right ?_
    rintro rfl
    exact posting_torn op reply

theorem updateStatus_unposting (row : CryptoBrokerage.Transaction) {status : TransactionStatus}
    (open' : status ≠ .completed) (referenceId : Option String) :
    (TransactionRepository.updateStatus row status referenceId).Only Statement.Unposting := by
  refine update_flushes (fun columns changes => ?_) trivial
  change columns.status ≠ some .completed
  rcases dirty_status changes with same | same
  · simp [same]
  · simpa [same] using open'

theorem orderStatus_unposting (order : Order) {status : OrderStatus} (live : status ≠ .filled) :
    (OrderRepository.updateStatus order status).Only Statement.Unposting := by
  refine update_flushes (fun columns changes => ?_) trivial
  change columns.status ≠ some .filled
  rw [Table.dirty,Option.ite_none_left_eq_some] at changes
  rw [← Option.some.inj changes.2]
  change changed order.status (some status) ≠ some .filled
  unfold changed
  split
  · simp
  · simpa using live

theorem depositFunds_unposting (gateway : InitiatedTransfer → Except Exception TransferInitiation)
    (request : DepositRequest) : (BankingService.depositFunds gateway request).Only Statement.Unposting := by
  have reads : ∀ op, Reads op → op.Unposting := fun _ => Reads.unposting
  refine Program.Only.bind (source_only reads request) fun bankAccount => ?_
  refine Program.Only.bind (add_only reads fun id => by simp [Statement.Unposting,Write.Unposting]) fun row => ?_
  refine Program.Only.bind (Program.Only.attempt (Program.Only.bind (Program.Only.bind
    ((Program.only_perform _).mpr trivial) fun _ => Program.only_done _) fun transfer => ?_)) fun outcome => ?_
  · exact Program.Only.bind (updateStatus_unposting row (by decide) _) fun _ => trivial
  · cases outcome with
    | ok result => trivial
    | error error => exact Program.Only.bind (updateStatus_unposting row (by decide) _) fun _ => trivial

section Trades
variable (gateway : SubmittedOrder → Except Exception OrderSubmission) (now : Timestamp)

theorem finalise_unposting {order : Order} (live : order.status ≠ .filled) (row : CryptoBrokerage.Transaction)
    (status : String) : (finalise order row status).Only Statement.Unposting := by
  unfold finalise
  split
  · exact Program.Only.bind (orderStatus_unposting order (by decide)) fun _ =>
      Program.Only.bind (updateStatus_unposting row (by decide) _) fun _ => trivial
  · split
    · exact Program.Only.bind (updateStatus_unposting row (by decide) _) fun _ => trivial
    · trivial

/-- A fill is recorded, and then its posting raises. -/
theorem processFill_unposting {β : Type} (order : Order) (fill : FillEvent) (account : Account) (quoteCurrency : String)
    (transactionId : Uuid) (next : Order → Action β) :
    ((TradingService.init gateway now).processFill order fill account quoteCurrency transactionId >>= next).Only
      Statement.Unposting := by
  have reads : ∀ op, Reads op → op.Unposting := fun _ => Reads.unposting
  unfold TradingService.processFill
  rw [Program.bind_assoc]
  refine Program.Only.bind (Program.only_done _) fun fillValue => ?_
  obtain ⟨message,refused⟩ := Option.ne_none_iff_exists'.mp
    (refusal_tradePosting fillValue account quoteCurrency transactionId)
  rw [Program.bind_assoc]
  refine Program.Only.bind (Program.only_done _) fun timestamp => ?_
  rw [Program.bind_assoc]
  refine Program.Only.bind (add_only reads fun id => by simp [Statement.Unposting,Write.Unposting]) fun _ => ?_
  change Program.Only _ ((LedgerRepository.judged (LedgerRepository.refusal _) _ >>= fun _ => _) >>= _)
  rw [refused]
  trivial

theorem settle_unposting {order : Order} (live : order.status ≠ .filled) (row : CryptoBrokerage.Transaction)
    (account : Account) (quoteCurrency : String) (submission : OrderSubmission) :
    ((TradingService.init gateway now).settle order row account quoteCurrency submission).Only
      Statement.Unposting := by
  unfold TradingService.settle
  cases submission.fillsToProcess (TradingService.init gateway now).now with
  | nil => exact finalise_unposting live row _
  | cons fill rest =>
    rw [TradingService.processFills_cons,if_neg (List.not_mem_nil),Program.bind_assoc]
    exact processFill_unposting gateway now order fill account quoteCurrency row.id _

theorem submit_unposting (request : TradeRequest) (order : Order) (row : CryptoBrokerage.Transaction) :
    ((TradingService.init gateway now).submit request order row).Only Statement.Unposting := by
  refine Program.Only.bind (Program.Only.attempt (Program.Only.bind ((Program.only_perform _).mpr trivial)
    fun _ => Program.only_done _)) fun answer => ?_
  cases answer with
  | ok submission => trivial
  | error error =>
    exact Program.Only.bind (orderStatus_unposting order (by decide)) fun _ =>
      Program.Only.bind (updateStatus_unposting row (by decide) _) fun _ => trivial

end Trades

/-- A trade that goes on has its order read back unfilled, unless it is torn. -/
theorem placed_posting (request : TradeRequest) :
    (BaseRepository.add .orders request.order).Obeys server.engine (fun _ => True) (posting confirms) client state
      (fun outcome last => ∀ order, outcome = .ok order → order.status ≠ .filled ∨ last = .torn) := by
  change Program.Obeys _ _ _ _ (send .uuid4 >>= fun id => _) _ _
  rw [Program.obeys_bind,Program.obeys_perform]
  refine ⟨Or.inr (Or.inr trivial),fun reply _ => ?_⟩
  rcases reply with error | id
  · exact fun _ same => (by cases same)
  change Program.Obeys _ _ _ _ (send (.insert .orders (request.order id)) >>= fun _ =>
    BaseRepository.refresh .orders id) _ _
  rw [Program.obeys_bind,Program.obeys_perform]
  refine ⟨Or.inr (Or.inr (by simp [Statement.Unposting,Write.Unposting,TradeRequest.order])),fun reply _ => ?_⟩
  rcases reply with error | _
  · exact fun _ same => (by cases same)
  change Program.Obeys _ _ _ _ (send (.get .orders id) >>= fun found => _) (state.inserted id) _
  rw [Program.obeys_bind,Program.obeys_perform]
  refine ⟨Or.inr (Or.inr trivial),fun reply answer => ?_⟩
  obtain ⟨turn,db,_,rfl⟩ := answer
  have read : (server.engine.exec client turn (.get .orders id) db).map Prod.fst = .ok (db.find .orders id) := rfl
  rw [read]
  cases found : db.find .orders id with
  | none => exact fun _ same => (by cases same)
  | some row =>
    intro order same
    cases same
    by_cases filled : row.status = .filled
    · rw [← (Database.find_some found).2]
      exact Or.inr (Filling.read_filled filled state)
    · exact Or.inl filled

theorem executeTrade_posting (gateway : SubmittedOrder → Except Exception OrderSubmission) (now : Timestamp)
    (request : TradeRequest) :
    ((TradingService.init gateway now).executeTrade request).Obeys server.engine (fun _ => True) (posting confirms)
      client state (fun _ _ => True) := by
  have reads : ∀ op, Reads op → op.Unposting := fun _ => Reads.unposting
  have quiet {β γ : Type} {program : Action β} {next : β → Action γ} {state : Filling}
      (only : program.Only Statement.Unposting) (rest : ∀ value state, (next value).Obeys server.engine
        (fun _ => True) (posting confirms) client state (fun _ _ => True)) : (program >>= next).Obeys server.engine
          (fun _ => True) (posting confirms) client state (fun _ _ => True) := by
    rw [Program.obeys_bind]
    refine (unposting_obeys only).weaken fun outcome last _ => ?_
    cases outcome with
    | error error => trivial
    | ok value => exact rest value last
  refine quiet ((Program.only_perform _).mpr trivial) fun found state => ?_
  cases found with
  | some existing => trivial
  | none =>
    change Program.Obeys _ _ _ _ ((TradingService.init gateway now).placeOrder request) _ _
    unfold TradingService.placeOrder TradeRequest.opening
    rw [Program.bind_assoc]
    refine quiet (validate_only request) fun _ state => ?_
    rw [Program.bind_assoc]
    refine quiet (debitAccount_only reads request) fun account state => ?_
    unfold TradeRequest.openOrder
    rw [Program.bind_assoc,Program.bind_assoc,Program.obeys_bind]
    refine (placed_posting request).weaken fun outcome last placed => ?_
    rcases outcome with error | order
    · trivial
    rcases placed order rfl with live | torn
    · refine unposting_obeys ?_
      have created : (TransactionRepository.create request.userId .trade (some (str order.id))).Only
          Statement.Unposting := add_only reads fun id => by simp [Statement.Unposting,Write.Unposting]
      rw [Program.bind_assoc]
      refine Program.Only.bind created fun row => ?_
      change Program.Only _ ((TradingService.init gateway now).submit request order row >>= fun submission =>
        (TradingService.init gateway now).settle order row account request.quoteCurrency submission)
      exact Program.Only.bind (submit_unposting gateway now request order row) fun submission =>
        settle_unposting gateway now live row account request.quoteCurrency submission
    · exact free_obeys (Or.inr torn) _

end Program

def Filling.Knows (held : List Resource) (committed : Database) : Filling → Prop
  | .unplaced => True
  | .placed id => .row .orders id ∈ held ∧ ∀ order ∈ committed .orders, order.id ≠ id
  | .torn => False

theorem Filling.Knows.more {held more : List Resource} {committed : Database} {state : Filling}
    (knows : state.Knows held committed) : state.Knows (held ++ more) committed := by
  cases state with
  | placed id => exact ⟨List.mem_append_left _ knows.1,knows.2⟩
  | _ => exact knows

def Filling.Holds {α : Type} (confirms : Prop) (state : Filling) (session : Session sql Write Resource α)
    (committed : Database) : Prop :=
  Locked session ∧ (¬confirms → (∀ write ∈ session.writes, write.Unposting) ∧ state.Knows session.held committed)

section Guarantee
variable {Client α : Type} {server : Server Client} {confirms : Client → Prop} {client : Client} {state : Filling}
  {session : Session sql Write Resource α} {committed : Database}

theorem unposting_stored {t : Table} {row stored : t.Row} (unposting : (Write.insert t row).Unposting)
    (ok : t.store server.numeric (t.stamp (server.now client) row) = .ok stored) :
    (Write.insert t stored).Unposting := by
  cases t with
  | orders =>
    simp only [Table.store,bind,Except.bind] at ok
    (repeat' split at ok) <;> cases ok
    exact unposting
  | transactions =>
    cases ok
    exact unposting
  | _ => exact unposting

theorem unposting_answered {turn : Nat} {op : Statement} {db : Database} {reply : op.Reply} {writes : List Write}
    (unposting : op.Unposting) (answered : server.exec client turn op db = .ok (reply,writes)) :
    ∀ write ∈ writes, write.Unposting := by
  have written := Server.exec_writes answered
  intro write member
  cases op with
  | insert t row =>
    obtain ⟨stored,ok,_,rfl⟩ := written
    rw [List.mem_singleton.mp member]
    exact unposting_stored unposting ok
  | update t id set =>
    obtain ⟨stored,ok,rfl⟩ := written
    rw [List.mem_singleton.mp member]
    cases t with
    | orders =>
      simp only [Table.storeColumns,bind,Except.bind] at ok
      split at ok
      · cases ok
      · cases ok
        exact unposting
    | transactions =>
      cases ok
      exact unposting
    | _ => exact unposting
  | _ =>
    rw [show writes = [] from written] at member
    cases member

theorem filling_answered {op : Statement} {reply : op.Reply} {more : List Write} (rest : Program sql α)
    (holds : state.Holds (confirms client) session committed) (allowed : (posting confirms).allowed client state op)
    (answered : server.exec client session.issued.length op (server.engine.visible committed session.writes) =
      .ok (reply,more)) :
    ((posting confirms).after client state op (.ok reply)).Holds (confirms client)
      ⟨rest,session.writes ++ more,
        session.held ++ server.engine.locks op (server.engine.visible committed session.writes),
        session.issued ++ [op]⟩ committed := by
  refine ⟨holds.1.answered answered rest _,fun trades => ?_⟩
  obtain ⟨unposting,placed⟩ := holds.2 trades
  rcases allowed with confirming | rfl | quiet
  · exact absurd confirming trades
  · exact placed.elim
  refine ⟨fun write member => ?_,?_⟩
  · rcases List.mem_append.mp member with old | new
    · exact unposting write old
    · exact unposting_answered quiet answered write new
  have kept : state.Knows (session.held ++ server.engine.locks op (server.engine.visible committed session.writes))
      committed := placed.more
  cases op with
  | insert t row =>
    cases t with
    | orders =>
      obtain ⟨stored,ok,valid,_⟩ := Server.exec_writes answered
      have key : stored.id = row.id := Table.key_store _ ok
      have fresh := (Database.violated_none valid).1
      have known : Filling.Knows (session.held ++ server.engine.locks (.insert .orders row)
          (server.engine.visible committed session.writes)) committed (.placed row.id) := by
        refine ⟨List.mem_append_right _ List.mem_cons_self,fun order member same => ?_⟩
        have present : committed.has .orders stored.id = true := Database.has_iff.mpr ⟨order,member,same.trans key.symm⟩
        exact Bool.false_ne_true (fresh.symm.trans (Database.visible_has present))
      cases state with
      | torn => exact placed.elim
      | _ => exact known
    | _ => exact kept
  | get t id =>
    cases t with
    | orders =>
      cases answered
      cases found : (server.engine.visible committed session.writes).find .orders id with
      | none => exact kept
      | some row =>
        change (state.read row).Knows _ _
        by_cases torn : state = .placed row.id ∧ row.status = .filled
        · obtain ⟨old,member,same,_⟩ := (unposted_visible unposting).filled row (Database.find_some found).1 torn.2
          rw [torn.1] at placed
          exact absurd same (placed.2 old member)
        · rw [Filling.read,if_neg torn]
          exact kept
    | _ => exact kept
  | _ => exact kept

theorem posting_error (op : Statement) (error : Exception) :
    (posting confirms).after client state op (.error error) = state := by
  cases op with
  | insert t row => cases t <;> rfl
  | get t id => cases t <;> rfl
  | _ => rfl

theorem posting_guarantee (programs : Client → Program sql α) :
    Guarantee server.engine (posting confirms) programs (fun _ => True) (fun _ => True)
      (fun client => Filling.Holds (confirms client)) where
  start client committed _ := ⟨locked_start _,fun _ => ⟨by simp,trivial⟩⟩
  sees _ _ _ _ _ _ := trivial
  answered client state session committed op rest reply more _ holds allowed answered _ :=
    filling_answered rest holds allowed answered
  failed client state session committed op rest error _ holds _ _ := by
    rw [posting_error]
    exact holds
  commit _ _ _ _ _ _ := trivial
  rely client other state session state' session' committed _ _ holds theirs exclusive := by
    refine ⟨holds.1,fun trades => ?_⟩
    obtain ⟨unposting,placed⟩ := holds.2 trades
    refine ⟨unposting,?_⟩
    cases state with
    | placed id => exact ⟨placed.1,theirs.1.fresh placed.1 exclusive placed.2⟩
    | _ => exact placed

end Guarantee

/-- The step is the lookup of a confirmation, and it finds a transaction that is
neither COMPLETED nor FAILED. -/
def FindsUnsettled {Client : Type} (server : Server Client) (movement : Client → Movement)
    (config : Config sql Client Database Write Resource (Option DepositResult)) (label : Label sql Client) : Prop :=
  ∃ client referenceId row, movement client = .confirm referenceId ∧
    label = .issue client (.selectTransaction referenceId) ∧
    server.referred client config.committed referenceId = some row ∧ Unsettled row

section Movements
variable {Client : Type} [DecidableEq Client] {server : Server Client}
  {bank : Client → InitiatedTransfer → Except Exception TransferInitiation}
  {exchange : Client → SubmittedOrder → Except Exception OrderSubmission} {now : Client → Timestamp}
  {movement : Client → Movement} {db : Database} {terms : Uuid → ℚ × String}
  {before after : Config sql Client Database Write Resource (Option DepositResult)} {label : Label sql Client}

omit [DecidableEq Client] in
theorem movements_posting (client : Client) :
    (movements bank exchange now movement client).Obeys server.engine (fun _ => True)
      (posting fun client => (movement client).transactionType = none) client .unplaced (fun _ _ => True) := by
  unfold movements
  cases kind : movement client with
  | deposit request =>
    exact unposting_obeys (Program.Only.bind (depositFunds_unposting (bank client) request) fun _ => trivial)
  | confirm externalTransferId => exact free_obeys (Or.inl (by rw [kind]; rfl)) _
  | trade request =>
    change Program.Obeys _ _ _ _ (_ >>= fun _ => pure none) _ _
    rw [Program.obeys_bind]
    refine (executeTrade_posting (exchange client) (now client) request).weaken fun outcome last _ => ?_
    cases outcome <;> trivial

/-- A commit that is not a confirmation's completes nothing. -/
theorem movements_unposted (reached : Reachable server.engine (movements bank exchange now movement) db before)
    {client : Client} (step : Step server.engine (movements bank exchange now movement) before (.commit client) after)
    (other : (movement client).transactionType ≠ none) : Unposted before.committed after.committed := by
  have kept := (posting_guarantee (movements bank exchange now movement)).reachable movements_posting trivial reached
  cases step with
  | commit _ session value opened returned =>
    obtain ⟨state,holds,_⟩ := kept.2 client session opened
    exact unposted_visible (holds.2 other).1

def Idle (program : Action (Option DepositResult)) (status : Status sql Write Resource (Option DepositResult)) : Prop :=
  status = .ready ∨ status = .running ⟨program,[],[],[]⟩ ∨ Inert status

theorem idle_step (reached : Reachable server.engine (movements bank exchange now movement) db before)
    (step : Step server.engine (movements bank exchange now movement) before label after)
    (careful : ¬FindsUnsettled server movement before label) {client : Client} {referenceId : String}
    (confirms : movement client = .confirm referenceId)
    (idle : Idle (movements bank exchange now movement client) (before.status client)) :
    Idle (movements bank exchange now movement client) (after.status client) ∧
      (label.client = client → after.committed = before.committed) := by
  obtain ⟨next,opening,_⟩ := movements_confirm bank exchange now confirms
  by_cases mine : client = label.client
  · rcases idle with ready | fresh | inert
    · obtain ⟨opened,committed⟩ := step.opens mine ready
      exact ⟨Or.inr (Or.inl opened),fun _ => committed⟩
    · obtain ⟨rfl,_,committed⟩ := step.sends mine fresh opening
      have settled : ∀ row, server.referred client before.committed referenceId = some row → ¬Unsettled row :=
        fun row found unsettled => careful ⟨client,referenceId,row,confirms,rfl,found,unsettled⟩
      exact ⟨Or.inr (Or.inr (lookup_inert reached confirms step settled)),fun _ => committed⟩
    · exact ⟨Or.inr (Or.inr (inert_step step inert).1),(inert_step step inert).2⟩
  · rw [step.others mine]
    exact ⟨idle,fun same => absurd same.symm mine⟩

/-- In every run whose confirmations find nothing to complete, every COMPLETED
transaction is posted. -/
theorem completed_posted (server : Server Client)
    (bank : Client → InitiatedTransfer → Except Exception TransferInitiation)
    (exchange : Client → SubmittedOrder → Except Exception OrderSubmission) (now : Client → Timestamp)
    (movement : Client → Movement) (terms : Uuid → ℚ × String) (db : Database) (base : Posted terms db)
    (config : Config sql Client Database Write Resource (Option DepositResult))
    (runs : Runs server.engine (movements bank exchange now movement)
      (fun before label => ¬FindsUnsettled server movement before label) (.initial db) config) :
    Posted terms config.committed := by
  refine (Runs.invariant (fun config => Reachable server.engine (movements bank exchange now movement) db config ∧
    (∀ client referenceId, movement client = .confirm referenceId →
      Idle (movements bank exchange now movement client) (config.status client)) ∧ Posted terms config.committed) runs
    ⟨.refl,fun _ _ _ => Or.inl rfl,base⟩ ?_).2.2
  rintro before label after ⟨reached,idle,posted⟩ step careful
  refine ⟨reached.step step,fun client referenceId confirms =>
    (idle_step reached step careful confirms (idle client referenceId confirms)).1,?_⟩
  cases label with
  | commit client =>
    cases kind : movement client with
    | confirm referenceId =>
      rw [(idle_step reached step careful kind (idle client referenceId kind)).2 rfl]
      exact posted
    | _ => exact posted.unposted (movements_unposted reached step (by simp [kind,Movement.transactionType]))
  | _ =>
    cases step
    exact posted

end Movements

def sampleCompleted : Database :=
  (sampleBank.insert .transactions (⟨61,1,.deposit,.completed,some "t0",0⟩ : CryptoBrokerage.Transaction)).insert
    .ledgerEntries (⟨32,24,21,100,"BRL","DEPOSIT",str 61,0⟩ : LedgerEntry)

theorem completed_posted_deposits :
    ∃ config, Transaction.follow sampleServer.engine (movements (fun _ _ => .ok sampleTransfer)
        (fun _ _ => .ok sampleOpen) (fun _ => 0) (fun _ => .deposit sampleDeposit)) (List.replicate 10 0)
        (.initial sampleCompleted) = some config ∧
      (config.committed .transactions).map CryptoBrokerage.Transaction.status = [.completed,.processing] ∧
      Posted (fun _ => (100,"BRL")) config.committed := by
  have scheduled : (Transaction.follow sampleServer.engine (movements (fun _ _ => .ok sampleTransfer)
      (fun _ _ => .ok sampleOpen) (fun _ => 0) (fun _ => .deposit sampleDeposit)) (List.replicate 10 0)
      (.initial sampleCompleted)).map (fun config =>
        (config.committed .transactions).map CryptoBrokerage.Transaction.status) = some [.completed,.processing] := by
    decide +kernel
  obtain ⟨config,followed,statuses⟩ := Option.map_eq_some_iff.mp scheduled
  refine ⟨config,followed,statuses,completed_posted sampleServer (fun _ _ => .ok sampleTransfer)
    (fun _ _ => .ok sampleOpen) (fun _ => 0) (fun _ => .deposit sampleDeposit) _ sampleCompleted ?_ config
    ((Transaction.follow_reachable .refl followed).runs ?_)⟩
  · intro row member _
    obtain rfl := List.mem_singleton.mp member
    have entries : (sampleCompleted .ledgerEntries).filter (fun entry => entry.referenceId == str 61) =
        [⟨32,24,21,100,"BRL","DEPOSIT",str 61,0⟩] := by decide +kernel
    have account : ⟨21,1,"BRL",.fiat⟩ ∈ sampleCompleted .accounts := by decide +kernel
    have entry := List.mem_filter.mp (entries ▸ List.mem_singleton_self _)
    exact ⟨⟨_,entry.1,rfl⟩,fun _ => ⟨_,entries,rfl,rfl,_,account,rfl,rfl,rfl⟩⟩
  · rintro config label ⟨client,referenceId,row,confirms,_⟩
    cases confirms

/-- A deposit and its confirmation: COMPLETED, without an entry. -/
theorem completed_unposted :
    ∃ config, Reachable sampleServer.engine (movements (fun _ _ => .ok sampleTransfer) (fun _ _ => .ok sampleOpen)
        (fun _ => 0) (fun client => if client = 0 then .deposit sampleDeposit else .confirm "t1")) sampleBank config ∧
      ∀ terms, Posted terms sampleBank ∧ ¬Posted terms config.committed := by
  have scheduled : (Transaction.follow sampleServer.engine (movements (fun _ _ => .ok sampleTransfer)
      (fun _ _ => .ok sampleOpen) (fun _ => 0)
      (fun client => if client = 0 then .deposit sampleDeposit else .confirm "t1"))
      (List.replicate 10 0 ++ List.replicate 5 1) (.initial sampleBank)).map (fun config =>
        (config.committed .transactions,
          (config.committed .ledgerEntries).any (fun entry => entry.referenceId == str 102))) =
        some ([⟨102,1,.deposit,.completed,some "t1",0⟩],false) := by
    decide +kernel
  obtain ⟨config,followed,facts⟩ := Option.map_eq_some_iff.mp scheduled
  obtain ⟨rows,unposted⟩ := Prod.mk.inj facts
  refine ⟨config,Transaction.follow_reachable .refl followed,fun terms => ⟨?_,fun posted => ?_⟩⟩
  · intro row member
    cases member
  · obtain ⟨⟨entry,member,reference⟩,_⟩ := posted _ (by rw [rows]; exact List.mem_singleton_self _) rfl
    have present : (config.committed .ledgerEntries).any (fun entry => entry.referenceId == str 102) = true :=
      List.any_eq_true.mpr ⟨entry,member,by rw [reference]; exact beq_self_eq_true _⟩
    rw [unposted] at present
    cases present

end CryptoBrokerage
