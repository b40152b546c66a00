import CryptoBrokerage.BankingService
import CryptoBrokerage.OwnRows

/-! What a request does to the transactions table. A deposit or a trade inserts
one row of its own and updates no other; a confirmation completes a row that it
has found neither completed nor failed. -/
namespace CryptoBrokerage
open Transaction (Program Engine Protocol Session Config Label Step Reachable Guarantee Upheld)

/-- What a request knows of the transaction it works on: its own one as written
or as read back, or the one `get_by_reference` has returned and that it has then
completed. A request is `torn` once a reply contradicts its own writes. -/
inductive Trace
  | idle
  | asking
  | written (row : CryptoBrokerage.Transaction)
  | own (row : CryptoBrokerage.Transaction)
  | found (row : CryptoBrokerage.Transaction)
  | closed (row : CryptoBrokerage.Transaction)
  | torn
  deriving DecidableEq, Repr

def Matches (sent row : CryptoBrokerage.Transaction) : Prop := row = { sent with createdAt := row.createdAt }

instance (sent row : CryptoBrokerage.Transaction) : Decidable (Matches sent row) :=
  inferInstanceAs (Decidable (_ = _))

def Unsettled (row : CryptoBrokerage.Transaction) : Prop := row.status ≠ .completed ∧ row.status ≠ .failed

instance (row : CryptoBrokerage.Transaction) : Decidable (Unsettled row) :=
  inferInstanceAs (Decidable (_ ∧ _))

namespace Trace

def inserted (row : CryptoBrokerage.Transaction) : Trace → Trace
  | .idle => .written row
  | state => state

def updated (set : TransactionColumns) : Trace → Trace
  | .own row => .written (Table.assign .transactions set row)
  | .found row => .closed row
  | state => state

def reread (id : Uuid) (found : Option CryptoBrokerage.Transaction) : Trace → Trace
  | .written sent =>
    if id = sent.id then
      match found with
      | some row => if Matches sent row then .own row else .torn
      | none => .torn
    else .written sent
  | .own known => if id = known.id ∧ found ≠ some known then .torn else .own known
  | state => state

def told (row : CryptoBrokerage.Transaction) : Trace → Trace
  | .asking => .found row
  | state => state

end Trace

def Movement.transactionType : Movement → Option TransactionType
  | .deposit _ => some .deposit
  | .confirm _ => none
  | .trade _ => some .trade

def tracing {Client : Type} (type : Client → Option TransactionType) : Protocol sql Client Trace where
  start client := if type client = none then .asking else .idle
  allowed client state op := state = .torn ∨
    match op with
    | .insert .transactions row =>
      state = .idle ∧ type client = some row.transactionType ∧ row.status = .pending
    | .update .transactions id set =>
      (∃ row, state = .own row ∧ row.id = id ∧ set.status ≠ some .reversed) ∨
        ∃ row, state = .found row ∧ row.id = id ∧ Unsettled row ∧ set = { status := some .completed }
    | _ => True
  after _ state op reply :=
    match op, reply with
    | .insert .transactions row, .ok _ => state.inserted row
    | .update .transactions _ set, .ok _ => state.updated set
    | .get .transactions id, .ok found => state.reread id found
    | .selectTransaction _, .ok (some row) => state.told row
    | _, _ => state

def Quiet : Statement → Prop
  | .insert t _ => t ≠ .transactions
  | .update t _ _ => t ≠ .transactions
  | _ => True

theorem Reads.quiet {op : Statement} (reads : Reads op) : Quiet op := by
  cases op <;> trivial

section Program
variable {Client α β : Type} {server : Server Client} {type : Client → Option TransactionType} {client : Client}
  {state : Trace}

theorem Quiet.allowed {op : Statement} (quiet : Quiet op) : (tracing type).allowed client state op := by
  right
  cases op with
  | insert t row =>
    cases t with
    | transactions => exact absurd rfl quiet
    | _ => trivial
  | update t id set =>
    cases t with
    | transactions => exact absurd rfl quiet
    | _ => trivial
  | _ => trivial

variable (type client state) in
theorem Quiet.after {op : Statement} (quiet : Quiet op) (reply : Except Exception op.Reply) :
    (tracing type).after client state op reply = state ∨
      (∃ id found, (tracing type).after client state op reply = state.reread id found) ∨
      ∃ row, (tracing type).after client state op reply = state.told row := by
  cases op with
  | insert t row =>
    cases t with
    | transactions => exact absurd rfl quiet
    | _ => exact Or.inl rfl
  | update t id set =>
    cases t with
    | transactions => exact absurd rfl quiet
    | _ => exact Or.inl rfl
  | get t id =>
    cases t with
    | transactions =>
      cases reply with
      | error error => exact Or.inl rfl
      | ok found => exact Or.inr (Or.inl ⟨id,found,rfl⟩)
    | _ => exact Or.inl rfl
  | selectTransaction referenceId =>
    rcases reply with error | _ | row
    · exact Or.inl rfl
    · exact Or.inl rfl
    · exact Or.inr (Or.inr ⟨row,rfl⟩)
  | _ => exact Or.inl rfl

theorem after_torn (op : Statement) (reply : Except Exception op.Reply) :
    (tracing type).after client .torn op reply = .torn := by
  by_cases quiet : Quiet op
  · rcases quiet.after type client .torn reply with same | ⟨_,_,same⟩ | ⟨_,same⟩
    · exact same
    · exact same
    · exact same
  · cases op with
    | insert t row => cases t <;> cases reply <;> rfl
    | update t id set => cases t <;> cases reply <;> rfl
    | _ => exact absurd trivial quiet

theorem torn_obeys {post : Except Exception α → Trace → Prop} (torn : ∀ outcome, post outcome .torn)
    (program : Action α) :
    program.Obeys server.engine (fun _ => True) (tracing type) client .torn post := by
  induction program with
  | done outcome => exact torn outcome
  | call op next ih =>
    refine ⟨Or.inl rfl,fun reply _ => ?_⟩
    rw [after_torn]
    exact ih reply

def Trace.Settled (state : Trace) : Prop := state = .idle ∨ ∃ row, state = .own row

theorem Trace.Settled.after (settled : state.Settled) {op : Statement} (quiet : Quiet op)
    (reply : Except Exception op.Reply) :
    (tracing type).after client state op reply = state ∨ (tracing type).after client state op reply = .torn := by
  rcases quiet.after type client state reply with same | ⟨id,found,same⟩ | ⟨row,same⟩
  · exact Or.inl same
  · rw [same]
    rcases settled with rfl | ⟨known,rfl⟩
    · exact Or.inl rfl
    · by_cases torn : id = known.id ∧ found ≠ some known
      · exact Or.inr (if_pos torn)
      · exact Or.inl (if_neg torn)
  · rw [same]
    rcases settled with rfl | ⟨known,rfl⟩ <;> exact Or.inl rfl

theorem quiet_bind {program : Action α} {next : α → Action β} {post : Except Exception β → Trace → Prop}
    (only : program.Only Quiet) (settled : state.Settled) (torn : ∀ outcome, post outcome .torn)
    (raised : ∀ error, post (.error error) state)
    (rest : ∀ value, (next value).Obeys server.engine (fun _ => True) (tracing type) client state post) :
    (program >>= next).Obeys server.engine (fun _ => True) (tracing type) client state post := by
  have within : program.Obeys server.engine (fun _ => True) (tracing type) client state
      (fun _ last => last = state ∨ last = .torn) := by
    refine only.obeys_within (fun last => last = state ∨ last = .torn) (Or.inl rfl) (fun _ _ _ quiet => quiet.allowed) ?_
    rintro _ op reply (rfl | rfl) quiet
    · exact settled.after quiet reply
    · exact Or.inr (after_torn op reply)
  rw [Program.obeys_bind]
  refine within.weaken fun outcome last ended => ?_
  rcases ended with rfl | rfl
  · cases outcome with
    | error error => exact raised error
    | ok value => exact rest value
  · cases outcome with
    | error error => exact torn _
    | ok value => exact torn_obeys torn _

/-- A row that is read back is the one that was written, unless the request is torn. -/
theorem refresh_traced (sent : CryptoBrokerage.Transaction) (known : state = .written sent ∨ state = .own sent) :
    (BaseRepository.refresh .transactions sent.id).Obeys server.engine (fun _ => True) (tracing type) client
      state (fun outcome last => last = .torn ∨ ∃ row, outcome = .ok row ∧ last = .own row ∧ Matches sent row) := by
  change Program.Obeys _ _ _ _ (send (.get .transactions sent.id) >>= fun found => _) _ _
  rw [Program.obeys_bind,Program.obeys_perform]
  refine ⟨Or.inr trivial,fun reply answer => ?_⟩
  obtain ⟨turn,db,_,rfl⟩ := answer
  have read : (server.engine.exec client turn (.get .transactions sent.id) db).map Prod.fst =
      .ok (db.find .transactions sent.id) := rfl
  rw [read]
  cases db.find .transactions sent.id with
  | none =>
    left
    rcases known with rfl | rfl
    · exact if_pos rfl
    · exact if_pos ⟨rfl,by simp⟩
  | some row =>
    change state.reread sent.id (some row) = .torn ∨
      ∃ result, Except.ok row = .ok result ∧ state.reread sent.id (some row) = .own result ∧ Matches sent result
    rcases known with rfl | rfl
    · by_cases exact : Matches sent row
      · exact Or.inr ⟨row,rfl,by simp [Trace.reread,exact],exact⟩
      · exact Or.inl (by simp [Trace.reread,exact])
    · by_cases exact : row = sent
      · subst row
        exact Or.inr ⟨_,rfl,by simp [Trace.reread],rfl⟩
      · exact Or.inl (by simp [Trace.reread,exact])

theorem create_traced {userId : Uuid} {transactionType : TransactionType} {referenceId : Option String}
    (own : type client = some transactionType) :
    (TransactionRepository.create userId transactionType referenceId).Obeys server.engine (fun _ => True)
      (tracing type) client .idle (fun outcome last => ∀ row, outcome = .ok row → last = .torn ∨
        (last = .own row ∧ row.userId = userId ∧ row.transactionType = transactionType ∧
          row.status = .pending ∧ row.referenceId = referenceId)) := by
  change Program.Obeys _ _ _ _ (send .uuid4 >>= fun id => _) _ _
  rw [Program.obeys_bind,Program.obeys_perform]
  refine ⟨Or.inr trivial,fun reply _ => ?_⟩
  rcases reply with error | id
  · intro row same
    cases same
  · let sent : CryptoBrokerage.Transaction :=
      { id, userId, transactionType, status := .pending, referenceId, createdAt := 0 }
    change Program.Obeys _ _ _ _ (send (.insert .transactions sent) >>= fun _ =>
      BaseRepository.refresh .transactions sent.id) _ _
    rw [Program.obeys_bind,Program.obeys_perform]
    refine ⟨Or.inr ⟨rfl,own,rfl⟩,fun reply _ => ?_⟩
    rcases reply with error | _
    · intro row same
      cases same
    · refine (refresh_traced sent (Or.inl rfl)).weaken fun outcome last read row same => ?_
      rcases read with torn | ⟨result,rfl,known,exact⟩
      · exact Or.inl torn
      · cases same
        rw [exact] at known ⊢
        exact Or.inr ⟨known,rfl,rfl,rfl,rfl⟩

theorem dirty_status {row : CryptoBrokerage.Transaction} {status : TransactionStatus} {referenceId : Option String}
    {columns : TransactionColumns} (changes : Table.dirty .transactions row { status, referenceId } = some columns) :
    columns.status = none ∨ columns.status = some status := by
  have sent : columns.status = changed row.status (some status) := by
    rw [Table.dirty,Option.ite_none_left_eq_some] at changes
    rw [← Option.some.inj changes.2]
  rw [sent]
  unfold changed
  split
  · exact Or.inl rfl
  · exact Or.inr rfl

theorem updateStatus_traced {row : CryptoBrokerage.Transaction} {status : TransactionStatus}
    {referenceId : Option String} (forward : status ≠ .reversed) :
    (TransactionRepository.updateStatus row status referenceId).Obeys server.engine (fun _ => True)
      (tracing type) client (.own row) (fun outcome last => last = .torn ∨ ∃ result, outcome = .ok result ∧
        last = .own result ∧ Matches (Table.assign .transactions { status, referenceId } row) result) := by
  change Program.Obeys _ _ _ _ (BaseRepository.flush .transactions row { status, referenceId } >>= fun _ =>
    BaseRepository.refresh .transactions row.id) _ _
  have whole := Table.assign_dirty .transactions row { status, referenceId }
  rw [Program.obeys_bind]
  unfold BaseRepository.flush
  cases changes : Table.dirty .transactions row { status, referenceId } with
  | none =>
    rw [changes] at whole
    rw [← whole]
    exact refresh_traced _ (Or.inr rfl)
  | some columns =>
    rw [changes] at whole
    refine (Program.obeys_perform _ _ _).mpr ⟨Or.inr (Or.inl ⟨row,rfl,rfl,?_⟩),fun reply answer => ?_⟩
    · rcases dirty_status changes with same | same
      · simp [same]
      · simpa [same] using forward
    · obtain ⟨turn,db,_,rfl⟩ := answer
      rw [← whole]
      exact refresh_traced (Table.assign .transactions columns row) (Or.inl rfl)

def Deposited (request : DepositRequest) (result : DepositResult) (state : Trace) : Prop :=
  ∃ row, state = .own row ∧ row.id = result.transactionId ∧ row.userId = request.userId ∧
    row.transactionType = .deposit ∧ row.status = .processing ∧
    row.referenceId = some result.externalTransferId ∧ result.status = .processing

theorem initiate_traced (gateway : InitiatedTransfer → Except Exception TransferInitiation)
    {request : DepositRequest} (bankAccount : BankAccount) {row : CryptoBrokerage.Transaction}
    (user : row.userId = request.userId) (kind : row.transactionType = .deposit) :
    (BankingService.initiate gateway request bankAccount row).Obeys server.engine (fun _ => True) (tracing type)
      client (.own row) (fun outcome last => last = .torn ∨ match outcome with
        | .ok result => Deposited request result last
        | .error _ => last = .own row) := by
  refine quiet_bind (Program.Only.bind ((Program.only_perform _).mpr trivial) fun _ => trivial)
    (Or.inr ⟨row,rfl⟩) (fun _ => Or.inl rfl) (fun _ => Or.inr rfl) fun transfer => ?_
  rw [Program.obeys_bind]
  refine (updateStatus_traced (by decide)).weaken fun outcome last updated => ?_
  rcases updated with rfl | ⟨result,rfl,rfl,exact⟩
  · cases outcome with
    | error error => exact Or.inl rfl
    | ok result => exact Or.inl rfl
  · rw [exact]
    exact Or.inr ⟨_,rfl,rfl,user,kind,rfl,rfl,rfl⟩

theorem depositFunds_traced (gateway : InitiatedTransfer → Except Exception TransferInitiation)
    {request : DepositRequest} (own : type client = some .deposit) :
    (BankingService.depositFunds gateway request).Obeys server.engine (fun _ => True) (tracing type) client .idle
      (fun outcome last => ∀ result, outcome = .ok result → last = .torn ∨ Deposited request result last) := by
  refine quiet_bind (source_only (fun _ => Reads.quiet) request) (Or.inl rfl) (fun _ _ _ => Or.inl rfl)
    (fun _ _ same => (by cases same)) fun bankAccount => ?_
  rw [Program.obeys_bind]
  refine (create_traced own).weaken fun outcome last created => ?_
  rcases outcome with error | row
  · intro result same
    cases same
  rcases created row rfl with rfl | ⟨rfl,user,kind,_,_⟩
  · exact torn_obeys (fun _ _ _ => Or.inl rfl) _
  change Program.Obeys _ _ _ _ ((BankingService.initiate gateway request bankAccount row).attempt >>= _) _ _
  rw [Program.obeys_bind,Program.obeys_attempt]
  refine (initiate_traced gateway bankAccount user kind).weaken fun outcome last tried => ?_
  rcases tried with rfl | tried
  · exact torn_obeys (fun _ _ _ => Or.inl rfl) _
  cases outcome with
  | ok result =>
    intro returned same
    cases same
    exact Or.inr tried
  | error error =>
    obtain rfl := tried
    change Program.Obeys _ _ _ _ (TransactionRepository.updateStatus row .failed >>= fun _ =>
      Program.raise (S := sql) error) _ _
    rw [Program.obeys_bind]
    refine (updateStatus_traced (by decide)).weaken fun outcome last _ => ?_
    cases outcome with
    | error raised => exact fun _ same => (by cases same)
    | ok failed => exact fun _ same => (by cases same)

/-- A confirmation that returns has found nothing, or a row that it leaves, or
has completed the row. -/
theorem confirmDeposit_traced (externalTransferId : String) :
    (BankingService.confirmDeposit externalTransferId).Obeys server.engine (fun _ => True) (tracing type) client
      .asking (fun _ last => last = .asking ∨ (∃ row, last = .found row ∧ ¬Unsettled row) ∨
        ∃ row, last = .closed row) := by
  change Program.Obeys _ _ _ _ (send (.selectTransaction externalTransferId) >>= _) _ _
  rw [Program.obeys_bind,Program.obeys_perform]
  refine ⟨Or.inr trivial,fun reply _ => ?_⟩
  rcases reply with error | _ | row
  · exact Or.inl rfl
  · exact Or.inl rfl
  change Program.Obeys _ _ _ _ (if row.status = .completed then pure () else if row.status = .failed then pure ()
    else TransactionRepository.updateStatus row .completed >>= fun _ => pure ()) (Trace.found row) _
  by_cases completed : row.status = .completed
  · rw [if_pos completed]
    exact Or.inr (Or.inl ⟨row,rfl,fun unsettled => unsettled.1 completed⟩)
  by_cases failed : row.status = .failed
  · rw [if_neg completed,if_pos failed]
    exact Or.inr (Or.inl ⟨row,rfl,fun unsettled => unsettled.2 failed⟩)
  rw [if_neg completed,if_neg failed]
  have changes : Table.dirty .transactions row { status := some .completed } =
      some { status := some .completed } := by
    rw [Table.dirty_moved completed,ite_self]
  have closed : (TransactionRepository.updateStatus row .completed).Obeys server.engine (fun _ => True)
      (tracing type) client (.found row) (fun _ last => last = .closed row) := by
    change Program.Obeys _ _ _ _ (BaseRepository.flush .transactions row { status := some .completed } >>= fun _ =>
      BaseRepository.refresh .transactions row.id) _ _
    unfold BaseRepository.flush
    rw [changes,Program.obeys_bind]
    refine (Program.obeys_perform _ _ _).mpr ⟨Or.inr (Or.inr ⟨row,rfl,rfl,⟨completed,failed⟩,rfl⟩),
      fun reply answer => ?_⟩
    obtain ⟨turn,db,_,rfl⟩ := answer
    refine ⟨Or.inr trivial,fun reply _ => ?_⟩
    rcases reply with error | _ | again
    · rfl
    · rfl
    · rfl
  rw [Program.obeys_bind]
  refine closed.weaken fun outcome last ended => ?_
  cases outcome with
  | error error => exact Or.inr (Or.inr ⟨row,ended⟩)
  | ok result => exact Or.inr (Or.inr ⟨row,ended⟩)

def Trace.Standing (state : Trace) : Prop := state = .torn ∨ state.Settled

theorem standing_ends {program : Action α} (outcome : Except Exception β)
    (standing : program.Obeys server.engine (fun _ => True) (tracing type) client state
      (fun _ last => last.Standing)) :
    (program >>= fun _ => (.done outcome : Action β)).Obeys server.engine (fun _ => True) (tracing type) client state
      (fun _ last => last.Standing) := by
  rw [Program.obeys_bind]
  refine standing.weaken fun result last stands => ?_
  cases result with
  | error error => exact stands
  | ok value => exact stands

theorem updateStatus_standing {row : CryptoBrokerage.Transaction} {status : TransactionStatus}
    (forward : status ≠ .reversed) :
    (TransactionRepository.updateStatus row status).Obeys server.engine (fun _ => True) (tracing type) client
      (.own row) (fun _ last => last.Standing) := by
  refine (updateStatus_traced forward).weaken fun outcome last updated => ?_
  rcases updated with torn | ⟨result,_,known,_⟩
  · exact Or.inl torn
  · exact Or.inr (Or.inr ⟨result,known⟩)

theorem finalise_standing (order : Order) (row : CryptoBrokerage.Transaction) (status : String) :
    (finalise order row status).Obeys server.engine (fun _ => True) (tracing type) client (.own row)
      (fun _ last => last.Standing) := by
  have stands : (Trace.own row).Standing := Or.inr (Or.inr ⟨row,rfl⟩)
  unfold finalise
  split
  · refine quiet_bind (update_only (fun _ => Reads.quiet) fun columns => by simp [Quiet]) (Or.inr ⟨row,rfl⟩)
      (fun _ => Or.inl rfl) (fun _ => stands) fun order => ?_
    exact standing_ends (.ok order) (updateStatus_standing (by decide))
  · split
    · refine standing_ends (.ok order) (updateStatus_standing ?_)
      split <;> decide
    · exact stands

theorem submit_traced (service : TradingService) (request : TradeRequest) (order : Order)
    (row : CryptoBrokerage.Transaction) :
    (service.submit request order row).Obeys server.engine (fun _ => True) (tracing type) client (.own row)
      (fun outcome last => last.Standing ∧ ∀ submission, outcome = .ok submission → last = .torn ∨ last = .own row) := by
  have stands : (Trace.own row).Standing := Or.inr (Or.inr ⟨row,rfl⟩)
  refine quiet_bind (Program.Only.attempt (Program.Only.bind ((Program.only_perform _).mpr trivial) fun _ => trivial))
    (Or.inr ⟨row,rfl⟩) (fun _ => ⟨Or.inl rfl,fun _ _ => Or.inl rfl⟩) (fun _ => ⟨stands,fun _ same => (by cases same)⟩)
    fun answer => ?_
  cases answer with
  | ok submission => exact ⟨stands,fun _ _ => Or.inr rfl⟩
  | error error =>
    refine quiet_bind (update_only (fun _ => Reads.quiet) fun columns => by simp [Quiet]) (Or.inr ⟨row,rfl⟩)
      (fun _ => ⟨Or.inl rfl,fun _ _ => Or.inl rfl⟩) (fun _ => ⟨stands,fun _ same => (by cases same)⟩) fun order => ?_
    rw [Program.obeys_bind]
    refine (updateStatus_standing (by decide)).weaken fun outcome last stands => ?_
    cases outcome with
    | error raised => exact ⟨stands,fun _ same => (by cases same)⟩
    | ok failed => exact ⟨stands,fun _ same => (by cases same)⟩

theorem settle_standing (service : TradingService) (order : Order) (row : CryptoBrokerage.Transaction)
    (account : Account) (quoteCurrency : String) (submission : OrderSubmission) :
    (service.settle order row account quoteCurrency submission).Obeys server.engine (fun _ => True) (tracing type)
      client (.own row) (fun _ last => last.Standing) := by
  refine quiet_bind (processFills_only service (fun _ => Reads.quiet) ?_ ?_ ?_ ?_ ?_ account quoteCurrency row.id []
    order _) (Or.inr ⟨row,rfl⟩) (fun _ => Or.inl rfl) (fun _ => Or.inr (Or.inr ⟨row,rfl⟩)) fun order =>
      finalise_standing order row submission.status
  all_goals simp [Quiet]

theorem openOrder_traced {request : TradeRequest} (own : type client = some .trade) :
    request.openOrder.Obeys server.engine (fun _ => True) (tracing type) client .idle
      (fun outcome last => ∀ order row, outcome = .ok (order,row) → last = .torn ∨ last = .own row) := by
  refine quiet_bind (add_only (fun _ => Reads.quiet) fun id => by simp [Quiet]) (Or.inl rfl)
    (fun _ _ _ _ => Or.inl rfl) (fun _ _ _ same => (by cases same)) fun order => ?_
  rw [Program.obeys_bind]
  refine (create_traced own).weaken fun outcome last created => ?_
  rcases outcome with error | row
  · exact fun _ _ same => (by cases same)
  · intro placed traced same
    cases same
    exact (created row rfl).imp_right fun known => known.1

theorem placeOrder_standing (service : TradingService) {request : TradeRequest} (own : type client = some .trade) :
    (service.placeOrder request).Obeys server.engine (fun _ => True) (tracing type) client .idle
      (fun outcome last => ∀ order, outcome = .ok order → last.Standing) := by
  have torn : ∀ outcome : Except Exception Order, ∀ order, outcome = .ok order → Trace.torn.Standing :=
    fun _ _ _ => Or.inl rfl
  unfold TradingService.placeOrder TradeRequest.opening
  rw [Program.bind_assoc]
  refine quiet_bind (validate_only request) (Or.inl rfl) torn (fun _ _ same => (by cases same)) fun _ => ?_
  rw [Program.bind_assoc]
  refine quiet_bind (debitAccount_only (fun _ => Reads.quiet) request) (Or.inl rfl) torn
    (fun _ _ same => (by cases same)) fun account => ?_
  rw [Program.bind_assoc,Program.obeys_bind]
  refine (openOrder_traced own).weaken fun outcome last opened => ?_
  rcases outcome with error | ⟨order,row⟩
  · exact fun _ same => (by cases same)
  rcases opened order row rfl with rfl | rfl
  · exact torn_obeys torn _
  change Program.Obeys _ _ _ _ (service.submit request order row >>= fun submission =>
    service.settle order row account request.quoteCurrency submission) _ _
  rw [Program.obeys_bind]
  refine (submit_traced service request order row).weaken fun outcome last sent => ?_
  rcases outcome with error | submission
  · exact fun _ same => (by cases same)
  rcases sent.2 submission rfl with rfl | rfl
  · exact torn_obeys torn _
  · exact (settle_standing service order row account _ submission).weaken fun _ _ stands _ _ => stands

theorem executeTrade_standing (service : TradingService) {request : TradeRequest} (own : type client = some .trade) :
    (service.executeTrade request).Obeys server.engine (fun _ => True) (tracing type) client .idle
      (fun outcome last => ∀ order, outcome = .ok order → last.Standing) := by
  refine quiet_bind ((Program.only_perform _).mpr trivial) (Or.inl rfl) (fun _ _ _ => Or.inl rfl)
    (fun _ _ same => (by cases same)) fun found => ?_
  cases found with
  | some existing => exact fun _ _ => Or.inr (Or.inl rfl)
  | none => exact placeOrder_standing service own

end Program

def Concluded (movement : Movement) (outcome : Except Exception (Option DepositResult)) (state : Trace) : Prop :=
  ∀ value, outcome = .ok value →
    match movement with
    | .deposit request => ∃ result, value = some result ∧ (state = .torn ∨ Deposited request result state)
    | .confirm _ => value = none ∧ (state = .asking ∨ (∃ row, state = .found row ∧ ¬Unsettled row) ∨
        ∃ row, state = .closed row)
    | .trade _ => value = none ∧ state.Standing

section Movements
variable {Client : Type} {server : Server Client}
  {bank : Client → InitiatedTransfer → Except Exception TransferInitiation}
  {exchange : Client → SubmittedOrder → Except Exception OrderSubmission} {now : Client → Timestamp}
  {movement : Client → Movement}

theorem movements_traced (client : Client) :
    (movements bank exchange now movement client).Obeys server.engine (fun _ => True)
      (tracing fun client => (movement client).transactionType) client
      ((tracing fun client => (movement client).transactionType).start client) (Concluded (movement client)) := by
  unfold movements
  cases kind : movement client with
  | deposit request =>
    have idle : (tracing fun client => (movement client).transactionType).start client = .idle := by
      simp [tracing,kind,Movement.transactionType]
    rw [idle,Program.obeys_bind]
    refine (depositFunds_traced (bank client) (by simp [kind,Movement.transactionType])).weaken
      fun outcome last deposited => ?_
    cases outcome with
    | error error => exact fun _ same => (by cases same)
    | ok result =>
      intro value same
      cases same
      exact ⟨result,rfl,deposited result rfl⟩
  | confirm externalTransferId =>
    have asking : (tracing fun client => (movement client).transactionType).start client = .asking := by
      simp [tracing,kind,Movement.transactionType]
    rw [asking,Program.obeys_bind]
    refine (confirmDeposit_traced externalTransferId).weaken fun outcome last confirmed => ?_
    cases outcome with
    | error error => exact fun _ same => (by cases same)
    | ok _ =>
      intro value same
      cases same
      exact ⟨rfl,confirmed⟩
  | trade request =>
    have idle : (tracing fun client => (movement client).transactionType).start client = .idle := by
      simp [tracing,kind,Movement.transactionType]
    rw [idle,Program.obeys_bind]
    refine (executeTrade_standing _ (by simp [kind,Movement.transactionType])).weaken fun outcome last traded => ?_
    cases outcome with
    | error error => exact fun _ same => (by cases same)
    | ok order =>
      intro value same
      cases same
      exact ⟨rfl,traded order rfl⟩

end Movements

end CryptoBrokerage
