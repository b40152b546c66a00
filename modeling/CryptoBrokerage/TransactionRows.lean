import CryptoBrokerage.TransactionTrace

/-! The transactions table in every interleaving of deposits, confirmations and
trades: what each commit does to it. -/
namespace CryptoBrokerage
open Transaction (Program Engine Protocol Session Status Config Label Step Runs Reachable Guarantee Upheld)

def complete (id : Uuid) (row : CryptoBrokerage.Transaction) : CryptoBrokerage.Transaction :=
  if row.id = id then { row with status := .completed } else row

@[simp] theorem complete_id (id : Uuid) (row : CryptoBrokerage.Transaction) : (complete id row).id = row.id := by
  unfold complete
  split <;> rfl

@[simp] theorem complete_referenceId (id : Uuid) (row : CryptoBrokerage.Transaction) :
    (complete id row).referenceId = row.referenceId := by
  unfold complete
  split <;> rfl

theorem complete_status (id : Uuid) (row : CryptoBrokerage.Transaction) :
    (complete id row).status = .completed ∨ complete id row = row := by
  unfold complete
  split
  · exact Or.inl rfl
  · exact Or.inr rfl

def Completes (id : Uuid) (writes : List Write) : Prop :=
  ∀ db : Database, (writes.foldl Database.apply db) .transactions = (db .transactions).map (complete id)

def Live (id : Uuid) (db : Database) : Prop := ∃ row ∈ db .transactions, row.id = id ∧ row.status ≠ .failed

section Sessions
variable {α : Type} {writes more : List Write}

theorem Spares.completes (spares : Spares .transactions writes) (id : Uuid) :
    Completes id (writes ++ [.update .transactions id { status := some .completed }]) := by
  intro db
  rw [List.foldl_append]
  change (Database.modify _ .transactions id _) .transactions = _
  rw [Database.modify_self,spares db]
  rfl

theorem Completes.append {id : Uuid} (completes : Completes id writes)
    (untouched : ∀ write ∈ more, write.table ≠ .transactions) : Completes id (writes ++ more) := by
  intro db
  rw [List.foldl_append,spares_untouched untouched]
  exact completes db

structure OwnRow (type : Option TransactionType) (row : CryptoBrokerage.Transaction)
    (session : Session sql Write Resource α) (committed : Database) : Prop where
  adds : Adds .transactions row session.writes
  held : .row .transactions row.id ∈ session.held
  fresh : ∀ other ∈ committed .transactions, other.id ≠ row.id
  kind : type = some row.transactionType
  forward : row.status ≠ .reversed

def Trace.Holds (type : Option TransactionType) (state : Trace) (session : Session sql Write Resource α)
    (committed : Database) : Prop :=
  Locked session ∧
    match state with
    | .idle | .asking => Spares .transactions session.writes
    | .written sent => ∃ row, Matches sent row ∧ OwnRow type row session committed
    | .own row => OwnRow type row session committed
    | .found row => Spares .transactions session.writes ∧ (Unsettled row → Live row.id committed)
    | .closed row => Completes row.id session.writes ∧ Unsettled row ∧ Live row.id committed
    | .torn => False

inductive Effect (type : Option TransactionType) (committed : Database) (after : List CryptoBrokerage.Transaction) : Prop
  | spared (same : after = committed .transactions)
  | added (row : CryptoBrokerage.Transaction) (kind : type = some row.transactionType)
      (fresh : ∀ other ∈ committed .transactions, other.id ≠ row.id) (forward : row.status ≠ .reversed)
      (append : after = committed .transactions ++ [row])
  | completed (id : Uuid) (live : Live id committed) (map : after = (committed .transactions).map (complete id))

variable {type : Option TransactionType} {state : Trace} {session : Session sql Write Resource α}
  {committed : Database}

theorem OwnRow.visible {row : CryptoBrokerage.Transaction} (owned : OwnRow type row session committed) :
    (session.writes.foldl Database.apply committed) .transactions = committed .transactions ++ [row] :=
  owned.adds committed owned.fresh

theorem Trace.Holds.effect (holds : state.Holds type session committed) :
    Effect type committed ((session.writes.foldl Database.apply committed) .transactions) := by
  obtain ⟨_,holds⟩ := holds
  cases state with
  | idle => exact .spared (holds committed)
  | asking => exact .spared (holds committed)
  | written sent =>
    obtain ⟨row,_,owned⟩ := holds
    exact .added row owned.kind owned.fresh owned.forward owned.visible
  | own row => exact .added row holds.kind holds.fresh holds.forward holds.visible
  | found row => exact .spared (holds.1 committed)
  | closed row => exact .completed row.id holds.2.2 (holds.1 committed)
  | torn => exact holds.elim

theorem Effect.live {after : Database} (effect : Effect type committed (after .transactions)) {id : Uuid}
    (live : Live id committed) : Live id after := by
  obtain ⟨row,member,same,alive⟩ := live
  cases effect with
  | spared unchanged => exact ⟨row,by rw [unchanged]; exact member,same,alive⟩
  | added fresh _ _ _ append => exact ⟨row,by rw [append]; exact List.mem_append_left _ member,same,alive⟩
  | completed other _ map =>
    refine ⟨complete other row,by rw [map]; exact List.mem_map_of_mem member,(complete_id _ _).trans same,?_⟩
    rcases complete_status other row with completed | unchanged
    · simp [completed]
    · rwa [unchanged]

theorem OwnRow.other {row : CryptoBrokerage.Transaction} (owned : OwnRow type row session committed)
    {other : Session sql Write Resource α} (theirs : Locked other)
    (exclusive : ∀ resource ∈ session.held, resource ∉ other.held) :
    OwnRow type row session (other.writes.foldl Database.apply committed) :=
  ⟨owned.adds,owned.held,theirs.fresh owned.held exclusive owned.fresh,owned.kind,owned.forward⟩

theorem Trace.Holds.other (holds : state.Holds type session committed) {type' : Option TransactionType}
    {state' : Trace} {other : Session sql Write Resource α} (theirs : state'.Holds type' other committed)
    (exclusive : ∀ resource ∈ session.held, resource ∉ other.held) :
    state.Holds type session (other.writes.foldl Database.apply committed) := by
  refine ⟨holds.1,?_⟩
  have effect := theirs.effect
  obtain ⟨_,holds⟩ := holds
  cases state with
  | idle => exact holds
  | asking => exact holds
  | written sent =>
    obtain ⟨row,sent,owned⟩ := holds
    exact ⟨row,sent,owned.other theirs.1 exclusive⟩
  | own row => exact OwnRow.other holds theirs.1 exclusive
  | found row => exact ⟨holds.1,fun unsettled => effect.live (holds.2 unsettled)⟩
  | closed row => exact ⟨holds.1,holds.2.1,effect.live holds.2.2⟩
  | torn => exact holds

/-- The session after statements that write no transaction. -/
theorem Trace.Holds.quiet (holds : state.Holds type session committed)
    (untouched : ∀ write ∈ more, write.table ≠ .transactions) {later : Session sql Write Resource α}
    (appended : later.writes = session.writes ++ more) (held : session.held ⊆ later.held) (locked : Locked later) :
    state.Holds type later committed := by
  refine ⟨locked,?_⟩
  obtain ⟨_,holds⟩ := holds
  have owned {row : CryptoBrokerage.Transaction} (owned : OwnRow type row session committed) :
      OwnRow type row later committed :=
    ⟨appended ▸ owned.adds.append untouched,held owned.held,owned.fresh,owned.kind,owned.forward⟩
  have spares (spares : Spares .transactions session.writes) : Spares .transactions later.writes :=
    appended ▸ spares.append untouched
  cases state with
  | idle => exact spares holds
  | asking => exact spares holds
  | written sent =>
    obtain ⟨row,sent,own⟩ := holds
    exact ⟨row,sent,owned own⟩
  | own row => exact owned holds
  | found row => exact ⟨spares holds.1,holds.2⟩
  | closed row => exact ⟨appended ▸ holds.1.append untouched,holds.2⟩
  | torn => exact holds

end Sessions

section Guarantee
variable {Client α : Type} {server : Server Client} {type : Client → Option TransactionType} {client : Client}
  {state : Trace} {session : Session sql Write Resource α} {committed : Database}

theorem Quiet.untouched {op : Statement} (quiet : Quiet op) {turn : Nat} {db : Database} {reply : op.Reply}
    {writes : List Write} (answered : server.exec client turn op db = .ok (reply,writes)) :
    ∀ write ∈ writes, write.table ≠ .transactions := by
  have written := Server.exec_writes answered
  intro write member
  cases op with
  | insert t row =>
    obtain ⟨stored,_,_,rfl⟩ := written
    rw [List.mem_singleton.mp member]
    exact quiet
  | update t id set =>
    obtain ⟨stored,_,rfl⟩ := written
    rw [List.mem_singleton.mp member]
    exact quiet
  | _ =>
    rw [show writes = [] from written] at member
    cases member

/-- A request that reads its own row back sees what it has written. -/
theorem Trace.Holds.reread (holds : state.Holds (type client) session committed) {db : Database}
    (visible : session.writes.foldl Database.apply committed = db) (id : Uuid) :
    (state.reread id (db.find .transactions id)).Holds (type client) session committed := by
  subst visible
  have seen {row : CryptoBrokerage.Transaction} (owned : OwnRow (type client) row session committed) :
      (session.writes.foldl Database.apply committed).find .transactions row.id = some row :=
    owned.adds.find owned.fresh
  cases state with
  | written sent =>
    obtain ⟨locked,row,same,owned⟩ := holds
    have named : row.id = sent.id := by
      unfold Matches at same
      rw [same]
    by_cases own : id = sent.id
    · subst own
      rw [← named,seen owned]
      simp only [Trace.reread,named,if_true,if_pos same]
      exact ⟨locked,owned⟩
    · simp only [Trace.reread,if_neg own]
      exact ⟨locked,row,same,owned⟩
  | own known =>
    by_cases own : id = known.id
    · subst own
      rw [seen holds.2]
      simpa [Trace.reread] using holds
    · simpa [Trace.reread,own] using holds
  | _ => exact holds

/-- What `get_by_reference` returns to a confirmation is a committed row. -/
theorem Trace.Holds.told (holds : state.Holds (type client) session committed) {db : Database}
    (visible : session.writes.foldl Database.apply committed = db) {row : CryptoBrokerage.Transaction}
    (member : row ∈ db .transactions) : (state.told row).Holds (type client) session committed := by
  subst visible
  cases state with
  | asking =>
    obtain ⟨locked,spares⟩ := holds
    refine ⟨locked,spares,fun unsettled => ⟨row,?_,rfl,unsettled.2⟩⟩
    rw [← spares committed]
    exact member
  | _ => exact holds

theorem Trace.Holds.inserted (holds : Trace.idle.Holds (type client) session committed)
    {row stored : CryptoBrokerage.Transaction} (own : type client = some row.transactionType)
    (pending : row.status = .pending)
    (ok : Table.store server.numeric .transactions (Table.stamp (server.now client) .transactions row) = .ok stored)
    (valid : (session.writes.foldl Database.apply committed).violated .transactions stored = none)
    {locks : List Resource} (held : .row .transactions stored.id ∈ locks) (rest : Program sql α)
    (issued : List Statement)
    (locked : Locked (⟨rest,session.writes ++ [.insert .transactions stored],session.held ++ locks,issued⟩ :
      Session sql Write Resource α)) :
    (Trace.written row).Holds (type client)
      ⟨rest,session.writes ++ [.insert .transactions stored],session.held ++ locks,issued⟩ committed := by
  have exact : stored = { row with createdAt := server.now client } := (Except.ok.inj ok).symm
  have spares : Spares .transactions session.writes := holds.2
  have matched : Matches row stored := by
    rw [exact]
    rfl
  have kind : stored.transactionType = row.transactionType := by rw [exact]
  have status : stored.status = row.status := by rw [exact]
  refine ⟨locked,stored,matched,spares.insert stored,List.mem_append_right _ held,?_,?_,?_⟩
  · intro other member same
    have fresh := (Database.violated_none valid).1
    rw [← spares committed] at member
    have inside : (session.writes.foldl Database.apply committed).has .transactions stored.id = true :=
      Database.has_iff.mpr ⟨other,member,same⟩
    exact Bool.false_ne_true (fresh.symm.trans inside)
  · rw [kind]
    exact own
  · rw [status,pending]
    decide

theorem Trace.Holds.updated (holds : state.Holds (type client) session committed) {id : Uuid}
    {set : TransactionColumns} (allowed : (tracing type).allowed client state (.update .transactions id set))
    {locks : List Resource} (rest : Program sql α) (issued : List Statement)
    (locked : Locked (⟨rest,session.writes ++ [.update .transactions id set],session.held ++ locks,issued⟩ :
      Session sql Write Resource α)) :
    (state.updated set).Holds (type client)
      ⟨rest,session.writes ++ [.update .transactions id set],session.held ++ locks,issued⟩ committed := by
  refine ⟨locked,?_⟩
  obtain ⟨_,holds⟩ := holds
  rcases allowed with rfl | ⟨row,rfl,rfl,forward⟩ | ⟨row,rfl,rfl,unsettled,rfl⟩
  · exact holds.elim
  · refine ⟨Table.assign .transactions set row,rfl,holds.adds.update set,List.mem_append_left _ holds.held,
      holds.fresh,holds.kind,?_⟩
    change set.status.getD row.status ≠ .reversed
    cases given : set.status with
    | none => exact holds.forward
    | some status =>
      intro reversed
      exact forward (given.trans (congrArg some reversed))
  · exact ⟨holds.1.completes row.id,unsettled,holds.2 unsettled⟩

theorem holds_answered {op : Statement} {reply : op.Reply} {more : List Write} (rest : Program sql α)
    (holds : state.Holds (type client) session committed) (allowed : (tracing type).allowed client state op)
    (answered : server.exec client session.issued.length op (server.engine.visible committed session.writes) =
      .ok (reply,more)) :
    ((tracing type).after client state op (.ok reply)).Holds (type client)
      ⟨rest,session.writes ++ more,
        session.held ++ server.engine.locks op (server.engine.visible committed session.writes),
        session.issued ++ [op]⟩ committed := by
  have locked := holds.1.answered answered rest (session.issued ++ [op])
  have kept (quiet : Quiet op) := holds.quiet (quiet.untouched answered) rfl (List.subset_append_left _ _) locked
  have reads : (session.writes ++ []).foldl Database.apply committed =
      server.engine.visible committed session.writes := by
    rw [List.append_nil]
    rfl
  cases op with
  | insert t row =>
    cases t with
    | transactions =>
      obtain ⟨stored,ok,valid,rfl⟩ := Server.exec_writes answered
      rcases allowed with rfl | ⟨rfl,own,pending⟩
      · exact holds.2.elim
      · have id : stored.id = row.id := Table.key_store _ ok
        refine holds.inserted own pending ok valid ?_ rest _ locked
        rw [id]
        exact List.mem_cons_self
    | _ => exact kept (by simp [Quiet])
  | update t id set =>
    cases t with
    | transactions =>
      obtain ⟨stored,ok,rfl⟩ := Server.exec_writes answered
      cases ok
      exact holds.updated allowed rest _ locked
    | _ => exact kept (by simp [Quiet])
  | get t id =>
    cases t with
    | transactions =>
      cases answered
      exact (kept trivial).reread reads id
    | _ => exact kept trivial
  | selectTransaction referenceId =>
    cases answered
    cases found : (server.first client session.issued.length).pick
        (((server.engine.visible committed session.writes) .transactions).filter
          (fun transaction => transaction.referenceId == some referenceId)) with
    | none => exact kept trivial
    | some row => exact (kept trivial).told reads (List.mem_of_mem_filter ((server.first client _).member found))
  | _ => exact kept trivial

theorem after_error (op : Statement) (error : Exception) :
    (tracing type).after client state op (.error error) = state := by
  cases op with
  | insert t row => cases t <;> rfl
  | update t id set => cases t <;> rfl
  | get t id => cases t <;> rfl
  | _ => rfl

/-- The protocol in every interleaving of programs that obey it. -/
theorem tracing_guarantee (programs : Client → Program sql α) :
    Guarantee server.engine (tracing type) programs (fun _ => True) (fun _ => True)
      (fun client => Trace.Holds (type client)) where
  start client committed _ := by
    refine ⟨locked_start _,?_⟩
    have state : (tracing type).start client = .asking ∨ (tracing type).start client = .idle := by
      by_cases confirms : type client = none
      · exact Or.inl (if_pos confirms)
      · exact Or.inr (if_neg confirms)
    rcases state with same | same <;> rw [same] <;> exact spares_nil _
  sees _ _ _ _ _ _ := trivial
  answered client state session committed op rest reply more _ holds allowed answered _ :=
    holds_answered rest holds allowed answered
  failed client state session committed op rest error _ holds _ _ := by
    rw [after_error]
    exact holds.quiet (by simp) (List.append_nil _).symm (List.Subset.refl _) holds.1
  commit _ _ _ _ _ _ := trivial
  rely client other state session state' session' committed _ _ holds theirs exclusive :=
    holds.other theirs exclusive

end Guarantee

section Movements
variable {Client : Type} [DecidableEq Client] {server : Server Client}
  {bank : Client → InitiatedTransfer → Except Exception TransferInitiation}
  {exchange : Client → SubmittedOrder → Except Exception OrderSubmission} {now : Client → Timestamp}
  {movement : Client → Movement} {db : Database}
  {before after : Config sql Client Database Write Resource (Option DepositResult)} {label : Label sql Client}

theorem movements_upheld {config : Config sql Client Database Write Resource (Option DepositResult)}
    (reached : Reachable server.engine (movements bank exchange now movement) db config) :
    Upheld server.engine (tracing fun client => (movement client).transactionType) (fun _ => True) (fun _ => True)
      (fun client => Trace.Holds (movement client).transactionType) (fun client => Concluded (movement client))
      config :=
  (tracing_guarantee (movements bank exchange now movement)).upheld movements_traced trivial reached

theorem movements_commit (reached : Reachable server.engine (movements bank exchange now movement) db before)
    {client : Client} (step : Step server.engine (movements bank exchange now movement) before (.commit client) after) :
    ∃ state session value, before.status client = .running session ∧ session.program = .done (.ok value) ∧
      after.status client = .ended (.ok value) session.issued ∧
      state.Holds (movement client).transactionType session before.committed ∧
      Concluded (movement client) (.ok value) state ∧
      after.committed = session.writes.foldl Database.apply before.committed := by
  cases step with
  | commit _ session value opened returned =>
    obtain ⟨state,holds,obeys⟩ := (movements_upheld reached).2 client session opened
    rw [returned] at obeys
    exact ⟨state,session,value,opened,returned,Config.set_self before client _,holds,obeys,rfl⟩

theorem effect_step
    (reached : Reachable server.engine (movements bank exchange now movement) db before)
    (step : Step server.engine (movements bank exchange now movement) before label after) :
    Effect (movement label.client).transactionType before.committed (after.committed .transactions) := by
  cases label with
  | commit client =>
    obtain ⟨state,session,value,_,_,_,holds,_,committed⟩ := movements_commit reached step
    rw [committed]
    exact holds.effect
  | _ =>
    cases step
    exact .spared rfl

def Inert (status : Status sql Write Resource (Option DepositResult)) : Prop :=
  match status with
  | .running session => session.writes = [] ∧ session.program = .done (.ok none)
  | .ended outcome _ => outcome = .ok none
  | .ready => False

def confirmation (row : CryptoBrokerage.Transaction) : Action (Option DepositResult) :=
  if row.status = .completed then pure none
  else if row.status = .failed then pure none
  else do
    let _ ← TransactionRepository.updateStatus row .completed
    pure none

def Looked (op : Statement) : Prop := ∀ referenceId, op ≠ .selectTransaction referenceId

theorem confirmation_looked (row : CryptoBrokerage.Transaction) : (confirmation row).Only Looked := by
  unfold confirmation
  split
  · trivial
  · split
    · trivial
    · exact Program.Only.bind (update_sends (fun columns => by simp [Looked]) (by simp [Looked])) fun _ => trivial

omit [DecidableEq Client] in
variable (bank exchange now) in
theorem movements_confirm {client : Client} {referenceId : String} (confirms : movement client = .confirm referenceId) :
    ∃ next, movements bank exchange now movement client = .call (.selectTransaction referenceId) next ∧
      next (.ok none) = pure none ∧ (∀ row, next (.ok (some row)) = confirmation row) ∧
      ∀ found, (next found).Only Looked := by
  have shape : movements bank exchange now movement client =
      BankingService.confirmDeposit referenceId >>= fun _ => pure none := by
    unfold movements
    rw [confirms]
  have settled (row : CryptoBrokerage.Transaction) : ((if row.status = .completed then pure ()
      else if row.status = .failed then pure ()
      else TransactionRepository.updateStatus row .completed >>= fun _ => pure () : Action Unit) >>= fun _ =>
        (pure none : Action (Option DepositResult))) = confirmation row := by
    unfold confirmation
    split
    · rfl
    · split
      · rfl
      · exact Program.bind_assoc _ _ _
  refine ⟨_,shape.trans rfl,rfl,settled,fun found => ?_⟩
  rcases found with error | _ | row
  · trivial
  · trivial
  · have only := confirmation_looked row
    rw [← settled row] at only
    exact only

/-- A lookup that finds nothing, or a row that is completed or failed, is the
last thing its request does. -/
theorem lookup_inert (reached : Reachable server.engine (movements bank exchange now movement) db before)
    {client : Client} {referenceId : String} (confirms : movement client = .confirm referenceId)
    (step : Step server.engine (movements bank exchange now movement) before
      (.issue client (.selectTransaction referenceId)) after)
    (settled : ∀ row, server.referred client before.committed referenceId = some row → ¬Unsettled row) :
    Inert (after.status client) := by
  obtain ⟨first,opening,absent,found,looked⟩ := movements_confirm bank exchange now confirms
  cases step with
  | issue _ session _ next opened sent free =>
    rcases reached.first opening looked opened with rfl | only
    · rw [opening] at sent
      cases sent
      have returns : first (.ok (server.referred client before.committed referenceId)) = pure none := by
        cases chosen : server.referred client before.committed referenceId with
        | none => exact absent
        | some row =>
          have final := settled row chosen
          rw [found,confirmation]
          by_cases completed : row.status = .completed
          · rw [if_pos completed]
          · rw [if_neg completed,if_pos (not_not.mp fun alive => final ⟨completed,alive⟩)]
      change Inert ((before.set client _).status client)
      rw [Config.set_self]
      exact ⟨rfl,returns⟩
    · rw [sent] at only
      exact absurd rfl (only.1 referenceId)

theorem inert_step (step : Step server.engine (movements bank exchange now movement) before label after)
    {client : Client} (inert : Inert (before.status client)) :
    Inert (after.status client) ∧ (label.client = client → after.committed = before.committed) := by
  by_cases mine : client = label.client
  · cases opened : before.status client with
    | ready =>
      rw [opened] at inert
      exact inert.elim
    | running session =>
      rw [opened] at inert
      obtain ⟨writes,program⟩ := inert
      obtain ⟨ended,committed⟩ := step.finishes mine opened program
      rw [ended,committed,writes]
      exact ⟨rfl,fun _ => rfl⟩
    | ended outcome issued => exact absurd opened (step.alive mine)
  · rw [step.others mine]
    exact ⟨inert,fun same => absurd same.symm mine⟩

end Movements

end CryptoBrokerage
