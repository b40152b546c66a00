import CryptoBrokerage.Idempotency

/-! How a request ends that loses the race for an idempotency key. No layer
catches what the insertion of its order raises. -/
namespace CryptoBrokerage
open Transaction (Program Engine Protocol Session Status Config Label Step Runs Reachable Guarantee Upheld)

/-- An exception that is not the one the API answers with 409. -/
def Foreign (error : Exception) : Prop := ∀ key, error ≠ .duplicateIdempotencyKey key

inductive Stage
  | looking
  | placed
  | refused
  deriving DecidableEq, Repr

def racing {Client : Type} : Protocol sql Client Stage where
  start _ := .looking
  allowed _ _ _ := True
  after _ stage op reply :=
    match op, reply with
    | .insert .orders _, .ok _ => .placed
    | .insert .orders _, .error _ => .refused
    | _, _ => stage

section Errors
variable {Client : Type} {server : Server Client} {client : Client}

theorem exec_foreign (numeric : ∀ value error, server.numeric value = .error error → Foreign error) {turn : Nat}
    {op : Statement} {db : Database} {error : Exception} (failed : server.exec client turn op db = .error error) :
    Foreign error := by
  rcases exec_error failed with ⟨value,raised⟩ | ⟨constraint,rfl⟩ | ⟨message,rfl⟩
  · exact numeric value error raised
  · simp [Foreign]
  · simp [Foreign]

end Errors

def Ends {α : Type} (outcome : Except Exception α) (last : Stage) : Prop :=
  match outcome with
  | .ok _ => last ≠ .refused
  | .error error => Foreign error

def Racing {Client α : Type} (server : Server Client) (client : Client) (program : Action α) : Prop :=
  ∀ stage, stage ≠ .refused → program.Obeys server.engine (fun _ => True) racing client stage Ends

section Program
variable {Client α β : Type} {server : Server Client} {client : Client}

theorem racing_pure (value : α) : Racing server client (pure value : Action α) := fun _ running => running

theorem racing_raise {error : Exception} (foreign : Foreign error) :
    Racing server client (Program.raise (S := sql) error : Action α) := fun _ _ => foreign

theorem Racing.bind {program : Action α} {next : α → Action β} (first : Racing server client program)
    (rest : ∀ value, Racing server client (next value)) : Racing server client (program >>= next) := by
  intro stage running
  rw [Program.obeys_bind]
  refine (first stage running).weaken fun outcome last ended => ?_
  cases outcome with
  | error error => exact ended
  | ok value => exact rest value last ended

theorem racing_send (numeric : ∀ value error, server.numeric value = .error error → Foreign error)
    (statement : Statement) : Racing server client (send statement) := by
  intro stage running
  rw [Program.obeys_perform]
  refine ⟨trivial,fun reply answer => ?_⟩
  obtain ⟨turn,db,_,answered⟩ := answer
  change (server.exec client turn statement db).map Prod.fst = reply at answered
  cases result : server.exec client turn statement db with
  | error raised =>
    rw [result] at answered
    cases answered
    exact exec_foreign numeric result
  | ok pair =>
    rw [result] at answered
    cases answered
    cases statement with
    | insert t row =>
      have placed : Stage.placed ≠ .refused := by decide
      cases t <;> first | exact placed | exact running
    | _ => exact running

theorem racing_fixed (outcome : Except Exception α) (foreign : ∀ error, outcome = .error error → Foreign error) :
    Racing server client (.done outcome : Action α) := by
  intro stage running
  cases outcome with
  | ok value => exact running
  | error error => exact foreign error rfl

theorem racing_product (first second : ℚ) : Racing server client (.done (product first second) : Action ℚ) := by
  refine racing_fixed _ fun error failed => ?_
  rw [product_error failed]
  exact fun _ same => (by cases same)

section Repositories
variable (numeric : ∀ value error, server.numeric value = .error error → Foreign error)
include numeric

theorem racing_refresh (t : Table) (id : Uuid) : Racing server client (BaseRepository.refresh t id) := by
  refine (racing_send numeric (.get t id)).bind fun found => ?_
  cases found with
  | none => exact racing_raise fun _ same => (by cases same)
  | some row => exact racing_pure row

theorem racing_add (t : Table) (entity : Uuid → t.Row) : Racing server client (BaseRepository.add t entity) :=
  (racing_send numeric .uuid4).bind fun id => (racing_send numeric (.insert t (entity id))).bind fun _ =>
    racing_refresh numeric t id

theorem racing_update (t : Table) (row : t.Row) (set : t.Columns) :
    Racing server client (BaseRepository.update t row set) := by
  have flushed : Racing server client (BaseRepository.flush t row set) := by
    unfold BaseRepository.flush
    split
    · exact racing_send numeric _
    · exact racing_pure ()
  exact flushed.bind fun _ => racing_refresh numeric t _

theorem racing_judged (verdict : Option String) (posting : Posting) :
    Racing server client (LedgerRepository.judged verdict posting) := by
  cases verdict with
  | some message => exact racing_raise fun _ same => (by cases same)
  | none => exact racing_add numeric _ _

theorem racing_upsertPosition (userId assetId : Uuid) (quantityDelta fillPrice : ℚ) :
    Racing server client (PositionRepository.upsertPosition userId assetId quantityDelta fillPrice) := by
  refine (racing_send numeric (.selectPosition userId assetId)).bind fun found => ?_
  cases found with
  | none => exact racing_add numeric _ _
  | some position =>
    change Racing server client (if 0 < quantityDelta then _ else _ : Action Position)
    split
    · refine (racing_product quantityDelta fillPrice).bind fun bought => ?_
      change Racing server client (if _ then _ else _ : Action Position)
      split
      · exact racing_raise fun _ same => (by cases same)
      · exact racing_update numeric _ _ _
    · exact racing_update numeric _ _ _

omit numeric in
theorem racing_validate (request : TradeRequest) : Racing server client request.validate := by
  unfold TradeRequest.validate
  split
  · exact racing_raise fun _ same => (by cases same)
  · split
    · exact racing_raise fun _ same => (by cases same)
    · exact racing_pure ()

theorem racing_debitAccount (request : TradeRequest) : Racing server client request.debitAccount := by
  refine (racing_send numeric (.selectAccount request.userId request.quoteCurrency)).bind fun found => ?_
  cases found with
  | none => exact racing_raise fun _ same => (by cases same)
  | some account =>
    have locked : Racing server client (AccountRepository.getBalanceForUpdate account.id) := by
      refine (racing_send numeric (.selectAccountForUpdate account.id)).bind fun found => ?_
      cases found with
      | none => exact racing_raise fun _ same => (by cases same)
      | some locked =>
        exact ((racing_send numeric (.sumCredits account.id)).bind fun _ =>
          (racing_send numeric (.sumDebits account.id)).bind fun _ => racing_pure _).bind fun _ => racing_pure _
    refine locked.bind fun value => (racing_product request.amount (request.price.getD 0)).bind fun cost => ?_
    change Racing server client (if _ then _ else _ : Action Account)
    split
    · exact racing_raise fun _ same => (by cases same)
    · exact racing_pure _

theorem racing_finalise (order : Order) (row : CryptoBrokerage.Transaction) (status : String) :
    Racing server client (finalise order row status) := by
  unfold finalise
  split
  · exact (racing_update numeric _ _ _).bind fun _ => (racing_update numeric _ _ _).bind fun _ => racing_pure _
  · split
    · exact (racing_update numeric _ _ _).bind fun _ => racing_pure _
    · exact racing_pure _

variable (service : TradingService)

theorem racing_processFills (account : Account) (quoteCurrency : String) (transactionId : Uuid) (seen : List String)
    (order : Order) (fills : List FillEvent) :
    Racing server client (service.processFills account quoteCurrency transactionId seen order fills) := by
  induction fills generalizing seen order with
  | nil => exact racing_pure order
  | cons fill rest ih =>
    rw [TradingService.processFills_cons]
    split
    · exact ih seen order
    · refine Racing.bind ?_ fun order => ih _ order
      refine (racing_product fill.price fill.amount).bind fun fillValue => ?_
      refine (racing_fixed _ fun error failed => ?_).bind fun timestamp => ?_
      · unfold fromTimestamp at failed
        split at failed
        · cases failed
        · cases failed
          exact fun _ same => (by cases same)
      · exact (racing_add numeric _ _).bind fun _ => (racing_judged numeric _ _).bind fun _ =>
          (racing_upsertPosition numeric _ _ _ _).bind fun _ => racing_update numeric _ _ _

theorem racing_submit (gateway : ∀ order error, service.exchangeGateway order = .error error → Foreign error)
    (request : TradeRequest) (order : Order) (row : CryptoBrokerage.Transaction) :
    Racing server client (service.submit request order row) := by
  intro stage running
  have failed (error : Exception) (foreign : Foreign error) : Racing server client (do
      let _ ← OrderRepository.updateStatus order .failed
      let _ ← TransactionRepository.updateStatus row .failed
      .raise error : Action OrderSubmission) :=
    (racing_update numeric _ _ _).bind fun _ => (racing_update numeric _ _ _).bind fun _ => racing_raise foreign
  unfold TradingService.submit TradingService.submitOrder
  rw [Program.obeys_bind,Program.obeys_attempt,Program.obeys_bind,Program.obeys_perform]
  refine ⟨trivial,fun reply answer => ?_⟩
  obtain ⟨turn,db,_,rfl⟩ := answer
  cases answered : service.exchangeGateway request.submitted with
  | ok submission => exact running
  | error error => exact failed error (gateway _ error answered) stage running

theorem racing_executeTrade (gateway : ∀ order error, service.exchangeGateway order = .error error → Foreign error)
    (request : TradeRequest) : Racing server client (service.executeTrade request) := by
  refine (racing_send numeric (.selectOrder request.idempotencyKey)).bind fun found => ?_
  cases found with
  | some existing => exact racing_pure existing
  | none =>
    have opening : Racing server client request.opening :=
      (racing_validate request).bind fun _ => (racing_debitAccount numeric request).bind fun account =>
        ((racing_add numeric _ _).bind fun order => (racing_add numeric _ _).bind fun row => racing_pure _).bind
          fun pair => racing_pure _
    exact opening.bind fun values => (racing_submit numeric service gateway request values.2.1 values.2.2).bind
      fun submission => (racing_processFills numeric service _ _ _ _ _ _).bind fun order =>
        racing_finalise numeric order _ _

end Repositories

end Program

def Statement.placed : Statement → Option Order
  | .insert .orders row => some row
  | _ => none

def Inserts (issued : List Statement) : Prop := ∃ row, .insert .orders row ∈ issued

theorem inserts_iff {issued : List Statement} : Inserts issued ↔ issued.filterMap Statement.placed ≠ [] := by
  constructor
  · rintro ⟨row,member⟩ none
    have absent := List.filterMap_eq_nil_iff.mp none _ member
    cases absent
  · intro some
    obtain ⟨row,member⟩ := List.exists_mem_of_ne_nil _ some
    obtain ⟨op,sent,placed⟩ := List.mem_filterMap.mp member
    cases op with
    | insert t other =>
      cases t with
      | orders => exact ⟨other,sent⟩
      | _ => cases placed
    | _ => cases placed

theorem inserts_append {issued : List Statement} {op : Statement} (other : ∀ row, op ≠ .insert .orders row) :
    Inserts (issued ++ [op]) ↔ Inserts issued := by
  have last (row : Order) : Statement.insert .orders row ≠ op := Ne.symm (other row)
  simp [Inserts,last]

theorem ownOrders_more {writes : List Write} (some : ownOrders writes ≠ []) (more : List Write) :
    ownOrders (writes ++ more) ≠ [] := by
  induction more using List.reverseRecOn with
  | nil => rwa [List.append_nil]
  | append_singleton more write ih =>
    rw [← List.append_assoc,ownOrders_append]
    cases write with
    | insert t row =>
      cases t with
      | orders => exact List.append_ne_nil_of_right_ne_nil _ (by simp)
      | _ => exact ih
    | update t id set =>
      cases t with
      | orders => exact fun none => ih (List.map_eq_nil_iff.mp none)
      | _ => exact ih

def Stage.Holds {α : Type} (stage : Stage) (session : Session sql Write Resource α) : Prop :=
  (stage = .looking → ¬Inserts session.issued) ∧ (stage = .placed → ownOrders session.writes ≠ [])

section Guarantee
variable {Client α : Type} {server : Server Client} {client : Client} {stage : Stage}
  {session : Session sql Write Resource α} {committed : Database}

theorem Stage.Holds.other (holds : stage.Holds session) {op : Statement} (other : ∀ row, op ≠ .insert .orders row)
    (rest : Program sql α) (more : List Write) (held : List Resource) :
    stage.Holds (⟨rest,session.writes ++ more,held,session.issued ++ [op]⟩ : Session sql Write Resource α) := by
  refine ⟨fun looking inserts => ?_,fun placed => ownOrders_more (holds.2 placed) more⟩
  exact holds.1 looking ((inserts_append other).mp inserts)

theorem racing_guarantee (programs : Client → Program sql α) :
    Guarantee server.engine racing programs (fun _ => True) (fun _ => True) fun _ stage session _ =>
      stage.Holds session where
  start _ _ _ := ⟨fun _ inserts => (by simp [Inserts] at inserts),fun same => (by cases same)⟩
  sees _ _ _ _ _ _ := trivial
  answered client stage session committed op rest reply more _ holds _ answered _ := by
    cases op with
    | insert t row =>
      cases t with
      | orders =>
        obtain ⟨stored,_,_,rfl⟩ := @Server.exec_writes _ server client session.issued.length
          (.insert .orders row) _ _ _ answered
        refine ⟨fun same => (by cases same),fun _ => ?_⟩
        rw [ownOrders_append]
        exact List.append_ne_nil_of_right_ne_nil _ (by simp)
      | _ => exact holds.other (by simp) _ _ _
    | _ => exact holds.other (by simp) _ _ _
  failed client stage session committed op rest error _ holds _ _ := by
    have same (other : ∀ row, op ≠ .insert .orders row) : stage.Holds
        (⟨rest,session.writes,session.held,session.issued ++ [op]⟩ : Session sql Write Resource α) := by
      have kept := holds.other other rest [] session.held
      rwa [List.append_nil] at kept
    cases op with
    | insert t row =>
      cases t with
      | orders => exact ⟨fun same => (by cases same),fun same => (by cases same)⟩
      | _ => exact same (by simp)
    | _ => exact same (by simp)
  commit _ _ _ _ _ _ := trivial
  rely _ _ _ _ _ _ _ _ _ holds _ _ := holds

end Guarantee

section Requests
variable {Client : Type} [DecidableEq Client] {server : Server Client}
  {gateway : Client → SubmittedOrder → Except Exception OrderSubmission} {now : Client → Timestamp}
  {request : Client → TradeRequest} {db : Database}
  {before after config : Config sql Client Database Write Resource Order} {label : Label sql Client}

def Inserted (config : Config sql Client Database Write Resource Order) (client : Client)
    (outcome : Except Exception Order) : Prop :=
  ∃ issued, config.status client = .ended outcome issued ∧ Inserts issued

/-- What the losers of the race for the key of `winner` are promised: the committed
order, or the exception that is answered with 409. -/
def Promised (request : Client → TradeRequest) (config : Config sql Client Database Write Resource Order)
    (winner : Client) : Prop :=
  ∀ other, other ≠ winner → (request other).idempotencyKey = (request winner).idempotencyKey →
    ∀ outcome, Inserted config other outcome →
      (∃ order ∈ config.committed .orders, order.idempotencyKey = (request winner).idempotencyKey ∧
        outcome = .ok order) ∨ outcome = .error (.duplicateIdempotencyKey (request winner).idempotencyKey)

structure Decided (request : Client → TradeRequest) (config : Config sql Client Database Write Resource Order) :
    Prop where
  foreign : ∀ client error issued, config.status client = .ended (.error error) issued → Foreign error
  stored : ∀ client value, Inserted config client (.ok value) → ∃ order ∈ config.committed .orders,
    order.idempotencyKey = (request client).idempotencyKey
  single : ∀ client other value value', client ≠ other →
    (request client).idempotencyKey = (request other).idempotencyKey → Inserted config client (.ok value) →
    ¬Inserted config other (.ok value')

omit [DecidableEq Client] in
theorem racing_trades (numeric : ∀ value error, server.numeric value = .error error → Foreign error)
    (submits : ∀ client order error, gateway client order = .error error → Foreign error) (client : Client) :
    (trades gateway now request client).Obeys server.engine (fun _ => True) racing client .looking Ends :=
  racing_executeTrade numeric (TradingService.init (gateway client) (now client)) (submits client) (request client)
    .looking (by decide)

/-- A request that commits its own order: the key is new to the committed ones. -/
theorem insertion_commits (numeric : ∀ value error, server.numeric value = .error error → Foreign error)
    (submits : ∀ client order error, gateway client order = .error error → Foreign error)
    (unique : ((db .orders).map Order.idempotencyKey).Nodup)
    (reached : Reachable server.engine (trades gateway now request) db before) {client : Client}
    {session : Session sql Write Resource Order} {value : Order} (opened : before.status client = .running session)
    (returned : session.program = .done (.ok value)) (inserts : Inserts session.issued) :
    (∀ order ∈ before.committed .orders, order.idempotencyKey ≠ (request client).idempotencyKey) ∧
      ∃ order ∈ (server.engine.visible before.committed session.writes) .orders,
        order.idempotencyKey = (request client).idempotencyKey := by
  have raced := (racing_guarantee (trades gateway now request)).upheld (racing_trades numeric submits) trivial reached
  obtain ⟨stage,holds,obeys⟩ := raced.2 client session opened
  rw [returned] at obeys
  have placed : stage = .placed := by
    cases stage with
    | looking => exact absurd inserts (holds.1 rfl)
    | placed => rfl
    | refused => exact absurd rfl obeys
  obtain ⟨state,placing,_⟩ := (trades_kept unique reached).2 client session opened
  obtain ⟨row,own⟩ := List.exists_mem_of_ne_nil _ (holds.2 placed)
  obtain ⟨known,keyed⟩ := ownOrders_named placing.writes row own
  refine ⟨fun order member => (placing.fresh row.id known order member).2,row,?_,keyed⟩
  change row ∈ (session.writes.foldl Database.apply before.committed) .orders
  rw [placing.visible]
  exact List.mem_append_right _ own

theorem decided_step (numeric : ∀ value error, server.numeric value = .error error → Foreign error)
    (submits : ∀ client order error, gateway client order = .error error → Foreign error)
    (unique : ((db .orders).map Order.idempotencyKey).Nodup)
    (reached : Reachable server.engine (trades gateway now request) db before)
    (step : Step server.engine (trades gateway now request) before label after) (decided : Decided request before) :
    Decided request after := by
  have committing {client : Client} {value : Order} (inserted : Inserted after client (.ok value)) :
      Inserted before client (.ok value) ∨
        (label.client = client ∧ (∀ order ∈ before.committed .orders,
          order.idempotencyKey ≠ (request client).idempotencyKey) ∧
          ∃ order ∈ after.committed .orders, order.idempotencyKey = (request client).idempotencyKey) := by
    obtain ⟨issued,ended,inserts⟩ := inserted
    rcases step.ended ended with same | ⟨session,opened,returned,rfl,mine,commits⟩
    · exact Or.inl ⟨issued,same,inserts⟩
    · rw [commits value rfl]
      exact Or.inr ⟨mine,insertion_commits numeric submits unique reached opened returned inserts⟩
  refine ⟨fun client error issued ended => ?_,fun client value inserted => ?_,
    fun client other value value' different same mine theirs => ?_⟩
  · rcases step.ended ended with same | ⟨session,opened,raised,_⟩
    · exact decided.foreign client error issued same
    · have raced := (racing_guarantee (trades gateway now request)).upheld (racing_trades numeric submits) trivial
        reached
      obtain ⟨stage,_,obeys⟩ := raced.2 client session opened
      rw [raised] at obeys
      exact obeys
  · rcases committing inserted with old | ⟨_,_,present⟩
    · obtain ⟨order,member,key⟩ := decided.stored client value old
      exact ⟨order,stored_step unique reached step member,key⟩
    · exact present
  · rcases committing mine with old | ⟨first,fresh,_⟩
    · rcases committing theirs with older | ⟨_,fresh,_⟩
      · exact decided.single client other value value' different same old older
      · obtain ⟨order,member,key⟩ := decided.stored client value old
        exact fresh order member (key.trans same)
    · rcases committing theirs with older | ⟨second,_⟩
      · obtain ⟨order,member,key⟩ := decided.stored other value' older
        exact fresh order member (key.trans same.symm)
      · exact different (first.symm.trans second)

end Requests

/-- Whoever loses the race for a key after sending its insertion ends by an
exception that the API does not answer with 409, so the promised outcome is met
only where nobody gets that far. -/
theorem lost_race_iff {Client : Type} [DecidableEq Client] (server : Server Client)
    (gateway : Client → SubmittedOrder → Except Exception OrderSubmission) (now : Client → Timestamp)
    (request : Client → TradeRequest) (db : Database) (unique : ((db .orders).map Order.idempotencyKey).Nodup)
    (numeric : ∀ value error, server.numeric value = .error error → Foreign error)
    (submits : ∀ client order error, gateway client order = .error error → Foreign error)
    (config : Config sql Client Database Write Resource Order)
    (reached : Reachable server.engine (trades gateway now request) db config)
    (winner : Client) (value : Order) (wins : Inserted config winner (.ok value)) :
    Promised request config winner ↔
      ∀ other, other ≠ winner → (request other).idempotencyKey = (request winner).idempotencyKey →
        ∀ outcome, ¬Inserted config other outcome := by
  have decided : Decided request config := by
    refine (Runs.invariant (fun config => Reachable server.engine (trades gateway now request) db config ∧
      Decided request config) reached ⟨.refl,?_⟩ ?_).2
    · refine ⟨fun _ _ _ ended => (by cases ended),fun _ _ inserted => ?_,fun _ _ _ _ _ _ inserted => ?_⟩
      · obtain ⟨_,ended,_⟩ := inserted
        cases ended
      · obtain ⟨_,ended,_⟩ := inserted
        cases ended
    · rintro before label after ⟨reached,decided⟩ step _
      exact ⟨reached.step step,decided_step numeric submits unique reached step decided⟩
  constructor
  · intro promised other different same outcome inserted
    rcases promised other different same outcome inserted with ⟨order,_,_,rfl⟩ | rfl
    · exact decided.single other winner order value different same inserted wins
    · obtain ⟨issued,ended,_⟩ := inserted
      exact decided.foreign other _ issued ended _ rfl
  · intro nobody other different same outcome inserted
    exact absurd inserted (nobody other different same outcome)

def ending (status : Status sql Write Resource Order) : Option (Except Exception Order × List Order) :=
  match status with
  | .ended outcome issued => some (outcome,issued.filterMap Statement.placed)
  | _ => none

theorem ending_some {status : Status sql Write Resource Order} {outcome : Except Exception Order} {placed : List Order}
    (ended : ending status = some (outcome,placed)) :
    ∃ issued, status = .ended outcome issued ∧ issued.filterMap Statement.placed = placed := by
  cases status with
  | ended _ issued =>
    cases ended
    exact ⟨issued,rfl,rfl⟩
  | _ => cases ended

theorem ending_inserted {Client : Type} {config : Config sql Client Database Write Resource Order} {client : Client}
    {outcome : Except Exception Order} {row : Order} (ended : ending (config.status client) = some (outcome,[row])) :
    Inserted config client outcome := by
  obtain ⟨issued,status,placed⟩ := ending_some ended
  exact ⟨issued,status,inserts_iff.mpr (by simp [placed])⟩

theorem numeric36_foreign {value : ℚ} {error : Exception} (failed : numeric36 value = .error error) : Foreign error := by
  unfold numeric36 at failed
  simp only at failed
  split at failed
  · cases failed
    exact fun key same => (by cases same)
  · cases failed

/-- The second request starts after the first has committed, and replays. -/
theorem lost_race_avoided :
    ∃ config, Transaction.follow sampleServer.engine
        (trades (fun _ _ => .ok sampleOpen) (fun _ => 0) (fun _ => sampleBuy))
        (List.replicate 14 0 ++ List.replicate 3 1) (.initial sample) = some config ∧
      ending (config.status 1) = some (.ok (sampleBuy.order 105),[]) ∧ Promised (fun _ => sampleBuy) config 0 := by
  have scheduled : ((Transaction.follow sampleServer.engine
      (trades (fun _ _ => .ok sampleOpen) (fun _ => 0) (fun _ => sampleBuy))
      (List.replicate 14 0 ++ List.replicate 3 1) (.initial sample)).map fun config =>
        (ending (config.status 0),ending (config.status 1))) =
      some (some (.ok (sampleBuy.order 105),[sampleBuy.order 105]),some (.ok (sampleBuy.order 105),[])) := by
    decide +kernel
  obtain ⟨config,followed,facts⟩ := Option.map_eq_some_iff.mp scheduled
  obtain ⟨first,second⟩ := Prod.mk.inj facts
  refine ⟨config,followed,second,(lost_race_iff sampleServer (fun _ _ => .ok sampleOpen) (fun _ => 0)
    (fun _ => sampleBuy) sample (by decide +kernel) (fun _ _ failed => numeric36_foreign failed)
    (fun _ _ _ failed => by cases failed) config (Transaction.follow_reachable .refl followed) 0 _
    (ending_inserted first)).mpr ?_⟩
  intro other different _ outcome inserted
  obtain rfl : other = 1 := by omega
  obtain ⟨issued,ended,inserts⟩ := inserted
  obtain ⟨sent,status,placed⟩ := ending_some second
  cases status.symm.trans ended
  exact inserts_iff.mp inserts placed

/-- Both requests pass the lookup. The insertion of the second one raises an
IntegrityError, which nobody catches. -/
theorem lost_race_raises :
    ∃ config, Reachable sampleServer.engine
        (trades (fun _ _ => .ok sampleOpen) (fun _ => 0) (fun _ => sampleBuy)) sample config ∧
      Inserted config 0 (.ok (sampleBuy.order 105)) ∧ Inserted config 1 (.error (.integrity "uq_orders")) ∧
      ¬Promised (fun _ => sampleBuy) config 0 := by
  have scheduled : ((Transaction.follow sampleServer.engine
      (trades (fun _ _ => .ok sampleOpen) (fun _ => 0) (fun _ => sampleBuy))
      ([0,1,0,1,0,1] ++ List.replicate 11 0 ++ List.replicate 6 1) (.initial sample)).map fun config =>
        (ending (config.status 0),ending (config.status 1))) =
      some (some (.ok (sampleBuy.order 105),[sampleBuy.order 105]),
        some (.error (.integrity "uq_orders"),[sampleBuy.order 205])) := by
    decide +kernel
  obtain ⟨config,followed,facts⟩ := Option.map_eq_some_iff.mp scheduled
  obtain ⟨first,second⟩ := Prod.mk.inj facts
  have lost := ending_inserted second
  refine ⟨config,Transaction.follow_reachable .refl followed,ending_inserted first,lost,fun promised => ?_⟩
  rcases promised 1 (by decide) rfl _ lost with ⟨order,_,_,same⟩ | same
  · cases same
  · cases same

end CryptoBrokerage
