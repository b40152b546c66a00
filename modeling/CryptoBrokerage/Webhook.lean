import CryptoBrokerage.Settlement
import CryptoBrokerage.TransactionRows

/-! A deposit and the webhook that confirms it. The bank knows the reference
before the deposit has committed, so the lookup of the confirmation can overtake
the commit; it then finds nothing, and returns. -/
namespace CryptoBrokerage
open Transaction (Program Engine Session Status Config Label Step Runs Reachable)

inductive Party
  | depositor
  | webhook
  deriving DecidableEq, Repr

instance : Fintype Party := ⟨{.depositor,.webhook},fun party => by cases party <;> decide⟩

def crossing (request : DepositRequest) (externalTransferId : String) : Party → Movement
  | .depositor => .deposit request
  | .webhook => .confirm externalTransferId

theorem confirmation_completes {row : CryptoBrokerage.Transaction} (unsettled : Unsettled row) :
    ∃ next, confirmation row = .call (.update .transactions row.id { status := some .completed }) next ∧
      ∃ last, next (.ok ()) = .call (.get .transactions row.id) last ∧ ∀ found, last (.ok (some found)) = pure none := by
  have changes : Table.dirty .transactions row { status := some .completed } =
      some { status := some .completed } := by
    rw [Table.dirty_moved unsettled.1,ite_self]
  have sends : confirmation row = BaseRepository.flush .transactions row { status := some .completed } >>= fun _ =>
      BaseRepository.refresh .transactions row.id >>= fun _ => pure none := by
    rw [confirmation,if_neg unsettled.1,if_neg unsettled.2]
    exact Program.bind_assoc _ _ _
  rw [sends,BaseRepository.flush,changes]
  exact ⟨_,rfl,_,rfl,fun _ => rfl⟩

def Closing (row : CryptoBrokerage.Transaction) (status : Status sql Write Resource (Option DepositResult)) : Prop :=
  match status with
  | .running session => (session.writes = [] ∧ session.program = confirmation row) ∨
      (session.writes = [.update .transactions row.id { status := some .completed }] ∧
        (session.program = .done (.ok none) ∨ ∃ last, session.program = .call (.get .transactions row.id) last ∧
          ∀ found, last (.ok (some found)) = pure none))
  | _ => False

def Settling (first rows : List CryptoBrokerage.Transaction)
    (status : Status sql Write Resource (Option DepositResult)) : Prop :=
  match status with
  | .ended (.ok value) _ => ∃ row result, value = some result ∧ rows = first ++ [row] ∧
      (∀ other ∈ first, other.id ≠ row.id) ∧ row.id = result.transactionId ∧ row.status = .processing ∧
      row.referenceId = some result.externalTransferId
  | _ => rows = first

section Steps
variable {server : Server Party} {bank : Party → InitiatedTransfer → Except Exception TransferInitiation}
  {exchange : Party → SubmittedOrder → Except Exception OrderSubmission} {now : Party → Timestamp}
  {request : DepositRequest} {externalTransferId : String} {db : Database}
  {before after : Config sql Party Database Write Resource (Option DepositResult)} {label : Label sql Party}
  {first rows : List CryptoBrokerage.Transaction}

theorem settling_open {status : Status sql Write Resource (Option DepositResult)}
    (uncommitted : status.isCommitted = false) : Settling first rows status ↔ rows = first := by
  cases status with
  | ended outcome issued =>
    cases outcome with
    | ok value => cases uncommitted
    | error error => rfl
  | _ => rfl

/-- A step of the depositor, while the committed rows are those of the deposit
under a change of rows that no new row is subject to. -/
theorem depositor_step
    (reached : Reachable server.engine (movements bank exchange now (crossing request externalTransferId)) db before)
    (step : Step server.engine (movements bank exchange now (crossing request externalTransferId)) before label after)
    (mine : label.client = .depositor) (settling : Settling first rows (before.status .depositor))
    {f : CryptoBrokerage.Transaction → CryptoBrokerage.Transaction} (ids : ∀ row, (f row).id = row.id)
    (unchanged : ∀ row, (∀ other ∈ rows, other.id ≠ row.id) → f row = row)
    (committed : before.committed .transactions = rows.map f) :
    ∃ later, Settling first later (after.status .depositor) ∧ rows ⊆ later ∧
      after.committed .transactions = later.map f := by
  have unended := step.unended
  rw [mine] at unended
  have same : rows = first := (settling_open (Status.uncommitted unended)).mp settling
  by_cases commits : label = .commit .depositor
  · subst commits
    obtain ⟨state,session,value,_,_,ended,holds,concluded,visible⟩ := movements_commit reached step
    obtain ⟨result,rfl,known⟩ := concluded value rfl
    rcases known with rfl | ⟨row,rfl,id,_,_,status,reference,_⟩
    · exact holds.2.elim
    have owned : OwnRow _ row session before.committed := holds.2
    have fresh : ∀ other ∈ rows, other.id ≠ row.id := by
      intro other member same
      refine owned.fresh (f other) ?_ ((ids other).trans same)
      rw [committed]
      exact List.mem_map_of_mem member
    refine ⟨rows ++ [row],?_,List.subset_append_left _ _,?_⟩
    · rw [ended]
      exact ⟨row,result,rfl,by rw [same],by rwa [← same],id,status,reference⟩
    · rw [visible,owned.visible,committed,List.map_append,List.map_singleton,unchanged row fresh]
  · have uncommitted := step.uncommitted (by rwa [mine])
    rw [mine] at uncommitted
    refine ⟨rows,(settling_open uncommitted).mpr same,List.Subset.refl _,?_⟩
    rw [step.kept (by rwa [mine]),committed]

/-- A row that is updated is there when it is read again. -/
theorem updated_rereads (server : Server Party) (turn : Nat) {row : CryptoBrokerage.Transaction}
    (columns : TransactionColumns) {db : Database} (member : row ∈ db .transactions) :
    ∃ again, server.exec .webhook turn (.get .transactions row.id)
      (server.engine.visible db [.update .transactions row.id columns]) = .ok (some again,[]) := by
  have found : ∃ again, (db.modify .transactions row.id columns).find .transactions row.id =
      some again := by
    cases chosen : db.find .transactions row.id with
    | none =>
      have absent := List.find?_eq_none.mp chosen row member
      simp [Table.key] at absent
    | some again => exact ⟨_,by rw [Database.find_modify,chosen]; rfl⟩
  obtain ⟨again,found⟩ := found
  refine ⟨again,?_⟩
  rw [← found]
  rfl

theorem closing_step
    (step : Step server.engine (movements bank exchange now (crossing request externalTransferId)) before label after)
    (mine : label.client = .webhook) {row : CryptoBrokerage.Transaction} (unsettled : Unsettled row)
    (closing : Closing row (before.status .webhook)) (member : row ∈ before.committed .transactions) :
    (Closing row (after.status .webhook) ∧ after.committed = before.committed) ∨
      ((∃ issued, after.status .webhook = .ended (.ok none) issued) ∧
        after.committed .transactions = (before.committed .transactions).map (complete row.id)) := by
  cases opened : before.status .webhook with
  | ready =>
    rw [opened] at closing
    exact closing.elim
  | running session =>
    rw [opened] at closing
    rcases closing with ⟨writes,program⟩ | ⟨writes,program | ⟨last,program,returns⟩⟩
    · obtain ⟨rest,updates,last,rereads,returns⟩ := confirmation_completes unsettled
      obtain ⟨_,running,committed⟩ := step.sends mine.symm opened (program.trans updates)
      refine Or.inl ⟨?_,committed⟩
      rw [running]
      exact Or.inr ⟨congrArg (· ++ [_]) writes,Or.inr ⟨last,rereads,returns⟩⟩
    · obtain ⟨ended,committed⟩ := step.finishes mine.symm opened program
      refine Or.inr ⟨⟨_,ended⟩,?_⟩
      rw [committed]
      change (session.writes.foldl Database.apply before.committed) .transactions = _
      rw [writes]
      exact (spares_nil .transactions).completes row.id before.committed
    · obtain ⟨_,running,committed⟩ := step.sends mine.symm opened program
      obtain ⟨again,found⟩ := updated_rereads server session.issued.length { status := some .completed } member
      rw [← writes] at found
      refine Or.inl ⟨?_,committed⟩
      rw [running,server.engine.proceed_ok last found]
      exact Or.inr ⟨(List.append_nil _).trans writes,Or.inl (returns again)⟩
  | ended outcome issued =>
    rw [opened] at closing
    exact closing.elim

def Passed (first : List CryptoBrokerage.Transaction)
    (config : Config sql Party Database Write Resource (Option DepositResult)) : Prop :=
  Inert (config.status .webhook) ∧ Settling first (config.committed .transactions) (config.status .depositor)

def Confirming (first : List CryptoBrokerage.Transaction) (row : CryptoBrokerage.Transaction)
    (config : Config sql Party Database Write Resource (Option DepositResult)) : Prop :=
  ∃ rows, Settling first rows (config.status .depositor) ∧ row ∈ rows ∧
    ((Closing row (config.status .webhook) ∧ config.committed .transactions = rows) ∨
      ((∃ issued, config.status .webhook = .ended (.ok none) issued) ∧
        config.committed .transactions = rows.map (complete row.id)))

theorem passed_step
    (reached : Reachable server.engine (movements bank exchange now (crossing request externalTransferId)) db before)
    (step : Step server.engine (movements bank exchange now (crossing request externalTransferId)) before label after)
    (passed : Passed first before) : Passed first after := by
  obtain ⟨inert,settling⟩ := passed
  obtain ⟨stays,unchanged⟩ := inert_step step inert
  refine ⟨stays,?_⟩
  cases actor : label.client with
  | depositor =>
    obtain ⟨later,settles,_,committed⟩ := depositor_step reached step actor settling (f := id) (fun _ => rfl)
      (fun _ _ => rfl) (List.map_id _).symm
    rw [committed,List.map_id]
    exact settles
  | webhook =>
    rw [unchanged actor,step.others (by rw [actor]; decide)]
    exact settling

theorem confirming_step
    (reached : Reachable server.engine (movements bank exchange now (crossing request externalTransferId)) db before)
    (step : Step server.engine (movements bank exchange now (crossing request externalTransferId)) before label after)
    {row : CryptoBrokerage.Transaction} (unsettled : Unsettled row) (confirming : Confirming first row before) :
    Confirming first row after := by
  obtain ⟨rows,settling,member,phase⟩ := confirming
  cases actor : label.client with
  | depositor =>
    have waits : after.status .webhook = before.status .webhook := step.others (by rw [actor]; decide)
    rcases phase with ⟨closing,committed⟩ | ⟨ended,committed⟩
    · obtain ⟨later,settles,kept,now⟩ := depositor_step reached step actor settling (f := id) (fun _ => rfl)
        (fun _ _ => rfl) (by rw [committed,List.map_id])
      exact ⟨later,settles,kept member,Or.inl ⟨by rwa [waits],by rw [now,List.map_id]⟩⟩
    · obtain ⟨later,settles,kept,now⟩ := depositor_step reached step actor settling (complete_id row.id)
        (fun other fresh => if_neg (Ne.symm (fresh row member))) committed
      exact ⟨later,settles,kept member,Or.inr ⟨by rwa [waits],now⟩⟩
  | webhook =>
    have waits : after.status .depositor = before.status .depositor := step.others (by rw [actor]; decide)
    rcases phase with ⟨closing,committed⟩ | ⟨⟨issued,ended⟩,_⟩
    · have present : row ∈ before.committed .transactions := by rwa [committed]
      rcases closing_step step actor unsettled closing present with ⟨closing,same⟩ | ⟨ended,completed⟩
      · exact ⟨rows,by rwa [waits],member,Or.inl ⟨closing,by rw [same,committed]⟩⟩
      · exact ⟨rows,by rwa [waits],member,Or.inr ⟨ended,by rw [completed,committed]⟩⟩
    · exact absurd ended (step.alive actor.symm)

def Unsent (status : Status sql Write Resource (Option DepositResult)) : Prop :=
  match status with
  | .ready => True
  | .running session => session.issued = []
  | .ended _ _ => False

/-- Until the webhook sends its lookup only the deposit changes rows. -/
theorem settling_unsent
    (reached : Reachable server.engine (movements bank exchange now (crossing request externalTransferId)) db before)
    (unsent : Unsent (before.status .webhook)) :
    Settling (db .transactions) (before.committed .transactions) (before.status .depositor) := by
  refine (Runs.invariant (fun config => Reachable server.engine
      (movements bank exchange now (crossing request externalTransferId)) db config ∧
    (Unsent (config.status .webhook) → Settling (db .transactions) (config.committed .transactions)
      (config.status .depositor))) reached ⟨.refl,fun _ => rfl⟩ ?_).2 unsent
  rintro before label after ⟨reached,known⟩ step _
  refine ⟨reached.step step,fun unsent => ?_⟩
  cases actor : label.client with
  | depositor =>
    rw [step.others (by rw [actor]; decide)] at unsent
    obtain ⟨later,settles,_,committed⟩ := depositor_step reached step actor (known unsent) (f := id)
      (fun _ => rfl) (fun _ _ => rfl) (List.map_id _).symm
    rw [committed,List.map_id]
    exact settles
  | webhook =>
    rw [step.others (by rw [actor]; decide)]
    cases opened : before.status .webhook with
    | ready =>
      rw [(step.opens actor.symm opened).2]
      exact known (by rw [opened]; trivial)
    | running session =>
      cases program : session.program with
      | call op next =>
        obtain ⟨_,running,_⟩ := step.sends actor.symm opened program
        rw [running] at unsent
        simp [Unsent] at unsent
      | done outcome =>
        rw [(step.finishes actor.symm opened program).1] at unsent
        exact unsent.elim
    | ended outcome issued => exact absurd opened (step.alive actor.symm)

theorem lookup_crosses
    (reached : Reachable server.engine (movements bank exchange now (crossing request externalTransferId)) db before)
    (step : Step server.engine (movements bank exchange now (crossing request externalTransferId)) before
      (.issue .webhook (.selectTransaction externalTransferId)) after) :
    Settling (db .transactions) (before.committed .transactions) (before.status .depositor) ∧
      match server.referred .webhook before.committed externalTransferId with
      | some row => if Unsettled row then Confirming (db .transactions) row after else Passed (db .transactions) after
      | none => Passed (db .transactions) after := by
  have waits : after.status .depositor = before.status .depositor :=
    step.others (show Party.depositor ≠ Party.webhook by decide)
  have confirms : crossing request externalTransferId .webhook = .confirm externalTransferId := rfl
  have inert := lookup_inert reached confirms step
  obtain ⟨first,opening,_,found,looked⟩ := movements_confirm bank exchange now confirms
  cases step with
  | issue _ session _ next opened sent free =>
    obtain rfl : session = ⟨movements bank exchange now (crossing request externalTransferId) .webhook,[],[],[]⟩ := by
      rcases reached.first opening looked opened with fresh | only
      · exact fresh
      · rw [sent] at only
        exact absurd rfl (only.1 externalTransferId)
    have settling := settling_unsent reached (by rw [opened]; exact rfl)
    refine ⟨settling,?_⟩
    rw [opening] at sent
    cases sent
    cases chosen : server.referred .webhook before.committed externalTransferId with
    | none => exact ⟨inert fun row same => (by rw [chosen] at same; cases same),by rw [waits]; exact settling⟩
    | some row =>
      change if Unsettled row then _ else _
      split
      · next unsettled =>
        refine ⟨_,by rw [waits]; exact settling,(Server.referred_some chosen).1,Or.inl ⟨?_,rfl⟩⟩
        change Closing row ((before.set Party.webhook _).status Party.webhook)
        rw [Config.set_self]
        refine Or.inl ⟨rfl,?_⟩
        change first (.ok (server.referred .webhook before.committed externalTransferId)) = confirmation row
        rw [chosen]
        exact found row
      · next settled =>
        refine ⟨inert fun other same => ?_,by rw [waits]; exact settling⟩
        rw [chosen] at same
        cases same
        exact settled

theorem find_appended {first : List CryptoBrokerage.Transaction} {row : CryptoBrokerage.Transaction}
    (fresh : ∀ other ∈ first, other.id ≠ row.id) {db : Database} (rows : db .transactions = first ++ [row]) :
    db.find .transactions row.id = some row := by
  have absent : first.find? (fun other => Table.key .transactions other == row.id) = none := by
    simpa [List.find?_eq_none,Table.key] using fresh
  rw [Database.find,rows,List.find?_append,absent]
  simp [Table.key]

/-- The committed rows when the lookup is sent, by whether the deposit has committed. -/
theorem rows_at_lookup {status : Status sql Write Resource (Option DepositResult)} {result : DepositResult}
    {issued : List Statement} (settling : Settling first rows status)
    (committed : status.isEnded = true → status = .ended (.ok (some result)) issued) :
    (status.isEnded = true → ∃ row, rows = first ++ [row] ∧ (∀ other ∈ first, other.id ≠ row.id) ∧
      row.id = result.transactionId ∧ row.status = .processing ∧ row.referenceId = some result.externalTransferId) ∧
    (status.isEnded = false → rows = first) := by
  refine ⟨fun ended => ?_,fun unended => (settling_open (Status.uncommitted unended)).mp settling⟩
  rw [committed ended] at settling
  obtain ⟨row,_,same,split,fresh,id,processing,reference⟩ := settling
  cases same
  exact ⟨row,split,fresh,id,processing,reference⟩

end Steps

def Answered (result : DepositResult) (answer : Option CryptoBrokerage.Transaction) : Prop :=
  ∃ row, answer = some row ∧ row.id = result.transactionId

/-- Where the deposit stands once both have ended: completed if the lookup was late and
has returned its row, and otherwise left in processing. -/
def Arrives (first last : Database) (result : DepositResult) (late : Prop)
    (answer : Option CryptoBrokerage.Transaction) : Prop :=
  (late → (∀ older ∈ first .transactions, older.referenceId ≠ some result.externalTransferId) →
    Answered result answer) ∧
  ∃ row, last.find .transactions result.transactionId = some row ∧
    row.referenceId = some result.externalTransferId ∧
    (row.status = .completed ↔ late ∧ Answered result answer) ∧
    (row.status ≠ .completed → row.status = .processing) ∧
    (answer = none → last .transactions = first .transactions ++ [row])

section Ends
variable {first : Database} {config : Config sql Party Database Write Resource (Option DepositResult)}
  {result : DepositResult} {issued confirmed : List Statement} {outcome : Except Exception (Option DepositResult)}
  {late : Prop} {answer : Option CryptoBrokerage.Transaction}

theorem passed_arrives (passed : Passed (first .transactions) config)
    (deposited : config.status .depositor = .ended (.ok (some result)) issued)
    (ended : config.status .webhook = .ended outcome confirmed)
    (alone : late → (∀ older ∈ first .transactions, older.referenceId ≠ some result.externalTransferId) →
      Answered result answer) (foreign : ¬(late ∧ Answered result answer)) :
    outcome = .ok none ∧ Arrives first config.committed result late answer := by
  obtain ⟨inert,settling⟩ := passed
  rw [ended] at inert
  rw [deposited] at settling
  obtain ⟨row,_,same,split,fresh,id,processing,reference⟩ := settling
  cases same
  refine ⟨inert,alone,row,by rw [← id]; exact find_appended fresh split,reference,?_,fun _ => processing,fun _ => split⟩
  rw [processing]
  exact iff_of_false (by decide) foreign

theorem confirming_arrives {found : CryptoBrokerage.Transaction}
    (confirming : Confirming (first .transactions) found config)
    (deposited : config.status .depositor = .ended (.ok (some result)) issued)
    (ended : config.status .webhook = .ended outcome confirmed)
    (alone : late → (∀ older ∈ first .transactions, older.referenceId ≠ some result.externalTransferId) →
      found.id = result.transactionId)
    (older : ¬late → found ∈ first .transactions) :
    outcome = .ok none ∧ Arrives first config.committed result late (some found) := by
  obtain ⟨rows,settling,_,⟨closing,_⟩ | ⟨⟨issued',returned⟩,committed⟩⟩ := confirming
  · rw [ended] at closing
    exact closing.elim
  obtain ⟨same,_⟩ := Status.ended.inj (ended.symm.trans returned)
  rw [deposited] at settling
  obtain ⟨row,_,equal,split,fresh,id,processing,reference⟩ := settling
  cases equal
  have mapped : config.committed .transactions =
      (first .transactions).map (complete found.id) ++ [complete found.id row] := by
    rw [committed,split,List.map_append,List.map_singleton]
  have located : config.committed.find .transactions result.transactionId = some (complete found.id row) := by
    rw [← id,← complete_id found.id row]
    refine find_appended (fun other member => ?_) mapped
    obtain ⟨older,inside,rfl⟩ := List.mem_map.mp member
    rw [complete_id,complete_id]
    exact fresh older inside
  refine ⟨same,fun after new => ⟨found,rfl,alone after new⟩,_,located,by rw [complete_referenceId,reference],?_,
    fun unfinished => ?_,fun none => (by cases none)⟩
  · by_cases deposit : found.id = result.transactionId
    · have after : late := by
        by_contra early
        exact fresh found (older early) (deposit.trans id.symm)
      refine iff_of_true ?_ ⟨after,found,rfl,deposit⟩
      rw [complete,if_pos (id.trans deposit.symm)]
    · refine iff_of_false ?_ ?_
      · rw [complete,if_neg (fun equal => deposit (equal.symm.trans id)),processing]
        decide
      · rintro ⟨_,other,chosen,named⟩
        cases chosen
        exact deposit named
  · rcases complete_status found.id row with completed | unchanged
    · exact absurd completed unfinished
    · rw [unchanged,processing]

end Ends

/-- The webhook never raises. Once it and the deposit have ended, the deposit is
COMPLETED exactly when the lookup came after the commit and returned the row of the
deposit; otherwise it is PROCESSING, and a webhook that has found nothing has
changed nothing. -/
theorem confirmation_arrives_iff (server : Server Party)
    (bank : Party → InitiatedTransfer → Except Exception TransferInitiation)
    (exchange : Party → SubmittedOrder → Except Exception OrderSubmission) (now : Party → Timestamp)
    (request : DepositRequest) (externalTransferId : String) (db : Database)
    (before after final : Config sql Party Database Write Resource (Option DepositResult))
    (reached : Reachable server.engine (movements bank exchange now (crossing request externalTransferId)) db before)
    (lookup : Step server.engine (movements bank exchange now (crossing request externalTransferId)) before
      (.issue .webhook (.selectTransaction externalTransferId)) after)
    (runs : Runs server.engine (movements bank exchange now (crossing request externalTransferId)) (fun _ _ => True)
      after final)
    (result : DepositResult) (issued : List Statement)
    (deposited : final.status .depositor = .ended (.ok (some result)) issued)
    (reference : result.externalTransferId = externalTransferId)
    (outcome : Except Exception (Option DepositResult)) (confirmed : List Statement)
    (ended : final.status .webhook = .ended outcome confirmed) :
    outcome = .ok none ∧ Arrives db final.committed result ((before.status .depositor).isEnded = true)
      (server.referred .webhook before.committed externalTransferId) := by
  obtain ⟨settling,crosses⟩ := lookup_crosses reached lookup
  have stays (stopped : (before.status .depositor).isEnded = true) :
      before.status .depositor = .ended (.ok (some result)) issued := by
    have whole := Relation.ReflTransGen.head ⟨_,lookup,trivial⟩ runs
    rw [← Transaction.Runs.stays whole stopped]
    exact deposited
  obtain ⟨late,early⟩ := rows_at_lookup settling stays
  have afterwards := reached.step lookup
  subst reference
  have passes (passed : Passed (db .transactions) after) : Passed (db .transactions) final :=
    (Runs.invariant (fun config => Reachable server.engine (movements bank exchange now
      (crossing request result.externalTransferId)) db config ∧ Passed (db .transactions) config) runs
      ⟨afterwards,passed⟩ fun _ _ _ known step _ => ⟨known.1.step step,passed_step known.1 step known.2⟩).2
  have alone (stopped : (before.status .depositor).isEnded = true)
      (new : ∀ older ∈ db .transactions, older.referenceId ≠ some result.externalTransferId) :
      Answered result (server.referred .webhook before.committed result.externalTransferId) := by
    obtain ⟨row,split,_,id,_,carries⟩ := late stopped
    refine ⟨row,Server.referred_only (by rw [split]; simp) carries fun other member named => ?_,id⟩
    rw [split] at member
    rcases List.mem_append.mp member with older | last
    · exact absurd named (new other older)
    · exact List.mem_singleton.mp last
  cases chosen : server.referred .webhook before.committed result.externalTransferId with
  | none =>
    rw [chosen] at crosses alone
    refine passed_arrives (passes crosses) deposited ended alone ?_
    rintro ⟨_,_,impossible,_⟩
    cases impossible
  | some found =>
    rw [chosen] at crosses alone
    change if Unsettled found then _ else _ at crosses
    have member := (Server.referred_some chosen).1
    split at crosses
    · next unsettled =>
      have confirming := (Runs.invariant (fun config => Reachable server.engine (movements bank exchange now
        (crossing request result.externalTransferId)) db config ∧ Confirming (db .transactions) found config) runs
        ⟨afterwards,crosses⟩ fun _ _ _ known step _ =>
          ⟨known.1.step step,confirming_step known.1 step unsettled known.2⟩).2
      refine confirming_arrives confirming deposited ended (fun stopped new => ?_) fun running => ?_
      · obtain ⟨row,same,id⟩ := alone stopped new
        cases same
        exact id
      · rwa [early (by simpa using running)] at member
    · next settled =>
      refine passed_arrives (passes crosses) deposited ended alone ?_
      rintro ⟨stopped,_,same,deposit⟩
      cases same
      obtain ⟨row,split,fresh,id,processing,_⟩ := late stopped
      rw [split] at member
      rcases List.mem_append.mp member with older | last
      · exact fresh found older (deposit.trans id.symm)
      · rw [List.mem_singleton.mp last] at settled
        exact settled ⟨by simp [processing],by simp [processing]⟩

def depositResult (status : Status sql Write Resource (Option DepositResult)) : Option DepositResult :=
  match status with
  | .ended (.ok (some result)) _ => some result
  | _ => none

theorem depositResult_some {status : Status sql Write Resource (Option DepositResult)} {result : DepositResult}
    (known : depositResult status = some result) : ∃ issued, status = .ended (.ok (some result)) issued := by
  unfold depositResult at known
  split at known
  · next issued =>
    cases known
    exact ⟨issued,rfl⟩
  · cases known

def sampleParties : Server Party :=
  { uuid4 := fun party turn => BitVec.ofNat 128 ((if party = .depositor then 100 else 200) + turn)
    now := fun _ => 0
    numeric := numeric36 }

def sampleCrossing : Party → Action (Option DepositResult) :=
  movements (fun _ _ => .ok sampleTransfer) (fun _ _ => .ok sampleOpen) (fun _ => 0) (crossing sampleDeposit "t1")

/-- A webhook whose lookup comes after the commit. -/
theorem confirmation_arrives_late :
    ∃ config, Transaction.Reachable sampleParties.engine sampleCrossing sampleBank config ∧
      ∃ row, config.committed.find .transactions 102 = some row ∧ row.status = .completed := by
  have scheduled : ((Transaction.follow sampleParties.engine sampleCrossing
      (List.replicate 10 .depositor ++ [.webhook]) (.initial sampleBank)).bind fun before =>
        (Transaction.advance sampleParties.engine sampleCrossing before .webhook).bind fun after =>
          (Transaction.follow sampleParties.engine sampleCrossing (List.replicate 3 .webhook) after).map
            fun config => ((before.status .depositor).isEnded,
              (after.history.drop before.history.length).map fun sent => sent.2.lookup,
              depositResult (config.status .depositor),(config.status .webhook).isEnded)) =
      some (true,[some "t1"],some ⟨102,"t1",.processing⟩,true) := by
    decide +kernel
  obtain ⟨before,followed,moves⟩ := Option.bind_eq_some_iff.mp scheduled
  obtain ⟨after,moved,ends⟩ := Option.bind_eq_some_iff.mp moves
  obtain ⟨config,finished,facts⟩ := Option.map_eq_some_iff.mp ends
  simp only [Prod.mk.injEq] at facts
  obtain ⟨committed,sent,deposited,ended⟩ := facts
  obtain ⟨op,lookup,history⟩ := Transaction.advance_issue moved fun same => by
    rw [same] at sent
    simp at sent
  obtain rfl : op = .selectTransaction "t1" := by
    rw [history] at sent
    cases op <;> simp [Statement.lookup] at sent
    rw [sent]
  obtain ⟨issued,deposited⟩ := depositResult_some deposited
  obtain ⟨outcome,confirmed,ended⟩ := Status.isEnded_iff.mp ended
  have reached := Transaction.follow_reachable .refl followed
  have runs := Transaction.follow_runs finished
  obtain ⟨_,alone,row,found,_,completed,_⟩ := confirmation_arrives_iff sampleParties (fun _ _ => .ok sampleTransfer)
    (fun _ _ => .ok sampleOpen) (fun _ => 0) sampleDeposit "t1" sampleBank before after config reached lookup runs
    ⟨102,"t1",.processing⟩ issued deposited rfl outcome confirmed ended
  exact ⟨config,.trans (reached.step lookup) runs,row,found,
    completed.mpr ⟨committed,alone committed fun older member => by cases member⟩⟩

def called (history : List (Party × Statement)) : Bool :=
  (history.all fun sent => sent.1 == .depositor) && (history.getLast?.any fun sent => sent.2.transfer.isSome)

/-- The webhook starts after the bank has answered with "t1" and ends before the
deposit commits: it returns, and the deposit is not COMPLETED. -/
theorem confirmation_lost :
    ∃ middle config, Transaction.Reachable sampleParties.engine sampleCrossing sampleBank middle ∧
      called middle.history = true ∧ Runs sampleParties.engine sampleCrossing (fun _ _ => True) middle config ∧
      depositResult (config.status .depositor) = some ⟨102,"t1",.processing⟩ ∧
      (config.status .webhook).isCommitted = true ∧
      (config.committed.find .transactions 102).map CryptoBrokerage.Transaction.status = some .processing := by
  have scheduled : ((Transaction.follow sampleParties.engine sampleCrossing (List.replicate 7 .depositor)
      (.initial sampleBank)).bind fun middle => (Transaction.follow sampleParties.engine sampleCrossing
        (List.replicate 3 .webhook ++ List.replicate 3 .depositor) middle).map fun config =>
          (called middle.history,depositResult (config.status .depositor),(config.status .webhook).isCommitted,
            (config.committed.find .transactions 102).map CryptoBrokerage.Transaction.status)) =
      some (true,some ⟨102,"t1",.processing⟩,true,some .processing) := by
    decide +kernel
  obtain ⟨middle,followed,later⟩ := Option.bind_eq_some_iff.mp scheduled
  obtain ⟨config,finished,facts⟩ := Option.map_eq_some_iff.mp later
  simp only [Prod.mk.injEq] at facts
  exact ⟨middle,config,Transaction.follow_reachable .refl followed,facts.1,Transaction.follow_runs finished,facts.2⟩

end CryptoBrokerage
