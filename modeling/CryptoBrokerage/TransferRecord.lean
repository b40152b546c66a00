import CryptoBrokerage.BankingService
import CryptoBrokerage.RepositoryFaults

/-! Whether a deposit that has called the bank leaves a record. The PENDING row
is flushed before the call but committed after it, and the row that the handler
marks FAILED is rolled back by the exception that it raises again. -/
namespace CryptoBrokerage
open Transaction (Program Engine View Fault)

theorem transfer_called {issued : List Statement} {transfer : InitiatedTransfer}
    (member : transfer ∈ issued.filterMap Statement.transfer) : .initiateTransfer transfer ∈ issued := by
  obtain ⟨op,sent,called⟩ := List.mem_filterMap.mp member
  cases op <;> cases called
  exact sent

section Deposits
variable {Client : Type} {server : Server Client} {faults : Nat → Option (Fault Exception)} {client : Client}
  {gateway : InitiatedTransfer → Except Exception TransferInitiation} {request : DepositRequest} {db : Database}
  {view last : View sql Database}

theorem endure_source_ok {bankAccount : BankAccount}
    (ran : server.engine.endure faults client request.source view = (some (.ok bankAccount),last)) :
    last.db = view.db ∧ last.issued.length = view.issued.length + 2 := by
  obtain ⟨found,middle,read,ran⟩ := Engine.endure_bind_ok ran
  obtain ⟨_,_,rfl⟩ := endure_read_ok rfl read
  cases found with
  | none => cases ran
  | some other =>
    change server.engine.endure faults client (if _ then _ else _) _ = _ at ran
    split at ran
    · cases ran
    · obtain ⟨account,middle,select,ran⟩ := Engine.endure_bind_ok ran
      obtain ⟨_,_,rfl⟩ := endure_read_ok rfl select
      cases account with
      | none => cases ran
      | some account =>
        cases ran
        exact ⟨rfl,by simp⟩

theorem endure_initiate_ok {bankAccount : BankAccount} {transaction : CryptoBrokerage.Transaction}
    {result : DepositResult} (pending : transaction.status = .pending)
    (ran : server.engine.endure faults client (BankingService.initiate gateway request bankAccount transaction)
      view = (some (.ok result),last)) :
    (∃ answer, gateway (request.transfer bankAccount transaction.id) = .ok answer) ∧
      faults view.issued.length = none ∧ faults (view.issued.length + 1) = none ∧
      faults (view.issued.length + 2) = none := by
  obtain ⟨answer,middle,called,ran⟩ := Engine.endure_bind_ok ran
  obtain ⟨_,sent,call,answered⟩ := Engine.endure_bind_ok called
  obtain ⟨quiet,_,rfl⟩ := endure_read_ok rfl call
  obtain ⟨outcome,rfl⟩ := Prod.mk.inj answered
  obtain ⟨_,_,updated,_⟩ := Engine.endure_bind_ok ran
  obtain ⟨first,second⟩ := endure_updateStatus_ok (by simp [pending]) updated
  exact ⟨⟨answer,Option.some.inj outcome⟩,quiet,by simpa using first,by simpa using second⟩

variable (server client) in
theorem endure_initiate {bankAccount : BankAccount} {transaction : CryptoBrokerage.Transaction}
    {answer : TransferInitiation} (pending : transaction.status = .pending)
    (found : view.db.find .transactions transaction.id = some transaction)
    (answered : gateway (request.transfer bankAccount transaction.id) = .ok answer)
    (quiet : ∀ turn, view.issued.length ≤ turn → turn ≤ view.issued.length + 2 → faults turn = none) :
    ∃ result row last, server.engine.endure faults client
        (BankingService.initiate gateway request bankAccount transaction) view = (some (.ok result),last) ∧
      last.db.find .transactions transaction.id = some row ∧ row.userId = transaction.userId ∧
      row.transactionType = transaction.transactionType ∧ row.status = .processing ∧
      last.issued.length = view.issued.length + 3 := by
  let sent : View sql Database :=
    ⟨view.db,view.issued ++ [.initiateTransfer (request.transfer bankAccount transaction.id)]⟩
  have called : server.engine.endure faults client
      (BankingService.initiateTransfer gateway (request.transfer bankAccount transaction.id)) view =
        (some (.ok answer),sent) := by
    rw [BankingService.initiateTransfer,Engine.endure_bind,endure_read (quiet _ (by omega) (by omega)) rfl,answered]
    rfl
  have length : sent.issued.length = view.issued.length + 1 := by simp [sent]
  have later : faults sent.issued.length = none ∧ faults (sent.issued.length + 1) = none := by
    rw [length]
    exact ⟨quiet _ (by omega) (by omega),quiet _ (by omega) (by omega)⟩
  have moved : transaction.status ≠ .processing := by simp [pending]
  have kept : sent.db.find .transactions transaction.id = some transaction := found
  obtain ⟨row,last,updated,stored,user,kind,status,ended⟩ :=
    endure_updateStatus server faults client (some answer.externalTransferId) moved kept later
  refine ⟨⟨row.id,answer.externalTransferId,row.status⟩,row,last,?_,stored,user,kind,status,by omega⟩
  exact (Engine.endure_returned called _).trans (Engine.endure_returned updated _)

variable (gateway) in
/-- Once its row is flushed a deposit returns if what it tries returns. -/
theorem endure_depositFunds {bankAccount : BankAccount} {transaction : CryptoBrokerage.Transaction}
    {sourced created : View sql Database}
    (checked : server.engine.endure faults client request.source view = (some (.ok bankAccount),sourced))
    (flushed : server.engine.endure faults client (TransactionRepository.create request.userId .deposit none)
      sourced = (some (.ok transaction),created)) (result : DepositResult) (last : View sql Database) :
    server.engine.endure faults client (BankingService.depositFunds gateway request) view =
        (some (.ok result),last) ↔
      server.engine.endure faults client (BankingService.initiate gateway request bankAccount transaction) created =
        (some (.ok result),last) := by
  unfold BankingService.depositFunds
  rw [Engine.endure_returned checked,Engine.endure_returned flushed,Engine.endure_bind,Engine.endure_attempt]
  rcases server.engine.endure faults client (BankingService.initiate gateway request bankAccount transaction)
    created with ⟨_ | error | value,middle⟩
  · exact iff_of_false (fun same => (by cases same)) (fun same => (by cases same))
  · refine iff_of_false (fun same => ?_) (fun same => (by cases same))
    -- the exception is raised again, and get_db rolls the row back
    exact Engine.endure_raise same
  · exact Iff.rfl

/-- A deposit that has called the bank has passed its checks and flushed its row. -/
theorem endure_invoked {transfer : InitiatedTransfer}
    (invoked : .initiateTransfer transfer ∈
      (server.engine.survive faults client (BankingService.depositFunds gateway request) db).issued) :
    ∃ bankAccount transaction sourced created,
      server.engine.endure faults client request.source ⟨db,[]⟩ = (some (.ok bankAccount),sourced) ∧
      server.engine.endure faults client (TransactionRepository.create request.userId .deposit none) sourced =
        (some (.ok transaction),created) ∧ transfer = request.transfer bankAccount transaction.id := by
  rw [Engine.survive_issued] at invoked
  have reads : ∀ op, Reads op → op ≠ .initiateTransfer transfer := by
    rintro op read rfl
    exact read
  obtain ⟨bankAccount,sourced,checked,unsent,invoked⟩ :=
    Engine.endure_bind_sent (source_only reads request) (by simp) invoked
  obtain ⟨transaction,created,flushed,unsent,invoked⟩ :=
    Engine.endure_bind_sent (add_only reads fun _ => by simp) unsent invoked
  refine ⟨bankAccount,transaction,sourced,created,checked,flushed,?_⟩
  by_contra other
  have called : (BankingService.initiateTransfer gateway (request.transfer bankAccount transaction.id)).Only
      (· ≠ Statement.initiateTransfer transfer) := ⟨by simp [Ne.symm other],fun reply => (by cases reply <;> trivial)⟩
  have tried : (BankingService.initiate gateway request bankAccount transaction).Only
      (· ≠ Statement.initiateTransfer transfer) := Program.Only.bind called fun answer =>
    Program.Only.bind (update_only reads fun _ => by simp) fun _ => trivial
  refine unsent (Engine.endure_unsent (Program.Only.bind tried.attempt fun outcome => ?_) invoked)
  cases outcome with
  | ok result => trivial
  | error error => exact Program.Only.bind (update_only reads fun _ => by simp) fun _ => trivial

/-- What the call of the bank, the sixth statement of a deposit, returned or raised. -/
def answered (faults : Nat → Option (Fault Exception))
    (gateway : InitiatedTransfer → Except Exception TransferInitiation) (transfer : InitiatedTransfer) :
    Except Exception TransferInitiation :=
  match faults 5 with
  | some (.raises error) => .error error
  | _ => gateway transfer

def Recorded (request : DepositRequest) (answer : Except Exception TransferInitiation) (id : Uuid)
    (db : Database) : Prop :=
  ∃ row ∈ db .transactions, row.id = id ∧ row.userId = request.userId ∧ row.transactionType = .deposit ∧
    match answer with
    | .ok _ => row.status = .pending ∨ row.status = .processing
    | .error _ => row.status = .failed

/-- A deposit that has called the bank leaves its record exactly when the bank
accepted the transfer and no later step failed: the turns are the call itself,
the flush and the refresh of PROCESSING, and the commit. -/
theorem transfer_recorded_iff (server : Server Client) (client : Client)
    (gateway : InitiatedTransfer → Except Exception TransferInitiation) (request : DepositRequest)
    (faults : Nat → Option (Fault Exception)) (db : Database) (transfer : InitiatedTransfer)
    (invoked : .initiateTransfer transfer ∈
      (server.engine.survive faults client (BankingService.depositFunds gateway request) db).issued) :
    Recorded request (answered faults gateway transfer) (server.uuid4 client 2)
        (server.engine.survive faults client (BankingService.depositFunds gateway request) db).after ↔
      (∃ answer, gateway transfer = .ok answer) ∧ ∀ turn, 5 ≤ turn → turn ≤ 8 → faults turn = none := by
  obtain ⟨bankAccount,transaction,sourced,created,checked,flushed,rfl⟩ := endure_invoked invoked
  obtain ⟨same,first⟩ := endure_source_ok checked
  obtain ⟨row,fresh,inserted,second⟩ := endure_create_ok flushed
  have turn : created.issued.length = 5 := by rw [second,first]; rfl
  have id : transaction.id = server.uuid4 client 2 := by rw [row,first]; rfl
  have pending : transaction.status = .pending := by rw [row]
  have returns := endure_depositFunds gateway checked flushed
  have absent (answer : Except Exception TransferInitiation) : ¬Recorded request answer (server.uuid4 client 2) db := by
    rintro ⟨old,member,key,_⟩
    have taken : sourced.db.has .transactions transaction.id = true :=
      Database.has_iff.mpr ⟨old,by rw [same]; exact member,key.trans id.symm⟩
    rw [fresh] at taken
    cases taken
  have found : created.db.find .transactions transaction.id = some transaction := by
    rw [inserted]
    exact Database.find_insert fresh
  have completes (answer : TransferInitiation)
      (accepted : gateway (request.transfer bankAccount transaction.id) = .ok answer)
      (quiet : ∀ turn, 5 ≤ turn → turn ≤ 7 → faults turn = none) :
      ∃ result stored last, server.engine.endure faults client (BankingService.depositFunds gateway request) ⟨db,[]⟩ =
          (some (.ok result),last) ∧ last.issued.length = 8 ∧
        last.db.find .transactions transaction.id = some stored ∧ stored.userId = request.userId ∧
        stored.transactionType = .deposit ∧ stored.status = .processing := by
    obtain ⟨result,stored,last,tried,kept,user,kind,status,length⟩ :=
      endure_initiate server client pending found accepted (by rw [turn]; exact quiet)
    exact ⟨result,stored,last,(returns result last).mpr tried,by rw [length,turn],kept,by rw [user,row],by rw [kind,row],
      status⟩
  constructor
  · intro recorded
    rcases server.engine.survive_after faults client (BankingService.depositFunds gateway request) db with
      ⟨result,last,ran,quiet,_⟩ | ⟨_,unchanged⟩
    · obtain ⟨⟨answer,accepted⟩,first,second,third⟩ := endure_initiate_ok pending ((returns result last).mp ran)
      rw [turn] at first second third
      have early : ∀ turn, 5 ≤ turn → turn ≤ 7 → faults turn = none := by
        intro turn low high
        obtain rfl | rfl | rfl : turn = 5 ∨ turn = 6 ∨ turn = 7 := by omega
        · exact first
        · exact second
        · exact third
      obtain ⟨_,_,_,again,length,_⟩ := completes answer accepted early
      obtain ⟨_,rfl⟩ := Prod.mk.inj (ran.symm.trans again)
      rw [length] at quiet
      refine ⟨⟨answer,accepted⟩,fun turn low high => ?_⟩
      obtain rfl | below : turn = 8 ∨ turn ≤ 7 := by omega
      · exact quiet
      · exact early turn low below
    · rw [unchanged] at recorded
      exact absurd recorded (absent _)
  · rintro ⟨⟨answer,accepted⟩,quiet⟩
    obtain ⟨result,stored,last,ran,length,kept,user,kind,status⟩ :=
      completes answer accepted fun turn low high => quiet turn low (by omega)
    have commits : (server.engine.survive faults client (BankingService.depositFunds gateway request) db).after =
        last.db := by
      rw [Engine.survive,ran,Engine.conclude,length,quiet 8 (by omega) le_rfl]
    obtain ⟨member,key⟩ := Database.find_some kept
    rw [commits,answered,quiet 5 le_rfl (by omega)]
    refine ⟨stored,member,key.trans id,user,kind,?_⟩
    rw [accepted]
    exact Or.inr status

end Deposits

/-- A deposit that the bank accepts, without a fault. -/
theorem transfer_recorded_accepted :
    Recorded sampleDeposit (.ok sampleTransfer) 102 (sampleServer.engine.survive (fun _ => none) 0
      (BankingService.depositFunds (fun _ => .ok sampleTransfer) sampleDeposit) sampleBank).after := by
  have sent : (sampleServer.engine.survive (fun _ => none) 0
      (BankingService.depositFunds (fun _ => .ok sampleTransfer) sampleDeposit) sampleBank).issued.filterMap
        Statement.transfer = [sampleDeposit.transfer ⟨51,1,"ana@bank","Bank",.active⟩ 102] := by
    decide +kernel
  have invoked := transfer_called (by rw [sent]; exact List.mem_singleton_self _)
  exact (transfer_recorded_iff sampleServer 0 (fun _ => .ok sampleTransfer) sampleDeposit (fun _ => none) sampleBank _
    invoked).mpr ⟨⟨sampleTransfer,rfl⟩,fun _ _ _ => rfl⟩

/-- The bank times out. The row that the handler marked FAILED is rolled back. -/
theorem transfer_unrecorded :
    .initiateTransfer (sampleDeposit.transfer ⟨51,1,"ana@bank","Bank",.active⟩ 102) ∈
        (sampleServer.engine.survive (fun _ => none) 0 (BankingService.depositFunds
          (fun _ => .error (.externalGateway "bank" "timeout")) sampleDeposit) sampleBank).issued ∧
      ¬Recorded sampleDeposit (.error (.externalGateway "bank" "timeout")) 102
        (sampleServer.engine.survive (fun _ => none) 0 (BankingService.depositFunds
          (fun _ => .error (.externalGateway "bank" "timeout")) sampleDeposit) sampleBank).after := by
  have sent : (sampleServer.engine.survive (fun _ => none) 0 (BankingService.depositFunds
      (fun _ => .error (.externalGateway "bank" "timeout")) sampleDeposit) sampleBank).issued.filterMap
        Statement.transfer = [sampleDeposit.transfer ⟨51,1,"ana@bank","Bank",.active⟩ 102] := by
    decide +kernel
  have empty : (sampleServer.engine.survive (fun _ => none) 0 (BankingService.depositFunds
      (fun _ => .error (.externalGateway "bank" "timeout")) sampleDeposit) sampleBank).after .transactions = [] := by
    decide +kernel
  refine ⟨transfer_called (by rw [sent]; exact List.mem_singleton_self _),?_⟩
  rintro ⟨row,member,_⟩
  rw [empty] at member
  cases member

end CryptoBrokerage
