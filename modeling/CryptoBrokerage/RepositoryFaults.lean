import CryptoBrokerage.Repositories
import CryptoBrokerage.Transaction.Fault

/-! What the repositories do while statements fail: the turns at which nothing may
go wrong for a call to return, and what it has written then. -/
namespace CryptoBrokerage
open Transaction (Program Engine View Fault)

variable {Client : Type} {server : Server Client} {faults : Nat → Option (Fault Exception)} {client : Client}
  {view last : View sql Database}

theorem endure_send_ok {statement : Statement} {reply : statement.Reply}
    (ran : server.engine.endure faults client (send statement) view = (some (.ok reply),last)) :
    faults view.issued.length = none ∧
      ∃ writes, server.exec client view.issued.length statement view.db = .ok (reply,writes) ∧
        last = ⟨writes.foldl Database.apply view.db,view.issued ++ [statement]⟩ := by
  obtain ⟨quiet,issued⟩ := Engine.endure_perform_ok ran
  exact ⟨quiet,Engine.run_perform_ok _ issued⟩

theorem endure_read {statement : Statement} {answer : statement.Reply} (quiet : faults view.issued.length = none)
    (pure : server.exec client view.issued.length statement view.db = .ok (answer,[])) :
    server.engine.endure faults client (send statement) view =
      (some (.ok answer),⟨view.db,view.issued ++ [statement]⟩) := by
  rw [Engine.endure_perform quiet,Engine.issue_ok _ pure]
  rfl

theorem endure_read_ok {statement : Statement} {reply answer : statement.Reply}
    (pure : server.exec client view.issued.length statement view.db = .ok (answer,[]))
    (ran : server.engine.endure faults client (send statement) view = (some (.ok reply),last)) :
    faults view.issued.length = none ∧ reply = answer ∧ last = ⟨view.db,view.issued ++ [statement]⟩ := by
  have quiet := (endure_send_ok ran).1
  rw [endure_read quiet pure] at ran
  cases ran
  exact ⟨quiet,rfl,rfl⟩

theorem endure_refresh_ok {t : Table} {id : Uuid} {row : t.Row}
    (ran : server.engine.endure faults client (BaseRepository.refresh t id) view = (some (.ok row),last)) :
    faults view.issued.length = none ∧ view.db.find t id = some row ∧
      last = ⟨view.db,view.issued ++ [.get t id]⟩ := by
  obtain ⟨reply,middle,read,rest⟩ := Engine.endure_bind_ok ran
  obtain ⟨quiet,rfl,rfl⟩ := endure_read_ok rfl read
  cases found : view.db.find t id with
  | none =>
    rw [found] at rest
    cases rest
  | some other =>
    rw [found] at rest
    cases rest
    exact ⟨quiet,rfl,rfl⟩

theorem endure_refresh {t : Table} {id : Uuid} {row : t.Row} (quiet : faults view.issued.length = none)
    (found : view.db.find t id = some row) :
    server.engine.endure faults client (BaseRepository.refresh t id) view =
      (some (.ok row),⟨view.db,view.issued ++ [.get t id]⟩) := by
  change server.engine.endure faults client (send (.get t id) >>= fun reply => _) view = _
  rw [Engine.endure_bind,endure_read quiet rfl,found]
  rfl

theorem endure_create_ok {userId : Uuid} {transactionType : TransactionType} {referenceId : Option String}
    {row : CryptoBrokerage.Transaction}
    (ran : server.engine.endure faults client (TransactionRepository.create userId transactionType referenceId)
      view = (some (.ok row),last)) :
    row = ⟨server.uuid4 client view.issued.length,userId,transactionType,.pending,referenceId,server.now client⟩ ∧
      view.db.has .transactions row.id = false ∧ last.db = view.db.insert .transactions row ∧
      last.issued.length = view.issued.length + 3 := by
  obtain ⟨id,drawn,draw,ran⟩ := Engine.endure_bind_ok ran
  obtain ⟨_,rfl,rfl⟩ := endure_read_ok rfl draw
  obtain ⟨_,written,insertion,ran⟩ := Engine.endure_bind_ok ran
  obtain ⟨_,writes,answered,rfl⟩ := endure_send_ok insertion
  obtain ⟨stored,kept,valid,rfl⟩ := Server.exec_writes answered
  cases kept
  have fresh := (Database.violated_none valid).1
  obtain ⟨_,found,rfl⟩ := endure_refresh_ok ran
  have same := Database.find_insert fresh
  refine ⟨Option.some.inj (found.symm.trans same),?_,?_,by simp⟩
  · rw [Option.some.inj (found.symm.trans same)]
    exact fresh
  · rw [Option.some.inj (found.symm.trans same)]
    rfl

theorem endure_updateStatus_ok {transaction row : CryptoBrokerage.Transaction} {status : TransactionStatus}
    {referenceId : Option String} (different : transaction.status ≠ status)
    (ran : server.engine.endure faults client (TransactionRepository.updateStatus transaction status referenceId)
      view = (some (.ok row),last)) :
    faults view.issued.length = none ∧ faults (view.issued.length + 1) = none := by
  obtain ⟨_,middle,flush,ran⟩ := Engine.endure_bind_ok ran
  rw [BaseRepository.flush,Table.dirty_moved different] at flush
  obtain ⟨quiet,writes,_,rfl⟩ := endure_send_ok flush
  exact ⟨quiet,by simpa using (endure_refresh_ok ran).1⟩

variable (server faults client) in
theorem endure_updateStatus {transaction : CryptoBrokerage.Transaction} {status : TransactionStatus}
    (referenceId : Option String) (different : transaction.status ≠ status)
    (found : view.db.find .transactions transaction.id = some transaction)
    (quiet : faults view.issued.length = none ∧ faults (view.issued.length + 1) = none) :
    ∃ row last, server.engine.endure faults client
        (TransactionRepository.updateStatus transaction status referenceId) view = (some (.ok row),last) ∧
      last.db.find .transactions transaction.id = some row ∧ row.userId = transaction.userId ∧
      row.transactionType = transaction.transactionType ∧ row.status = status ∧
      last.issued.length = view.issued.length + 2 := by
  let columns : TransactionColumns := ⟨some status,if referenceId = transaction.referenceId then none else referenceId⟩
  have modified : (view.db.modify .transactions transaction.id columns).find .transactions transaction.id =
      some (Table.assign .transactions columns transaction) := by
    rw [Database.find_modify,found]
    rfl
  refine ⟨_,⟨view.db.modify .transactions transaction.id columns,
    view.issued ++ [.update .transactions transaction.id columns] ++ [.get .transactions transaction.id]⟩,?_,
    modified,rfl,rfl,rfl,by simp⟩
  change server.engine.endure faults client (BaseRepository.flush .transactions transaction { status, referenceId } >>=
    fun _ => BaseRepository.refresh .transactions transaction.id) view = _
  have flushed : server.engine.endure faults client
      (BaseRepository.flush .transactions transaction { status, referenceId }) view =
        (some (.ok ()),⟨view.db.modify .transactions transaction.id columns,
          view.issued ++ [.update .transactions transaction.id columns]⟩) := by
    rw [BaseRepository.flush,Table.dirty_moved different]
    exact Engine.endure_perform quiet.1
  rw [Engine.endure_returned flushed]
  exact endure_refresh (by simpa using quiet.2) modified

end CryptoBrokerage
