import CryptoBrokerage.Transaction.Program

/-! What an engine does with the statements of one transaction that runs alone.
A transaction sees the committed store together with its own writes; it ends by
committing all of them or, on an exception, none. -/
namespace CryptoBrokerage.Transaction

/-- `exec client turn op db` answers the statement that `client` sends as its
`turn`-th, on the store `db` it sees; `locks op db` are the resources that the
statement holds, once it has succeeded, until its transaction ends. -/
structure Engine (S : Signature) (Client Db Write Resource : Type) where
  apply : Db → Write → Db
  exec : Client → Nat → (op : S.Op) → Db → Except S.Error (S.Reply op × List Write)
  locks : (op : S.Op) → Db → List Resource

structure View (S : Signature) (Db : Type) where
  db : Db
  issued : List S.Op := []

structure Receipt (S : Signature) (Db α : Type) where
  before : Db
  outcome : Except S.Error α
  issued : List S.Op
  after : Db

/-- The end of a transaction that started from `before`: commit on a normal
return, rollback on an exception. -/
def settle {S : Signature} {Db α : Type} (before : Db) :
    Except S.Error α × View S Db → Receipt S Db α
  | (.ok value,view) => ⟨before,.ok value,view.issued,view.db⟩
  | (.error error,view) => ⟨before,.error error,view.issued,before⟩

namespace Engine
variable {S : Signature} {Client Db Write Resource α β : Type}
variable (E : Engine S Client Db Write Resource)

def visible (db : Db) (writes : List Write) : Db := writes.foldl E.apply db

@[simp] theorem visible_nil (db : Db) : E.visible db [] = db := rfl

theorem visible_append (db : Db) (first second : List Write) :
    E.visible db (first ++ second) = E.visible (E.visible db first) second :=
  List.foldl_append

def issue (client : Client) (op : S.Op) (view : View S Db) :
    Except S.Error (S.Reply op) × View S Db :=
  match E.exec client view.issued.length op view.db with
  | .ok (reply,writes) => (.ok reply,⟨E.visible view.db writes,view.issued ++ [op]⟩)
  | .error error => (.error error,⟨view.db,view.issued ++ [op]⟩)

theorem issue_ok {client : Client} {op : S.Op} {view : View S Db} {reply : S.Reply op}
    {writes : List Write} (answered : E.exec client view.issued.length op view.db = .ok (reply,writes)) :
    E.issue client op view = (.ok reply,⟨E.visible view.db writes,view.issued ++ [op]⟩) := by
  simp only [issue,answered]

theorem issue_error {client : Client} {op : S.Op} {view : View S Db} {error : S.Error}
    (failed : E.exec client view.issued.length op view.db = .error error) :
    E.issue client op view = (.error error,⟨view.db,view.issued ++ [op]⟩) := by
  simp only [issue,failed]

def run (client : Client) : Program S α → View S Db → Except S.Error α × View S Db
  | .done outcome, view => (outcome,view)
  | .call op next, view =>
    run client (next (E.issue client op view).1) (E.issue client op view).2

@[simp] theorem run_done (client : Client) (outcome : Except S.Error α) (view : View S Db) :
    E.run client (.done outcome) view = (outcome,view) := rfl

@[simp] theorem run_pure (client : Client) (value : α) (view : View S Db) :
    E.run client (pure value) view = (.ok value,view) := rfl

theorem run_call (client : Client) (op : S.Op) (next : Except S.Error (S.Reply op) → Program S α)
    (view : View S Db) :
    E.run client (.call op next) view =
      E.run client (next (E.issue client op view).1) (E.issue client op view).2 := rfl

@[simp] theorem run_perform (client : Client) (op : S.Op) (view : View S Db) :
    E.run client (.perform op) view = E.issue client op view := rfl

theorem run_bind (client : Client) (program : Program S α) (next : α → Program S β)
    (view : View S Db) :
    E.run client (program >>= next) view =
      match E.run client program view with
      | (.ok value,middle) => E.run client (next value) middle
      | (.error error,middle) => (.error error,middle) := by
  induction program generalizing view with
  | done outcome => cases outcome <;> rfl
  | call op rest ih =>
    rw [Program.call_bind,run_call]
    exact ih _ _

theorem run_bind_ok {client : Client} {program : Program S α} {next : α → Program S β}
    {view last : View S Db} {value : β} (ran : E.run client (program >>= next) view = (.ok value,last)) :
    ∃ inner middle, E.run client program view = (.ok inner,middle) ∧
      E.run client (next inner) middle = (.ok value,last) := by
  rw [run_bind] at ran
  rcases first : E.run client program view with ⟨outcome,middle⟩
  rw [first] at ran
  cases outcome with
  | ok inner => exact ⟨inner,middle,rfl,ran⟩
  | error error => cases ran

theorem run_perform_ok {client : Client} {op : S.Op} {view last : View S Db} {reply : S.Reply op}
    (ran : E.run client (.perform op) view = (.ok reply,last)) :
    ∃ writes, E.exec client view.issued.length op view.db = .ok (reply,writes) ∧
      last = ⟨E.visible view.db writes,view.issued ++ [op]⟩ := by
  rw [run_perform,issue] at ran
  cases result : E.exec client view.issued.length op view.db with
  | ok pair =>
    rw [result] at ran
    cases ran
    exact ⟨_,rfl,rfl⟩
  | error error =>
    rw [result] at ran
    cases ran

theorem run_attempt (client : Client) (program : Program S α) (view : View S Db) :
    E.run client program.attempt view =
      (.ok (E.run client program view).1,(E.run client program view).2) := by
  induction program generalizing view with
  | done outcome => rfl
  | call op rest ih =>
    exact ih _ _

theorem issue_issued (client : Client) (op : S.Op) (view : View S Db) :
    (E.issue client op view).2.issued = view.issued ++ [op] := by
  unfold issue
  split <;> rfl

theorem run_issued (client : Client) {allowed : S.Op → Prop} {program : Program S α}
    (only : program.Only allowed) (view : View S Db) :
    ∃ sent, (E.run client program view).2.issued = view.issued ++ sent ∧ ∀ op ∈ sent, allowed op := by
  induction program generalizing view with
  | done outcome => exact ⟨[],(List.append_nil _).symm,by simp⟩
  | call op next ih =>
    obtain ⟨sent,issued,permitted⟩ := ih (E.issue client op view).1 (only.2 _) (E.issue client op view).2
    refine ⟨op::sent,?_,?_⟩
    · rw [run_call,issued,issue_issued,List.append_assoc]
      rfl
    · intro other member
      rcases List.mem_cons.mp member with rfl | later
      · exact only.1
      · exact permitted other later

/-- What a program has sent, it has sent with whatever follows it. -/
theorem run_bind_sent {client : Client} {program : Program S α} {view : View S Db} {op : S.Op}
    (sent : op ∈ (E.run client program view).2.issued) (next : α → Program S β) :
    op ∈ (E.run client (program >>= next) view).2.issued := by
  rw [run_bind]
  rcases ran : E.run client program view with ⟨error | value,middle⟩ <;> rw [ran] at sent
  · exact sent
  · obtain ⟨later,issued,_⟩ := E.run_issued client (Program.only_any (next value)) middle
    change op ∈ (E.run client (next value) middle).2.issued
    rw [issued]
    exact List.mem_append_left _ sent

theorem run_returns {client : Client} {allowed : α → Prop} {program : Program S α} (returns : program.Returns allowed)
    {view last : View S Db} {value : α} (ran : E.run client program view = (.ok value,last)) : allowed value := by
  induction program generalizing view with
  | done outcome =>
    cases ran
    exact returns
  | call op next ih => exact ih _ (returns _) ran

theorem run_keeps (client : Client) {allowed : S.Op → Prop} {Kept : Db → Prop}
    (kept : ∀ op turn db reply writes, allowed op → Kept db →
      E.exec client turn op db = .ok (reply,writes) → Kept (E.visible db writes))
    {program : Program S α} (only : program.Only allowed) (view : View S Db) (holds : Kept view.db) :
    Kept (E.run client program view).2.db := by
  induction program generalizing view with
  | done outcome => exact holds
  | call op next ih =>
    refine ih _ (only.2 _) _ ?_
    cases result : E.exec client view.issued.length op view.db with
    | ok pair =>
      rw [E.issue_ok result]
      exact kept op _ view.db _ _ only.1 holds result
    | error error =>
      rw [E.issue_error result]
      exact holds

def transact (client : Client) (program : Program S α) (db : Db) : Receipt S Db α :=
  settle db (E.run client program ⟨db,[]⟩)

theorem transact_ok {client : Client} {program : Program S α} {db : Db} {value : α} {view : View S Db}
    (ran : E.run client program ⟨db,[]⟩ = (.ok value,view)) :
    E.transact client program db = ⟨db,.ok value,view.issued,view.db⟩ := by
  rw [transact,ran]
  rfl

theorem transact_error {client : Client} {program : Program S α} {db : Db} {error : S.Error}
    {view : View S Db} (ran : E.run client program ⟨db,[]⟩ = (.error error,view)) :
    E.transact client program db = ⟨db,.error error,view.issued,db⟩ := by
  rw [transact,ran]
  rfl

@[simp] theorem transact_before (client : Client) (program : Program S α) (db : Db) :
    (E.transact client program db).before = db := by
  unfold transact
  rcases E.run client program ⟨db,[]⟩ with ⟨_ | _,view⟩ <;> rfl

theorem transact_issued (client : Client) (program : Program S α) (db : Db) :
    (E.transact client program db).issued = (E.run client program ⟨db,[]⟩).2.issued := by
  unfold transact
  rcases E.run client program ⟨db,[]⟩ with ⟨_ | _,view⟩ <;> rfl

theorem transact_outcome (client : Client) (program : Program S α) (db : Db) :
    (E.transact client program db).outcome = (E.run client program ⟨db,[]⟩).1 := by
  unfold transact
  rcases E.run client program ⟨db,[]⟩ with ⟨_ | _,view⟩ <;> rfl

theorem transact_rollback (client : Client) (program : Program S α) (db : Db) (error : S.Error)
    (raised : (E.transact client program db).outcome = .error error) :
    (E.transact client program db).after = db := by
  unfold transact at raised ⊢
  cases ran : E.run client program ⟨db,[]⟩ with
  | mk outcome view =>
    rw [ran] at raised
    cases outcome with
    | ok value => cases raised
    | error _ => rfl

theorem transact_keeps (client : Client) {allowed : S.Op → Prop} {Kept : Db → Prop}
    (kept : ∀ op turn db reply writes, allowed op → Kept db →
      E.exec client turn op db = .ok (reply,writes) → Kept (E.visible db writes))
    {program : Program S α} (only : program.Only allowed) (db : Db) (holds : Kept db) :
    Kept (E.transact client program db).after := by
  have ran := E.run_keeps client kept only ⟨db,[]⟩ holds
  unfold transact
  rcases ended : E.run client program ⟨db,[]⟩ with ⟨_ | _,view⟩
  · exact holds
  · rw [ended] at ran
    exact ran

theorem visible_kept {Kept : Db → Prop} (kept : ∀ db write, Kept db → Kept (E.apply db write))
    (writes : List Write) (db : Db) (holds : Kept db) : Kept (E.visible db writes) := by
  induction writes generalizing db with
  | nil => exact holds
  | cons write rest ih => exact ih _ (kept db write holds)

def serve (programs : Client → Program S α) : List Client → Db → List (Client × Receipt S Db α)
  | [], _ => []
  | client::rest, db =>
    (client,E.transact client (programs client) db) ::
      serve programs rest (E.transact client (programs client) db).after

def settled (programs : Client → Program S α) (clients : List Client) (db : Db) : Db :=
  clients.foldl (fun db client => (E.transact client (programs client) db).after) db

theorem settled_append (programs : Client → Program S α) (first second : List Client) (db : Db) :
    E.settled programs (first ++ second) db =
      E.settled programs second (E.settled programs first db) :=
  List.foldl_append

end Engine

end CryptoBrokerage.Transaction
