import CryptoBrokerage.Transaction.Engine

/-! Reading programs on two stores. A program that never tells the stores apart
has the same outcome on both. -/
namespace CryptoBrokerage.Transaction
variable {S : Signature} {Client Db Write Resource α β : Type}

def Engine.Replies (E : Engine S Client Db Write Resource) (client : Client) (db : Db) (op : S.Op)
    (reply : Except S.Error (S.Reply op)) : Prop :=
  ∀ turn, E.exec client turn op db = reply.map (fun value => (value,[]))

def Engine.Alike (E : Engine S Client Db Write Resource) (client : Client) (first second : Db)
    (program : Program S α) : Prop :=
  ∀ issued issued', ∃ outcome sent sent', E.run client program ⟨first,issued⟩ = (outcome,⟨first,sent⟩) ∧
    E.run client program ⟨second,issued'⟩ = (outcome,⟨second,sent'⟩)

namespace Engine
variable {E : Engine S Client Db Write Resource} {client : Client} {db first second : Db}

theorem Replies.issue {op : S.Op} {reply : Except S.Error (S.Reply op)} (replies : E.Replies client db op reply)
    (issued : List S.Op) : E.issue client op ⟨db,issued⟩ = (reply,⟨db,issued ++ [op]⟩) := by
  unfold Engine.issue
  rw [replies issued.length]
  cases reply <;> rfl

theorem alike_done (outcome : Except S.Error α) : E.Alike client first second (.done outcome) :=
  fun issued issued' => ⟨outcome,issued,issued',rfl,rfl⟩

theorem Alike.bind {program : Program S α} {next : α → Program S β} (alike : E.Alike client first second program)
    (rest : ∀ value, E.Alike client first second (next value)) : E.Alike client first second (program >>= next) := by
  intro issued issued'
  obtain ⟨outcome,sent,sent',left,right⟩ := alike issued issued'
  rw [run_bind,run_bind,left,right]
  cases outcome with
  | error error => exact ⟨.error error,sent,sent',rfl,rfl⟩
  | ok value => exact rest value sent sent'

theorem Alike.attempt {program : Program S α} (alike : E.Alike client first second program) :
    E.Alike client first second program.attempt := by
  intro issued issued'
  obtain ⟨outcome,sent,sent',left,right⟩ := alike issued issued'
  refine ⟨.ok outcome,sent,sent',?_,?_⟩
  · rw [run_attempt,left]
  · rw [run_attempt,right]

theorem alike_perform {op : S.Op} {reply : Except S.Error (S.Reply op)} (left : E.Replies client first op reply)
    (right : E.Replies client second op reply) : E.Alike client first second (.perform op) :=
  fun issued issued' => ⟨reply,issued ++ [op],issued' ++ [op],left.issue issued,right.issue issued'⟩

/-- Replies that differ, and that the program treats alike. -/
theorem alike_read {op : S.Op} {one other : S.Reply op} {next : S.Reply op → Program S β}
    (left : E.Replies client first op (.ok one)) (right : E.Replies client second op (.ok other))
    (same : next one = next other) (rest : E.Alike client first second (next one)) :
    E.Alike client first second (.perform op >>= next) := by
  intro issued issued'
  rw [run_bind,run_bind,run_perform,run_perform,left.issue,right.issue]
  change ∃ outcome sent sent', E.run client (next one) _ = _ ∧ E.run client (next other) _ = _
  rw [← same]
  exact rest _ _

theorem alike_refused {op : S.Op} {error : S.Error} (left : E.Replies client first op (.error error))
    (right : E.Replies client second op (.error error)) (next : S.Reply op → Program S β) :
    E.Alike client first second (.perform op >>= next) := by
  intro issued issued'
  rw [run_bind,run_bind,run_perform,run_perform,left.issue,right.issue]
  exact ⟨.error error,issued ++ [op],issued' ++ [op],rfl,rfl⟩

theorem Alike.mapM {γ : Type} {program : γ → Program S α} {items : List γ}
    (alike : ∀ item ∈ items, E.Alike client first second (program item)) :
    E.Alike client first second (items.mapM program) := by
  induction items with
  | nil => exact alike_done (.ok [])
  | cons item items ih =>
    rw [List.mapM_cons]
    have others := ih fun other member => alike other (List.mem_cons_of_mem _ member)
    exact (alike item List.mem_cons_self).bind fun value => others.bind fun values => alike_done (.ok (value::values))

theorem Alike.outcome {program : Program S α} (alike : E.Alike client first second program) :
    (E.transact client program first).outcome = (E.transact client program second).outcome := by
  obtain ⟨outcome,sent,sent',left,right⟩ := alike [] []
  rw [transact_outcome,transact_outcome,left,right]

end Engine

end CryptoBrokerage.Transaction
