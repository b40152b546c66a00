import Mathlib.Logic.Basic

/-! Client programs of a transactional store. A program sends statements one at
a time and continues with each reply, or with the exception the statement
raised; nothing here says what a statement does. -/
namespace CryptoBrokerage.Transaction

structure Signature where
  Op : Type
  Reply : Op → Type
  Error : Type

inductive Program (S : Signature) (α : Type) : Type
  | done (outcome : Except S.Error α)
  | call (op : S.Op) (next : Except S.Error (S.Reply op) → Program S α)

namespace Program
variable {S : Signature} {α β γ : Type}

def bind (program : Program S α) (next : α → Program S β) : Program S β :=
  match program with
  | .done (.ok value) => next value
  | .done (.error error) => .done (.error error)
  | .call op rest => .call op (fun reply => (rest reply).bind next)

instance : Monad (Program S) where
  pure value := .done (.ok value)
  bind := bind

def perform (op : S.Op) : Program S (S.Reply op) := .call op .done

def raise (error : S.Error) : Program S α := .done (.error error)

def attempt : Program S α → Program S (Except S.Error α)
  | .done outcome => .done (.ok outcome)
  | .call op rest => .call op (fun reply => (rest reply).attempt)

@[simp] theorem call_bind (op : S.Op) (rest : Except S.Error (S.Reply op) → Program S α)
    (next : α → Program S β) :
    Program.call op rest >>= next = .call op (fun reply => rest reply >>= next) := rfl

theorem bind_pure (program : Program S α) : program >>= pure = program := by
  induction program with
  | done outcome => cases outcome <;> rfl
  | call op rest ih =>
    rw [call_bind]
    congr 1
    funext reply
    exact ih reply

theorem bind_assoc (program : Program S α) (first : α → Program S β) (second : β → Program S γ) :
    (program >>= first) >>= second = program >>= fun value => first value >>= second := by
  induction program with
  | done outcome => cases outcome <;> rfl
  | call op rest ih =>
    simp only [call_bind]
    congr 1
    funext reply
    exact ih reply

instance : LawfulMonad (Program S) :=
  LawfulMonad.mk' (Program S) bind_pure (fun _ _ => rfl) bind_assoc

theorem attempt_bind (program : Program S α) (next : α → Program S β) :
    (program.attempt >>= fun outcome => match outcome with
      | .ok value => next value
      | .error error => raise error) = program >>= next := by
  induction program with
  | done outcome => cases outcome <;> rfl
  | call op rest ih =>
    rw [attempt,call_bind,call_bind]
    congr 1
    funext reply
    exact ih reply

def Only (allowed : S.Op → Prop) : Program S α → Prop
  | .done _ => True
  | .call op next => allowed op ∧ ∀ reply, (next reply).Only allowed

variable {allowed : S.Op → Prop}

@[simp] theorem only_done (outcome : Except S.Error α) :
    (Program.done outcome : Program S α).Only allowed := trivial

@[simp] theorem only_pure (value : α) : (pure value : Program S α).Only allowed := trivial

@[simp] theorem only_raise (error : S.Error) : (raise error : Program S α).Only allowed := trivial

@[simp] theorem only_perform (op : S.Op) : (perform op : Program S (S.Reply op)).Only allowed ↔ allowed op :=
  ⟨fun only => only.1,fun permitted => ⟨permitted,fun _ => trivial⟩⟩

theorem only_any (program : Program S α) : program.Only (fun _ => True) := by
  induction program with
  | done outcome => trivial
  | call op next ih => exact ⟨trivial,ih⟩

theorem Only.bind {program : Program S α} {next : α → Program S β} (first : program.Only allowed)
    (rest : ∀ value, (next value).Only allowed) : (program >>= next).Only allowed := by
  induction program with
  | done outcome =>
    cases outcome with
    | ok value => exact rest value
    | error error => trivial
  | call op next ih => exact ⟨first.1,fun reply => ih reply (first.2 reply)⟩

theorem Only.attempt {program : Program S α} (only : program.Only allowed) :
    program.attempt.Only allowed := by
  induction program with
  | done outcome => trivial
  | call op next ih => exact ⟨only.1,fun reply => ih reply (only.2 reply)⟩

def Returns (allowed : α → Prop) : Program S α → Prop
  | .done (.ok value) => allowed value
  | .done (.error _) => True
  | .call _ next => ∀ reply, (next reply).Returns allowed

theorem returns_any (program : Program S α) : program.Returns (fun _ => True) := by
  induction program with
  | done outcome => cases outcome <;> trivial
  | call op next ih => exact ih

theorem Returns.bind {returned : α → Prop} {permitted : β → Prop} {program : Program S α} {next : α → Program S β}
    (first : program.Returns returned) (rest : ∀ value, returned value → (next value).Returns permitted) :
    (program >>= next).Returns permitted := by
  induction program with
  | done outcome =>
    cases outcome with
    | ok value => exact rest value first
    | error error => trivial
  | call op next ih => exact fun reply => ih reply (first reply)

theorem Returns.attempt {returned : α → Prop} {program : Program S α} (first : program.Returns returned) :
    program.attempt.Returns (fun outcome => ∀ value, outcome = .ok value → returned value) := by
  induction program with
  | done outcome =>
    intro value same
    cases same
    exact first
  | call op next ih => exact fun reply => ih reply (first reply)

/-- The program ends in every exception that one of its statements raises. -/
def Direct : Program S α → Prop
  | .done _ => True
  | .call _ next => (∀ error, next (.error error) = .done (.error error)) ∧ ∀ reply, (next (.ok reply)).Direct

@[simp] theorem direct_done (outcome : Except S.Error α) : (Program.done outcome : Program S α).Direct := trivial

@[simp] theorem direct_perform (op : S.Op) : (perform op : Program S (S.Reply op)).Direct :=
  ⟨fun _ => rfl,fun _ => trivial⟩

theorem Direct.bind {program : Program S α} {next : α → Program S β} (first : program.Direct)
    (rest : ∀ value, (next value).Direct) : (program >>= next).Direct := by
  induction program with
  | done outcome =>
    cases outcome with
    | ok value => exact rest value
    | error error => trivial
  | call op later ih =>
    refine ⟨fun error => ?_,fun reply => ih _ (first.2 reply)⟩
    change later (.error error) >>= next = _
    rw [first.1 error]
    rfl

end Program

end CryptoBrokerage.Transaction
