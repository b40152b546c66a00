import CryptoBrokerage.Transaction.Engine

/-! Faults of one transaction. While a statement is sent, or when the transaction
is about to commit, something raises or the process stops; what has not been
committed by then is lost. -/
namespace CryptoBrokerage.Transaction

inductive Fault (Error : Type)
  | raises (error : Error)
  | stops
  deriving DecidableEq, Repr

/-- A transaction under faults: what its program returned or raised, if the
process has not stopped, the statements it sent and what is committed then. -/
structure Aftermath (S : Signature) (Db α : Type) where
  outcome : Option (Except S.Error α)
  issued : List S.Op
  after : Db

namespace Engine
variable {S : Signature} {Client Db Write Resource α β : Type} (E : Engine S Client Db Write Resource)
  (faults : Nat → Option (Fault S.Error)) (client : Client)

def endure : Program S α → View S Db → Option (Except S.Error α) × View S Db
  | .done outcome, view => (some outcome,view)
  | .call op next, view =>
    match faults view.issued.length with
    | none => endure (next (E.issue client op view).1) (E.issue client op view).2
    | some (.raises error) => endure (next (.error error)) ⟨view.db,view.issued ++ [op]⟩
    | some .stops => (none,⟨view.db,view.issued ++ [op]⟩)

/-- The end of the transaction. Its commit is one more turn. -/
def conclude (before : Db) : Option (Except S.Error α) × View S Db → Aftermath S Db α
  | (some (.ok value),view) =>
    match faults view.issued.length with
    | none => ⟨some (.ok value),view.issued,view.db⟩
    | some (.raises error) => ⟨some (.error error),view.issued,before⟩
    | some .stops => ⟨none,view.issued,before⟩
  | (some (.error error),view) => ⟨some (.error error),view.issued,before⟩
  | (none,view) => ⟨none,view.issued,before⟩

def survive (program : Program S α) (db : Db) : Aftermath S Db α :=
  conclude faults db (E.endure faults client program ⟨db,[]⟩)

variable {E faults client}

theorem endure_bind (program : Program S α) (next : α → Program S β) (view : View S Db) :
    E.endure faults client (program >>= next) view =
      match E.endure faults client program view with
      | (some (.ok value),middle) => E.endure faults client (next value) middle
      | (some (.error error),middle) => (some (.error error),middle)
      | (none,middle) => (none,middle) := by
  induction program generalizing view with
  | done outcome => cases outcome <;> rfl
  | call op rest ih =>
    rw [Program.call_bind,endure,endure]
    cases faults view.issued.length with
    | none => exact ih _ _
    | some fault =>
      cases fault with
      | raises error => exact ih _ _
      | stops => rfl

theorem endure_attempt (program : Program S α) (view : View S Db) :
    E.endure faults client program.attempt view =
      ((E.endure faults client program view).1.map Except.ok,(E.endure faults client program view).2) := by
  induction program generalizing view with
  | done outcome => rfl
  | call op rest ih =>
    rw [Program.attempt,endure,endure]
    cases faults view.issued.length with
    | none => exact ih _ _
    | some fault =>
      cases fault with
      | raises error => exact ih _ _
      | stops => rfl

theorem endure_returned {program : Program S α} {view middle : View S Db} {value : α}
    (ran : E.endure faults client program view = (some (.ok value),middle)) (next : α → Program S β) :
    E.endure faults client (program >>= next) view = E.endure faults client (next value) middle := by
  rw [endure_bind,ran]

theorem endure_bind_ok {program : Program S α} {next : α → Program S β} {view last : View S Db} {value : β}
    (ran : E.endure faults client (program >>= next) view = (some (.ok value),last)) :
    ∃ inner middle, E.endure faults client program view = (some (.ok inner),middle) ∧
      E.endure faults client (next inner) middle = (some (.ok value),last) := by
  rw [endure_bind] at ran
  rcases first : E.endure faults client program view with ⟨_ | _ | inner,middle⟩
  · rw [first] at ran
    cases ran
  · rw [first] at ran
    cases ran
  · rw [first] at ran
    exact ⟨inner,middle,rfl,ran⟩

theorem endure_perform_ok {op : S.Op} {view last : View S Db} {reply : S.Reply op}
    (ran : E.endure faults client (.perform op) view = (some (.ok reply),last)) :
    faults view.issued.length = none ∧ E.issue client op view = (.ok reply,last) := by
  rw [Program.perform,endure] at ran
  cases quiet : faults view.issued.length with
  | none =>
    rw [quiet] at ran
    obtain ⟨answered,same⟩ := Prod.mk.inj ran
    exact ⟨rfl,Prod.ext (Option.some.inj answered) same⟩
  | some fault =>
    rw [quiet] at ran
    cases fault with
    | raises error => cases ran
    | stops => cases ran

theorem endure_perform {op : S.Op} {view : View S Db} (quiet : faults view.issued.length = none) :
    E.endure faults client (.perform op) view =
      (some (E.issue client op view).1,(E.issue client op view).2) := by
  rw [Program.perform,endure,quiet]
  rfl

theorem endure_issued {allowed : S.Op → Prop} {program : Program S α} (only : program.Only allowed)
    (view : View S Db) :
    ∃ sent, (E.endure faults client program view).2.issued = view.issued ++ sent ∧ ∀ op ∈ sent, allowed op := by
  induction program generalizing view with
  | done outcome => exact ⟨[],(List.append_nil _).symm,by simp⟩
  | call op next ih =>
    have first : (E.issue client op view).2.issued = view.issued ++ [op] := by
      unfold issue
      split <;> rfl
    have onward (reply : Except S.Error (S.Reply op)) (middle : View S Db)
        (issued : middle.issued = view.issued ++ [op]) :
        ∃ sent, (E.endure faults client (next reply) middle).2.issued = view.issued ++ sent ∧
          ∀ op ∈ sent, allowed op := by
      obtain ⟨sent,later,permitted⟩ := ih reply (only.2 reply) middle
      refine ⟨op::sent,by rw [later,issued,List.append_assoc]; rfl,fun other member => ?_⟩
      rcases List.mem_cons.mp member with rfl | after
      · exact only.1
      · exact permitted other after
    rw [endure]
    cases faults view.issued.length with
    | none => exact onward _ _ first
    | some fault =>
      cases fault with
      | raises error => exact onward _ _ rfl
      | stops => exact ⟨[op],rfl,by simpa using only.1⟩

/-- A statement that a program does not send was sent before it. -/
theorem endure_unsent {op : S.Op} {program : Program S α} {view : View S Db} (only : program.Only (· ≠ op))
    (sent : op ∈ (E.endure faults client program view).2.issued) : op ∈ view.issued := by
  obtain ⟨later,issued,others⟩ := endure_issued only view
  rw [issued] at sent
  exact (List.mem_append.mp sent).resolve_right fun member => others op member rfl

theorem endure_bind_sent {op : S.Op} {program : Program S α} {next : α → Program S β} {view : View S Db}
    (only : program.Only (· ≠ op)) (unsent : op ∉ view.issued)
    (sent : op ∈ (E.endure faults client (program >>= next) view).2.issued) :
    ∃ value middle, E.endure faults client program view = (some (.ok value),middle) ∧ op ∉ middle.issued ∧
      op ∈ (E.endure faults client (next value) middle).2.issued := by
  have before : op ∉ (E.endure faults client program view).2.issued := fun member =>
    unsent (endure_unsent only member)
  rw [endure_bind] at sent
  rcases first : E.endure faults client program view with ⟨_ | _ | value,middle⟩
  · rw [first] at sent before
    exact absurd sent before
  · rw [first] at sent before
    exact absurd sent before
  · rw [first] at sent before
    exact ⟨value,middle,rfl,before,sent⟩

theorem endure_raise {program : Program S α} {error : S.Error} {view last : View S Db} {value : β}
    (ran : E.endure faults client (program >>= fun _ => Program.raise error) view = (some (.ok value),last)) : False := by
  obtain ⟨_,_,_,raised⟩ := endure_bind_ok ran
  cases raised

/-- A program that ends in every exception has returned without a fault. -/
theorem endure_direct {program : Program S α} (direct : program.Direct) {view last : View S Db} {value : α}
    (ran : E.endure faults client program view = (some (.ok value),last)) :
    E.run client program view = (.ok value,last) := by
  induction program generalizing view with
  | done outcome =>
    cases ran
    rfl
  | call op next ih =>
    rw [endure] at ran
    cases given : faults view.issued.length with
    | some fault =>
      rw [given] at ran
      cases fault with
      | raises error =>
        change E.endure faults client (next (.error error)) _ = _ at ran
        rw [direct.1 error] at ran
        cases ran
      | stops => cases ran
    | none =>
      rw [given] at ran
      rw [run_call]
      cases reply : (E.issue client op view).1 with
      | error error =>
        rw [reply,direct.1 error] at ran
        cases ran
      | ok answer =>
        rw [reply] at ran
        exact ih _ (direct.2 answer) ran

theorem endure_returns {allowed : α → Prop} {program : Program S α} (returns : program.Returns allowed)
    {view last : View S Db} {value : α} (ran : E.endure faults client program view = (some (.ok value),last)) :
    allowed value := by
  induction program generalizing view with
  | done outcome =>
    cases ran
    exact returns
  | call op next ih =>
    rw [endure] at ran
    cases given : faults view.issued.length with
    | none =>
      rw [given] at ran
      exact ih _ (returns _) ran
    | some fault =>
      rw [given] at ran
      cases fault with
      | raises error => exact ih _ (returns _) ran
      | stops => cases ran

/-- The turn of a statement that a program sends first, and neither it nor
anything before it sends again. -/
theorem endure_turn {op : S.Op} {next : Except S.Error (S.Reply op) → Program S α} {view : View S Db} {turn : Nat}
    (once : ∀ reply, (next reply).Only (· ≠ op)) (unsent : op ∉ view.issued)
    (sent : (E.endure faults client (.call op next) view).2.issued[turn]? = some op) : turn = view.issued.length := by
  have within {later : List S.Op} (others : ∀ other ∈ later, other ≠ op)
      (found : (view.issued ++ [op] ++ later)[turn]? = some op) : turn = view.issued.length := by
    rcases Nat.lt_trichotomy turn view.issued.length with before | same | after
    · rw [List.append_assoc,List.getElem?_append_left before] at found
      exact absurd (List.mem_of_getElem? found) unsent
    · exact same
    · rw [List.getElem?_append_right (by rw [List.length_append]; exact after)] at found
      exact absurd rfl (others op (List.mem_of_getElem? found))
  have onward (reply : Except S.Error (S.Reply op)) (middle : View S Db) (issued : middle.issued = view.issued ++ [op])
      (found : (E.endure faults client (next reply) middle).2.issued[turn]? = some op) : turn = view.issued.length := by
    obtain ⟨later,ran,others⟩ := endure_issued (once reply) middle
    rw [ran,issued] at found
    exact within others found
  rw [endure] at sent
  cases given : faults view.issued.length with
  | none =>
    rw [given] at sent
    exact onward _ _ (E.issue_issued client op view) sent
  | some fault =>
    rw [given] at sent
    cases fault with
    | raises error => exact onward _ _ rfl sent
    | stops => exact within (List.forall_mem_nil _) (by rw [List.append_nil]; exact sent)

theorem survive_issued (program : Program S α) (db : Db) :
    (E.survive faults client program db).issued = (E.endure faults client program ⟨db,[]⟩).2.issued := by
  unfold survive
  rcases E.endure faults client program ⟨db,[]⟩ with ⟨_ | _ | value,view⟩
  · rfl
  · rfl
  · rw [conclude]
    split <;> rfl

variable (E faults client) in
/-- What is committed is the whole of a transaction that returned, with no
fault at its commit, or nothing. -/
theorem survive_after (program : Program S α) (db : Db) :
    (∃ value view, E.endure faults client program ⟨db,[]⟩ = (some (.ok value),view) ∧
      faults view.issued.length = none ∧ (E.survive faults client program db).after = view.db) ∨
    ((∀ value view, E.endure faults client program ⟨db,[]⟩ = (some (.ok value),view) →
      faults view.issued.length ≠ none) ∧ (E.survive faults client program db).after = db) := by
  unfold survive
  rcases E.endure faults client program ⟨db,[]⟩ with ⟨_ | _ | value,view⟩
  · exact Or.inr ⟨fun _ _ same => (by cases same),rfl⟩
  · exact Or.inr ⟨fun _ _ same => (by cases same),rfl⟩
  · rw [conclude]
    cases quiet : faults view.issued.length with
    | none => exact Or.inl ⟨value,view,rfl,quiet,rfl⟩
    | some fault =>
      right
      refine ⟨fun other last same => ?_,by cases fault <;> rfl⟩
      cases same
      simp [quiet]

/-- What a store does not have that a program leaves when it returns is committed
exactly if the program returns and the commit succeeds. -/
theorem survive_kept_iff {Kept : Db → Prop} {program : Program S α} {db : Db} (absent : ¬Kept db)
    (leaves : ∀ value last, E.endure faults client program ⟨db,[]⟩ = (some (.ok value),last) → Kept last.db) :
    Kept (E.survive faults client program db).after ↔
      ∃ value last, E.endure faults client program ⟨db,[]⟩ = (some (.ok value),last) ∧
        faults last.issued.length = none := by
  constructor
  · intro kept
    rcases E.survive_after faults client program db with ⟨value,last,ran,commits,_⟩ | ⟨_,same⟩
    · exact ⟨value,last,ran,commits⟩
    · rw [same] at kept
      exact absurd kept absent
  · rintro ⟨value,last,ran,commits⟩
    rw [survive,ran,conclude,commits]
    exact leaves value last ran

variable (E) in
def endured (faults : Client → Nat → Option (Fault S.Error)) (programs : Client → Program S α) (clients : List Client)
    (db : Db) : Db :=
  clients.foldl (fun db client => (E.survive (faults client) client (programs client) db).after) db

theorem endured_append {faults : Client → Nat → Option (Fault S.Error)} (programs : Client → Program S α)
    (first second : List Client) (db : Db) :
    E.endured faults programs (first ++ second) db = E.endured faults programs second (E.endured faults programs first db) :=
  List.foldl_append

theorem endure_kept {Kept : Db → Prop} (kept : ∀ db write, Kept db → Kept (E.apply db write)) (program : Program S α)
    (view : View S Db) (holds : Kept view.db) : Kept (E.endure faults client program view).2.db := by
  induction program generalizing view with
  | done outcome => exact holds
  | call op next ih =>
    have issued : Kept (E.issue client op view).2.db := by
      unfold issue
      split
      · exact E.visible_kept kept _ _ holds
      · exact holds
    rw [endure]
    cases faults view.issued.length with
    | none => exact ih _ _ issued
    | some fault =>
      cases fault with
      | raises error => exact ih _ _ holds
      | stops => exact holds

theorem endured_kept {Kept : Db → Prop} (kept : ∀ db write, Kept db → Kept (E.apply db write))
    (faults : Client → Nat → Option (Fault S.Error)) (programs : Client → Program S α) (clients : List Client) (db : Db)
    (holds : Kept db) : Kept (E.endured faults programs clients db) := by
  induction clients generalizing db with
  | nil => exact holds
  | cons client rest ih =>
    refine ih _ ?_
    change Kept (E.survive (faults client) client (programs client) db).after
    rcases E.survive_after (faults client) client (programs client) db with ⟨_,_,ran,_,same⟩ | ⟨_,same⟩
    · have last := @endure_kept _ _ _ _ _ _ E (faults client) client _ kept (programs client) ⟨db,[]⟩ holds
      rw [ran] at last
      rw [same]
      exact last
    · rw [same]
      exact holds

end Engine

end CryptoBrokerage.Transaction
