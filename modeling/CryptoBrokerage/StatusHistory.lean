import CryptoBrokerage.Settlement
import CryptoBrokerage.TransactionRows

/-! Transaction statuses only move forward. `update_status` has no guard of its
own: what keeps a finished transaction finished is that a deposit or a trade
writes only the row it has inserted, and that no transaction is committed as
failed after a confirmation has found it neither completed nor failed. -/
namespace CryptoBrokerage
open Transaction (Program Engine Session Config Label Step Runs Reachable)

def TransactionStatus.next : TransactionStatus → List TransactionStatus
  | .pending => [.processing,.completed,.failed]
  | .processing => [.completed,.failed]
  | _ => []

def Forward (old new : TransactionStatus) : Prop := new = old ∨ new ∈ old.next

theorem Forward.trans {first second third : TransactionStatus} (earlier : Forward first second)
    (later : Forward second third) : Forward first third := by
  rcases earlier with rfl | step
  · exact later
  rcases later with rfl | more
  · exact Or.inr step
  · right
    cases first <;> cases second <;> simp_all [TransactionStatus.next]

theorem forward_completed {status : TransactionStatus} (alive : status ≠ .failed) (standing : status ≠ .reversed) :
    Forward status .completed := by
  cases status with
  | failed => exact absurd rfl alive
  | reversed => exact absurd rfl standing
  | completed => exact Or.inl rfl
  | pending => exact Or.inr (by decide)
  | processing => exact Or.inr (by decide)

structure Continues (old new : CryptoBrokerage.Transaction) : Prop where
  id : new.id = old.id
  forward : Forward old.status new.status
  final : old.status = .completed ∨ old.status = .failed →
    new.status = old.status ∧ new.referenceId = old.referenceId

theorem Continues.refl (row : CryptoBrokerage.Transaction) : Continues row row :=
  ⟨rfl,Or.inl rfl,fun _ => ⟨rfl,rfl⟩⟩

theorem Continues.trans {first second third : CryptoBrokerage.Transaction} (earlier : Continues first second)
    (later : Continues second third) : Continues first third := by
  refine ⟨later.id.trans earlier.id,earlier.forward.trans later.forward,fun final => ?_⟩
  obtain ⟨status,reference⟩ := earlier.final final
  obtain ⟨same,kept⟩ := later.final (by rwa [status])
  exact ⟨same.trans status,kept.trans reference⟩

structure Tidy (db : Database) : Prop where
  unique : ((db .transactions).map CryptoBrokerage.Transaction.id).Nodup
  standing : ∀ row ∈ db .transactions, row.status ≠ .reversed

section Effects
variable {type : Option TransactionType} {before after : Database}

theorem Effect.tidy (effect : Effect type before (after .transactions)) (tidy : Tidy before) : Tidy after := by
  cases effect with
  | spared same => exact ⟨by rw [same]; exact tidy.unique,by rw [same]; exact tidy.standing⟩
  | added row _ fresh forward append =>
    refine ⟨?_,fun other member => ?_⟩
    · rw [append,List.map_append]
      refine List.Nodup.append tidy.unique (List.nodup_singleton _) ?_
      intro id inside single
      obtain ⟨other,member,rfl⟩ := List.mem_map.mp inside
      exact fresh other member (by simpa using single)
    · rw [append] at member
      rcases List.mem_append.mp member with old | new
      · exact tidy.standing other old
      · rw [List.mem_singleton.mp new]
        exact forward
  | completed id _ map =>
    refine ⟨?_,fun other member => ?_⟩
    · have ids : CryptoBrokerage.Transaction.id ∘ complete id = CryptoBrokerage.Transaction.id := by
        funext row
        exact complete_id id row
      rw [map,List.map_map,ids]
      exact tidy.unique
    · rw [map] at member
      obtain ⟨old,inside,rfl⟩ := List.mem_map.mp member
      rcases complete_status id old with completed | same
      · simp [completed]
      · rw [same]
        exact tidy.standing old inside

theorem Effect.continues (effect : Effect type before (after .transactions)) (tidy : Tidy before)
    {row : CryptoBrokerage.Transaction} (member : row ∈ before .transactions) :
    ∃ later ∈ after .transactions, Continues row later := by
  cases effect with
  | spared same => exact ⟨row,by rwa [same],.refl row⟩
  | added _ _ _ _ append => exact ⟨row,by rw [append]; exact List.mem_append_left _ member,.refl row⟩
  | completed id live map =>
    refine ⟨complete id row,by rw [map]; exact List.mem_map_of_mem member,?_⟩
    by_cases mine : row.id = id
    · obtain ⟨other,inside,same,alive⟩ := live
      obtain rfl : other = row := List.inj_on_of_nodup_map tidy.unique inside member (same.trans mine.symm)
      have completed : (complete id other).status = .completed := by
        rw [complete,if_pos mine]
      refine ⟨complete_id id other,?_,fun final => ⟨?_,complete_referenceId id other⟩⟩
      · rw [completed]
        exact forward_completed alive (tidy.standing other member)
      · rw [completed]
        exact (final.resolve_right alive).symm
    · rw [complete,if_neg mine]
      exact .refl row

end Effects

section Movements
variable {Client : Type} [DecidableEq Client] {server : Server Client}
  {bank : Client → InitiatedTransfer → Except Exception TransferInitiation}
  {exchange : Client → SubmittedOrder → Except Exception OrderSubmission} {now : Client → Timestamp}
  {movement : Client → Movement} {db : Database}

theorem movements_tidy (tidy : Tidy db) {config : Config sql Client Database Write Resource (Option DepositResult)}
    (reached : Reachable server.engine (movements bank exchange now movement) db config) :
    Tidy config.committed := by
  refine (Runs.invariant (fun config => Reachable server.engine (movements bank exchange now movement) db config ∧
    Tidy config.committed) reached ⟨.refl,tidy⟩ ?_).2
  rintro before label after ⟨reached,tidy⟩ step _
  exact ⟨reached.step step,(effect_step reached step).tidy tidy⟩

theorem movements_continue (tidy : Tidy db)
    {config later : Config sql Client Database Write Resource (Option DepositResult)}
    (reached : Reachable server.engine (movements bank exchange now movement) db config)
    (runs : Runs server.engine (movements bank exchange now movement) (fun _ _ => True) config later)
    {row : CryptoBrokerage.Transaction} (member : row ∈ config.committed .transactions) :
    ∃ last ∈ later.committed .transactions, Continues row last := by
  refine (Runs.invariant (fun later => Reachable server.engine (movements bank exchange now movement) db later ∧
    ∃ last ∈ later.committed .transactions, Continues row last) runs ⟨reached,row,member,.refl row⟩ ?_).2
  rintro before label after ⟨reached,last,inside,continues⟩ step _
  obtain ⟨next,present,goes⟩ := (effect_step reached step).continues (movements_tidy tidy reached) inside
  exact ⟨reached.step step,next,present,continues.trans goes⟩

theorem inert_runs {first last : Config sql Client Database Write Resource (Option DepositResult)} {client : Client}
    (inert : Inert (first.status client))
    (runs : Runs server.engine (movements bank exchange now movement) (fun _ _ => True) first last) :
    Inert (last.status client) :=
  Runs.invariant (fun config => Inert (config.status client)) runs inert
    fun _ _ _ inert step _ => (inert_step step inert).1

end Movements

/-- Transaction statuses only move forward, in every interleaving of deposits,
confirmations and trades; a completed or failed transaction keeps its status and
its reference, and a confirmation that reads one changes nothing. -/
theorem statuses_move_forward {Client : Type} [DecidableEq Client] (server : Server Client)
    (bank : Client → InitiatedTransfer → Except Exception TransferInitiation)
    (exchange : Client → SubmittedOrder → Except Exception OrderSubmission) (now : Client → Timestamp)
    (movement : Client → Movement) (db : Database) (empty : db .transactions = [])
    (config : Config sql Client Database Write Resource (Option DepositResult))
    (reached : Reachable server.engine (movements bank exchange now movement) db config) :
    ((config.committed .transactions).map CryptoBrokerage.Transaction.id).Nodup ∧
    (∀ row ∈ config.committed .transactions, row.status ≠ .reversed) ∧
    (∀ later, Runs server.engine (movements bank exchange now movement) (fun _ _ => True) config later →
      ∀ row ∈ config.committed .transactions, ∃ last ∈ later.committed .transactions, last.id = row.id ∧
        Forward row.status last.status ∧ (row.status = .completed ∨ row.status = .failed →
          last.status = row.status ∧ last.referenceId = row.referenceId)) ∧
    (∀ client referenceId row after, movement client = .confirm referenceId →
      Step server.engine (movements bank exchange now movement) config
        (.issue client (.selectTransaction referenceId)) after →
      server.referred client config.committed referenceId = some row → row.status = .completed ∨ row.status = .failed →
      ∀ later label next, Runs server.engine (movements bank exchange now movement) (fun _ _ => True) after later →
        Step server.engine (movements bank exchange now movement) later label next → label.client = client →
        next.committed = later.committed) := by
  have tidy : Tidy db := ⟨by simp [empty],by simp [empty]⟩
  obtain ⟨unique,standing⟩ := movements_tidy tidy reached
  refine ⟨unique,standing,fun later runs row member => ?_,?_⟩
  · obtain ⟨last,inside,continues⟩ := movements_continue tidy reached runs member
    exact ⟨last,inside,continues.id,continues.forward,continues.final⟩
  · intro client referenceId row after confirms lookup found final later label next runs step mine
    have inert := lookup_inert reached confirms lookup fun other chosen unsettled => by
      rw [found] at chosen
      cases chosen
      exact final.elim unsettled.1 unsettled.2
    exact (inert_step step (inert_runs inert runs)).2 mine

/-- A deposit, and its confirmation once it has committed. -/
theorem statuses_move_forward_confirmed :
    ∃ config, Transaction.follow sampleServer.engine
        (movements (fun _ _ => .ok sampleTransfer) (fun _ _ => .ok sampleOpen) (fun _ => 0)
          (fun client => if client = 0 then .deposit sampleDeposit else .confirm "t1"))
        (List.replicate 10 0 ++ List.replicate 5 1) (.initial sampleBank) = some config ∧
      (config.committed .transactions).map CryptoBrokerage.Transaction.status = [.completed] ∧
      ((config.committed .transactions).map CryptoBrokerage.Transaction.id).Nodup := by
  have scheduled : (Transaction.follow sampleServer.engine
      (movements (fun _ _ => .ok sampleTransfer) (fun _ _ => .ok sampleOpen) (fun _ => 0)
        (fun client => if client = 0 then .deposit sampleDeposit else .confirm "t1"))
      (List.replicate 10 0 ++ List.replicate 5 1) (.initial sampleBank)).map
        (fun config => (config.committed .transactions).map CryptoBrokerage.Transaction.status) =
      some [.completed] := by
    decide +kernel
  obtain ⟨config,followed,statuses⟩ := Option.map_eq_some_iff.mp scheduled
  exact ⟨config,followed,statuses,(statuses_move_forward sampleServer (fun _ _ => .ok sampleTransfer)
    (fun _ _ => .ok sampleOpen) (fun _ => 0) (fun client => if client = 0 then .deposit sampleDeposit else .confirm "t1")
    sampleBank rfl config (Transaction.follow_reachable .refl followed)).1⟩

end CryptoBrokerage
