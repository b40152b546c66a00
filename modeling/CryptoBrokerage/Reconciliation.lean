import CryptoBrokerage.Settlement
import CryptoBrokerage.TransactionRows

/-! The reconciliation query. A deposit is committed as PROCESSING, or not at
all, while `get_pending` selects the PENDING transactions. -/
namespace CryptoBrokerage
open Transaction (Program Engine Config Label Step Runs Reachable)

def InFlight (row : CryptoBrokerage.Transaction) : Prop :=
  row.transactionType = .deposit ∧ row.referenceId ≠ none ∧ row.status.isTerminal = false

instance (row : CryptoBrokerage.Transaction) : Decidable (InFlight row) :=
  inferInstanceAs (Decidable (_ ∧ _ ∧ _))

section Query
variable {Client : Type} (server : Server Client) (client : Client) {db : Database}

def Reconcilable (db : Database) : Prop :=
  ∀ row ∈ db .transactions, InFlight row → ∃ pending,
    (server.engine.run client TransactionRepository.getPending ⟨db,[]⟩).1 = .ok pending ∧ row ∈ pending

theorem reconcilable_iff : Reconcilable server client db ↔
    ∀ row ∈ db .transactions, InFlight row → row.status = .pending := by
  have query : (server.engine.run client TransactionRepository.getPending ⟨db,[]⟩).1 =
      .ok ((db .transactions).filter (fun transaction => transaction.status == .pending)) := rfl
  refine forall₃_congr fun row member _ => ?_
  rw [query]
  constructor
  · rintro ⟨pending,same,listed⟩
    cases same
    simpa using (List.mem_filter.mp listed).2
  · intro pending
    exact ⟨_,rfl,List.mem_filter.mpr ⟨member,by simp [pending]⟩⟩

end Query

def DepositCommits {Client : Type} (movement : Client → Movement) (label : Label sql Client) : Prop :=
  ∃ client request, label = .commit client ∧ movement client = .deposit request

section Movements
variable {Client : Type} [DecidableEq Client] {server : Server Client}
  {bank : Client → InitiatedTransfer → Except Exception TransferInitiation}
  {exchange : Client → SubmittedOrder → Except Exception OrderSubmission} {now : Client → Timestamp}
  {movement : Client → Movement} {db : Database}
  {before after : Config sql Client Database Write Resource (Option DepositResult)} {label : Label sql Client}

/-- Without the commit of a deposit, a deposit in flight was there before the step. -/
theorem in_flight_before (reached : Reachable server.engine (movements bank exchange now movement) db before)
    (step : Step server.engine (movements bank exchange now movement) before label after)
    (none : ¬DepositCommits movement label) {row : CryptoBrokerage.Transaction}
    (member : row ∈ after.committed .transactions) (flying : InFlight row) :
    row ∈ before.committed .transactions := by
  cases label with
  | commit client =>
    have effect := effect_step reached step
    change Effect (movement client).transactionType _ _ at effect
    cases effect with
    | spared same => rwa [same] at member
    | added fresh kind _ _ append =>
      rw [append] at member
      rcases List.mem_append.mp member with old | new
      · exact old
      · obtain rfl := List.mem_singleton.mp new
        cases moves : movement client with
        | deposit request => exact absurd ⟨client,request,rfl,moves⟩ none
        | confirm referenceId =>
          rw [moves] at kind
          cases kind
        | trade request =>
          rw [moves] at kind
          exact absurd ((Option.some.inj kind).trans flying.1) (by decide)
    | completed id _ map =>
      rw [map] at member
      obtain ⟨old,inside,rfl⟩ := List.mem_map.mp member
      rcases complete_status id old with completed | same
      · have terminal := flying.2.2
        rw [completed] at terminal
        cases terminal
      · rwa [same]
  | _ =>
    cases step
    exact member

theorem deposit_commits (reached : Reachable server.engine (movements bank exchange now movement) db before)
    (step : Step server.engine (movements bank exchange now movement) before label after)
    (commits : DepositCommits movement label) :
    ∃ row ∈ after.committed .transactions, InFlight row ∧ row.status = .processing := by
  obtain ⟨client,request,rfl,deposits⟩ := commits
  obtain ⟨state,session,value,_,_,_,holds,concluded,committed⟩ := movements_commit reached step
  obtain ⟨result,_,ended⟩ : ∃ result, value = some result ∧ (state = .torn ∨ Deposited request result state) := by
    have ended := concluded value rfl
    rwa [deposits] at ended
  rcases ended with rfl | ⟨row,rfl,_,_,kind,status,reference,_⟩
  · exact holds.2.elim
  · refine ⟨row,?_,⟨kind,by simp [reference],by rw [status]; rfl⟩,status⟩
    rw [committed,OwnRow.visible holds.2]
    simp

theorem reconcilable_step {server : Server Client} {client : Client}
    (reached : Reachable server.engine (movements bank exchange now movement) db before)
    (step : Step server.engine (movements bank exchange now movement) before label after)
    (seen : Reconcilable server client before.committed) :
    Reconcilable server client after.committed ↔ ¬DepositCommits movement label := by
  rw [reconcilable_iff] at seen ⊢
  constructor
  · intro pending commits
    obtain ⟨row,member,flying,status⟩ := deposit_commits reached step commits
    have contrary := pending row member flying
    rw [status] at contrary
    cases contrary
  · intro none row member flying
    exact seen row (in_flight_before reached step none member flying) flying

end Movements

/-- While no deposit commits, reconciliation sees every transfer in flight; each
deposit that commits is one that it does not see. -/
theorem transfers_reconcilable_iff {Client : Type} [DecidableEq Client] (server : Server Client) (client : Client)
    (bank : Client → InitiatedTransfer → Except Exception TransferInitiation)
    (exchange : Client → SubmittedOrder → Except Exception OrderSubmission) (now : Client → Timestamp)
    (movement : Client → Movement) (db : Database) (base : Reconcilable server client db)
    (config : Config sql Client Database Write Resource (Option DepositResult))
    (runs : Runs server.engine (movements bank exchange now movement) (fun _ label => ¬DepositCommits movement label)
      (.initial db) config) :
    Reconcilable server client config.committed ∧
      ∀ label after, Step server.engine (movements bank exchange now movement) config label after →
        (Reconcilable server client after.committed ↔ ¬DepositCommits movement label) := by
  have seen : Reconcilable server client config.committed := by
    refine (Runs.invariant (fun config => Reachable server.engine (movements bank exchange now movement) db config ∧
      Reconcilable server client config.committed) runs ⟨.refl,base⟩ ?_).2
    rintro before label after ⟨reached,seen⟩ step none
    exact ⟨reached.step step,(reconcilable_step reached step seen).mpr none⟩
  exact ⟨seen,fun label after step => reconcilable_step runs.reachable step seen⟩

/-- A deposit that is PENDING with a reference, and its confirmation. -/
theorem transfers_reconcilable_confirmed :
    ∃ config, Transaction.follow sampleServer.engine (movements (fun _ _ => .ok sampleTransfer)
        (fun _ _ => .ok sampleOpen) (fun _ => 0) (fun _ => .confirm "t1")) (List.replicate 5 0)
        (.initial (sampleBank.insert .transactions (⟨61,1,.deposit,.pending,some "t1",0⟩ :
          CryptoBrokerage.Transaction))) = some config ∧
      (config.committed .transactions).map CryptoBrokerage.Transaction.status = [.completed] ∧
      Reconcilable sampleServer 0 config.committed := by
  have scheduled : (Transaction.follow sampleServer.engine (movements (fun _ _ => .ok sampleTransfer)
      (fun _ _ => .ok sampleOpen) (fun _ => 0) (fun _ => .confirm "t1")) (List.replicate 5 0)
      (.initial (sampleBank.insert .transactions (⟨61,1,.deposit,.pending,some "t1",0⟩ :
        CryptoBrokerage.Transaction)))).map (fun config =>
          (config.committed .transactions).map CryptoBrokerage.Transaction.status) = some [.completed] := by
    decide +kernel
  obtain ⟨config,followed,statuses⟩ := Option.map_eq_some_iff.mp scheduled
  refine ⟨config,followed,statuses,(transfers_reconcilable_iff sampleServer 0 (fun _ _ => .ok sampleTransfer)
    (fun _ _ => .ok sampleOpen) (fun _ => 0) (fun _ => .confirm "t1") _ ?_ config
    ((Transaction.follow_reachable .refl followed).runs ?_)).1⟩
  · rw [reconcilable_iff]
    intro row member _
    obtain rfl := List.mem_singleton.mp member
    rfl
  · rintro before label ⟨client,request,_,deposits⟩
    cases deposits

/-- A deposit that the bank has accepted commits as PROCESSING, where `get_pending`
does not find it. -/
theorem transfer_unreconciled :
    ∃ config, Transaction.Reachable sampleServer.engine (movements (fun _ _ => .ok sampleTransfer)
        (fun _ _ => .ok sampleOpen) (fun _ => 0) (fun _ => .deposit sampleDeposit)) sampleBank config ∧
      (config.committed .transactions).map CryptoBrokerage.Transaction.referenceId = [some "t1"] ∧
      ¬Reconcilable sampleServer 0 config.committed := by
  have scheduled : (Transaction.follow sampleServer.engine (movements (fun _ _ => .ok sampleTransfer)
      (fun _ _ => .ok sampleOpen) (fun _ => 0) (fun _ => .deposit sampleDeposit)) (List.replicate 10 0)
      (.initial sampleBank)).map (fun config => ((config.committed .transactions).map
        CryptoBrokerage.Transaction.referenceId,(config.committed .transactions).filter (fun row =>
          decide (InFlight row ∧ row.status ≠ .pending)) == [])) = some ([some "t1"],false) := by
    decide +kernel
  obtain ⟨config,followed,facts⟩ := Option.map_eq_some_iff.mp scheduled
  obtain ⟨references,unseen⟩ := Prod.mk.inj facts
  refine ⟨config,Transaction.follow_reachable .refl followed,references,fun seen => ?_⟩
  rw [reconcilable_iff] at seen
  have none : (config.committed .transactions).filter (fun row =>
      decide (InFlight row ∧ row.status ≠ .pending)) = [] := by
    rw [List.filter_eq_nil_iff]
    intro row member flying
    have flying := of_decide_eq_true flying
    exact flying.2 (seen row member flying.1)
  rw [none] at unseen
  cases unseen

end CryptoBrokerage
