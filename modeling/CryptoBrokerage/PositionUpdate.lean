import CryptoBrokerage.TradingService
import CryptoBrokerage.Transaction.Serializable
import Mathlib.Algebra.BigOperators.Group.Finset.Basic
import Mathlib.Data.Fintype.Basic

/-! Transactions that lock an account and then add to one position.
`upsert_position` writes the quantity it has read plus the delta. The account lock
does not cover the position, so the reading of the position is the section that
no two of them may share. -/
namespace CryptoBrokerage
open Transaction (Program Engine View Config Label Status Runs Careful Entering Sectioned Serial Waits)
open DecimalContext (rounded)

structure Adjustment where
  accountId : Uuid
  quantityDelta : ℚ
  fillPrice : ℚ
  deriving DecidableEq, Repr

def adjust (userId assetId : Uuid) (adjustment : Adjustment) : Action Position := do
  let _ ← AccountRepository.getBalanceForUpdate adjustment.accountId
  PositionRepository.upsertPosition userId assetId adjustment.quantityDelta adjustment.fillPrice

def adjustments {Client : Type} (userId assetId : Uuid) (adjustment : Client → Adjustment) (client : Client) :
    Action Position := adjust userId assetId (adjustment client)

def readsPosition (adjustment : Adjustment) : Statement → Bool
  | .selectPosition _ _ => decide (adjustment.quantityDelta ≠ 0)
  | _ => false

structure Standing (first : Database) (userId assetId : Uuid) (db : Database) : Prop where
  accounts : db .accounts = first .accounts
  entries : db .ledgerEntries = first .ledgerEntries
  keyed : db.Keyed
  present : ((db .positions).find? (fun position => position.userId == userId &&
    position.assetId == assetId)).isSome

/-- What a transaction relies on until it reads the position to change it. One that
adds nothing relies on a quantity that the context keeps, and writes nothing. -/
structure Steady (first : Database) (userId assetId : Uuid) (adjustment : Adjustment) (db : Database) : Prop
    extends Standing first userId assetId db where
  idle : adjustment.quantityDelta = 0 → rounded (db.quantity userId assetId) = db.quantity userId assetId

section Alone
variable {Client : Type} {server : Server Client} {client : Client} {first db : Database}
  {view last : View sql Database} {userId assetId : Uuid} {adjustment : Adjustment}

theorem run_adjust_ok {row : Position} (keyed : view.db.Keyed)
    (ran : server.engine.run client (adjust userId assetId adjustment) view = (.ok row,last)) :
    Upserted server userId assetId adjustment.quantityDelta view.db last.db := by
  obtain ⟨⟨account,balance⟩,locked,lock,rest⟩ := Engine.run_bind_ok _ ran
  obtain ⟨_,_,same⟩ := run_getBalanceForUpdate_ok lock
  have upserted := run_upsertPosition_ok (by rw [same]; exact keyed) rest
  rwa [same] at upserted

theorem transact_adjust_ok {row : Position} (keyed : db.Keyed)
    (returned : (server.engine.transact client (adjust userId assetId adjustment) db).outcome = .ok row) :
    Upserted server userId assetId adjustment.quantityDelta db
      (server.engine.transact client (adjust userId assetId adjustment) db).after := by
  rcases ran : server.engine.run client (adjust userId assetId adjustment) ⟨db,[]⟩ with ⟨outcome,last⟩
  rw [Engine.transact_outcome,ran] at returned
  obtain rfl : outcome = .ok row := returned
  rw [Engine.transact_ok _ ran]
  exact @run_adjust_ok Client server client ⟨db,[]⟩ last userId assetId adjustment row keyed ran

theorem Standing.adjust (standing : Standing first userId assetId db) :
    Standing first userId assetId
      (server.engine.transact client (adjust userId assetId adjustment) db).after := by
  cases returned : (server.engine.transact client (CryptoBrokerage.adjust userId assetId adjustment) db).outcome with
  | error error =>
    rw [server.engine.transact_rollback client _ db error returned]
    exact standing
  | ok row =>
    have upserted := transact_adjust_ok standing.keyed returned
    exact ⟨(upserted.others _ (by decide)).trans standing.accounts,
      (upserted.others _ (by decide)).trans standing.entries,upserted.keyed,upserted.present⟩

/-- Before it reads the position a transaction reads nothing that others change. -/
theorem adjust_calm (changes : adjustment.quantityDelta ≠ 0) :
    (adjust userId assetId adjustment).Calm server.engine (fun op => readsPosition adjustment op = true)
      (Steady first userId assetId adjustment) client [] := by
  refine Or.inr ⟨by simp [readsPosition],.ok (first.find .accounts adjustment.accountId),fun db steady => ?_,?_⟩
  · change Except.ok (db.find .accounts adjustment.accountId,_) = _
    unfold Database.find
    rw [steady.accounts]
    rfl
  · cases found : first.find .accounts adjustment.accountId with
    | none => trivial
    | some account =>
      refine Or.inr ⟨by simp [readsPosition],.ok (first.credits adjustment.accountId),fun db steady => ?_,?_⟩
      · change Except.ok (db.credits adjustment.accountId,_) = _
        unfold Database.credits
        rw [steady.entries]
        rfl
      · refine Or.inr ⟨by simp [readsPosition],.ok (first.debits adjustment.accountId),fun db steady => ?_,?_⟩
        · change Except.ok (db.debits adjustment.accountId,_) = _
          unfold Database.debits
          rw [steady.entries]
          rfl
        · exact Or.inl (by simp [readsPosition,changes])

theorem newQuantity_present (present : ((db .positions).find? (fun position => position.userId == userId &&
    position.assetId == assetId)).isSome) (quantityDelta : ℚ) :
    db.newQuantity userId assetId quantityDelta = rounded (db.quantity userId assetId + quantityDelta) := by
  obtain ⟨position,chosen⟩ := Option.isSome_iff_exists.mp present
  unfold Database.newQuantity Database.quantity
  rw [chosen]
  rfl

/-- What is stored of a new quantity the context keeps from then on. -/
theorem Steady.adjust (columns : server.numeric = numeric36) {other : Adjustment}
    (steady : Steady first userId assetId other db) : Steady first userId assetId other
      (server.engine.transact client (CryptoBrokerage.adjust userId assetId adjustment) db).after := by
  refine ⟨steady.toStanding.adjust,fun idle => ?_⟩
  cases returned : (server.engine.transact client (CryptoBrokerage.adjust userId assetId adjustment) db).outcome with
  | error error =>
    rw [server.engine.transact_rollback client _ db error returned]
    exact steady.idle idle
  | ok row =>
    obtain ⟨kept,stored,quantity⟩ := (transact_adjust_ok steady.keyed returned).quantity
    rw [quantity,if_pos ⟨rfl,rfl⟩]
    rcases stored with ⟨_,same⟩ | stored
    · rw [same]
      exact steady.idle idle
    · rw [columns,newQuantity_present steady.present] at stored
      exact rounded_numeric36 stored

/-- A transaction that returns has read the position. -/
theorem adjust_reads {row : Position}
    (returned : (server.engine.transact client (CryptoBrokerage.adjust userId assetId adjustment) db).outcome = .ok row) :
    .selectPosition userId assetId ∈
      (server.engine.transact client (CryptoBrokerage.adjust userId assetId adjustment) db).issued := by
  rcases ran : server.engine.run client (CryptoBrokerage.adjust userId assetId adjustment) ⟨db,[]⟩ with ⟨outcome,last⟩
  rw [Engine.transact_outcome,ran] at returned
  obtain rfl : outcome = .ok row := returned
  rw [Engine.transact_issued,ran]
  obtain ⟨_,middle,_,rest⟩ := Engine.run_bind_ok _ ran
  obtain ⟨found,read,selected,later⟩ := Engine.run_bind_ok _ rest
  have sent : read.issued = middle.issued ++ [.selectPosition userId assetId] := by
    have issued := server.engine.issue_issued client (.selectPosition userId assetId) middle
    change server.engine.run client (send (.selectPosition userId assetId)) middle = _ at selected
    rw [← congrArg (fun pair => pair.2.issued) selected]
    exact issued
  obtain ⟨more,issued,_⟩ := server.engine.run_issued client (Program.only_any _) read
  rw [later] at issued
  change last.issued = _ at issued
  rw [issued,sent]
  simp

end Alone

section Sections
variable {Client : Type} {server : Server Client} {first : Database} {userId assetId : Uuid}
  {adjustment : Client → Adjustment}

theorem dirty_unchanged (position : Position) : Table.dirty .positions position
    { quantity := some position.quantity, averagePrice := some position.averagePrice } = none := by
  simp [Table.dirty,changed]

theorem adjust_watches {client : Client} (idle : (adjustment client).quantityDelta = 0) :
    (adjust userId assetId (adjustment client)).Watches server.engine
      (fun client op => readsPosition (adjustment client) op = true)
      (fun client => Steady first userId assetId (adjustment client)) client := by
  have reads {op : Statement} (read : Reads op) (plain : readsPosition (adjustment client) op = false) :
      (Transaction.watching server.engine (fun client op => readsPosition (adjustment client) op = true)
        (fun client => Steady first userId assetId (adjustment client))).allowed client () op := by
    refine ⟨by simp [plain],fun turn db reply writes _ answered => ?_⟩
    have written := Server.exec_writes answered
    cases op with
    | insert t row => cases read
    | update t id set => cases read
    | submitOrder order => cases read
    | _ => exact written
  refine ⟨reads trivial rfl,fun found _ => ?_⟩
  rcases found with error | _ | account
  · trivial
  · trivial
  · refine ⟨reads trivial rfl,fun credits _ => ?_⟩
    rcases credits with error | credits
    · trivial
    · refine ⟨reads trivial rfl,fun debits _ => ?_⟩
      rcases debits with error | debits
      · trivial
      · refine ⟨reads trivial (by simp [readsPosition,idle]),fun reply answer => ?_⟩
        obtain ⟨turn,db,steady,rfl⟩ := answer
        obtain ⟨position,chosen⟩ := Option.isSome_iff_exists.mp steady.present
        have whole : rounded position.quantity = position.quantity := by
          have kept := steady.idle idle
          unfold Database.quantity at kept
          rwa [chosen] at kept
        have selected : Except.map Prod.fst (server.engine.exec client turn (.selectPosition userId assetId) db) =
            .ok (some position) := by
          rw [← chosen]
          rfl
        rw [selected]
        have unsent : BaseRepository.flush .positions position
            (⟨some position.quantity,some position.averagePrice⟩ : PositionColumns) = pure () := by
          unfold BaseRepository.flush
          rw [dirty_unchanged]
        change Program.Obeys _ _ _ _ (if 0 < (adjustment client).quantityDelta then
          Program.done (product (adjustment client).quantityDelta (adjustment client).fillPrice) >>= _ else
          BaseRepository.update .positions position
            ⟨some (rounded (position.quantity + (adjustment client).quantityDelta)),some position.averagePrice⟩) _ _
        rw [idle,if_neg (lt_irrefl 0),add_zero,whole]
        unfold BaseRepository.update
        rw [unsent]
        refine ⟨reads trivial rfl,fun refreshed _ => ?_⟩
        rcases refreshed with error | _ | row
        · trivial
        · trivial
        · trivial

theorem adjustments_sectioned (columns : server.numeric = numeric36) :
    Sectioned server.engine (adjustments userId assetId adjustment)
      (fun client op => readsPosition (adjustment client) op = true)
      (fun client => Steady first userId assetId (adjustment client)) where
  outside client := by
    by_cases idle : (adjustment client).quantityDelta = 0
    · exact Or.inr (adjust_watches idle)
    · exact Or.inl (adjust_calm idle)
  stable _ _ _ _ steady _ := steady.adjust columns

def added (adjustment : Adjustment) (status : Status sql Write Resource Position) : ℚ :=
  if status.isCommitted then adjustment.quantityDelta else 0

theorem added_error (adjustment : Adjustment) (error : Exception) (issued : List Statement) :
    added adjustment (.ended (.error error) issued) = 0 := if_neg Bool.false_ne_true

theorem added_ok (adjustment : Adjustment) (row : Position) (issued : List Statement) :
    added adjustment (.ended (.ok row) issued) = adjustment.quantityDelta := if_pos rfl

theorem adjust_quantity {client : Client} {db : Database} (standing : Standing first userId assetId db)
    (keeps : Keeps server.numeric (db.quantity userId assetId + (adjustment client).quantityDelta))
    (issued : List Statement) :
    (server.engine.transact client (adjustments userId assetId adjustment client) db).after.quantity userId assetId =
      db.quantity userId assetId + added (adjustment client) (.ended
        (server.engine.transact client (adjustments userId assetId adjustment client) db).outcome issued) := by
  cases returned : (server.engine.transact client (adjustments userId assetId adjustment client) db).outcome with
  | error error =>
    rw [server.engine.transact_rollback client _ db error returned,added_error,add_zero]
  | ok row =>
    have upserted := transact_adjust_ok standing.keyed returned
    have whole := (newQuantity_present standing.present (adjustment client).quantityDelta).trans keeps.1
    rw [added_ok,adjustments,upserted.added whole fun kept ok => Except.ok.inj (ok.symm.trans keeps.2),
      if_pos ⟨rfl,rfl⟩]

theorem settled_quantity {db : Database} (standing : Standing first userId assetId db)
    {status : Client → Status sql Write Resource Position} {order : List Client}
    (keeps : ∀ front client rest, order = front ++ client::rest → Keeps server.numeric
      ((server.engine.settled (adjustments userId assetId adjustment) front db).quantity userId assetId +
        (adjustment client).quantityDelta))
    (ended : ∀ front client rest, order = front ++ client::rest → ∃ issued, status client =
      .ended (server.engine.transact client (adjustments userId assetId adjustment client)
        (server.engine.settled (adjustments userId assetId adjustment) front db)).outcome issued) :
    Standing first userId assetId (server.engine.settled (adjustments userId assetId adjustment) order db) ∧
      (server.engine.settled (adjustments userId assetId adjustment) order db).quantity userId assetId =
        db.quantity userId assetId + (order.map (fun client => added (adjustment client) (status client))).sum := by
  induction order using List.reverseRecOn with
  | nil => exact ⟨standing,by simp [Engine.settled]⟩
  | append_singleton front last ih =>
    obtain ⟨stands,sum⟩ := ih (fun before client rest split => keeps before client (rest ++ [last]) (by rw [split]; simp))
      fun before client rest split => ended before client (rest ++ [last]) (by rw [split]; simp)
    obtain ⟨issued,finished⟩ := ended front last [] rfl
    have step := adjust_quantity stands (keeps front last [] rfl) issued
    rw [← finished] at step
    constructor
    · rw [server.engine.settled_append]
      exact stands.adjust
    · rw [server.engine.settled_append,List.map_append,List.sum_append,← add_assoc,← sum,List.map_cons,
        List.map_nil,List.sum_singleton]
      exact step

/-- A transaction that has ended without entering the section has added nothing. -/
theorem outside_adds_nothing [DecidableEq Client] {client : Client} {db : Database}
    (steady : Steady first userId assetId (adjustment client) db)
    {config : Config sql Client Database Write Resource Position} {finished : List Client} {active : Option Client}
    (serial : Serial server.engine (adjustments userId assetId adjustment)
      (fun client op => readsPosition (adjustment client) op = true)
      (fun client => Steady first userId assetId (adjustment client)) db config finished active)
    (unfinished : client ∉ finished) : added (adjustment client) (config.status client) = 0 := by
  cases status : config.status client with
  | ready => exact if_neg Bool.false_ne_true
  | running session => exact if_neg Bool.false_ne_true
  | ended outcome issued =>
    cases outcome with
    | error error => exact added_error _ error issued
    | ok row =>
      by_cases idle : (adjustment client).quantityDelta = 0
      · rw [added_ok,idle]
      · have inactive : active ≠ some client := by
          intro same
          obtain ⟨session,running,_⟩ := serial.inside client same
          rw [status] at running
          cases running
        have outside := serial.outside client unfinished inactive
        rw [status] at outside
        obtain ⟨returned,sent⟩ := (outside.2 db steady).2 (adjust_calm idle)
        have read := adjust_reads returned
        change _ ∈ (server.engine.transact client (adjustments userId assetId adjustment client) db).issued at read
        rw [sent] at read
        exact absurd (by simp [readsPosition,idle]) (outside.1 _ read)

/-- A transaction that reads the position to change it finds a quantity to which its
delta can be added without a rounding. -/
def FindsRoom (server : Server Client) (userId assetId : Uuid) (adjustment : Client → Adjustment) (client : Client)
    (db : Database) : Prop :=
  Keeps server.numeric (db.quantity userId assetId + (adjustment client).quantityDelta)

end Sections

/-- In every run in which no transaction reads the position to change it while
another open one has done so, and no sum is rounded, the committed quantity is always
the initial one and the deltas of the transactions that have committed. -/
theorem position_updates_kept {Client : Type} [Fintype Client] [DecidableEq Client] (server : Server Client)
    (columns : server.numeric = numeric36) (userId assetId : Uuid) (adjustment : Client → Adjustment) (db : Database)
    (keyed : db.Keyed) (present : ((db .positions).find? (fun position => position.userId == userId &&
      position.assetId == assetId)).isSome)
    (idle : ∀ client, (adjustment client).quantityDelta = 0 →
      rounded (db.quantity userId assetId) = db.quantity userId assetId)
    (config : Config sql Client Database Write Resource Position)
    (runs : Runs server.engine (adjustments userId assetId adjustment) (fun config label =>
      Careful (fun client op => readsPosition (adjustment client) op = true) config label ∧
        Entering (fun client op => readsPosition (adjustment client) op = true)
          (FindsRoom server userId assetId adjustment) config label) (.initial db) config) :
    config.committed.quantity userId assetId =
      db.quantity userId assetId + ∑ client, added (adjustment client) (config.status client) := by
  have standing : Standing db userId assetId db := ⟨rfl,rfl,keyed,present⟩
  have steady (client : Client) : Steady db userId assetId (adjustment client) db := ⟨standing,idle client⟩
  have sectioned := @adjustments_sectioned Client server db userId assetId adjustment columns
  obtain ⟨finished,active,serial,keeps⟩ := sectioned.entries steady runs
  obtain ⟨_,sum⟩ := settled_quantity standing keeps serial.ended
  rw [serial.committed,sum]
  have unique : finished.Nodup := (List.nodup_append.mp serial.nodup).1
  rw [← List.sum_toFinset _ unique]
  refine congrArg _ (Finset.sum_subset (Finset.subset_univ _) fun client _ absent => ?_)
  exact outside_adds_nothing (steady client) serial fun member => absent (List.mem_toFinset.mpr member)

def sampleHolding : Database := sample.insert .positions (⟨41,1,11,1,100⟩ : Position)

def sampleAdjustments (client : Fin 2) : Adjustment :=
  if client = oneClient then ⟨21,1,100⟩ else ⟨23,2,100⟩

/-- Each transaction locks its own account, both read the position before either
of them writes it, both commit, and the first BUY is lost. -/
theorem position_update_lost :
    ∃ config, Transaction.Reachable sampleServer.engine (adjustments 1 11 sampleAdjustments) sampleHolding config ∧
      (∀ client, (config.status client).isCommitted = true) ∧
      config.committed.quantity 1 11 ≠
        sampleHolding.quantity 1 11 + ∑ client, (sampleAdjustments client).quantityDelta := by
  have scheduled : (Transaction.follow sampleServer.engine (adjustments 1 11 sampleAdjustments)
      (List.replicate 5 0 ++ List.replicate 5 1 ++ List.replicate 3 0 ++ List.replicate 3 1)
      (.initial sampleHolding)).map (fun config => ((config.status 0).isCommitted,(config.status 1).isCommitted,
        config.committed.quantity 1 11)) = some (true,true,3) := by
    decide +kernel
  obtain ⟨config,followed,facts⟩ := Option.map_eq_some_iff.mp scheduled
  obtain ⟨first,facts⟩ := Prod.mk.inj facts
  obtain ⟨second,quantity⟩ := Prod.mk.inj facts
  refine ⟨config,Transaction.follow_reachable .refl followed,?_,?_⟩
  · intro client
    match client with
    | 0 => exact first
    | 1 => exact second
  · rw [quantity]
    decide +kernel

/-- One after the other, both deltas reach the position. -/
theorem position_updates_kept_serial :
    ∃ config, Runs sampleServer.engine (adjustments 1 11 sampleAdjustments) (fun config label =>
        Careful (fun client op => readsPosition (sampleAdjustments client) op = true) config label ∧
          Entering (fun client op => readsPosition (sampleAdjustments client) op = true)
            (FindsRoom sampleServer 1 11 sampleAdjustments) config label) (.initial sampleHolding) config ∧
      (∀ client, (config.status client).isCommitted = true) ∧
      config.committed.quantity 1 11 = sampleHolding.quantity 1 11 +
        ∑ client, added (sampleAdjustments client) (config.status client) := by
  have scheduled : ((Transaction.follow sampleServer.engine (adjustments 1 11 sampleAdjustments)
      (List.replicate 8 0) (.initial sampleHolding)).bind fun middle => (Transaction.follow sampleServer.engine
        (adjustments 1 11 sampleAdjustments) (List.replicate 8 1) middle).map fun config =>
          ((middle.status 0).isEnded,middle.committed.quantity 1 11,
            (config.status 0).isCommitted && (config.status 1).isCommitted)) = some (true,2,true) := by
    decide +kernel
  obtain ⟨middle,followed,later⟩ := Option.bind_eq_some_iff.mp scheduled
  obtain ⟨config,finished,facts⟩ := Option.map_eq_some_iff.mp later
  obtain ⟨ended,facts⟩ := Prod.mk.inj facts
  obtain ⟨two,both⟩ := Prod.mk.inj facts
  obtain ⟨first,second⟩ := Bool.and_eq_true_iff.mp both
  have room : FindsRoom sampleServer 1 11 sampleAdjustments 0 sampleHolding := by
    unfold FindsRoom
    decide +kernel
  have enough : FindsRoom sampleServer 1 11 sampleAdjustments 1 middle.committed := by
    unfold FindsRoom
    rw [two]
    decide +kernel
  have opening := Transaction.follow_alone
    (fun client op => readsPosition (sampleAdjustments client) op = true)
    (fun other _ session running => (by cases running))
    room followed
  have closing := Transaction.follow_alone
    (fun client op => readsPosition (sampleAdjustments client) op = true) (fun other different session running => by
      obtain rfl : other = 0 := by
        match other with
        | 0 => rfl
        | 1 => exact absurd rfl different
      rw [running] at ended
      cases ended) enough finished
  refine ⟨config,opening.trans closing,fun client => ?_,position_updates_kept sampleServer rfl 1 11 sampleAdjustments
    sampleHolding ?_ (by decide +kernel) ?_ config (opening.trans closing)⟩
  · match client with
    | 0 => exact first
    | 1 => exact second
  · intro t
    cases t <;> decide
  · intro client idle
    match client with
    | 0 => exact absurd idle (by decide)
    | 1 => exact absurd idle (by decide)

end CryptoBrokerage
