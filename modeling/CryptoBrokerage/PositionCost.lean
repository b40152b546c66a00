import CryptoBrokerage.AverageCost
import CryptoBrokerage.Repositories

/-! `upsert_position` trades what the user holds of the asset at weighted-average
cost and stores the result, as far as the context and the columns keep its digits. -/
namespace CryptoBrokerage
open Transaction (Program Engine View)
open AverageCost (Trade Inventory)
open DecimalContext (rounded)

def Position.holding (position : Position) : Inventory ℚ := ⟨position.quantity,position.averagePrice⟩

def Position.hold (position : Position) (holding : Inventory ℚ) : Position :=
  { position with quantity := holding.quantity, averagePrice := holding.average }

def Position.flat (id userId assetId : Uuid) : Position := ⟨id,userId,assetId,0,0⟩

@[simp] theorem Position.holding_hold (position : Position) (holding : Inventory ℚ) :
    (position.hold holding).holding = holding := rfl

@[simp] theorem Position.hold_hold (position : Position) (first second : Inventory ℚ) :
    (position.hold first).hold second = position.hold second := rfl

theorem Position.hold_same {position : Position} {holding : Inventory ℚ} (same : position.holding = holding) :
    position.hold holding = position := by
  rw [← same]
  rfl

namespace Database

def position (db : Database) (userId assetId : Uuid) : Option Position :=
  (db .positions).find? (fun position => position.userId == userId && position.assetId == assetId)

def holding (db : Database) (userId assetId : Uuid) : Inventory ℚ :=
  (db.position userId assetId).elim ⟨0,0⟩ Position.holding

theorem position_some {db : Database} {userId assetId : Uuid} {position : Position}
    (chosen : db.position userId assetId = some position) :
    position ∈ db .positions ∧ position.userId = userId ∧ position.assetId = assetId :=
  ⟨List.mem_of_find?_eq_some chosen,by simpa using List.find?_some chosen⟩

theorem position_replace (db : Database) {t : Table} (row : t.Row) (other : t ≠ .positions) (userId assetId : Uuid) :
    (db.replace t row).position userId assetId = db.position userId assetId := by
  rw [position,position,replace_other db row other.symm]

end Database

def Database.hold (db : Database) (id userId assetId : Uuid) (holding : Inventory ℚ) :
    Except Exception (Position × Database) :=
  match db.position userId assetId with
  | some position => .ok (position.hold holding,db.replace .positions (position.hold holding))
  | none =>
    match db.violated .positions (Position.flat id userId assetId) with
    | some constraint => .error (.integrity constraint)
    | none => .ok ((Position.flat id userId assetId).hold holding,
        db.insert .positions ((Position.flat id userId assetId).hold holding))

def Position.traded [DecimalContext] (position : Position) (item : Trade ℚ) : Except Exception (Inventory ℚ) :=
  let quantity := rounded (position.quantity + item.quantity)
  if 0 < item.quantity then do
    let bought ← product item.quantity item.price
    if quantity = 0 then .error .divisionByZero
    else .ok ⟨quantity,rounded (rounded (rounded (position.quantity * position.averagePrice) + bought) / quantity)⟩
  else .ok ⟨quantity,position.averagePrice⟩

def carried [DecimalContext] (numeric : ℚ → Except Exception ℚ) (position : Option Position) (item : Trade ℚ) :
    Except Exception (Inventory ℚ) :=
  match position with
  | none => do
    let quantity ← numeric item.quantity
    let average ← numeric (if 0 < item.quantity then item.price else 0)
    return ⟨quantity,average⟩
  | some position => do
    let next ← position.traded item
    let quantity ← rewritten numeric position.quantity next.quantity
    let average ← rewritten numeric position.averagePrice next.average
    return ⟨quantity,average⟩

section Upserts
variable {Client : Type} {server : Server Client} {client : Client} {view : View sql Database} {userId assetId : Uuid}

theorem changed_mapM (numeric : ℚ → Except Exception ℚ) (old new : ℚ) :
    (fun column : Option ℚ => column.getD old) <$> (changed old (some new)).mapM numeric = rewritten numeric old new := by
  rw [rewritten_column]
  by_cases same : new = old
  · rw [if_pos same,rewritten,if_pos same]
    rfl
  · rw [if_neg same]
    cases rewritten numeric old new <;> rfl

theorem updated_position (numeric : ℚ → Except Exception ℚ) (position : Position) (next : Inventory ℚ) :
    Table.updated numeric .positions position ({ quantity := next.quantity, averagePrice := next.average } : PositionColumns) =
      (do
        let quantity ← rewritten numeric position.quantity next.quantity
        let average ← rewritten numeric position.averagePrice next.average
        return position.hold ⟨quantity,average⟩ : Except Exception Position) := by
  by_cases clean : next.quantity = position.quantity ∧ next.average = position.averagePrice
  · have nothing : Table.dirty .positions position
        ({ quantity := next.quantity, averagePrice := next.average } : PositionColumns) = none := by
      simp [Table.dirty,changed,clean.1,clean.2]
    rw [Table.updated_clean nothing]
    simp only [rewritten,if_pos clean.1,if_pos clean.2]
    rfl
  · have columns : Table.dirty .positions position
        ({ quantity := next.quantity, averagePrice := next.average } : PositionColumns) =
          some ⟨changed position.quantity (some next.quantity),changed position.averagePrice (some next.average)⟩ := by
      rw [Table.dirty,if_neg]
      simp only [PositionColumns.mk.injEq,changed_none]
      exact clean
    rw [Table.updated_dirty columns,← changed_mapM,← changed_mapM]
    cases first : (changed position.quantity (some next.quantity)).mapM numeric with
    | error error => simp [Table.storeColumns,first]; rfl
    | ok quantity =>
      cases second : (changed position.averagePrice (some next.average)).mapM numeric with
      | error error => simp [Table.storeColumns,first,second]; rfl
      | ok average => simp [Table.storeColumns,first,second]; rfl

theorem added_position (id userId assetId : Uuid) (quantity averagePrice : ℚ) (db : Database) :
    server.added client .positions ⟨id,userId,assetId,quantity,averagePrice⟩ db = (do
      let quantity ← server.numeric quantity
      let average ← server.numeric averagePrice
      match db.violated .positions (Position.flat id userId assetId) with
      | some constraint => .error (.integrity constraint)
      | none => .ok ((Position.flat id userId assetId).hold ⟨quantity,average⟩,
          db.insert .positions ((Position.flat id userId assetId).hold ⟨quantity,average⟩)) :
        Except Exception (Position × Database)) := by
  unfold Server.added
  cases first : server.numeric quantity with
  | error error => simp [Table.stamp,Table.store,first]; rfl
  | ok kept =>
    cases second : server.numeric averagePrice with
    | error error => simp [Table.stamp,Table.store,first,second]; rfl
    | ok average => simp [Table.stamp,Table.store,first,second]; rfl

/-- `upsert_position` stores what it carries, or raises what that raises. -/
theorem run_upsert [DecimalContext] (keyed : view.db.Keyed) (quantityDelta fillPrice : ℚ) :
    ∃ issued, server.engine.run client (PositionRepository.upsertPosition userId assetId quantityDelta fillPrice) view =
      match carried server.numeric (view.db.position userId assetId) ⟨quantityDelta,fillPrice⟩ with
      | .error error => (.error error,⟨view.db,issued⟩)
      | .ok holding =>
        match view.db.hold (server.uuid4 client (view.issued.length + 1)) userId assetId holding with
        | .ok (row,db) => (.ok row,⟨db,issued⟩)
        | .error error => (.error error,⟨view.db,issued⟩) := by
  have read : server.engine.run client (PositionRepository.getByUserAndAsset userId assetId) view =
      (.ok (view.db.position userId assetId),⟨view.db,view.issued ++ [.selectPosition userId assetId]⟩) := rfl
  unfold PositionRepository.upsertPosition
  rw [Engine.run_bind,read]
  unfold Database.hold
  cases chosen : view.db.position userId assetId with
  | none =>
    simp only [carried]
    rw [run_add fun _ => rfl]
    simp only [List.length_append,List.length_singleton]
    rw [added_position]
    cases server.numeric quantityDelta with
    | error error => exact ⟨_,rfl⟩
    | ok quantity =>
      cases server.numeric (if 0 < quantityDelta then fillPrice else 0) with
      | error error => exact ⟨_,rfl⟩
      | ok average =>
        simp only [bind,Except.bind,pure,Except.pure]
        cases view.db.violated .positions (Position.flat (server.uuid4 client (view.issued.length + 1)) userId assetId)
          <;> exact ⟨_,rfl⟩
  | some position =>
    obtain ⟨member,rfl,rfl⟩ := Database.position_some chosen
    have stored (next : Inventory ℚ) : ∃ issued, server.engine.run client (BaseRepository.update .positions position
        ({ quantity := next.quantity, averagePrice := next.average } : PositionColumns))
        ⟨view.db,view.issued ++ [.selectPosition position.userId position.assetId]⟩ =
          match (do
            let quantity ← rewritten server.numeric position.quantity next.quantity
            let average ← rewritten server.numeric position.averagePrice next.average
            return ⟨quantity,average⟩ : Except Exception (Inventory ℚ)) with
          | .error error => (.error error,⟨view.db,issued⟩)
          | .ok holding => (.ok (position.hold holding),⟨view.db.replace .positions (position.hold holding),issued⟩) := by
      obtain ⟨issued,ran⟩ := @run_update _ server client
        ⟨view.db,view.issued ++ [.selectPosition position.userId position.assetId]⟩ .positions position
        { quantity := next.quantity, averagePrice := next.average } keyed member
      rw [updated_position] at ran
      refine ⟨issued,ran.trans ?_⟩
      cases rewritten server.numeric position.quantity next.quantity with
      | error error => rfl
      | ok quantity => cases rewritten server.numeric position.averagePrice next.average <;> rfl
    change ∃ issued, server.engine.run client (if 0 < quantityDelta then
      Program.done (product quantityDelta fillPrice) >>= fun bought =>
        if rounded (position.quantity + quantityDelta) = 0 then _ else _ else _) _ = _
    unfold carried Position.traded
    by_cases buys : 0 < quantityDelta
    · simp only [if_pos buys]
      cases product quantityDelta fillPrice with
      | error error => exact ⟨_,rfl⟩
      | ok bought =>
        by_cases flat : rounded (position.quantity + quantityDelta) = 0
        · simp only [if_pos flat]
          exact ⟨_,rfl⟩
        · simp only [if_neg flat]
          exact stored ⟨_,_⟩
    · simp only [if_neg buys]
      exact stored ⟨_,_⟩

end Upserts

section Holds
variable {id userId assetId : Uuid} {holding : Inventory ℚ} {db after : Database} {row : Position}

theorem hold_absent (absent : db.position userId assetId = none) (id : Uuid) (holding : Inventory ℚ) :
    db.hold id userId assetId holding =
      match db.violated .positions (Position.flat id userId assetId) with
      | some constraint => .error (.integrity constraint)
      | none => .ok ((Position.flat id userId assetId).hold holding,
          db.insert .positions ((Position.flat id userId assetId).hold holding)) := by
  unfold Database.hold
  rw [absent]

/-- A holding is stored in a new row that no constraint refuses, or in the row there is. -/
theorem hold_cases (held : db.hold id userId assetId holding = .ok (row,after)) :
    (db.position userId assetId = none ∧
      db.violated .positions (Position.flat id userId assetId) = none ∧
      row = (Position.flat id userId assetId).hold holding ∧ after = db.insert .positions row) ∨
    ∃ position, db.position userId assetId = some position ∧ row = position.hold holding ∧
      after = db.replace .positions row := by
  cases chosen : db.position userId assetId with
  | none =>
    rw [hold_absent chosen] at held
    cases valid : db.violated .positions (Position.flat id userId assetId) with
    | some constraint =>
      rw [valid] at held
      cases held
    | none =>
      rw [valid] at held
      cases held
      exact Or.inl ⟨rfl,rfl,rfl,rfl⟩
  | some position =>
    unfold Database.hold at held
    rw [chosen] at held
    cases held
    exact Or.inr ⟨position,rfl,rfl,rfl⟩

structure Held (userId assetId : Uuid) (holding : Inventory ℚ) (before : Database) (row : Position) (after : Database) :
    Prop where
  keyed : after.Keyed
  others : ∀ t, t ≠ .positions → after t = before t
  found : after.position userId assetId = some row
  holds : row.holding = holding

theorem hold_ok (keyed : db.Keyed)
    (held : db.hold id userId assetId holding = .ok (row,after)) :
    Held userId assetId holding db row after := by
  rcases hold_cases held with ⟨absent,valid,rfl,rfl⟩ | ⟨position,chosen,rfl,rfl⟩
  · refine ⟨keyed.insert (Database.violated_none valid).1,fun t other => Database.insert_other _ _ other,?_,rfl⟩
    unfold Database.position at absent ⊢
    rw [Database.insert_self,List.find?_append,absent]
    simp [Position.flat,Position.hold]
  · obtain ⟨member,rfl,rfl⟩ := Database.position_some chosen
    refine ⟨keyed.replace _ _,fun t other => Database.replace_other _ _ other,?_,rfl⟩
    have modified := keyed.modify member { quantity := some holding.quantity, averagePrice := some holding.average }
    change (db.replace .positions (Table.assign .positions
      { quantity := some holding.quantity, averagePrice := some holding.average } position)).position _ _ = _
    rw [← modified]
    unfold Database.position at chosen ⊢
    rw [Database.find_position_modify,chosen]
    simp [Table.key,Table.assign,Position.hold]

theorem Held.kept (held : Held userId assetId holding db row after) : after.holding userId assetId = holding := by
  rw [Database.holding,held.found]
  exact held.holds

theorem hold_found (found : db.position userId assetId = some row) (id : Uuid) (next : Inventory ℚ) :
    db.hold id userId assetId next =
      .ok (row.hold next,db.replace .positions (row.hold next)) := by
  unfold Database.hold
  rw [found]

/-- Where one holding is stored any other one is. -/
theorem hold_other (held : db.hold id userId assetId holding = .ok (row,after))
    (next : Inventory ℚ) : db.hold id userId assetId next =
      .ok (row.hold next,after.replace .positions (row.hold next)) := by
  rcases hold_cases held with ⟨absent,valid,rfl,rfl⟩ | ⟨position,chosen,rfl,rfl⟩
  · have fresh := Database.fresh_of_valid valid
    have stored := @Database.replace_insert db .positions
      ((Position.flat id userId assetId).hold holding)
      ((Position.flat id userId assetId).hold next) fresh rfl
    rw [hold_absent absent,valid,Position.hold_hold,stored]
  · have stored := @Database.replace_replace db .positions (position.hold holding) (position.hold next) rfl
    rw [hold_found chosen,Position.hold_hold,stored]

theorem hold_error {error : Exception}
    (failed : db.hold id userId assetId holding = .error error) :
    ∃ constraint, error = .integrity constraint ∧ db.position userId assetId = none ∧
      db.violated .positions (Position.flat id userId assetId) = some constraint := by
  cases chosen : db.position userId assetId with
  | none =>
    rw [hold_absent chosen] at failed
    cases valid : db.violated .positions (Position.flat id userId assetId) with
    | some constraint =>
      rw [valid] at failed
      cases failed
      exact ⟨constraint,rfl,rfl,rfl⟩
    | none =>
      rw [valid] at failed
      cases failed
  | some position =>
    unfold Database.hold at failed
    rw [chosen] at failed
    cases failed

theorem hold_refused {error : Exception}
    (failed : db.hold id userId assetId holding = .error error) (next : Inventory ℚ) :
    db.hold id userId assetId next = .error error := by
  obtain ⟨constraint,rfl,absent,violated⟩ := hold_error failed
  rw [hold_absent absent,violated]

end Holds

section Exact
attribute [local instance] DecimalContext.exact

theorem trade_absent (quantityDelta fillPrice : ℚ) : (⟨0,0⟩ : Inventory ℚ).trade ⟨quantityDelta,fillPrice⟩ =
    some ⟨quantityDelta,if 0 < quantityDelta then fillPrice else 0⟩ := by
  unfold Inventory.trade
  split
  · next buys => simp [Inventory.cost,buys.ne',mul_div_cancel_left₀]
  · simp

/-- Where no digit is lost, a call carries what the trade comes to. -/
theorem carried_exact (position : Option Position) (item : Trade ℚ) : carried .ok position item =
    match (position.elim ⟨0,0⟩ Position.holding).trade item with
    | none => .error .divisionByZero
    | some holding => .ok holding := by
  cases position with
  | none =>
    rw [Option.elim_none,trade_absent]
    rfl
  | some position =>
    have columns (old new : ℚ) : rewritten .ok old new = .ok new := by
      unfold rewritten
      split
      · next same => rw [same]
      · rfl
    have kept (next : Inventory ℚ) : (do
        let quantity ← rewritten .ok position.quantity next.quantity
        let average ← rewritten .ok position.averagePrice next.average
        return ⟨quantity,average⟩ : Except Exception (Inventory ℚ)) = .ok next := by
      rw [columns,columns]
      rfl
    have sent : carried .ok (some position) item = position.traded item := by
      unfold carried
      simp only [kept]
      cases position.traded item <;> rfl
    rw [sent,Option.elim_some]
    by_cases buys : 0 < item.quantity
    · by_cases flat : position.quantity + item.quantity = 0
      · rw [@Inventory.trade_flat ℚ _ _ position.holding _ buys flat]
        simp [Position.traded,buys,flat]
        rfl
      · rw [@Inventory.trade_buy ℚ _ _ position.holding _ buys flat]
        simp [Position.traded,buys,flat,Position.holding,Inventory.cost]
        rfl
    · rw [@Inventory.trade_sell ℚ _ _ position.holding _ buys]
      simp [Position.traded,buys,Position.holding]

theorem run_upsert_exact {Client : Type} {uuid4 : Client → Nat → Uuid} {now : Client → Timestamp} {client : Client}
    {view : View sql Database} {userId assetId : Uuid} (keyed : view.db.Keyed) (quantityDelta fillPrice : ℚ) :
    ∃ issued, (Server.exact uuid4 now).engine.run client
        (PositionRepository.upsertPosition userId assetId quantityDelta fillPrice) view =
      match (view.db.holding userId assetId).trade ⟨quantityDelta,fillPrice⟩ with
      | none => (.error .divisionByZero,⟨view.db,issued⟩)
      | some holding =>
        match view.db.hold (uuid4 client (view.issued.length + 1)) userId assetId holding with
        | .ok (row,db) => (.ok row,⟨db,issued⟩)
        | .error error => (.error error,⟨view.db,issued⟩) := by
  obtain ⟨issued,ran⟩ := @run_upsert _ (Server.exact uuid4 now) client view userId assetId _ keyed quantityDelta fillPrice
  change _ = (match carried .ok (view.db.position userId assetId) ⟨quantityDelta,fillPrice⟩ with
    | .error _ => _ | .ok _ => _) at ran
  rw [carried_exact] at ran
  refine ⟨issued,ran.trans ?_⟩
  unfold Database.holding
  cases ((view.db.position userId assetId).elim ⟨0,0⟩ Position.holding).trade ⟨quantityDelta,fillPrice⟩ <;> rfl

end Exact

section Whole
variable [DecimalContext] {numeric : ℚ → Except Exception ℚ}

/-- No digit is lost of the new quantity of a call, nor of the cost that a buy divides. -/
structure Whole (numeric : ℚ → Except Exception ℚ) (held : Inventory ℚ) (item : Trade ℚ) : Prop where
  quantity : Keeps numeric (held.quantity + item.quantity)
  bought : 0 < item.quantity → product item.quantity item.price = .ok (item.quantity * item.price)
  cost : 0 < item.quantity → rounded held.cost = held.cost
  paid : 0 < item.quantity →
    rounded (held.cost + item.quantity * item.price) = held.cost + item.quantity * item.price

variable {item : Trade ℚ} {next : Inventory ℚ}

/-- A call whose cost is whole differs from the exact trade by what is kept of a new average. -/
theorem carried_whole {position : Option Position} (zero : numeric 0 = .ok 0)
    (whole : Whole numeric (position.elim ⟨0,0⟩ Position.holding) item)
    (traded : (position.elim ⟨0,0⟩ Position.holding).trade item = some next)
    (first : 0 < item.quantity → position = none → numeric item.price = .ok item.price) {kept : ℚ}
    (room : 0 < item.quantity → numeric (rounded next.average) = .ok kept) :
    ∃ average, carried numeric position item = .ok ⟨next.quantity,average⟩ ∧
      (average = next.average ∨ 0 < item.quantity ∧ (average = rounded next.average ∨ average = kept)) := by
  have quantity := Inventory.trade_quantity traded
  cases position with
  | none =>
    rw [Option.elim_none,trade_absent] at traded
    cases traded
    have given := whole.quantity.2
    rw [Option.elim_none] at given
    rw [zero_add] at given
    refine ⟨_,?_,Or.inl rfl⟩
    unfold carried
    rw [given]
    by_cases buys : 0 < item.quantity
    · simp [if_pos buys,first buys]
      rfl
    · simp [if_neg buys,zero]
      rfl
  | some position =>
    rw [Option.elim_some] at whole traded quantity
    have sum : rounded (position.quantity + item.quantity) = next.quantity := whole.quantity.1.trans quantity.symm
    have stored : rewritten numeric position.quantity next.quantity = .ok next.quantity :=
      rewritten_keeps (by rw [quantity]; exact whole.quantity.2)
    unfold carried Position.traded
    by_cases buys : 0 < item.quantity
    · have moved : next.quantity ≠ 0 := by
        rw [quantity]
        intro flat
        rw [Inventory.trade_flat buys flat] at traded
        cases traded
      have cost : rounded (position.quantity * position.averagePrice) = position.quantity * position.averagePrice :=
        whole.cost buys
      have paid : rounded (position.quantity * position.averagePrice + item.quantity * item.price) =
        position.quantity * position.averagePrice + item.quantity * item.price := whole.paid buys
      have average : next.average =
          (position.quantity * position.averagePrice + item.quantity * item.price) / next.quantity := by
        rw [eq_div_iff moved,mul_comm]
        exact Inventory.trade_cost buys traded
      obtain ⟨kept,ran,same⟩ := @rewritten_ok numeric position.averagePrice _ _ (room buys)
      refine ⟨kept,?_,Or.inr ⟨buys,same⟩⟩
      simp only [if_pos buys,whole.bought buys,sum,if_neg moved,cost,paid,← average,bind,Except.bind,stored,ran]
      rfl
    · have same := Inventory.trade_average buys traded
      refine ⟨next.average,?_,Or.inl rfl⟩
      have unsent : rewritten numeric position.averagePrice position.averagePrice = .ok position.averagePrice :=
        if_pos rfl
      simp only [if_neg buys,sum,bind,Except.bind,stored,unsent,same]
      rfl

end Whole

end CryptoBrokerage
