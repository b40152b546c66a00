import CryptoBrokerage.Numeric
import Mathlib.Data.List.Nodup
import CryptoBrokerage.Transaction.Protocol

/-! The PostgreSQL schema and the statements that the repositories send. Keys,
unique indexes and foreign keys are checked on insertion; an `UPDATE` sets the
columns it names; the row lock of a foreign-key check is left out, which only
adds interleavings. -/
namespace CryptoBrokerage
open Transaction (Signature Program Engine)

inductive Table
  | users
  | userProfiles
  | assets
  | accounts
  | bankAccounts
  | orders
  | tradeExecutions
  | positions
  | transactions
  | ledgerEntries
  deriving DecidableEq, Repr

structure OrderColumns where
  filledAmount : Option ℚ := none
  status : Option OrderStatus := none
  deriving DecidableEq, Repr

structure PositionColumns where
  quantity : Option ℚ := none
  averagePrice : Option ℚ := none
  deriving DecidableEq, Repr

structure TransactionColumns where
  status : Option TransactionStatus := none
  referenceId : Option String := none
  deriving DecidableEq, Repr

structure LedgerEntryColumns where
  debitAccountId : Option Uuid := none
  creditAccountId : Option Uuid := none
  amount : Option ℚ := none
  currency : Option String := none
  referenceType : Option String := none
  referenceId : Option String := none
  deriving DecidableEq, Repr

inductive IndexEntry
  | email (email : String)
  | profile (userId : Uuid)
  | symbol (symbol : String)
  | userCurrency (userId : Uuid) (currency : String)
  | idempotencyKey (key : String)
  | userAsset (userId assetId : Uuid)
  deriving DecidableEq, Repr

namespace Table

abbrev Row : Table → Type
  | .users => User
  | .userProfiles => UserProfile
  | .assets => Asset
  | .accounts => Account
  | .bankAccounts => BankAccount
  | .orders => Order
  | .tradeExecutions => TradeExecution
  | .positions => Position
  | .transactions => CryptoBrokerage.Transaction
  | .ledgerEntries => LedgerEntry

abbrev Columns : Table → Type
  | .orders => OrderColumns
  | .positions => PositionColumns
  | .transactions => TransactionColumns
  | .ledgerEntries => LedgerEntryColumns
  | _ => Empty

def name : Table → String
  | .users => "users"
  | .userProfiles => "user_profiles"
  | .assets => "assets"
  | .accounts => "accounts"
  | .bankAccounts => "bank_accounts"
  | .orders => "orders"
  | .tradeExecutions => "trade_executions"
  | .positions => "positions"
  | .transactions => "transactions"
  | .ledgerEntries => "ledger_entries"

def key : (t : Table) → t.Row → Uuid
  | .users, row => row.id
  | .userProfiles, row => row.id
  | .assets, row => row.id
  | .accounts, row => row.id
  | .bankAccounts, row => row.id
  | .orders, row => row.id
  | .tradeExecutions, row => row.id
  | .positions, row => row.id
  | .transactions, row => row.id
  | .ledgerEntries, row => row.id

def indexEntries : (t : Table) → t.Row → List IndexEntry
  | .users, row => [.email row.email]
  | .userProfiles, row => [.profile row.userId]
  | .assets, row => [.symbol row.symbol]
  | .accounts, row => [.userCurrency row.userId row.currency]
  | .orders, row => [.idempotencyKey row.idempotencyKey]
  | .positions, row => [.userAsset row.userId row.assetId]
  | _, _ => []

def assign : (t : Table) → t.Columns → t.Row → t.Row
  | .orders, set, row =>
    { row with
      filledAmount := set.filledAmount.getD row.filledAmount
      status := set.status.getD row.status }
  | .positions, set, row =>
    { row with
      quantity := set.quantity.getD row.quantity
      averagePrice := set.averagePrice.getD row.averagePrice }
  | .transactions, set, row =>
    { row with
      status := set.status.getD row.status
      referenceId := set.referenceId <|> row.referenceId }
  | .ledgerEntries, set, row =>
    { row with
      debitAccountId := set.debitAccountId.getD row.debitAccountId
      creditAccountId := set.creditAccountId.getD row.creditAccountId
      amount := set.amount.getD row.amount
      currency := set.currency.getD row.currency
      referenceType := set.referenceType.getD row.referenceType
      referenceId := set.referenceId.getD row.referenceId }
  | .users, set, _ => set.elim
  | .userProfiles, set, _ => set.elim
  | .assets, set, _ => set.elim
  | .accounts, set, _ => set.elim
  | .bankAccounts, set, _ => set.elim
  | .tradeExecutions, set, _ => set.elim

@[simp] theorem key_assign (t : Table) (set : t.Columns) (row : t.Row) :
    t.key (t.assign set row) = t.key row := by
  cases t <;> first | rfl | exact set.elim

end Table

def changed {α : Type} [DecidableEq α] (old : α) (new : Option α) : Option α :=
  if new = some old then none else new

/-- The columns a flush sends: those whose new value differs from the loaded
one. Without such a column no `UPDATE` is sent. -/
def Table.dirty : (t : Table) → t.Row → t.Columns → Option t.Columns
  | .orders, row, set =>
    let columns : OrderColumns :=
      ⟨changed row.filledAmount set.filledAmount,changed row.status set.status⟩
    if columns = {} then none else some columns
  | .positions, row, set =>
    let columns : PositionColumns :=
      ⟨changed row.quantity set.quantity,changed row.averagePrice set.averagePrice⟩
    if columns = {} then none else some columns
  | .transactions, row, set =>
    let columns : TransactionColumns :=
      ⟨changed row.status set.status,if set.referenceId = row.referenceId then none else set.referenceId⟩
    if columns = {} then none else some columns
  | .ledgerEntries, row, set =>
    let columns : LedgerEntryColumns :=
      ⟨changed row.debitAccountId set.debitAccountId,changed row.creditAccountId set.creditAccountId,
        changed row.amount set.amount,changed row.currency set.currency,
        changed row.referenceType set.referenceType,changed row.referenceId set.referenceId⟩
    if columns = {} then none else some columns
  | .users, _, set => set.elim
  | .userProfiles, _, set => set.elim
  | .assets, _, set => set.elim
  | .accounts, _, set => set.elim
  | .bankAccounts, _, set => set.elim
  | .tradeExecutions, _, set => set.elim

theorem changed_getD {α : Type} [DecidableEq α] (old : α) (new : Option α) :
    (changed old new).getD old = new.getD old := by
  unfold changed
  split
  · next same => rw [same]; rfl
  · rfl

theorem changed_none {α : Type} [DecidableEq α] {old new : α} : changed old (some new) = none ↔ new = old := by
  simp [changed]

/-- What the column holds after a flush, which sends no value that is as before. -/
def rewritten (numeric : ℚ → Except Exception ℚ) (old new : ℚ) : Except Exception ℚ :=
  if new = old then .ok old else numeric new

theorem rewritten_column (numeric : ℚ → Except Exception ℚ) (old new : ℚ) :
    (changed old (some new)).mapM numeric = if new = old then .ok none else (rewritten numeric old new).map some := by
  unfold changed rewritten
  by_cases same : new = old
  · rw [if_pos same,if_pos (congrArg some same)]
    rfl
  · rw [if_neg same,if_neg same,if_neg fun other => same (Option.some.inj other),Option.mapM_some]
    cases numeric new <;> rfl

theorem rewritten_ok {numeric : ℚ → Except Exception ℚ} {old new kept : ℚ} (ok : numeric new = .ok kept) :
    ∃ stored, rewritten numeric old new = .ok stored ∧ (stored = new ∨ stored = kept) := by
  unfold rewritten
  split
  · next same => exact ⟨old,rfl,Or.inl same.symm⟩
  · exact ⟨kept,ok,Or.inr rfl⟩

theorem rewritten_keeps {numeric : ℚ → Except Exception ℚ} {old new : ℚ} (keeps : numeric new = .ok new) :
    rewritten numeric old new = .ok new := by
  obtain ⟨stored,ran,same | same⟩ := @rewritten_ok numeric old new new keeps <;> rw [ran,same]

theorem changed_orElse {α : Type} [DecidableEq α] (old new : Option α) :
    ((if new = old then none else new) <|> old) = (new <|> old) := by
  split
  · next same => subst same; cases new <;> rfl
  · rfl

theorem Table.assign_dirty (t : Table) (row : t.Row) (set : t.Columns) :
    (match t.dirty row set with
      | some columns => t.assign columns row
      | none => row) = t.assign set row := by
  have whole (columns : t.Columns) (empty : t.Columns) [Decidable (columns = empty)]
      (idle : t.assign empty row = row) (same : t.assign columns row = t.assign set row) :
      (match (if columns = empty then none else some columns) with
        | some columns => t.assign columns row
        | none => row) = t.assign set row := by
    by_cases clean : columns = empty
    · rw [if_pos clean,← same,clean]
      exact idle.symm
    · rw [if_neg clean]
      exact same
  cases t with
  | orders => exact whole _ _ rfl (by simp only [assign,changed_getD])
  | positions => exact whole _ _ rfl (by simp only [assign,changed_getD])
  | transactions =>
    refine whole _ _ ?_ (by simp only [assign,changed_getD,changed_orElse])
    cases row with | mk id userId type status referenceId createdAt => rfl
  | ledgerEntries => exact whole _ _ rfl (by simp only [assign,changed_getD])
  | users => exact set.elim
  | userProfiles => exact set.elim
  | assets => exact set.elim
  | accounts => exact set.elim
  | bankAccounts => exact set.elim
  | tradeExecutions => exact set.elim

theorem Table.dirty_order {row : Order} {set columns : OrderColumns}
    (dirty : Table.dirty .orders row set = some columns) :
    columns = ⟨changed row.filledAmount set.filledAmount,changed row.status set.status⟩ := by
  rw [Table.dirty,Option.ite_none_left_eq_some] at dirty
  exact (Option.some.inj dirty.2).symm

theorem Table.dirty_position {row : Position} {set columns : PositionColumns}
    (dirty : Table.dirty .positions row set = some columns) :
    columns = ⟨changed row.quantity set.quantity,changed row.averagePrice set.averagePrice⟩ := by
  rw [Table.dirty,Option.ite_none_left_eq_some] at dirty
  exact (Option.some.inj dirty.2).symm

theorem Table.dirty_entry {row : LedgerEntry} {set columns : LedgerEntryColumns}
    (dirty : Table.dirty .ledgerEntries row set = some columns) : columns =
      ⟨changed row.debitAccountId set.debitAccountId,changed row.creditAccountId set.creditAccountId,
        changed row.amount set.amount,changed row.currency set.currency,
        changed row.referenceType set.referenceType,changed row.referenceId set.referenceId⟩ := by
  rw [Table.dirty,Option.ite_none_left_eq_some] at dirty
  exact (Option.some.inj dirty.2).symm

theorem Table.dirty_moved {row : CryptoBrokerage.Transaction} {status : TransactionStatus}
    (moved : row.status ≠ status) (referenceId : Option String) :
    Table.dirty .transactions row { status, referenceId } =
      some ⟨some status,if referenceId = row.referenceId then none else referenceId⟩ := by
  have other : ¬some status = some row.status := fun same => moved (Option.some.inj same).symm
  simp [dirty,changed,other]

/-- The row with its server defaults: `now()` is the start of the transaction. -/
def Table.stamp (now : Timestamp) : (t : Table) → t.Row → t.Row
  | .orders, row => { row with createdAt := now }
  | .transactions, row => { row with createdAt := now }
  | .ledgerEntries, row => { row with createdAt := now }
  | .users, row => row
  | .userProfiles, row => row
  | .assets, row => row
  | .accounts, row => row
  | .bankAccounts, row => row
  | .tradeExecutions, row => row
  | .positions, row => row

@[simp] theorem Table.key_stamp (now : Timestamp) (t : Table) (row : t.Row) :
    t.key (t.stamp now row) = t.key row := by
  cases t <;> rfl

def varchar (width : ℕ) (text : String) : Except Exception String :=
  if '\x00' ∈ text.toList then .error (.data "invalid byte sequence for encoding \"UTF8\": 0x00")
  else if width < text.length then .error (.data s!"value too long for type character varying({width})")
  else .ok text

theorem varchar_ok {width : ℕ} {text stored : String} (ok : varchar width text = .ok stored) : stored = text := by
  unfold varchar at ok
  split at ok
  · cases ok
  · split at ok
    · cases ok
    · exact (Except.ok.inj ok).symm

section Numeric
variable (numeric : ℚ → Except Exception ℚ)

def Table.store : (t : Table) → t.Row → Except Exception t.Row
  | .orders, row => do
    let amount ← numeric row.amount
    let filledAmount ← numeric row.filledAmount
    let price ← row.price.mapM numeric
    return { row with amount, filledAmount, price }
  | .tradeExecutions, row => do
    let executedPrice ← numeric row.executedPrice
    let executedAmount ← numeric row.executedAmount
    let fee ← numeric row.fee
    return { row with executedPrice, executedAmount, fee }
  | .positions, row => do
    let quantity ← numeric row.quantity
    let averagePrice ← numeric row.averagePrice
    return { row with quantity, averagePrice }
  | .ledgerEntries, row => do
    let amount ← numeric row.amount
    return { row with amount }
  | .users, row => do
    let email ← varchar 254 row.email
    let hashedPassword ← varchar 128 row.hashedPassword
    return { row with email, hashedPassword }
  | .userProfiles, row => do
    let fullName ← varchar 255 row.fullName
    let taxId ← row.taxId.mapM (varchar 64)
    let country ← varchar 2 row.country
    return { row with fullName, taxId, country }
  | .assets, row => .ok row
  | .accounts, row => .ok row
  | .bankAccounts, row => .ok row
  | .transactions, row => .ok row

def Table.storeColumns : (t : Table) → t.Columns → Except Exception t.Columns
  | .orders, set => do
    let filledAmount ← set.filledAmount.mapM numeric
    return { set with filledAmount }
  | .positions, set => do
    let quantity ← set.quantity.mapM numeric
    let averagePrice ← set.averagePrice.mapM numeric
    return { set with quantity, averagePrice }
  | .ledgerEntries, set => do
    let amount ← set.amount.mapM numeric
    return { set with amount }
  | .transactions, set => .ok set
  | .users, set => set.elim
  | .userProfiles, set => set.elim
  | .assets, set => set.elim
  | .accounts, set => set.elim
  | .bankAccounts, set => set.elim
  | .tradeExecutions, set => set.elim

theorem Table.key_store {t : Table} {row stored : t.Row} (ok : t.store numeric row = .ok stored) :
    t.key stored = t.key row := by
  cases t <;> simp only [store,bind,Except.bind] at ok <;> (repeat' split at ok) <;> cases ok <;> rfl

end Numeric

theorem Table.store_ok {t : Table} (user : t ≠ .users) (profile : t ≠ .userProfiles) (row : t.Row) :
    t.store .ok row = .ok row := by
  cases t with
  | users => exact absurd rfl user
  | userProfiles => exact absurd rfl profile
  | orders =>
    have price : row.price.mapM (Except.ok : ℚ → Except Exception ℚ) = .ok row.price := by
      cases row.price <;> rfl
    simp only [store,price]
    rfl
  | _ => rfl

@[simp] theorem Table.storeColumns_ok (t : Table) (set : t.Columns) : t.storeColumns .ok set = .ok set := by
  have kept (column : Option ℚ) : column.mapM (Except.ok : ℚ → Except Exception ℚ) = .ok column := by
    cases column <;> rfl
  cases t with
  | transactions => rfl
  | orders => simp only [storeColumns,kept]; rfl
  | positions => simp only [storeColumns,kept]; rfl
  | ledgerEntries => simp only [storeColumns,kept]; rfl
  | users => exact set.elim
  | userProfiles => exact set.elim
  | assets => exact set.elim
  | accounts => exact set.elim
  | bankAccounts => exact set.elim
  | tradeExecutions => exact set.elim

/-- The committed or visible content of every table, in the order of insertion. -/
abbrev Database := (t : Table) → List t.Row

inductive Write
  | insert (t : Table) (row : t.Row)
  | update (t : Table) (id : Uuid) (set : t.Columns)

namespace Database

def has (db : Database) (t : Table) (id : Uuid) : Bool := (db t).any (fun row => t.key row == id)

def find (db : Database) (t : Table) (id : Uuid) : Option t.Row :=
  (db t).find? (fun row => t.key row == id)

def insert (db : Database) (t : Table) (row : t.Row) : Database :=
  Function.update db t (db t ++ [row])

def modify (db : Database) (t : Table) (id : Uuid) (set : t.Columns) : Database :=
  Function.update db t ((db t).map (fun row => if t.key row = id then t.assign set row else row))

def replace (db : Database) (t : Table) (row : t.Row) : Database :=
  Function.update db t ((db t).map (fun other => if t.key other = t.key row then row else other))

def Keyed (db : Database) : Prop := ∀ t, ((db t).map t.key).Nodup

def apply (db : Database) : Write → Database
  | .insert t row => db.insert t row
  | .update t id set => db.modify t id set

@[simp] theorem insert_self (db : Database) (t : Table) (row : t.Row) : db.insert t row t = db t ++ [row] :=
  Function.update_self ..

theorem insert_other (db : Database) {t other : Table} (row : t.Row) (different : other ≠ t) :
    db.insert t row other = db other := Function.update_of_ne different ..

@[simp] theorem modify_self (db : Database) (t : Table) (id : Uuid) (set : t.Columns) :
    db.modify t id set t = (db t).map (fun row => if t.key row = id then t.assign set row else row) :=
  Function.update_self ..

theorem modify_other (db : Database) {t other : Table} (id : Uuid) (set : t.Columns)
    (different : other ≠ t) : db.modify t id set other = db other := Function.update_of_ne different ..

theorem has_iff {db : Database} {t : Table} {id : Uuid} : db.has t id = true ↔ ∃ row ∈ db t, t.key row = id := by
  simp [has]

theorem find_some {db : Database} {t : Table} {id : Uuid} {row : t.Row} (found : db.find t id = some row) :
    row ∈ db t ∧ t.key row = id :=
  ⟨List.mem_of_find?_eq_some found,by simpa using List.find?_some found⟩

theorem find_insert {db : Database} {t : Table} {row : t.Row} (fresh : db.has t (t.key row) = false) :
    (db.insert t row).find t (t.key row) = some row := by
  have absent : (db t).find? (fun other => t.key other == t.key row) = none := by
    rw [List.find?_eq_none]
    intro other member same
    have inside : db.has t (t.key row) = true := has_iff.mpr ⟨other,member,by simpa using same⟩
    rw [fresh] at inside
    cases inside
  rw [find,insert_self,List.find?_append,absent]
  simp

theorem find_modify (db : Database) (t : Table) (id : Uuid) (set : t.Columns) :
    (db.modify t id set).find t id = (db.find t id).map (t.assign set) := by
  unfold find
  rw [modify_self]
  induction db t with
  | nil => rfl
  | cons row rows ih =>
    by_cases same : t.key row = id
    · simp [same]
    · simpa [same] using ih

@[simp] theorem replace_self (db : Database) (t : Table) (row : t.Row) : db.replace t row t =
    (db t).map (fun other => if t.key other = t.key row then row else other) := Function.update_self ..

theorem replace_other (db : Database) {t other : Table} (row : t.Row) (different : other ≠ t) :
    db.replace t row other = db other := Function.update_of_ne different ..

theorem Keyed.same {db : Database} (keyed : db.Keyed) {t : Table} {row other : t.Row} (member : row ∈ db t)
    (inside : other ∈ db t) (key : t.key other = t.key row) : other = row :=
  List.inj_on_of_nodup_map (keyed t) inside member key

theorem Keyed.find {db : Database} (keyed : db.Keyed) {t : Table} {row : t.Row} (member : row ∈ db t) :
    db.find t (t.key row) = some row := by
  cases found : db.find t (t.key row) with
  | none =>
    have absent := List.find?_eq_none.mp found row member
    simp at absent
  | some other =>
    obtain ⟨inside,key⟩ := find_some found
    rw [keyed.same member inside key]

theorem Keyed.modify {db : Database} (keyed : db.Keyed) {t : Table} {row : t.Row} (member : row ∈ db t)
    (set : t.Columns) : db.modify t (t.key row) set = db.replace t (t.assign set row) := by
  unfold Database.modify replace
  congr 1
  refine List.map_congr_left fun other inside => ?_
  rw [Table.key_assign]
  by_cases key : t.key other = t.key row
  · rw [if_pos key,if_pos key,keyed.same member inside key]
  · rw [if_neg key,if_neg key]

theorem Keyed.replace_same {db : Database} (keyed : db.Keyed) {t : Table} {row : t.Row}
    (member : row ∈ db t) : db.replace t row = db := by
  unfold replace
  refine (congrArg _ ?_).trans (Function.update_eq_self t db)
  refine (List.map_congr_left fun other inside => ?_).trans (List.map_id _)
  by_cases key : t.key other = t.key row
  · rw [if_pos key,keyed.same member inside key]
    rfl
  · rw [if_neg key]
    rfl

theorem replace_replace (db : Database) {t : Table} {first second : t.Row} (same : t.key second = t.key first) :
    (db.replace t first).replace t second = db.replace t second := by
  unfold replace
  rw [Function.update_idem]
  congr 1
  rw [Function.update_self,List.map_map]
  apply List.map_congr_left
  intro other _
  by_cases key : t.key other = t.key first
  · simp [key,same]
  · simp [key,same]

theorem replace_comm (db : Database) {t other : Table} (row : t.Row) (second : other.Row) (different : t ≠ other) :
    (db.replace t row).replace other second = (db.replace other second).replace t row := by
  unfold replace
  rw [Function.update_of_ne different.symm,Function.update_of_ne different]
  exact Function.update_comm different _ _ db

theorem replace_insert {db : Database} {t : Table} {row other : t.Row}
    (fresh : ∀ stored ∈ db t, t.key stored ≠ t.key row) (same : t.key other = t.key row) :
    (db.insert t row).replace t other = db.insert t other := by
  unfold replace insert
  rw [Function.update_idem]
  congr 1
  rw [Function.update_self,List.map_append]
  congr 1
  · rw [List.map_congr_left fun stored inside => if_neg (same ▸ fresh stored inside),List.map_id']
  · simp [same]

theorem Keyed.insert {db : Database} (keyed : db.Keyed) {t : Table} {row : t.Row}
    (fresh : db.has t (t.key row) = false) : (db.insert t row).Keyed := by
  intro other
  by_cases same : other = t
  · subst other
    rw [insert_self,List.map_append,List.nodup_append]
    refine ⟨keyed t,List.nodup_singleton _,?_⟩
    intro key inside last member equal
    obtain ⟨old,present,rfl⟩ := List.mem_map.mp inside
    have named : last = t.key row := by simpa using member
    have held : db.has t (t.key row) = true := has_iff.mpr ⟨old,present,equal.trans named⟩
    rw [fresh] at held
    cases held
  · rw [insert_other db row same]
    exact keyed other

theorem Keyed.replace {db : Database} (keyed : db.Keyed) (t : Table) (row : t.Row) :
    (db.replace t row).Keyed := by
  intro other
  by_cases same : other = t
  · subst other
    have keys : ((db.replace t row) t).map t.key = (db t).map t.key := by
      rw [replace_self,List.map_map]
      refine List.map_congr_left fun old _ => ?_
      change t.key (if t.key old = t.key row then row else old) = t.key old
      split
      · next equal => exact equal.symm
      · rfl
    rw [keys]
    exact keyed t
  · rw [replace_other db row same]
    exact keyed other

def refers (db : Database) : (t : Table) → t.Row → Bool
  | .users, _ => true
  | .userProfiles, row => db.has .users row.userId
  | .assets, _ => true
  | .accounts, row => db.has .users row.userId
  | .bankAccounts, row => db.has .users row.userId
  | .orders, row => db.has .users row.userId && db.has .assets row.assetId
  | .tradeExecutions, row => db.has .orders row.orderId
  | .positions, row => db.has .users row.userId && db.has .assets row.assetId
  | .transactions, row => db.has .users row.userId
  | .ledgerEntries, row => db.has .accounts row.debitAccountId && db.has .accounts row.creditAccountId

def clashes (db : Database) (t : Table) (row : t.Row) : Bool :=
  (db t).any (fun other => (t.indexEntries other).any (fun entry => entry ∈ t.indexEntries row))

def violated (db : Database) (t : Table) (row : t.Row) : Option String :=
  if db.has t (t.key row) then some (t.name ++ "_pkey")
  else if db.clashes t row then some ("uq_" ++ t.name)
  else if db.refers t row then none
  else some (t.name ++ "_fkey")

theorem violated_none {db : Database} {t : Table} {row : t.Row} (valid : db.violated t row = none) :
    db.has t (t.key row) = false ∧ db.clashes t row = false ∧ db.refers t row = true := by
  unfold violated at valid
  split at valid
  · cases valid
  · split at valid
    · cases valid
    · split at valid
      · next fresh alone refers => exact ⟨by simpa using fresh,by simpa using alone,refers⟩
      · cases valid

theorem fresh_of_valid {db : Database} {t : Table} {row : t.Row} (valid : db.violated t row = none) :
    ∀ other ∈ db t, t.key other ≠ t.key row := by
  intro other member same
  have taken : db.has t (t.key row) = true := has_iff.mpr ⟨other,member,same⟩
  rw [(violated_none valid).1] at taken
  cases taken

def credits (db : Database) (account : Uuid) : ℚ :=
  (((db .ledgerEntries).filter (fun entry => entry.creditAccountId == account)).map
    LedgerEntry.amount).sum

def debits (db : Database) (account : Uuid) : ℚ :=
  (((db .ledgerEntries).filter (fun entry => entry.debitAccountId == account)).map
    LedgerEntry.amount).sum

def balance (db : Database) (account : Uuid) : ℚ := db.credits account - db.debits account

def quantity (db : Database) (userId assetId : Uuid) : ℚ :=
  ((db .positions).find? (fun position => position.userId == userId && position.assetId == assetId)).elim 0
    Position.quantity

theorem quantity_insert {db : Database} {row : Position}
    (absent : (db .positions).find? (fun position => position.userId == row.userId &&
      position.assetId == row.assetId) = none) (userId assetId : Uuid) :
    (db.insert .positions row).quantity userId assetId =
      if userId = row.userId ∧ assetId = row.assetId then row.quantity else db.quantity userId assetId := by
  unfold quantity
  rw [insert_self,List.find?_append]
  by_cases same : userId = row.userId ∧ assetId = row.assetId
  · obtain ⟨rfl,rfl⟩ := same
    rw [absent]
    simp
  · have other : ([row] : List Position).find?
        (fun position => position.userId == userId && position.assetId == assetId) = none := by
      rw [List.find?_cons_of_neg,List.find?_nil]
      intro taken
      have named : row.userId = userId ∧ row.assetId = assetId := by simpa using taken
      exact same ⟨named.1.symm,named.2.symm⟩
    rw [other,Option.or_none,if_neg same]

theorem find_position_modify (db : Database) (id : Uuid) (set : PositionColumns) (userId assetId : Uuid) :
    ((db.modify .positions id set) .positions).find?
      (fun position => position.userId == userId && position.assetId == assetId) =
      ((db .positions).find? (fun position => position.userId == userId && position.assetId == assetId)).map
        (fun row => if row.id = id then Table.assign .positions set row else row) := by
  have kept (row : Position) : (if row.id = id then Table.assign .positions set row else row).userId =
      row.userId ∧ (if row.id = id then Table.assign .positions set row else row).assetId = row.assetId := by
    split <;> exact ⟨rfl,rfl⟩
  rw [modify_self,List.find?_map]
  congr 2
  funext row
  change ((if row.id = id then Table.assign .positions set row else row).userId == userId &&
    (if row.id = id then Table.assign .positions set row else row).assetId == assetId) = _
  rw [(kept row).1,(kept row).2]

theorem Keyed.quantity_modify {db : Database} (keyed : db.Keyed) {position : Position}
    (chosen : (db .positions).find? (fun row => row.userId == position.userId &&
      row.assetId == position.assetId) = some position) (set : PositionColumns) (userId assetId : Uuid) :
    (db.modify .positions position.id set).quantity userId assetId =
      if userId = position.userId ∧ assetId = position.assetId then set.quantity.getD position.quantity
      else db.quantity userId assetId := by
  unfold quantity
  rw [find_position_modify]
  by_cases same : userId = position.userId ∧ assetId = position.assetId
  · obtain ⟨rfl,rfl⟩ := same
    rw [chosen]
    simp [Table.assign]
  · rw [if_neg same]
    cases first : (db .positions).find? (fun row => row.userId == userId && row.assetId == assetId) with
    | none => rfl
    | some row =>
      have named : row.userId = userId ∧ row.assetId = assetId := by
        simpa using List.find?_some first
      have other : row.id ≠ position.id := by
        intro key
        have equal := keyed.same (List.mem_of_find?_eq_some chosen) (List.mem_of_find?_eq_some first) key
        subst equal
        exact same ⟨named.1.symm,named.2.symm⟩
      simp [other]

theorem find_key_none {db : Database} {key : String} :
    (db .orders).find? (fun order => order.idempotencyKey == key) = none ↔
      ∀ order ∈ db .orders, order.idempotencyKey ≠ key := by
  simp [List.find?_eq_none]

def ordersOf (db : Database) (userId : Uuid) (status : Option OrderStatus) : List Order :=
  ((db .orders).filter (fun order => order.userId == userId && status.all (order.status == ·))).mergeSort
    (fun first second => decide (second.createdAt ≤ first.createdAt))

end Database

/-- What the repositories and services await: a draw of `uuid4`, a call of the
exchange or of the bank, or one SQL statement. -/
inductive Statement
  | uuid4
  | submitOrder (order : SubmittedOrder)
  | getInstrumentPrices (symbols : List String)
  | initiateTransfer (transfer : InitiatedTransfer)
  | insert (t : Table) (row : t.Row)
  | update (t : Table) (id : Uuid) (set : t.Columns)
  | get (t : Table) (id : Uuid)
  | selectUser (email : String)
  | selectUserId (email : String)
  | selectAccount (userId : Uuid) (currency : String)
  | selectAccounts (userId : Uuid)
  | selectAccountForUpdate (id : Uuid)
  | selectBankAccounts (userId : Uuid)
  | selectBankAccount (userId : Uuid) (externalReference : String)
  | sumCredits (account : Uuid)
  | sumDebits (account : Uuid)
  | selectOrder (idempotencyKey : String)
  | selectOrders (userId : Uuid) (status : Option OrderStatus) (limit offset : Int)
  | selectPosition (userId assetId : Uuid)
  | selectPositions (userId : Uuid)
  | selectTransaction (referenceId : String)
  | selectTransactions (status : TransactionStatus)

abbrev Statement.Reply : Statement → Type
  | .uuid4 => Uuid
  | .submitOrder _ => Unit
  | .getInstrumentPrices _ => Unit
  | .initiateTransfer _ => Unit
  | .insert _ _ => Unit
  | .update _ _ _ => Unit
  | .get t _ => Option t.Row
  | .selectUser _ => Option User
  | .selectUserId _ => Option Uuid
  | .selectAccount _ _ => Option Account
  | .selectAccounts _ => List Account
  | .selectAccountForUpdate _ => Option Account
  | .selectBankAccounts _ => List BankAccount
  | .selectBankAccount _ _ => Option BankAccount
  | .sumCredits _ => ℚ
  | .sumDebits _ => ℚ
  | .selectOrder _ => Option Order
  | .selectOrders _ _ _ _ => List Order
  | .selectPosition _ _ => Option Position
  | .selectPositions _ => List Position
  | .selectTransaction _ => Option CryptoBrokerage.Transaction
  | .selectTransactions _ => List CryptoBrokerage.Transaction

/-- What a transaction holds until it ends: a locked, inserted or updated row,
and its entries in unique indexes. -/
inductive Resource
  | row (t : Table) (id : Uuid)
  | entry (t : Table) (entry : IndexEntry)
  deriving DecidableEq, Repr

abbrev sql : Signature := ⟨Statement,Statement.Reply,Exception⟩

abbrev Action := Program sql

abbrev send (statement : Statement) : Action statement.Reply := Program.perform (S := sql) statement

/-- Which of the rows that it selects a query without ORDER BY returns first. -/
structure FirstRow (Row : Type) where
  pick : List Row → Option Row
  member : ∀ {rows row}, pick rows = some row → row ∈ rows
  absent : ∀ {rows}, pick rows = none → rows = []

def FirstRow.oldest (Row : Type) : FirstRow Row :=
  ⟨List.head?,List.mem_of_mem_head?,List.head?_eq_none_iff.mp⟩

/-- The draws of `uuid4`, the start of each transaction, what the numeric columns
store of a value and which of several rows a query returns first. -/
structure Server (Client : Type) where
  uuid4 : Client → Nat → Uuid
  now : Client → Timestamp
  numeric : ℚ → Except Exception ℚ
  first : Client → Nat → FirstRow CryptoBrokerage.Transaction := fun _ _ => .oldest _

namespace Server
variable {Client : Type}

def exec (server : Server Client) (client : Client) (turn : Nat) :
    (statement : Statement) → Database → Except Exception (statement.Reply × List Write)
  | .uuid4, _ => .ok (server.uuid4 client turn,[])
  | .submitOrder _, _ => .ok ((),[])
  | .getInstrumentPrices _, _ => .ok ((),[])
  | .initiateTransfer _, _ => .ok ((),[])
  | .insert t row, db => do
    let stored ← t.store server.numeric (t.stamp (server.now client) row)
    -- an entry that another open transaction holds makes the INSERT wait for its end
    match db.violated t stored with
    | some constraint => .error (.integrity constraint)
    | none => .ok ((),[.insert t stored])
  | .update t id set, _ => do
    let stored ← t.storeColumns server.numeric set
    .ok ((),[.update t id stored])
  | .get t id, db => .ok (db.find t id,[])
  | .selectUser email, db => .ok ((db .users).find? (fun user => user.email == email),[])
  | .selectUserId email, db => .ok (((db .users).find? (fun user => user.email == email)).map User.id,[])
  | .selectAccount userId currency, db =>
    .ok ((db .accounts).find? (fun account => account.userId == userId && account.currency == currency),[])
  | .selectAccounts userId, db => .ok ((db .accounts).filter (fun account => account.userId == userId),[])
  | .selectAccountForUpdate id, db => .ok (db.find .accounts id,[])
  | .selectBankAccounts userId, db =>
    .ok ((db .bankAccounts).filter (fun bankAccount => bankAccount.userId == userId),[])
  | .selectBankAccount userId externalReference, db =>
    .ok ((db .bankAccounts).find? (fun bankAccount => bankAccount.userId == userId &&
      bankAccount.externalReference == externalReference),[])
  | .sumCredits account, db => .ok (db.credits account,[])
  | .sumDebits account, db => .ok (db.debits account,[])
  | .selectOrder idempotencyKey, db =>
    .ok ((db .orders).find? (fun order => order.idempotencyKey == idempotencyKey),[])
  | .selectOrders userId status limit offset, db =>
    if limit < 0 then .error (.data "LIMIT must not be negative")
    else if offset < 0 then .error (.data "OFFSET must not be negative")
    else .ok ((((db.ordersOf userId status).drop offset.toNat).take limit.toNat),[])
  | .selectPosition userId assetId, db =>
    .ok ((db .positions).find? (fun position => position.userId == userId && position.assetId == assetId),[])
  | .selectPositions userId, db => .ok ((db .positions).filter (fun position => position.userId == userId),[])
  | .selectTransaction referenceId, db =>
    .ok ((server.first client turn).pick
      ((db .transactions).filter (fun transaction => transaction.referenceId == some referenceId)),[])
  | .selectTransactions status, db =>
    .ok ((db .transactions).filter (fun transaction => transaction.status == status),[])

/-- What an answered statement has written. -/
theorem exec_writes {server : Server Client} {client : Client} {turn : Nat} {op : Statement} {db : Database}
    {reply : op.Reply} {writes : List Write} (answered : server.exec client turn op db = .ok (reply,writes)) :
    match op with
    | .insert t row => ∃ stored, t.store server.numeric (t.stamp (server.now client) row) = .ok stored ∧
        db.violated t stored = none ∧ writes = [.insert t stored]
    | .update t id set => ∃ stored, t.storeColumns server.numeric set = .ok stored ∧
        writes = [.update t id stored]
    | _ => writes = [] := by
  cases op with
  | insert t row =>
    simp only [exec,bind,Except.bind] at answered
    split at answered
    · cases answered
    · next stored ok =>
      split at answered
      · cases answered
      · next valid =>
        cases answered
        exact ⟨stored,ok,valid,rfl⟩
  | update t id set =>
    simp only [exec,bind,Except.bind] at answered
    split at answered
    · cases answered
    · next stored ok =>
      cases answered
      exact ⟨stored,ok,rfl⟩
  | selectOrders userId status limit offset =>
    simp only [exec] at answered
    split at answered
    · cases answered
    · split at answered
      · cases answered
      · cases answered
        rfl
  | _ =>
    cases answered
    rfl

def locks : Statement → Database → List Resource
  | .insert t row, _ => .row t (t.key row) :: (t.indexEntries row).map (.entry t)
  | .update t id _, _ => [.row t id]
  | .selectAccountForUpdate id, db => if db.has .accounts id then [.row .accounts id] else []
  | _, _ => []

def engine (server : Server Client) : Engine sql Client Database Write Resource :=
  ⟨Database.apply,server.exec,locks⟩

def exact (uuid4 : Client → Nat → Uuid) (now : Client → Timestamp) : Server Client :=
  { uuid4, now, numeric := .ok }

end Server

/-- Two customers, one asset, and 1000 BRL that the first of them has received
from the second. -/
def sample : Database
  | .users => [⟨1,"ana@example.com","",true⟩,⟨2,"bruno@example.com","",true⟩]
  | .assets => [⟨11,"BTC","Bitcoin"⟩]
  | .accounts =>
    [⟨21,1,"BRL",.fiat⟩,⟨22,1,"BTC",.crypto⟩,⟨23,1,"USD",.fiat⟩,⟨24,2,"BRL",.reserve⟩]
  | .ledgerEntries => [⟨31,24,21,1000,"BRL","DEPOSIT","",0⟩]
  | _ => []

theorem sample_keyed : sample.Keyed := by
  intro t
  cases t <;> decide +kernel

abbrev oneClient : Fin 2 := 0

abbrev otherClient : Fin 2 := 1

def sampleServer : Server (Fin 2) :=
  { uuid4 := fun client turn => BitVec.ofNat 128 (100 * (client + 1) + turn), now := fun _ => 0, numeric := numeric36 }

end CryptoBrokerage
