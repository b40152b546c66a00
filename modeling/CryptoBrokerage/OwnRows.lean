import CryptoBrokerage.Repositories

/-! What one open transaction has written. Every row it has inserted or updated
it holds until it ends, so two open transactions never write the same row. -/
namespace CryptoBrokerage
open Transaction (Engine Program Session)

namespace Write

def table : Write → Table
  | .insert t _ => t
  | .update t _ _ => t

def key : Write → Uuid
  | .insert t row => t.key row
  | .update _ id _ => id

end Write

namespace Database

theorem apply_other (db : Database) {write : Write} {t : Table} (different : write.table ≠ t) :
    (db.apply write) t = db t := by
  cases write with
  | insert other row => exact insert_other db row (Ne.symm different)
  | update other id set => exact modify_other db id set (Ne.symm different)

/-- Where a row comes from that is there after a write. -/
theorem apply_mem {db : Database} {write : Write} {t : Table} {row : t.Row} (member : row ∈ (db.apply write) t) :
    row ∈ db t ∨ write = .insert t row ∨
      ∃ set old, write = .update t (t.key old) set ∧ old ∈ db t ∧ row = t.assign set old := by
  by_cases touched : write.table = t
  · cases write with
    | insert other fresh =>
      obtain rfl : other = t := touched
      change row ∈ db.insert other fresh other at member
      rw [insert_self] at member
      rcases List.mem_append.mp member with old | new
      · exact Or.inl old
      · rw [List.mem_singleton.mp new]
        exact Or.inr (Or.inl rfl)
    | update other id set =>
      obtain rfl : other = t := touched
      change row ∈ db.modify other id set other at member
      rw [modify_self] at member
      obtain ⟨old,inside,rfl⟩ := List.mem_map.mp member
      by_cases key : other.key old = id
      · rw [if_pos key]
        exact Or.inr (Or.inr ⟨set,old,by rw [key],inside,rfl⟩)
      · rw [if_neg key]
        exact Or.inl inside
  · rw [apply_other db touched] at member
    exact Or.inl member

theorem apply_key {db : Database} {write : Write} {t : Table} {row : t.Row} (member : row ∈ (db.apply write) t) :
    (∃ old ∈ db t, t.key old = t.key row) ∨ (write.table = t ∧ write.key = t.key row) := by
  rcases apply_mem member with old | rfl | ⟨set,old,rfl,inside,rfl⟩
  · exact Or.inl ⟨row,old,rfl⟩
  · exact Or.inr ⟨rfl,rfl⟩
  · exact Or.inl ⟨old,inside,(Table.key_assign t set old).symm⟩

theorem visible_has {writes : List Write} {db : Database} {t : Table} {id : Uuid} (present : db.has t id = true) :
    Database.has (writes.foldl apply db) t id = true := by
  induction writes generalizing db with
  | nil => exact present
  | cons write rest ih =>
    refine ih ?_
    by_cases touched : write.table = t
    · cases write with
      | insert other fresh =>
        obtain rfl : other = t := touched
        change Database.has (db.insert other fresh) other id = true
        unfold has at present ⊢
        rw [insert_self,List.any_append,present]
        rfl
      | update other key set =>
        obtain rfl : other = t := touched
        obtain ⟨row,member,same⟩ := has_iff.mp present
        change Database.has (db.modify other key set) other id = true
        rw [has_iff,modify_self]
        refine ⟨_,List.mem_map_of_mem member,?_⟩
        split
        · exact (Table.key_assign other set row).trans same
        · exact same
    · unfold has at present ⊢
      rw [apply_other db touched]
      exact present

theorem visible_key {writes : List Write} {db : Database} {t : Table} {row : t.Row}
    (member : row ∈ (writes.foldl apply db) t) :
    (∃ old ∈ db t, t.key old = t.key row) ∨ ∃ write ∈ writes, write.table = t ∧ write.key = t.key row := by
  induction writes generalizing db with
  | nil => exact Or.inl ⟨row,member,rfl⟩
  | cons write writes ih =>
    rcases ih member with ⟨old,inside,same⟩ | ⟨other,sent,named⟩
    · rcases apply_key inside with ⟨older,committed,key⟩ | ⟨table,key⟩
      · exact Or.inl ⟨older,committed,key.trans same⟩
      · exact Or.inr ⟨write,List.mem_cons_self,table,key.trans same⟩
    · exact Or.inr ⟨other,List.mem_cons_of_mem _ sent,named⟩

end Database

def Spares (t : Table) (writes : List Write) : Prop :=
  ∀ db : Database, (writes.foldl Database.apply db) t = db t

def Adds (t : Table) (row : t.Row) (writes : List Write) : Prop :=
  ∀ db : Database, (∀ other ∈ db t, t.key other ≠ t.key row) →
    (writes.foldl Database.apply db) t = db t ++ [row]

section Effects
variable {t : Table} {writes more : List Write} {row : t.Row}

theorem spares_nil (t : Table) : Spares t [] := fun _ => rfl

theorem spares_untouched (untouched : ∀ write ∈ more, write.table ≠ t) : Spares t more := by
  intro db
  induction more generalizing db with
  | nil => rfl
  | cons write rest ih =>
    rw [List.foldl_cons,ih fun other member => untouched other (List.mem_cons_of_mem _ member)]
    exact db.apply_other (untouched write List.mem_cons_self)

theorem Spares.append (spares : Spares t writes) (untouched : ∀ write ∈ more, write.table ≠ t) :
    Spares t (writes ++ more) := by
  intro db
  rw [List.foldl_append,spares_untouched untouched]
  exact spares db

theorem Spares.insert (spares : Spares t writes) (row : t.Row) : Adds t row (writes ++ [.insert t row]) := by
  intro db _
  rw [List.foldl_append]
  exact (Database.insert_self ..).trans (congrArg (· ++ [row]) (spares db))

theorem Adds.append (adds : Adds t row writes) (untouched : ∀ write ∈ more, write.table ≠ t) :
    Adds t row (writes ++ more) := by
  intro db fresh
  rw [List.foldl_append,spares_untouched untouched]
  exact adds db fresh

theorem Adds.update (adds : Adds t row writes) (set : t.Columns) :
    Adds t (t.assign set row) (writes ++ [.update t (t.key row) set]) := by
  intro db fresh
  rw [Table.key_assign] at fresh
  rw [List.foldl_append]
  refine (Database.modify_self ..).trans ?_
  rw [adds db fresh,List.map_append]
  refine congrArg₂ (· ++ ·) ((List.map_congr_left fun other member => ?_).trans (List.map_id _)) ?_
  · exact if_neg (fresh other member)
  · exact congrArg (fun last => [last]) (if_pos rfl)

theorem Adds.find (adds : Adds t row writes) {db : Database}
    (fresh : ∀ other ∈ db t, t.key other ≠ t.key row) :
    (writes.foldl Database.apply db).find t (t.key row) = some row := by
  have absent : (db t).find? (fun other => t.key other == t.key row) = none := by
    simpa [List.find?_eq_none] using fresh
  rw [Database.find,adds db fresh,List.find?_append,absent]
  simp

end Effects

section Locks
variable {Client α : Type} {server : Server Client} {client : Client} {session : Session sql Write Resource α}

def Locked (session : Session sql Write Resource α) : Prop :=
  ∀ write ∈ session.writes, .row write.table write.key ∈ session.held

theorem locked_start (program : Program sql α) :
    Locked (⟨program,[],[],[]⟩ : Session sql Write Resource α) := by
  intro write member
  cases member

theorem exec_locks {turn : Nat} {op : Statement} {db : Database} {reply : op.Reply} {writes : List Write}
    (answered : server.exec client turn op db = .ok (reply,writes)) :
    ∀ write ∈ writes, .row write.table write.key ∈ server.engine.locks op db := by
  have written := Server.exec_writes answered
  intro write member
  cases op with
  | insert t row =>
    obtain ⟨stored,ok,_,rfl⟩ := written
    rw [List.mem_singleton.mp member]
    change Resource.row t (t.key stored) ∈ _
    rw [Table.key_store _ ok,Table.key_stamp]
    exact List.mem_cons_self
  | update t id set =>
    obtain ⟨stored,_,rfl⟩ := written
    rw [List.mem_singleton.mp member]
    exact List.mem_cons_self
  | _ =>
    rw [show writes = [] from written] at member
    cases member

theorem Locked.answered (locked : Locked session) {turn : Nat} {op : Statement} {db : Database}
    {reply : op.Reply} {more : List Write} (answered : server.exec client turn op db = .ok (reply,more))
    (rest : Program sql α) (issued : List Statement) :
    Locked ⟨rest,session.writes ++ more,session.held ++ server.engine.locks op db,issued⟩ := by
  intro write member
  rcases List.mem_append.mp member with old | new
  · exact List.mem_append_left _ (locked write old)
  · exact List.mem_append_right _ (exec_locks answered write new)

/-- A row that one transaction holds stays new to the table when another one commits. -/
theorem Locked.fresh {t : Table} {id : Uuid} {other : Session sql Write Resource α} (theirs : Locked other)
    (held : .row t id ∈ session.held) (exclusive : ∀ resource ∈ session.held, resource ∉ other.held)
    {committed : Database} (fresh : ∀ row ∈ committed t, t.key row ≠ id) :
    ∀ row ∈ (other.writes.foldl Database.apply committed) t, t.key row ≠ id := by
  intro row member same
  rcases Database.visible_key member with ⟨old,inside,key⟩ | ⟨write,sent,table,key⟩
  · exact fresh old inside (key.trans same)
  · have taken := theirs write sent
    rw [table,key,same] at taken
    exact exclusive _ held taken

end Locks

end CryptoBrokerage
