import CryptoBrokerage.OwnRows

/-! What keys and unique indexes give to transactions that only insert. The entry
of an inserted row is held until its transaction ends, so two open transactions
never insert rows that clash. -/
namespace CryptoBrokerage
open Transaction (Engine Program Session)

def Clash (t : Table) (first second : t.Row) : Prop :=
  t.key first = t.key second ∨ ∃ entry ∈ t.indexEntries first, entry ∈ t.indexEntries second

theorem Clash.symm {t : Table} {first second : t.Row} (clash : Clash t first second) : Clash t second first := by
  rcases clash with key | ⟨entry,mine,theirs⟩
  · exact Or.inl key.symm
  · exact Or.inr ⟨entry,theirs,mine⟩

def Indexed (t : Table) (rows : List t.Row) : Prop := rows.Pairwise fun first second => ¬Clash t first second

theorem Table.indexEntries_store {numeric : ℚ → Except Exception ℚ} {t : Table} {row stored : t.Row}
    (ok : t.store numeric row = .ok stored) : t.indexEntries stored = t.indexEntries row := by
  cases t with
  | users => rw [store_user ok]
  | userProfiles => rw [store_profile ok]
  | _ =>
    simp only [store,bind,Except.bind] at ok
    repeat' split at ok
    all_goals cases ok <;> rfl

@[simp] theorem Table.indexEntries_stamp (now : Timestamp) (t : Table) (row : t.Row) :
    t.indexEntries (t.stamp now row) = t.indexEntries row := by
  cases t <;> rfl

theorem Database.violated_clash {db : Database} {t : Table} {row : t.Row} (valid : db.violated t row = none) :
    ∀ other ∈ db t, ¬Clash t other row := by
  obtain ⟨fresh,alone,_⟩ := Database.violated_none valid
  rintro other member (key | ⟨entry,theirs,mine⟩)
  · have present : db.has t (t.key row) = true := Database.has_iff.mpr ⟨other,member,key⟩
    rw [fresh] at present
    cases present
  · have taken : db.clashes t row = true := by
      simp only [clashes,List.any_eq_true,decide_eq_true_eq]
      exact ⟨other,member,entry,theirs,mine⟩
    rw [alone] at taken
    cases taken

def Write.inserted (t : Table) : Write → List t.Row
  | .insert other row => if same : other = t then [same ▸ row] else []
  | .update _ _ _ => []

@[simp] theorem Write.inserted_self (t : Table) (row : t.Row) : (Write.insert t row).inserted t = [row] :=
  dif_pos rfl

theorem Write.inserted_other {t other : Table} (different : other ≠ t) (row : other.Row) :
    (Write.insert other row).inserted t = [] := dif_neg different

theorem visible_inserted {writes : List Write} (inserts : ∀ write ∈ writes, ∃ t row, write = .insert t row)
    (db : Database) (t : Table) :
    (writes.foldl Database.apply db) t = db t ++ writes.flatMap (Write.inserted t) := by
  induction writes generalizing db with
  | nil => exact (List.append_nil _).symm
  | cons write rest ih =>
    obtain ⟨other,row,rfl⟩ := inserts write List.mem_cons_self
    have first : (db.apply (.insert other row)) t = db t ++ (Write.insert other row).inserted t := by
      by_cases same : other = t
      · subst same
        rw [Write.inserted_self]
        exact Database.insert_self ..
      · rw [Write.inserted_other same,List.append_nil]
        exact Database.insert_other db row (Ne.symm same)
    rw [List.foldl_cons,ih fun write member => inserts write (List.mem_cons_of_mem _ member),first,List.append_assoc]
    rfl

theorem visible_users (db : Database) (writes : List Write) :
    (writes.foldl Database.apply db) .users = db .users ++ writes.flatMap (Write.inserted .users) := by
  induction writes generalizing db with
  | nil => exact (List.append_nil _).symm
  | cons write rest ih =>
    have first : (db.apply write) .users = db .users ++ write.inserted .users := by
      cases write with
      | insert t row =>
        cases t <;> first | exact Database.insert_self .. | exact (List.append_nil _).symm
      | update t id set =>
        cases t <;> first | exact (List.append_nil _).symm | exact set.elim
    rw [List.foldl_cons,ih,first,List.append_assoc]
    rfl

section Sessions
variable {Client α : Type} {server : Server Client} {client : Client} {session other : Session sql Write Resource α}
  {committed : Database}

structure Inserting (session : Session sql Write Resource α) (committed : Database) : Prop where
  inserts : ∀ write ∈ session.writes, ∃ t row, write = .insert t row
  held : ∀ t, ∀ row ∈ session.writes.flatMap (Write.inserted t), .row t (t.key row) ∈ session.held ∧
    ∀ entry ∈ t.indexEntries row, .entry t entry ∈ session.held
  indexed : ∀ t, Indexed t (committed t ++ session.writes.flatMap (Write.inserted t))

theorem inserting_start (program : Program sql α) (indexed : ∀ t, Indexed t (committed t)) :
    Inserting (⟨program,[],[],[]⟩ : Session sql Write Resource α) committed where
  inserts := by simp
  held := by simp
  indexed t := by simpa using indexed t

variable (server) in
theorem Inserting.visible (inserting : Inserting session committed) (t : Table) :
    (server.engine.visible committed session.writes) t =
      committed t ++ session.writes.flatMap (Write.inserted t) :=
  visible_inserted inserting.inserts committed t

theorem Inserting.commits (inserting : Inserting session committed) (t : Table) :
    Indexed t ((server.engine.visible committed session.writes) t) := by
  rw [inserting.visible server t]
  exact inserting.indexed t

theorem Inserting.answered (inserting : Inserting session committed) {turn : Nat} {op : Statement} {reply : op.Reply}
    {writes : List Write} (plain : ∀ t id set, op ≠ .update t id set)
    (answered : server.engine.exec client turn op (server.engine.visible committed session.writes) =
      .ok (reply,writes)) (rest : Program sql α) (issued : List Statement) :
    Inserting ⟨rest,session.writes ++ writes,
      session.held ++ server.engine.locks op (server.engine.visible committed session.writes),issued⟩ committed := by
  have written := @Server.exec_writes _ server client turn op _ _ _ answered
  have unwritten (nothing : writes = []) (held : List Resource) :
      Inserting ⟨rest,session.writes ++ writes,session.held ++ held,issued⟩ committed := by
    subst writes
    refine ⟨?_,?_,?_⟩
    · simpa using inserting.inserts
    · intro t row member
      rw [List.append_nil] at member
      obtain ⟨key,entries⟩ := inserting.held t row member
      exact ⟨List.mem_append_left _ key,fun entry inside => List.mem_append_left _ (entries entry inside)⟩
    · simpa using inserting.indexed
  cases op with
  | update t id set => exact absurd rfl (plain t id set)
  | insert t row =>
    obtain ⟨stored,ok,valid,rfl⟩ := written
    refine ⟨?_,?_,?_⟩
    · intro write member
      rcases List.mem_append.mp member with old | new
      · exact inserting.inserts write old
      · exact ⟨t,stored,List.mem_singleton.mp new⟩
    · intro other entered member
      rw [List.flatMap_append] at member
      rcases List.mem_append.mp member with old | new
      · obtain ⟨key,entries⟩ := inserting.held other entered old
        exact ⟨List.mem_append_left _ key,fun entry inside => List.mem_append_left _ (entries entry inside)⟩
      · by_cases same : t = other
        · subst same
          obtain rfl : entered = stored := by simpa using new
          rw [Table.key_store _ ok,Table.key_stamp,Table.indexEntries_store ok,Table.indexEntries_stamp]
          refine ⟨List.mem_append_right _ List.mem_cons_self,fun entry inside => ?_⟩
          exact List.mem_append_right _ (List.mem_cons_of_mem _ (List.mem_map_of_mem inside))
        · simp [Write.inserted_other same] at new
    · intro other
      rw [List.flatMap_append,← List.append_assoc,List.flatMap_singleton]
      by_cases same : t = other
      · subst same
        rw [Write.inserted_self]
        refine List.pairwise_append.mpr ⟨inserting.indexed t,List.pairwise_singleton _ _,fun old member new last => ?_⟩
        rw [List.mem_singleton.mp last]
        rw [← inserting.visible server t] at member
        exact Database.violated_clash valid old member
      · rw [Write.inserted_other same,List.append_nil]
        exact inserting.indexed other
  | _ => exact unwritten written _

theorem Inserting.rely (mine : Inserting session committed) (theirs : Inserting other committed)
    (exclusive : ∀ resource ∈ session.held, resource ∉ other.held) :
    Inserting session (server.engine.visible committed other.writes) := by
  refine ⟨mine.inserts,mine.held,fun t => ?_⟩
  rw [theirs.visible server t]
  obtain ⟨_,own,fresh⟩ := List.pairwise_append.mp (mine.indexed t)
  refine List.pairwise_append.mpr ⟨theirs.indexed t,own,fun old member row inside => ?_⟩
  rcases List.mem_append.mp member with before | added
  · exact fresh old before row inside
  · obtain ⟨key,entries⟩ := mine.held t row inside
    obtain ⟨theirKey,theirEntries⟩ := theirs.held t old added
    rintro (same | ⟨entry,there,here⟩)
    · rw [same] at theirKey
      exact exclusive _ key theirKey
    · exact exclusive _ (entries entry here) (theirEntries entry there)

end Sessions

end CryptoBrokerage
