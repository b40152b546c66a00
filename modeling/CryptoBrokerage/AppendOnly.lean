import CryptoBrokerage.Ledger

/-! The ledger under every call that `LedgerRepository` exposes, its own and those
of `BaseRepository`, each call in a transaction of its own. -/
namespace CryptoBrokerage
open Transaction (Engine View)

/-- An entity that a caller holds: an entry that it has read, or a new one, whose
id and creation time may be left to their defaults. -/
inductive EntryEntity
  | stored (id : Uuid)
  | new (id : Option Uuid) (posting : Posting) (createdAt : Option Timestamp)
  deriving DecidableEq, Repr

structure EntryAttributes extends LedgerEntryColumns where
  id : Option Uuid := none
  createdAt : Option Timestamp := none
  deriving DecidableEq, Repr

inductive LedgerCall
  | getById (entityId : Uuid)
  | getAll (limit offset : Int)
  | add (entity : EntryEntity)
  | update (entity : EntryEntity) (attributes : EntryAttributes)
  | delete (entity : EntryEntity)
  | createDoubleEntry (posting : Posting)
  | getEntriesForAccount (accountId : Uuid) (limit offset : Int)
  | getEntriesByReference (referenceType referenceId : String)
  deriving DecidableEq, Repr

namespace Database

def amend (db : Database) (id : Uuid) (entry : LedgerEntry) : Database :=
  Function.update db .ledgerEntries ((db .ledgerEntries).map (fun row => if row.id = id then entry else row))

def remove (db : Database) (id : Uuid) : Database :=
  Function.update db .ledgerEntries ((db .ledgerEntries).filter (fun row => row.id ≠ id))

theorem amend_entries (db : Database) (id : Uuid) (entry : LedgerEntry) : (db.amend id entry) .ledgerEntries =
    (db .ledgerEntries).map (fun row => if row.id = id then entry else row) := Function.update_self ..

theorem remove_entries (db : Database) (id : Uuid) :
    (db.remove id) .ledgerEntries = (db .ledgerEntries).filter (fun row => row.id ≠ id) := Function.update_self ..

theorem amend_loses {db : Database} {entry updated : LedgerEntry} (different : updated ≠ entry) :
    entry ∉ (db.amend entry.id updated) .ledgerEntries := by
  intro inside
  rw [amend_entries] at inside
  obtain ⟨row,_,same⟩ := List.mem_map.mp inside
  split at same
  · exact different same
  · next other =>
    apply other
    rw [same]

theorem remove_loses (db : Database) (entry : LedgerEntry) : entry ∉ (db.remove entry.id) .ledgerEntries := by
  rw [remove_entries]
  simp

def amendment (db : Database) (entry updated : LedgerEntry) : Option String :=
  if updated.id ≠ entry.id ∧ db.has .ledgerEntries updated.id then some "ledger_entries_pkey"
  else if (updated.debitAccountId ≠ entry.debitAccountId ∧ ¬db.has .accounts updated.debitAccountId) ∨
      (updated.creditAccountId ≠ entry.creditAccountId ∧ ¬db.has .accounts updated.creditAccountId) then
    some "ledger_entries_fkey"
  else none

end Database

/-- The entry that an `UPDATE` of these attributes stores. An unchanged amount is
not sent. -/
def EntryAttributes.stored (numeric : ℚ → Except Exception ℚ) (attributes : EntryAttributes) (entry : LedgerEntry) :
    Except Exception LedgerEntry := do
  let amount ← (changed entry.amount attributes.amount).mapM numeric
  return { Table.assign .ledgerEntries { attributes.toLedgerEntryColumns with amount } entry with
    id := attributes.id.getD entry.id, createdAt := attributes.createdAt.getD entry.createdAt }

def page (rows : List LedgerEntry) (limit offset : Int) : Except Exception (List LedgerEntry) :=
  if limit < 0 then .error (.data "LIMIT must not be negative")
  else if offset < 0 then .error (.data "OFFSET must not be negative")
  else .ok ((rows.drop offset.toNat).take limit.toNat)

namespace Server
variable {Client : Type} (server : Server Client) (client : Client)

/-- The `INSERT` of a new entry. The server default of `created_at` is used only
without a value. -/
def addedEntry (id : Option Uuid) (posting : Posting) (createdAt : Option Timestamp) (db : Database) :
    Except Exception (LedgerEntry × Database) := do
  let row := LedgerRepository.entry posting (id.getD (server.uuid4 client 0))
  let stored ← Table.store server.numeric .ledgerEntries
    { row with createdAt := createdAt.getD (server.now client) }
  match db.violated .ledgerEntries stored with
  | some constraint => .error (.integrity constraint)
  | none => .ok (stored,db.insert .ledgerEntries stored)

end Server

def notPersistent : Exception := .invalidRequest "Instance is not persistent within this Session"

namespace LedgerCall
variable {Client : Type} (server : Server Client) (client : Client)

def perform (call : LedgerCall) (db : Database) : Except Exception (List LedgerEntry × Database) :=
  match call with
  | .getById entityId => .ok ((db.find .ledgerEntries entityId).toList,db)
  | .getAll limit offset => do
    let rows ← page ((db .ledgerEntries).mergeSort fun first second => decide (first.id ≤ second.id)) limit offset
    return (rows,db)
  | .add (.stored id) =>
    -- an entity that is already in the session is only refreshed
    match db.find .ledgerEntries id with
    | some entry => .ok ([entry],db)
    | none => .error notPersistent
  | .add (.new id posting createdAt) => do
    let (entry,after) ← server.addedEntry client id posting createdAt db
    return ([entry],after)
  | .update (.stored id) attributes =>
    match db.find .ledgerEntries id with
    | none => .error notPersistent
    | some entry => do
      let updated ← attributes.stored server.numeric entry
      match db.amendment entry updated with
      | some constraint => .error (.integrity constraint)
      | none => return ([updated],db.amend id updated)
  | .update (.new _ _ _) _ => .error notPersistent
  | .delete (.stored id) => if db.has .ledgerEntries id then .ok ([],db.remove id) else .error notPersistent
  | .delete (.new _ _ _) => .error notPersistent
  | .createDoubleEntry posting =>
    match LedgerRepository.refusal posting with
    | some message => .error (.ledgerImbalance message)
    | none => do
      let (entry,after) ← server.addedEntry client none posting none db
      return ([entry],after)
  | .getEntriesForAccount accountId limit offset => do
    let rows ← page (((db .ledgerEntries).filter fun entry =>
      entry.debitAccountId == accountId || entry.creditAccountId == accountId).mergeSort
        fun first second => decide (second.createdAt ≤ first.createdAt)) limit offset
    return (rows,db)
  | .getEntriesByReference referenceType referenceId =>
    .ok ((db .ledgerEntries).filter fun entry =>
      entry.referenceType == referenceType && entry.referenceId == referenceId,db)

/-- A call that raises has written nothing. -/
def after (call : LedgerCall) (db : Database) : Database :=
  match call.perform server client db with
  | .ok (_,after) => after
  | .error _ => db

end LedgerCall

def performed {Client : Type} (server : Server Client) (calls : List (Client × LedgerCall)) (db : Database) : Database :=
  calls.foldl (fun db call => call.2.after server call.1 db) db

def Retains (before after : Database) : Prop := ∀ entry ∈ before .ledgerEntries, entry ∈ after .ledgerEntries

def EntriesKeyed (db : Database) : Prop := ((db .ledgerEntries).map LedgerEntry.id).Nodup

/-- The call deletes a stored entry, or it is an update that the database accepts
and that changes one. -/
def Rewrites (numeric : ℚ → Except Exception ℚ) (call : LedgerCall) (db : Database) : Prop :=
  match call with
  | .update (.stored id) attributes => ∃ entry updated, db.find .ledgerEntries id = some entry ∧
      attributes.stored numeric entry = .ok updated ∧ db.amendment entry updated = none ∧ updated ≠ entry
  | .delete (.stored id) => db.has .ledgerEntries id = true
  | _ => False

section Calls
variable {Client : Type} {server : Server Client} {client : Client} {call : LedgerCall} {db after : Database}

theorem addedEntry_ok {id : Option Uuid} {posting : Posting} {createdAt : Option Timestamp} {entry : LedgerEntry}
    (added : server.addedEntry client id posting createdAt db = .ok (entry,after)) :
    db.has .ledgerEntries entry.id = false ∧ after = db.insert .ledgerEntries entry := by
  obtain ⟨stored,_,rest⟩ := except_bind_ok added
  split at rest
  · cases rest
  · next valid =>
    cases rest
    exact ⟨(Database.violated_none valid).1,rfl⟩

theorem perform_cases {reply : List LedgerEntry} (ok : call.perform server client db = .ok (reply,after)) :
    after = db ∨
    (∃ entry, db.has .ledgerEntries entry.id = false ∧ after = db.insert .ledgerEntries entry) ∨
    (∃ id attributes entry updated, call = .update (.stored id) attributes ∧ db.find .ledgerEntries id = some entry ∧
      attributes.stored server.numeric entry = .ok updated ∧ db.amendment entry updated = none ∧
      after = db.amend id updated) ∨
    ∃ id, call = .delete (.stored id) ∧ db.has .ledgerEntries id = true ∧ after = db.remove id := by
  have inserted {id : Option Uuid} {posting : Posting} {createdAt : Option Timestamp}
      (added : (server.addedEntry client id posting createdAt db >>= fun pair => pure ([pair.1],pair.2)) =
        .ok (reply,after)) :
      ∃ entry, db.has .ledgerEntries entry.id = false ∧ after = db.insert .ledgerEntries entry := by
    obtain ⟨⟨entry,inserted⟩,first,rest⟩ := except_bind_ok added
    cases rest
    exact ⟨entry,addedEntry_ok first⟩
  cases call with
  | getById entityId =>
    cases ok
    exact Or.inl rfl
  | getAll limit offset =>
    obtain ⟨rows,_,rest⟩ := except_bind_ok ok
    cases rest
    exact Or.inl rfl
  | add entity =>
    cases entity with
    | stored id =>
      simp only [LedgerCall.perform] at ok
      split at ok
      · cases ok
        exact Or.inl rfl
      · cases ok
    | new id posting createdAt => exact Or.inr (Or.inl (inserted ok))
  | update entity attributes =>
    cases entity with
    | stored id =>
      simp only [LedgerCall.perform] at ok
      split at ok
      · cases ok
      · next entry found =>
        obtain ⟨updated,stored,rest⟩ := except_bind_ok ok
        split at rest
        · cases rest
        · next valid =>
          cases rest
          exact Or.inr (Or.inr (Or.inl ⟨id,attributes,entry,updated,rfl,found,stored,valid,rfl⟩))
    | new id posting createdAt => cases ok
  | delete entity =>
    cases entity with
    | stored id =>
      simp only [LedgerCall.perform] at ok
      split at ok
      · next present =>
        cases ok
        exact Or.inr (Or.inr (Or.inr ⟨id,rfl,present,rfl⟩))
      · cases ok
    | new id posting createdAt => cases ok
  | createDoubleEntry posting =>
    simp only [LedgerCall.perform] at ok
    split at ok
    · cases ok
    · exact Or.inr (Or.inl (inserted ok))
  | getEntriesForAccount accountId limit offset =>
    obtain ⟨rows,_,rest⟩ := except_bind_ok ok
    cases rest
    exact Or.inl rfl
  | getEntriesByReference referenceType referenceId =>
    cases ok
    exact Or.inl rfl

theorem EntriesKeyed.same (keyed : EntriesKeyed db) {entry row : LedgerEntry}
    (found : db.find .ledgerEntries entry.id = some entry) (member : row ∈ db .ledgerEntries) (key : row.id = entry.id) :
    row = entry :=
  List.inj_on_of_nodup_map keyed member (Database.find_some found).1 key

theorem EntriesKeyed.amend (keyed : EntriesKeyed db) {entry updated : LedgerEntry}
    (found : db.find .ledgerEntries entry.id = some entry) (valid : db.amendment entry updated = none) :
    EntriesKeyed (db.amend entry.id updated) := by
  have fresh (row : LedgerEntry) (member : row ∈ db .ledgerEntries) (key : row.id = updated.id) : row = entry := by
    apply keyed.same found member
    by_contra different
    have present : db.has .ledgerEntries updated.id = true := Database.has_iff.mpr ⟨row,member,key⟩
    have moved : updated.id ≠ entry.id := fun same => different (key.trans same)
    simp [Database.amendment,present,moved] at valid
  unfold EntriesKeyed
  rw [Database.amend_entries]
  apply List.pairwise_map.mpr
  apply List.pairwise_map.mpr
  apply (List.pairwise_map.mp keyed).imp_of_mem
  intro first second early late different
  split
  · next mine =>
    split
    · next theirs => exact absurd (mine.trans theirs.symm) different
    · next other =>
      intro same
      apply other
      rw [fresh second late same.symm]
  · next other =>
    split
    · intro same
      apply other
      rw [fresh first early same]
    · exact different

theorem LedgerCall.after_ok {reply : List LedgerEntry} (ok : call.perform server client db = .ok (reply,after)) :
    call.after server client db = after := by
  simp only [LedgerCall.after,ok]

theorem LedgerCall.after_error {error : Exception} (failed : call.perform server client db = .error error) :
    call.after server client db = db := by
  simp only [LedgerCall.after,failed]

theorem EntriesKeyed.next (keyed : EntriesKeyed db) : EntriesKeyed (call.after server client db) := by
  cases result : call.perform server client db with
  | error error =>
    rw [LedgerCall.after_error result]
    exact keyed
  | ok pair =>
    rw [LedgerCall.after_ok result]
    rcases perform_cases result with same | ⟨entry,fresh,same⟩ | ⟨id,_,entry,updated,_,found,_,valid,same⟩ | ⟨id,_,_,same⟩
    · rw [same]
      exact keyed
    · rw [same]
      unfold EntriesKeyed
      rw [Database.insert_self,List.map_append]
      apply List.nodup_append.mpr
      refine ⟨keyed,by simp,?_⟩
      intro key inside last member same
      obtain ⟨row,present,rfl⟩ := List.mem_map.mp inside
      have taken : db.has .ledgerEntries entry.id = true :=
        Database.has_iff.mpr ⟨row,present,same.trans (by simpa using member)⟩
      simp [fresh] at taken
    · obtain rfl : entry.id = id := (Database.find_some found).2
      rw [same]
      exact keyed.amend found valid
    · rw [same]
      unfold EntriesKeyed
      rw [Database.remove_entries]
      exact (List.filter_sublist.map _).nodup keyed

theorem EntriesKeyed.amend_same (keyed : EntriesKeyed db) {entry : LedgerEntry}
    (found : db.find .ledgerEntries entry.id = some entry) :
    (db.amend entry.id entry) .ledgerEntries = db .ledgerEntries := by
  have kept (row : LedgerEntry) (member : row ∈ db .ledgerEntries) :
      (if row.id = entry.id then entry else row) = row := by
    split
    · next key => exact (keyed.same found member key).symm
    · rfl
  rw [Database.amend_entries,List.map_congr_left kept,List.map_id']

theorem appended_of_plain (keyed : EntriesKeyed db) (plain : ¬Rewrites server.numeric call db) :
    ∃ more, (call.after server client db) .ledgerEntries = db .ledgerEntries ++ more := by
  cases result : call.perform server client db with
  | error error => exact ⟨[],by rw [LedgerCall.after_error result,List.append_nil]⟩
  | ok pair =>
    rw [LedgerCall.after_ok result]
    rcases perform_cases result with same | ⟨entry,_,same⟩ | ⟨id,attributes,entry,updated,rfl,found,stored,valid,same⟩ |
      ⟨id,rfl,present,same⟩
    · exact ⟨[],by rw [same,List.append_nil]⟩
    · exact ⟨[entry],by rw [same,Database.insert_self]⟩
    · obtain rfl : updated = entry := by
        by_contra different
        exact plain ⟨entry,updated,found,stored,valid,different⟩
      obtain rfl : updated.id = id := (Database.find_some found).2
      exact ⟨[],by rw [same,keyed.amend_same found,List.append_nil]⟩
    · exact absurd present plain

theorem rewrites_loses (rewrites : Rewrites server.numeric call db) : ¬Retains db (call.after server client db) := by
  intro keeps
  cases call with
  | update entity attributes =>
    cases entity with
    | stored id =>
      obtain ⟨entry,updated,found,stored,valid,different⟩ := rewrites
      have ok : (LedgerCall.update (.stored id) attributes).perform server client db =
          .ok ([updated],db.amend id updated) := by
        simp only [LedgerCall.perform,found,stored,bind,Except.bind,valid]
        rfl
      obtain ⟨member,rfl⟩ := Database.find_some found
      rw [LedgerCall.after_ok ok] at keeps
      exact Database.amend_loses different (keeps entry member)
    | new id posting createdAt => exact rewrites.elim
  | delete entity =>
    cases entity with
    | stored id =>
      have ok : (LedgerCall.delete (.stored id)).perform server client db = .ok ([],db.remove id) := if_pos rewrites
      obtain ⟨entry,member,rfl⟩ := Database.has_iff.mp rewrites
      rw [LedgerCall.after_ok ok] at keeps
      exact Database.remove_loses db entry (keeps entry member)
    | new id posting createdAt => exact rewrites.elim
  | _ => exact rewrites.elim

theorem keeps_iff (keyed : EntriesKeyed db) :
    Retains db (call.after server client db) ↔ ¬Rewrites server.numeric call db := by
  constructor
  · intro keeps rewrites
    exact rewrites_loses rewrites keeps
  · intro plain entry member
    obtain ⟨more,appended⟩ := @appended_of_plain Client server client _ _ keyed plain
    rw [appended]
    exact List.mem_append_left _ member

end Calls

section Posting
variable {Client : Type} {server : Server Client} {client : Client} {db : Database}

/-- Attributes that are columns are stored as `update` flushes them. -/
theorem stored_updated (numeric : ℚ → Except Exception ℚ) (entry : LedgerEntry) (set : LedgerEntryColumns) :
    EntryAttributes.stored numeric { set with } entry = Table.updated numeric .ledgerEntries entry set := by
  cases changes : Table.dirty .ledgerEntries entry set with
  | none =>
    have idle := Table.assign_dirty .ledgerEntries entry set
    rw [changes] at idle
    have nothing : changed entry.amount set.amount = none := by
      simp only [Table.dirty] at changes
      split at changes
      · next empty => exact congrArg LedgerEntryColumns.amount empty
      · cases changes
    have debit : set.debitAccountId.getD entry.debitAccountId = entry.debitAccountId :=
      (congrArg LedgerEntry.debitAccountId idle).symm
    have credit : set.creditAccountId.getD entry.creditAccountId = entry.creditAccountId :=
      (congrArg LedgerEntry.creditAccountId idle).symm
    have currency : set.currency.getD entry.currency = entry.currency :=
      (congrArg LedgerEntry.currency idle).symm
    have type : set.referenceType.getD entry.referenceType = entry.referenceType :=
      (congrArg LedgerEntry.referenceType idle).symm
    have reference : set.referenceId.getD entry.referenceId = entry.referenceId :=
      (congrArg LedgerEntry.referenceId idle).symm
    rw [Table.updated_clean changes]
    change (Except.bind (Option.mapM numeric (changed entry.amount set.amount)) fun amount => _) = _
    rw [nothing]
    simp only [Option.mapM_none,Table.assign,debit,credit,currency,type,reference]
    rfl
  | some columns =>
    rw [Table.updated_dirty changes]
    obtain rfl := Table.dirty_entry changes
    change Except.bind (Option.mapM numeric (changed entry.amount set.amount)) _ =
      Except.map _ (Except.bind (Option.mapM numeric (changed entry.amount set.amount)) _)
    cases Option.mapM numeric (changed entry.amount set.amount) with
    | error error => rfl
    | ok amount =>
      simp only [Except.bind,Except.map,pure,Except.pure,Table.assign,changed_getD]
      rfl

/-- `create_double_entry` as a transaction does what the call does. -/
theorem createDoubleEntry_performs (posting : Posting) :
    (server.engine.transact client (LedgerRepository.createDoubleEntry posting) db).outcome.map (fun entry => [entry]) =
        ((LedgerCall.createDoubleEntry posting).perform server client db).map Prod.fst ∧
      (server.engine.transact client (LedgerRepository.createDoubleEntry posting) db).after =
        (LedgerCall.createDoubleEntry posting).after server client db := by
  cases verdict : LedgerRepository.refusal posting with
  | some message =>
    have failed : (LedgerCall.createDoubleEntry posting).perform server client db =
        .error (.ledgerImbalance message) := by
      simp only [LedgerCall.perform,verdict]
    have raised : server.engine.run client (LedgerRepository.createDoubleEntry posting) ⟨db,[]⟩ =
        (.error (.ledgerImbalance message),⟨db,[]⟩) := by
      unfold LedgerRepository.createDoubleEntry
      rw [verdict]
      rfl
    rw [LedgerCall.after_error failed,failed,Engine.transact_error _ raised]
    exact ⟨rfl,rfl⟩
  | none =>
    have entered : (LedgerCall.createDoubleEntry posting).perform server client db =
        (server.added client .ledgerEntries (LedgerRepository.entry posting (server.uuid4 client 0)) db).map
          fun pair => ([pair.1],pair.2) := by
      simp only [LedgerCall.perform,verdict]
      change (server.added client .ledgerEntries (LedgerRepository.entry posting (server.uuid4 client 0)) db >>=
        fun pair => Except.ok ([pair.1],pair.2)) = _
      cases server.added client .ledgerEntries (LedgerRepository.entry posting (server.uuid4 client 0)) db <;> rfl
    have ran := @run_add _ server client ⟨db,[]⟩ .ledgerEntries (LedgerRepository.entry posting) fun _ => rfl
    rw [show LedgerRepository.createDoubleEntry posting =
      BaseRepository.add .ledgerEntries (LedgerRepository.entry posting) by
        unfold LedgerRepository.createDoubleEntry
        rw [verdict]
        rfl]
    rw [List.length_nil] at ran
    cases added : server.added client .ledgerEntries (LedgerRepository.entry posting (server.uuid4 client 0)) db with
    | error error =>
      rw [added] at entered
      simp only [added] at ran
      rw [LedgerCall.after_error entered,entered,Engine.transact_error _ ran]
      exact ⟨rfl,rfl⟩
    | ok pair =>
      rw [added] at entered
      simp only [added] at ran
      rw [LedgerCall.after_ok entered,entered,Engine.transact_ok _ ran]
      exact ⟨rfl,rfl⟩

/-- So does `update` of an entry to accounts that exist. -/
theorem update_performs {entry row : LedgerEntry} {set : LedgerEntryColumns} {last : View sql Database}
    (keyed : EntriesKeyed db) (found : db.find .ledgerEntries entry.id = some entry)
    (ran : server.engine.run client (BaseRepository.update .ledgerEntries entry set) ⟨db,[]⟩ = (.ok row,last))
    (accounts : db.has .accounts row.debitAccountId = true ∧ db.has .accounts row.creditAccountId = true) :
    ∃ after, (LedgerCall.update (.stored entry.id) { set with }).perform server client db = .ok ([row],after) ∧
      last.db .ledgerEntries = after .ledgerEntries := by
  have performs (key : row.id = entry.id) (updated : Table.updated server.numeric .ledgerEntries entry set = .ok row) :
      (LedgerCall.update (.stored entry.id) { set with }).perform server client db =
        .ok ([row],db.amend entry.id row) := by
    have valid : db.amendment entry row = none := by
      simp [Database.amendment,key,accounts.1,accounts.2]
    simp only [LedgerCall.perform,found,stored_updated,updated,bind,Except.bind,valid]
    rfl
  rcases run_update_ok found ran with ⟨clean,rfl,unchanged⟩ | ⟨columns,stored,dirty,ok,rfl,modified⟩
  · refine ⟨_,performs rfl (Table.updated_clean clean),?_⟩
    rw [unchanged,keyed.amend_same found]
  · refine ⟨_,performs rfl ?_,?_⟩
    · rw [Table.updated_dirty dirty,ok]
      rfl
    · rw [modified,Database.modify_self,Database.amend_entries]
      apply List.map_congr_left
      intro row member
      by_cases key : row.id = entry.id
      · rw [keyed.same found member key]
        simp only [Table.key,if_true]
      · simp only [Table.key,key,if_false]

end Posting

section Sequences
variable {Client : Type} {server : Server Client} {calls : List (Client × LedgerCall)} {db : Database}

theorem performed_append (first rest : List (Client × LedgerCall)) (db : Database) :
    performed server (first ++ rest) db = performed server rest (performed server first db) :=
  List.foldl_append

theorem EntriesKeyed.sequence (keyed : EntriesKeyed db) (calls : List (Client × LedgerCall)) :
    EntriesKeyed (performed server calls db) := by
  induction calls generalizing db with
  | nil => exact keyed
  | cons call rest ih => exact ih keyed.next

def Plain (server : Server Client) (calls : List (Client × LedgerCall)) (db : Database) : Prop :=
  ∀ first client call rest, calls = first ++ (client,call)::rest →
    ¬Rewrites server.numeric call (performed server first db)

theorem performed_appends (keyed : EntriesKeyed db) (plain : Plain server calls db) :
    ∃ more, (performed server calls db) .ledgerEntries = db .ledgerEntries ++ more := by
  induction calls generalizing db with
  | nil => exact ⟨[],by simp [performed]⟩
  | cons call rest ih =>
    obtain ⟨client,call⟩ := call
    obtain ⟨first,appended⟩ := @appended_of_plain Client server client _ _ keyed (plain [] client call rest rfl)
    obtain ⟨more,grown⟩ : ∃ more, (performed server rest (call.after server client db)) .ledgerEntries =
        (call.after server client db) .ledgerEntries ++ more := by
      apply ih keyed.next
      intro first other later tail split
      exact plain ((client,call)::first) other later tail (by rw [split]; rfl)
    refine ⟨first ++ more,?_⟩
    change (performed server rest (call.after server client db)) .ledgerEntries = _
    rw [grown,appended,List.append_assoc]

end Sequences

/-- Whatever calls are made on whatever ledger: every call keeps the entries that
it finds exactly if no call deletes a stored entry or changes one by an update.
Then the ledger has only grown, and balances have changed by the new entries. -/
theorem ledger_append_only_iff {Client : Type} (server : Server Client) (calls : List (Client × LedgerCall))
    (db : Database) (keyed : EntriesKeyed db) :
    ((∀ first client call rest, calls = first ++ (client,call)::rest →
        Retains (performed server first db) (performed server (first ++ [(client,call)]) db)) ↔
      Plain server calls db) ∧
    (Plain server calls db → ∃ more, (performed server calls db) .ledgerEntries = db .ledgerEntries ++ more ∧
      ∀ account, (performed server calls db).balance account = db.balance account + books.balance more account) := by
  constructor
  · apply forall_congr'
    intro first
    apply forall_congr'
    intro client
    apply forall_congr'
    intro call
    apply forall_congr'
    intro rest
    apply imp_congr_right
    intro _
    rw [performed_append]
    exact keeps_iff (keyed.sequence first)
  · intro plain
    obtain ⟨more,grown⟩ := performed_appends keyed plain
    refine ⟨more,grown,fun account => ?_⟩
    rw [balance_books,balance_books,grown,DoubleEntry.balance_append]

def samplePostings : List (Fin 2 × LedgerCall) :=
  [(oneClient,.createDoubleEntry ⟨24,21,100,"BRL","DEPOSIT","t1"⟩),(otherClient,.getEntriesForAccount 21 50 0),
    (otherClient,.add (.new none ⟨21,24,30,"BRL","WITHDRAW","t2"⟩ none)),(oneClient,.add (.stored 31))]

/-- Postings and reads only make the ledger longer. -/
theorem ledger_append_only_postings :
    ∃ more, (performed sampleServer samplePostings sample) .ledgerEntries = sample .ledgerEntries ++ more ∧
      ∀ account, (performed sampleServer samplePostings sample).balance account =
        sample.balance account + books.balance more account := by
  apply (ledger_append_only_iff sampleServer samplePostings sample (by simp [EntriesKeyed,sample])).2
  intro first client call rest split
  have member : (client,call) ∈ samplePostings := by
    rw [split]
    simp
  have plain : ∀ pair ∈ samplePostings, ∀ db, ¬Rewrites sampleServer.numeric pair.2 db := by
    simp [samplePostings,Rewrites]
  exact plain (client,call) member _

/-- An update through the repository halves a balance, and a deletion empties the
ledger; no entry is appended. -/
theorem ledger_rewritten :
    let amended := performed sampleServer [(0,.update (.stored 31) { amount := some 500 })] sample
    let deleted := performed sampleServer [(0,.delete (.stored 31))] sample
    ¬Retains sample amended ∧ (amended .ledgerEntries).length = 1 ∧ sample.balance 21 = 1000 ∧
      amended.balance 21 = 500 ∧ ¬Retains sample deleted ∧ deleted .ledgerEntries = [] ∧ deleted.balance 21 = 0 := by
  unfold Retains
  decide +kernel

end CryptoBrokerage
