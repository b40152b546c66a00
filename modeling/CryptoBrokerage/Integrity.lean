import CryptoBrokerage.Api
import CryptoBrokerage.Ledger
import CryptoBrokerage.UniqueIndex

/-! Keys, unique indexes and foreign keys hold in every committed state, whatever
programs run at once. Each row has a mark of what these constraints see of it; an
`UPDATE` leaves the marks as they are, and an insertion adds one. -/
namespace CryptoBrokerage
open Transaction

def Table.references : (t : Table) → t.Row → List (Table × Uuid)
  | .users, _ => []
  | .userProfiles, row => [(.users,row.userId)]
  | .assets, _ => []
  | .accounts, row => [(.users,row.userId)]
  | .bankAccounts, row => [(.users,row.userId)]
  | .orders, row => [(.users,row.userId),(.assets,row.assetId)]
  | .tradeExecutions, row => [(.orders,row.orderId)]
  | .positions, row => [(.users,row.userId),(.assets,row.assetId)]
  | .transactions, row => [(.users,row.userId)]
  | .ledgerEntries, row => [(.accounts,row.debitAccountId),(.accounts,row.creditAccountId)]

theorem refers_iff (db : Database) (t : Table) (row : t.Row) :
    db.refers t row = true ↔ ∀ reference ∈ t.references row, db.has reference.1 reference.2 = true := by
  cases t <;> simp [Database.refers,Table.references]

structure Mark where
  key : Uuid
  entries : List IndexEntry
  references : List (Table × Uuid)

def Table.mark (t : Table) (row : t.Row) : Mark := ⟨t.key row,t.indexEntries row,t.references row⟩

structure Database.Intact (db : Database) : Prop where
  keyed : db.Keyed
  unique : ∀ t, (db t).Pairwise fun first second => ∀ entry ∈ t.indexEntries first, entry ∉ t.indexEntries second
  refers : ∀ t, ∀ row ∈ db t, db.refers t row = true

def Mark.Apart (first second : Mark) : Prop :=
  first.key ≠ second.key ∧ ∀ entry ∈ first.entries, entry ∉ second.entries

theorem Mark.Apart.symm {first second : Mark} (apart : first.Apart second) : second.Apart first :=
  ⟨Ne.symm apart.1,fun entry there here => apart.2 entry here there⟩

structure Coherent (marks : Table → List Mark) : Prop where
  apart : ∀ t, (marks t).Pairwise Mark.Apart
  refers : ∀ t, ∀ mark ∈ marks t, ∀ reference ∈ mark.references, ∃ target ∈ marks reference.1, target.key = reference.2

def Database.marks (db : Database) (t : Table) : List Mark := (db t).map t.mark

theorem intact_iff {db : Database} : db.Intact ↔ Coherent db.marks := by
  have named (reference : Table × Uuid) : (∃ target ∈ db.marks reference.1, target.key = reference.2) ↔
      db.has reference.1 reference.2 = true := by
    rw [Database.has_iff]
    simp [Database.marks,Table.mark]
  constructor
  · rintro ⟨keyed,unique,refers⟩
    refine ⟨fun t => ?_,?_⟩
    · rw [Database.marks,List.pairwise_map]
      exact (List.pairwise_map.mp (keyed t)).and (unique t)
    · intro t mark member reference inside
      obtain ⟨row,own,rfl⟩ := List.mem_map.mp member
      exact (named reference).mpr ((refers_iff db t row).mp (refers t row own) reference inside)
  · rintro ⟨apart,refers⟩
    have pairs (t : Table) := List.pairwise_map.mp (apart t)
    refine ⟨fun t => List.pairwise_map.mpr ((pairs t).imp And.left),fun t => (pairs t).imp And.right,?_⟩
    intro t row member
    exact (refers_iff db t row).mpr fun reference inside =>
      (named reference).mp (refers t _ (List.mem_map_of_mem member) reference inside)

/-- Every posting is between two accounts that are there, so what one has lost
another has gained. -/
theorem Database.Intact.balanced {db : Database} (intact : db.Intact) :
    ((db .accounts).map fun account => db.balance account.id).sum = 0 := by
  have distinct : ((db .accounts).map Account.id).Nodup := intact.keyed .accounts
  have within : ∀ entry ∈ db .ledgerEntries, books.Within ((db .accounts).map Account.id).toFinset entry := by
    intro entry member
    have named := (refers_iff db .ledgerEntries entry).mp (intact.refers .ledgerEntries entry member)
    have debit : entry.debitAccountId ∈ (db .accounts).map Account.id := by
      obtain ⟨account,inside,key⟩ := Database.has_iff.mp (named (.accounts,entry.debitAccountId) List.mem_cons_self)
      exact List.mem_map.mpr ⟨account,inside,key⟩
    have credit : entry.creditAccountId ∈ (db .accounts).map Account.id := by
      obtain ⟨account,inside,key⟩ := Database.has_iff.mp
        (named (.accounts,entry.creditAccountId) (List.mem_cons_of_mem _ List.mem_cons_self))
      exact List.mem_map.mpr ⟨account,inside,key⟩
    exact iff_of_true (List.mem_toFinset.mpr debit) (List.mem_toFinset.mpr credit)
  have sum := books.sum_balance (db .ledgerEntries) within
  rw [List.sum_toFinset _ distinct,List.map_map] at sum
  exact sum

theorem sample_intact : sample.Intact := by
  refine ⟨sample_keyed,fun t => ?_,fun t => ?_⟩ <;> cases t <;> decide +kernel

def Pointing : Statement → Prop
  | .update .ledgerEntries _ set => set.debitAccountId = none ∧ set.creditAccountId = none
  | _ => True

def Write.Pointing : Write → Prop
  | .update .ledgerEntries _ set => set.debitAccountId = none ∧ set.creditAccountId = none
  | _ => True

section Requests

theorem pointing_serving : Serving Pointing where
  reads op reads := by
    cases op with
    | update t id set => exact reads.elim
    | _ => trivial
  inserts _ _ _ := trivial
  updates _ _ := trivial
  transfers _ := trivial

theorem executeTrade_pointing (service : TradingService) (request : TradeRequest) :
    (service.executeTrade request).Only Pointing := by
  refine executeTrade_only _ pointing_serving.reads trivial (fun _ => trivial) (fun _ _ _ => trivial) ?_
  rintro t (rfl | rfl | rfl) <;> intro _ _ <;> trivial

theorem handle_pointing (platform : Platform) (moment : Moment) (call : Call) :
    (platform.handle moment call).Only Pointing :=
  handle_only pointing_serving platform moment fun request _ => executeTrade_pointing _ request

theorem createDoubleEntry_pointing (posting : Posting) : (LedgerRepository.createDoubleEntry posting).Only Pointing := by
  unfold LedgerRepository.createDoubleEntry LedgerRepository.judged
  split
  · trivial
  · exact add_only pointing_serving.reads fun _ => trivial

end Requests

theorem mark_assign {t : Table} {id : Uuid} {set : t.Columns} (pointing : (Write.update t id set).Pointing)
    (row : t.Row) : t.mark (t.assign set row) = t.mark row := by
  cases t with
  | orders => rfl
  | positions => rfl
  | transactions => rfl
  | ledgerEntries =>
    obtain ⟨debit,credit⟩ : set.debitAccountId = none ∧ set.creditAccountId = none := pointing
    simp [Table.mark,Table.assign,Table.key,Table.indexEntries,Table.references,debit,credit]
  | _ => exact set.elim

theorem mark_stored {numeric : ℚ → Except Exception ℚ} {now : Timestamp} {t : Table} {row stored : t.Row}
    (ok : t.store numeric (t.stamp now row) = .ok stored) : t.mark stored = t.mark row := by
  have references : t.references stored = t.references (t.stamp now row) := by
    cases t <;> simp only [Table.store,bind,Except.bind] at ok <;> (repeat' split at ok) <;> cases ok <;> rfl
  have stamped : t.references (t.stamp now row) = t.references row := by
    cases t <;> rfl
  simp [Table.mark,Table.key_store _ ok,Table.indexEntries_store ok,references,stamped]

theorem exec_pointing {Client : Type} {server : Server Client} {client : Client} {turn : Nat} {op : Statement}
    {db : Database} {reply : op.Reply} {writes : List Write} (pointing : Pointing op)
    (answered : server.exec client turn op db = .ok (reply,writes)) : ∀ write ∈ writes, write.Pointing := by
  have written := Server.exec_writes answered
  intro write member
  cases op with
  | insert t row =>
    obtain ⟨stored,_,_,rfl⟩ := written
    rw [List.mem_singleton.mp member]
    trivial
  | update t id set =>
    obtain ⟨stored,ok,rfl⟩ := written
    rw [List.mem_singleton.mp member]
    cases t with
    | ledgerEntries =>
      obtain ⟨amount,_,ok⟩ := except_bind_ok ok
      cases ok
      exact pointing
    | _ => trivial
  | _ =>
    rw [show writes = [] from written] at member
    cases member

def addedMarks (writes : List Write) (t : Table) : List Mark := (writes.flatMap (Write.inserted t)).map t.mark

theorem addedMarks_append (writes more : List Write) (t : Table) : addedMarks (writes ++ more) t =
    addedMarks writes t ++ addedMarks more t := by
  rw [addedMarks,List.flatMap_append,List.map_append]
  rfl

theorem apply_marks (db : Database) {write : Write} (pointing : write.Pointing) (t : Table) :
    (db.apply write).marks t = db.marks t ++ addedMarks [write] t := by
  unfold addedMarks
  rw [List.flatMap_singleton]
  cases write with
  | insert other row =>
    change (db.insert other row t).map t.mark = _
    by_cases same : other = t
    · subst same
      rw [Database.insert_self,Write.inserted_self,List.map_append]
      rfl
    · rw [Database.insert_other db row (Ne.symm same),Write.inserted_other same]
      exact (List.append_nil _).symm
  | update other id set =>
    change (db.modify other id set t).map t.mark = db.marks t ++ []
    rw [List.append_nil]
    by_cases same : other = t
    · subst same
      rw [Database.modify_self,List.map_map]
      refine List.map_congr_left fun row _ => ?_
      rw [Function.comp_apply]
      split
      · exact @mark_assign other id set pointing row
      · rfl
    · rw [Database.modify_other db id set (Ne.symm same)]
      rfl

theorem visible_marks {writes : List Write} (pointing : ∀ write ∈ writes, write.Pointing) (db : Database) (t : Table) :
    (writes.foldl Database.apply db).marks t = db.marks t ++ addedMarks writes t := by
  induction writes generalizing db with
  | nil => exact (List.append_nil _).symm
  | cons write rest ih =>
    rw [List.foldl_cons,ih fun other member => pointing other (List.mem_cons_of_mem _ member),
      apply_marks db (pointing write List.mem_cons_self),List.append_assoc,← addedMarks_append]
    rfl

/-- What is committed is still there, in the same order and with the same marks. -/
theorem visible_prefix {writes : List Write} (pointing : ∀ write ∈ writes, write.Pointing) (db : Database) (t : Table) :
    db.marks t <+: (writes.foldl Database.apply db).marks t := by
  rw [visible_marks pointing db t]
  exact List.prefix_append _ _

section Coherence
variable {base mine theirs : Table → List Mark}

/-- One more mark, apart from those of its table and naming rows that are there. -/
theorem Coherent.extend (coherent : Coherent base) {t : Table} {mark : Mark}
    (apart : ∀ other ∈ base t, other.Apart mark)
    (refers : ∀ reference ∈ mark.references, ∃ target ∈ base reference.1, target.key = reference.2) :
    Coherent fun table => base table ++ if table = t then [mark] else [] := by
  constructor
  · intro table
    by_cases same : table = t
    · subst same
      rw [if_pos rfl,List.pairwise_append]
      refine ⟨coherent.apart table,List.pairwise_singleton _ _,fun other member last inside => ?_⟩
      rw [List.mem_singleton.mp inside]
      exact apart other member
    · rw [if_neg same,List.append_nil]
      exact coherent.apart table
  · intro table other member reference inside
    have target : ∃ target ∈ base reference.1, target.key = reference.2 := by
      rcases List.mem_append.mp member with old | new
      · exact coherent.refers table other old reference inside
      · by_cases same : table = t
        · rw [if_pos same] at new
          rw [List.mem_singleton.mp new] at inside
          exact refers reference inside
        · rw [if_neg same] at new
          cases new
    obtain ⟨found,there,key⟩ := target
    exact ⟨found,List.mem_append_left _ there,key⟩

/-- Two extensions of one base whose marks are apart. -/
theorem Coherent.merge (own : Coherent fun t => base t ++ mine t) (other : Coherent fun t => base t ++ theirs t)
    (apart : ∀ t, ∀ first ∈ theirs t, ∀ second ∈ mine t, first.Apart second) :
    Coherent fun t => (base t ++ theirs t) ++ mine t := by
  constructor
  · intro t
    obtain ⟨_,among,fresh⟩ := List.pairwise_append.mp (own.apart t)
    refine List.pairwise_append.mpr ⟨other.apart t,among,fun first member second inside => ?_⟩
    rcases List.mem_append.mp member with before | new
    · exact fresh first before second inside
    · exact apart t first new second inside
  · intro t mark member reference inside
    rcases List.mem_append.mp member with shared | new
    · obtain ⟨target,there,key⟩ := other.refers t mark shared reference inside
      exact ⟨target,List.mem_append_left _ there,key⟩
    · obtain ⟨target,there,key⟩ := own.refers t mark (List.mem_append_right _ new) reference inside
      rcases List.mem_append.mp there with before | late
      · exact ⟨target,List.mem_append_left _ (List.mem_append_left _ before),key⟩
      · exact ⟨target,List.mem_append_right _ late,key⟩

end Coherence

section Sessions
variable {Client α : Type} {server : Server Client} {client : Client} {session other : Session sql Write Resource α}
  {committed : Database}

structure Marking (session : Session sql Write Resource α) (committed : Database) : Prop where
  pointing : ∀ write ∈ session.writes, write.Pointing
  held : ∀ t, ∀ mark ∈ addedMarks session.writes t, .row t mark.key ∈ session.held ∧
    ∀ entry ∈ mark.entries, .entry t entry ∈ session.held
  coherent : Coherent fun t => committed.marks t ++ addedMarks session.writes t

theorem Marking.visible (marking : Marking session committed) :
    (server.engine.visible committed session.writes).marks =
      fun t => committed.marks t ++ addedMarks session.writes t := by
  funext t
  exact visible_marks marking.pointing committed t

theorem Marking.commits (marking : Marking session committed) :
    (server.engine.visible committed session.writes).Intact := by
  rw [intact_iff,marking.visible]
  exact marking.coherent

theorem marking_start (program : Program sql α) (intact : committed.Intact) :
    Marking (⟨program,[],[],[]⟩ : Session sql Write Resource α) committed where
  pointing write member := by cases member
  held t mark member := by cases member
  coherent := by simpa [addedMarks] using intact_iff.mp intact

theorem addedMarks_insert (t other : Table) (row : t.Row) :
    addedMarks [.insert t row] other = if other = t then [t.mark row] else [] := by
  unfold addedMarks
  rw [List.flatMap_singleton]
  by_cases same : other = t
  · subst same
    rw [if_pos rfl,Write.inserted_self]
    rfl
  · rw [if_neg same,Write.inserted_other (Ne.symm same)]
    rfl

theorem Marking.answered (marking : Marking session committed) {turn : Nat} {op : Statement} {reply : op.Reply}
    {writes : List Write} (pointing : Pointing op)
    (answered : server.exec client turn op (server.engine.visible committed session.writes) = .ok (reply,writes))
    (rest : Program sql α) (issued : List Statement) :
    Marking ⟨rest,session.writes ++ writes,
      session.held ++ Server.locks op (server.engine.visible committed session.writes),issued⟩ committed := by
  have written := Server.exec_writes answered
  have pointed := exec_pointing pointing answered
  have sent : ∀ write ∈ session.writes ++ writes, write.Pointing := by
    intro write member
    exact (List.mem_append.mp member).elim (marking.pointing write) (pointed write)
  have quiet (nothing : ∀ t, addedMarks writes t = []) (held : List Resource) :
      Marking ⟨rest,session.writes ++ writes,session.held ++ held,issued⟩ committed := by
    have same (t : Table) : addedMarks (session.writes ++ writes) t = addedMarks session.writes t := by
      rw [addedMarks_append,nothing,List.append_nil]
    refine ⟨sent,?_,?_⟩
    · intro t mark member
      rw [same t] at member
      obtain ⟨key,entries⟩ := marking.held t mark member
      exact ⟨List.mem_append_left _ key,fun entry inside => List.mem_append_left _ (entries entry inside)⟩
    · simpa only [same] using marking.coherent
  cases op with
  | insert t row =>
    obtain ⟨stored,ok,valid,rfl⟩ := written
    refine ⟨sent,?_,?_⟩
    · intro table mark member
      rw [addedMarks_append] at member
      rcases List.mem_append.mp member with old | new
      · obtain ⟨key,entries⟩ := marking.held table mark old
        exact ⟨List.mem_append_left _ key,fun entry inside => List.mem_append_left _ (entries entry inside)⟩
      · rw [addedMarks_insert] at new
        by_cases same : table = t
        · subst same
          rw [if_pos rfl,mark_stored ok] at new
          rw [List.mem_singleton.mp new]
          refine ⟨List.mem_append_right _ List.mem_cons_self,fun entry inside => ?_⟩
          exact List.mem_append_right _ (List.mem_cons_of_mem _ (List.mem_map_of_mem inside))
        · rw [if_neg same] at new
          cases new
    · have seen : (server.engine.visible committed session.writes).marks = fun table =>
          committed.marks table ++ addedMarks session.writes table := marking.visible
      have apart : ∀ earlier ∈ committed.marks t ++ addedMarks session.writes t, earlier.Apart (t.mark stored) := by
        intro earlier member
        have inside : earlier ∈ (server.engine.visible committed session.writes).marks t := by
          rw [seen]
          exact member
        obtain ⟨old,present,rfl⟩ := List.mem_map.mp inside
        have clear := Database.violated_clash valid old present
        exact ⟨fun key => clear (Or.inl key),fun entry there here => clear (Or.inr ⟨entry,there,here⟩)⟩
      have named : ∀ reference ∈ (t.mark stored).references,
          ∃ target ∈ committed.marks reference.1 ++ addedMarks session.writes reference.1, target.key = reference.2 := by
        intro reference inside
        have present := (refers_iff _ t stored).mp (Database.violated_none valid).2.2 reference inside
        obtain ⟨row,there,key⟩ := Database.has_iff.mp present
        have marked : reference.1.mark row ∈ (server.engine.visible committed session.writes).marks reference.1 :=
          List.mem_map_of_mem there
        rw [seen] at marked
        exact ⟨_,marked,key⟩
      have extended := marking.coherent.extend apart named
      simpa only [addedMarks_append,addedMarks_insert,List.append_assoc] using extended
  | update t id set =>
    obtain ⟨stored,_,rfl⟩ := written
    exact quiet (fun _ => rfl) _
  | _ =>
    obtain rfl : writes = [] := written
    exact quiet (fun _ => rfl) _

theorem Marking.rely (mine : Marking session committed) (theirs : Marking other committed)
    (exclusive : ∀ resource ∈ session.held, resource ∉ other.held) :
    Marking session (server.engine.visible committed other.writes) := by
  have seen : (server.engine.visible committed other.writes).marks = fun table =>
      committed.marks table ++ addedMarks other.writes table := theirs.visible
  refine ⟨mine.pointing,mine.held,?_⟩
  rw [seen]
  refine mine.coherent.merge theirs.coherent fun t first there second here => ?_
  obtain ⟨key,entries⟩ := mine.held t second here
  obtain ⟨theirKey,theirEntries⟩ := theirs.held t first there
  constructor
  · intro same
    rw [same] at theirKey
    exact exclusive _ key theirKey
  · intro entry own shared
    exact exclusive _ (entries entry shared) (theirEntries entry own)

def abiding (allowed : Statement → Prop) (Client : Type) : Protocol sql Client Unit :=
  ⟨fun _ => (),fun _ _ op => allowed op,fun _ _ _ _ => ()⟩

theorem only_abides {allowed : Statement → Prop} {Seen : Database → Prop} {program : Program sql α}
    (only : program.Only allowed) :
    program.Obeys server.engine Seen (abiding allowed Client) client () (fun _ _ => True) :=
  (only.obeys (fun _ permitted => permitted) fun _ _ _ => rfl).weaken fun _ _ _ => trivial

theorem marking_guarantee (programs : Client → Program sql α) :
    Guarantee server.engine (abiding Pointing Client) programs (fun _ => True) Database.Intact
      (fun _ _ session committed => Marking session committed) where
  start _ _ intact := marking_start _ intact
  sees _ _ _ _ _ _ := trivial
  answered _ _ _ _ _ _ _ _ _ marking pointing answered _ := marking.answered pointing answered _ _
  failed _ _ _ _ _ _ _ _ marking _ _ := ⟨marking.pointing,marking.held,marking.coherent⟩
  commit _ _ _ _ _ marking := marking.commits
  rely _ _ _ _ _ _ _ _ _ mine theirs exclusive := mine.rely theirs exclusive

end Sessions

section Reached
variable {Client α : Type} [DecidableEq Client] {server : Server Client} {programs : Client → Program sql α}
  {db : Database} {before after : Config sql Client Database Write Resource α} {label : Label sql Client}

theorem intact_reachable (pointing : ∀ client, (programs client).Only Pointing) (intact : db.Intact)
    (reached : Reachable server.engine programs db after) :
    after.committed.Intact ∧ ∀ client session, after.status client = .running session →
      (server.engine.visible after.committed session.writes).Intact := by
  have obeys (client : Client) := @only_abides Client α server client Pointing (fun _ => True) _ (pointing client)
  obtain ⟨whole,views⟩ := (marking_guarantee programs).reachable obeys intact reached
  refine ⟨whole,fun client session running => ?_⟩
  obtain ⟨_,marking,_⟩ := views client session running
  exact marking.commits

theorem marks_step (intact : db.Intact)
    (obeys : ∀ client, (programs client).Obeys server.engine (fun _ => True) (abiding Pointing Client) client ()
      (fun _ _ => True))
    (reached : Reachable server.engine programs db before) (step : Step server.engine programs before label after)
    (t : Table) : before.committed.marks t <+: after.committed.marks t := by
  have kept := (marking_guarantee programs).reachable obeys intact reached
  cases step with
  | commit client session value opened returned =>
    obtain ⟨_,marking,_⟩ := kept.2 client session opened
    exact visible_prefix marking.pointing before.committed t
  | _ => exact List.prefix_refl _

theorem marks_runs (intact : db.Intact)
    (obeys : ∀ client, (programs client).Obeys server.engine (fun _ => True) (abiding Pointing Client) client ()
      (fun _ _ => True))
    (reached : Reachable server.engine programs db before)
    (runs : Runs server.engine programs (fun _ _ => True) before after) :
    Reachable server.engine programs db after ∧ ∀ t, before.committed.marks t <+: after.committed.marks t := by
  apply runs.invariant (fun config => Reachable server.engine programs db config ∧
    ∀ t, before.committed.marks t <+: config.committed.marks t) ⟨reached,fun t => List.prefix_refl _⟩
  rintro middle label last ⟨there,kept⟩ step _
  exact ⟨there.step step,fun t => (kept t).trans (marks_step intact obeys there step t)⟩

end Reached

/-- In every run of requests, every committed state and every view of an open
transaction has its keys, unique indexes and foreign keys intact, and what is
committed stays. -/
theorem database_intact {Client : Type} [DecidableEq Client] (server : Server Client) (platform : Platform)
    (moment : Client → Moment) (call : Client → Call) (db : Database) (intact : db.Intact)
    (before after : Config sql Client Database Write Resource Response)
    (reached : Reachable server.engine (platform.requests moment call) db before)
    (runs : Runs server.engine (platform.requests moment call) (fun _ _ => True) before after) :
    after.committed.Intact ∧
      (∀ client session, after.status client = .running session →
        (server.engine.visible after.committed session.writes).Intact) ∧
      ∀ t, (before.committed t).map t.mark <+: (after.committed t).map t.mark := by
  have pointing (client : Client) := handle_pointing platform (moment client) (call client)
  have obeys (client : Client) := @only_abides Client _ server client Pointing (fun _ => True) _ (pointing client)
  obtain ⟨later,kept⟩ := marks_runs intact obeys reached runs
  obtain ⟨whole,views⟩ := intact_reachable pointing intact later
  exact ⟨whole,views,kept⟩

/-- The second of two orders is sent while the first request is still open. -/
theorem database_intact_pair :
    ∃ after, Reachable sampleServer.engine
        (samplePlatform.requests (sampleMoment fun _ => .ok sampleOpen) sampleCalls) sample after ∧
      (after.committed .orders).map Order.idempotencyKey = ["k1","k2"] ∧ after.committed.Intact ∧
      ∀ t, (sample t).map t.mark <+: (after.committed t).map t.mark := by
  have scheduled : (follow sampleServer.engine
      (samplePlatform.requests (sampleMoment fun _ => .ok sampleOpen) sampleCalls)
      ([0,0,0,1,1,1] ++ List.replicate 11 0 ++ List.replicate 11 1) (.initial sample)).map
        (fun config => (config.committed .orders).map Order.idempotencyKey) = some ["k1","k2"] := by
    decide +kernel
  obtain ⟨after,followed,keys⟩ := Option.map_eq_some_iff.mp scheduled
  have intact := database_intact sampleServer samplePlatform (sampleMoment fun _ => .ok sampleOpen) sampleCalls sample
    sample_intact (.initial sample) after .refl (follow_runs followed)
  exact ⟨after,follow_runs followed,keys,intact.1,intact.2.2⟩

/-- A request, or a caller of `create_double_entry` who commits all its postings together. -/
inductive Work
  | request (call : Call)
  | posts (postings : List Posting)

def Platform.perform (platform : Platform) (moment : Moment) : Work → Action (Option Response)
  | .request call => some <$> platform.handle moment call
  | .posts postings => do
    let _ ← postings.mapM LedgerRepository.createDoubleEntry
    pure none

theorem perform_pointing (platform : Platform) (moment : Moment) (work : Work) :
    (platform.perform moment work).Only Pointing := by
  cases work with
  | request call => exact only_map _ (handle_pointing platform moment call)
  | posts postings =>
    exact Program.Only.bind (only_mapM postings fun posting _ => createDoubleEntry_pointing posting) fun _ => trivial

/-- Whatever requests run and whatever is posted at once, the credits less the debits
of all accounts sum to 0 in every committed state and in every view of an open
transaction. -/
theorem trial_balance {Client : Type} [DecidableEq Client] (server : Server Client) (platform : Platform)
    (moment : Client → Moment) (work : Client → Work) (db : Database) (intact : db.Intact)
    (config : Config sql Client Database Write Resource (Option Response))
    (reached : Reachable server.engine (fun client => platform.perform (moment client) (work client)) db config) :
    ((config.committed .accounts).map fun account => config.committed.balance account.id).sum = 0 ∧
      ∀ client session, config.status client = .running session →
        ((server.engine.visible config.committed session.writes .accounts).map fun account =>
          (server.engine.visible config.committed session.writes).balance account.id).sum = 0 := by
  obtain ⟨whole,views⟩ := intact_reachable (fun client => perform_pointing platform (moment client) (work client)) intact
    reached
  exact ⟨whole.balanced,fun client session running => (views client session running).balanced⟩

def sampleCrossed (client : Fin 2) : Work :=
  .posts [if client = oneClient then ⟨21,24,300,"BRL","PAYMENT",""⟩ else ⟨24,21,70,"BRL","PAYMENT",""⟩]

theorem trial_balance_pair :
    ∃ config, Reachable sampleServer.engine (fun client =>
        samplePlatform.perform (sampleMoment (fun _ => .ok sampleOpen) client) (sampleCrossed client)) sample config ∧
      (config.committed .accounts).map (fun account => config.committed.balance account.id) = [770,0,0,-770] ∧
      ((config.committed .accounts).map fun account => config.committed.balance account.id).sum = 0 := by
  have scheduled : (follow sampleServer.engine
      (fun client => samplePlatform.perform (sampleMoment (fun _ => .ok sampleOpen) client) (sampleCrossed client))
      [0,1,0,1,0,1,0,1,0,1] (.initial sample)).map (fun config =>
        (config.committed .accounts).map (fun account => config.committed.balance account.id)) =
        some [770,0,0,-770] := by
    decide +kernel
  obtain ⟨config,followed,balances⟩ := Option.map_eq_some_iff.mp scheduled
  have reached := follow_reachable .refl followed
  have sums := trial_balance sampleServer samplePlatform (sampleMoment fun _ => .ok sampleOpen) sampleCrossed sample
    sample_intact config reached
  exact ⟨config,reached,balances,sums.1⟩

end CryptoBrokerage
