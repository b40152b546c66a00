import CryptoBrokerage.Ledger
import Mathlib.Tactic.NormNum

/-! The locking pattern that `get_balance_for_update` documents, for any number of
interleaved transactions. Where rounding raises no balance, what it returns is a
lower bound of the true one until the lock is released, and no account is
overdrawn. -/
namespace CryptoBrokerage
open Transaction (Program Engine View Protocol Session Config Reachable Runs CarefulGuarantee Observes)
open DecimalContext (rounded)

/-- What a transaction knows about one account: whether it holds the row lock,
the last sum of credits it has read under it, the balances returned to it, and
whether it has posted a debit. -/
structure LockState where
  locked : Bool := false
  credits : Option ℚ := none
  returned : List ℚ := []
  spent : Bool := false

/-- Debits of the account wait for a returned balance and are posted once;
everything else may be sent at any time, but no entry is amended. -/
def lockProtocol [DecimalContext] (Client : Type) (account : Uuid) : Protocol sql Client LockState where
  start _ := {}
  allowed _ state op :=
    match op with
    | .insert .ledgerEntries row => 0 < row.amount ∧ (row.debitAccountId = account →
        state.spent = false ∧ ∃ balance ∈ state.returned, row.amount ≤ balance)
    | .update .ledgerEntries _ _ => False
    | _ => True
  after _ state op reply :=
    match op, reply with
    | .selectAccountForUpdate id, .ok (some _) => if id = account then { state with locked := true } else state
    | .sumCredits id, .ok sum =>
      if id = account ∧ state.locked then { state with credits := some sum } else state
    | .sumDebits id, .ok sum =>
      if id = account then
        { state with returned := (state.credits.map (fun credits => rounded (credits - sum))).toList ++ state.returned }
      else state
    | .insert .ledgerEntries row, .ok _ =>
      if row.debitAccountId = account then { state with spent := true } else state
    | _, _ => state

/-- The statement is not the credit SUM, under the lock, of a balance that rounding raises. -/
def Unraised [DecimalContext] {Client α : Type} (server : Server Client) (account : Uuid) (_client : Client)
    (session : Session sql Write Resource α) (committed : Database) (op : Statement) : Prop :=
  op = .sumCredits account → Resource.row .accounts account ∈ session.held →
    (server.engine.visible committed session.writes).readBalance account ≤
      (server.engine.visible committed session.writes).balance account

theorem balance_own {grid : AddSubgroup ℚ} {account : Uuid} {own : List LedgerEntry}
    (positive : ∀ entry ∈ own, 0 ≤ entry.amount ∧ entry.amount ∈ grid)
    (credits : ∀ entry ∈ own, entry.debitAccountId ≠ account) : 0 ≤ books.balance own account := by
  have sum : 0 ≤ books.credits own account := books.credits_nonneg (fun entry member => (positive entry member).1) _
  unfold DoubleEntry.balance
  rw [books.debits_of_forall_ne credits,sub_zero]
  exact sum

theorem entries_append {writes : List Write} {stored : LedgerEntry} :
    (writes ++ [Write.insert .ledgerEntries stored]).flatMap Write.entry =
    writes.flatMap Write.entry ++ [stored] := by
  rw [List.flatMap_append]
  rfl

section Invariant
variable [DecimalContext] {Client α : Type} {server : Server Client} {grid : AddSubgroup ℚ} {account : Uuid}

def Solvent (grid : AddSubgroup ℚ) (account : Uuid) (db : Database) : Prop :=
  0 ≤ db.balance account ∧ ∀ entry ∈ db .ledgerEntries, entry.amount ∈ grid

structure Holding (grid : AddSubgroup ℚ) (account : Uuid) (state : LockState)
    (session : Session sql Write Resource α) (committed : Database) : Prop where
  plain : ∀ write ∈ session.writes, write.amends = false
  own : ∀ entry ∈ session.writes.flatMap Write.entry, 0 ≤ entry.amount ∧ entry.amount ∈ grid
  unspent : state.spent = false → ∀ entry ∈ session.writes.flatMap Write.entry, entry.debitAccountId ≠ account
  unlocked : state.locked = false → state.spent = false ∧ state.returned = [] ∧ state.credits = none
  lock : state.locked = true → .row .accounts account ∈ session.held
  read : ∀ sum, state.credits = some sum → sum ∈ grid ∧
    sum ≤ books.credits (committed .ledgerEntries ++ session.writes.flatMap Write.entry) account ∧
    (state.spent = false → ∀ debits,
      debits = books.debits (committed .ledgerEntries ++ session.writes.flatMap Write.entry) account →
        rounded (sum - debits) ≤ sum - debits)
  returned : state.spent = false → ∀ balance ∈ state.returned, ∃ point ∈ grid, balance ≤ point ∧
    point ≤ books.balance (committed .ledgerEntries ++ session.writes.flatMap Write.entry) account
  solvent : state.spent = true →
    0 ≤ books.balance (committed .ledgerEntries ++ session.writes.flatMap Write.entry) account

theorem Holding.visible (server : Server Client) {state : LockState} {session : Session sql Write Resource α}
    {committed : Database}
    (holding : Holding grid account state session committed) :
    (server.engine.visible committed session.writes) .ledgerEntries =
      committed .ledgerEntries ++ session.writes.flatMap Write.entry := ledger_visible holding.plain committed

/-- A statement that writes no ledger entry and tells nothing about the account
keeps the local invariant. -/
theorem Holding.frame {state : LockState} {session next : Session sql Write Resource α} {committed : Database}
    (holding : Holding grid account state session committed)
    (silent : ∃ more, next.writes = session.writes ++ more ∧
      ∀ write ∈ more, write.amends = false ∧ write.entry = [])
    (held : session.held ⊆ next.held) : Holding grid account state next committed := by
  obtain ⟨more,writes,quiet⟩ := silent
  have entries : next.writes.flatMap Write.entry = session.writes.flatMap Write.entry := by
    rw [writes,List.flatMap_append,List.flatMap_eq_nil_iff.mpr fun write member => (quiet write member).2,
      List.append_nil]
  have plain : ∀ write ∈ next.writes, write.amends = false := by
    intro write member
    rw [writes] at member
    rcases List.mem_append.mp member with old | new
    · exact holding.plain write old
    · exact (quiet write new).1
  exact ⟨plain,entries ▸ holding.own,entries ▸ holding.unspent,holding.unlocked,
    fun locked => held (holding.lock locked),entries ▸ holding.read,entries ▸ holding.returned,
    entries ▸ holding.solvent⟩

theorem Holding.onGrid {state : LockState} {session : Session sql Write Resource α} {committed : Database}
    (holding : Holding grid account state session committed) (solvent : Solvent grid account committed) :
    ∀ entry ∈ committed .ledgerEntries ++ session.writes.flatMap Write.entry, entry.amount ∈ grid := by
  intro entry member
  rcases List.mem_append.mp member with old | new
  · exact solvent.2 entry old
  · exact (holding.own entry new).2

theorem Holding.credit (server : Server Client) {state : LockState} {session : Session sql Write Resource α}
    {committed : Database}
    (holding : Holding grid account state session committed) (free : state.locked = false) :
    (server.engine.visible committed session.writes) .ledgerEntries =
        committed .ledgerEntries ++ session.writes.flatMap Write.entry ∧
      (∀ entry ∈ session.writes.flatMap Write.entry, 0 ≤ entry.amount ∧ entry.amount ∈ grid) ∧
      ∀ entry ∈ session.writes.flatMap Write.entry, entry.debitAccountId ≠ account :=
  ⟨holding.visible server,holding.own,holding.unspent (holding.unlocked free).1⟩

theorem Holding.commit {state : LockState} {session : Session sql Write Resource α} {committed : Database}
    (solvent : Solvent grid account committed) (holding : Holding grid account state session committed) :
    Solvent grid account (server.engine.visible committed session.writes) := by
  constructor
  · rw [balance_books,holding.visible server]
    cases spent : state.spent with
    | true => exact holding.solvent spent
    | false =>
      rw [DoubleEntry.balance_append]
      exact add_nonneg solvent.1 (balance_own holding.own (holding.unspent spent))
  · intro entry member
    rw [holding.visible server] at member
    rcases List.mem_append.mp member with old | new
    · exact solvent.2 entry old
    · exact (holding.own entry new).2

theorem Holding.rely {state : LockState} {session : Session sql Write Resource α} {committed after : Database}
    {added : List LedgerEntry} (holding : Holding grid account state session committed)
    (ledger : after .ledgerEntries = committed .ledgerEntries ++ added)
    (free : state.locked = true → (∀ entry ∈ added, 0 ≤ entry.amount ∧ entry.amount ∈ grid) ∧
      ∀ entry ∈ added, entry.debitAccountId ≠ account) :
    Holding grid account state session after := by
  have grown (locked : state.locked = true) :
      books.credits (committed .ledgerEntries ++ session.writes.flatMap Write.entry) account ≤
          books.credits (after .ledgerEntries ++ session.writes.flatMap Write.entry) account ∧
        books.debits (after .ledgerEntries ++ session.writes.flatMap Write.entry) account =
          books.debits (committed .ledgerEntries ++ session.writes.flatMap Write.entry) account ∧
        books.balance (committed .ledgerEntries ++ session.writes.flatMap Write.entry) account ≤
          books.balance (after .ledgerEntries ++ session.writes.flatMap Write.entry) account := by
    obtain ⟨positive,credits⟩ := free locked
    have more : 0 ≤ books.credits added account := books.credits_nonneg (fun entry member => (positive entry member).1) _
    have gain := balance_own positive credits
    rw [ledger]
    simp only [DoubleEntry.credits_append,DoubleEntry.debits_append,DoubleEntry.balance_append]
    rw [books.debits_of_forall_ne credits,add_zero]
    refine ⟨?_,rfl,?_⟩ <;> linarith
  have known (some : state.spent = true ∨ state.returned ≠ [] ∨ state.credits ≠ none) : state.locked = true := by
    by_contra free
    obtain ⟨spent,returned,credits⟩ := holding.unlocked (by simpa using free)
    rcases some with h | h | h
    · rw [spent] at h
      cases h
    · exact h returned
    · exact h credits
  refine ⟨holding.plain,holding.own,holding.unspent,holding.unlocked,holding.lock,?_,?_,?_⟩
  · intro sum seen
    obtain ⟨member,le,unraised⟩ := holding.read sum seen
    obtain ⟨more,same,_⟩ := grown (known (by simp [seen]))
    exact ⟨member,le.trans more,fun spent debits all => unraised spent debits (all.trans same)⟩
  · intro spent balance member
    obtain ⟨point,inside,le,low⟩ := holding.returned spent balance member
    have locked := known (Or.inr (Or.inl (List.ne_nil_of_mem member)))
    exact ⟨point,inside,le,low.trans (grown locked).2.2⟩
  · intro spent
    exact (holding.solvent spent).trans (grown (known (Or.inl spent))).2.2

section Posting
variable {state : LockState} {session : Session sql Write Resource α} {committed : Database} {stored : LedgerEntry}
  {rest : Program sql α} {held : List Resource} {issued : List Statement}

theorem Holding.own_append (holding : Holding grid account state session committed)
    (nonneg : 0 ≤ stored.amount) (inside : stored.amount ∈ grid) :
    ∀ entry ∈ session.writes.flatMap Write.entry ++ [stored], 0 ≤ entry.amount ∧ entry.amount ∈ grid := by
  intro entry member
  rcases List.mem_append.mp member with old | new
  · exact holding.own entry old
  · rw [List.mem_singleton.mp new]
    exact ⟨nonneg,inside⟩

theorem Holding.plain_append (holding : Holding grid account state session committed) :
    ∀ write ∈ session.writes ++ [Write.insert .ledgerEntries stored], write.amends = false := by
  intro write member
  rcases List.mem_append.mp member with old | new
  · exact holding.plain write old
  · rw [List.mem_singleton.mp new]
    rfl

theorem Holding.read_append (holding : Holding grid account state session committed) (nonneg : 0 ≤ stored.amount)
    {sum : ℚ} (read : state.credits = some sum) :
    sum ∈ grid ∧ sum ≤ books.credits
      (committed .ledgerEntries ++ (session.writes.flatMap Write.entry ++ [stored])) account := by
  obtain ⟨member,low,_⟩ := holding.read sum read
  have credits : 0 ≤ books.credits [stored] account :=
    books.credits_nonneg (fun entry member => by rw [List.mem_singleton.mp member]; exact nonneg) account
  rw [← List.append_assoc,DoubleEntry.credits_append]
  exact ⟨member,by linarith⟩

theorem Holding.spend (holding : Holding grid account state session committed) (nonneg : 0 ≤ stored.amount)
    (inside : stored.amount ∈ grid) {balance : ℚ} (seen : balance ∈ state.returned)
    (enough : stored.amount ≤
      books.balance (committed .ledgerEntries ++ session.writes.flatMap Write.entry) account)
    (kept : session.held ⊆ held) :
    Holding grid account { state with spent := true }
      ⟨rest,session.writes ++ [.insert .ledgerEntries stored],held,issued⟩ committed := by
  have locked : state.locked = true := by
    by_contra free
    rw [(holding.unlocked (by simpa using free)).2.1] at seen
    cases seen
  refine ⟨holding.plain_append,entries_append ▸ holding.own_append nonneg inside,fun spent => (by cases spent),
    fun free => ?_,fun _ => kept (holding.lock locked),fun sum read => ?_,fun spent => (by cases spent),fun _ => ?_⟩
  · rw [show state.locked = false from free] at locked
    cases locked
  · rw [entries_append]
    exact ⟨(holding.read_append nonneg read).1,(holding.read_append nonneg read).2,fun spent => (by cases spent)⟩
  · rw [entries_append,← List.append_assoc,DoubleEntry.balance_append,DoubleEntry.balance_singleton]
    have spent := books.neg_amount_le_effect stored account nonneg
    change -stored.amount ≤ _ at spent
    linarith

theorem Holding.earn (holding : Holding grid account state session committed) (nonneg : 0 ≤ stored.amount)
    (inside : stored.amount ∈ grid) (other : stored.debitAccountId ≠ account) (kept : session.held ⊆ held) :
    Holding grid account state
      ⟨rest,session.writes ++ [.insert .ledgerEntries stored],held,issued⟩ committed := by
  have gain : 0 ≤ books.effect stored account := books.effect_nonneg stored nonneg other
  refine ⟨holding.plain_append,entries_append ▸ holding.own_append nonneg inside,fun spent entry member => ?_,
    holding.unlocked,fun locked => kept (holding.lock locked),fun sum read => ?_,?_,?_⟩
  · rw [entries_append] at member
    rcases List.mem_append.mp member with old | new
    · exact holding.unspent spent entry old
    · rw [List.mem_singleton.mp new]
      exact other
  · rw [entries_append]
    refine ⟨(holding.read_append nonneg read).1,(holding.read_append nonneg read).2,fun spent debits all => ?_⟩
    have none : books.debits [stored] account = 0 :=
      books.debits_of_forall_ne fun entry member => by rw [List.mem_singleton.mp member]; exact other
    rw [← List.append_assoc,DoubleEntry.debits_append,none,add_zero] at all
    exact (holding.read sum read).2.2 spent debits all
  · intro spent balance member
    obtain ⟨point,inside,le,low⟩ := holding.returned spent balance member
    rw [entries_append,← List.append_assoc,DoubleEntry.balance_append,DoubleEntry.balance_singleton]
    exact ⟨point,inside,le,by linarith⟩
  · intro spent
    rw [entries_append,← List.append_assoc,DoubleEntry.balance_append,DoubleEntry.balance_singleton]
    linarith [holding.solvent spent]

theorem Holding.post (rounding : Rounding server.numeric grid) (holding : Holding grid account state session committed)
    {row : LedgerEntry} {now : Timestamp}
    (ok : Table.store server.numeric .ledgerEntries { row with createdAt := now } = .ok stored)
    (positive : 0 < row.amount) (covered : row.debitAccountId = account →
      state.spent = false ∧ ∃ balance ∈ state.returned, row.amount ≤ balance) (kept : session.held ⊆ held) :
    Holding grid account (if row.debitAccountId = account then { state with spent := true } else state)
      ⟨rest,session.writes ++ [.insert .ledgerEntries stored],held,issued⟩ committed := by
  obtain ⟨amount,debit,_⟩ := store_entry ok
  have inside := rounding.stored amount
  have nonneg : 0 ≤ stored.amount := rounding.above amount grid.zero_mem positive.le
  split
  · next same =>
    obtain ⟨unspent,balance,seen,le⟩ := covered same
    obtain ⟨point,member,above,low⟩ := holding.returned unspent balance seen
    exact holding.spend nonneg inside seen ((rounding.below amount member (le.trans above)).trans low) kept
  · next other =>
    refine holding.earn nonneg inside ?_ kept
    rw [debit]
    exact other

end Posting

def Unposting : Statement → Prop
  | .insert t _ => t ≠ .ledgerEntries
  | .update t _ _ => t ≠ .ledgerEntries
  | _ => True

theorem Holding.quiet {state : LockState} {session : Session sql Write Resource α} {committed : Database}
    (holding : Holding grid account state session committed) {client : Client} {turn : Nat} {op : Statement}
    {db : Database} {reply : op.Reply} {writes : List Write}
    (answered : server.exec client turn op db = .ok (reply,writes))
    (other : Unposting op) (rest : Program sql α) (locks : List Resource) (issued : List Statement) :
    Holding grid account state ⟨rest,session.writes ++ writes,session.held ++ locks,issued⟩ committed := by
  refine holding.frame ⟨writes,rfl,fun write member => ?_⟩ (List.subset_append_left _ _)
  have written := Server.exec_writes answered
  cases op with
  | insert t row =>
    obtain ⟨stored,_,_,rfl⟩ := written
    rw [List.mem_singleton.mp member]
    cases t with
    | ledgerEntries => exact absurd rfl other
    | _ => exact ⟨rfl,rfl⟩
  | update t id set =>
    obtain ⟨stored,_,rfl⟩ := written
    rw [List.mem_singleton.mp member]
    cases t with
    | ledgerEntries => exact absurd rfl other
    | _ => exact ⟨rfl,rfl⟩
  | _ =>
    rw [show writes = [] from written] at member
    cases member

theorem Holding.locking {state : LockState} {session : Session sql Write Resource α} {committed : Database}
    (holding : Holding grid account state session committed) (held : Resource.row .accounts account ∈ session.held) :
    Holding grid account { state with locked := true } session committed :=
  ⟨holding.plain,holding.own,holding.unspent,fun free => (by cases free),fun _ => held,holding.read,
    holding.returned,holding.solvent⟩

theorem Holding.sumCredits {state : LockState} {session : Session sql Write Resource α} {committed : Database}
    (holding : Holding grid account state session committed) (solvent : Solvent grid account committed)
    (locked : state.locked = true) {sum : ℚ}
    (seen : sum = books.credits (committed .ledgerEntries ++ session.writes.flatMap Write.entry) account)
    (unraised : rounded (books.balance (committed .ledgerEntries ++ session.writes.flatMap Write.entry) account) ≤
      books.balance (committed .ledgerEntries ++ session.writes.flatMap Write.entry) account) :
    Holding grid account { state with credits := some sum } session committed := by
  refine ⟨holding.plain,holding.own,holding.unspent,fun free => ?_,holding.lock,fun other read => ?_,
    holding.returned,holding.solvent⟩
  · rw [show state.locked = false from free] at locked
    cases locked
  · rw [← Option.some.inj read,seen]
    refine ⟨books.credits_mem (holding.onGrid solvent) account,le_refl _,fun _ debits all => ?_⟩
    rw [all]
    exact unraised

theorem Holding.sumDebits {state : LockState} {session : Session sql Write Resource α} {committed : Database}
    (holding : Holding grid account state session committed) (solvent : Solvent grid account committed) {sum : ℚ}
    (seen : sum = books.debits (committed .ledgerEntries ++ session.writes.flatMap Write.entry) account) :
    Holding grid account { state with
      returned := (state.credits.map (fun credits => rounded (credits - sum))).toList ++ state.returned }
        session committed := by
  refine ⟨holding.plain,holding.own,holding.unspent,fun free => ?_,holding.lock,holding.read,
    fun spent balance member => ?_,holding.solvent⟩
  · obtain ⟨spent,returned,credits⟩ := holding.unlocked free
    refine ⟨spent,?_,credits⟩
    change (state.credits.map _).toList ++ state.returned = []
    rw [returned,credits]
    rfl
  · rcases List.mem_append.mp member with new | old
    · obtain ⟨credits,read,rfl⟩ := Option.map_eq_some_iff.mp (Option.mem_toList.mp new)
      obtain ⟨member,low,unraised⟩ := holding.read credits read
      refine ⟨credits - sum,?_,unraised spent sum seen,?_⟩
      · rw [seen]
        exact grid.sub_mem member (books.debits_mem (holding.onGrid solvent) account)
      · rw [seen]
        exact sub_le_sub_right low _
    · exact holding.returned spent balance old

theorem lockProtocol_error (client : Client) (state : LockState) (op : Statement) (error : Exception) :
    (lockProtocol Client account).after client state op (.error error) = state := by
  cases op with
  | insert t row => cases t <;> rfl
  | _ => rfl

theorem locking_answered (rounding : Rounding server.numeric grid) {client : Client} {state : LockState}
    {session : Session sql Write Resource α} {committed : Database} {op : Statement} (rest : Program sql α)
    {reply : op.Reply} {writes : List Write} (solvent : Solvent grid account committed)
    (holding : Holding grid account state session committed)
    (allowed : (lockProtocol Client account).allowed client state op)
    (answered : server.exec client session.issued.length op (server.engine.visible committed session.writes) =
      .ok (reply,writes)) (unraised : Unraised server account client session committed op) :
    Holding grid account ((lockProtocol Client account).after client state op (.ok reply))
      ⟨rest,session.writes ++ writes,
        session.held ++ server.engine.locks op (server.engine.visible committed session.writes),
        session.issued ++ [op]⟩ committed := by
  have quiet := fun other => holding.quiet answered other rest
    (server.engine.locks op (server.engine.visible committed session.writes)) (session.issued ++ [op])
  have written := Server.exec_writes answered
  cases op with
  | insert t row =>
    cases t with
    | ledgerEntries =>
      obtain ⟨entry,ok,_,rfl⟩ := written
      exact holding.post rounding ok allowed.1 allowed.2 (List.subset_append_left _ _)
    | _ => exact quiet (by simp [Unposting])
  | update t id set =>
    cases t with
    | ledgerEntries => exact absurd allowed not_false
    | _ => exact quiet (by simp [Unposting])
  | selectAccountForUpdate id =>
    cases reply with
    | none => exact quiet trivial
    | some row =>
      simp only [Server.exec,Except.ok.injEq,Prod.mk.injEq] at answered
      change Holding grid account (if id = account then { state with locked := true } else state) _ committed
      split
      · next same =>
        subst same
        refine (quiet trivial).locking (List.mem_append_right _ ?_)
        change _ ∈ if (server.engine.visible committed session.writes).has .accounts id then _ else _
        rw [if_pos (Database.has_iff.mpr ⟨row,Database.find_some answered.1⟩)]
        exact List.mem_singleton_self _
      · exact quiet trivial
  | sumCredits id =>
    simp only [Server.exec,Except.ok.injEq,Prod.mk.injEq] at answered
    change Holding grid account (if id = account ∧ state.locked then { state with credits := some reply } else state)
      _ committed
    split
    · next mine =>
      obtain ⟨rfl,locked⟩ := mine
      have low := unraised rfl (holding.lock locked)
      unfold Database.readBalance at low
      rw [balance_books,holding.visible server] at low
      refine (quiet trivial).sumCredits solvent locked ?_ ?_
      · rw [show writes = [] from written,List.append_nil,← answered.1,← holding.visible server]
        rfl
      · rw [show writes = [] from written,List.append_nil]
        exact low
    · exact quiet trivial
  | sumDebits id =>
    simp only [Server.exec,Except.ok.injEq,Prod.mk.injEq] at answered
    change Holding grid account (if id = account then
      { state with returned := (state.credits.map (fun credits => rounded (credits - reply))).toList ++ state.returned }
      else state) _ committed
    split
    · next same =>
      subst same
      refine (quiet trivial).sumDebits solvent ?_
      rw [show writes = [] from written,List.append_nil,← answered.1,← holding.visible server]
      rfl
    · exact quiet trivial
  | _ => exact quiet trivial

theorem locking_guarantee (rounding : Rounding server.numeric grid) (programs : Client → Program sql α) :
    CarefulGuarantee server.engine (lockProtocol Client account) programs (Unraised server account) (fun _ => True)
      (Solvent grid account) (fun _ => Holding grid account) where
  start client committed solvent :=
    ⟨by simp,by simp,by simp,fun _ => ⟨rfl,rfl,rfl⟩,fun locked => (by cases locked),fun _ read => (by cases read),
      fun _ _ member => (by cases member),fun spent => (by cases spent)⟩
  sees _ _ _ _ _ _ := trivial
  answered client state session committed op rest reply writes solvent holding allowed answered unraised :=
    locking_answered rounding rest solvent holding allowed answered unraised
  failed client state session committed op rest error solvent holding allowed raised := by
    rw [lockProtocol_error]
    exact holding.frame ⟨[],(List.append_nil _).symm,by simp⟩ (List.Subset.refl _)
  commit client state session committed solvent holding := holding.commit solvent
  rely client other state session state' session' committed different solvent holding theirs disjoint := by
    refine holding.rely (theirs.visible server) fun locked => ?_
    have free : state'.locked = false := by
      cases both : state'.locked with
      | false => rfl
      | true => exact absurd (theirs.lock both) (disjoint _ (holding.lock locked))
    obtain ⟨_,positive,credits⟩ := theirs.credit server free
    exact ⟨positive,credits⟩

end Invariant

/-- The documented pattern, for any program: a debit of the account is posted by
`create_double_entry`, at most once, and only when a balance that
`get_balance_for_update` has returned covers it. All other statements are free,
but they write no ledger entry. The list holds the balances returned so far. -/
inductive Disciplined [DecimalContext] {α : Type} (account : Uuid) : List ℚ → Bool → Action α → Prop
  | done (returned : List ℚ) (spent : Bool) (outcome : Except Exception α) :
      Disciplined account returned spent (.done outcome)
  | lock (returned : List ℚ) (spent : Bool) (next : Except Exception (Account × ℚ) → Action α)
      (found : ∀ row balance, Disciplined account (balance::returned) spent (next (.ok (row,balance))))
      (missing : ∀ error, Disciplined account returned spent (next (.error error))) :
      Disciplined account returned spent ((AccountRepository.getBalanceForUpdate account).attempt >>= next)
  | post (returned : List ℚ) (spent : Bool) (posting : Posting) (next : Except Exception LedgerEntry → Action α)
      (covered : posting.debitAccountId = account → LedgerRepository.refusal posting = none →
        spent = false ∧ ∃ balance ∈ returned, posting.amount ≤ balance)
      (rest : ∀ reply, Disciplined account returned
        (spent || decide (posting.debitAccountId = account ∧ LedgerRepository.refusal posting = none)) (next reply)) :
      Disciplined account returned spent ((LedgerRepository.createDoubleEntry posting).attempt >>= next)
  | other (returned : List ℚ) (spent : Bool) (op : Statement)
      (next : Except Exception op.Reply → Action α)
      (harmless : match op with
        | .insert t _ => t ≠ .ledgerEntries
        | .update t _ _ => t ≠ .ledgerEntries
        | _ => True)
      (rest : ∀ reply, Disciplined account returned spent (next reply)) :
      Disciplined account returned spent (.call op next)

section Discipline
variable [DecimalContext] {Client α : Type} {server : Server Client} {client : Client} {account : Uuid}

theorem getBalanceForUpdate_obeys (state : LockState) :
    (AccountRepository.getBalanceForUpdate account).Obeys server.engine (fun _ => True)
      (lockProtocol Client account) client state (fun outcome last => last.spent = state.spent ∧
        (∀ balance ∈ state.returned, balance ∈ last.returned) ∧
        ∀ row balance, outcome = .ok (row,balance) → balance ∈ last.returned) := by
  unfold AccountRepository.getBalanceForUpdate
  rw [Program.obeys_bind,Program.obeys_perform]
  refine ⟨trivial,fun reply _ => ?_⟩
  cases reply with
  | error error => exact ⟨rfl,fun _ member => member,fun _ _ same => (by cases same)⟩
  | ok found =>
    cases found with
    | none => exact ⟨rfl,fun _ member => member,fun _ _ same => (by cases same)⟩
    | some row =>
      have locked : (lockProtocol Client account).after client state (.selectAccountForUpdate account)
          (.ok (some row)) = { state with locked := true } := if_pos rfl
      rw [locked]
      unfold AccountRepository.getBalance
      change (Program.Obeys _ _ _ _ (_ >>= fun balance => pure (row,balance)) _ _)
      rw [Program.obeys_bind,Program.obeys_bind,Program.obeys_perform]
      refine ⟨trivial,fun credits _ => ?_⟩
      cases credits with
      | error error => exact ⟨rfl,fun _ member => member,fun _ _ same => (by cases same)⟩
      | ok credits =>
        have read : (lockProtocol Client account).after client { state with locked := true } (.sumCredits account)
            (.ok credits) = { state with locked := true, credits := some credits } := if_pos ⟨rfl,rfl⟩
        rw [read]
        change (Program.Obeys _ _ _ _ (_ >>= fun debits => pure (rounded (credits - debits))) _ _)
        rw [Program.obeys_bind,Program.obeys_perform]
        refine ⟨trivial,fun debits _ => ?_⟩
        cases debits with
        | error error => exact ⟨rfl,fun _ member => member,fun _ _ same => (by cases same)⟩
        | ok debits =>
          have sum : (lockProtocol Client account).after client
              { state with locked := true, credits := some credits } (.sumDebits account) (.ok debits) =
              { state with locked := true, credits := some credits
                           returned := rounded (credits - debits)::state.returned } := if_pos rfl
          rw [sum]
          refine ⟨rfl,fun _ member => List.mem_cons_of_mem _ member,fun _ _ same => ?_⟩
          cases same
          exact List.mem_cons_self

theorem createDoubleEntry_obeys (state : LockState) (posting : Posting)
    (covered : posting.debitAccountId = account → LedgerRepository.refusal posting = none →
      state.spent = false ∧ ∃ balance ∈ state.returned, posting.amount ≤ balance) :
    (LedgerRepository.createDoubleEntry posting).Obeys server.engine (fun _ => True)
      (lockProtocol Client account) client state (fun _ last => last.returned = state.returned ∧
        (last.spent = true → state.spent = true ∨
          posting.debitAccountId = account ∧ LedgerRepository.refusal posting = none)) := by
  unfold LedgerRepository.createDoubleEntry
  cases verdict : LedgerRepository.refusal posting with
  | some message => exact ⟨rfl,Or.inl⟩
  | none =>
    have positive : 0 < posting.amount := by
      unfold LedgerRepository.refusal at verdict
      split at verdict
      · cases verdict
      · next positive => exact not_le.mp positive
    change (Program.Obeys _ _ _ _ (send .uuid4 >>= fun id => _) _ _)
    rw [Program.obeys_bind,Program.obeys_perform]
    refine ⟨trivial,fun reply _ => ?_⟩
    cases reply with
    | error error => exact ⟨rfl,Or.inl⟩
    | ok id =>
      change (Program.Obeys _ _ _ _ (send (.insert .ledgerEntries (LedgerRepository.entry posting id)) >>=
        fun _ => BaseRepository.refresh .ledgerEntries id) _ _)
      rw [Program.obeys_bind,Program.obeys_perform]
      refine ⟨⟨positive,fun same => covered same verdict⟩,fun reply _ => ?_⟩
      cases reply with
      | error error => exact ⟨rfl,Or.inl⟩
      | ok _ =>
        have posted : (lockProtocol Client account).after client state
            (.insert .ledgerEntries (LedgerRepository.entry posting id)) (.ok ()) =
            if posting.debitAccountId = account then { state with spent := true } else state := rfl
        unfold BaseRepository.refresh BaseRepository.getById
        rw [Program.obeys_bind,Program.obeys_perform]
        refine ⟨trivial,fun reply _ => ?_⟩
        have kept : (if posting.debitAccountId = account then { state with spent := true } else state).returned =
            state.returned ∧ ((if posting.debitAccountId = account then { state with spent := true }
              else state).spent = true → state.spent = true ∨ posting.debitAccountId = account ∧
                (none : Option String) = none) := by
          split
          · next same => exact ⟨rfl,fun _ => Or.inr ⟨same,rfl⟩⟩
          · exact ⟨rfl,Or.inl⟩
        rcases reply with _ | _ | _ <;> exact kept

section Unposting
variable {state : LockState} {op : Statement}

theorem Unposting.allowed (unposting : Unposting op) : (lockProtocol Client account).allowed client state op := by
  cases op with
  | insert t row =>
    cases t with
    | ledgerEntries => exact absurd rfl unposting
    | _ => trivial
  | update t id set =>
    cases t with
    | ledgerEntries => exact absurd rfl unposting
    | _ => trivial
  | _ => trivial

theorem Unposting.grows (unposting : Unposting op) (reply : Except Exception op.Reply) :
    (∀ balance ∈ state.returned, balance ∈ ((lockProtocol Client account).after client state op reply).returned) ∧
      ((lockProtocol Client account).after client state op reply).spent = state.spent := by
  cases reply with
  | error error =>
    rw [lockProtocol_error]
    exact ⟨fun _ member => member,rfl⟩
  | ok reply =>
    cases op with
    | insert t row =>
      cases t with
      | ledgerEntries => exact absurd rfl unposting
      | _ => exact ⟨fun _ member => member,rfl⟩
    | selectAccountForUpdate id =>
      cases reply with
      | none => exact ⟨fun _ member => member,rfl⟩
      | some row =>
        change (∀ balance ∈ state.returned, balance ∈ (ite _ _ _ : LockState).returned) ∧
          (ite _ _ _ : LockState).spent = _
        split <;> exact ⟨fun _ member => member,rfl⟩
    | sumCredits id =>
      change (∀ balance ∈ state.returned, balance ∈ (ite _ _ _ : LockState).returned) ∧
        (ite _ _ _ : LockState).spent = _
      split <;> exact ⟨fun _ member => member,rfl⟩
    | sumDebits id =>
      change (∀ balance ∈ state.returned, balance ∈ (ite _ _ _ : LockState).returned) ∧
        (ite _ _ _ : LockState).spent = _
      split
      · exact ⟨fun _ member => List.mem_append_right _ member,rfl⟩
      · exact ⟨fun _ member => member,rfl⟩
    | _ => exact ⟨fun _ member => member,rfl⟩

end Unposting

theorem Disciplined.obeys {returned : List ℚ} {spent : Bool} {program : Action α}
    (disciplined : Disciplined account returned spent program) (state : LockState)
    (known : ∀ balance ∈ returned, balance ∈ state.returned) (once : state.spent = true → spent = true) :
    program.Obeys server.engine (fun _ => True) (lockProtocol Client account) client state (fun _ _ => True) := by
  induction disciplined generalizing state with
  | done returned spent outcome => trivial
  | lock returned spent next found missing ihFound ihMissing =>
    rw [Program.obeys_bind,Program.obeys_attempt]
    refine (getBalanceForUpdate_obeys state).weaken ?_
    rintro outcome last ⟨same,kept,new⟩
    cases outcome with
    | error error =>
      exact ihMissing error last (fun balance member => kept balance (known balance member)) (same ▸ once)
    | ok pair =>
      refine ihFound pair.1 pair.2 last (fun balance member => ?_) (same ▸ once)
      rcases List.mem_cons.mp member with rfl | old
      · exact new pair.1 pair.2 rfl
      · exact kept balance (known balance old)
  | post returned spent posting next covered rest ih =>
    rw [Program.obeys_bind,Program.obeys_attempt]
    have enough : posting.debitAccountId = account → LedgerRepository.refusal posting = none →
        state.spent = false ∧ ∃ balance ∈ state.returned, posting.amount ≤ balance := by
      intro same accepted
      obtain ⟨unspent,balance,member,le⟩ := covered same accepted
      refine ⟨?_,balance,known balance member,le⟩
      by_contra used
      rw [once (by simpa using used)] at unspent
      cases unspent
    refine (createDoubleEntry_obeys state posting enough).weaken ?_
    rintro outcome last ⟨kept,used⟩
    refine ih outcome last (fun balance member => kept ▸ known balance member) fun after => ?_
    rw [Bool.or_eq_true,decide_eq_true_eq]
    exact (used after).imp_left once
  | other returned spent op next harmless rest ih =>
    rw [Program.obeys_call]
    have unposting : Unposting op := by cases op <;> exact harmless
    refine ⟨unposting.allowed,fun reply _ => ?_⟩
    have grows := @Unposting.grows _ Client client account state op unposting reply
    exact ih reply _ (fun balance member => grows.1 balance (known balance member))
      fun used => once (grows.2 ▸ used)

theorem Disciplined.locked {returned : List ℚ} {spent : Bool} {next : Account × ℚ → Action α}
    (rest : ∀ row balance, Disciplined account (balance::returned) spent (next (row,balance))) :
    Disciplined account returned spent (AccountRepository.getBalanceForUpdate account >>= next) := by
  rw [← Program.attempt_bind]
  exact .lock returned spent _ rest fun error => .done returned spent (.error error)

theorem Disciplined.posted {returned : List ℚ} {spent : Bool} {posting : Posting}
    (covered : posting.debitAccountId = account → LedgerRepository.refusal posting = none →
      spent = false ∧ ∃ balance ∈ returned, posting.amount ≤ balance) :
    Disciplined account returned spent (LedgerRepository.createDoubleEntry posting) := by
  have whole := Program.attempt_bind (LedgerRepository.createDoubleEntry posting) pure
  rw [bind_pure] at whole
  rw [← whole]
  refine .post returned spent posting _ covered fun reply => ?_
  cases reply <;> exact .done _ _ _

end Discipline

/-- In every interleaving of disciplined transactions in which no credit SUM under the
lock is that of a balance that rounding raises, a balance that starts non-negative is
non-negative in every committed state. -/
theorem no_overdraft [DecimalContext] {Client α : Type} [DecidableEq Client] (server : Server Client) (grid : AddSubgroup ℚ)
    (rounding : Rounding server.numeric grid) (account : Uuid) (programs : Client → Action α)
    (disciplined : ∀ client, Disciplined account [] false (programs client)) (db : Database)
    (stored : ∀ entry ∈ db .ledgerEntries, entry.amount ∈ grid) (solvent : 0 ≤ db.balance account)
    (config : Config sql Client Database Write Resource α)
    (runs : Runs server.engine programs (Observes (Unraised server account)) (.initial db) config) :
    0 ≤ config.committed.balance account :=
  ((locking_guarantee rounding programs).upheld
    (fun client => (disciplined client).obeys {} (by simp) (by simp)) ⟨solvent,stored⟩ runs).1.1

def withdraw (account reserve : Uuid) (amount : ℚ) : Action LedgerEntry := do
  let (_,balance) ← AccountRepository.getBalanceForUpdate account
  if balance < amount then .raise (.insufficientFunds balance amount "BRL")
  else LedgerRepository.createDoubleEntry ⟨account,reserve,amount,"BRL","WITHDRAW",""⟩

theorem withdraw_disciplined (account reserve : Uuid) (amount : ℚ) :
    Disciplined account [] false (withdraw account reserve amount) := by
  refine Disciplined.locked fun row balance => ?_
  change Disciplined account [balance] false (if balance < amount then _ else _)
  split
  · exact .done _ _ _
  · next enough =>
    exact Disciplined.posted fun _ _ => ⟨rfl,balance,List.mem_singleton_self _,not_lt.mp enough⟩

def checkUnraised {α : Type} (config : Config sql (Fin 2) Database Write Resource α) (client : Fin 2) : Bool :=
  match config.status client with
  | .running session =>
    let db := sampleServer.engine.visible config.committed session.writes
    decide (db.readBalance 21 ≤ db.balance 21)
  | _ => true

theorem checkUnraised_sound {α : Type} {config : Config sql (Fin 2) Database Write Resource α}
    {label : Transaction.Label sql (Fin 2)} (checked : checkUnraised config label.client = true) :
    Observes (Unraised sampleServer 21) config label := by
  rintro client op session rfl running _ _
  change checkUnraised config client = true at checked
  unfold checkUnraised at checked
  rw [running] at checked
  exact of_decide_eq_true checked

/-- Two withdrawals of 600 from 1000: the second waits for the lock and is refused. -/
theorem no_overdraft_withdrawals :
    ∃ config, Runs sampleServer.engine (fun _ => withdraw 21 24 600) (Observes (Unraised sampleServer 21))
        (.initial sample) config ∧ config.committed.balance 21 = 400 ∧ 0 ≤ config.committed.balance 21 := by
  have scheduled : (Transaction.followIf sampleServer.engine (fun _ => withdraw 21 24 600) checkUnraised
      [0,1,0,0,0,0,0,0,0,1,1,1,1] (.initial sample)).map (fun config => config.committed.balance 21) =
        some 400 := by
    decide +kernel
  obtain ⟨config,followed,balance⟩ := Option.map_eq_some_iff.mp scheduled
  have runs := Transaction.followIf_runs (fun _ _ => checkUnraised_sound) followed
  refine ⟨config,runs,balance,?_⟩
  refine no_overdraft sampleServer grid36 numeric36_rounding 21 (fun _ => withdraw 21 24 600)
    (fun _ => withdraw_disciplined 21 24 600) sample ?_ (by decide +kernel) config runs
  intro entry member
  rw [List.mem_singleton.mp member]
  exact mem_grid36.mpr ⟨1000 * 10^18,by norm_num⟩

def sampleLong : Database :=
  sample.insert .ledgerEntries ⟨33,24,21,12345677901.123456789012345678,"BRL","DEPOSIT","",0⟩

/-- The balance that `get_balance_for_update` returns is rounded up, and a withdrawal
of all of it leaves less than nothing. -/
theorem overdraft_rounded :
    Disciplined 21 [] false (withdraw 21 24 12345678901.12345678901234568) ∧
      sampleLong.balance 21 = 12345678901.123456789012345678 ∧
      ∃ config, Reachable sampleServer.engine (fun _ => withdraw 21 24 12345678901.12345678901234568) sampleLong
          config ∧ config.committed.balance 21 < 0 := by
  refine ⟨withdraw_disciplined 21 24 _,by decide +kernel,?_⟩
  have scheduled : (Transaction.follow sampleServer.engine (fun _ => withdraw 21 24 12345678901.12345678901234568)
      (List.replicate 8 0) (.initial sampleLong)).map (fun config => decide (config.committed.balance 21 < 0)) =
        some true := by
    decide +kernel
  obtain ⟨config,followed,negative⟩ := Option.map_eq_some_iff.mp scheduled
  exact ⟨config,Transaction.follow_reachable .refl followed,of_decide_eq_true negative⟩

end CryptoBrokerage
