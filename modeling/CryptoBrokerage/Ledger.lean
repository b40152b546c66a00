import CryptoBrokerage.DoubleEntry
import CryptoBrokerage.Repositories

/-! Conservation in the ledger that `create_double_entry` keeps and that
`get_balance` sums up. -/
namespace CryptoBrokerage
open Transaction (Program Engine View)

def books : DoubleEntry LedgerEntry Uuid ℚ :=
  ⟨LedgerEntry.debitAccountId,LedgerEntry.creditAccountId,LedgerEntry.amount⟩

theorem balance_books (db : Database) (account : Uuid) :
    db.balance account = books.balance (db .ledgerEntries) account := rfl

def Write.entry : Write → List LedgerEntry
  | .insert .ledgerEntries row => [row]
  | _ => []

def Write.amends : Write → Bool
  | .update .ledgerEntries _ _ => true
  | _ => false

/-- Writes that amend no entry append their own to the ledger. -/
theorem ledger_visible {writes : List Write} (plain : ∀ write ∈ writes, write.amends = false) (db : Database) :
    (writes.foldl Database.apply db) .ledgerEntries = db .ledgerEntries ++ writes.flatMap Write.entry := by
  induction writes generalizing db with
  | nil => exact (List.append_nil _).symm
  | cons write rest ih =>
    have first : (db.apply write) .ledgerEntries = db .ledgerEntries ++ write.entry := by
      have amends := plain write List.mem_cons_self
      cases write with
      | insert t row =>
        cases t <;> first | exact Database.insert_self .. | exact (List.append_nil _).symm
      | update t id set =>
        cases t <;> first | exact (List.append_nil _).symm | cases amends
    rw [List.foldl_cons,ih fun other member => plain other (List.mem_cons_of_mem _ member),first,
      List.append_assoc]
    rfl

theorem store_entry {numeric : ℚ → Except Exception ℚ} {row stored : LedgerEntry}
    (ok : Table.store numeric .ledgerEntries row = .ok stored) :
    numeric row.amount = .ok stored.amount ∧ stored.debitAccountId = row.debitAccountId ∧
      stored.creditAccountId = row.creditAccountId := by
  simp only [Table.store,bind,Except.bind] at ok
  split at ok
  · cases ok
  · next amount kept =>
    cases ok
    exact ⟨kept,rfl,rfl⟩

def Database.accountsOf (db : Database) (currency : String) : Finset Uuid :=
  (((db .accounts).filter (fun account => account.currency == currency)).map Account.id).toFinset

theorem Database.mem_accountsOf {db : Database} {currency : String} {id : Uuid} :
    id ∈ db.accountsOf currency ↔ ∃ account ∈ db .accounts, account.id = id ∧ account.currency = currency := by
  unfold accountsOf
  simp only [List.mem_toFinset,List.mem_map,List.mem_filter,beq_iff_eq]
  constructor
  · rintro ⟨account,⟨member,same⟩,rfl⟩
    exact ⟨account,member,rfl,same⟩
  · rintro ⟨account,member,rfl,same⟩
    exact ⟨account,⟨member,same⟩,rfl⟩

section Calls
variable {Client : Type} (uuid4 : Client → Nat → Uuid) (now : Client → Timestamp) (client : Client)

def call (view : View sql Database) (posting : Posting) : Except Exception LedgerEntry × View sql Database :=
  (Server.exact uuid4 now).engine.run client (LedgerRepository.createDoubleEntry posting) view

def calls (postings : List Posting) (view : View sql Database) : View sql Database :=
  postings.foldl (fun view posting => (call uuid4 now client view posting).2) view

variable {uuid4 now client} {view : View sql Database} {posting : Posting}

theorem call_ok {entry : LedgerEntry} (accepted : (call uuid4 now client view posting).1 = .ok entry) :
    0 < posting.amount ∧ posting.debitAccountId ≠ posting.creditAccountId ∧
      entry.debitAccountId = posting.debitAccountId ∧ entry.creditAccountId = posting.creditAccountId ∧
      entry.amount = posting.amount ∧ entry.currency = posting.currency ∧
      (call uuid4 now client view posting).2.db = view.db.insert .ledgerEntries entry := by
  rcases ran : call uuid4 now client view posting with ⟨outcome,last⟩
  rw [ran] at accepted
  cases accepted
  obtain ⟨admitted,added⟩ := run_judged_ok ran
  obtain ⟨turn,stored,_,after⟩ := run_add_ok (fun _ => rfl) added
  rw [Server.exact,Table.store_ok (by decide) (by decide)] at stored
  cases stored
  unfold LedgerRepository.refusal at admitted
  split at admitted
  · cases admitted
  · next positive =>
    split at admitted
    · cases admitted
    · next different => exact ⟨not_le.mp positive,different,rfl,rfl,rfl,rfl,after⟩

theorem call_error {error : Exception} (rejected : (call uuid4 now client view posting).1 = .error error) :
    (call uuid4 now client view posting).2.db = view.db := by
  rcases ran : call uuid4 now client view posting with ⟨outcome,last⟩
  rw [ran] at rejected
  cases rejected
  unfold call LedgerRepository.createDoubleEntry at ran
  cases verdict : LedgerRepository.refusal posting with
  | some message =>
    rw [verdict] at ran
    cases ran
    rfl
  | none =>
    rw [verdict] at ran
    exact run_add_error (fun _ => rfl) ran

theorem call_balance {entry : LedgerEntry} (accepted : (call uuid4 now client view posting).1 = .ok entry)
    (account : Uuid) :
    (call uuid4 now client view posting).2.db.balance account =
      view.db.balance account + books.effect entry account := by
  obtain ⟨_,_,_,_,_,_,after⟩ := call_ok accepted
  rw [after,balance_books,Database.insert_self,DoubleEntry.balance_append,DoubleEntry.balance_singleton]
  rfl

/-- An accepted posting moves its amount from its debit to its credit account. -/
theorem call_moves {entry : LedgerEntry} (accepted : (call uuid4 now client view posting).1 = .ok entry) :
    (call uuid4 now client view posting).2.db.balance posting.debitAccountId =
        view.db.balance posting.debitAccountId - posting.amount ∧
      (call uuid4 now client view posting).2.db.balance posting.creditAccountId =
        view.db.balance posting.creditAccountId + posting.amount ∧
      ∀ account, account ≠ posting.debitAccountId → account ≠ posting.creditAccountId →
        (call uuid4 now client view posting).2.db.balance account = view.db.balance account := by
  obtain ⟨_,different,debit,credit,amount,_,_⟩ := call_ok accepted
  have apart : books.debit entry ≠ books.credit entry := by
    change entry.debitAccountId ≠ entry.creditAccountId
    rw [debit,credit]
    exact different
  refine ⟨?_,?_,fun account notDebit notCredit => ?_⟩
  · rw [call_balance accepted,← debit,sub_eq_add_neg,← amount]
    exact congrArg _ (books.effect_debit apart)
  · rw [call_balance accepted,← credit,← amount]
    exact congrArg _ (books.effect_credit apart)
  · rw [← debit] at notDebit
    rw [← credit] at notCredit
    rw [call_balance accepted,books.effect_other notDebit notCredit,add_zero]

theorem calls_last (first : List Posting) (posting : Posting) (view : View sql Database) :
    calls uuid4 now client (first ++ [posting]) view =
      (call uuid4 now client (calls uuid4 now client first view) posting).2 := by
  unfold calls
  rw [List.foldl_append]
  rfl

/-- The entries that a sequence of calls adds are those of accepted postings. -/
theorem calls_added (postings : List Posting) (view : View sql Database) :
    ∃ added, (calls uuid4 now client postings view).db .ledgerEntries = view.db .ledgerEntries ++ added ∧
      (calls uuid4 now client postings view).db .accounts = view.db .accounts ∧
      ∀ entry ∈ added, ∃ posting ∈ postings, entry.debitAccountId = posting.debitAccountId ∧
        entry.creditAccountId = posting.creditAccountId ∧ entry.currency = posting.currency := by
  induction postings generalizing view with
  | nil => exact ⟨[],(List.append_nil _).symm,rfl,by simp⟩
  | cons posting rest ih =>
    obtain ⟨added,entries,accounts,origin⟩ := ih (call uuid4 now client view posting).2
    have later : ∀ entry ∈ added, ∃ other ∈ posting::rest, entry.debitAccountId = other.debitAccountId ∧
        entry.creditAccountId = other.creditAccountId ∧ entry.currency = other.currency := by
      intro entry member
      obtain ⟨other,inside,same⟩ := origin entry member
      exact ⟨other,List.mem_cons_of_mem _ inside,same⟩
    change (calls uuid4 now client (posting::rest) view).db .ledgerEntries = _ at entries
    change (calls uuid4 now client (posting::rest) view).db .accounts = _ at accounts
    cases outcome : (call uuid4 now client view posting).1 with
    | error error =>
      rw [call_error outcome] at entries accounts
      exact ⟨added,entries,accounts,later⟩
    | ok entry =>
      obtain ⟨_,_,debit,credit,_,currency,after⟩ := call_ok outcome
      rw [after,Database.insert_self,List.append_assoc] at entries
      rw [after,Database.insert_other _ _ (by decide)] at accounts
      refine ⟨entry::added,entries,accounts,?_⟩
      intro other member
      rcases List.mem_cons.mp member with rfl | member
      · exact ⟨posting,List.mem_cons_self,debit,credit,currency⟩
      · exact later other member

def Denominated (db : Database) (currency : String) (debit credit : Uuid) : Prop :=
  debit ∈ db.accountsOf currency ∧ credit ∈ db.accountsOf currency

theorem Denominated.within {db : Database} (keyed : ((db .accounts).map Account.id).Nodup)
    {entry : LedgerEntry} {currency : String}
    (denominated : Denominated db currency entry.debitAccountId entry.creditAccountId) (other : String) :
    books.Within (db.accountsOf other) entry := by
  have sole {id : Uuid} (first : id ∈ db.accountsOf currency) (second : id ∈ db.accountsOf other) :
      currency = other := by
    obtain ⟨one,inside,rfl,rfl⟩ := Database.mem_accountsOf.mp first
    obtain ⟨two,member,same,rfl⟩ := Database.mem_accountsOf.mp second
    rw [List.inj_on_of_nodup_map keyed member inside same]
  constructor
  · intro inside
    rw [← sole denominated.1 inside]
    exact denominated.2
  · intro inside
    rw [← sole denominated.2 inside]
    exact denominated.1

theorem calls_currency {postings : List Posting} (keyed : ((view.db .accounts).map Account.id).Nodup)
    (rule : ∀ posting ∈ postings,
      Denominated view.db posting.currency posting.debitAccountId posting.creditAccountId) (currency : String) :
    ∑ account ∈ view.db.accountsOf currency, (calls uuid4 now client postings view).db.balance account =
      ∑ account ∈ view.db.accountsOf currency, view.db.balance account := by
  obtain ⟨added,entries,_,origin⟩ := @calls_added _ uuid4 now client postings view
  simp only [balance_books,entries]
  refine books.sum_balance_append _ added fun entry member => ?_
  obtain ⟨posting,inside,debit,credit,_⟩ := origin entry member
  have denominated := rule posting inside
  rw [← debit,← credit] at denominated
  exact denominated.within keyed currency

end Calls

/-- Conservation over every starting ledger and every sequence of calls. -/
theorem double_entry_conserved {Client : Type} (uuid4 : Client → Nat → Uuid) (now : Client → Timestamp)
    (client : Client) (view : View sql Database) (postings : List Posting) :
    (∀ first posting rest, postings = first ++ posting::rest →
      (∀ entry, (call uuid4 now client (calls uuid4 now client first view) posting).1 = .ok entry →
        (calls uuid4 now client (first ++ [posting]) view).db.balance posting.debitAccountId =
          (calls uuid4 now client first view).db.balance posting.debitAccountId - posting.amount ∧
        (calls uuid4 now client (first ++ [posting]) view).db.balance posting.creditAccountId =
          (calls uuid4 now client first view).db.balance posting.creditAccountId + posting.amount ∧
        ∀ account, account ≠ posting.debitAccountId → account ≠ posting.creditAccountId →
          (calls uuid4 now client (first ++ [posting]) view).db.balance account =
            (calls uuid4 now client first view).db.balance account) ∧
      (∀ error, (call uuid4 now client (calls uuid4 now client first view) posting).1 = .error error →
        (calls uuid4 now client (first ++ [posting]) view).db .ledgerEntries =
          (calls uuid4 now client first view).db .ledgerEntries)) ∧
    (∀ accounts : Finset Uuid, (∀ entry ∈ (calls uuid4 now client postings view).db .ledgerEntries,
        entry.debitAccountId ∈ accounts ∧ entry.creditAccountId ∈ accounts) →
      ∑ account ∈ accounts, (calls uuid4 now client postings view).db.balance account = 0) ∧
    (((view.db .accounts).map Account.id).Nodup →
      (∀ posting ∈ postings,
        Denominated view.db posting.currency posting.debitAccountId posting.creditAccountId) →
      ∀ currency,
        (∑ account ∈ view.db.accountsOf currency, (calls uuid4 now client postings view).db.balance account =
          ∑ account ∈ view.db.accountsOf currency, view.db.balance account) ∧
        ((∀ entry ∈ view.db .ledgerEntries,
            Denominated view.db entry.currency entry.debitAccountId entry.creditAccountId) →
          ∑ account ∈ view.db.accountsOf currency, (calls uuid4 now client postings view).db.balance account = 0)) := by
  refine ⟨fun first posting rest _ => ⟨fun entry accepted => ?_,fun error rejected => ?_⟩,?_,?_⟩
  · rw [calls_last]
    exact call_moves accepted
  · rw [calls_last,call_error rejected]
  · intro accounts named
    simp only [balance_books]
    refine books.sum_balance _ fun entry member => ?_
    exact iff_of_true (named entry member).1 (named entry member).2
  · intro keyed rule currency
    rw [calls_currency keyed rule]
    refine ⟨rfl,fun obeyed => ?_⟩
    simp only [balance_books]
    exact books.sum_balance _ fun entry member => (obeyed entry member).within keyed currency

/-- A ledger with an entry from a BRL to a BTC account: its BRL balances do not
sum to 0, although no call has broken the rule of the caller. -/
theorem cross_currency_unbalanced :
    let db := sample.insert .ledgerEntries ⟨32,21,22,5,"BRL","TRADE","",0⟩
    (∀ entry ∈ db .ledgerEntries, 0 < entry.amount ∧ entry.debitAccountId ≠ entry.creditAccountId) ∧
      (∀ posting ∈ ([] : List Posting),
        Denominated db posting.currency posting.debitAccountId posting.creditAccountId) ∧
      ∑ account ∈ db.accountsOf "BRL",
        (calls (fun _ _ => 0) (fun _ => 0) () [] ⟨db,[]⟩).db.balance account ≠ 0 := by
  refine ⟨by decide +kernel,by simp,by decide +kernel⟩

end CryptoBrokerage
