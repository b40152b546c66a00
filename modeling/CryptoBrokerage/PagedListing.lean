import CryptoBrokerage.AppendOnly
import CryptoBrokerage.Paging

/-! The queries of the repositories that return a page. The server answers each
from a listing of its own, which need only be consistent with the ORDER BY. -/
namespace CryptoBrokerage
open Paging (Listed PagesOnce Separated)

/-- The answers to a `SELECT` of the rows, those with the greatest keys first, with
`LIMIT` and `OFFSET`. -/
def Selects {Row Key : Type} [LinearOrder Key] (key : Row → Key) (rows : List Row) (limit offset : Int)
    (answer : Except Exception (List Row)) : Prop :=
  if limit < 0 then answer = .error (.data "LIMIT must not be negative")
  else if offset < 0 then answer = .error (.data "OFFSET must not be negative")
  else ∃ listing, Listed key rows listing ∧ answer = .ok (Paging.page listing limit.toNat offset.toNat)

/-- The answers to the query at the offsets 0, `limit`, `2 * limit` and so on have
every row once. -/
def TilesOnce {Row : Type} (query : Int → Int → Except Exception (List Row) → Prop) (rows : List Row) (limit : ℕ) :
    Prop :=
  ∀ pages : ℕ → List Row, (∀ place : ℕ, query limit (place * limit : ℕ) (.ok (pages place))) →
    ∀ count, rows.length ≤ count * limit → ((List.range count).flatMap pages).Perm rows

namespace OrderRepository
variable (db : Database) (userId : Uuid) (status : Option OrderStatus)

def matching : List Order := (db .orders).filter fun order => order.userId == userId && status.all (order.status == ·)

def GetByUser : Int → Int → Except Exception (List Order) → Prop :=
  Selects Order.createdAt (matching db userId status)

end OrderRepository

namespace TransactionRepository
variable (db : Database) (userId : Uuid) (status : Option TransactionStatus)

def matching : List CryptoBrokerage.Transaction :=
  (db .transactions).filter fun transaction => transaction.userId == userId && status.all (transaction.status == ·)

def GetByUser : Int → Int → Except Exception (List CryptoBrokerage.Transaction) → Prop :=
  Selects CryptoBrokerage.Transaction.createdAt (matching db userId status)

end TransactionRepository

namespace LedgerRepository
variable (db : Database) (accountId : Uuid)

def matching : List LedgerEntry :=
  (db .ledgerEntries).filter fun entry => entry.debitAccountId == accountId || entry.creditAccountId == accountId

def GetEntriesForAccount : Int → Int → Except Exception (List LedgerEntry) → Prop :=
  Selects LedgerEntry.createdAt (matching db accountId)

def GetAll : Int → Int → Except Exception (List LedgerEntry) → Prop :=
  Selects (fun entry => OrderDual.toDual entry.id.toNat) (db .ledgerEntries)

end LedgerRepository

section Query
variable {Row Key : Type} [LinearOrder Key] {key : Row → Key} {rows : List Row}

/-- The pages of a query are those of listings. -/
theorem selects_page {limit offset : ℕ} {page : List Row} : Selects key rows limit offset (.ok page) ↔
    ∃ listing, Listed key rows listing ∧ page = Paging.page listing limit offset := by
  unfold Selects
  rw [if_neg (by omega),if_neg (by omega)]
  simp

theorem tilesOnce_selects {limit : ℕ} : TilesOnce (Selects key rows) rows limit ↔ PagesOnce key rows limit := by
  unfold TilesOnce PagesOnce
  simp only [selects_page]
  constructor
  · exact fun tiles listings listed count enough => tiles _ (fun place => ⟨_,listed place,rfl⟩) count enough
  · intro once pages selected count enough
    choose listings listed cut using selected
    rw [funext cut]
    exact once listings listed count enough

theorem tilesOnce_iff (distinct : rows.Nodup) (limit : ℕ) :
    TilesOnce (Selects key rows) rows limit ↔ Separated key rows limit :=
  tilesOnce_selects.trans (Paging.pagesOnce_iff distinct limit)

/-- The answer that the model's server gives is one of them. -/
theorem selects_mergeSort (key : Row → Key) (rows : List Row) (limit offset : Int) :
    Selects key rows limit offset
      (if limit < 0 then .error (.data "LIMIT must not be negative")
      else if offset < 0 then .error (.data "OFFSET must not be negative")
      else .ok (((rows.mergeSort fun first second => decide (key second ≤ key first)).drop offset.toNat).take
        limit.toNat)) := by
  unfold Selects
  split
  · rfl
  · split
    · rfl
    · exact ⟨_,Paging.listed_mergeSort key rows,rfl⟩

end Query

theorem Database.Keyed.distinct {db : Database} (keyed : db.Keyed) (t : Table) (chosen : t.Row → Bool) :
    ((db t).filter chosen).Nodup :=
  (keyed t).of_map.filter chosen

/-- What the server of the model answers is one of the answers. -/
theorem selectOrders_selects {Client : Type} (server : Server Client) (client : Client) (turn : ℕ) (db : Database)
    (userId : Uuid) (status : Option OrderStatus) (limit offset : Int) :
    OrderRepository.GetByUser db userId status limit offset
      ((server.exec client turn (.selectOrders userId status limit offset) db).map Prod.fst) := by
  have answer := selects_mergeSort Order.createdAt (OrderRepository.matching db userId status) limit offset
  rw [OrderRepository.GetByUser]
  convert answer using 1
  rw [Server.exec]
  split_ifs <;> rfl

theorem getEntriesForAccount_selects {Client : Type} (server : Server Client) (client : Client) (db : Database)
    (accountId : Uuid) (limit offset : Int) :
    LedgerRepository.GetEntriesForAccount db accountId limit offset
      (((LedgerCall.getEntriesForAccount accountId limit offset).perform server client db).map Prod.fst) := by
  have answer := selects_mergeSort LedgerEntry.createdAt (LedgerRepository.matching db accountId) limit offset
  rw [LedgerRepository.GetEntriesForAccount]
  convert answer using 1
  rw [LedgerCall.perform,page]
  split_ifs <;> rfl

/-- The pages of `get_all`, which are ordered by primary key, tile the table. -/
theorem getAll_tiles {db : Database} (keyed : db.Keyed) (limit : ℕ) :
    TilesOnce (LedgerRepository.GetAll db) (db .ledgerEntries) limit := by
  refine (tilesOnce_iff (keyed .ledgerEntries).of_map limit).mpr (Paging.separated_distinct ?_ limit)
  have ids : ((db .ledgerEntries).map LedgerEntry.id).Nodup := keyed .ledgerEntries
  have numbers := ids.map (f := fun id => OrderDual.toDual id.toNat) fun first second same =>
    BitVec.eq_of_toNat_eq (OrderDual.toDual_inj.mp same)
  rwa [List.map_map] at numbers

/-- Pages of orders, transactions and entries tile what they are pages of exactly
if no page ends between rows that were created at the same time. -/
theorem pages_tile_iff {db : Database} (keyed : db.Keyed) (limit : ℕ) :
    (∀ userId status, TilesOnce (OrderRepository.GetByUser db userId status)
        (OrderRepository.matching db userId status) limit ↔
      Separated Order.createdAt (OrderRepository.matching db userId status) limit) ∧
    (∀ userId status, TilesOnce (TransactionRepository.GetByUser db userId status)
        (TransactionRepository.matching db userId status) limit ↔
      Separated CryptoBrokerage.Transaction.createdAt (TransactionRepository.matching db userId status) limit) ∧
    ∀ accountId, TilesOnce (LedgerRepository.GetEntriesForAccount db accountId)
        (LedgerRepository.matching db accountId) limit ↔
      Separated LedgerEntry.createdAt (LedgerRepository.matching db accountId) limit :=
  ⟨fun _ _ => tilesOnce_iff (keyed.distinct .orders _) limit,
    fun _ _ => tilesOnce_iff (keyed.distinct .transactions _) limit,
    fun _ => tilesOnce_iff (keyed.distinct .ledgerEntries _) limit⟩

/-- A single entry is on one page. -/
theorem pages_tile_single : TilesOnce (LedgerRepository.GetEntriesForAccount sample 21)
    (LedgerRepository.matching sample 21) 1 :=
  ((pages_tile_iff sample_keyed 1).2.2 21).mpr (Paging.separated_distinct (by decide +kernel) 1)

def twoEntries : Database :=
  (sampleServer.engine.transact oneClient (do
    let _ ← LedgerRepository.createDoubleEntry ⟨21,24,100,"BRL","TRADE","7"⟩
    LedgerRepository.createDoubleEntry ⟨21,24,200,"BRL","TRADE","7"⟩) sample).after

/-- Pages of one entry each that are cut from different listings. -/
theorem pages_overlap : (LedgerRepository.matching twoEntries 21).Nodup ∧
    ¬TilesOnce (LedgerRepository.GetEntriesForAccount twoEntries 21) (LedgerRepository.matching twoEntries 21) 1 := by
  have distinct : (LedgerRepository.matching twoEntries 21).Nodup := by decide +kernel
  refine ⟨distinct,?_⟩
  rw [LedgerRepository.GetEntriesForAccount,tilesOnce_iff distinct]
  intro separated
  have ends := separated ⟨31,24,21,1000,"BRL","DEPOSIT","",0⟩ (by decide +kernel) 1 (by decide +kernel)
  exact absurd ends (by decide +kernel)

end CryptoBrokerage
