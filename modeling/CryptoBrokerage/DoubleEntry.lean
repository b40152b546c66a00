import Mathlib.Algebra.BigOperators.Group.Finset.Piecewise
import Mathlib.Algebra.Group.Submonoid.BigOperators
import Mathlib.Algebra.Group.Subgroup.Defs
import Mathlib.Algebra.Order.BigOperators.Group.List
import Mathlib.Algebra.Order.Group.Unbundled.Basic

/-! Double-entry books: entries that move an amount from a debit account to a
credit account, with balances derived from the whole history. Accounts may be of
any type and amounts of any commutative group. -/
namespace CryptoBrokerage

structure DoubleEntry (E A M : Type) where
  debit : E → A
  credit : E → A
  amount : E → M

namespace DoubleEntry
variable {E A M : Type} [DecidableEq A] [AddCommGroup M] (B : DoubleEntry E A M)

def credits (ledger : List E) (account : A) : M :=
  ((ledger.filter (fun entry => B.credit entry == account)).map B.amount).sum

def debits (ledger : List E) (account : A) : M :=
  ((ledger.filter (fun entry => B.debit entry == account)).map B.amount).sum

def balance (ledger : List E) (account : A) : M := B.credits ledger account - B.debits ledger account

def effect (entry : E) (account : A) : M :=
  (if B.credit entry = account then B.amount entry else 0) -
    (if B.debit entry = account then B.amount entry else 0)

theorem credits_append (first second : List E) (account : A) :
    B.credits (first ++ second) account = B.credits first account + B.credits second account := by
  simp only [credits,List.filter_append,List.map_append,List.sum_append]

theorem debits_append (first second : List E) (account : A) :
    B.debits (first ++ second) account = B.debits first account + B.debits second account := by
  simp only [debits,List.filter_append,List.map_append,List.sum_append]

theorem balance_append (first second : List E) (account : A) :
    B.balance (first ++ second) account = B.balance first account + B.balance second account := by
  unfold balance
  rw [credits_append,debits_append,add_sub_add_comm]

theorem balance_singleton (entry : E) (account : A) : B.balance [entry] account = B.effect entry account := by
  unfold balance credits debits effect
  congr 1
  · by_cases same : B.credit entry = account <;> simp [same]
  · by_cases same : B.debit entry = account <;> simp [same]

theorem effect_debit {entry : E} (different : B.debit entry ≠ B.credit entry) :
    B.effect entry (B.debit entry) = -B.amount entry := by
  simp [effect,Ne.symm different]

theorem effect_credit {entry : E} (different : B.debit entry ≠ B.credit entry) :
    B.effect entry (B.credit entry) = B.amount entry := by
  simp [effect,different]

theorem effect_other {entry : E} {account : A} (debit : account ≠ B.debit entry)
    (credit : account ≠ B.credit entry) : B.effect entry account = 0 := by
  simp [effect,Ne.symm debit,Ne.symm credit]

def Within (accounts : Finset A) (entry : E) : Prop := B.debit entry ∈ accounts ↔ B.credit entry ∈ accounts

theorem sum_effect {accounts : Finset A} {entry : E} (within : B.Within accounts entry) :
    ∑ account ∈ accounts, B.effect entry account = 0 := by
  unfold effect
  rw [Finset.sum_sub_distrib,Finset.sum_ite_eq,Finset.sum_ite_eq]
  by_cases inside : B.debit entry ∈ accounts
  · rw [if_pos inside,if_pos (within.mp inside),sub_self]
  · rw [if_neg inside,if_neg fun credit => inside (within.mpr credit),sub_self]

/-- Entries that do not cross the border of a set of accounts leave the sum of
its balances as it is. -/
theorem sum_balance_append {accounts : Finset A} (ledger more : List E)
    (within : ∀ entry ∈ more, B.Within accounts entry) :
    ∑ account ∈ accounts, B.balance (ledger ++ more) account = ∑ account ∈ accounts, B.balance ledger account := by
  have nothing : ∑ account ∈ accounts, B.balance more account = 0 := by
    induction more with
    | nil => simp [balance,credits,debits]
    | cons entry rest ih =>
      have split (account : A) :
          B.balance (entry::rest) account = B.effect entry account + B.balance rest account := by
        rw [← balance_singleton,← balance_append]
        rfl
      simp only [split]
      rw [Finset.sum_add_distrib,B.sum_effect (within entry List.mem_cons_self),
        ih fun other member => within other (List.mem_cons_of_mem _ member),add_zero]
  simp only [balance_append]
  rw [Finset.sum_add_distrib,nothing,add_zero]

theorem sum_balance {accounts : Finset A} (ledger : List E)
    (within : ∀ entry ∈ ledger, B.Within accounts entry) :
    ∑ account ∈ accounts, B.balance ledger account = 0 := by
  have sum := B.sum_balance_append [] ledger within
  rw [List.nil_append] at sum
  rw [sum]
  simp [balance,credits,debits]

section Order
variable [PartialOrder M]

theorem effect_nonneg (entry : E) {account : A} (positive : 0 ≤ B.amount entry) (other : B.debit entry ≠ account) :
    0 ≤ B.effect entry account := by
  unfold effect
  rw [if_neg other,sub_zero]
  split
  · exact positive
  · exact le_refl 0

variable [IsOrderedAddMonoid M]

theorem credits_nonneg {ledger : List E} (positive : ∀ entry ∈ ledger, 0 ≤ B.amount entry) (account : A) :
    0 ≤ B.credits ledger account := by
  refine List.sum_nonneg fun amount member => ?_
  obtain ⟨entry,inside,rfl⟩ := List.mem_map.mp member
  exact positive entry (List.mem_filter.mp inside).1

omit [DecidableEq A] in
theorem sum_pos {ledger : List E} (positive : ∀ entry ∈ ledger, 0 ≤ B.amount entry) {kept : E → Bool} {entry : E}
    (member : entry ∈ ledger) (chosen : kept entry = true) (more : 0 < B.amount entry) :
    0 < ((ledger.filter kept).map B.amount).sum := by
  have inside : B.amount entry ∈ (ledger.filter kept).map B.amount :=
    List.mem_map_of_mem (List.mem_filter.mpr ⟨member,chosen⟩)
  refine more.trans_le (List.single_le_sum (fun amount among => ?_) _ inside)
  obtain ⟨other,within,rfl⟩ := List.mem_map.mp among
  exact positive other (List.mem_filter.mp within).1

omit [DecidableEq A] [IsOrderedAddMonoid M] in
theorem sum_zero {ledger : List E} (positive : ∀ entry ∈ ledger, 0 ≤ B.amount entry) {kept : E → Bool}
    (none : ∀ entry ∈ ledger, kept entry = true → ¬0 < B.amount entry) :
    ((ledger.filter kept).map B.amount).sum = 0 := by
  refine List.sum_eq_zero fun amount among => ?_
  obtain ⟨entry,within,rfl⟩ := List.mem_map.mp among
  obtain ⟨member,chosen⟩ := List.mem_filter.mp within
  exact (eq_of_le_of_not_lt (positive entry member) (none entry member chosen)).symm

theorem neg_amount_le_effect (entry : E) (account : A) (positive : 0 ≤ B.amount entry) :
    -B.amount entry ≤ B.effect entry account := by
  unfold effect
  rw [sub_eq_add_neg]
  refine le_trans (le_of_eq (zero_add _).symm) (add_le_add ?_ (neg_le_neg_iff.mpr ?_))
  · split
    · exact positive
    · exact le_refl 0
  · split
    · exact le_refl _
    · exact positive

end Order

theorem debits_of_forall_ne {ledger : List E} {account : A} (absent : ∀ entry ∈ ledger, B.debit entry ≠ account) :
    B.debits ledger account = 0 := by
  unfold debits
  rw [List.filter_eq_nil_iff.mpr fun entry member => by simpa using absent entry member]
  rfl

theorem credits_mem {grid : AddSubgroup M} {ledger : List E} (stored : ∀ entry ∈ ledger, B.amount entry ∈ grid)
    (account : A) : B.credits ledger account ∈ grid := by
  refine list_sum_mem fun amount member => ?_
  obtain ⟨entry,inside,rfl⟩ := List.mem_map.mp member
  exact stored entry (List.mem_filter.mp inside).1

theorem debits_mem {grid : AddSubgroup M} {ledger : List E} (stored : ∀ entry ∈ ledger, B.amount entry ∈ grid)
    (account : A) : B.debits ledger account ∈ grid := by
  refine list_sum_mem fun amount member => ?_
  obtain ⟨entry,inside,rfl⟩ := List.mem_map.mp member
  exact stored entry (List.mem_filter.mp inside).1

end DoubleEntry

end CryptoBrokerage
