import Mathlib.Algebra.BigOperators.Group.List.Basic
import Mathlib.Algebra.Order.BigOperators.Group.List
import Mathlib.Algebra.Order.Field.Basic
import Mathlib.Data.List.Induction
import Mathlib.Tactic.Linarith

/-! Holdings that are carried at their weighted-average cost, and what a sequence
of buys and sells makes of one. -/
namespace CryptoBrokerage.AverageCost

/-- A buy has a positive quantity, a sell a negative one. -/
structure Trade (F : Type) where
  quantity : F
  price : F
  deriving DecidableEq

@[ext] structure Inventory (F : Type) where
  quantity : F
  average : F
  deriving DecidableEq

variable {F : Type} [Field F]

def total (trades : List (Trade F)) : F := (trades.map Trade.quantity).sum

def cost (trades : List (Trade F)) : F := (trades.map fun trade => trade.quantity * trade.price).sum

@[simp] theorem total_nil : total ([] : List (Trade F)) = 0 := rfl

@[simp] theorem total_cons (trade : Trade F) (trades : List (Trade F)) :
    total (trade::trades) = trade.quantity + total trades := by simp [total]

@[simp] theorem total_append (first second : List (Trade F)) : total (first ++ second) = total first + total second := by
  simp [total]

@[simp] theorem cost_nil : cost ([] : List (Trade F)) = 0 := rfl

@[simp] theorem cost_cons (trade : Trade F) (trades : List (Trade F)) :
    cost (trade::trades) = trade.quantity * trade.price + cost trades := by simp [cost]

section Signs
variable [LinearOrder F] [IsStrictOrderedRing F] {trades : List (Trade F)}

theorem total_pos (some : trades ≠ []) (buys : ∀ trade ∈ trades, 0 < trade.quantity) : 0 < total trades := by
  apply List.sum_pos
  · simpa [total] using buys
  · simpa using some

theorem total_nonpos (sells : ∀ trade ∈ trades, trade.quantity ≤ 0) : total trades ≤ 0 := by
  induction trades with
  | nil => simp
  | cons first rest ih =>
    have sold := sells first (by simp)
    have later := ih fun trade member => sells trade (List.mem_cons_of_mem _ member)
    rw [total_cons]
    linarith

end Signs

namespace Inventory

def cost (holding : Inventory F) : F := holding.quantity * holding.average

variable [LinearOrder F]

/-- A buy mixes its price into the average, and fails if it would leave a
quantity of zero; a sell keeps the average. -/
def trade (holding : Inventory F) (trade : Trade F) : Option (Inventory F) :=
  if 0 < trade.quantity then
    if holding.quantity + trade.quantity = 0 then none
    else some ⟨holding.quantity + trade.quantity,
      (holding.cost + trade.quantity * trade.price) / (holding.quantity + trade.quantity)⟩
  else some ⟨holding.quantity + trade.quantity,holding.average⟩

def tradeAll (holding : Inventory F) (trades : List (Trade F)) : Option (Inventory F) := trades.foldlM trade holding

@[simp] theorem tradeAll_nil (holding : Inventory F) : holding.tradeAll [] = some holding := rfl

@[simp] theorem tradeAll_cons (holding : Inventory F) (trade : Trade F) (trades : List (Trade F)) :
    holding.tradeAll (trade::trades) = (holding.trade trade).bind fun next => next.tradeAll trades := rfl

theorem tradeAll_concat (holding : Inventory F) (trades : List (Trade F)) (trade : Trade F) :
    holding.tradeAll (trades ++ [trade]) = (holding.tradeAll trades).bind fun next => next.trade trade := by
  unfold tradeAll
  rw [List.foldlM_append]
  simp

variable {holding after : Inventory F} {item : Trade F}

theorem trade_sell (sells : ¬0 < item.quantity) :
    holding.trade item = some ⟨holding.quantity + item.quantity,holding.average⟩ := if_neg sells

theorem trade_flat (buys : 0 < item.quantity) (flat : holding.quantity + item.quantity = 0) :
    holding.trade item = none := by
  rw [trade,if_pos buys,if_pos flat]

theorem trade_buy (buys : 0 < item.quantity) (moved : holding.quantity + item.quantity ≠ 0) :
    holding.trade item = some ⟨holding.quantity + item.quantity,
      (holding.cost + item.quantity * item.price) / (holding.quantity + item.quantity)⟩ := by
  rw [trade,if_pos buys,if_neg moved]

theorem trade_none_iff : holding.trade item = none ↔ 0 < item.quantity ∧ holding.quantity + item.quantity = 0 := by
  constructor
  · intro failed
    by_cases buys : 0 < item.quantity
    · by_cases flat : holding.quantity + item.quantity = 0
      · exact ⟨buys,flat⟩
      · simp [trade_buy buys flat] at failed
    · simp [trade_sell buys] at failed
  · intro flat
    exact trade_flat flat.1 flat.2

theorem trade_quantity (traded : holding.trade item = some after) :
    after.quantity = holding.quantity + item.quantity := by
  by_cases buys : 0 < item.quantity
  · by_cases flat : holding.quantity + item.quantity = 0
    · simp [trade_flat buys flat] at traded
    · rw [trade_buy buys flat] at traded
      cases traded
      rfl
  · rw [trade_sell buys] at traded
    cases traded
    rfl

theorem trade_cost (buys : 0 < item.quantity) (traded : holding.trade item = some after) :
    after.cost = holding.cost + item.quantity * item.price := by
  by_cases flat : holding.quantity + item.quantity = 0
  · simp [trade_flat buys flat] at traded
  · rw [trade_buy buys flat] at traded
    cases traded
    exact mul_div_cancel₀ _ flat

theorem trade_average (sells : ¬0 < item.quantity) (traded : holding.trade item = some after) :
    after.average = holding.average := by
  rw [trade_sell sells] at traded
  cases traded
  rfl

variable [IsStrictOrderedRing F]

theorem trade_long (long : 0 ≤ holding.quantity) : ∃ after, holding.trade item = some after := by
  apply Option.ne_none_iff_exists'.mp
  intro failed
  obtain ⟨buys,flat⟩ := trade_none_iff.mp failed
  linarith

/-- What buys make of a long holding depends only on how much they buy and pay. -/
theorem tradeAll_bought {trades : List (Trade F)} (some : trades ≠ []) (long : 0 ≤ holding.quantity)
    (buys : ∀ trade ∈ trades, 0 < trade.quantity) :
    holding.tradeAll trades = Option.some ⟨holding.quantity + total trades,
      (holding.cost + AverageCost.cost trades) / (holding.quantity + total trades)⟩ := by
  induction trades generalizing holding with
  | nil => exact absurd rfl some
  | cons first rest ih =>
    have bought : 0 < first.quantity := buys first (by simp)
    obtain ⟨next,traded⟩ := @trade_long _ _ _ holding first _ long
    have quantity := trade_quantity traded
    have paid := trade_cost bought traded
    rw [tradeAll_cons,traded,Option.bind_some]
    by_cases last : rest = []
    · subst last
      have positive : 0 < next.quantity := by linarith
      have average : next.average = next.cost / next.quantity := (mul_div_cancel_left₀ _ positive.ne').symm
      simp only [tradeAll_nil,total_cons,total_nil,cost_cons,cost_nil,add_zero,← quantity,← paid,← average]
    · rw [ih last (by linarith) fun trade member => buys trade (List.mem_cons_of_mem _ member),paid,quantity]
      simp only [total_cons,cost_cons,add_assoc]

/-- What is added to a long holding adds its cost. -/
theorem tradeAll_added {trades : List (Trade F)} (long : 0 ≤ holding.quantity)
    (adds : ∀ trade ∈ trades, 0 ≤ trade.quantity) :
    ∃ after, holding.tradeAll trades = some after ∧ after.cost = holding.cost + AverageCost.cost trades := by
  induction trades generalizing holding with
  | nil => exact ⟨holding,rfl,by simp⟩
  | cons first rest ih =>
    have added : 0 ≤ first.quantity := adds first (by simp)
    obtain ⟨next,traded⟩ := @trade_long _ _ _ holding first _ long
    have quantity := trade_quantity traded
    have paid : next.cost = holding.cost + first.quantity * first.price := by
      rcases added.eq_or_lt with nothing | bought
      · rw [trade_sell nothing.not_lt] at traded
        cases traded
        simp [cost,← nothing]
      · exact trade_cost bought traded
    obtain ⟨after,others,kept⟩ := ih (by linarith) fun trade member => adds trade (List.mem_cons_of_mem _ member)
    refine ⟨after,?_,?_⟩
    · rw [tradeAll_cons,traded,Option.bind_some,others]
    · rw [kept,paid,cost_cons,add_assoc]

/-- Any buys of a long holding are one buy at their average price. -/
theorem tradeAll_buys {trades : List (Trade F)} (some : trades ≠ []) (long : 0 ≤ holding.quantity)
    (buys : ∀ trade ∈ trades, 0 < trade.quantity) :
    holding.tradeAll trades = holding.trade ⟨total trades,AverageCost.cost trades / total trades⟩ := by
  have positive := total_pos some buys
  have moved : holding.quantity + total trades ≠ 0 := by linarith
  rw [tradeAll_bought some long buys,@trade_buy _ _ _ _ ⟨total trades,_⟩ positive moved,mul_div_cancel₀ _ positive.ne']

/-- Any sells are one sell, at whatever price. -/
theorem tradeAll_sells {trades : List (Trade F)} (sells : ∀ trade ∈ trades, trade.quantity ≤ 0) (price : F) :
    holding.tradeAll trades = holding.trade ⟨total trades,price⟩ := by
  have sold : total trades ≤ 0 := total_nonpos sells
  rw [@trade_sell _ _ _ _ ⟨total trades,price⟩ sold.not_gt]
  induction trades generalizing holding with
  | nil => simp
  | cons first rest ih =>
    have later : ∀ trade ∈ rest, trade.quantity ≤ 0 := fun trade member => sells trade (List.mem_cons_of_mem _ member)
    rw [tradeAll_cons,trade_sell (sells first (by simp)).not_gt,Option.bind_some,ih later (total_nonpos later)]
    simp only [total_cons,add_assoc]

end Inventory

section Histories
variable [LinearOrder F] {trades : List (Trade F)}

def Within (trades : List (Trade F)) (price : F) : Prop :=
  ∃ low ∈ trades, ∃ high ∈ trades, (0 < low.quantity ∧ low.price ≤ price) ∧ 0 < high.quantity ∧ price ≤ high.price

theorem Within.mono {more : List (Trade F)} {price : F} (within : Within trades price) (inside : trades ⊆ more) :
    Within more price := by
  obtain ⟨low,first,high,second,bounds⟩ := within
  exact ⟨low,inside first,high,inside second,bounds⟩

/-- An average that is carried in fewer digits stays within buys whose prices it does not cross. -/
theorem Within.carried {price kept : F} (within : Within trades price)
    (above : ∀ trade ∈ trades, 0 < trade.quantity → trade.price ≤ price → trade.price ≤ kept)
    (below : ∀ trade ∈ trades, 0 < trade.quantity → price ≤ trade.price → kept ≤ trade.price) : Within trades kept := by
  obtain ⟨low,first,high,second,lower,upper⟩ := within
  exact ⟨low,first,high,second,⟨lower.1,above low first lower.1 lower.2⟩,upper.1,below high second upper.1 upper.2⟩

def Covered (trades : List (Trade F)) : Prop :=
  ∀ early trade late, trades = early ++ trade::late → 0 ≤ total early + trade.quantity

def Careful (trades : List (Trade F)) : Prop :=
  ∀ early trade late, trades = early ++ trade::late → 0 < trade.quantity →
    0 ≤ total early ∨ total early + trade.quantity < 0

variable {item : Trade F}

theorem Covered.concat (covered : Covered (trades ++ [item])) : Covered trades ∧ 0 ≤ total trades + item.quantity := by
  constructor
  · intro early trade late split
    exact covered early trade (late ++ [item]) (by rw [split]; simp)
  · exact covered trades item [] rfl

theorem Careful.concat (careful : Careful (trades ++ [item])) :
    Careful trades ∧ (0 < item.quantity → 0 ≤ total trades ∨ total trades + item.quantity < 0) := by
  constructor
  · intro early trade late split
    exact careful early trade (late ++ [item]) (by rw [split]; simp)
  · exact careful trades item [] rfl

variable {holding after : Inventory F}

/-- The first buy of a flat holding sets its average. -/
theorem average_flat (flat : holding.quantity = 0) (buys : 0 < item.quantity)
    (traded : holding.trade item = some after) : after.average = item.price := by
  have paid := Inventory.trade_cost buys traded
  have quantity := Inventory.trade_quantity traded
  rw [Inventory.cost,Inventory.cost,flat,zero_mul,zero_add] at paid
  rw [flat,zero_add] at quantity
  rw [quantity] at paid
  exact mul_left_cancel₀ buys.ne' paid

variable [IsStrictOrderedRing F]

/-- A buy of a long holding keeps the average above what both it and the price are above. -/
theorem above_average {bound : F} (long : 0 ≤ holding.quantity) (buys : 0 < item.quantity)
    (traded : holding.trade item = some after) (average : bound ≤ holding.average) (price : bound ≤ item.price) :
    bound ≤ after.average := by
  have paid := Inventory.trade_cost buys traded
  have quantity := Inventory.trade_quantity traded
  have positive : 0 < after.quantity := by linarith
  apply le_of_mul_le_mul_left _ positive
  calc after.quantity * bound = holding.quantity * bound + item.quantity * bound := by rw [quantity,add_mul]
    _ ≤ holding.cost + item.quantity * item.price :=
      add_le_add (mul_le_mul_of_nonneg_left average long) (mul_le_mul_of_nonneg_left price buys.le)
    _ = after.quantity * after.average := paid.symm

theorem below_average {bound : F} (long : 0 ≤ holding.quantity) (buys : 0 < item.quantity)
    (traded : holding.trade item = some after) (average : holding.average ≤ bound) (price : item.price ≤ bound) :
    after.average ≤ bound := by
  have paid := Inventory.trade_cost buys traded
  have quantity := Inventory.trade_quantity traded
  have positive : 0 < after.quantity := by linarith
  apply le_of_mul_le_mul_left _ positive
  calc after.quantity * after.average = holding.cost + item.quantity * item.price := paid
    _ ≤ holding.quantity * bound + item.quantity * bound :=
      add_le_add (mul_le_mul_of_nonneg_left average long) (mul_le_mul_of_nonneg_left price buys.le)
    _ = after.quantity * bound := by rw [quantity,add_mul]

/-- A buy of a long holding leaves its average within the buys, itself included. -/
theorem Within.buy (within : 0 < holding.quantity → Within trades holding.average) (long : 0 ≤ holding.quantity)
    (buys : 0 < item.quantity) (traded : holding.trade item = some after) :
    Within (trades ++ [item]) after.average := by
  rcases long.eq_or_lt with flat | positive
  · have same := average_flat flat.symm buys traded
    exact ⟨item,by simp,item,by simp,⟨buys,same.ge⟩,buys,same.le⟩
  · obtain ⟨low,first,high,second,lower,upper⟩ := within positive
    have floor : ∃ trade ∈ trades ++ [item], 0 < trade.quantity ∧ trade.price ≤ after.average := by
      rcases le_total low.price item.price with above | below
      · exact ⟨low,by simp [first],lower.1,above_average long buys traded lower.2 above⟩
      · exact ⟨item,by simp,buys,above_average long buys traded (below.trans lower.2) le_rfl⟩
    have ceiling : ∃ trade ∈ trades ++ [item], 0 < trade.quantity ∧ after.average ≤ trade.price := by
      rcases le_total item.price high.price with below | above
      · exact ⟨high,by simp [second],upper.1,below_average long buys traded upper.2 below⟩
      · exact ⟨item,by simp,buys,below_average long buys traded (upper.2.trans above) le_rfl⟩
    obtain ⟨cheapest,inside,bound⟩ := floor
    obtain ⟨dearest,member,limit⟩ := ceiling
    exact ⟨cheapest,inside,dearest,member,bound,limit⟩

/-- A flat holding whose sells are covered can be traded all along. It stays long,
and its average stays within the buys since it was last flat. -/
theorem covered_history (flat : holding.quantity = 0) (covered : Covered trades) :
    ∃ after, holding.tradeAll trades = some after ∧ after.quantity = total trades ∧ 0 ≤ total trades ∧
      ∀ early late, trades = early ++ late → total early = 0 → 0 < total trades → Within late after.average := by
  induction trades using List.reverseRecOn with
  | nil => exact ⟨holding,rfl,flat,le_rfl,fun _ _ _ _ positive => absurd positive (lt_irrefl _)⟩
  | append_singleton trades item ih =>
    obtain ⟨earlier,room⟩ := covered.concat
    obtain ⟨next,before,quantity,long,within⟩ := ih earlier
    rw [← quantity] at long
    obtain ⟨after,traded⟩ := @Inventory.trade_long _ _ _ next item _ long
    have moved := Inventory.trade_quantity traded
    refine ⟨after,by rw [Inventory.tradeAll_concat,before]; exact traded,?_,?_,?_⟩
    · simp [moved,quantity]
    · simpa using room
    · intro early late split zero positive
      rcases List.eq_nil_or_concat late with none | ⟨rest,last,same⟩
      · rw [none,List.append_nil] at split
        rw [split,zero] at positive
        exact absurd positive (lt_irrefl _)
      · rw [same,List.concat_eq_append,← List.append_assoc] at split
        obtain ⟨front,back⟩ := List.append_inj' split rfl
        obtain rfl : item = last := List.singleton_injective back
        rw [same,List.concat_eq_append]
        by_cases buys : 0 < item.quantity
        · exact Within.buy (fun held => within early rest front zero (quantity ▸ held)) long buys traded
        · rw [Inventory.trade_average buys traded]
          have held : 0 < total trades := by
            simp only [total_append,total_cons,total_nil,add_zero] at positive
            linarith
          exact (within early rest front zero held).mono (List.subset_append_left _ _)

/-- Where buys are careful the next trade is defined, and as long as the holding is
not short its average stays within the buys. -/
theorem careful_step (careful : Careful (trades ++ [item])) (quantity : holding.quantity = total trades)
    (within : 0 < total trades → Within trades holding.average) :
    ∃ after, holding.trade item = some after ∧ after.quantity = total (trades ++ [item]) ∧
      (0 < total (trades ++ [item]) → Within (trades ++ [item]) after.average) := by
  obtain ⟨_,room⟩ := careful.concat
  have defined : holding.trade item ≠ none := by
    intro failed
    obtain ⟨buys,zero⟩ := Inventory.trade_none_iff.mp failed
    rcases room buys with long | short <;> linarith
  obtain ⟨after,traded⟩ := Option.ne_none_iff_exists'.mp defined
  have moved := Inventory.trade_quantity traded
  refine ⟨after,traded,by simp [moved,quantity],?_⟩
  intro positive
  simp only [total_append,total_cons,total_nil,add_zero] at positive
  by_cases buys : 0 < item.quantity
  · have long : 0 ≤ holding.quantity := by
      rcases room buys with long | short <;> linarith
    exact Within.buy (fun held => within (quantity ▸ held)) long buys traded
  · rw [Inventory.trade_average buys traded]
    exact (within (by linarith)).mono (List.subset_append_left _ _)

end Histories

end CryptoBrokerage.AverageCost
