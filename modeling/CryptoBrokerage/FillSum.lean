import CryptoBrokerage.Settlement
import Mathlib.Algebra.Group.Submonoid.BigOperators

/-! The filled amount of an order as `apply_fill` adds it up: the addition rounds
to the context of decimal arithmetic, the column to its grid. -/
namespace CryptoBrokerage
open Transaction (Program Engine View Receipt)
open DecimalContext (Fits rounded)

def Storable (value : ℚ) : Prop := numeric36 value = .ok value

instance (value : ℚ) : Decidable (Storable value) := inferInstanceAs (Decidable (numeric36 value = .ok value))

def applyFills [DecimalContext] (order : Order) (amounts : List ℚ) : Action Order :=
  amounts.foldlM OrderRepository.applyFill order

section Filled
variable (order : Order) (amounts : List ℚ)

theorem foldl_fill_id : (amounts.foldl Order.fill order).id = order.id := by
  induction amounts generalizing order with
  | nil => rfl
  | cons amount rest ih => exact ih (order.fill amount)

theorem foldl_fill_filled : (amounts.foldl Order.fill order).filledAmount = order.filledAmount + amounts.sum := by
  induction amounts generalizing order with
  | nil => simp
  | cons amount rest ih =>
    rw [List.foldl_cons,ih,List.sum_cons,← add_assoc]
    rfl

end Filled

theorem foldl_fill_status {order : Order} {amounts : List ℚ} (some : amounts ≠ []) :
    (amounts.foldl Order.fill order).status =
      if order.amount ≤ order.filledAmount + amounts.sum then .filled else .partiallyFilled := by
  induction amounts generalizing order with
  | nil => exact absurd rfl some
  | cons amount rest ih =>
    rw [List.foldl_cons,List.sum_cons,← add_assoc]
    by_cases last : rest = []
    · subst last
      simp [Order.fill]
    · exact ih last

theorem grid36_rounded {value : ℚ} (member : value ∈ grid36) : rounded value ∈ grid36 := by
  rw [rounded_grid36 member]
  obtain ⟨units,same⟩ := mem_grid36.mp member
  have multiple : value = units * ((10 : ℕ) : ℚ) ^ (-18 : ℤ) := by
    rw [same]
    norm_num [div_eq_mul_inv]
  obtain ⟨kept,rounded⟩ := @DecimalContext.round_multiple ℚ _ _ _ _ 10 28 _ (by decide) _ _ multiple
  rw [mem_grid36]
  refine ⟨kept,rounded.trans ?_⟩
  norm_num [div_eq_mul_inv]

section Runs
variable {Client : Type} {server : Server Client} {client : Client} {view last : View sql Database} {order : Order}
  (columns : server.numeric = numeric36)
include columns

/-- A fill whose sum the context and the column keep is added exactly. -/
theorem run_applyFill_kept [DecimalContext] {amount : ℚ} (keyed : view.db.Keyed) (placed : order ∈ view.db .orders)
    (exact : rounded (order.filledAmount + amount) = order.filledAmount + amount)
    (storable : Storable (order.filledAmount + amount)) :
    ∃ issued, server.engine.run client (OrderRepository.applyFill order amount) view =
      (.ok (order.fill amount),⟨view.db.replace .orders (order.fill amount),issued⟩) := by
  unfold OrderRepository.applyFill
  rw [exact]
  apply run_update_stored keyed placed
  intro set dirty
  obtain rfl := Table.dirty_order dirty
  have kept : (changed order.filledAmount (some (order.filledAmount + amount))).mapM numeric36 =
      .ok (changed order.filledAmount (some (order.filledAmount + amount))) := by
    unfold changed
    split
    · rfl
    · rw [Option.mapM_some,storable]
      rfl
  simp only [Table.storeColumns,columns,kept]
  rfl

theorem run_applyFills [DecimalContext] {amounts : List ℚ} (keyed : view.db.Keyed) (placed : order ∈ view.db .orders)
    (exact : ∀ early late, amounts = early ++ late → early ≠ [] →
      rounded (order.filledAmount + early.sum) = order.filledAmount + early.sum ∧
        Storable (order.filledAmount + early.sum)) :
    ∃ issued, server.engine.run client (applyFills order amounts) view =
      (.ok (amounts.foldl Order.fill order),⟨view.db.replace .orders (amounts.foldl Order.fill order),issued⟩) := by
  induction amounts generalizing order view with
  | nil => exact ⟨_,by rw [List.foldl_nil,keyed.replace_same placed]; rfl⟩
  | cons amount rest ih =>
    obtain ⟨kept,storable⟩ := exact [amount] rest rfl (by simp)
    rw [List.sum_singleton] at kept storable
    obtain ⟨issued,filled⟩ := @run_applyFill_kept _ server client view order columns _ amount keyed placed kept storable
    have stored : order.fill amount ∈ (view.db.replace .orders (order.fill amount)) .orders := by
      rw [Database.replace_self,List.mem_map]
      exact ⟨order,placed,if_pos rfl⟩
    obtain ⟨more,ran⟩ := @ih ⟨view.db.replace .orders (order.fill amount),issued⟩ (order.fill amount)
      (keyed.replace _ _) stored (by
        intro early late split some
        have later := exact (amount::early) late (by rw [split]; rfl) (by simp)
        rw [List.sum_cons,← add_assoc] at later
        exact later)
    refine ⟨more,?_⟩
    unfold applyFills
    rw [List.foldlM_cons,Engine.run_bind,filled]
    change server.engine.run client (applyFills (order.fill amount) rest) _ = _
    rw [ran]
    have same := @Database.replace_replace view.db .orders (order.fill amount) (rest.foldl Order.fill (order.fill amount))
      (foldl_fill_id _ _)
    simp only [same,List.foldl_cons]

theorem run_applyFill_ok [DecimalContext] {result : Order} {amount : ℚ} (keyed : view.db.Keyed)
    (placed : order ∈ view.db .orders)
    (ran : server.engine.run client (OrderRepository.applyFill order amount) view = (.ok result,last)) :
    last.db.Keyed ∧ result ∈ last.db .orders ∧ (result.filledAmount = order.filledAmount ∨
      numeric36 (rounded (order.filledAmount + amount)) = .ok result.filledAmount) := by
  rcases run_update_ok (keyed.find placed) ran with ⟨_,rfl,same⟩ | ⟨set,stored,dirty,ok,rfl,after⟩
  · rw [same]
    exact ⟨keyed,placed,Or.inl rfl⟩
  · rw [after,keyed.modify placed]
    refine ⟨keyed.replace _ _,?_,?_⟩
    · rw [Database.replace_self,List.mem_map]
      exact ⟨order,placed,if_pos rfl⟩
    · obtain rfl := Table.dirty_order dirty
      simp only [Table.storeColumns,columns,bind,Except.bind] at ok
      split at ok
      · cases ok
      · next kept flushed =>
        cases ok
        rcases flushed_changed flushed with ⟨rfl,-⟩ | rounded
        · exact Or.inl rfl
        · exact Or.inr rounded

/-- A fill leaves no more digits than the context keeps. -/
theorem run_applyFills_fits {result : Order} {amounts : List ℚ} (keyed : view.db.Keyed)
    (placed : order ∈ view.db .orders) (member : order.filledAmount ∈ grid36) (fits : Fits 10 28 order.filledAmount)
    (fills : ∀ amount ∈ amounts, amount ∈ grid36)
    (ran : server.engine.run client (applyFills order amounts) view = (.ok result,last)) : Fits 10 28 result.filledAmount := by
  induction amounts generalizing order view with
  | nil =>
    cases ran
    exact fits
  | cons amount rest ih =>
    obtain ⟨filled,middle,first,later⟩ := Engine.run_bind_ok _ (by simpa only [applyFills,List.foldlM_cons] using ran)
    obtain ⟨keyed',placed',added⟩ := run_applyFill_ok columns keyed placed first
    have kept : filled.filledAmount ∈ grid36 ∧ Fits 10 28 filled.filledAmount := by
      rcases added with same | rounded
      · rw [same]
        exact ⟨member,fits⟩
      · have sum := grid36_rounded (add_mem member (fills amount List.mem_cons_self))
        rw [numeric36_rounding.fixed sum rounded]
        exact ⟨sum,DecimalContext.fits_rounded _⟩
    exact ih keyed' placed' kept.1 kept.2 (fun other among => fills other (List.mem_cons_of_mem _ among)) later

end Runs

/-- The fills add up in the row to exactly their sum, and an order of that amount is `FILLED`. -/
def Accumulated {Client : Type} (server : Server Client) (client : Client) (db : Database) (order : Order)
    (amounts : List ℚ) : Prop :=
  ∃ filled, (server.engine.transact client (applyFills order amounts) db).outcome = .ok filled ∧
    filled.filledAmount = amounts.sum ∧ (order.amount ≤ amounts.sum → filled.status = .filled)

/-- A beginning of fills that add up to a stored amount is itself an amount the column keeps. -/
theorem storable_beginning {early late : List ℚ} (positive : ∀ amount ∈ early ++ late, 0 < amount)
    (storable : ∀ amount ∈ early ++ late, Storable amount) (total : Storable (early ++ late).sum) :
    Storable early.sum := by
  have early_nonneg : 0 ≤ early.sum :=
    List.sum_nonneg fun amount among => (positive amount (List.mem_append_left _ among)).le
  have late_nonneg : 0 ≤ late.sum :=
    List.sum_nonneg fun amount among => (positive amount (List.mem_append_right _ among)).le
  have bounded := numeric36_bounded total
  rw [List.sum_append,abs_of_nonneg (add_nonneg early_nonneg late_nonneg)] at bounded
  apply numeric36_kept
  · exact list_sum_mem fun amount among =>
      numeric36_rounding.stored (storable amount (List.mem_append_left _ among))
  · rw [abs_of_nonneg early_nonneg]
    linarith

section Accumulates
variable {Client : Type} {server : Server Client} {client : Client} {db : Database} {order : Order} {amounts : List ℚ}

theorem accumulated_nil : Accumulated server client db order [] ↔
    order.filledAmount = 0 ∧ (order.amount ≤ 0 → order.status = .filled) := by
  constructor
  · rintro ⟨filled,ran,same,full⟩
    rw [Engine.transact_outcome] at ran
    cases ran
    exact ⟨same,full⟩
  · rintro ⟨same,full⟩
    exact ⟨order,Engine.transact_outcome _ _ _ _,same,full⟩

theorem Accumulated.fits (columns : server.numeric = numeric36) (keyed : db.Keyed)
    (placed : order ∈ db .orders) (unfilled : order.filledAmount = 0)
    (stored : ∀ amount ∈ amounts, amount ∈ grid36)
    (accumulated : Accumulated server client db order amounts) : Fits 10 28 amounts.sum := by
  obtain ⟨filled,ran,same,-⟩ := accumulated
  rw [Engine.transact_outcome] at ran
  rw [← same]
  refine @run_applyFills_fits Client server client ⟨db,[]⟩ _ order columns filled amounts keyed placed ?_ ?_ stored
    (Prod.ext ran rfl)
  · rw [unfilled]
    exact zero_mem _
  · rw [unfilled]
    exact DecimalContext.fits_zero (by decide) _

theorem accumulated_of_fits (columns : server.numeric = numeric36) (some : amounts ≠ []) (keyed : db.Keyed)
    (placed : order ∈ db .orders)
    (unfilled : order.filledAmount = 0) (fits : ∀ early late, amounts = early ++ late → Fits 10 28 early.sum)
    (storable : ∀ early late, amounts = early ++ late → Storable early.sum) :
    Accumulated server client db order amounts := by
  have exact (early late : List ℚ) (split : amounts = early ++ late) (_ : early ≠ []) :
      rounded (order.filledAmount + early.sum) = order.filledAmount + early.sum ∧
        Storable (order.filledAmount + early.sum) := by
    have kept := storable early late split
    rw [unfilled,zero_add,rounded_grid36 (numeric36_rounding.stored kept)]
    exact ⟨DecimalContext.round_of_fits (by decide) (fits early late split),kept⟩
  obtain ⟨issued,ran⟩ := @run_applyFills Client server client ⟨db,[]⟩ order columns _ amounts keyed placed exact
  refine ⟨amounts.foldl Order.fill order,?_,?_,?_⟩
  · rw [Engine.transact_outcome,ran]
  · rw [foldl_fill_filled,unfilled,zero_add]
  · intro full
    rw [foldl_fill_status some,unfilled,zero_add,if_pos full]

end Accumulates

/-- Every beginning of the fills of an order adds up exactly, and the last one to
`FILLED`, exactly if no partial sum has more digits than the context keeps. -/
theorem fills_accumulate_iff {Client : Type} (server : Server Client) (columns : server.numeric = numeric36)
    (client : Client) (db : Database) (order : Order) (fills : List ℚ) (keyed : db.Keyed) (placed : order ∈ db .orders)
    (unfilled : order.filledAmount = 0) (positive : ∀ fill ∈ fills, 0 < fill)
    (storable : ∀ fill ∈ fills, Storable fill) (amount : Storable order.amount) (total : fills.sum = order.amount) :
    ((∀ early late, fills = early ++ late → Accumulated server client db order early) ↔
      (fills ≠ [] ∨ order.status = .filled) ∧ ∀ early late, fills = early ++ late → Fits 10 28 early.sum) ∧
      (Accumulated server client db order fills → Fits 10 28 order.amount) := by
  have stored {early late : List ℚ} (split : fills = early ++ late) : ∀ fill ∈ early, fill ∈ grid36 := by
    intro fill among
    apply numeric36_rounding.stored (storable fill _)
    rw [split]
    exact List.mem_append_left _ among
  constructor
  · constructor
    · intro every
      constructor
      · by_cases none : fills = []
        · exact Or.inr ((accumulated_nil.mp (every [] fills rfl)).2 (by rw [← total,none,List.sum_nil]))
        · exact Or.inl none
      · intro early late split
        exact (every early late split).fits columns keyed placed unfilled (stored split)
    · rintro ⟨some,fits⟩ early late split
      by_cases none : early = []
      · subst none
        refine accumulated_nil.mpr ⟨unfilled,fun idle => ?_⟩
        rcases some with some | done
        · rw [← total] at idle
          exact absurd idle (List.sum_pos fills positive some).not_ge
        · exact done
      · apply accumulated_of_fits columns none keyed placed unfilled
        · intro front back parts
          exact fits front (back ++ late) (by rw [split,parts,List.append_assoc])
        · intro front back parts
          rw [split,parts,List.append_assoc] at positive storable total
          exact storable_beginning positive storable (by rwa [total])
  · intro accumulated
    rw [← total]
    exact accumulated.fits columns keyed placed unfilled (stored (List.append_nil _).symm)

def samplePending (amount : ℚ) : Order := ⟨41,1,11,.buy,.limit,amount,0,some 100,.pending,"k1",0⟩

def samplePlaced (amount : ℚ) : Database := sample.insert .orders (samplePending amount)

/-- Fills of 1 and 2 fill an order of 3. -/
theorem fills_accumulate_three : Accumulated sampleServer 0 (samplePlaced 3) (samplePending 3) [1,2] := by
  refine (fills_accumulate_iff sampleServer rfl 0 (samplePlaced 3) (samplePending 3) [1,2] (sample_keyed.insert rfl)
    (List.mem_singleton.mpr rfl) rfl (by decide) (by decide +kernel) (by decide +kernel) (by decide +kernel)).1.mpr
      ⟨Or.inl (by decide),?_⟩ [1,2] [] rfl
  intro early late split
  rcases early with _ | ⟨first,_ | ⟨second,_ | ⟨third,rest⟩⟩⟩
  · exact DecimalContext.fits_zero (by decide) _
  · cases split
    exact ⟨1,0,by norm_num,by norm_num⟩
  · cases split
    exact ⟨3,0,by norm_num,by norm_num⟩
  · cases split

/-- After a fill of 10^17, a fill of the last decimal place is lost. -/
theorem fill_lost :
    let order := samplePending (10^17 + 1/10^18)
    let fills : List ℚ := [10^17,1/10^18]
    (∀ fill ∈ fills, 0 < fill ∧ Storable fill) ∧ fills.sum = order.amount ∧ Storable order.amount ∧
      (sampleServer.engine.transact 0 (applyFills order fills) (samplePlaced order.amount)).outcome =
        .ok { order with filledAmount := 10^17, status := .partiallyFilled } := by
  refine ⟨?_,?_,?_,?_⟩ <;> decide +kernel

end CryptoBrokerage
