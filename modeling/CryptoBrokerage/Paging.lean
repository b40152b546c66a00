import Mathlib.Data.List.Nodup
import Mathlib.Data.List.Sort
import Mathlib.Order.Defs.LinearOrder

/-! Pages of a query whose order need not tell all rows apart. Every page may be
cut from another listing of the rows. -/
namespace CryptoBrokerage.Paging

variable {Row Key : Type*} [LinearOrder Key] {key : Row → Key} {rows listing other : List Row} {chosen : Row → Bool}

structure Listed (key : Row → Key) (rows listing : List Row) : Prop where
  perm : listing.Perm rows
  sorted : listing.Pairwise fun first second => key second ≤ key first

def page (listing : List Row) (limit offset : ℕ) : List Row := (listing.drop offset).take limit

/-- The pages in a row have every row once, whatever listing each is cut from. -/
def PagesOnce (key : Row → Key) (rows : List Row) (limit : ℕ) : Prop :=
  ∀ listings : ℕ → List Row, (∀ place, Listed key rows (listings place)) →
    ∀ count, rows.length ≤ count * limit →
      ((List.range count).flatMap fun place => page (listings place) limit (place * limit)).Perm rows

def Separated (key : Row → Key) (rows : List Row) (limit : ℕ) : Prop :=
  ∀ row ∈ rows, ∀ place, rows.countP (fun other => decide (key row < key other)) < place * limit →
    rows.countP (fun other => decide (key row ≤ key other)) ≤ place * limit

def Upward (key : Row → Key) (chosen : Row → Bool) : Prop :=
  ∀ first second, key second ≤ key first → chosen second = true → chosen first = true

theorem upward_lt (bound : Key) : Upward key fun row => decide (bound < key row) := by
  intro first second ordered above
  simp only [decide_eq_true_eq] at above ⊢
  exact lt_of_lt_of_le above ordered

theorem upward_le (bound : Key) : Upward key fun row => decide (bound ≤ key row) := by
  intro first second ordered above
  simp only [decide_eq_true_eq] at above ⊢
  exact le_trans above ordered

theorem Listed.length (listed : Listed key rows listing) : listing.length = rows.length := listed.perm.length_eq

theorem listed_mergeSort (key : Row → Key) (rows : List Row) :
    Listed key rows (rows.mergeSort fun first second => decide (key second ≤ key first)) := by
  refine ⟨List.mergeSort_perm ..,?_⟩
  have sorted := @List.pairwise_mergeSort Row (fun first second => decide (key second ≤ key first)) ?_ ?_ rows
  · simpa using sorted
  · intro first second third
    simp only [decide_eq_true_eq]
    exact fun newer older => le_trans older newer
  · intro first second
    simp [le_total]

theorem chosen_none {row : Row} (upward : Upward key chosen) (least : ∀ other ∈ listing, key other ≤ key row)
    (dropped : chosen row = false) : (row::listing).countP chosen = 0 := by
  apply List.countP_eq_zero.mpr
  intro other member among
  rcases List.mem_cons.mp member with rfl | later
  · rw [dropped] at among
    cases among
  · rw [upward row other (least other later) among] at dropped
    cases dropped

section Sorted
variable (sorted : listing.Pairwise fun first second => key second ≤ key first) (upward : Upward key chosen)
include sorted upward

/-- What is chosen upwards comes first. -/
theorem filter_take : listing.filter chosen = listing.take (listing.countP chosen) := by
  induction listing with
  | nil => rfl
  | cons row rest ih =>
    obtain ⟨least,later⟩ := List.pairwise_cons.mp sorted
    cases taken : chosen row with
    | true => rw [List.filter_cons_of_pos taken,List.countP_cons_of_pos taken,List.take_succ_cons,ih later]
    | false =>
      have empty := chosen_none upward least taken
      rw [empty,List.take_zero]
      exact List.filter_eq_nil_iff.mpr (List.countP_eq_zero.mp empty)

theorem chosen_iff {place : ℕ} {row : Row} (there : listing[place]? = some row) :
    chosen row = true ↔ place < listing.countP chosen := by
  induction listing generalizing place with
  | nil => simp at there
  | cons first rest ih =>
    obtain ⟨least,later⟩ := List.pairwise_cons.mp sorted
    cases taken : chosen first with
    | true =>
      rw [List.countP_cons_of_pos taken]
      cases place with
      | zero =>
        obtain rfl := Option.some.inj there
        simp [taken]
      | succ place =>
        rw [ih later there]
        omega
    | false =>
      have empty := chosen_none upward least taken
      have none : ¬chosen row = true := List.countP_eq_zero.mp empty row (List.mem_of_getElem? there)
      rw [empty]
      simp [none]

end Sorted

section Tiles
variable {limit : ℕ}

theorem Listed.countP (listed : Listed key rows listing) (chosen : Row → Bool) :
    listing.countP chosen = rows.countP chosen := listed.perm.countP_eq chosen

/-- Where no key is on both sides of a page end, the rows before it are those down
to one key. -/
theorem separated_chosen (separated : Separated key rows limit) (listed : Listed key rows listing) {place : ℕ}
    (inside : place * limit < rows.length) :
    ∃ chosen : Row → Bool, Upward key chosen ∧ rows.countP chosen = place * limit := by
  by_cases first : place * limit = 0
  · refine ⟨fun _ => false,fun _ _ _ => id,?_⟩
    rw [first]
    simp
  · have bound : place * limit - 1 < listing.length := by
      rw [listed.length]
      omega
    have there : listing[place * limit - 1]? = some listing[place * limit - 1] := List.getElem?_eq_getElem bound
    generalize listing[place * limit - 1] = last at there
    have strict := chosen_iff listed.sorted (upward_lt (key last)) there
    have weak := chosen_iff listed.sorted (upward_le (key last)) there
    rw [listed.countP] at strict weak
    simp only [lt_self_iff_false,decide_false,Bool.false_eq_true,false_iff,not_lt] at strict
    simp only [le_refl,decide_true,true_iff] at weak
    have atMost := separated last (listed.perm.mem_iff.mp (List.mem_of_getElem? there)) place (by omega)
    exact ⟨_,upward_le (key last),by omega⟩

theorem take_perm (separated : Separated key rows limit) (listed : Listed key rows listing)
    (more : Listed key rows other) (place : ℕ) :
    (listing.take (place * limit)).Perm (other.take (place * limit)) := by
  by_cases whole : rows.length ≤ place * limit
  · rw [List.take_of_length_le (listed.length ▸ whole),List.take_of_length_le (more.length ▸ whole)]
    exact listed.perm.trans more.perm.symm
  · obtain ⟨chosen,upward,exactly⟩ := separated_chosen separated listed (not_le.mp whole)
    have left := filter_take listed.sorted upward
    have right := filter_take more.sorted upward
    rw [listed.countP,exactly] at left
    rw [more.countP,exactly] at right
    rw [← left,← right]
    exact (listed.perm.trans more.perm.symm).filter chosen

theorem pages_perm (separated : Separated key rows limit) {listings : ℕ → List Row}
    (listed : ∀ place, Listed key rows (listings place)) (more : Listed key rows other) (count : ℕ) :
    ((List.range count).flatMap fun place => page (listings place) limit (place * limit)).Perm
      (other.take (count * limit)) := by
  induction count with
  | zero => simp
  | succ count ih =>
    rw [List.range_succ,List.flatMap_append,List.flatMap_singleton]
    have before := ih.trans (take_perm separated more (listed count) count)
    have together : (listings count).take (count * limit) ++ page (listings count) limit (count * limit) =
        (listings count).take ((count + 1) * limit) := by
      rw [page,Nat.add_mul,Nat.one_mul,List.take_add]
    refine (before.append_right _).trans ?_
    rw [together]
    exact take_perm separated (listed count) more (count + 1)

theorem pagesOnce_separated (separated : Separated key rows limit) : PagesOnce key rows limit := by
  intro listings listed count enough
  have all := pages_perm separated listed (listed 0) count
  rw [List.take_of_length_le ((listed 0).length ▸ enough)] at all
  exact all.trans (listed 0).perm

end Tiles

section Ties
variable {limit : ℕ}

theorem page_mem {listing : List Row} {row : Row} {offset place : ℕ} (inside : place < limit)
    (there : listing[offset + place]? = some row) : row ∈ page listing limit offset := by
  apply @List.mem_of_getElem? _ _ place
  rw [page,List.getElem?_take_of_lt inside,List.getElem?_drop,there]

/-- Two rows of one key change places. -/
theorem Listed.swap {before after : List Row} {row next : Row} (tied : key row = key next)
    (listed : Listed key rows (before ++ row::next::after)) : Listed key rows (before ++ next::row::after) := by
  refine ⟨((List.Perm.swap row next after).append_left before).trans listed.perm,?_⟩
  have sorted := listed.sorted
  simp only [List.pairwise_append,List.pairwise_cons,List.mem_cons,forall_eq_or_imp,tied,le_refl,true_and] at sorted ⊢
  tauto

theorem not_pagesOnce_tied (distinct : rows.Nodup) {before after : List Row} {row next : Row} {place : ℕ}
    (tied : key row = key next) (listed : Listed key rows (before ++ row::next::after))
    (ends : before.length + 1 = place * limit) : ¬PagesOnce key rows limit := by
  intro once
  have positive : 0 < limit := by
    by_contra! none
    obtain rfl := Nat.le_zero.mp none
    omega
  obtain ⟨earlier,rfl⟩ : ∃ earlier, place = earlier + 1 := by
    cases place with
    | zero => omega
    | succ earlier => exact ⟨earlier,rfl⟩
  rw [Nat.add_mul,Nat.one_mul] at ends
  let listings := fun turn => if turn ≤ earlier then before ++ row::next::after else before ++ next::row::after
  have all : ∀ turn, Listed key rows (listings turn) := by
    intro turn
    by_cases early : turn ≤ earlier
    · rw [show listings turn = _ from if_pos early]
      exact listed
    · rw [show listings turn = _ from if_neg early]
      exact listed.swap tied
  have pages := once listings all (rows.length + earlier + 2)
    (Nat.le_trans (by omega : rows.length ≤ rows.length + earlier + 2) (Nat.le_mul_of_pos_right _ positive))
  have single := (pages.nodup_iff.mpr distinct)
  rw [List.nodup_flatMap,List.pairwise_iff_getElem] at single
  have inside (turn : ℕ) (small : turn < rows.length + earlier + 2) :
      turn < (List.range (rows.length + earlier + 2)).length := by rwa [List.length_range]
  have apart := single.2 earlier (earlier + 1) (inside _ (by omega)) (inside _ (by omega)) (by omega)
  simp only [List.getElem_range,Function.onFun] at apart
  apply @apart row
  · rw [show listings earlier = _ from if_pos (le_refl earlier)]
    apply page_mem (by omega : limit - 1 < limit)
    rw [show earlier * limit + (limit - 1) = before.length by omega]
    simp
  · rw [show listings (earlier + 1) = _ from if_neg (by omega)]
    apply page_mem positive
    rw [Nat.add_mul,Nat.one_mul,← ends]
    simp

/-- The rows of one key stand together. -/
theorem Listed.tied (listed : Listed key rows listing) {bound : Key} {place : ℕ} {row : Row}
    (there : listing[place]? = some row) (above : rows.countP (fun other => decide (bound < key other)) ≤ place)
    (beyond : place < rows.countP fun other => decide (bound ≤ key other)) : key row = bound := by
  rw [← listed.countP] at above beyond
  have strict := (chosen_iff listed.sorted (upward_lt bound) there).not.mpr (by omega)
  have weak := (chosen_iff listed.sorted (upward_le bound) there).mpr beyond
  simp only [decide_eq_true_eq] at strict weak
  exact le_antisymm (not_lt.mp strict) weak

theorem separated_pagesOnce (distinct : rows.Nodup) (once : PagesOnce key rows limit) : Separated key rows limit := by
  intro row member place above
  by_contra! beyond
  have listed := listed_mergeSort key rows
  generalize rows.mergeSort (fun first second => decide (key second ≤ key first)) = listing at listed
  obtain ⟨ends,same⟩ : ∃ ends, place * limit = ends + 1 := ⟨place * limit - 1,by omega⟩
  rw [same] at above beyond
  have bound : ends + 1 < listing.length := by
    rw [listed.length]
    exact Nat.lt_of_lt_of_le beyond List.countP_le_length
  have last : key listing[ends] = key row := listed.tied (List.getElem?_eq_getElem _) (by omega) (by omega)
  have first : key listing[ends + 1] = key row := listed.tied (List.getElem?_eq_getElem _) (by omega) beyond
  have split : listing.take ends ++ listing[ends]::listing[ends + 1]::listing.drop (ends + 2) = listing := by
    rw [← List.drop_eq_getElem_cons,← List.drop_eq_getElem_cons,List.take_append_drop]
  rw [← split] at listed
  have ended : (listing.take ends).length + 1 = place * limit := by
    rw [List.length_take]
    omega
  exact not_pagesOnce_tied distinct (last.trans first.symm) listed ended once

end Ties

/-- The pages have every row once exactly if no two rows of one key are on both
sides of the end of a page. -/
theorem pagesOnce_iff (distinct : rows.Nodup) (limit : ℕ) : PagesOnce key rows limit ↔ Separated key rows limit :=
  ⟨separated_pagesOnce distinct,pagesOnce_separated⟩

theorem countP_le_split (rows : List Row) (bound : Key) : rows.countP (fun other => decide (bound ≤ key other)) =
    rows.countP (fun other => decide (bound < key other)) + (rows.map key).count bound := by
  induction rows with
  | nil => rfl
  | cons row rest ih =>
    rw [List.countP_cons,List.countP_cons,List.map_cons,List.count_cons,ih]
    rcases lt_trichotomy bound (key row) with less | rfl | more
    · simp [less,less.le,less.ne']
      omega
    · simp
      omega
    · simp [more.not_ge,more.not_gt,more.ne]

/-- Keys that tell the rows apart. -/
theorem separated_distinct (distinct : (rows.map key).Nodup) (limit : ℕ) : Separated key rows limit := by
  intro row _ place above
  have single := List.nodup_iff_count_le_one.mp distinct (key row)
  rw [countP_le_split]
  omega

end CryptoBrokerage.Paging
