import CryptoBrokerage.ExecutionRecord

/-! Fills that the exchange reports more than once. -/
namespace CryptoBrokerage

def firstFills (fills : List FillEvent) : List FillEvent :=
  (fills.zipIdx.filter fun pair => pair.1.fillId ∉ (fills.take pair.2).map FillEvent.fillId).map Prod.fst

def Copied (fills more : List FillEvent) : Prop :=
  ∃ early copy late, fills = early ++ late ∧ more = early ++ copy::late ∧ copy.fillId ∈ early.map FillEvent.fillId

section Loop
variable {fills more : List FillEvent} {seen : List String}

theorem distinctFills_after {early : List FillEvent}
    (same : ∀ id, id ∈ seen ↔ id ∈ early.map FillEvent.fillId) : distinctFills seen fills =
      ((fills.zipIdx early.length).filter fun pair =>
        pair.1.fillId ∉ ((early ++ fills).take pair.2).map FillEvent.fillId).map Prod.fst := by
  induction fills generalizing early seen with
  | nil => rfl
  | cons fill rest ih =>
    have next := @ih (if fill.fillId ∈ seen then seen else fill.fillId::seen) (early ++ [fill]) ?_
    · rw [List.length_append,List.length_singleton,List.append_assoc,List.singleton_append] at next
      rw [distinctFills,List.zipIdx_cons]
      by_cases taken : fill.fillId ∈ seen
      · rw [if_pos taken] at next
        rw [if_pos taken,List.filter_cons_of_neg,next]
        simpa [← same] using taken
      · rw [if_neg taken] at next
        rw [if_neg taken,List.filter_cons_of_pos,next,List.map_cons]
        simpa [← same] using taken
    · intro id
      split
      · next taken =>
        simp only [List.map_append,List.mem_append,← same]
        simp
        rintro rfl
        exact taken
      · simp only [List.map_append,List.mem_append,← same]
        simp [or_comm]

/-- What has not been seen of a list are its first fills. -/
theorem distinctFills_first (fills : List FillEvent) : distinctFills [] fills = firstFills fills :=
  @distinctFills_after _ _ [] (by simp)

theorem distinctFills_unseen : ∀ fill ∈ distinctFills seen fills, fill.fillId ∉ seen := by
  induction fills generalizing seen with
  | nil => simp [distinctFills]
  | cons fill rest ih =>
    unfold distinctFills
    split
    · exact ih
    · next fresh =>
      intro other member
      rcases List.mem_cons.mp member with rfl | later
      · exact fresh
      · exact fun taken => ih other later (List.mem_cons_of_mem _ taken)

theorem distinctFills_once : ((distinctFills seen fills).map FillEvent.fillId).Nodup := by
  induction fills generalizing seen with
  | nil => exact List.nodup_nil
  | cons fill rest ih =>
    unfold distinctFills
    split
    · exact ih
    · rw [List.map_cons,List.nodup_cons]
      refine ⟨?_,ih⟩
      intro member
      obtain ⟨other,later,same⟩ := List.mem_map.mp member
      exact distinctFills_unseen other later (same ▸ List.mem_cons_self)

theorem distinctFills_copy {early late : List FillEvent} {copy : FillEvent}
    (old : copy.fillId ∈ seen ∨ copy.fillId ∈ early.map FillEvent.fillId) :
    distinctFills seen (early ++ copy::late) = distinctFills seen (early ++ late) := by
  induction early generalizing seen with
  | nil =>
    have taken : copy.fillId ∈ seen := by simpa using old
    rw [List.nil_append,List.nil_append,distinctFills,if_pos taken]
  | cons fill rest ih =>
    rw [List.map_cons,List.mem_cons] at old
    rw [List.cons_append,List.cons_append,distinctFills,distinctFills]
    by_cases taken : fill.fillId ∈ seen
    · rw [if_pos taken,if_pos taken]
      apply ih
      rcases old with earlier | same | later
      · exact Or.inl earlier
      · exact Or.inl (same ▸ taken)
      · exact Or.inr later
    · rw [if_neg taken,if_neg taken]
      congr 1
      apply ih
      rcases old with earlier | same | later
      · exact Or.inl (List.mem_cons_of_mem _ earlier)
      · exact Or.inl (same ▸ List.mem_cons_self)
      · exact Or.inr later

theorem distinctFills_copied (copied : Relation.ReflTransGen Copied fills more) :
    distinctFills [] more = distinctFills [] fills := by
  induction copied with
  | refl => rfl
  | tail _ last ih =>
    obtain ⟨early,copy,late,rfl,rfl,old⟩ := last
    rw [distinctFills_copy (Or.inr old),ih]

end Loop

/-- An answer with copies of its fills is settled like the answer without them. -/
theorem settle_copied [DecimalContext] (service : TradingService) (order : Order) (transaction : CryptoBrokerage.Transaction)
    (account : Account) (quoteCurrency : String) (submission : OrderSubmission) {more : List FillEvent}
    (copied : Relation.ReflTransGen Copied submission.fills more) :
    service.settle order transaction account quoteCurrency { submission with fills := more } =
      service.settle order transaction account quoteCurrency submission := by
  have some : more = [] ↔ submission.fills = [] := by
    induction copied with
    | refl => rfl
    | tail _ last ih =>
      obtain ⟨early,copy,late,rfl,rfl,old⟩ := last
      rw [← ih]
      cases early with
      | nil => simp at old
      | cons fill rest => simp
  have processed : distinctFills [] (({ submission with fills := more } : OrderSubmission).fillsToProcess service.now) =
      distinctFills [] (submission.fillsToProcess service.now) := by
    unfold OrderSubmission.fillsToProcess
    simp only [some]
    split
    · rfl
    · exact distinctFills_copied copied
  unfold TradingService.settle
  rw [processFills_distinct,processFills_distinct,processed]

/-- Whatever is done to process a fill, the loop does it with the first fill of
each id, in order, and further copies of them leave what it does as it is; so does
the service with the fills of an answer. -/
theorem duplicate_fills_inert [DecimalContext] {m : Type → Type} [Monad m] {State : Type}
    (processFill : State → FillEvent → m State) (state : State) (service : TradingService) (order : Order)
    (transaction : CryptoBrokerage.Transaction) (account : Account) (quoteCurrency : String)
    (submission : OrderSubmission) (fills : List FillEvent) :
    ((firstFills fills).map FillEvent.fillId).Nodup ∧
      fillLoop processFill [] state fills = (firstFills fills).foldlM processFill state ∧
      service.processFills account quoteCurrency transaction.id [] order fills =
        (firstFills fills).foldlM (fun order fill =>
          service.processFill order fill account quoteCurrency transaction.id) order ∧
      ∀ more, Relation.ReflTransGen Copied fills more →
        fillLoop processFill [] state more = fillLoop processFill [] state fills ∧
        service.processFills account quoteCurrency transaction.id [] order more =
          service.processFills account quoteCurrency transaction.id [] order fills ∧
        service.settle order transaction account quoteCurrency { submission with fills := more } =
          service.settle order transaction account quoteCurrency { submission with fills } := by
  rw [← distinctFills_first]
  refine ⟨distinctFills_once,fillLoop_distinct ..,processFills_distinct ..,fun more copied => ⟨?_,?_,?_⟩⟩
  · rw [fillLoop_distinct,fillLoop_distinct,distinctFills_copied copied]
  · rw [processFills_distinct,processFills_distinct,distinctFills_copied copied]
  · exact settle_copied service order transaction account quoteCurrency { submission with fills } copied

end CryptoBrokerage
