import CryptoBrokerage.PortfolioService
import CryptoBrokerage.WeightedMean

/-! The totals of a portfolio against its lines. The loop of the source adds the
totals up as it goes and divides where it may. -/
namespace CryptoBrokerage
open Transaction (Program Engine View)
open DecimalContext (rounded)

section Loop
variable [DecimalContext]

def percentage (unrealizedPnl costBasis : ℚ) : ℚ :=
  if 0 < costBasis then rounded (rounded (unrealizedPnl / costBasis) * 100) else 0

/-- A cost that is not positive is not divided by. -/
theorem pnlPct_eq (unrealizedPnl costBasis : ℚ) :
    pnlPct unrealizedPnl costBasis = .ok (percentage unrealizedPnl costBasis) := by
  unfold pnlPct percentage divide
  split
  · next positive =>
    rw [if_neg positive.ne']
    rfl
  · rfl

def PositionSummary.costBasis (line : PositionSummary) : ℚ := rounded (line.quantity * line.averagePrice)

def Position.summary (position : Position) (asset : Asset) (price : Option InstrumentPrice) : PositionSummary :=
  let currentPrice := price.elim 0 InstrumentPrice.last
  let marketValue := rounded (position.quantity * currentPrice)
  let costBasis := rounded (position.quantity * position.averagePrice)
  let unrealizedPnl := rounded (marketValue - costBasis)
  { assetId := position.assetId, assetSymbol := asset.symbol, assetName := asset.name
    quantity := position.quantity, averagePrice := position.averagePrice, currentPrice, marketValue, unrealizedPnl
    unrealizedPnlPct := percentage unrealizedPnl costBasis }

def summaries (assets : AssetMap) (quoteCurrency : String) (prices : String → Option InstrumentPrice)
    (positions : List Position) : List PositionSummary :=
  positions.filterMap fun position => (assets.lookup position.assetId).map fun asset =>
    position.summary asset (prices (asset.symbol ++ quoteCurrency))

def accumulated (start : ℚ) (values : List ℚ) : ℚ := values.foldl (fun total value => rounded (total + value)) start

def Totals.of (lines : List PositionSummary) : Totals :=
  ⟨lines,accumulated 0 (lines.map PositionSummary.marketValue),accumulated 0 (lines.map PositionSummary.costBasis)⟩

variable {assets : AssetMap} {quoteCurrency : String} {prices : String → Option InstrumentPrice}

theorem Totals.of_concat (lines : List PositionSummary) (line : PositionSummary) : Totals.of (lines ++ [line]) =
    ⟨lines ++ [line],rounded ((Totals.of lines).totalMarketValue + line.marketValue),
      rounded ((Totals.of lines).totalCostBasis + line.costBasis)⟩ := by
  unfold Totals.of accumulated
  simp

theorem summaries_concat (positions : List Position) (position : Position) :
    summaries assets quoteCurrency prices (positions ++ [position]) = summaries assets quoteCurrency prices positions ++
      ((assets.lookup position.assetId).map fun asset =>
        position.summary asset (prices (asset.symbol ++ quoteCurrency))).toList := by
  unfold summaries
  rw [List.filterMap_append]
  cases known : assets.lookup position.assetId <;> simp [known]

/-- The loop divides where it may, and comes to the lines and their sums. -/
theorem add_all (positions : List Position) : positions.foldlM (Totals.add assets quoteCurrency prices) {} =
    .ok (Totals.of (summaries assets quoteCurrency prices positions)) := by
  induction positions using List.reverseRecOn with
  | nil => rfl
  | append_singleton positions position ih =>
    rw [List.foldlM_append,ih,summaries_concat]
    change (Totals.add assets quoteCurrency prices _ position >>= pure) = _
    rw [bind_pure]
    unfold Totals.add
    cases assets.lookup position.assetId with
    | none => simp
    | some asset =>
      simp only [pnlPct_eq]
      rw [Option.map_some,Option.toList_some,Totals.of_concat]
      rfl

def aggregate (userId : Uuid) (quoteCurrency : String) (lines : List PositionSummary) (cashBalance : ℚ) : PortfolioSummary :=
  let totals := Totals.of lines
  let totalUnrealizedPnl := rounded (totals.totalMarketValue - totals.totalCostBasis)
  { userId, positions := lines, totalMarketValue := totals.totalMarketValue, totalCostBasis := totals.totalCostBasis
    totalUnrealizedPnl, totalUnrealizedPnlPct := percentage totalUnrealizedPnl totals.totalCostBasis, cashBalance
    cashCurrency := quoteCurrency }

end Loop

section Runs
variable {Client : Type} {server : Server Client} {client : Client}
  {gateway : List String → Except Exception (String → Option InstrumentPrice)} {view : View sql Database}

/-- The assets that the table has are resolved. -/
theorem run_resolveAssets (positions : List Position) (assets : AssetMap) :
    ∃ resolved issued, server.engine.run client (PortfolioService.resolveAssets positions assets) view =
      (.ok resolved,⟨view.db,issued⟩) ∧ ∀ id asset, view.db.find .assets id = some asset →
        (id ∈ positions.map Position.assetId ∨ assets.lookup id = some asset) → resolved.lookup id = some asset := by
  induction positions generalizing assets view with
  | nil => exact ⟨assets,_,rfl,by simp⟩
  | cons position rest ih =>
    unfold PortfolioService.resolveAssets
    rw [Engine.run_bind,run_getById]
    cases read : view.db.find .assets position.assetId with
    | none =>
      obtain ⟨resolved,issued,ran,known⟩ := @ih ⟨view.db,_⟩ assets
      refine ⟨resolved,issued,ran,fun id asset found listed => known id asset found ?_⟩
      have other : id ≠ position.assetId := by
        rintro rfl
        rw [read] at found
        cases found
      simpa [other] using listed
    | some first =>
      obtain ⟨resolved,issued,ran,known⟩ := @ih ⟨view.db,_⟩ ((position.assetId,first)::assets)
      refine ⟨resolved,issued,ran,fun id asset found listed => known id asset found ?_⟩
      by_cases same : id = position.assetId
      · subst same
        rw [read] at found
        cases found
        exact Or.inr List.lookup_cons_self
      · rw [List.lookup_cons,beq_false_of_ne same]
        simpa [same] using listed

/-- Whatever the exchange answers, there are prices to go on with. -/
theorem run_fetchPrices (symbols : List String) :
    ∃ prices issued, server.engine.run client (PortfolioService.fetchPrices gateway symbols) view =
      (.ok prices,⟨view.db,issued⟩) := by
  have sent : server.engine.run client (PortfolioService.getInstrumentPrices gateway symbols) view =
      (gateway symbols,⟨view.db,view.issued ++ [.getInstrumentPrices symbols]⟩) := rfl
  unfold PortfolioService.fetchPrices
  split
  · exact ⟨_,_,rfl⟩
  · rw [Engine.run_bind,Engine.run_attempt,sent]
    cases gateway symbols <;> exact ⟨_,_,rfl⟩

def Database.cash [DecimalContext] (db : Database) (userId : Uuid) (currency : String) : ℚ :=
  (db.accountOf userId currency).elim 0 fun account => db.readBalance account.id

theorem run_cashBalance [DecimalContext] (userId : Uuid) (quoteCurrency : String) :
    ∃ issued, server.engine.run client (PortfolioService.cashBalance userId quoteCurrency) view =
      (.ok (view.db.cash userId quoteCurrency),⟨view.db,issued⟩) := by
  unfold PortfolioService.cashBalance Database.cash
  rw [Engine.run_bind,run_getByUserAndCurrency]
  cases view.db.accountOf userId quoteCurrency with
  | none => exact ⟨_,rfl⟩
  | some account => exact ⟨_,rfl⟩

def Database.positionsOf (db : Database) (userId : Uuid) : List Position :=
  (db .positions).filter fun position => position.userId == userId

theorem run_getByUser (userId : Uuid) : server.engine.run client (PositionRepository.getByUser userId) view =
    (.ok (view.db.positionsOf userId),⟨view.db,view.issued ++ [.selectPositions userId]⟩) := rfl

variable {db : Database} {userId : Uuid} {quoteCurrency : String}

/-- Without positions the summary is empty, and so is its cash. -/
theorem portfolio_empty [DecimalContext] (none : db.positionsOf userId = []) :
    (server.engine.transact client (PortfolioService.getPortfolioSummary gateway userId quoteCurrency) db).outcome =
      .ok { userId, cashCurrency := quoteCurrency } := by
  rw [Engine.transact_outcome]
  unfold PortfolioService.getPortfolioSummary
  rw [Engine.run_bind,run_getByUser,none]
  rfl

theorem portfolio_held [DecimalContext] (some : db.positionsOf userId ≠ []) : ∃ assets prices,
    (server.engine.transact client (PortfolioService.getPortfolioSummary gateway userId quoteCurrency) db).outcome =
      .ok (aggregate userId quoteCurrency (summaries assets quoteCurrency prices (db.positionsOf userId))
        (db.cash userId quoteCurrency)) ∧
    ∀ position ∈ db.positionsOf userId, ∀ asset, db.find .assets position.assetId = Option.some asset →
      assets.lookup position.assetId = Option.some asset := by
  rw [Engine.transact_outcome]
  unfold PortfolioService.getPortfolioSummary
  rw [Engine.run_bind,run_getByUser]
  cases held : db.positionsOf userId with
  | nil => exact absurd held some
  | cons position rest =>
    obtain ⟨assets,listed,resolved,known⟩ :=
      @run_resolveAssets _ server client ⟨db,[] ++ [.selectPositions userId]⟩ (position::rest) []
    obtain ⟨prices,priced,fetched⟩ := @run_fetchPrices _ server client gateway ⟨db,listed⟩
      (PortfolioService.symbols assets quoteCurrency (position::rest))
    obtain ⟨last,counted⟩ := @run_cashBalance _ server client ⟨db,priced⟩ _ userId quoteCurrency
    refine ⟨assets,prices,?_,fun position member asset found =>
      known position.assetId asset found (Or.inl (List.mem_map_of_mem member))⟩
    simp only
    rw [Engine.run_bind,resolved]
    simp only
    rw [Engine.run_bind,fetched]
    simp only [add_all,pnlPct_eq]
    rw [Engine.run_bind]
    simp only [Engine.run_done]
    rw [Engine.run_bind,counted]
    rfl

end Runs

section Exact
attribute [local instance] DecimalContext.exact

/-- The totals of a summary are those of its lines, and its percentage is the mean
of theirs, by cost, between the least and the greatest of them. -/
structure PortfolioSummary.Totalled (summary : PortfolioSummary) : Prop where
  marketValue : summary.totalMarketValue = (summary.positions.map PositionSummary.marketValue).sum
  costBasis : summary.totalCostBasis = (summary.positions.map PositionSummary.costBasis).sum
  unrealizedPnl : summary.totalUnrealizedPnl = (summary.positions.map PositionSummary.unrealizedPnl).sum
  mean : (∀ line ∈ summary.positions, 0 < line.costBasis) → summary.totalUnrealizedPnlPct =
    WeightedMean.mean PositionSummary.costBasis PositionSummary.unrealizedPnlPct summary.positions
  least : (∀ line ∈ summary.positions, 0 < line.costBasis) → summary.positions ≠ [] →
    ∃ line ∈ summary.positions, line.unrealizedPnlPct ≤ summary.totalUnrealizedPnlPct
  greatest : (∀ line ∈ summary.positions, 0 < line.costBasis) → summary.positions ≠ [] →
    ∃ line ∈ summary.positions, summary.totalUnrealizedPnlPct ≤ line.unrealizedPnlPct

section Lines
variable {lines : List PositionSummary} {assets : AssetMap} {quoteCurrency : String}
  {prices : String → Option InstrumentPrice} {positions : List Position}

def PositionSummary.Figured (line : PositionSummary) : Prop :=
  line.unrealizedPnl = line.marketValue - line.costBasis ∧ line.unrealizedPnlPct = percentage line.unrealizedPnl line.costBasis

theorem summary_figured {line : PositionSummary} (member : line ∈ summaries assets quoteCurrency prices positions) :
    line.Figured := by
  unfold summaries at member
  rw [List.mem_filterMap] at member
  obtain ⟨position,_,listed⟩ := member
  obtain ⟨asset,_,rfl⟩ := Option.map_eq_some_iff.mp listed
  exact ⟨rfl,rfl⟩

theorem percentage_pos {unrealizedPnl costBasis : ℚ} (positive : 0 < costBasis) :
    percentage unrealizedPnl costBasis = unrealizedPnl / costBasis * 100 := if_pos positive

theorem accumulated_exact (start : ℚ) (values : List ℚ) : accumulated start values = start + values.sum := by
  induction values generalizing start with
  | nil => simp [accumulated]
  | cons value rest ih =>
    change accumulated (start + value) rest = _
    rw [ih,List.sum_cons,add_assoc]

theorem sum_pnl (figured : ∀ line ∈ lines, line.Figured) : (lines.map PositionSummary.unrealizedPnl).sum =
    (lines.map PositionSummary.marketValue).sum - (lines.map PositionSummary.costBasis).sum := by
  induction lines with
  | nil => simp
  | cons line rest ih =>
    simp only [List.map_cons,List.sum_cons]
    rw [ih fun other member => figured other (List.mem_cons_of_mem _ member),(figured line List.mem_cons_self).1]
    ring

/-- Where costs are positive, a line's cost times its percentage is its profit, in hundredths. -/
theorem mean_pnl (figured : ∀ line ∈ lines, line.Figured) (positive : ∀ line ∈ lines, 0 < line.costBasis) :
    WeightedMean.mean PositionSummary.costBasis PositionSummary.unrealizedPnlPct lines =
      percentage (lines.map PositionSummary.unrealizedPnl).sum (lines.map PositionSummary.costBasis).sum := by
  have each : ∀ line ∈ lines, line.costBasis * line.unrealizedPnlPct = line.unrealizedPnl * 100 := by
    intro line member
    rw [(figured line member).2,percentage_pos (positive line member)]
    field_simp [(positive line member).ne']
  unfold WeightedMean.mean WeightedMean.weighted
  rw [List.map_congr_left each,List.sum_map_mul_right]
  by_cases none : lines = []
  · subst none
    simp [percentage]
  · rw [percentage_pos (WeightedMean.sum_weights_pos none positive),mul_div_right_comm]

theorem aggregate_totalled (userId : Uuid) (cash : ℚ) (figured : ∀ line ∈ lines, line.Figured) :
    (aggregate userId quoteCurrency lines cash).Totalled := by
  let summary := aggregate userId quoteCurrency lines cash
  have marketValue : summary.totalMarketValue = (lines.map PositionSummary.marketValue).sum :=
    (accumulated_exact _ _).trans (zero_add _)
  have costBasis : summary.totalCostBasis = (lines.map PositionSummary.costBasis).sum :=
    (accumulated_exact _ _).trans (zero_add _)
  have unrealizedPnl : summary.totalUnrealizedPnl = (lines.map PositionSummary.unrealizedPnl).sum := by
    rw [sum_pnl figured,← marketValue,← costBasis]
    rfl
  have mean (positive : ∀ line ∈ lines, 0 < line.costBasis) : summary.totalUnrealizedPnlPct =
      WeightedMean.mean PositionSummary.costBasis PositionSummary.unrealizedPnlPct lines := by
    rw [mean_pnl figured positive,← unrealizedPnl,← costBasis]
    rfl
  refine ⟨marketValue,costBasis,unrealizedPnl,mean,fun positive some => ?_,fun positive some => ?_⟩
  · have least := @WeightedMean.exists_le_mean _ _ _ PositionSummary.costBasis PositionSummary.unrealizedPnlPct
      lines _ _ some positive
    rwa [← mean positive] at least
  · have greatest := @WeightedMean.exists_mean_le _ _ _ PositionSummary.costBasis PositionSummary.unrealizedPnlPct
      lines _ _ some positive
    rwa [← mean positive] at greatest

end Lines

/-- For whatever positions, assets and prices, a summary is returned, with the totals of its lines. -/
theorem portfolio_totalled {Client : Type} (server : Server Client) (client : Client)
    (gateway : List String → Except Exception (String → Option InstrumentPrice)) (userId : Uuid) (quoteCurrency : String)
    (db : Database) : ∃ summary, (server.engine.transact client
      (PortfolioService.getPortfolioSummary gateway userId quoteCurrency) db).outcome = .ok summary ∧ summary.Totalled := by
  by_cases none : db.positionsOf userId = []
  · refine ⟨_,portfolio_empty none,?_⟩
    constructor <;> simp [WeightedMean.mean,WeightedMean.weighted]
  · obtain ⟨assets,prices,returned,_⟩ := @portfolio_held _ server client gateway db userId quoteCurrency _ none
    exact ⟨_,returned,aggregate_totalled userId _ fun line member => summary_figured member⟩

end Exact

end CryptoBrokerage
