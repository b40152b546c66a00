import CryptoBrokerage.Repositories

/-! `PortfolioService` and the endpoint under `/portfolio`. The exchange is a
function from the symbols to its answer, which maps some of them to a price. -/
namespace CryptoBrokerage
open Transaction (Program)
open DecimalContext (rounded)

structure PositionSummary where
  assetId : Uuid
  assetSymbol : String
  assetName : String
  quantity : ℚ
  averagePrice : ℚ
  currentPrice : ℚ
  marketValue : ℚ
  unrealizedPnl : ℚ
  unrealizedPnlPct : ℚ
  deriving DecidableEq, Repr

structure PortfolioSummary where
  userId : Uuid
  positions : List PositionSummary := []
  totalMarketValue : ℚ := 0
  totalCostBasis : ℚ := 0
  totalUnrealizedPnl : ℚ := 0
  totalUnrealizedPnlPct : ℚ := 0
  cashBalance : ℚ := 0
  cashCurrency : String := "BRL"
  deriving DecidableEq, Repr

abbrev AssetMap := List (Uuid × Asset)

def divide [DecimalContext] (dividend divisor : ℚ) : Except Exception ℚ :=
  if divisor = 0 then .error .divisionByZero else .ok (rounded (dividend / divisor))

def pnlPct [DecimalContext] (unrealizedPnl costBasis : ℚ) : Except Exception ℚ :=
  if 0 < costBasis then (divide unrealizedPnl costBasis).map fun ratio => rounded (ratio * 100) else .ok 0

structure Totals where
  positionSummaries : List PositionSummary := []
  totalMarketValue : ℚ := 0
  totalCostBasis : ℚ := 0
  deriving DecidableEq, Repr

def Totals.add [DecimalContext] (assets : AssetMap) (quoteCurrency : String) (prices : String → Option InstrumentPrice)
    (totals : Totals) (position : Position) : Except Exception Totals :=
  match assets.lookup position.assetId with
  | none => .ok totals
  | some asset => do
    let currentPrice := (prices (asset.symbol ++ quoteCurrency)).elim 0 InstrumentPrice.last
    let marketValue := rounded (position.quantity * currentPrice)
    let costBasis := rounded (position.quantity * position.averagePrice)
    let unrealizedPnl := rounded (marketValue - costBasis)
    let unrealizedPnlPct ← pnlPct unrealizedPnl costBasis
    return {
      positionSummaries := totals.positionSummaries ++ [{
        assetId := position.assetId, assetSymbol := asset.symbol, assetName := asset.name
        quantity := position.quantity, averagePrice := position.averagePrice, currentPrice, marketValue
        unrealizedPnl, unrealizedPnlPct }]
      totalMarketValue := rounded (totals.totalMarketValue + marketValue)
      totalCostBasis := rounded (totals.totalCostBasis + costBasis) }

namespace PortfolioService
variable (gateway : List String → Except Exception (String → Option InstrumentPrice))

/-- Step 2. -/
def resolveAssets : List Position → AssetMap → Action AssetMap
  | [], assets => pure assets
  | position::rest, assets => do
    match ← BaseRepository.getById .assets position.assetId with
    | some asset => resolveAssets rest ((position.assetId,asset)::assets)
    | none => resolveAssets rest assets

def symbols (assets : AssetMap) (quoteCurrency : String) (positions : List Position) : List String :=
  positions.filterMap fun position => (assets.lookup position.assetId).map fun asset => asset.symbol ++ quoteCurrency

def getInstrumentPrices (symbols : List String) : Action (String → Option InstrumentPrice) := do
  send (.getInstrumentPrices symbols)
  .done (gateway symbols)

/-- Step 3. Without an answer of the exchange there are no prices. -/
def fetchPrices (symbols : List String) : Action (String → Option InstrumentPrice) := do
  if symbols = [] then pure fun _ => none
  else
    match ← (getInstrumentPrices gateway symbols).attempt with
    | .ok prices => pure prices
    | .error _ => pure fun _ => none

/-- Step 5. -/
def cashBalance [DecimalContext] (userId : Uuid) (quoteCurrency : String) : Action ℚ := do
  match ← AccountRepository.getByUserAndCurrency userId quoteCurrency with
  | some cashAccount => AccountRepository.getBalance cashAccount.id
  | none => pure 0

def getPortfolioSummary [DecimalContext] (userId : Uuid) (quoteCurrency : String := "BRL") : Action PortfolioSummary := do
  match ← PositionRepository.getByUser userId with
  | [] => pure { userId, cashCurrency := quoteCurrency }
  | positions => do
    let assets ← resolveAssets positions []
    let prices ← fetchPrices gateway (symbols assets quoteCurrency positions)
    let totals ← (.done (positions.foldlM (Totals.add assets quoteCurrency prices) {}) : Action Totals)
    let cash ← cashBalance userId quoteCurrency
    -- step 6
    let totalUnrealizedPnl := rounded (totals.totalMarketValue - totals.totalCostBasis)
    let totalUnrealizedPnlPct ← (.done (pnlPct totalUnrealizedPnl totals.totalCostBasis) : Action ℚ)
    pure {
      userId, positions := totals.positionSummaries, totalMarketValue := totals.totalMarketValue
      totalCostBasis := totals.totalCostBasis, totalUnrealizedPnl, totalUnrealizedPnlPct, cashBalance := cash
      cashCurrency := quoteCurrency }

end PortfolioService

def getPortfolio [DecimalContext] (gateway : List String → Except Exception (String → Option InstrumentPrice))
    (currentUser : User)
    (quoteCurrency : String := "BRL") : Action PortfolioSummary :=
  PortfolioService.getPortfolioSummary gateway currentUser.id quoteCurrency

end CryptoBrokerage
