import CryptoBrokerage.PortfolioTotals
import CryptoBrokerage.PositionHistory
import CryptoBrokerage.TradingService

/-! What bought positions have cost, by the currency that was paid. The row of a
position has no currency, and the portfolio takes its cost to be in the one asked for. -/
namespace CryptoBrokerage
open Transaction (Engine)
open AverageCost (Trade Inventory)
open DecimalContext (rounded)

structure SettledFill (Client : Type) where
  client : Client
  issued : List Statement := []
  quoteCurrency : String
  fill : FillEvent

section Fills
variable {Client : Type}

def SettledFill.upsert (settled : SettledFill Client) : PositionCall Client :=
  { client := settled.client, issued := settled.issued
    quantityDelta := quantityDelta .buy settled.fill.amount, fillPrice := settled.fill.price }

def SettledFill.value (settled : SettledFill Client) : ℚ := settled.fill.price * settled.fill.amount

def settledIn (quoteCurrency : String) (fills : List (SettledFill Client)) : ℚ :=
  ((fills.filter fun settled => settled.quoteCurrency = quoteCurrency).map SettledFill.value).sum

def settledElsewhere (quoteCurrency : String) (fills : List (SettledFill Client)) : ℚ :=
  ((fills.filter fun settled => settled.quoteCurrency ≠ quoteCurrency).map SettledFill.value).sum

/-- The cost basis that the portfolio in a currency takes from the market value of the
asset is what was paid for it in that currency. -/
def BasisIn (server : Server Client) (client : Client)
    (gateway : List String → Except Exception (String → Option InstrumentPrice)) (userId assetId : Uuid)
    (quoteCurrency : String) (fills : List (SettledFill Client)) (db : Database) : Prop :=
  ∃ summary, (server.engine.transact client (PortfolioService.getPortfolioSummary gateway userId quoteCurrency)
      db).outcome = .ok summary ∧
    ∀ line ∈ summary.positions, line.assetId = assetId → line.costBasis = settledIn quoteCurrency fills

theorem cost_upserts (quoteCurrency : String) (fills : List (SettledFill Client)) :
    AverageCost.cost ((fills.map SettledFill.upsert).map PositionCall.trade) =
      settledIn quoteCurrency fills + settledElsewhere quoteCurrency fills := by
  induction fills with
  | nil => simp [settledIn,settledElsewhere]
  | cons settled rest ih =>
    rw [List.map_cons,List.map_cons,AverageCost.cost_cons,ih]
    unfold settledIn settledElsewhere
    by_cases same : settled.quoteCurrency = quoteCurrency
    · simp [same,SettledFill.upsert,SettledFill.value,PositionCall.trade,quantityDelta]
      ring
    · simp [same,SettledFill.upsert,SettledFill.value,PositionCall.trade,quantityDelta]
      ring

theorem settledElsewhere_zero_iff {quoteCurrency : String} {fills : List (SettledFill Client)}
    (paid : ∀ settled ∈ fills, 0 < settled.fill.price ∧ 0 < settled.fill.amount) :
    settledElsewhere quoteCurrency fills = 0 ↔ ∀ settled ∈ fills, settled.quoteCurrency = quoteCurrency := by
  unfold settledElsewhere
  constructor
  · intro zero settled member
    by_contra other
    have positive := List.sum_pos (((fills.filter fun settled => settled.quoteCurrency ≠ quoteCurrency)).map
      SettledFill.value) ?_ ?_
    · exact positive.ne' zero
    · simp only [List.mem_map,List.mem_filter]
      rintro _ ⟨filled,⟨among,_⟩,rfl⟩
      exact mul_pos (paid filled among).1 (paid filled among).2
    · exact List.ne_nil_of_mem (List.mem_map_of_mem (List.mem_filter.mpr ⟨member,by simpa using other⟩))
  · intro same
    have none : (fills.filter fun settled => settled.quoteCurrency ≠ quoteCurrency) = [] := by simpa using same
    rw [none]
    rfl

end Fills

structure Database.Sole (db : Database) (userId assetId : Uuid) : Prop where
  single : ∀ row, db.position userId assetId = some row → ∀ other ∈ db .positions, other.userId = userId →
    other.assetId = assetId → other = row
  known : ∀ row, db.position userId assetId = some row → db.has .assets assetId = true

section Rows
variable {Client : Type} {server : Server Client} {id userId assetId : Uuid} {db after : Database} {holding : Inventory ℚ}
  {row : Position}

theorem sole_absent (absent : db.position userId assetId = none) : db.Sole userId assetId := by
  constructor <;> simp [absent]

theorem position_absent (absent : db.position userId assetId = none) :
    ∀ row ∈ db .positions, ¬(row.userId = userId ∧ row.assetId = assetId) := by
  intro row member
  have other := List.find?_eq_none.mp absent row member
  simpa using other

theorem hold_sole (keyed : db.Keyed) (sole : db.Sole userId assetId)
    (held : db.hold id userId assetId holding = .ok (row,after)) :
    after.Sole userId assetId := by
  have stored := hold_ok keyed held
  have assets : after .assets = db .assets := stored.others .assets (by simp)
  have first (other : Position) (found : after.position userId assetId = some other) : other = row :=
    Option.some.inj (found.symm.trans stored.found)
  rcases hold_cases held with ⟨absent,valid,_,rfl⟩ | ⟨position,chosen,rfl,rfl⟩
  · have refers : (db.has .users userId && db.has .assets assetId) = true := (Database.violated_none valid).2.2
    constructor
    · intro other found another member ofUser ofAsset
      rw [first other found]
      rw [Database.insert_self] at member
      rcases List.mem_append.mp member with old | fresh
      · exact absurd ⟨ofUser,ofAsset⟩ (position_absent absent another old)
      · exact List.mem_singleton.mp fresh
    · intro other _
      rw [Database.has,assets]
      exact (Bool.and_eq_true_iff.mp refers).2
  · constructor
    · intro other found another member ofUser ofAsset
      rw [first other found]
      rw [Database.replace_self] at member
      obtain ⟨old,inside,rfl⟩ := List.mem_map.mp member
      split
      · rfl
      · next different =>
        rw [if_neg different] at ofUser ofAsset
        exact absurd (congrArg Position.id (sole.single position chosen old inside ofUser ofAsset)) different
    · intro other _
      rw [Database.has,assets]
      exact sole.known position chosen

structure Unrounded (numeric : ℚ → Except Exception ℚ) (held : Inventory ℚ) (item : Trade ℚ) : Prop
    extends Whole numeric held item where
  average : 0 < item.quantity → ∀ next, held.trade item = some next → Keeps numeric next.average

theorem carried_unrounded {numeric : ℚ → Except Exception ℚ} {position : Option Position} {item : Trade ℚ} {next : Inventory ℚ}
    (zero : numeric 0 = .ok 0) (unrounded : Unrounded numeric (position.elim ⟨0,0⟩ Position.holding) item)
    (traded : (position.elim ⟨0,0⟩ Position.holding).trade item = some next) :
    carried numeric position item = .ok next := by
  have first (buys : 0 < item.quantity) (none : position = none) : numeric item.price = .ok item.price := by
    subst none
    have same : next.average = item.price := AverageCost.average_flat rfl buys traded
    rw [← same]
    exact (unrounded.average buys next traded).2
  have room (buys : 0 < item.quantity) : numeric (rounded next.average) = .ok next.average := by
    have keeps := unrounded.average buys next traded
    rw [keeps.1]
    exact keeps.2
  obtain ⟨average,carries,same⟩ := carried_whole zero unrounded.toWhole traded first room
  have kept : average = next.average := by
    rcases same with same | ⟨buys,same | same⟩
    · exact same
    · rw [same,(unrounded.average buys next traded).1]
    · exact same
  rw [carries,kept]

/-- A trade that adds has a cost that the context keeps. -/
theorem cost_kept {numeric : ℚ → Except Exception ℚ} {held next : Inventory ℚ} {item : Trade ℚ}
    (unrounded : Unrounded numeric held item) (traded : held.trade item = some next) (adds : 0 ≤ item.quantity)
    (kept : rounded held.cost = held.cost) : rounded next.cost = next.cost := by
  rcases adds.eq_or_lt with nothing | bought
  · rw [Inventory.trade_sell nothing.not_lt,← nothing,add_zero] at traded
    cases traded
    exact kept
  · rw [Inventory.trade_cost bought traded]
    exact unrounded.paid bought

/-- Calls that add without a rounding leave what the trades make, in the only row there is. -/
theorem upserts_sole {calls : List (PositionCall Client)} {last : Database} (zero : server.numeric 0 = .ok 0)
    (keyed : db.Keyed) (sole : db.Sole userId assetId) (long : 0 ≤ (db.holding userId assetId).quantity)
    (kept : rounded (db.holding userId assetId).cost = (db.holding userId assetId).cost)
    (adds : ∀ call ∈ calls, 0 ≤ call.quantityDelta)
    (unrounded : ∀ early call late before, calls = early ++ call::late →
      upserts server userId assetId early db = .ok before →
        Unrounded server.numeric (before.holding userId assetId) call.trade)
    (ran : upserts server userId assetId calls db = .ok last) :
    last.Sole userId assetId ∧ rounded (last.holding userId assetId).cost = (last.holding userId assetId).cost ∧
      (db.holding userId assetId).tradeAll (calls.map PositionCall.trade) = some (last.holding userId assetId) ∧
      ((calls ≠ [] ∨ ∃ row, db.position userId assetId = some row) →
        ∃ row, last.position userId assetId = some row) := by
  induction calls generalizing db with
  | nil =>
    cases ran
    exact ⟨sole,kept,rfl,fun either => either.resolve_left (not_not.mpr rfl)⟩
  | cons call rest ih =>
    have whole := unrounded [] call rest db rfl rfl
    have added : 0 ≤ call.trade.quantity := adds call List.mem_cons_self
    obtain ⟨next,traded⟩ := @Inventory.trade_long ℚ _ _ _ call.trade _ long
    have carries : carried server.numeric (db.position userId assetId) call.trade = .ok next :=
      carried_unrounded zero whole traded
    rw [upserts_cons keyed,carries] at ran
    rw [List.map_cons,Inventory.tradeAll_cons,traded]
    cases stored : db.hold (server.uuid4 call.client (call.issued.length + 1)) userId assetId next with
    | error error =>
      simp only [stored] at ran
      cases ran
    | ok pair =>
      obtain ⟨row,middle⟩ := pair
      have held := hold_ok keyed stored
      have quantity := Inventory.trade_quantity traded
      simp only [stored] at ran
      obtain ⟨single,cost,later,found⟩ := ih held.keyed (hold_sole keyed sole stored)
        (by rw [held.kept,quantity]; exact add_nonneg long added)
        (by rw [held.kept]; exact cost_kept whole traded added kept)
        (fun other member => adds other (List.mem_cons_of_mem _ member))
        (fun early other late before split started => unrounded (call::early) other late before (by rw [split]; rfl) (by
          rw [upserts_cons keyed,carries]
          simp only [stored]
          exact started)) ran
      rw [held.kept] at later
      exact ⟨single,cost,later,fun _ => found (Or.inr ⟨row,held.found⟩)⟩

end Rows

section Lines
variable {Client : Type} {server : Server Client} {client : Client}
  {gateway : List String → Except Exception (String → Option InstrumentPrice)} {userId assetId : Uuid}
  {quoteCurrency : String} {fills : List (SettledFill Client)} {db : Database} {row : Position}

theorem mem_summaries {assets : AssetMap} {prices : String → Option InstrumentPrice} {positions : List Position}
    {line : PositionSummary} : line ∈ summaries assets quoteCurrency prices positions ↔
      ∃ position ∈ positions, ∃ asset, assets.lookup position.assetId = some asset ∧
        position.summary asset (prices (asset.symbol ++ quoteCurrency)) = line := by
  unfold summaries
  simp [List.mem_filterMap,Option.map_eq_some_iff]

theorem summary_costBasis (position : Position) (asset : Asset) (price : Option InstrumentPrice) :
    (position.summary asset price).costBasis = rounded (position.quantity * position.averagePrice) := rfl

/-- The cost basis in whatever currency is the cost of the row. -/
theorem basis_held (sole : db.Sole userId assetId) (found : db.position userId assetId = some row) :
    BasisIn server client gateway userId assetId quoteCurrency fills db ↔
      rounded (db.holding userId assetId).cost = settledIn quoteCurrency fills := by
  obtain ⟨member,ofUser,ofAsset⟩ := Database.position_some found
  have listed : row ∈ db.positionsOf userId := List.mem_filter.mpr ⟨member,by simpa using ofUser⟩
  obtain ⟨asset,resolved⟩ : ∃ asset, db.find .assets row.assetId = some asset := by
    rw [ofAsset]
    exact Option.isSome_iff_exists.mp (List.find?_isSome.mpr (List.any_eq_true.mp (sole.known row found)))
  obtain ⟨assets,prices,returned,known⟩ := @portfolio_held _ server client gateway db userId quoteCurrency _
    (List.ne_nil_of_mem listed)
  have cost : (db.holding userId assetId).cost = row.quantity * row.averagePrice := by
    rw [Database.holding,found]
    rfl
  rw [cost]
  constructor
  · rintro ⟨summary,answered,lines⟩
    obtain rfl := Except.ok.inj (returned.symm.trans answered)
    have basis := lines _ (mem_summaries.mpr ⟨row,listed,asset,known row listed asset resolved,rfl⟩) ofAsset
    rwa [summary_costBasis] at basis
  · intro same
    refine ⟨_,returned,fun line among ofLine => ?_⟩
    obtain ⟨position,inside,other,_,rfl⟩ := mem_summaries.mp among
    obtain ⟨stored,owner⟩ := List.mem_filter.mp inside
    obtain rfl := sole.single row found position stored (by simpa using owner) ofLine
    rw [summary_costBasis]
    exact same

theorem basis_absent (absent : db.position userId assetId = none) :
    BasisIn server client gateway userId assetId quoteCurrency fills db := by
  by_cases empty : db.positionsOf userId = []
  · exact ⟨_,portfolio_empty empty,by simp⟩
  · obtain ⟨assets,prices,returned,_⟩ := @portfolio_held _ server client gateway db userId quoteCurrency _ empty
    refine ⟨_,returned,fun line among ofLine => ?_⟩
    obtain ⟨position,inside,other,_,rfl⟩ := mem_summaries.mp among
    obtain ⟨stored,owner⟩ := List.mem_filter.mp inside
    exact absurd ⟨by simpa using owner,ofLine⟩ (position_absent absent position stored)

end Lines

/-- Where no result is rounded, the portfolio subtracts what was paid in its currency
exactly if what was paid in others comes to nothing. -/
theorem basis_per_currency_iff {Client : Type} (server : Server Client) (columns : server.numeric = numeric36)
    (client : Client) (gateway : List String → Except Exception (String → Option InstrumentPrice)) (db last : Database)
    (keyed : db.Keyed) (userId assetId : Uuid) (absent : db.position userId assetId = none)
    (fills : List (SettledFill Client)) (buys : ∀ settled ∈ fills, 0 ≤ settled.fill.amount)
    (unrounded : ∀ early settled late before, fills = early ++ settled::late →
      upserts server userId assetId (early.map SettledFill.upsert) db = .ok before →
        Unrounded server.numeric (before.holding userId assetId) settled.upsert.trade)
    (ran : upserts server userId assetId (fills.map SettledFill.upsert) db = .ok last) (quoteCurrency : String) :
    BasisIn server client gateway userId assetId quoteCurrency fills last ↔ settledElsewhere quoteCurrency fills = 0 := by
  have start := holding_absent absent
  have zero : server.numeric 0 = .ok 0 := by
    rw [columns]
    exact numeric36_kept grid36.zero_mem (by norm_num)
  have nothing : rounded 0 = 0 := by
    rw [rounded_grid36 grid36.zero_mem]
    exact DecimalContext.round_of_fits (by decide) (DecimalContext.fits_zero (by decide) 28)
  have adds : ∀ call ∈ fills.map SettledFill.upsert, 0 ≤ call.quantityDelta := by
    simpa [SettledFill.upsert,quantityDelta] using buys
  have each : ∀ early call late before, fills.map SettledFill.upsert = early ++ call::late →
      upserts server userId assetId early db = .ok before →
        Unrounded server.numeric (before.holding userId assetId) call.trade := by
    intro early call late before split started
    obtain ⟨first,others,rfl,rfl,rest⟩ := List.map_eq_append_iff.mp split
    obtain ⟨settled,second,rfl,rfl,_⟩ := List.map_eq_cons_iff.mp rest
    exact unrounded first settled second before rfl started
  obtain ⟨sole,kept,traded,found⟩ := upserts_sole zero keyed (sole_absent absent) (by rw [start])
    (by rw [start]; simpa [Inventory.cost] using nothing) adds each ran
  by_cases none : fills = []
  · subst none
    cases ran
    exact iff_of_true (basis_absent absent) rfl
  · obtain ⟨row,held⟩ := found (Or.inl (by simpa using none))
    rw [basis_held sole held,kept]
    rw [start] at traded
    have positive : ∀ trade ∈ (fills.map SettledFill.upsert).map PositionCall.trade, 0 ≤ trade.quantity := by
      simpa [SettledFill.upsert,PositionCall.trade,quantityDelta] using buys
    obtain ⟨after,others,cost⟩ := @Inventory.tradeAll_added ℚ _ _ ⟨0,0⟩ _ _ le_rfl positive
    rw [others] at traded
    obtain rfl := Option.some.inj traded
    rw [cost,cost_upserts quoteCurrency fills]
    simp [Inventory.cost]

section Sample

def samplePrices (_ : List String) : Except Exception (String → Option InstrumentPrice) :=
  .ok fun symbol => if symbol = "BTCBRL" then some ⟨symbol,119,121,120,0⟩ else none

def sampleSettled (quoteCurrency fillId : String) (price : ℚ) : SettledFill (Fin 2) :=
  { client := oneClient, quoteCurrency, fill := ⟨fillId,price,1,0,0⟩ }

/-- Two buys in one currency. -/
theorem basis_per_currency_brl :
    let fills := [sampleSettled "BRL" "f1" 100,sampleSettled "BRL" "f2" 20]
    ∃ last, upserts sampleServer 1 11 (fills.map SettledFill.upsert) sample = .ok last ∧
      BasisIn sampleServer 0 samplePrices 1 11 "BRL" fills last := by
  let fills := [sampleSettled "BRL" "f1" 100,sampleSettled "BRL" "f2" 20]
  have first : (upserts sampleServer 1 11 [(sampleSettled "BRL" "f1" 100).upsert] sample).map
      (fun last => last.holding 1 11) = .ok ⟨1,100⟩ := by decide +kernel
  have stored : (upserts sampleServer 1 11 (fills.map SettledFill.upsert) sample).map (fun last => last.holding 1 11) =
      .ok ⟨2,60⟩ := by decide +kernel
  have unrounded : ∀ early settled late before, fills = early ++ settled::late →
      upserts sampleServer 1 11 (early.map SettledFill.upsert) sample = .ok before →
        Unrounded numeric36 (before.holding 1 11) settled.upsert.trade := by
    intro early settled late before split started
    rcases early with _ | ⟨_,_ | ⟨_,_⟩⟩ <;> simp [fills] at split
    · cases started
      obtain ⟨rfl,_⟩ := split
      refine ⟨⟨?_,?_,?_,?_⟩,fun _ next traded => ?_⟩
      · decide +kernel
      · decide +kernel
      · decide +kernel
      · decide +kernel
      · have same : (sample.holding 1 11).trade (sampleSettled "BRL" "f1" 100).upsert.trade = some ⟨1,100⟩ := by
          decide +kernel
        obtain rfl := Option.some.inj (same.symm.trans traded)
        decide +kernel
    · obtain ⟨rfl,rfl,_⟩ := split
      change upserts sampleServer 1 11 [(sampleSettled "BRL" "f1" 100).upsert] sample = _ at started
      rw [started] at first
      have held : before.holding 1 11 = ⟨1,100⟩ := Except.ok.inj first
      rw [held]
      refine ⟨⟨?_,?_,?_,?_⟩,fun _ next traded => ?_⟩
      · decide +kernel
      · decide +kernel
      · decide +kernel
      · decide +kernel
      · have same : (⟨1,100⟩ : Inventory ℚ).trade (sampleSettled "BRL" "f2" 20).upsert.trade = some ⟨2,60⟩ := by
          decide +kernel
        obtain rfl := Option.some.inj (same.symm.trans traded)
        decide +kernel
  cases ran : upserts sampleServer 1 11 (fills.map SettledFill.upsert) sample with
  | error error =>
    rw [ran] at stored
    cases stored
  | ok last =>
    exact ⟨last,ran,(basis_per_currency_iff sampleServer rfl 0 samplePrices sample last sample_keyed 1 11 rfl fills
      (by simp [fills,sampleSettled]) unrounded ran "BRL").mpr (by decide +kernel)⟩

/-- Of 100 BRL and 20 USD paid, 120 BRL are subtracted. -/
theorem basis_mixed :
    let fills := [sampleSettled "BRL" "f1" 100,sampleSettled "USD" "f2" 20]
    settledIn "BRL" fills = 100 ∧ ∃ last, upserts sampleServer 1 11 (fills.map SettledFill.upsert) sample = .ok last ∧
      ¬BasisIn sampleServer 0 samplePrices 1 11 "BRL" fills last := by
  have shown : (upserts sampleServer 1 11 ([sampleSettled "BRL" "f1" 100,sampleSettled "USD" "f2" 20].map
      SettledFill.upsert) sample >>= fun last => (sampleServer.engine.transact 0
        (PortfolioService.getPortfolioSummary samplePrices 1 "BRL") last).outcome).map
      (fun summary => summary.positions.map fun line => (line.assetId,line.costBasis)) =
        .ok [(11,120)] := by decide +kernel
  refine ⟨by decide +kernel,?_⟩
  cases ran : upserts sampleServer 1 11 ([sampleSettled "BRL" "f1" 100,sampleSettled "USD" "f2" 20].map
    SettledFill.upsert) sample with
  | error error =>
    rw [ran] at shown
    cases shown
  | ok last =>
    refine ⟨last,rfl,?_⟩
    rintro ⟨summary,answered,lines⟩
    rw [ran] at shown
    change (sampleServer.engine.transact 0 (PortfolioService.getPortfolioSummary samplePrices 1 "BRL") last).outcome.map
      _ = _ at shown
    rw [answered] at shown
    obtain ⟨line,alone,figures⟩ := List.map_eq_singleton_iff.mp (Except.ok.inj shown)
    obtain ⟨asset,basis⟩ := Prod.mk.inj figures
    have paid := lines line (by rw [alone]; exact List.mem_singleton_self line) asset
    rw [basis] at paid
    exact absurd paid (by decide +kernel)

end Sample

end CryptoBrokerage
