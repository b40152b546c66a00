import CryptoBrokerage.PositionCost

/-! Sequences of `upsert_position` calls for one user and one asset, each made in
whatever transaction: long positions, and what becomes of short ones. -/
namespace CryptoBrokerage
open Transaction (Program Engine View)
open AverageCost (Trade Inventory)
open DecimalContext (rounded)

/-- A call, with the transaction that makes it and the statements it has sent. -/
structure PositionCall (Client : Type) where
  client : Client
  issued : List Statement := []
  quantityDelta : ℚ
  fillPrice : ℚ

section Calls
variable {Client : Type} (server : Server Client) (userId assetId : Uuid)

def PositionCall.trade (call : PositionCall Client) : Trade ℚ := ⟨call.quantityDelta,call.fillPrice⟩

def quantityHeld (calls : List (PositionCall Client)) : ℚ := (calls.map PositionCall.quantityDelta).sum

/-- Every buy has a positive quantity and price, and every sell is covered by
the quantity then held. -/
def CoveredCalls (calls : List (PositionCall Client)) : Prop :=
  ∀ early call late, calls = early ++ call::late → (0 < call.quantityDelta ∧ 0 < call.fillPrice) ∨
    (call.quantityDelta < 0 ∧ -call.quantityDelta ≤ quantityHeld early)

def upserts [DecimalContext] : List (PositionCall Client) → Database → Except Exception Database
  | [], db => .ok db
  | call::rest, db =>
    match server.engine.run call.client (PositionRepository.upsertPosition userId assetId call.quantityDelta
      call.fillPrice) ⟨db,call.issued⟩ with
    | (.ok _,view) => upserts rest view.db
    | (.error error,_) => .error error

/-- The calls end at the first of them, whose row violates a constraint. -/
def Uninserted [DecimalContext] (calls : List (PositionCall Client)) (db : Database) : Prop :=
  ∃ constraint, upserts server userId assetId calls db = .error (.integrity constraint) ∧
    db.position userId assetId = none ∧ ∃ id, db.violated .positions (Position.flat id userId assetId) = some constraint

variable {server userId assetId} {db : Database}

theorem upserts_append [DecimalContext] (first second : List (PositionCall Client)) :
    upserts server userId assetId (first ++ second) db =
      upserts server userId assetId first db >>= upserts server userId assetId second := by
  induction first generalizing db with
  | nil => rfl
  | cons call rest ih =>
    rw [List.cons_append,upserts,upserts]
    rcases server.engine.run call.client (PositionRepository.upsertPosition userId assetId call.quantityDelta
      call.fillPrice) ⟨db,call.issued⟩ with ⟨error | row,view⟩
    · rfl
    · exact ih

variable {calls : List (PositionCall Client)}

/-- A call stores what it carries. -/
theorem upserts_cons [DecimalContext] (keyed : db.Keyed) (call : PositionCall Client) (rest : List (PositionCall Client)) :
    upserts server userId assetId (call::rest) db =
      match carried server.numeric (db.position userId assetId) call.trade with
      | .error error => .error error
      | .ok next =>
        match db.hold (server.uuid4 call.client (call.issued.length + 1)) userId assetId next with
        | .ok (_,middle) => upserts server userId assetId rest middle
        | .error error => .error error := by
  obtain ⟨issued,ran⟩ := @run_upsert _ server call.client ⟨db,call.issued⟩ userId assetId _ keyed call.quantityDelta
    call.fillPrice
  rw [upserts,ran]
  unfold PositionCall.trade
  cases carried server.numeric (db.position userId assetId) ⟨call.quantityDelta,call.fillPrice⟩ with
  | error error => rfl
  | ok next =>
    cases stored : db.hold (server.uuid4 call.client (call.issued.length + 1)) userId assetId next with
    | error error => simp only [stored]
    | ok pair => simp only [stored]

/-- A BUY that takes a position exactly to zero raises. -/
theorem upserts_closed [DecimalContext] (keyed : db.Keyed) {position : Position}
    (found : db.position userId assetId = some position)
    {call : PositionCall Client} (buys : 0 < call.quantityDelta)
    (closes : rounded (position.quantity + call.quantityDelta) = 0) (rest : List (PositionCall Client)) :
    ∃ error, upserts server userId assetId (call::rest) db = .error error := by
  have failed : ∃ error, carried server.numeric (some position) call.trade = .error error := by
    unfold carried Position.traded PositionCall.trade
    simp only [if_pos buys,if_pos closes]
    cases product call.quantityDelta call.fillPrice <;> exact ⟨_,rfl⟩
  obtain ⟨error,raised⟩ := failed
  refine ⟨error,?_⟩
  rw [upserts_cons keyed,found,raised]

theorem total_calls (calls : List (PositionCall Client)) :
    AverageCost.total (calls.map PositionCall.trade) = quantityHeld calls := by
  unfold AverageCost.total quantityHeld
  rw [List.map_map]
  rfl

@[simp] theorem quantityHeld_concat (calls : List (PositionCall Client)) (call : PositionCall Client) :
    quantityHeld (calls ++ [call]) = quantityHeld calls + call.quantityDelta := by simp [quantityHeld]

theorem CoveredCalls.start {later : List (PositionCall Client)} (covered : CoveredCalls (calls ++ later)) :
    CoveredCalls calls := by
  intro early call late split
  exact covered early call (late ++ later) (by rw [split]; simp)

theorem CoveredCalls.held (covered : CoveredCalls calls) : 0 ≤ quantityHeld calls := by
  induction calls using List.reverseRecOn with
  | nil => exact le_rfl
  | append_singleton early call ih =>
    have long := ih covered.start
    rw [quantityHeld_concat]
    rcases covered early call [] rfl with ⟨buys,_⟩ | ⟨_,room⟩ <;> linarith

theorem holding_absent (absent : db.position userId assetId = none) : db.holding userId assetId = ⟨0,0⟩ := by
  rw [Database.holding,absent]
  rfl

theorem calls_split {early late : List (Trade ℚ)} {item : Trade ℚ}
    (split : calls.map PositionCall.trade = early ++ item::late) : ∃ first call second, calls = first ++ call::second ∧
      first.map PositionCall.trade = early ∧ call.trade = item := by
  obtain ⟨first,others,rfl,same,rest⟩ := List.map_eq_append_iff.mp split
  obtain ⟨call,second,rfl,trade,_⟩ := List.map_eq_cons_iff.mp rest
  exact ⟨first,call,second,rfl,same,trade⟩

theorem within_calls {price : ℚ} (within : AverageCost.Within (calls.map PositionCall.trade) price) :
    ∃ low ∈ calls, ∃ high ∈ calls, (0 < low.quantityDelta ∧ low.fillPrice ≤ price) ∧
      0 < high.quantityDelta ∧ price ≤ high.fillPrice := by
  obtain ⟨low,first,high,second,bounds⟩ := within
  obtain ⟨cheapest,inside,rfl⟩ := List.mem_map.mp first
  obtain ⟨dearest,member,rfl⟩ := List.mem_map.mp second
  exact ⟨cheapest,inside,dearest,member,bounds⟩

end Calls

section Histories
variable {Client : Type}

/-- What the position is after a sequence of calls: the buys add their cost, the
sells keep the average, and the average is within the buys since the last time
that nothing was held. -/
structure LongHistory [DecimalContext] (server : Server Client) (userId assetId : Uuid) (calls : List (PositionCall Client))
    (db last : Database) : Prop where
  quantity : (last.holding userId assetId).quantity = quantityHeld calls
  long : 0 ≤ (last.holding userId assetId).quantity
  moved : ∀ early call, calls = early ++ [call] → ∃ before, upserts server userId assetId early db = .ok before ∧
    (0 < call.quantityDelta → (last.holding userId assetId).cost =
      (before.holding userId assetId).cost + call.quantityDelta * call.fillPrice) ∧
    (call.quantityDelta < 0 → (last.holding userId assetId).average = (before.holding userId assetId).average)
  within : ∀ early late, calls = early ++ late → quantityHeld early = 0 → 0 < (last.holding userId assetId).quantity →
    ∃ low ∈ late, ∃ high ∈ late, (0 < low.quantityDelta ∧ low.fillPrice ≤ (last.holding userId assetId).average) ∧
      0 < high.quantityDelta ∧ (last.holding userId assetId).average ≤ high.fillPrice

end Histories

section Exact
attribute [local instance] DecimalContext.exact
variable {Client : Type} {uuid4 : Client → Nat → Uuid} {now : Client → Timestamp} {userId assetId : Uuid} {db : Database}
  {calls : List (PositionCall Client)}

theorem upserts_traded (keyed : db.Keyed) {after : Inventory ℚ}
    (traded : (db.holding userId assetId).tradeAll (calls.map PositionCall.trade) = some after) :
    Uninserted (Server.exact uuid4 now) userId assetId calls db ∨
      ∃ last, upserts (Server.exact uuid4 now) userId assetId calls db = .ok last ∧ last.Keyed ∧
        last.holding userId assetId = after := by
  induction calls generalizing db with
  | nil => exact Or.inr ⟨db,rfl,keyed,Option.some.inj traded⟩
  | cons call rest ih =>
    rw [List.map_cons,Inventory.tradeAll_cons,Option.bind_eq_some_iff] at traded
    obtain ⟨next,first,later⟩ := traded
    have carries : carried (Server.exact uuid4 now).numeric (db.position userId assetId) call.trade = .ok next := by
      have held : ((db.position userId assetId).elim ⟨0,0⟩ Position.holding).trade call.trade = some next := first
      change carried .ok (db.position userId assetId) call.trade = _
      rw [carried_exact,held]
    unfold Uninserted
    rw [upserts_cons keyed,carries]
    cases stored : db.hold ((Server.exact uuid4 now).uuid4 call.client (call.issued.length + 1)) userId assetId next with
    | error error =>
      obtain ⟨constraint,rfl,absent,violated⟩ := hold_error stored
      exact Or.inl ⟨constraint,by simp only [stored],absent,_,violated⟩
    | ok pair =>
      obtain ⟨row,middle⟩ := pair
      have held := hold_ok keyed stored
      simp only [stored]
      rcases ih held.keyed (held.kept.symm ▸ later) with ⟨_,_,absent,_⟩ | ended
      · rw [held.found] at absent
        cases absent
      · exact Or.inr ended

end Exact

section LongPositions
attribute [local instance] DecimalContext.exact

/-- Calls whose sells are covered never divide by zero: they end at a first row
that cannot be inserted or leave a long position at weighted-average cost. -/
theorem long_average_cost {Client : Type} (uuid4 : Client → Nat → Uuid) (now : Client → Timestamp) (db : Database)
    (keyed : db.Keyed) (userId assetId : Uuid) (absent : db.position userId assetId = none)
    (calls : List (PositionCall Client)) (covered : CoveredCalls calls) :
    Uninserted (Server.exact uuid4 now) userId assetId calls db ∨
      ∃ last, upserts (Server.exact uuid4 now) userId assetId calls db = .ok last ∧
        LongHistory (Server.exact uuid4 now) userId assetId calls db last := by
  have rule : AverageCost.Covered (calls.map PositionCall.trade) := by
    intro early item late split
    obtain ⟨first,call,second,same,rfl,rfl⟩ := calls_split split
    rw [← List.singleton_append,← List.append_assoc] at same
    have long := (same ▸ covered).start.held
    rw [quantityHeld_concat] at long
    rw [total_calls]
    exact long
  have start : (⟨0,0⟩ : Inventory ℚ).quantity = 0 := rfl
  obtain ⟨after,traded,quantity,long,within⟩ := AverageCost.covered_history start rule
  rw [← holding_absent absent] at traded
  rw [total_calls] at quantity long within
  rcases @upserts_traded _ uuid4 now userId assetId db calls keyed after traded with refused | ⟨last,ended,_,holds⟩
  · exact Or.inl refused
  · refine Or.inr ⟨last,ended,?_,?_,?_,?_⟩
    · rw [holds]
      exact quantity
    · rw [holds,quantity]
      exact long
    · intro early call split
      rw [split,List.map_append] at traded
      obtain ⟨next,before,moved⟩ := Option.bind_eq_some_iff.mp ((Inventory.tradeAll_concat _ _ _).symm.trans traded)
      rw [split,upserts_append] at ended
      rcases @upserts_traded _ uuid4 now userId assetId db early keyed next before with ⟨_,failed,_⟩ | ⟨middle,ran,_,held⟩
      · rw [failed] at ended
        cases ended
      · rw [holds]
        refine ⟨middle,ran,fun buys => ?_,fun sells => ?_⟩
        · rw [held]
          exact Inventory.trade_cost buys moved
        · rw [held]
          exact Inventory.trade_average sells.not_gt moved
    · intro early late split zero positive
      rw [holds] at positive ⊢
      exact within_calls
        (within _ _ (by rw [split,List.map_append]) ((total_calls early).trans zero) (quantity ▸ positive))

def sampleCall (quantityDelta fillPrice : ℚ) : PositionCall (Fin 2) := { client := oneClient, quantityDelta, fillPrice }

/-- A position bought at 100, sold and bought again at 50 has an average of 50. -/
theorem long_average_reopened :
    let server := Server.exact sampleServer.uuid4 sampleServer.now
    let calls := [sampleCall 2 100,sampleCall (-2) 120,sampleCall 1 50]
    (upserts server 1 11 calls sample).map (fun last => (last.holding 1 11).average) = .ok 50 ∧
      (Uninserted server 1 11 calls sample ∨
        ∃ last, upserts server 1 11 calls sample = .ok last ∧ LongHistory server 1 11 calls sample last) := by
  refine ⟨by decide +kernel,long_average_cost sampleServer.uuid4 sampleServer.now sample sample_keyed 1 11 rfl _ ?_⟩
  intro early call late split
  rcases early with _ | ⟨_,_ | ⟨_,_ | ⟨_,_⟩⟩⟩ <;> simp [sampleCall] at split
  · obtain ⟨rfl,_⟩ := split
    norm_num
  · obtain ⟨rfl,rfl,_⟩ := split
    norm_num [quantityHeld]
  · obtain ⟨rfl,rfl,rfl,_⟩ := split
    norm_num

end LongPositions

section ShortPositions
variable {Client : Type} {server : Server Client} {userId assetId : Uuid} {db : Database} {calls : List (PositionCall Client)}

/-- No digit is lost of the quantity, the price and the cost of a call, and the
column has room for a new average. -/
structure Roomy [DecimalContext] (numeric : ℚ → Except Exception ℚ) (held : Inventory ℚ) (item : Trade ℚ) : Prop
    extends Whole numeric held item where
  price : 0 < item.quantity → Keeps numeric item.price
  room : 0 < item.quantity → ∃ kept,
    numeric (rounded ((held.cost + item.quantity * item.price) / (held.quantity + item.quantity))) = .ok kept

/-- What is kept of an average crosses no price that is kept whole. -/
theorem average_kept {average kept price : ℚ} (keeps : Keeps numeric36 price)
    (same : kept = average ∨ kept = rounded average ∨ numeric36 (rounded average) = .ok kept) :
    (price ≤ average → price ≤ kept) ∧ (average ≤ price → kept ≤ price) := by
  have member : price ∈ grid36 := numeric36_rounding.stored keeps.2
  rcases same with rfl | rfl | stored
  · exact ⟨id,id⟩
  · exact ⟨DecimalContext.le_rounded keeps.1,DecimalContext.rounded_le keeps.1⟩
  · exact ⟨fun le => numeric36_rounding.above stored member (DecimalContext.le_rounded keeps.1 le),
      fun le => numeric36_rounding.below stored member (DecimalContext.rounded_le keeps.1 le)⟩

/-- A roomy call stores the exact quantity, and an average that crosses no price. -/
theorem carried_roomy {position : Option Position} {item : Trade ℚ} {next : Inventory ℚ}
    (roomy : Roomy numeric36 (position.elim ⟨0,0⟩ Position.holding) item)
    (traded : (position.elim ⟨0,0⟩ Position.holding).trade item = some next) :
    ∃ average, carried numeric36 position item = .ok ⟨next.quantity,average⟩ ∧ ∀ price, Keeps numeric36 price →
      (price ≤ next.average → price ≤ average) ∧ (next.average ≤ price → average ≤ price) := by
  have zero : numeric36 0 = .ok 0 := numeric36_kept grid36.zero_mem (by norm_num)
  have room (buys : 0 < item.quantity) : ∃ kept, numeric36 (rounded next.average) = .ok kept := by
    have moved : (position.elim ⟨0,0⟩ Position.holding).quantity + item.quantity ≠ 0 := by
      intro flat
      rw [Inventory.trade_flat buys flat] at traded
      cases traded
    rw [Inventory.trade_buy buys moved] at traded
    cases traded
    exact roomy.room buys
  have first (buys : 0 < item.quantity) (_ : position = none) := (roomy.price buys).2
  by_cases buys : 0 < item.quantity
  · obtain ⟨kept,stored⟩ := room buys
    obtain ⟨average,carries,same⟩ := carried_whole zero roomy.toWhole traded first fun _ => stored
    refine ⟨average,carries,fun price keeps => average_kept keeps ?_⟩
    rcases same with same | ⟨_,same | rfl⟩
    · exact Or.inl same
    · exact Or.inr (Or.inl same)
    · exact Or.inr (Or.inr stored)
  · obtain ⟨average,carries,same⟩ := @carried_whole _ _ _ _ _ zero roomy.toWhole traded first 0 (absurd · buys)
    exact ⟨average,carries,fun price keeps => average_kept keeps (Or.inl (same.resolve_right fun bought => buys bought.1))⟩

structure ShortHistory (server : Server Client) (userId assetId : Uuid) (calls : List (PositionCall Client))
    (last : Database) : Prop where
  keyed : last.Keyed
  stored : calls = [] ∨ (last.position userId assetId).isSome
  quantity : (last.holding userId assetId).quantity = quantityHeld calls
  within : 0 < quantityHeld calls →
    AverageCost.Within (calls.map PositionCall.trade) (last.holding userId assetId).average
  prices : ∀ call ∈ calls, 0 < call.quantityDelta → Keeps server.numeric call.fillPrice

theorem ShortHistory.step (columns : server.numeric = numeric36) {call : PositionCall Client} {middle : Database}
    (absent : db.position userId assetId = none) (history : ShortHistory server userId assetId calls middle)
    (ran : upserts server userId assetId calls db = .ok middle)
    (careful : AverageCost.Careful ((calls ++ [call]).map PositionCall.trade))
    (roomy : Roomy server.numeric (middle.holding userId assetId) call.trade) :
    Uninserted server userId assetId (calls ++ [call]) db ∨
      ∃ last, upserts server userId assetId (calls ++ [call]) db = .ok last ∧
        ShortHistory server userId assetId (calls ++ [call]) last := by
  rw [List.map_append] at careful
  have quantity : (middle.holding userId assetId).quantity = AverageCost.total (calls.map PositionCall.trade) := by
    rw [history.quantity,total_calls]
  obtain ⟨next,traded,total,within⟩ := AverageCost.careful_step careful quantity
    (fun positive => history.within (by rwa [total_calls] at positive))
  have together : calls.map PositionCall.trade ++ [call.trade] = (calls ++ [call]).map PositionCall.trade := by simp
  rw [together,total_calls] at total within
  rw [columns] at roomy
  obtain ⟨average,carries,crosses⟩ := carried_roomy roomy traded
  have prices : ∀ other ∈ calls ++ [call], 0 < other.quantityDelta → Keeps server.numeric other.fillPrice := by
    intro other member buys
    rcases List.mem_append.mp member with early | last
    · exact history.prices other early buys
    · obtain rfl := List.mem_singleton.mp last
      rw [columns]
      exact roomy.price buys
  have ended := @upserts_append _ server userId assetId db _ calls [call]
  rw [ran] at ended
  change _ = upserts server userId assetId [call] middle at ended
  rw [upserts_cons history.keyed,columns,carries] at ended
  cases stored : middle.hold (server.uuid4 call.client (call.issued.length + 1)) userId assetId ⟨next.quantity,average⟩ with
  | error error =>
    obtain ⟨constraint,rfl,missing,violated⟩ := hold_error stored
    simp only [stored] at ended
    left
    rcases history.stored with rfl | found
    · cases ran
      exact ⟨constraint,ended,absent,_,violated⟩
    · rw [missing] at found
      cases found
  | ok pair =>
    obtain ⟨row,last⟩ := pair
    have held := hold_ok history.keyed stored
    simp only [stored] at ended
    refine Or.inr ⟨last,ended,held.keyed,Or.inr (by rw [held.found]; rfl),?_,?_,prices⟩
    · rw [held.kept]
      exact total
    · intro positive
      rw [held.kept]
      refine (within positive).carried ?_ ?_
      · intro trade member buys
        obtain ⟨other,among,rfl⟩ := List.mem_map.mp member
        exact (crosses _ (columns ▸ prices other among buys)).1
      · intro trade member buys
        obtain ⟨other,among,rfl⟩ := List.mem_map.mp member
        exact (crosses _ (columns ▸ prices other among buys)).2

end ShortPositions

/-- As long as no BUY takes a short position to zero or above and no digit is lost,
calls never raise but at the first row, and a long position's average is within the
prices of the calls. -/
theorem careful_average_cost {Client : Type} (server : Server Client) (columns : server.numeric = numeric36) (db : Database)
    (keyed : db.Keyed) (userId assetId : Uuid) (absent : db.position userId assetId = none)
    (calls : List (PositionCall Client))
    (careful : ∀ early call late, calls = early ++ call::late → 0 < call.quantityDelta →
      0 ≤ quantityHeld early ∨ quantityHeld early + call.quantityDelta < 0)
    (roomy : ∀ early call late before, calls = early ++ call::late → upserts server userId assetId early db = .ok before →
      Roomy server.numeric (before.holding userId assetId) call.trade) :
    Uninserted server userId assetId calls db ∨
      ∃ last, upserts server userId assetId calls db = .ok last ∧
        (last.holding userId assetId).quantity = quantityHeld calls ∧
        (0 < (last.holding userId assetId).quantity → ∃ low ∈ calls, ∃ high ∈ calls,
          low.fillPrice ≤ (last.holding userId assetId).average ∧
            (last.holding userId assetId).average ≤ high.fillPrice) := by
  have rule : AverageCost.Careful (calls.map PositionCall.trade) := by
    intro early item late split buys
    obtain ⟨first,call,second,same,rfl,rfl⟩ := calls_split split
    rw [total_calls]
    exact careful first call second same buys
  have whole : Uninserted server userId assetId calls db ∨ ∃ last, upserts server userId assetId calls db = .ok last ∧
      ShortHistory server userId assetId calls last := by
    clear careful
    induction calls using List.reverseRecOn with
    | nil =>
      refine Or.inr ⟨db,rfl,keyed,Or.inl rfl,?_,fun positive => absurd positive (lt_irrefl _),by simp⟩
      rw [holding_absent absent]
      rfl
    | append_singleton early call ih =>
      have before : AverageCost.Careful (early.map PositionCall.trade) := by
        rw [List.map_append] at rule
        exact rule.concat.1
      rcases ih (fun first other late before split => roomy first other (late ++ [call]) before (by rw [split]; simp))
        before with ⟨constraint,failed,violated⟩ | ⟨middle,ran,history⟩
      · left
        refine ⟨constraint,?_,violated⟩
        rw [upserts_append,failed]
        rfl
      · exact history.step columns absent ran rule (roomy early call [] middle rfl ran)
  rcases whole with refused | ⟨last,ended,history⟩
  · exact Or.inl refused
  · refine Or.inr ⟨last,ended,history.quantity,fun positive => ?_⟩
    rw [history.quantity] at positive
    obtain ⟨low,inside,high,member,lower,upper⟩ := within_calls (history.within positive)
    exact ⟨low,inside,high,member,lower.2,upper.2⟩

/-- Of 1 bought at 10 and 2 at 20 the average is 16.666666666666666667, as the column keeps it. -/
theorem careful_average_thirds :
    let calls := [sampleCall 1 10,sampleCall 2 20]
    Uninserted sampleServer 1 11 calls sample ∨ ∃ last, upserts sampleServer 1 11 calls sample = .ok last ∧
      (last.holding 1 11).quantity = quantityHeld calls ∧
      (0 < (last.holding 1 11).quantity → ∃ low ∈ calls, ∃ high ∈ calls,
        low.fillPrice ≤ (last.holding 1 11).average ∧ (last.holding 1 11).average ≤ high.fillPrice) := by
  have first : (upserts sampleServer 1 11 [sampleCall 1 10] sample).map (fun last => last.holding 1 11) = .ok ⟨1,10⟩ := by
    decide +kernel
  apply careful_average_cost sampleServer rfl sample sample_keyed 1 11 rfl
  · intro early call late split buys
    rcases early with _ | ⟨_,_ | ⟨_,_⟩⟩ <;> simp [sampleCall] at split
    · exact Or.inl le_rfl
    · obtain ⟨rfl,rfl,_⟩ := split
      norm_num [quantityHeld]
  · intro early call late before split ran
    rcases early with _ | ⟨_,_ | ⟨_,_⟩⟩ <;> simp [sampleCall] at split
    · cases ran
      obtain ⟨rfl,_⟩ := split
      refine ⟨⟨?_,?_,?_,?_⟩,?_,?_⟩
      · decide +kernel
      · decide +kernel
      · decide +kernel
      · decide +kernel
      · decide +kernel
      · exact fun _ => ⟨10,by decide +kernel⟩
    · obtain ⟨rfl,rfl,_⟩ := split
      change upserts sampleServer 1 11 [sampleCall 1 10] sample = _ at ran
      rw [ran] at first
      have held : before.holding 1 11 = ⟨1,10⟩ := Except.ok.inj first
      rw [held]
      refine ⟨⟨?_,?_,?_,?_⟩,?_,?_⟩
      · decide +kernel
      · decide +kernel
      · decide +kernel
      · decide +kernel
      · decide +kernel
      · exact fun _ => ⟨16666666666666666667 / 10 ^ 18,by decide +kernel⟩

/-- After a SELL of 1 at 10, a BUY of 1 at 10 divides by zero, and a BUY of 2 at 10
leaves an average of 20. -/
theorem short_average_broken :
    (upserts sampleServer 1 11 [sampleCall (-1) 10,sampleCall 1 10] sample).map (fun last => last.holding 1 11) =
        .error .divisionByZero ∧
      (upserts sampleServer 1 11 [sampleCall (-1) 10,sampleCall 2 10] sample).map (fun last => last.holding 1 11) =
        .ok ⟨1,20⟩ := by
  decide +kernel

end CryptoBrokerage
