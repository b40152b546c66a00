import CryptoBrokerage.Settlement
import CryptoBrokerage.Transaction.Serializable

/-! Requests of one user in one quote currency. Before its account lock a request
looks up only its own key and the accounts, which no request changes, so the lock
opens a section that runs to the end of the request, and all runs are serial. -/
namespace CryptoBrokerage
open Transaction (Program Engine View Receipt Config Reachable Runs entryOrder Sectioned Waits)

def locksAccount (db : Database) (userId : Uuid) (currency : String) : Statement → Bool
  | .selectAccountForUpdate id => ((db .accounts).find? (fun account =>
      account.userId == userId && account.currency == currency)).any (fun account => account.id == id)
  | _ => false

def Untouched (first : Database) (key : String) (db : Database) : Prop :=
  db .accounts = first .accounts ∧ ∀ order ∈ db .orders, order.idempotencyKey ≠ key

def OwnKey (key : String) : Statement → Prop
  | .insert .orders row => row.idempotencyKey = key
  | .insert .accounts _ => False
  | _ => True

section Requests
variable {Client : Type} {server : Server Client} {client : Client} {first db : Database}
  {service : TradingService} {request : TradeRequest} {key : String}

theorem executeTrade_ownKey : (service.executeTrade request).Only (OwnKey request.idempotencyKey) := by
  refine executeTrade_only service ?_ trivial (fun id => rfl) ?_ (fun t _ id columns => trivial)
  · intro op read
    cases op with
    | insert t row => cases read
    | _ => trivial
  · rintro t (rfl | rfl | rfl | rfl) row
    all_goals trivial

theorem executeTrade_untouched (other : request.idempotencyKey ≠ key) (untouched : Untouched first key db) :
    Untouched first key (server.engine.transact client (service.executeTrade request) db).after := by
  refine server.engine.transact_keeps client ?_ executeTrade_ownKey db untouched
  intro op turn db reply writes own untouched answered
  have written := Server.exec_writes answered
  cases op with
  | insert t row =>
    obtain ⟨stored,ok,_,rfl⟩ := written
    change Untouched first key (db.insert t stored)
    by_cases order : t = .orders
    · subst t
      refine ⟨(Database.insert_other db stored (by decide)).trans untouched.1,fun placed member => ?_⟩
      rw [Database.insert_self] at member
      rcases List.mem_append.mp member with old | new
      · exact untouched.2 placed old
      · rw [List.mem_singleton.mp new,store_idempotencyKey ok]
        exact fun same => other (own.symm.trans same)
    · have account : t ≠ .accounts := by
        rintro rfl
        exact own
      refine ⟨(Database.insert_other db stored (Ne.symm account)).trans untouched.1,fun placed member => ?_⟩
      rw [Database.insert_other db stored (Ne.symm order)] at member
      exact untouched.2 placed member
  | update t id set =>
    obtain ⟨stored,_,rfl⟩ := written
    change Untouched first key (db.modify t id stored)
    have account : t ≠ .accounts := by
      rintro rfl
      exact set.elim
    refine ⟨(Database.modify_other db id stored (Ne.symm account)).trans untouched.1,?_⟩
    by_cases order : t = .orders
    · subst t
      intro placed member
      rw [Database.modify_self] at member
      obtain ⟨old,inside,rfl⟩ := List.mem_map.mp member
      split
      · exact untouched.2 old inside
      · exact untouched.2 old inside
    · rw [Database.modify_other db id stored (Ne.symm order)]
      exact untouched.2
  | _ =>
    rw [show writes = [] from written]
    exact untouched

/-- Up to the account lock a request is calm: no statement but the lock depends
on what other requests of the user change. -/
theorem executeTrade_calm (userId : Uuid) (currency : String) (user : request.userId = userId)
    (quote : request.quoteCurrency = currency) :
    (service.executeTrade request).Calm server.engine (fun op => locksAccount first userId currency op = true)
      (Untouched first request.idempotencyKey) client [] := by
  subst user
  subst quote
  refine Or.inr ⟨by simp [locksAccount],.ok none,fun db untouched => ?_,?_⟩
  · have absent := Database.find_key_none.mpr untouched.2
    change Except.ok (_,_) = _
    rw [absent]
    rfl
  · change (request.opening >>= fun opened => _ : Action Order).Calm _ _ _ _ _
    unfold TradeRequest.opening TradeRequest.validate
    split
    · trivial
    · split
      · trivial
      · refine Or.inr ⟨by simp [locksAccount],.ok ((first .accounts).find? (fun account =>
          account.userId == request.userId && account.currency == request.quoteCurrency)),fun db untouched => ?_,?_⟩
        · change Except.ok (_,_) = _
          rw [untouched.1]
          rfl
        · cases chosen : (first .accounts).find? (fun account =>
            account.userId == request.userId && account.currency == request.quoteCurrency) with
          | none => trivial
          | some account =>
            refine Or.inl ?_
            simp [locksAccount,chosen]

end Requests

def requests {Client : Type} (service : Client → TradingService) (request : Client → TradeRequest)
    (client : Client) : Action Order := (service client).executeTrade (request client)

def lockOrder {Client : Type} [DecidableEq Client] (db : Database) (userId : Uuid) (currency : String)
    (history : List (Client × Statement)) : List Client :=
  entryOrder (fun _ (op : sql.Op) => locksAccount db userId currency op = true) history

section Serial
variable {Client : Type} {server : Server Client} {db : Database}
  {service : Client → TradingService} {request : Client → TradeRequest} {userId : Uuid} {currency : String}

theorem requests_sectioned (user : ∀ client, (request client).userId = userId)
    (quote : ∀ client, (request client).quoteCurrency = currency)
    (distinct : ∀ client other, other ≠ client →
      (request other).idempotencyKey ≠ (request client).idempotencyKey) :
    Sectioned server.engine (requests service request)
      (fun _ op => locksAccount db userId currency op = true)
      (fun client => Untouched db (request client).idempotencyKey) where
  outside client := Or.inl (executeTrade_calm userId currency (user client) (quote client))
  stable client other _ different untouched _ :=
    executeTrade_untouched (distinct client other different) untouched

theorem account_lock (server : Server Client) (db : Database) (userId : Uuid) (currency : String) :
    ∃ lock, ∀ (client : Client) (turn : Nat) (op : Statement) (key : String) (now : Database),
      Untouched db key now → locksAccount db userId currency op = true →
        lock ∈ server.engine.locks op now ∧ ∃ answer, server.engine.exec client turn op now = .ok answer := by
  cases chosen : (db .accounts).find? (fun account =>
      account.userId == userId && account.currency == currency) with
  | none =>
    refine ⟨.row .accounts userId,fun client turn op key now _ locked => ?_⟩
    unfold locksAccount at locked
    split at locked
    · rw [chosen] at locked
      cases locked
    · cases locked
  | some account =>
    refine ⟨.row .accounts account.id,fun client turn op key now untouched locked => ?_⟩
    unfold locksAccount at locked
    split at locked
    · next id =>
      have named : account.id = id := by simpa [chosen] using locked
      subst named
      have held : now.has .accounts account.id = true := by
        refine Database.has_iff.mpr ⟨account,?_,rfl⟩
        rw [untouched.1]
        exact List.mem_of_find?_eq_some chosen
      refine ⟨?_,_,rfl⟩
      change Resource.row .accounts account.id ∈ Server.locks (.selectAccountForUpdate account.id) now
      rw [Server.locks,if_pos held]
      exact List.mem_singleton_self _
    · cases locked

end Serial

/-- Requests of one user in one currency are serialisable: once all have ended,
the database and every outcome are those of running them one after another in
the order in which they have locked the account. Requests that never got there
may stand anywhere in that order, or be left out of it. -/
theorem same_account_serialisable {Client : Type} [DecidableEq Client] (server : Server Client)
    (service : Client → TradingService) (request : Client → TradeRequest) (userId : Uuid) (currency : String)
    (db : Database) (user : ∀ client, (request client).userId = userId)
    (quote : ∀ client, (request client).quoteCurrency = currency)
    (distinct : ∀ client other, other ≠ client →
      (request other).idempotencyKey ≠ (request client).idempotencyKey)
    (unused : ∀ client, ∀ order ∈ db .orders, order.idempotencyKey ≠ (request client).idempotencyKey)
    (config : Config sql Client Database Write Resource Order)
    (reached : Reachable server.engine (requests service request) db config)
    (closed : ∀ client, ∃ outcome issued, config.status client = .ended outcome issued) (order : List Client)
    (nodup : order.Nodup) (sorted : order.filter (· ∈ lockOrder db userId currency config.history) =
      lockOrder db userId currency config.history) :
    config.committed = server.engine.settled (requests service request) order db ∧
      ∀ first client rest, order = first ++ client::rest → ∃ issued, config.status client =
        .ended (server.engine.transact client (requests service request client)
          (server.engine.settled (requests service request) first db)).outcome issued := by
  have sectioned := @requests_sectioned Client server db service request userId currency user quote distinct
  have seen (client : Client) : Untouched db (request client).idempotencyKey db := ⟨rfl,unused client⟩
  obtain ⟨lock,locks⟩ := account_lock server db userId currency
  have careful := sectioned.careful seen (fun client turn op now => locks client turn op _ now) reached
  obtain ⟨finished,active,serial⟩ := sectioned.serial seen careful
  obtain ⟨committed,outcomes⟩ := serial.listing sectioned seen closed nodup sorted
  exact ⟨committed,fun first client rest split => outcomes first client rest split
    (executeTrade_calm userId currency (user client) (quote client))⟩

def sampleTwo (client : Fin 2) : TradeRequest :=
  { sampleBuy with idempotencyKey := if client = oneClient then "k1" else "k2" }

def sampleFilled (_ : Fin 2) : TradingService := ⟨fun _ => .ok sampleFill,0,fun _ _ => none⟩

/-- The second request overtakes the first before the lock, and both fills reach
the position. -/
theorem same_account_overtaken :
    ∃ config, Reachable sampleServer.engine (requests sampleFilled sampleTwo) sample config ∧
      config.committed.quantity 1 11 = 4 ∧
      config.committed = sampleServer.engine.settled (requests sampleFilled sampleTwo) [1,0] sample := by
  have scheduled : (Transaction.follow sampleServer.engine (requests sampleFilled sampleTwo)
      ([0,0,0] ++ List.replicate 28 1 ++ List.replicate 24 0) (.initial sample)).map (fun config =>
        (lockOrder sample 1 "BRL" config.history,
          (config.status 0).isEnded && (config.status 1).isEnded,config.committed.quantity 1 11)) =
        some ([1,0],true,4) := by
    decide +kernel
  obtain ⟨config,followed,facts⟩ := Option.map_eq_some_iff.mp scheduled
  obtain ⟨order,facts⟩ := Prod.mk.inj facts
  obtain ⟨ended,quantity⟩ := Prod.mk.inj facts
  have reached := Transaction.follow_reachable .refl followed
  have closed (client : Fin 2) : ∃ outcome issued, config.status client = .ended outcome issued := by
    rw [Bool.and_eq_true] at ended
    match client with
    | 0 => exact Transaction.Status.isEnded_iff.mp ended.1
    | 1 => exact Transaction.Status.isEnded_iff.mp ended.2
  refine ⟨config,reached,quantity,(same_account_serialisable sampleServer sampleFilled sampleTwo 1 "BRL" sample
    (fun _ => rfl) (fun _ => rfl) (by decide) (fun _ order member => (by cases member)) config reached closed [1,0]
    (by decide) ?_).1⟩
  rw [order]
  decide

end CryptoBrokerage
