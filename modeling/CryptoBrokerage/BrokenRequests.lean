import CryptoBrokerage.LockOrder
import CryptoBrokerage.Transaction.Atomicity

/-! Requests that are broken off: the process stops, the connection to the database
is lost, or the commit fails. -/
namespace CryptoBrokerage
open Transaction

/-- However requests are broken off, what is committed and what the committed
requests were answered is as if all those that failed, and any that are not
committed, had never been sent, or others in their place; and the requests that
have not ended can all still be completed. -/
theorem requests_atomic {Client : Type} [DecidableEq Client] [Fintype Client] (server : Server Client)
    (platform : Platform) (moment : Client → Moment) (call : Client → Call) (db : Database)
    (config : Config sql Client Database Write Resource Response)
    (endures : Endures server.engine (platform.requests moment call) db config) :
    (∀ (failed : Client → Bool) (moment' : Client → Moment) (call' : Client → Call),
      (∀ client, (config.status client).isCommitted = true → failed client = false) →
      (∀ client error issued, config.status client = .ended (.error error) issued → failed client = true) →
      (∀ client, failed client = false → moment' client = moment client ∧ call' client = call client) →
      ∃ mirror, Reachable server.engine (platform.requests moment' call') db mirror ∧
        mirror.committed = config.committed ∧ (mirror.history = config.history.filter fun sent => !failed sent.1) ∧
        (∀ client, failed client = false → mirror.status client = config.status client) ∧
        ∀ client, failed client = true → mirror.status client = .ready) ∧
    ∃ last, Runs server.engine (platform.requests moment call) (fun _ _ => True) config last ∧
      ∀ client, (last.status client).isEnded = true := by
  constructor
  · intro failed moment' call' committed fails same
    obtain ⟨mirror,there,without⟩ := endures.without
      (fun client kept => Platform.requests_congr (same client kept)) ⟨committed,fails⟩
    exact ⟨mirror,there,without.committed,without.history,without.others,without.idle⟩
  · refine exists_completion (Endures _ _ db) (fun _ _ _ endures step => .tail endures (.step _ step)) ?_ endures
    intro config endures client unended
    exact endures.moves (fun _ reached _ _ running => requests_ascending reached running) unended

/-- An order that waits for another one of the customer goes through when that one
is broken off, as if it had been alone. -/
theorem requests_atomic_pair :
    ∃ config mirror, Endures sampleServer.engine
        (samplePlatform.requests (sampleMoment fun _ => .ok sampleOpen) sampleCalls) sample config ∧
      (config.committed .orders).map Order.idempotencyKey = ["k2"] ∧ (config.status 0).isEnded = true ∧
      Reachable sampleServer.engine (samplePlatform.requests (sampleMoment fun _ => .ok sampleOpen) sampleCalls)
        sample mirror ∧
      mirror.committed = config.committed ∧ mirror.status 0 = .ready := by
  have scheduled : ((follow sampleServer.engine
      (samplePlatform.requests (sampleMoment fun _ => .ok sampleOpen) sampleCalls)
      (List.replicate 11 0 ++ List.replicate 3 1) (.initial sample)).bind fun one =>
        (breakOff one 0 (.other "Connection lost.")).bind fun two => follow sampleServer.engine
          (samplePlatform.requests (sampleMoment fun _ => .ok sampleOpen) sampleCalls) (List.replicate 11 1) two).map
      (fun config => ((config.committed .orders).map Order.idempotencyKey,(config.status 0).isEnded,
        (config.status 0).isCommitted,(config.status 1).isCommitted)) = some (["k2"],true,false,true) := by
    decide +kernel
  obtain ⟨config,followed,stands⟩ := Option.map_eq_some_iff.mp scheduled
  obtain ⟨one,first,rest⟩ := Option.bind_eq_some_iff.mp followed
  obtain ⟨two,broken,last⟩ := Option.bind_eq_some_iff.mp rest
  simp only [Prod.mk.injEq] at stands
  obtain ⟨placed,ended,lost,kept⟩ := stands
  have either : ∀ client : Fin 2, client = 0 ∨ client = 1 := by decide
  have endures : Endures sampleServer.engine _ sample config :=
    Endures.runs (.tail (Endures.runs .refl (follow_runs first)) (breakOff_disturbed broken)) (follow_runs last)
  obtain ⟨mirror,there,same,_,_,idle⟩ := (requests_atomic sampleServer samplePlatform
    (sampleMoment fun _ => .ok sampleOpen) sampleCalls sample config endures).1 (fun client => client == 0)
    (sampleMoment fun _ => .ok sampleOpen) sampleCalls (fun client committed => by
      rcases either client with rfl | rfl
      · cases lost.symm.trans committed
      · rfl) (fun client error issued failed => by
      rcases either client with rfl | rfl
      · rfl
      · rw [failed] at kept
        cases kept) fun _ _ => ⟨rfl,rfl⟩
  exact ⟨config,mirror,endures,placed,ended,there,same,idle 0 rfl⟩

end CryptoBrokerage
