import CryptoBrokerage.Footprint

/-! Requests never wait for each other in a circle. Each takes the resources of
the tables in one order, so some request can always move until all have ended.
The shared row locks of foreign-key checks, which are left out, are on users,
assets and a request's own orders, which no other request locks. -/
namespace CryptoBrokerage
open Transaction

section Progress
variable {Client : Type} {server : Server Client} {platform : Platform} {moment : Client → Moment}
  {call : Client → Call} {db : Database} {config : Config sql Client Database Write Resource Response}

theorem requests_ranked (client : Client) :
    (platform.requests moment call client).Obeys server.engine (fun _ => True)
      (ranked Resource.rank Statement.needs Statement.takes Client) client [] (fun _ _ => True) := by
  have keeps : (platform.requests moment call client).Obeys server.engine (fun _ => True) (footprint Client) client {}
      Unexecuted := handle_footprint platform (moment client) (call client)
  refine keeps.project Footprint.held ?_ (fun state op reply => ?_) fun _ _ _ => trivial
  · rintro state op ⟨_,ordered⟩
    exact ordered
  · cases reply <;> rfl

theorem requests_ascending [DecidableEq Client]
    (reached : Reachable server.engine (platform.requests moment call) db config) {client : Client}
    {session : Session sql Write Resource Response} (running : config.status client = .running session) :
    session.Ascending server.engine Resource.rank config.committed :=
  reached.ascending (fun _ _ _ _ _ _ answered => locks_takes answered) locks_needs requests_ranked running

theorem requests_move [DecidableEq Client] (reached : Reachable server.engine (platform.requests moment call) db config)
    {client : Client} (unended : (config.status client).isEnded = false) :
    ∃ other, Moves server.engine (platform.requests moment call) config other :=
  exists_moves reached.exclusive (fun _ _ running => requests_ascending reached running) unended

end Progress

/-- Whatever requests run at once, and however the exchange and the bank answer:
in no reachable state do the unended requests all wait, every run can be
continued until all have ended, and no run goes on forever. -/
theorem requests_complete {Client : Type} [DecidableEq Client] [Fintype Client] (server : Server Client)
    (platform : Platform) (moment : Client → Moment) (call : Client → Call) (db : Database) :
    (∀ config, Reachable server.engine (platform.requests moment call) db config →
      ((∃ client, (config.status client).isEnded = false) →
        ∃ label after, Step server.engine (platform.requests moment call) config label after) ∧
      ∃ last, Runs server.engine (platform.requests moment call) (fun _ _ => True) config last ∧
        ∀ client, (last.status client).isEnded = true) ∧
    ¬∃ run : ℕ → Config sql Client Database Write Resource Response,
      ∀ n, ∃ label, Step server.engine (platform.requests moment call) (run n) label (run (n + 1)) := by
  refine ⟨fun config reached => ⟨?_,?_⟩,?_⟩
  · rintro ⟨client,unended⟩
    obtain ⟨_,label,after,step,_⟩ := requests_move reached unended
    exact ⟨label,after,step⟩
  · exact exists_completion (Reachable _ _ db) (fun _ _ _ reached step => reached.step step)
      (fun _ reached _ unended => requests_move reached unended) reached
  · rintro ⟨run,steps⟩
    exact (wellFounded_iff_isEmpty_descending_chain.mp step_wellFounded).false ⟨run,steps⟩

/-- Two orders of one customer: while the first has the account, the second waits. -/
theorem requests_complete_pair :
    ∃ config, Reachable sampleServer.engine
        (samplePlatform.requests (sampleMoment fun _ => .ok sampleOpen) sampleCalls) sample config ∧
      advance sampleServer.engine (samplePlatform.requests (sampleMoment fun _ => .ok sampleOpen) sampleCalls)
        config 1 = none ∧ (config.status 1).isEnded = false ∧
      ∃ last, Runs sampleServer.engine (samplePlatform.requests (sampleMoment fun _ => .ok sampleOpen) sampleCalls)
        (fun _ _ => True) config last ∧ ∀ client, (last.status client).isEnded = true := by
  have scheduled : (follow sampleServer.engine
      (samplePlatform.requests (sampleMoment fun _ => .ok sampleOpen) sampleCalls) [0,0,0,0,1,1,1]
      (.initial sample)).map (fun config =>
        ((advance sampleServer.engine (samplePlatform.requests (sampleMoment fun _ => .ok sampleOpen) sampleCalls)
          config 1).isNone,(config.status 1).isEnded)) = some (true,false) := by
    decide +kernel
  obtain ⟨config,followed,stands⟩ := Option.map_eq_some_iff.mp scheduled
  obtain ⟨waiting,unended⟩ := Prod.mk.inj stands
  have reached := follow_reachable .refl followed
  exact ⟨config,reached,Option.isNone_iff_eq_none.mp waiting,unended,
    (((requests_complete sampleServer samplePlatform (sampleMoment fun _ => .ok sampleOpen) sampleCalls sample).1
      config reached).2)⟩

end CryptoBrokerage
