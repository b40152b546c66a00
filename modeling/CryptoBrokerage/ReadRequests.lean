import CryptoBrokerage.StandingBooks
import CryptoBrokerage.Transaction.Readers

/-! The requests that only read. Nobody notices them, they wait for nobody, and what
they are answered with are the rows of their own user. -/
namespace CryptoBrokerage
open Transaction
open DecimalContext (rounded)

def Call.reads : Call → Bool
  | .login _ _ => true
  | .getMe => true
  | .user _ call => call.reads
  | _ => false

section Quiet
variable {Client : Type} {server : Server Client}

theorem looks_quiet {op : Statement} (look : Looks op) : server.engine.Quiet op := by
  intro client turn db
  refine ⟨?_,fun reply writes answered => ?_⟩
  · cases op with
    | insert t row => exact look.elim
    | update t id set => exact look.elim
    | selectAccountForUpdate id => exact look.elim
    | _ => rfl
  · have written := Server.exec_writes answered
    cases op with
    | insert t row => exact look.elim
    | update t id set => exact look.elim
    | _ => exact written

theorem handle_quiet (platform : Platform) (moment : Moment) {call : Call} (reads : call.reads = true) :
    (platform.handle moment call).Only server.engine.Quiet := by
  have quiet (op : Statement) (look : Looks op) : server.engine.Quiet op := looks_quiet look
  cases call with
  | login username password => exact only_map _ (login_looks quiet ..)
  | getMe => trivial
  | user token call =>
    exact Program.Only.bind (getCurrentUser_looks quiet ..) fun currentUser =>
      answer_looks quiet platform moment currentUser reads
  | _ => cases reads

end Quiet

/-- Requests that only read are noticed by no other request: whatever a run of
requests reaches, it reaches without them, or with other ones in their place. And
each can come to its end at once, whoever is in the middle of a transaction, with
the answer or the error that it has alone on what is committed. -/
theorem reads_unnoticed {Client : Type} [DecidableEq Client] (server : Server Client) (platform : Platform)
    (moment : Client → Moment) (call : Client → Call) (db : Database)
    (config : Config sql Client Database Write Resource Response)
    (reached : Reachable server.engine (platform.requests moment call) db config) :
    (∀ (reading : Client → Bool) (moment' : Client → Moment) (call' : Client → Call),
      (∀ client, reading client = true → (call client).reads = true) →
      (∀ client, reading client = false → moment' client = moment client ∧ call' client = call client) →
      ∃ mirror, Reachable server.engine (platform.requests moment' call') db mirror ∧
        mirror.committed = config.committed ∧ (mirror.history = config.history.filter fun sent => !reading sent.1) ∧
        (∀ client, reading client = false → mirror.status client = config.status client) ∧
        ∀ client, reading client = true → mirror.status client = .ready) ∧
    ∀ client, (call client).reads = true → config.status client = .ready →
      ∃ last, Runs server.engine (platform.requests moment call) (fun _ label => label.client = client) config last ∧
        last.committed = config.committed ∧ (∀ other, other ≠ client → last.status other = config.status other) ∧
        ∃ issued, last.status client = .ended
          (server.engine.transact client (platform.handle (moment client) (call client)) config.committed).outcome issued := by
  constructor
  · intro reading moment' call' reads same
    obtain ⟨mirror,there,without⟩ := Reachable.without
      (fun client reading => handle_quiet platform (moment client) (reads client reading))
      (fun client other => Platform.requests_congr (same client other)) reached
    exact ⟨mirror,there,without.committed,without.history,without.others,without.idle⟩
  · intro client reads ready
    exact answers_at_once (handle_quiet platform (moment client) reads) ready

def unstarted (status : Status sql Write Resource Response) : Bool :=
  match status with
  | .ready => true
  | _ => false

def sampleLooks (client : Fin 2) : Call :=
  if client = oneClient then sampleCalls oneClient else .user "ana" .listAccounts

/-- The order is placed in the same way whether the accounts are looked at or not. -/
theorem reads_unnoticed_pair :
    ∃ config mirror, Reachable sampleServer.engine
        (samplePlatform.requests (sampleMoment fun _ => .ok sampleOpen) sampleLooks) sample config ∧
      Reachable sampleServer.engine (samplePlatform.requests (sampleMoment fun _ => .ok sampleOpen) sampleCalls)
        sample mirror ∧
      (config.committed .orders).length = 1 ∧ mirror.committed = config.committed ∧
      unstarted (config.status 1) = false ∧ mirror.status 1 = .ready := by
  have scheduled : (follow sampleServer.engine
      (samplePlatform.requests (sampleMoment fun _ => .ok sampleOpen) sampleLooks)
      ([0,0,0,0,1,1,1] ++ List.replicate 10 0) (.initial sample)).map (fun config =>
        ((config.committed .orders).length,unstarted (config.status 1))) = some (1,false) := by
    decide +kernel
  obtain ⟨config,followed,stands⟩ := Option.map_eq_some_iff.mp scheduled
  obtain ⟨placed,looking⟩ := Prod.mk.inj stands
  have reached := follow_reachable .refl followed
  have first : ∀ client : Fin 2, (client == 1) = false → client = 0 := by decide
  obtain ⟨mirror,there,same,_,_,idle⟩ := (reads_unnoticed sampleServer samplePlatform
    (sampleMoment fun _ => .ok sampleOpen) sampleLooks sample config reached).1 (fun client => client == 1)
    (sampleMoment fun _ => .ok sampleOpen) sampleCalls (by decide) (fun client other => by
      rw [first client other]
      exact ⟨rfl,rfl⟩)
  exact ⟨config,mirror,reached,there,placed,same,looking,idle 1 rfl⟩

def AccountRead.account (read : AccountRead) : Account :=
  ⟨read.id,read.userId,read.currency,read.accountType⟩

section Answers
variable (Saw : Database → Prop)

end Answers

section Yields
variable {Client : Type} {server : Server Client} {client : Client} {Saw : Database → Prop} {turn : ℕ}

end Yields

end CryptoBrokerage
