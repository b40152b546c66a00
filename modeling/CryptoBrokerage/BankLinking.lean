import CryptoBrokerage.OnboardingService
import CryptoBrokerage.TradingService

/-! The linking of bank accounts over every interleaving of requests. The lookup
of the pair is a race, and no unique index decides it. -/
namespace CryptoBrokerage
open Transaction (Program Engine Protocol Session Status Config Label Step Runs Reachable Guarantee Kept)

def BankAccount.pair (row : BankAccount) : Uuid × String := (row.userId,row.externalReference)

def BankAccountLink.pair (request : BankAccountLink) : Uuid × String := (request.userId,request.externalReference)

def LinkedOnce (db : Database) : Prop := ((db .bankAccounts).map BankAccount.pair).Nodup

def Linked (request : BankAccountLink) (db : Database) : Prop := ∃ row ∈ db .bankAccounts, row.pair = request.pair

def links {Client : Type} (request : Client → BankAccountLink) (client : Client) : Action BankAccountLinkResult :=
  OnboardingService.linkBankAccount (request client)

def linking {Client : Type} (request : Client → BankAccountLink) : Protocol sql Client (Option BankAccount) where
  start _ := none
  allowed client state op :=
    match op with
    | .insert .bankAccounts row => state = none ∧ row.pair = (request client).pair
    | .insert _ _ => False
    | .update _ _ _ => False
    | _ => True
  after _ state op reply :=
    match op, reply with
    | .insert .bankAccounts row, .ok _ => some row
    | _, _ => state

def Linking {Client α : Type} (request : Client → BankAccountLink) (client : Client) (state : Option BankAccount)
    (session : Session sql Write Resource α) : Prop :=
  session.writes = state.toList.map (fun row => .insert .bankAccounts row) ∧
    ∀ row ∈ state, row.pair = (request client).pair

section Writes
variable {Client : Type} {server : Server Client} {request : Client → BankAccountLink}

theorem linkBankAccount_obeys (client : Client) :
    (links request client).Obeys server.engine (fun _ => True) (linking request) client none (fun _ _ => True) := by
  change Program.Obeys _ _ _ _ (send (.selectBankAccount (request client).userId
    (request client).externalReference) >>= fun found => _) _ _
  rw [Program.obeys_bind,Program.obeys_perform]
  refine ⟨trivial,fun reply _ => ?_⟩
  match reply with
  | .error error => trivial
  | .ok (some existing) => trivial
  | .ok none =>
    change Program.Obeys _ _ _ _ (BaseRepository.add .bankAccounts _ >>= fun row => pure _) _ _
    rw [Program.obeys_bind]
    have added := @add_moves _ _ server (linking request) client none .bankAccounts
      (fun id => ⟨id,(request client).userId,(request client).externalReference,(request client).bankName,.active⟩)
      (fun id => some ⟨id,(request client).userId,(request client).externalReference,(request client).bankName,.active⟩)
      trivial (fun _ => rfl) (fun _ => ⟨rfl,rfl⟩) (fun _ => rfl) (fun _ => trivial) (fun _ _ => rfl)
    apply added.weaken
    intro outcome last _
    cases outcome <;> trivial

theorem linking_guarantee {α : Type} [DecidableEq Client] (programs : Client → Action α) :
    Guarantee server.engine (linking request) programs (fun _ => True) (fun _ => True)
      fun client state session _ => Linking request client state session where
  start _ _ _ := ⟨rfl,fun _ same => (by cases same)⟩
  sees _ _ _ _ _ _ := trivial
  answered client state session committed op rest reply writes _ holds permitted answered _ := by
    have written := @Server.exec_writes _ server client session.issued.length op _ _ _ answered
    have unwritten (nothing : writes = []) (still : (linking request).after client state op (.ok reply) = state)
        (held : List Resource) : Linking request client ((linking request).after client state op (.ok reply))
          (⟨rest,session.writes ++ writes,held,session.issued ++ [op]⟩ : Session sql Write Resource α) := by
      subst writes
      rw [still]
      exact ⟨(List.append_nil _).trans holds.1,holds.2⟩
    cases op with
    | update t id set => exact permitted.elim
    | insert t row =>
      cases t with
      | bankAccounts =>
        obtain ⟨rfl,own⟩ := permitted
        obtain ⟨stored,ok,_,rfl⟩ := written
        cases ok
        apply And.intro
        · exact congrArg (· ++ _) holds.1
        · intro other same
          cases same
          exact own
      | _ => exact permitted.elim
    | _ => exact unwritten written rfl _
  failed client state session committed op rest error _ holds _ _ := by
    have still : (linking request).after client state op (.error error) = state := by
      cases op with
      | insert t row => cases t <;> rfl
      | _ => rfl
    rw [still]
    exact holds
  commit _ _ _ _ _ _ := trivial
  rely _ _ _ _ _ _ _ _ _ holds _ _ := holds

variable [DecidableEq Client] {db : Database} {client : Client} {label : Label sql Client}
  {before after config : Config sql Client Database Write Resource BankAccountLinkResult}
  {session : Session sql Write Resource BankAccountLinkResult}

/-- What the commit of an open transaction would add. -/
theorem link_visible (reached : Reachable server.engine (links request) db config)
    (running : config.status client = .running session) :
    ∃ added : Option BankAccount, (server.engine.visible config.committed session.writes) .bankAccounts =
        config.committed .bankAccounts ++ added.toList ∧ ∀ row ∈ added, row.pair = (request client).pair := by
  have kept := (linking_guarantee (links request)).reachable linkBankAccount_obeys trivial reached
  obtain ⟨state,⟨writes,own⟩,_⟩ := kept.2 client session running
  refine ⟨state,?_,own⟩
  rw [writes]
  cases state with
  | none => simp
  | some row => exact Database.insert_self config.committed .bankAccounts row

end Writes

section Races
variable {Client : Type} [DecidableEq Client] {server : Server Client} {request : Client → BankAccountLink}
  {db : Database} {client : Client} {label : Label sql Client}
  {before after config : Config sql Client Database Write Resource BankAccountLinkResult}
  {session : Session sql Write Resource BankAccountLinkResult}

def PassedLookup (config : Config sql Client Database Write Resource BankAccountLinkResult) (client : Client) : Prop :=
  ∃ session, config.status client = .running session ∧ session.issued ≠ [] ∧
    ∀ error, session.program ≠ .done (.error error)

/-- No request commits while another one for the same pair has passed its lookup. -/
def Uncontested (request : Client → BankAccountLink)
    (config : Config sql Client Database Write Resource BankAccountLinkResult) : Label sql Client → Prop
  | .commit client => ∀ other, other ≠ client → (request other).pair = (request client).pair → ¬PassedLookup config other
  | _ => True

def alreadyLinked (request : BankAccountLink) : Except Exception BankAccountLinkResult :=
  .error (OnboardingService.bankAccountAlreadyLinked request.externalReference)

def lookup (request : BankAccountLink) : Statement := .selectBankAccount request.userId request.externalReference

omit [DecidableEq Client] in
theorem links_opening (client : Client) : ∃ next, links request client = .call (lookup (request client)) next ∧
    (∀ row, next (.ok (some row)) = .done (alreadyLinked (request client))) ∧
    ∀ reply, (next reply).Only (fun op => ∀ other, op ≠ lookup other) := by
  refine ⟨_,rfl,fun _ => rfl,fun reply => ?_⟩
  match reply with
  | .error error => trivial
  | .ok (some row) => trivial
  | .ok none =>
    change Program.Only _ (BaseRepository.add .bankAccounts _ >>= fun row => pure _)
    refine Program.Only.bind ?_ fun _ => trivial
    apply add_sends <;> simp [lookup]

omit [DecidableEq Client] in
theorem exec_lookup (turn : Nat) (db : Database) (request : BankAccountLink) :
    ∃ found, server.exec client turn (lookup request) db = .ok (found,[]) ∧ (found = none ↔ ¬Linked request db) := by
  refine ⟨_,rfl,List.find?_eq_none.trans ?_⟩
  simp [Linked,BankAccount.pair,BankAccountLink.pair]

theorem Linked.visible (reached : Reachable server.engine (links request) db config)
    (running : config.status client = .running session) {other : BankAccountLink}
    (linked : Linked other (server.engine.visible config.committed session.writes)) :
    Linked other config.committed ∨ other.pair = (request client).pair := by
  obtain ⟨row,member,named⟩ := linked
  obtain ⟨added,visible,own⟩ := link_visible reached running
  rw [visible] at member
  rcases List.mem_append.mp member with old | new
  · exact Or.inl ⟨row,old,named⟩
  · apply Or.inr
    rw [← named]
    exact own row (by simpa using new)

omit [DecidableEq Client] in
/-- A request whose lookup has not found the pair, at the step that sent it. -/
theorem lookup_unlinked {op : Statement} {next : Except Exception op.Reply → Action BankAccountLinkResult}
    (call : links request client = .call op next) (unfailed : ∀ error, (server.engine.proceed client config.committed
      ⟨links request client,[],[],[]⟩ op next).program ≠ .done (.error error)) :
    ¬Linked (request client) config.committed := by
  obtain ⟨later,opening,refuses,_⟩ := @links_opening Client request client
  cases opening.symm.trans call
  obtain ⟨found,answered,free⟩ := @exec_lookup Client server client 0 config.committed (request client)
  rw [Engine.proceed_ok _ _ answered] at unfailed
  apply free.mp
  match found with
  | none => rfl
  | some row => exact absurd (refuses row) (unfailed _)

theorem passedLookup_step (reached : Reachable server.engine (links request) db before)
    (step : Step server.engine (links request) before label after) (careful : Uncontested request before label)
    (unlinked : ∀ client, PassedLookup before client → ¬Linked (request client) before.committed)
    (passed : PassedLookup after client) :
    ¬Linked (request client) after.committed := by
  obtain ⟨session,running,sent,unfailed⟩ := passed
  rcases step.running running with same | rfl | ⟨op,next,earlier,rfl,opened,call,rfl⟩
  · have passed : PassedLookup before client := ⟨session,same,sent,unfailed⟩
    intro linked
    cases step with
    | commit other theirs value opened returned =>
      have different : client ≠ other := by
        rintro rfl
        cases (Config.set_self before client _).symm.trans running
      rcases Linked.visible reached opened linked with old | shared
      · exact unlinked client passed old
      · exact careful client different shared passed
    | _ => exact unlinked client passed linked
  · exact absurd rfl sent
  · rw [step.kept (by simp)]
    by_cases first : earlier.issued = []
    · obtain rfl := reached.unsent opened first
      exact lookup_unlinked call unfailed
    · apply unlinked client
      refine ⟨earlier,opened,first,?_⟩
      simp [call]

theorem passedLookup_of_returned (reached : Reachable server.engine (links request) db config)
    (running : config.status client = .running session) {value : BankAccountLinkResult}
    (returned : session.program = .done (.ok value)) : PassedLookup config client := by
  refine ⟨session,running,?_,by simp [returned]⟩
  intro unsent
  obtain rfl := reached.unsent running unsent
  obtain ⟨next,opening,_⟩ := @links_opening Client request client
  cases opening.symm.trans returned

theorem linkedOnce_step (reached : Reachable server.engine (links request) db before)
    (step : Step server.engine (links request) before label after)
    (unlinked : ∀ client, PassedLookup before client → ¬Linked (request client) before.committed)
    (once : LinkedOnce before.committed) : LinkedOnce after.committed := by
  cases step with
  | commit client session value opened returned =>
    obtain ⟨added,visible,own⟩ := link_visible reached opened
    have free := unlinked client (passedLookup_of_returned reached opened returned)
    change ((server.engine.visible before.committed session.writes .bankAccounts).map BankAccount.pair).Nodup
    rw [visible]
    match added with
    | none => simpa [LinkedOnce] using once
    | some row =>
      rw [List.map_append,List.nodup_append]
      refine ⟨once,by simp,?_⟩
      intro pair inside last member same
      obtain ⟨old,stored,rfl⟩ := List.mem_map.mp inside
      apply free
      refine ⟨old,stored,?_⟩
      rw [same,← own row rfl]
      simpa using member
  | _ => exact once

theorem uncontested_once (once : LinkedOnce db)
    (runs : Runs server.engine (links request) (Uncontested request) (.initial db) config) :
    LinkedOnce config.committed := by
  have kept := runs.invariant (fun config => Reachable server.engine (links request) db config ∧
    (∀ client, PassedLookup config client → ¬Linked (request client) config.committed) ∧ LinkedOnce config.committed)
    ⟨.refl,by simp [PassedLookup,Config.initial],once⟩ ?_
  · exact kept.2.2
  · intro before label after known step careful
    obtain ⟨reached,unlinked,once⟩ := known
    exact ⟨reached.step step,fun client => passedLookup_step reached step careful unlinked,
      linkedOnce_step reached step unlinked once⟩

/-- The request raises BankAccountAlreadyLinkedError and writes nothing: it has
ended so, or all that is left of it is to raise, and no step of it changes the
committed state. -/
def Refused (server : Server Client) (request : Client → BankAccountLink) (client : Client)
    (config : Config sql Client Database Write Resource BankAccountLinkResult) : Prop :=
  ((∃ session, config.status client = .running session ∧ session.program = .done (alreadyLinked (request client))) ∨
    ∃ issued, config.status client = .ended (alreadyLinked (request client)) issued) ∧
  ∀ label after, Step server.engine (links request) config label after → label.client = client →
    after.committed = config.committed

theorem linked_refused (reached : Reachable server.engine (links request) db before)
    (step : Step server.engine (links request) before (.issue client (lookup (request client))) after)
    (linked : Linked (request client) before.committed) {later : Config sql Client Database Write Resource
      BankAccountLinkResult} (runs : Runs server.engine (links request) (fun _ _ => True) after later) :
    Refused server request client later := by
  obtain ⟨session,running,refused⟩ : ∃ session, after.status client = .running session ∧
      session.program = .done (alreadyLinked (request client)) := by
    obtain ⟨next,opening,refuses,only⟩ := @links_opening Client request client
    cases step with
    | issue other session op following opened call free =>
      refine ⟨_,Config.set_self before client _,?_⟩
      rcases reached.first opening only opened with rfl | later
      · cases opening.symm.trans call
        obtain ⟨found,answered,free⟩ := @exec_lookup Client server client 0 before.committed (request client)
        rw [Engine.proceed_ok _ _ answered]
        match found with
        | none => exact absurd linked (free.mp rfl)
        | some row => exact refuses row
      · rw [call] at later
        exact absurd rfl (later.1 (request client))
  have standing := runs.finished running refused
  constructor
  · exact standing.imp (fun same => ⟨session,same,refused⟩) fun ended => ⟨_,ended⟩
  · intro label last step mine
    rcases standing with same | ended
    · exact (step.finishes mine.symm same refused).2
    · exact absurd ended (step.alive mine.symm)

/-- In every run in which no request commits while another one for its pair has
passed the lookup, a pair is linked at most once; and in every run whatsoever a
request whose lookup finds the pair is refused. -/
theorem bank_account_linked_once (server : Server Client) (request : Client → BankAccountLink) (db : Database)
    (once : LinkedOnce db) :
    (∀ config, Runs server.engine (links request) (Uncontested request) (.initial db) config →
      LinkedOnce config.committed) ∧
    ∀ client before after later, Reachable server.engine (links request) db before →
      Step server.engine (links request) before (.issue client (lookup (request client))) after →
      Linked (request client) before.committed → Runs server.engine (links request) (fun _ _ => True) after later →
      Refused server request client later := by
  constructor
  · intro config runs
    exact uncontested_once once runs
  · intro client before after later reached step linked runs
    exact linked_refused reached step linked runs

end Races

section Sample

def sampleLink (_ : Fin 2) : BankAccountLink := ⟨1,"ana@example.com","Banco do Brasil"⟩

def linkage (config : Config sql (Fin 2) Database Write Resource BankAccountLinkResult) :
    List (Uuid × String) × Bool × Bool :=
  ((config.committed .bankAccounts).map BankAccount.pair,(config.status oneClient).isEnded,
    (config.status otherClient).isCommitted)

/-- One request after another: the second one finds the pair, and does not commit. -/
theorem bank_account_linked_in_turn :
    ∃ config, Runs sampleServer.engine (links sampleLink) (Uncontested sampleLink) (.initial sample) config ∧
      linkage config = ([(1,"ana@example.com")],true,false) ∧ LinkedOnce config.committed := by
  have scheduled : ((Transaction.follow sampleServer.engine (links sampleLink) (List.replicate 6 0)
      (.initial sample)).bind fun middle => (Transaction.follow sampleServer.engine (links sampleLink)
        (List.replicate 3 1) middle).map fun config => ((middle.status 0).isEnded,linkage config)) =
      some (true,[(1,"ana@example.com")],true,false) := by
    decide +kernel
  obtain ⟨middle,first,scheduled⟩ := Option.bind_eq_some_iff.mp scheduled
  obtain ⟨config,second,facts⟩ := Option.map_eq_some_iff.mp scheduled
  obtain ⟨ended,linked⟩ := Prod.mk.inj facts
  obtain ⟨opening,still⟩ := Transaction.follow_own first
  have closing := (Transaction.follow_own second).1
  have runs : Runs sampleServer.engine (links sampleLink) (Uncontested sampleLink) (.initial sample) config := by
    apply Relation.ReflTransGen.trans (b := middle)
    · apply opening.weaken
      intro config label own
      cases label with
      | commit client =>
        intro other different _ passed
        obtain ⟨session,running,_⟩ := passed
        cases (own.2.2 other (own.1 ▸ different)).symm.trans running
      | _ => trivial
    · apply closing.weaken
      intro config label own
      cases label with
      | commit client =>
        intro other different _ passed
        obtain ⟨session,running,_⟩ := passed
        obtain rfl : client = 1 := own.1
        obtain rfl : other = 0 := by omega
        rw [← own.2.2 0 different,running] at ended
        cases ended
      | _ => trivial
  refine ⟨config,runs,linked,?_⟩
  exact (bank_account_linked_once sampleServer sampleLink sample (by simp [LinkedOnce,sample])).1 config runs

/-- Two requests that both look the pair up before either commits link it twice. -/
theorem bank_account_linked_twice :
    ∃ config, Reachable sampleServer.engine (links sampleLink) sample config ∧ LinkedOnce sample ∧
      (config.committed .bankAccounts).map BankAccount.pair = [(1,"ana@example.com"),(1,"ana@example.com")] ∧
      ¬LinkedOnce config.committed := by
  have scheduled : (Transaction.follow sampleServer.engine (links sampleLink) ([0,0,1,1] ++ [0,0,0,0] ++ [1,1,1,1])
      (.initial sample)).map linkage = some ([(1,"ana@example.com"),(1,"ana@example.com")],true,true) := by
    decide +kernel
  obtain ⟨config,followed,facts⟩ := Option.map_eq_some_iff.mp scheduled
  have pairs : (config.committed .bankAccounts).map BankAccount.pair =
      [(1,"ana@example.com"),(1,"ana@example.com")] := congrArg Prod.fst facts
  refine ⟨config,Transaction.follow_reachable .refl followed,by simp [LinkedOnce,sample],pairs,?_⟩
  unfold LinkedOnce
  rw [pairs]
  decide

end Sample

end CryptoBrokerage
