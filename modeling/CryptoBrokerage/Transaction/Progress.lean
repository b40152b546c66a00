import CryptoBrokerage.Transaction.Protocol
import Mathlib.Logic.Hydra
import Mathlib.Data.Fintype.Defs
import Mathlib.Order.WellFounded

/-! Progress of interleaved transactions. Where every transaction takes its
resources in the order of a rank, some transaction can always move; and every
run is finite, so it can always be continued until all transactions have ended. -/
namespace CryptoBrokerage.Transaction

variable {S : Signature} {Client Db Write Resource α : Type}

def Session.Needs (E : Engine S Client Db Write Resource) (session : Session S Write Resource α) (committed : Db)
    (needed : Resource) : Prop :=
  ∃ op next, session.program = .call op next ∧ needed ∈ E.locks op (E.visible committed session.writes)

def Session.Ascending {Rank : Type} [LT Rank] (E : Engine S Client Db Write Resource) (rank : Resource → Rank)
    (session : Session S Write Resource α) (committed : Db) : Prop :=
  ∀ needed, session.Needs E committed needed →
    needed ∈ session.held ∨ ∀ resource ∈ session.held, rank resource < rank needed

section Waiting
variable [DecidableEq Client] {E : Engine S Client Db Write Resource} {programs : Client → Program S α}
  {config : Config S Client Db Write Resource α} {client other : Client} {session theirs : Session S Write Resource α}

def Moves (E : Engine S Client Db Write Resource) (programs : Client → Program S α)
    (config : Config S Client Db Write Resource α) (client : Client) : Prop :=
  ∃ label after, Step E programs config label after ∧ label.client = client

omit [DecidableEq Client] in
theorem Status.held_running {status : Status S Write Resource α} {resource : Resource}
    (held : resource ∈ status.held) : ∃ session, status = .running session ∧ resource ∈ session.held := by
  cases status with
  | running session => exact ⟨session,rfl,held⟩
  | ready => cases held
  | ended outcome issued => cases held

/-- A client that cannot move waits for a resource of another open transaction. -/
theorem waits (unended : (config.status client).isEnded = false) (stands : ¬Moves E programs config client) :
    ∃ session other theirs needed, config.status client = .running session ∧ other ≠ client ∧
      config.status other = .running theirs ∧ session.Needs E config.committed needed ∧ needed ∈ theirs.held := by
  cases status : config.status client with
  | ready => exact absurd ⟨_,_,.start config client status,rfl⟩ stands
  | ended outcome issued => simp [status,Status.isEnded] at unended
  | running session =>
    cases program : session.program with
    | done outcome =>
      cases outcome with
      | ok value => exact absurd ⟨_,_,.commit config client session value status program,rfl⟩ stands
      | error error => exact absurd ⟨_,_,.rollback config client session error status program,rfl⟩ stands
    | call op next =>
      by_cases free : config.Free client (E.locks op (E.visible config.committed session.writes))
      · exact absurd ⟨_,_,.issue config client session op next status program free,rfl⟩ stands
      · simp only [Config.Free,not_forall,not_not] at free
        obtain ⟨other,different,needed,locked,held⟩ := free
        obtain ⟨theirs,running,held⟩ := Status.held_running held
        exact ⟨session,other,theirs,needed,rfl,different,running,⟨op,next,program,locked⟩,held⟩

omit [DecidableEq Client] in
/-- Whoever holds a resource and waits for another one waits for one of a higher rank. -/
theorem Session.Ascending.climbs {Rank : Type} [LT Rank] {rank : Resource → Rank}
    (ascending : session.Ascending E rank config.committed) (exclusive : Exclusive config)
    (running : config.status client = .running session) (different : other ≠ client)
    (others : config.status other = .running theirs) {held needed : Resource} (own : held ∈ session.held)
    (needs : session.Needs E config.committed needed) (taken : needed ∈ theirs.held) : rank held < rank needed := by
  rcases ascending needed needs with mine | above
  · exact absurd taken (exclusive client other different session theirs running others needed mine)
  · exact above held own

/-- Of the open transactions some can move. The induction follows the chain of
waiting clients, along which the ranks rise. -/
theorem exists_moves {Rank : Type} [Preorder Rank] [WellFoundedGT Rank] {rank : Resource → Rank}
    (exclusive : Exclusive config)
    (ascending : ∀ client session, config.status client = .running session →
      session.Ascending E rank config.committed)
    (unended : (config.status client).isEnded = false) : ∃ other, Moves E programs config other := by
  have holder (resource : Resource) : ∀ client session, config.status client = .running session →
      resource ∈ session.held → ∃ other, Moves E programs config other := by
    induction resource using (InvImage.wf rank (wellFounded_gt (α := Rank))).induction with
    | _ resource ih =>
      intro client session running held
      by_contra still
      have stands : ¬Moves E programs config client := fun moves => still ⟨client,moves⟩
      have alive : (config.status client).isEnded = false := by rw [running]; rfl
      obtain ⟨mine,other,theirs,needed,same,different,others,needs,taken⟩ := waits alive stands
      obtain rfl : session = mine := by simpa [running] using same
      have higher := (ascending client session running).climbs exclusive running different others held needs taken
      exact still (ih needed higher other theirs others taken)
  by_contra still
  have stands : ¬Moves E programs config client := fun moves => still ⟨client,moves⟩
  obtain ⟨_,other,theirs,needed,_,_,others,_,taken⟩ := waits unended stands
  exact still (holder needed other theirs others taken)

end Waiting

section Order
variable {Rank : Type} [LT Rank] (rank : Resource → Rank) (needs : S.Op → List Resource)
  (takes : (op : S.Op) → S.Reply op → List Resource)

/-- The protocol of a transaction that takes its resources in the order of a
rank. `takes` tells from a reply what the statement has taken. -/
def ranked (Client : Type) : Protocol S Client (List Resource) where
  start _ := []
  allowed _ held op := ∀ needed ∈ needs op, needed ∈ held ∨ ∀ resource ∈ held, rank resource < rank needed
  after _ held op reply :=
    match reply with
    | .ok value => held ++ takes op value
    | .error _ => held

variable {E : Engine S Client Db Write Resource} {rank needs takes}

theorem ranked_guarantee (programs : Client → Program S α)
    (taken : ∀ client turn op db reply writes, E.exec client turn op db = .ok (reply,writes) →
      E.locks op db = takes op reply) :
    Guarantee E (ranked rank needs takes Client) programs (fun _ => True) (fun _ => True)
      (fun _ held session _ => session.held = held) where
  start _ _ _ := rfl
  sees _ _ _ _ _ _ := trivial
  answered client held session committed op rest reply writes _ same _ answered _ := by
    change session.held ++ E.locks op (E.visible committed session.writes) = held ++ takes op reply
    rw [same,taken client _ op _ reply writes answered]
  failed _ _ _ _ _ _ _ _ same _ _ := same
  commit _ _ _ _ _ _ := trivial
  rely _ _ _ _ _ _ _ _ _ same _ _ := same

theorem Reachable.ascending [DecidableEq Client] {programs : Client → Program S α}
    (taken : ∀ client turn op db reply writes, E.exec client turn op db = .ok (reply,writes) →
      E.locks op db = takes op reply)
    (covered : ∀ op db, E.locks op db ⊆ needs op)
    (obeys : ∀ client, (programs client).Obeys E (fun _ => True) (ranked rank needs takes Client) client []
      (fun _ _ => True))
    {db : Db} {config : Config S Client Db Write Resource α} (reached : Reachable E programs db config)
    {client : Client} {session : Session S Write Resource α} (running : config.status client = .running session) :
    session.Ascending E rank config.committed := by
  have kept := (ranked_guarantee programs taken).reachable obeys trivial reached
  obtain ⟨held,same,program⟩ := kept.2 client session running
  rintro needed ⟨op,next,call,locked⟩
  rw [call,Program.obeys_call] at program
  rw [show session.held = held from same]
  exact program.1 needed (covered op _ locked)

end Order

section Termination

inductive Status.Next (start : Program S α) : Status S Write Resource α → Status S Write Resource α → Prop
  | start : Next start (.running ⟨start,[],[],[]⟩) .ready
  | issue (session later : Session S Write Resource α) (op : S.Op) (next : Except S.Error (S.Reply op) → Program S α)
      (reply : Except S.Error (S.Reply op)) (sent : session.program = .call op next)
      (rest : later.program = next reply) : Next start (.running later) (.running session)
  | finish (session : Session S Write Resource α) (outcome : Except S.Error α) :
      Next start (.ended outcome session.issued) (.running session)

theorem Status.Next.wellFounded (start : Program S α) :
    WellFounded (@Status.Next S Write Resource α start) := by
  have ended (outcome : Except S.Error α) (issued : List S.Op) :
      Acc (@Status.Next S Write Resource α start) (.ended outcome issued) :=
    ⟨_,fun later next => by cases next⟩
  have running (program : Program S α) (session : Session S Write Resource α) (same : session.program = program) :
      Acc (Status.Next start) (.running session) := by
    induction program generalizing session with
    | done outcome =>
      refine ⟨_,fun later next => ?_⟩
      cases next with
      | issue _ later op next reply sent rest =>
        rw [same] at sent
        cases sent
      | finish _ outcome => exact ended _ _
    | call op next ih =>
      refine ⟨_,fun later step => ?_⟩
      cases step with
      | issue _ later other rest reply sent same' =>
        rw [same] at sent
        cases sent
        exact ih reply later same'
      | finish _ outcome => exact ended _ _
  refine ⟨fun status => ?_⟩
  cases status with
  | ready =>
    refine ⟨_,fun later next => ?_⟩
    cases next
    exact running start _ rfl
  | running session => exact running session.program session rfl
  | ended outcome issued => exact ended outcome issued

variable [DecidableEq Client] {E : Engine S Client Db Write Resource} {programs : Client → Program S α}
  {before after : Config S Client Db Write Resource α} {label : Label S Client}

theorem Step.next (step : Step E programs before label after) :
    Status.Next (programs label.client) (after.status label.client) (before.status label.client) := by
  cases step with
  | start client idle =>
    change Status.Next (programs client) ((before.set client _).status client) (before.status client)
    rw [Config.set_self,idle]
    exact .start
  | issue client session op next opened sent free =>
    change Status.Next (programs client) ((before.set client _).status client) (before.status client)
    rw [Config.set_self,opened]
    unfold Engine.proceed
    split
    · exact .issue session _ op next _ sent rfl
    · exact .issue session _ op next _ sent rfl
  | commit client session value opened returned =>
    change Status.Next (programs client) ((before.set client _).status client) (before.status client)
    rw [Config.set_self,opened]
    exact .finish session _
  | rollback client session error opened raised =>
    change Status.Next (programs client) ((before.set client _).status client) (before.status client)
    rw [Config.set_self,opened]
    exact .finish session _

variable [Fintype Client]

def Config.statuses (config : Config S Client Db Write Resource α) : Multiset (Client × Status S Write Resource α) :=
  Finset.univ.val.map fun client => (client,config.status client)

def Lower (programs : Client → Program S α) (later earlier : Client × Status S Write Resource α) : Prop :=
  later.1 = earlier.1 ∧ Status.Next (programs earlier.1) later.2 earlier.2

omit [DecidableEq Client] [Fintype Client] in
theorem Lower.wellFounded (programs : Client → Program S α) :
    WellFounded (@Lower S Client Write Resource α programs) := by
  refine ⟨fun pair => ?_⟩
  obtain ⟨client,status⟩ := pair
  induction status using (Status.Next.wellFounded (programs client)).induction with
  | _ status ih =>
    refine ⟨_,fun later lower => ?_⟩
    obtain ⟨other,next⟩ := later
    obtain ⟨rfl,below⟩ : other = client ∧ Status.Next (programs client) next status := lower
    exact ih next below

theorem Step.lowers (step : Step E programs before label after) :
    Relation.CutExpand (Lower programs) after.statuses before.statuses := by
  have parts : (Finset.univ : Finset Client).val =
      label.client ::ₘ (Finset.univ.erase label.client).val := by
    rw [Finset.erase_val,Multiset.cons_erase (Finset.mem_univ label.client)]
  have same : (Finset.univ.erase label.client).val.map (fun client => (client,after.status client)) =
      (Finset.univ.erase label.client).val.map (fun client => (client,before.status client)) := by
    refine Multiset.map_congr rfl fun client member => ?_
    rw [step.others (Finset.ne_of_mem_erase member)]
  refine ⟨{(label.client,after.status label.client)},(label.client,before.status label.client),?_,?_⟩
  · intro later member
    rw [Multiset.mem_singleton.mp member]
    exact ⟨rfl,step.next⟩
  · unfold Config.statuses
    rw [parts,Multiset.map_cons,Multiset.map_cons,same,Multiset.add_comm,Multiset.singleton_add,Multiset.cons_swap,
      ← Multiset.singleton_add,Multiset.add_comm]

theorem step_wellFounded : WellFounded fun after before : Config S Client Db Write Resource α =>
    ∃ label, Step E programs before label after :=
  Subrelation.wf (fun ⟨_,step⟩ => step.lowers)
    (InvImage.wf Config.statuses (Lower.wellFounded programs).cutExpand)

/-- Where some client can move until all have ended, a run can be continued to
the end of all. -/
theorem exists_completion (Inv : Config S Client Db Write Resource α → Prop)
    (kept : ∀ before label after, Inv before → Step E programs before label after → Inv after)
    (progress : ∀ config, Inv config → ∀ client, (config.status client).isEnded = false →
      ∃ other, Moves E programs config other)
    {config : Config S Client Db Write Resource α} (holds : Inv config) :
    ∃ last, Runs E programs (fun _ _ => True) config last ∧ ∀ client, (last.status client).isEnded = true := by
  have founded : WellFounded fun after before : Config S Client Db Write Resource α =>
      ∃ label, Step E programs before label after := step_wellFounded
  induction config using founded.induction with
  | _ config ih =>
    by_cases ended : ∀ client, (config.status client).isEnded = true
    · exact ⟨config,.refl,ended⟩
    · simp only [not_forall,Bool.not_eq_true] at ended
      obtain ⟨client,unended⟩ := ended
      obtain ⟨_,label,after,step,_⟩ := progress config holds client unended
      obtain ⟨last,runs,finished⟩ := ih after ⟨label,step⟩ (kept _ _ _ holds step)
      exact ⟨last,.head ⟨label,step,trivial⟩ runs,finished⟩

end Termination

end CryptoBrokerage.Transaction
