import CryptoBrokerage.Transaction.Engine
import Mathlib.Logic.Function.Basic
import Mathlib.Data.Fintype.Defs
import Mathlib.Logic.Relation

/-! Concurrent transactions under READ COMMITTED, interleaved statement by
statement. A statement sees what is committed when it is sent together with the
writes of its own transaction; it waits while another open transaction holds a
resource it needs, and what it needs it then holds until its transaction ends. -/
namespace CryptoBrokerage.Transaction

structure Session (S : Signature) (Write Resource α : Type) where
  program : Program S α
  writes : List Write := []
  held : List Resource := []
  issued : List S.Op := []

inductive Status (S : Signature) (Write Resource α : Type) : Type
  | ready
  | running (session : Session S Write Resource α)
  | ended (outcome : Except S.Error α) (issued : List S.Op)

def Status.held {S : Signature} {Write Resource α : Type} : Status S Write Resource α → List Resource
  | .running session => session.held
  | _ => []

def Status.isEnded {S : Signature} {Write Resource α : Type} : Status S Write Resource α → Bool
  | .ended _ _ => true
  | _ => false

def Status.isCommitted {S : Signature} {Write Resource α : Type} : Status S Write Resource α → Bool
  | .ended (.ok _) _ => true
  | _ => false

theorem Status.isEnded_iff {S : Signature} {Write Resource α : Type} {status : Status S Write Resource α} :
    status.isEnded = true ↔ ∃ outcome issued, status = .ended outcome issued := by
  cases status with
  | ended outcome issued => exact iff_of_true rfl ⟨outcome,issued,rfl⟩
  | _ =>
    refine iff_of_false Bool.false_ne_true ?_
    rintro ⟨outcome,issued,same⟩
    cases same

theorem Status.uncommitted {S : Signature} {Write Resource α : Type} {status : Status S Write Resource α}
    (unended : status.isEnded = false) : status.isCommitted = false := by
  cases status with
  | ended outcome issued => cases unended
  | _ => rfl

structure Config (S : Signature) (Client Db Write Resource α : Type) where
  committed : Db
  status : Client → Status S Write Resource α
  history : List (Client × S.Op) := []

inductive Label (S : Signature) (Client : Type) : Type
  | start (client : Client)
  | issue (client : Client) (op : S.Op)
  | commit (client : Client)
  | rollback (client : Client)

def Label.client {S : Signature} {Client : Type} : Label S Client → Client
  | .start client => client
  | .issue client _ => client
  | .commit client => client
  | .rollback client => client

namespace Engine
variable {S : Signature} {Client Db Write Resource α : Type}
variable (E : Engine S Client Db Write Resource)

def proceed (client : Client) (committed : Db) (session : Session S Write Resource α) (op : S.Op)
    (next : Except S.Error (S.Reply op) → Program S α) : Session S Write Resource α :=
  match E.exec client session.issued.length op (E.visible committed session.writes) with
  | .ok (reply,writes) =>
    ⟨next (.ok reply),session.writes ++ writes,
      session.held ++ E.locks op (E.visible committed session.writes),session.issued ++ [op]⟩
  | .error error => ⟨next (.error error),session.writes,session.held,session.issued ++ [op]⟩

theorem proceed_ok {client : Client} {committed : Db} {session : Session S Write Resource α} {op : S.Op}
    (next : Except S.Error (S.Reply op) → Program S α) {reply : S.Reply op} {writes : List Write}
    (answered : E.exec client session.issued.length op (E.visible committed session.writes) =
      .ok (reply,writes)) :
    E.proceed client committed session op next =
      ⟨next (.ok reply),session.writes ++ writes,
        session.held ++ E.locks op (E.visible committed session.writes),session.issued ++ [op]⟩ := by
  simp only [proceed,answered]

theorem proceed_error {client : Client} {committed : Db} {session : Session S Write Resource α}
    {op : S.Op} (next : Except S.Error (S.Reply op) → Program S α) {error : S.Error}
    (failed : E.exec client session.issued.length op (E.visible committed session.writes) =
      .error error) :
    E.proceed client committed session op next =
      ⟨next (.error error),session.writes,session.held,session.issued ++ [op]⟩ := by
  simp only [proceed,failed]

@[simp] theorem proceed_issued (client : Client) (committed : Db) (session : Session S Write Resource α)
    (op : S.Op) (next : Except S.Error (S.Reply op) → Program S α) :
    (E.proceed client committed session op next).issued = session.issued ++ [op] := by
  unfold proceed
  split
  · rfl
  · rfl

theorem proceed_keeps (client : Client) (committed : Db) {session : Session S Write Resource α}
    (op : S.Op) (next : Except S.Error (S.Reply op) → Program S α) {resource : Resource}
    (member : resource ∈ session.held) : resource ∈ (E.proceed client committed session op next).held := by
  unfold proceed
  split
  · exact List.mem_append_left _ member
  · exact member

theorem proceed_held (client : Client) (committed : Db) (session : Session S Write Resource α)
    (op : S.Op) (next : Except S.Error (S.Reply op) → Program S α) {resource : Resource}
    (member : resource ∈ (E.proceed client committed session op next).held) :
    resource ∈ session.held ∨ resource ∈ E.locks op (E.visible committed session.writes) := by
  unfold proceed at member
  split at member
  · exact List.mem_append.mp member
  · exact Or.inl member

end Engine

variable {S : Signature} {Client Db Write Resource α : Type} [DecidableEq Client]

namespace Config

def set (config : Config S Client Db Write Resource α) (client : Client)
    (status : Status S Write Resource α) : Config S Client Db Write Resource α :=
  { config with status := Function.update config.status client status }

@[simp] theorem set_self (config : Config S Client Db Write Resource α) (client : Client)
    (status : Status S Write Resource α) : (config.set client status).status client = status := by
  simp [set]

theorem set_other (config : Config S Client Db Write Resource α) {client other : Client}
    (status : Status S Write Resource α) (different : other ≠ client) :
    (config.set client status).status other = config.status other := by
  simp [set,different]

theorem set_running {config : Config S Client Db Write Resource α} {client other : Client}
    {status : Status S Write Resource α} {session : Session S Write Resource α}
    (running : (config.set client status).status other = .running session) :
    (other = client ∧ status = .running session) ∨
      (other ≠ client ∧ config.status other = .running session) := by
  by_cases same : other = client
  · subst other
    rw [set_self] at running
    exact Or.inl ⟨rfl,running⟩
  · rw [set_other _ _ same] at running
    exact Or.inr ⟨same,running⟩

def initial (db : Db) : Config S Client Db Write Resource α := ⟨db,fun _ => .ready,[]⟩

def Free (config : Config S Client Db Write Resource α) (client : Client)
    (needed : List Resource) : Prop :=
  ∀ other, other ≠ client → ∀ resource ∈ needed, resource ∉ (config.status other).held

omit [DecidableEq Client] in
theorem Free.session {config : Config S Client Db Write Resource α} {client other : Client}
    {needed : List Resource} (free : config.Free client needed) (different : other ≠ client)
    {session : Session S Write Resource α} (running : config.status other = .running session)
    {resource : Resource} (member : resource ∈ needed) : resource ∉ session.held := by
  have absent := free other different resource member
  rwa [running] at absent

end Config

/-- One step of one client: it opens its transaction, sends one statement, or
ends the transaction as its program has returned or raised. -/
inductive Step (E : Engine S Client Db Write Resource) (programs : Client → Program S α) :
    Config S Client Db Write Resource α → Label S Client → Config S Client Db Write Resource α → Prop
  | start (config) (client : Client) (idle : config.status client = .ready) :
      Step E programs config (.start client) (config.set client (.running ⟨programs client,[],[],[]⟩))
  | issue (config) (client : Client) (session : Session S Write Resource α) (op : S.Op)
      (next : Except S.Error (S.Reply op) → Program S α)
      (opened : config.status client = .running session) (sent : session.program = .call op next)
      (free : config.Free client (E.locks op (E.visible config.committed session.writes))) :
      Step E programs config (.issue client op)
        { config.set client (.running (E.proceed client config.committed session op next)) with
          history := config.history ++ [(client,op)] }
  | commit (config) (client : Client) (session : Session S Write Resource α) (value : α)
      (opened : config.status client = .running session) (returned : session.program = .done (.ok value)) :
      Step E programs config (.commit client)
        { config.set client (.ended (.ok value) session.issued) with
          committed := E.visible config.committed session.writes }
  | rollback (config) (client : Client) (session : Session S Write Resource α) (error : S.Error)
      (opened : config.status client = .running session)
      (raised : session.program = .done (.error error)) :
      Step E programs config (.rollback client) (config.set client (.ended (.error error) session.issued))

theorem Step.others {E : Engine S Client Db Write Resource} {programs : Client → Program S α}
    {before after : Config S Client Db Write Resource α} {label : Label S Client}
    (step : Step E programs before label after) {other : Client} (different : other ≠ label.client) :
    after.status other = before.status other := by
  cases step with
  | start client idle => exact Config.set_other _ _ different
  | issue client session op next opened sent free => exact Config.set_other _ _ different
  | commit client session value opened returned => exact Config.set_other _ _ different
  | rollback client session error opened raised => exact Config.set_other _ _ different

theorem Step.unended {E : Engine S Client Db Write Resource} {programs : Client → Program S α}
    {before after : Config S Client Db Write Resource α} {label : Label S Client}
    (step : Step E programs before label after) : (before.status label.client).isEnded = false := by
  cases step with
  | start client idle => exact congrArg Status.isEnded idle
  | issue client session op next opened sent free => exact congrArg Status.isEnded opened
  | commit client session value opened returned => exact congrArg Status.isEnded opened
  | rollback client session error opened raised => exact congrArg Status.isEnded opened

theorem Step.alive {E : Engine S Client Db Write Resource} {programs : Client → Program S α}
    {before after : Config S Client Db Write Resource α} {label : Label S Client}
    (step : Step E programs before label after) {client : Client} (mine : client = label.client)
    {outcome : Except S.Error α} {issued : List S.Op} : before.status client ≠ .ended outcome issued := by
  intro ended
  have unended := step.unended
  rw [← mine,ended] at unended
  cases unended

theorem Step.uncommitted {E : Engine S Client Db Write Resource} {programs : Client → Program S α}
    {before after : Config S Client Db Write Resource α} {label : Label S Client}
    (step : Step E programs before label after) (other : label ≠ .commit label.client) :
    (after.status label.client).isCommitted = false := by
  cases step with
  | start client idle => exact congrArg Status.isCommitted (Config.set_self before client _)
  | issue client session op next opened sent free =>
    exact congrArg Status.isCommitted (Config.set_self before client _)
  | commit client session value opened returned => exact absurd rfl other
  | rollback client session error opened raised =>
    exact congrArg Status.isCommitted (Config.set_self before client _)

theorem Step.kept {E : Engine S Client Db Write Resource} {programs : Client → Program S α}
    {before after : Config S Client Db Write Resource α} {label : Label S Client}
    (step : Step E programs before label after) (other : label ≠ .commit label.client) :
    after.committed = before.committed := by
  cases step with
  | commit client session value opened returned => exact absurd rfl other
  | _ => rfl

/-- Only a commit makes a client one that has returned. -/
theorem Step.returned_iff {E : Engine S Client Db Write Resource} {programs : Client → Program S α}
    {before after : Config S Client Db Write Resource α} {label : Label S Client}
    (step : Step E programs before label after) (other : label ≠ .commit label.client) {client : Client} {value : α}
    {issued : List S.Op} :
    after.status client = .ended (.ok value) issued ↔ before.status client = .ended (.ok value) issued := by
  by_cases mine : client = label.client
  · subst mine
    constructor
    · intro ended
      have uncommitted := step.uncommitted other
      rw [ended] at uncommitted
      cases uncommitted
    · intro ended
      exact absurd ended (step.alive rfl)
  · rw [step.others mine]

section Inversion
variable {E : Engine S Client Db Write Resource} {programs : Client → Program S α}
  {before after : Config S Client Db Write Resource α} {label : Label S Client} {client : Client}
  {session : Session S Write Resource α}

theorem Step.opens (step : Step E programs before label after) (mine : client = label.client)
    (ready : before.status client = .ready) :
    after.status client = .running ⟨programs client,[],[],[]⟩ ∧ after.committed = before.committed := by
  cases step with
  | start other idle =>
    obtain rfl : client = other := mine
    exact ⟨Config.set_self before client _,rfl⟩
  | issue other session op next opened sent free =>
    obtain rfl : client = other := mine
    cases ready.symm.trans opened
  | commit other session value opened returned =>
    obtain rfl : client = other := mine
    cases ready.symm.trans opened
  | rollback other session error opened raised =>
    obtain rfl : client = other := mine
    cases ready.symm.trans opened

theorem Step.sends (step : Step E programs before label after) (mine : client = label.client)
    (running : before.status client = .running session) {op : S.Op}
    {next : Except S.Error (S.Reply op) → Program S α} (call : session.program = .call op next) :
    label = .issue client op ∧
      after.status client = .running (E.proceed client before.committed session op next) ∧
      after.committed = before.committed := by
  cases step with
  | start other idle =>
    obtain rfl : client = other := mine
    cases idle.symm.trans running
  | issue other earlier op later opened sent free =>
    obtain rfl : client = other := mine
    cases opened.symm.trans running
    cases sent.symm.trans call
    exact ⟨rfl,Config.set_self before client _,rfl⟩
  | commit other earlier value opened returned =>
    obtain rfl : client = other := mine
    cases opened.symm.trans running
    cases returned.symm.trans call
  | rollback other earlier error opened raised =>
    obtain rfl : client = other := mine
    cases opened.symm.trans running
    cases raised.symm.trans call

theorem Step.finishes (step : Step E programs before label after) (mine : client = label.client)
    (running : before.status client = .running session) {outcome : Except S.Error α}
    (finished : session.program = .done outcome) :
    after.status client = .ended outcome session.issued ∧
      after.committed = match outcome with
        | .ok _ => E.visible before.committed session.writes
        | .error _ => before.committed := by
  cases step with
  | start other idle =>
    obtain rfl : client = other := mine
    cases idle.symm.trans running
  | issue other earlier op later opened sent free =>
    obtain rfl : client = other := mine
    cases opened.symm.trans running
    cases sent.symm.trans finished
  | commit other earlier value opened returned =>
    obtain rfl : client = other := mine
    cases opened.symm.trans running
    cases returned.symm.trans finished
    exact ⟨Config.set_self before client _,rfl⟩
  | rollback other earlier error opened raised =>
    obtain rfl : client = other := mine
    cases opened.symm.trans running
    cases raised.symm.trans finished
    exact ⟨Config.set_self before client _,rfl⟩

end Inversion

def Runs (E : Engine S Client Db Write Resource) (programs : Client → Program S α)
    (Careful : Config S Client Db Write Resource α → Label S Client → Prop) :
    Config S Client Db Write Resource α → Config S Client Db Write Resource α → Prop :=
  Relation.ReflTransGen (fun before after =>
    ∃ label, Step E programs before label after ∧ Careful before label)

def Reachable (E : Engine S Client Db Write Resource) (programs : Client → Program S α) (db : Db)
    (config : Config S Client Db Write Resource α) : Prop :=
  Runs E programs (fun _ _ => True) (.initial db) config

variable {E : Engine S Client Db Write Resource} {programs : Client → Program S α}

theorem Reachable.step {db : Db} {before after : Config S Client Db Write Resource α}
    {label : Label S Client} (reached : Reachable E programs db before)
    (step : Step E programs before label after) : Reachable E programs db after :=
  Relation.ReflTransGen.tail reached ⟨label,step,trivial⟩

/-- A property of configurations that holds at first and that every careful step
keeps holds along every careful run. -/
theorem Runs.invariant {Careful : Config S Client Db Write Resource α → Label S Client → Prop}
    (Inv : Config S Client Db Write Resource α → Prop)
    {first last : Config S Client Db Write Resource α} (runs : Runs E programs Careful first last)
    (base : Inv first)
    (kept : ∀ before label after, Inv before → Step E programs before label after →
      Careful before label → Inv after) : Inv last := by
  induction runs with
  | refl => exact base
  | tail _ last ih =>
    obtain ⟨label,step,careful⟩ := last
    exact kept _ label _ ih step careful

theorem Runs.stays {Careful : Config S Client Db Write Resource α → Label S Client → Prop}
    {first last : Config S Client Db Write Resource α} (runs : Runs E programs Careful first last) {client : Client}
    (ended : (first.status client).isEnded = true) : last.status client = first.status client := by
  obtain ⟨outcome,issued,known⟩ := Status.isEnded_iff.mp ended
  rw [known]
  refine runs.invariant (fun config => config.status client = .ended outcome issued) known ?_
  intro before label after known step _
  by_cases mine : client = label.client
  · exact absurd known (step.alive mine)
  · rw [step.others mine,known]

theorem Runs.weaken {Strict Careful : Config S Client Db Write Resource α → Label S Client → Prop}
    (weaker : ∀ config label, Strict config label → Careful config label)
    {first last : Config S Client Db Write Resource α} (runs : Runs E programs Strict first last) :
    Runs E programs Careful first last :=
  Runs.invariant (Runs E programs Careful first) runs .refl
    fun before label _ runs step strict => .tail runs ⟨label,step,weaker before label strict⟩

/-- A client whose program has an outcome can only end with it. -/
theorem Runs.finished {Careful : Config S Client Db Write Resource α → Label S Client → Prop}
    {first last : Config S Client Db Write Resource α} (runs : Runs E programs Careful first last) {client : Client}
    {session : Session S Write Resource α} (running : first.status client = .running session)
    {outcome : Except S.Error α} (finished : session.program = .done outcome) :
    last.status client = .running session ∨ last.status client = .ended outcome session.issued := by
  apply runs.invariant (fun config => config.status client = .running session ∨
    config.status client = .ended outcome session.issued) (Or.inl running)
  intro before label after known step _
  by_cases mine : client = label.client
  · apply Or.inr
    apply (step.finishes mine _ finished).1
    exact known.resolve_right (step.alive mine)
  · rw [step.others mine]
    exact known

theorem Runs.reachable {Careful : Config S Client Db Write Resource α → Label S Client → Prop} {db : Db}
    {config : Config S Client Db Write Resource α} (runs : Runs E programs Careful (.initial db) config) :
    Reachable E programs db config :=
  Runs.invariant (Reachable E programs db) runs .refl fun _ _ _ reached step _ => reached.step step

theorem Reachable.runs {Careful : Config S Client Db Write Resource α → Label S Client → Prop}
    (careful : ∀ config label, Careful config label) {db : Db} {config : Config S Client Db Write Resource α}
    (reached : Reachable E programs db config) : Runs E programs Careful (.initial db) config :=
  Runs.invariant (Runs E programs Careful (.initial db)) reached .refl
    fun before label _ runs step _ => .tail runs ⟨label,step,careful before label⟩

def Exclusive (config : Config S Client Db Write Resource α) : Prop :=
  ∀ client other, other ≠ client → ∀ mine theirs, config.status client = .running mine →
    config.status other = .running theirs → ∀ resource ∈ mine.held, resource ∉ theirs.held

omit [DecidableEq Client] in
theorem exclusive_initial (db : Db) : Exclusive (.initial db : Config S Client Db Write Resource α) := by
  intro client other different mine theirs running
  cases running

theorem exclusive_step {before after : Config S Client Db Write Resource α} {label : Label S Client}
    (exclusive : Exclusive before) (step : Step E programs before label after) : Exclusive after := by
  cases step with
  | start client idle =>
    intro one other different mine theirs hm ht
    rcases Config.set_running hm with ⟨_,fresh⟩ | ⟨_,mineBefore⟩
    · cases fresh
      simp
    · rcases Config.set_running ht with ⟨_,fresh⟩ | ⟨_,theirsBefore⟩
      · cases fresh
        simp
      · exact exclusive one other different mine theirs mineBefore theirsBefore
  | issue client session op next opened sent free =>
    intro one other different mine theirs hm ht resource member
    rcases Config.set_running hm with ⟨rfl,stepped⟩ | ⟨first,mineBefore⟩
    · rcases Config.set_running ht with ⟨same,_⟩ | ⟨second,theirsBefore⟩
      · exact absurd same different
      · cases stepped
        rcases E.proceed_held _ _ _ _ _ member with old | new
        · exact exclusive one other different session theirs opened theirsBefore resource old
        · exact free.session second theirsBefore new
    · rcases Config.set_running ht with ⟨rfl,stepped⟩ | ⟨second,theirsBefore⟩
      · cases stepped
        intro inside
        rcases E.proceed_held _ _ _ _ _ inside with old | new
        · exact exclusive one other different mine session mineBefore opened resource member old
        · exact free.session first mineBefore new member
      · exact exclusive one other different mine theirs mineBefore theirsBefore resource member
  | commit client session value opened returned =>
    intro one other different mine theirs hm ht
    rcases Config.set_running hm with ⟨_,finished⟩ | ⟨_,mineBefore⟩
    · cases finished
    · rcases Config.set_running ht with ⟨_,finished⟩ | ⟨_,theirsBefore⟩
      · cases finished
      · exact exclusive one other different mine theirs mineBefore theirsBefore
  | rollback client session error opened raised =>
    intro one other different mine theirs hm ht
    rcases Config.set_running hm with ⟨_,finished⟩ | ⟨_,mineBefore⟩
    · cases finished
    · rcases Config.set_running ht with ⟨_,finished⟩ | ⟨_,theirsBefore⟩
      · cases finished
      · exact exclusive one other different mine theirs mineBefore theirsBefore

theorem Reachable.exclusive {db : Db} {config : Config S Client Db Write Resource α}
    (reached : Reachable E programs db config) : Exclusive config :=
  Runs.invariant Exclusive reached (exclusive_initial db)
    (fun _ _ _ inv step _ => exclusive_step inv step)

theorem Step.running {before after : Config S Client Db Write Resource α} {label : Label S Client}
    (step : Step E programs before label after) {client : Client} {session : Session S Write Resource α}
    (running : after.status client = .running session) :
    before.status client = .running session ∨ session = ⟨programs client,[],[],[]⟩ ∨
      ∃ op next earlier, label = .issue client op ∧ before.status client = .running earlier ∧
        earlier.program = .call op next ∧ session = E.proceed client before.committed earlier op next := by
  cases step with
  | start other idle =>
    rcases Config.set_running running with ⟨rfl,fresh⟩ | ⟨_,same⟩
    · cases fresh
      exact Or.inr (Or.inl rfl)
    · exact Or.inl same
  | issue other earlier op next opened sent free =>
    rcases Config.set_running running with ⟨rfl,stepped⟩ | ⟨_,same⟩
    · cases stepped
      exact Or.inr (Or.inr ⟨op,next,earlier,rfl,opened,sent,rfl⟩)
    · exact Or.inl same
  | commit other session value opened returned =>
    rcases Config.set_running running with ⟨_,finished⟩ | ⟨_,same⟩
    · cases finished
    · exact Or.inl same
  | rollback other session error opened raised =>
    rcases Config.set_running running with ⟨_,finished⟩ | ⟨_,same⟩
    · cases finished
    · exact Or.inl same

theorem Step.ended {before after : Config S Client Db Write Resource α} {label : Label S Client}
    (step : Step E programs before label after) {client : Client} {outcome : Except S.Error α} {issued : List S.Op}
    (ended : after.status client = .ended outcome issued) :
    before.status client = .ended outcome issued ∨
      ∃ session, before.status client = .running session ∧ session.program = .done outcome ∧
        issued = session.issued ∧ label.client = client ∧
        ∀ value, outcome = .ok value → after.committed = E.visible before.committed session.writes := by
  by_cases mine : client = label.client
  · right
    cases step with
    | start other idle =>
      obtain rfl : client = other := mine
      cases (Config.set_self before client _).symm.trans ended
    | issue other session op next opened sent free =>
      obtain rfl : client = other := mine
      cases (Config.set_self before client _).symm.trans ended
    | commit other session value opened returned =>
      obtain rfl : client = other := mine
      cases (Config.set_self before client _).symm.trans ended
      exact ⟨session,opened,returned,rfl,rfl,fun _ _ => rfl⟩
    | rollback other session error opened raised =>
      obtain rfl : client = other := mine
      cases (Config.set_self before client _).symm.trans ended
      exact ⟨session,opened,raised,rfl,rfl,fun _ same => (by cases same)⟩
  · rw [step.others mine] at ended
    exact Or.inl ended

/-- An open transaction that has sent nothing is at its start. -/
theorem Reachable.unsent {db : Db} {config : Config S Client Db Write Resource α}
    (reached : Reachable E programs db config) {client : Client} {session : Session S Write Resource α}
    (running : config.status client = .running session) (unsent : session.issued = []) :
    session = ⟨programs client,[],[],[]⟩ := by
  apply Runs.invariant (fun config => ∀ session, config.status client = .running session → session.issued = [] →
    session = ⟨programs client,[],[],[]⟩) reached _ _ session running unsent
  · intro session running
    cases running
  · intro before label after known step _ session running unsent
    rcases step.running running with same | fresh | ⟨op,next,earlier,_,_,_,rfl⟩
    · exact known session same unsent
    · exact fresh
    · simp at unsent

omit [DecidableEq Client] in
theorem Engine.proceed_only (E : Engine S Client Db Write Resource) {allowed : S.Op → Prop} {client : Client}
    {committed : Db} {session : Session S Write Resource α} {op : S.Op}
    {next : Except S.Error (S.Reply op) → Program S α} (rest : ∀ reply, (next reply).Only allowed) :
    (E.proceed client committed session op next).program.Only allowed := by
  unfold Engine.proceed
  split
  · exact rest _
  · exact rest _

theorem Reachable.returned {db : Db} {config : Config S Client Db Write Resource α} {allowed : α → Prop}
    {client : Client} (returns : (programs client).Returns allowed) (reached : Reachable E programs db config) {value : α}
    {issued : List S.Op} (ended : config.status client = .ended (.ok value) issued) : allowed value := by
  have kept := Runs.invariant (fun config => (∀ session, config.status client = .running session →
      session.program.Returns allowed) ∧ ∀ value issued, config.status client = .ended (.ok value) issued →
        allowed value) reached ?_ ?_
  · exact kept.2 value issued ended
  · exact ⟨fun session running => (by cases running),fun value issued ended => (by cases ended)⟩
  · rintro before label after ⟨opened,closed⟩ step _
    constructor
    · intro session running
      rcases step.running running with same | rfl | ⟨op,next,earlier,_,same,sent,rfl⟩
      · exact opened session same
      · exact returns
      · have rest := opened earlier same
        rw [sent] at rest
        unfold Engine.proceed
        split
        · exact rest _
        · exact rest _
    · intro value issued ended
      rcases step.ended ended with same | ⟨session,same,program,_,_,_⟩
      · exact closed value issued same
      · have last := opened session same
        rw [program] at last
        exact last

/-- An open transaction has sent nothing, or what is left of it is restricted as
the program is after its first statement. -/
theorem Reachable.first {db : Db} {config : Config S Client Db Write Resource α}
    (reached : Reachable E programs db config) {client : Client} {allowed : S.Op → Prop} {op : S.Op}
    {next : Except S.Error (S.Reply op) → Program S α} (opening : programs client = .call op next)
    (rest : ∀ reply, (next reply).Only allowed) {session : Session S Write Resource α}
    (running : config.status client = .running session) :
    session = ⟨programs client,[],[],[]⟩ ∨ session.program.Only allowed := by
  refine Runs.invariant (fun config => ∀ session, config.status client = .running session →
    session = ⟨programs client,[],[],[]⟩ ∨ session.program.Only allowed) reached ?_ ?_ session running
  · intro session running
    cases running
  · intro before label after known step _ session running
    rcases step.running running with same | fresh | ⟨sent,later,earlier,_,opened,call,rfl⟩
    · exact known session same
    · exact Or.inl fresh
    · refine Or.inr (E.proceed_only ?_)
      rcases known earlier opened with rfl | only
      · rw [opening] at call
        cases call
        exact rest
      · rw [call] at only
        exact only.2

section Scheduler
variable [Fintype Client] [DecidableEq Resource] (E : Engine S Client Db Write Resource)
  (programs : Client → Program S α)

def advance (config : Config S Client Db Write Resource α) (client : Client) :
    Option (Config S Client Db Write Resource α) :=
  match config.status client with
  | .ready => some (config.set client (.running ⟨programs client,[],[],[]⟩))
  | .ended _ _ => none
  | .running session =>
    match session.program with
    | .done (.ok value) =>
      some { config.set client (.ended (.ok value) session.issued) with
        committed := E.visible config.committed session.writes }
    | .done (.error error) => some (config.set client (.ended (.error error) session.issued))
    | .call op next =>
      if ∀ other, other ≠ client → ∀ resource ∈ E.locks op (E.visible config.committed session.writes),
          resource ∉ (config.status other).held then
        some { config.set client (.running (E.proceed client config.committed session op next)) with
          history := config.history ++ [(client,op)] }
      else none

def follow : List Client → Config S Client Db Write Resource α → Option (Config S Client Db Write Resource α)
  | [], config => some config
  | client::rest, config => (advance E programs config client).bind (follow rest)

def followIf (check : Config S Client Db Write Resource α → Client → Bool) :
    List Client → Config S Client Db Write Resource α → Option (Config S Client Db Write Resource α)
  | [], config => some config
  | client::rest, config =>
    if check config client then (advance E programs config client).bind (followIf check rest) else none

variable {E programs}

theorem advance_step {before after : Config S Client Db Write Resource α} {client : Client}
    (moved : advance E programs before client = some after) :
    ∃ label, Step E programs before label after ∧ label.client = client := by
  unfold advance at moved
  split at moved
  · next idle =>
    cases moved
    exact ⟨_,.start before client idle,rfl⟩
  · cases moved
  · next session opened =>
    split at moved
    · next value returned =>
      cases moved
      exact ⟨_,.commit before client session value opened returned,rfl⟩
    · next error raised =>
      cases moved
      exact ⟨_,.rollback before client session error opened raised,rfl⟩
    · next op next sent =>
      split at moved
      · next free =>
        cases moved
        exact ⟨_,.issue before client session op next opened sent free,rfl⟩
      · cases moved

/-- A step that adds to the history is the sending of a statement. -/
theorem advance_issue {before after : Config S Client Db Write Resource α} {client : Client}
    (moved : advance E programs before client = some after) (longer : after.history ≠ before.history) :
    ∃ op, Step E programs before (.issue client op) after ∧ after.history = before.history ++ [(client,op)] := by
  obtain ⟨label,step,same⟩ := advance_step moved
  cases step with
  | issue actor session op next opened sent free =>
    obtain rfl : actor = client := same
    exact ⟨op,.issue before actor session op next opened sent free,rfl⟩
  | _ => exact absurd rfl longer

theorem follow_runs {schedule : List Client} {before after : Config S Client Db Write Resource α}
    (followed : follow E programs schedule before = some after) :
    Runs E programs (fun _ _ => True) before after := by
  induction schedule generalizing before with
  | nil =>
    cases followed
    exact .refl
  | cons client rest ih =>
    obtain ⟨middle,first,later⟩ := Option.bind_eq_some_iff.mp followed
    obtain ⟨label,step,_⟩ := advance_step first
    exact .head ⟨label,step,trivial⟩ (ih later)

theorem followIf_runs {check : Config S Client Db Write Resource α → Client → Bool}
    {Careful : Config S Client Db Write Resource α → Label S Client → Prop}
    (sound : ∀ config label, check config label.client = true → Careful config label) {schedule : List Client}
    {before after : Config S Client Db Write Resource α}
    (followed : followIf E programs check schedule before = some after) : Runs E programs Careful before after := by
  induction schedule generalizing before with
  | nil =>
    cases followed
    exact .refl
  | cons client rest ih =>
    unfold followIf at followed
    split at followed
    · next checked =>
      obtain ⟨middle,first,later⟩ := Option.bind_eq_some_iff.mp followed
      obtain ⟨label,step,rfl⟩ := advance_step first
      exact .head ⟨label,step,sound before label checked⟩ (ih later)
    · cases followed

/-- The steps of one client, while the others stand still; nothing is committed before
the last of them. -/
theorem follow_own {client : Client} {steps : Nat} {before after : Config S Client Db Write Resource α}
    (followed : follow E programs (List.replicate steps client) before = some after) :
    Runs E programs (fun config label => label.client = client ∧ config.committed = before.committed ∧
        ∀ other, other ≠ client → config.status other = before.status other) before after ∧
      ∀ other, other ≠ client → after.status other = before.status other := by
  induction steps generalizing before with
  | zero =>
    cases followed
    exact ⟨.refl,fun _ _ => rfl⟩
  | succ steps ih =>
    obtain ⟨middle,first,later⟩ := Option.bind_eq_some_iff.mp followed
    obtain ⟨label,step,rfl⟩ := advance_step first
    obtain ⟨runs,others⟩ := ih later
    have still (other : Client) (different : other ≠ label.client) : middle.status other = before.status other :=
      step.others different
    refine ⟨Relation.ReflTransGen.head ⟨label,step,rfl,rfl,fun _ _ => rfl⟩ ?_,fun other different =>
      (others other different).trans (still other different)⟩
    have kept (same : middle.committed = before.committed) : Runs E programs (fun config own =>
        own.client = label.client ∧ config.committed = before.committed ∧
          ∀ other, other ≠ label.client → config.status other = before.status other) middle after :=
      runs.weaken fun _ _ own => ⟨own.1,own.2.1.trans same,fun other different =>
        (own.2.2 other different).trans (still other different)⟩
    cases step with
    | commit client session value opened returned =>
      -- the client has ended, and takes no further step
      cases steps with
      | zero =>
        cases later
        exact .refl
      | succ steps =>
        obtain ⟨_,impossible,_⟩ := Option.bind_eq_some_iff.mp later
        simp [advance,Config.set,Label.client] at impossible
    | _ => exact kept rfl

theorem follow_reachable {db : Db} {schedule : List Client} {before after : Config S Client Db Write Resource α}
    (reached : Reachable E programs db before) (followed : follow E programs schedule before = some after) :
    Reachable E programs db after :=
  Relation.ReflTransGen.trans reached (follow_runs followed)

end Scheduler

end CryptoBrokerage.Transaction
