import CryptoBrokerage.Transaction.Schedule

/-! Protocols for the statements of one transaction, and the rely-guarantee
rule that turns them into invariants of all interleavings. A protocol is checked
against a program alone; interference enters only through the rule. -/
namespace CryptoBrokerage.Transaction

/-- What a client may send in each protocol state, and how a reply moves it. -/
structure Protocol (S : Signature) (Client State : Type) where
  start : Client → State
  allowed : Client → State → S.Op → Prop
  after : Client → State → (op : S.Op) → Except S.Error (S.Reply op) → State

variable {S : Signature} {Client Db Write Resource State α β : Type}

def Protocol.meet {State' : Type} (P : Protocol S Client State) (Q : Protocol S Client State') :
    Protocol S Client (State × State') where
  start client := (P.start client,Q.start client)
  allowed client state op := P.allowed client state.1 op ∧ Q.allowed client state.2 op
  after client state op reply := (P.after client state.1 op reply,Q.after client state.2 op reply)

def Engine.Answers (E : Engine S Client Db Write Resource) (Seen : Db → Prop) (client : Client)
    (op : S.Op) (reply : Except S.Error (S.Reply op)) : Prop :=
  ∃ turn db, Seen db ∧ (E.exec client turn op db).map Prod.fst = reply

namespace Program

/-- From `state` on the program sends only what the protocol allows, whatever
the replies, and it ends in an outcome and a state that satisfy `post`. -/
def Obeys (E : Engine S Client Db Write Resource) (Seen : Db → Prop)
    (P : Protocol S Client State) (client : Client) :
    Program S α → State → (Except S.Error α → State → Prop) → Prop
  | .done outcome, state, post => post outcome state
  | .call op next, state, post => P.allowed client state op ∧
      ∀ reply, E.Answers Seen client op reply →
        Obeys E Seen P client (next reply) (P.after client state op reply) post

variable {E : Engine S Client Db Write Resource} {Seen : Db → Prop}
  {P : Protocol S Client State} {client : Client}

@[simp] theorem obeys_done (outcome : Except S.Error α) (state : State)
    (post : Except S.Error α → State → Prop) :
    (Program.done outcome : Program S α).Obeys E Seen P client state post ↔ post outcome state := Iff.rfl

@[simp] theorem obeys_pure (value : α) (state : State) (post : Except S.Error α → State → Prop) :
    (pure value : Program S α).Obeys E Seen P client state post ↔ post (.ok value) state := Iff.rfl

@[simp] theorem obeys_raise (error : S.Error) (state : State)
    (post : Except S.Error α → State → Prop) :
    (raise error : Program S α).Obeys E Seen P client state post ↔ post (.error error) state := Iff.rfl

theorem obeys_call (op : S.Op) (next : Except S.Error (S.Reply op) → Program S α) (state : State)
    (post : Except S.Error α → State → Prop) :
    (Program.call op next).Obeys E Seen P client state post ↔ P.allowed client state op ∧
      ∀ reply, E.Answers Seen client op reply →
        (next reply).Obeys E Seen P client (P.after client state op reply) post := Iff.rfl

@[simp] theorem obeys_perform (op : S.Op) (state : State)
    (post : Except S.Error (S.Reply op) → State → Prop) :
    (perform op).Obeys E Seen P client state post ↔ P.allowed client state op ∧
      ∀ reply, E.Answers Seen client op reply → post reply (P.after client state op reply) := Iff.rfl

theorem Obeys.weaken {program : Program S α} {state : State}
    {strong weak : Except S.Error α → State → Prop} (obeys : program.Obeys E Seen P client state strong)
    (weaker : ∀ outcome last, strong outcome last → weak outcome last) :
    program.Obeys E Seen P client state weak := by
  induction program generalizing state with
  | done outcome => exact weaker outcome state obeys
  | call op next ih => exact ⟨obeys.1,fun reply answer => ih reply (obeys.2 reply answer)⟩

@[simp] theorem obeys_bind (program : Program S α) (next : α → Program S β) (state : State)
    (post : Except S.Error β → State → Prop) :
    (program >>= next).Obeys E Seen P client state post ↔
      program.Obeys E Seen P client state (fun outcome last => match outcome with
        | .ok value => (next value).Obeys E Seen P client last post
        | .error error => post (.error error) last) := by
  induction program generalizing state with
  | done outcome => cases outcome <;> rfl
  | call op rest ih =>
    rw [call_bind,obeys_call,obeys_call]
    exact and_congr_right fun _ => forall_congr' fun reply => imp_congr_right fun _ => ih reply _

@[simp] theorem obeys_attempt (program : Program S α) (state : State)
    (post : Except S.Error (Except S.Error α) → State → Prop) :
    program.attempt.Obeys E Seen P client state post ↔
      program.Obeys E Seen P client state (fun outcome last => post (.ok outcome) last) := by
  induction program generalizing state with
  | done outcome => rfl
  | call op rest ih =>
    rw [attempt,obeys_call,obeys_call]
    exact and_congr_right fun _ => forall_congr' fun reply => imp_congr_right fun _ => ih reply _

/-- A statement whose reply is the same on every store that can be seen. -/
theorem obeys_fixed {op : S.Op} (value : S.Reply op) {next : S.Reply op → Program S β} {state : State}
    {post : Except S.Error β → State → Prop} (permitted : P.allowed client state op)
    (fixed : ∀ turn db, Seen db → ∃ writes, E.exec client turn op db = .ok (value,writes))
    (rest : (next value).Obeys E Seen P client (P.after client state op (.ok value)) post) :
    (perform op >>= next).Obeys E Seen P client state post := by
  rw [obeys_bind,obeys_perform]
  refine ⟨permitted,fun reply answer => ?_⟩
  obtain ⟨turn,db,seen,same⟩ := answer
  obtain ⟨writes,answered⟩ := fixed turn db seen
  rw [answered] at same
  cases same
  exact rest

/-- A program that only sends statements which the protocol allows, and which
keep its state, in a set of states. -/
theorem Only.obeys_within {quiet : S.Op → Prop} (Within : State → Prop) {program : Program S α}
    (only : program.Only quiet) {state : State} (inside : Within state)
    (permitted : ∀ state op, Within state → quiet op → P.allowed client state op)
    (kept : ∀ state op reply, Within state → quiet op → Within (P.after client state op reply)) :
    program.Obeys E Seen P client state (fun _ last => Within last) := by
  induction program generalizing state with
  | done outcome => exact inside
  | call op next ih =>
    exact ⟨permitted state op inside only.1,fun reply _ => ih reply (only.2 reply)
      (kept state op reply inside only.1)⟩

/-- A program that only sends statements which the protocol allows in every state. -/
theorem Only.permitted {quiet : S.Op → Prop} {program : Program S α} (only : program.Only quiet) {state : State}
    (allowed : ∀ state op, quiet op → P.allowed client state op) :
    program.Obeys E Seen P client state (fun _ _ => True) := by
  refine only.obeys_within (fun _ => True) trivial ?_ fun _ _ _ _ _ => trivial
  intro state op _ quiet
  exact allowed state op quiet

/-- A program that only sends statements which the protocol allows and which
leave its state as it is. -/
theorem Only.obeys {quiet : S.Op → Prop} {program : Program S α} (only : program.Only quiet) {state : State}
    (permitted : ∀ op, quiet op → P.allowed client state op)
    (unmoved : ∀ op, quiet op → ∀ reply, P.after client state op reply = state) :
    program.Obeys E Seen P client state (fun _ last => last = state) := by
  have within := @Only.obeys_within S Client Db Write Resource State α E Seen P client quiet (· = state) program
    only state rfl
  apply within
  · rintro _ op rfl allowed
    exact permitted op allowed
  · rintro _ op reply rfl allowed
    exact unmoved op allowed reply

theorem Only.obeys_bind {quiet : S.Op → Prop} {program : Program S α} {next : α → Program S β} {state : State}
    {post : Except S.Error β → State → Prop} (only : program.Only quiet)
    (permitted : ∀ op, quiet op → P.allowed client state op)
    (unmoved : ∀ op, quiet op → ∀ reply, P.after client state op reply = state)
    (raised : ∀ error, post (.error error) state)
    (rest : ∀ value, (next value).Obeys E Seen P client state post) :
    (program >>= next).Obeys E Seen P client state post := by
  rw [Program.obeys_bind]
  refine (only.obeys permitted unmoved).weaken ?_
  rintro outcome last rfl
  cases outcome with
  | error error => exact raised error
  | ok value => exact rest value

/-- What obeys a protocol obeys each one that its states and its rules project to. -/
theorem Obeys.project {State' : Type} {Q : Protocol S Client State'} (image : State → State')
    (permitted : ∀ state op, P.allowed client state op → Q.allowed client (image state) op)
    (moved : ∀ state op reply, image (P.after client state op reply) = Q.after client (image state) op reply)
    {program : Program S α} {state : State} {post : Except S.Error α → State → Prop}
    {weak : Except S.Error α → State' → Prop} (obeys : program.Obeys E Seen P client state post)
    (weaker : ∀ outcome last, post outcome last → weak outcome (image last)) :
    program.Obeys E Seen Q client (image state) weak := by
  induction program generalizing state with
  | done outcome => exact weaker outcome state obeys
  | call op next ih =>
    refine ⟨permitted state op obeys.1,fun reply answer => ?_⟩
    rw [← moved]
    exact ih reply (obeys.2 reply answer)

/-- What obeys two protocols obeys both at once. -/
theorem Obeys.meet {State' : Type} {Q : Protocol S Client State'} {Seen' : Db → Prop} {program : Program S α}
    {state : State} {state' : State'} {post : Except S.Error α → State → Prop} {post' : Except S.Error α → State' → Prop}
    (first : program.Obeys E Seen P client state post) (second : program.Obeys E Seen' Q client state' post') :
    program.Obeys E (fun db => Seen db ∧ Seen' db) (P.meet Q) client (state,state')
      (fun outcome last => post outcome last.1 ∧ post' outcome last.2) := by
  induction program generalizing state state' with
  | done outcome => exact ⟨first,second⟩
  | call op next ih =>
    refine ⟨⟨first.1,second.1⟩,fun reply answer => ?_⟩
    obtain ⟨turn,db,seen,same⟩ := answer
    exact ih reply (first.2 reply ⟨turn,db,seen.1,same⟩) (second.2 reply ⟨turn,db,seen.2,same⟩)

end Program

variable [DecidableEq Client] {E : Engine S Client Db Write Resource} {programs : Client → Program S α}

/-- The assumptions of the rely-guarantee rule. `Global` speaks about the
committed store and `Local` about one open transaction in its protocol state; a
statement need keep them only where it is sent with care. -/
structure CarefulGuarantee (E : Engine S Client Db Write Resource) (P : Protocol S Client State)
    (programs : Client → Program S α) (Careful : Client → Session S Write Resource α → Db → S.Op → Prop)
    (Seen Global : Db → Prop) (Local : Client → State → Session S Write Resource α → Db → Prop) : Prop where
  start : ∀ client committed, Global committed →
    Local client (P.start client) ⟨programs client,[],[],[]⟩ committed
  sees : ∀ client state session committed, Global committed → Local client state session committed →
    Seen (E.visible committed session.writes)
  answered : ∀ client state (session : Session S Write Resource α) committed op (rest : Program S α) reply
    writes, Global committed → Local client state session committed → P.allowed client state op →
    E.exec client session.issued.length op (E.visible committed session.writes) = .ok (reply,writes) →
    Careful client session committed op →
    Local client (P.after client state op (.ok reply))
      ⟨rest,session.writes ++ writes,session.held ++ E.locks op (E.visible committed session.writes),
        session.issued ++ [op]⟩ committed
  failed : ∀ client state (session : Session S Write Resource α) committed op (rest : Program S α) error,
    Global committed → Local client state session committed → P.allowed client state op →
    E.exec client session.issued.length op (E.visible committed session.writes) = .error error →
    Local client (P.after client state op (.error error))
      ⟨rest,session.writes,session.held,session.issued ++ [op]⟩ committed
  commit : ∀ client state session committed, Global committed → Local client state session committed →
    Global (E.visible committed session.writes)
  rely : ∀ client other state session state' session' committed, other ≠ client → Global committed →
    Local client state session committed → Local other state' session' committed →
    (∀ resource ∈ session.held, resource ∉ session'.held) →
    Local client state session (E.visible committed session'.writes)

abbrev Guarantee (E : Engine S Client Db Write Resource) (P : Protocol S Client State)
    (programs : Client → Program S α) (Seen Global : Db → Prop)
    (Local : Client → State → Session S Write Resource α → Db → Prop) : Prop :=
  CarefulGuarantee E P programs (fun _ _ _ _ => True) Seen Global Local

def Observes (Careful : Client → Session S Write Resource α → Db → S.Op → Prop)
    (config : Config S Client Db Write Resource α) (label : Label S Client) : Prop :=
  ∀ client op session, label = .issue client op → config.status client = .running session →
    Careful client session config.committed op

def Kept (E : Engine S Client Db Write Resource) (P : Protocol S Client State) (Seen Global : Db → Prop)
    (Local : Client → State → Session S Write Resource α → Db → Prop)
    (config : Config S Client Db Write Resource α) : Prop :=
  Global config.committed ∧ ∀ client session, config.status client = .running session →
    ∃ state, Local client state session config.committed ∧
      session.program.Obeys E Seen P client state (fun _ _ => True)

def Upheld (E : Engine S Client Db Write Resource) (P : Protocol S Client State) (Seen Global : Db → Prop)
    (Local : Client → State → Session S Write Resource α → Db → Prop)
    (post : Client → Except S.Error α → State → Prop) (config : Config S Client Db Write Resource α) : Prop :=
  Global config.committed ∧ ∀ client session, config.status client = .running session →
    ∃ state, Local client state session config.committed ∧
      session.program.Obeys E Seen P client state (post client)

theorem upheld_step {P : Protocol S Client State} {Seen Global : Db → Prop}
    {Careful : Client → Session S Write Resource α → Db → S.Op → Prop}
    {Local : Client → State → Session S Write Resource α → Db → Prop}
    {post : Client → Except S.Error α → State → Prop}
    (guarantee : CarefulGuarantee E P programs Careful Seen Global Local)
    (obeys : ∀ client, (programs client).Obeys E Seen P client (P.start client) (post client))
    {before after : Config S Client Db Write Resource α} {label : Label S Client}
    (exclusive : Exclusive before) (upheld : Upheld E P Seen Global Local post before)
    (step : Step E programs before label after) (careful : Observes Careful before label) :
    Upheld E P Seen Global Local post after := by
  obtain ⟨globally,locally⟩ := upheld
  cases step with
  | start client idle =>
    refine ⟨globally,fun one session running => ?_⟩
    rcases Config.set_running running with ⟨rfl,fresh⟩ | ⟨_,same⟩
    · cases fresh
      exact ⟨P.start one,guarantee.start one _ globally,obeys one⟩
    · exact locally one session same
  | issue client session op next opened sent free =>
    refine ⟨globally,fun one current running => ?_⟩
    rcases Config.set_running running with ⟨rfl,stepped⟩ | ⟨_,same⟩
    · obtain ⟨state,holds,program⟩ := locally one session opened
      rw [sent,Program.obeys_call] at program
      have seen := guarantee.sees one state session _ globally holds
      cases stepped
      cases result : E.exec one session.issued.length op (E.visible before.committed session.writes) with
      | ok pair =>
        obtain ⟨reply,writes⟩ := pair
        rw [E.proceed_ok next result]
        exact ⟨_,guarantee.answered one state session _ op _ reply writes globally holds program.1 result
            (careful one op session rfl opened),program.2 _ ⟨_,_,seen,by rw [result]; rfl⟩⟩
      | error error =>
        rw [E.proceed_error next result]
        exact ⟨_,guarantee.failed one state session _ op _ error globally holds program.1 result,
          program.2 _ ⟨_,_,seen,by rw [result]; rfl⟩⟩
    · exact locally one current same
  | commit client session value opened returned =>
    obtain ⟨state,holds,_⟩ := locally client session opened
    refine ⟨guarantee.commit client state session _ globally holds,fun one current running => ?_⟩
    rcases Config.set_running running with ⟨_,finished⟩ | ⟨different,same⟩
    · cases finished
    · obtain ⟨other,keeps,program⟩ := locally one current same
      -- the writes that are committed here belong to a transaction with other resources
      exact ⟨other,guarantee.rely one client other current state session _ (Ne.symm different) globally
        keeps holds (exclusive one client (Ne.symm different) current session same opened),program⟩
  | rollback client session error opened raised =>
    refine ⟨globally,fun one current running => ?_⟩
    rcases Config.set_running running with ⟨_,finished⟩ | ⟨_,same⟩
    · cases finished
    · exact locally one current same

/-- The rely-guarantee rule: where every statement of an interleaving is sent with
care, the global invariant holds of the committed stores that it reaches, and the
local one of every open transaction. -/
theorem CarefulGuarantee.upheld {P : Protocol S Client State} {Seen Global : Db → Prop}
    {Careful : Client → Session S Write Resource α → Db → S.Op → Prop}
    {Local : Client → State → Session S Write Resource α → Db → Prop}
    {post : Client → Except S.Error α → State → Prop}
    (guarantee : CarefulGuarantee E P programs Careful Seen Global Local)
    (obeys : ∀ client, (programs client).Obeys E Seen P client (P.start client) (post client))
    {db : Db} (base : Global db) {config : Config S Client Db Write Resource α}
    (runs : Runs E programs (Observes Careful) (.initial db) config) : Upheld E P Seen Global Local post config := by
  have first : Upheld E P Seen Global Local post (.initial db : Config S Client Db Write Resource α) := by
    refine ⟨base,fun client session running => ?_⟩
    cases running
  refine (Runs.invariant (fun config => Exclusive config ∧ Upheld E P Seen Global Local post config) runs
    ⟨exclusive_initial db,first⟩ ?_).2
  rintro before label after ⟨exclusive,upheld⟩ step careful
  exact ⟨exclusive_step exclusive step,upheld_step guarantee obeys exclusive upheld step careful⟩

theorem Guarantee.upheld {P : Protocol S Client State} {Seen Global : Db → Prop}
    {Local : Client → State → Session S Write Resource α → Db → Prop}
    {post : Client → Except S.Error α → State → Prop} (guarantee : Guarantee E P programs Seen Global Local)
    (obeys : ∀ client, (programs client).Obeys E Seen P client (P.start client) (post client))
    {db : Db} (base : Global db) {config : Config S Client Db Write Resource α}
    (reached : Reachable E programs db config) : Upheld E P Seen Global Local post config :=
  CarefulGuarantee.upheld guarantee obeys base (reached.weaken fun _ _ _ _ _ _ _ _ => trivial)

theorem Guarantee.reachable {P : Protocol S Client State} {Seen Global : Db → Prop}
    {Local : Client → State → Session S Write Resource α → Db → Prop}
    (guarantee : Guarantee E P programs Seen Global Local)
    (obeys : ∀ client, (programs client).Obeys E Seen P client (P.start client) (fun _ _ => True))
    {db : Db} (base : Global db) {config : Config S Client Db Write Resource α}
    (reached : Reachable E programs db config) : Kept E P Seen Global Local config :=
  guarantee.upheld obeys base reached

/-- What the programs end in holds of the committed store: it is so when each of
them commits or rolls back, and remains so when another one commits. -/
theorem Guarantee.settled {P : Protocol S Client State} {Seen Global : Db → Prop}
    {Local : Client → State → Session S Write Resource α → Db → Prop}
    {post : Client → Except S.Error α → State → Prop} (Stored : Db → Prop)
    (Done : Client → Except S.Error α → List S.Op → Db → Prop)
    (guarantee : Guarantee E P programs Seen Global Local)
    (obeys : ∀ client, (programs client).Obeys E Seen P client (P.start client) (post client))
    {db : Db} (base : Global db) (first : Stored db)
    (returned : ∀ client state session committed value, Global committed → Stored committed →
      Local client state session committed → post client (.ok value) state →
      Stored (E.visible committed session.writes) ∧
        Done client (.ok value) session.issued (E.visible committed session.writes) ∧
        ∀ other outcome issued, Done other outcome issued committed →
          Done other outcome issued (E.visible committed session.writes))
    (raised : ∀ client state session committed error, Global committed → Stored committed →
      Local client state session committed → post client (.error error) state →
      Done client (.error error) session.issued committed)
    {config : Config S Client Db Write Resource α} (reached : Reachable E programs db config) :
    Stored config.committed ∧ ∀ client outcome issued, config.status client = .ended outcome issued →
      Done client outcome issued config.committed := by
  refine (Runs.invariant (fun config => Reachable E programs db config ∧ Stored config.committed ∧
    ∀ client outcome issued, config.status client = .ended outcome issued → Done client outcome issued config.committed)
    reached ⟨.refl,first,fun _ _ _ ended => by cases ended⟩ ?_).2
  rintro before label after ⟨there,stored,done⟩ step _
  refine ⟨there.step step,?_⟩
  obtain ⟨globally,locally⟩ := guarantee.upheld obeys base there
  have others (client : Client) (status : Status S Write Resource α) {Later : Client → Except S.Error α → List S.Op → Prop}
      (own : ∀ outcome issued, status = .ended outcome issued → Later client outcome issued)
      (kept : ∀ other outcome issued, Done other outcome issued before.committed → Later other outcome issued)
      (other : Client) (outcome : Except S.Error α) (issued : List S.Op)
      (ended : (before.set client status).status other = .ended outcome issued) : Later other outcome issued := by
    by_cases same : other = client
    · rw [same,Config.set_self] at ended
      exact same ▸ own outcome issued ended
    · rw [Config.set_other _ _ same] at ended
      exact kept other outcome issued (done other outcome issued ended)
  cases step with
  | start client idle => exact ⟨stored,others client _ (fun _ _ same => by cases same) fun _ _ _ known => known⟩
  | issue client session op next opened sent free =>
    exact ⟨stored,others client _ (fun _ _ same => by cases same) fun _ _ _ known => known⟩
  | commit client session value opened ends =>
    obtain ⟨state,holds,program⟩ := locally client session opened
    rw [ends,Program.obeys_done] at program
    obtain ⟨kept,own,rest⟩ := returned client state session _ value globally stored holds program
    refine ⟨kept,others client _ (fun _ _ same => ?_) rest⟩
    cases same
    exact own
  | rollback client session error opened ends =>
    obtain ⟨state,holds,program⟩ := locally client session opened
    rw [ends,Program.obeys_done] at program
    refine ⟨stored,others client _ (fun _ _ same => ?_) fun _ _ _ known => known⟩
    cases same
    exact raised client state session _ error globally stored holds program

/-- Each statement of a run was allowed in the state that the protocol was in. -/
theorem Guarantee.sent {P : Protocol S Client State} {Seen Global : Db → Prop}
    {Local : Client → State → Session S Write Resource α → Db → Prop}
    (guarantee : Guarantee E P programs Seen Global Local)
    (obeys : ∀ client, (programs client).Obeys E Seen P client (P.start client) (fun _ _ => True))
    {db : Db} (base : Global db) {config : Config S Client Db Write Resource α}
    (reached : Reachable E programs db config) {client : Client} {op : S.Op} (sent : (client,op) ∈ config.history) :
    ∃ before state session, Reachable E programs db before ∧ Runs E programs (fun _ _ => True) before config ∧
      Local client state session before.committed ∧ P.allowed client state op := by
  have whole : Reachable E programs db config ∧ ∀ sent ∈ config.history, ∃ before state session,
      Reachable E programs db before ∧ Runs E programs (fun _ _ => True) before config ∧
        Local sent.1 state session before.committed ∧ P.allowed sent.1 state sent.2 := by
    refine Runs.invariant (fun config => Reachable E programs db config ∧ ∀ sent ∈ config.history,
      ∃ before state session, Reachable E programs db before ∧ Runs E programs (fun _ _ => True) before config ∧
        Local sent.1 state session before.committed ∧ P.allowed sent.1 state sent.2) reached
      ⟨.refl,by simp [Config.initial]⟩ ?_
    rintro middle label after ⟨there,permitted⟩ step _
    have later : ∀ sent ∈ middle.history, ∃ before state session,
        Reachable E programs db before ∧ Runs E programs (fun _ _ => True) before after ∧
          Local sent.1 state session before.committed ∧ P.allowed sent.1 state sent.2 := by
      intro issued member
      obtain ⟨before,state,session,known,runs,holds⟩ := permitted issued member
      exact ⟨before,state,session,known,.tail runs ⟨label,step,trivial⟩,holds⟩
    refine ⟨there.step step,?_⟩
    cases step with
    | start client idle => exact later
    | commit client session value opened returned => exact later
    | rollback client session error opened raised => exact later
    | issue client session op next opened sent free =>
      intro issued member
      rcases List.mem_append.mp member with earlier | last
      · exact later issued earlier
      · obtain ⟨state,holds,program⟩ := (guarantee.reachable obeys base there).2 client session opened
        rw [sent,Program.obeys_call] at program
        rw [List.mem_singleton.mp last]
        exact ⟨middle,state,session,there,.single ⟨_,.issue middle client session op next opened sent free,trivial⟩,
          holds,program.1⟩
  exact whole.2 (client,op) sent

/-- Each statement of a run was allowed in some state of the protocol. -/
theorem Guarantee.history {P : Protocol S Client State} {Seen Global : Db → Prop}
    {Local : Client → State → Session S Write Resource α → Db → Prop}
    (guarantee : Guarantee E P programs Seen Global Local)
    (obeys : ∀ client, (programs client).Obeys E Seen P client (P.start client) (fun _ _ => True))
    {db : Db} (base : Global db) {config : Config S Client Db Write Resource α}
    (reached : Reachable E programs db config) {client : Client} {op : S.Op} (sent : (client,op) ∈ config.history) :
    ∃ state, P.allowed client state op := by
  obtain ⟨_,state,_,_,_,_,allowed⟩ := guarantee.sent obeys base reached sent
  exact ⟨state,allowed⟩

end CryptoBrokerage.Transaction
