import CryptoBrokerage.Transaction.Serializable

/-! Transactions that only read. The others run as if there were none of them, they
wait for nobody, and every answer they get is one of a committed store. -/
namespace CryptoBrokerage.Transaction

variable {S : Signature} {Client Db Write Resource α β : Type}

def Engine.Quiet (E : Engine S Client Db Write Resource) (op : S.Op) : Prop :=
  ∀ client turn db, E.locks op db = [] ∧ ∀ reply writes, E.exec client turn op db = .ok (reply,writes) → writes = []

section Sessions
variable {E : Engine S Client Db Write Resource} {client : Client} {committed : Db}
  {session : Session S Write Resource α} {op : S.Op} {next : Except S.Error (S.Reply op) → Program S α}

structure Session.Quiet (E : Engine S Client Db Write Resource) (session : Session S Write Resource α) : Prop where
  program : session.program.Only E.Quiet
  writes : session.writes = []
  held : session.held = []

theorem quiet_start {program : Program S α} (only : program.Only E.Quiet) :
    (⟨program,[],[],[]⟩ : Session S Write Resource α).Quiet E := ⟨only,rfl,rfl⟩

theorem Session.Quiet.proceed (quiet : session.Quiet E) (sent : session.program = .call op next) (client : Client)
    (committed : Db) : (E.proceed client committed session op next).Quiet E ∧
      (E.proceed client committed session op next).program =
        next ((E.exec client session.issued.length op committed).map Prod.fst) := by
  have only := quiet.program
  rw [sent] at only
  obtain ⟨free,unwritten⟩ := only.1 client session.issued.length committed
  cases answered : E.exec client session.issued.length op committed with
  | ok pair =>
    obtain ⟨reply,writes⟩ := pair
    obtain rfl := unwritten reply writes answered
    have seen : E.exec client session.issued.length op (E.visible committed session.writes) = .ok (reply,[]) := by
      rw [quiet.writes]
      exact answered
    rw [E.proceed_ok next seen,quiet.writes,quiet.held]
    exact ⟨⟨only.2 _,rfl,free⟩,rfl⟩
  | error error =>
    have seen : E.exec client session.issued.length op (E.visible committed session.writes) = .error error := by
      rw [quiet.writes]
      exact answered
    rw [E.proceed_error next seen]
    exact ⟨⟨only.2 _,quiet.writes,quiet.held⟩,rfl⟩

end Sessions

section Runs
variable [DecidableEq Client] {E : Engine S Client Db Write Resource} {programs others : Client → Program S α}
  {before after mirror config : Config S Client Db Write Resource α} {label : Label S Client} {client : Client}
  {apart : Client → Bool}

def Config.Quiet (E : Engine S Client Db Write Resource) (config : Config S Client Db Write Resource α)
    (client : Client) : Prop :=
  ∀ session, config.status client = .running session → session.Quiet E

theorem Step.quiet (only : (programs client).Only E.Quiet) (step : Step E programs before label after)
    (quiet : before.Quiet E client) : after.Quiet E client := by
  intro session running
  rcases step.running running with same | rfl | ⟨op,next,earlier,_,opened,sent,rfl⟩
  · exact quiet session same
  · exact quiet_start only
  · exact ((quiet earlier opened).proceed sent client before.committed).1

theorem Reachable.quiet (only : (programs client).Only E.Quiet) {db : Db} (reached : Reachable E programs db config) :
    config.Quiet E client :=
  Runs.invariant (fun config => config.Quiet E client) reached (fun session running => by cases running)
    fun _ _ _ quiet step _ => step.quiet only quiet

theorem Step.quiet_committed (step : Step E programs before label after) (quiet : before.Quiet E label.client) :
    after.committed = before.committed := by
  cases step with
  | commit client session value opened returned =>
    change E.visible before.committed session.writes = before.committed
    rw [(quiet session opened).writes]
    rfl
  | _ => rfl

structure Config.Without (apart : Client → Bool) (config mirror : Config S Client Db Write Resource α) : Prop where
  committed : mirror.committed = config.committed
  history : mirror.history = config.history.filter fun sent => !apart sent.1
  others : ∀ client, apart client = false → mirror.status client = config.status client
  idle : ∀ client, apart client = true → mirror.status client = .ready

omit [DecidableEq Client] in
theorem without_initial (apart : Client → Bool) (db : Db) :
    (.initial db : Config S Client Db Write Resource α).Without apart (.initial db) :=
  ⟨rfl,rfl,fun _ _ => rfl,fun _ _ => rfl⟩

omit [DecidableEq Client] in
theorem Config.Without.free (without : config.Without apart mirror) {needed : List Resource}
    (free : config.Free client needed) : mirror.Free client needed := by
  intro other different resource member
  cases aside : apart other with
  | true =>
    rw [without.idle other aside]
    exact List.not_mem_nil
  | false =>
    rw [without.others other aside]
    exact free other different resource member

theorem Config.Without.set (without : config.Without apart mirror) (included : apart client = false)
    (status : Status S Write Resource α) : (config.set client status).Without apart (mirror.set client status) := by
  refine ⟨without.committed,without.history,fun other aside => ?_,fun other aside => ?_⟩
  · by_cases same : other = client
    · rw [same,Config.set_self,Config.set_self]
    · rw [Config.set_other _ _ same,Config.set_other _ _ same]
      exact without.others other aside
  · have different : other ≠ client := by
      rintro rfl
      rw [included] at aside
      cases aside
    rw [Config.set_other _ _ different]
    exact without.idle other aside

/-- A step of a client that is set apart. -/
theorem Step.without_apart (step : Step E programs before label after) (kept : after.committed = before.committed)
    (aside : apart label.client = true) (without : before.Without apart mirror) : after.Without apart mirror := by
  have history : after.history.filter (fun sent => !apart sent.1) =
      before.history.filter fun sent => !apart sent.1 := by
    cases step with
    | issue client session op next opened sent free =>
      have dropped : apart client = true := aside
      change (before.history ++ [(client,op)]).filter _ = _
      rw [List.filter_append,List.filter_cons_of_neg (by simp [dropped]),List.filter_nil,List.append_nil]
    | _ => rfl
  refine ⟨without.committed.trans kept.symm,without.history.trans history.symm,?_,without.idle⟩
  intro client included
  have different : client ≠ label.client := by
    rintro rfl
    rw [included] at aside
    cases aside
  rw [step.others different]
  exact without.others client included

/-- A step of another client. -/
theorem Step.without_included (same : ∀ client, apart client = false → others client = programs client)
    (step : Step E programs before label after) (included : apart label.client = false)
    (without : before.Without apart mirror) :
    ∃ next, Step E others mirror label next ∧ after.Without apart next := by
  have shared := without.others label.client included
  cases step with
  | start client idle =>
    have started : Step E others mirror _ _ := .start mirror client (shared.trans idle)
    rw [same client included] at started
    exact ⟨_,started,without.set included _⟩
  | issue client session op next opened sent free =>
    have unheld : mirror.Free client (E.locks op (E.visible mirror.committed session.writes)) := by
      rw [without.committed]
      exact without.free free
    refine ⟨_,.issue mirror client session op next (shared.trans opened) sent unheld,?_⟩
    have moved := without.set included (.running (E.proceed client before.committed session op next))
    rw [← without.committed] at moved ⊢
    refine ⟨moved.committed,?_,moved.others,moved.idle⟩
    have kept : apart client = false := included
    change mirror.history ++ [(client,op)] = (before.history ++ [(client,op)]).filter _
    rw [List.filter_append,← without.history,List.filter_cons_of_pos (by simp [kept]),List.filter_nil]
  | commit client session value opened returned =>
    have moved := without.set included (.ended (.ok value) session.issued)
    refine ⟨_,.commit mirror client session value (shared.trans opened) returned,?_,moved.history,moved.others,moved.idle⟩
    exact congrArg (fun db => E.visible db session.writes) without.committed
  | rollback client session error opened raised =>
    exact ⟨_,.rollback mirror client session error (shared.trans opened) raised,without.set included _⟩

/-- What a system reaches it reaches without the clients that only read, or with
other ones in their place. -/
theorem Reachable.without (only : ∀ client, apart client = true → (programs client).Only E.Quiet)
    (same : ∀ client, apart client = false → others client = programs client) {db : Db}
    (reached : Reachable E programs db config) :
    ∃ mirror, Reachable E others db mirror ∧ config.Without apart mirror := by
  refine (Runs.invariant (fun config => Reachable E programs db config ∧
    ∃ mirror, Reachable E others db mirror ∧ config.Without apart mirror) reached
    ⟨.refl,.initial db,.refl,without_initial apart db⟩ ?_).2
  rintro before label after ⟨there,mirror,mirrored,without⟩ step _
  refine ⟨there.step step,?_⟩
  cases aside : apart label.client with
  | true => exact ⟨mirror,mirrored,step.without_apart (step.quiet_committed (there.quiet (only _ aside))) aside without⟩
  | false =>
    obtain ⟨next,move,without⟩ := step.without_included same aside without
    exact ⟨next,mirrored.step move,without⟩

end Runs

section Alone
variable [DecidableEq Client] {E : Engine S Client Db Write Resource} {programs : Client → Program S α}
  {config : Config S Client Db Write Resource α} {client : Client}

/-- An open transaction that only reads can end by its own steps, as if nothing
were committed meanwhile. The induction is on what is left of its program. -/
theorem Session.Quiet.ends {session : Session S Write Resource α} (quiet : session.Quiet E)
    (running : config.status client = .running session) :
    ∃ last, Runs E programs (fun _ label => label.client = client) config last ∧ last.committed = config.committed ∧
      (∀ other, other ≠ client → last.status other = config.status other) ∧
      ∃ issued, last.status client = .ended (E.resume client config.committed session).outcome issued := by
  generalize same : session.program = program
  induction program generalizing session config with
  | done outcome =>
    have ended : (E.resume client config.committed session).outcome = outcome :=
      (E.resume_done config.committed same).1
    rw [ended]
    cases outcome with
    | ok value =>
      have step : Step E programs config _ _ := .commit config client session value running same
      refine ⟨_,.single ⟨_,step,rfl⟩,step.quiet_committed fun theirs open' => ?_,fun other different =>
        step.others different,_,Config.set_self ..⟩
      cases running.symm.trans open'
      exact quiet
    | error error =>
      have step : Step E programs config _ _ := .rollback config client session error running same
      exact ⟨_,.single ⟨_,step,rfl⟩,rfl,fun other different => step.others different,_,Config.set_self ..⟩
  | call op next ih =>
    have only := quiet.program
    rw [same] at only
    have free : config.Free client (E.locks op (E.visible config.committed session.writes)) := by
      intro other different resource member
      rw [(only.1 client 0 _).1] at member
      cases member
    have step : Step E programs config _ _ := .issue config client session op next running same free
    obtain ⟨later,rest⟩ := quiet.proceed same client config.committed
    have opened : ({ config.set client (.running (E.proceed client config.committed session op next)) with
        history := config.history ++ [(client,op)] } : Config S Client Db Write Resource α).status client = _ :=
      Config.set_self ..
    obtain ⟨last,runs,committed,others,issued,ended⟩ := ih _ later opened rest
    refine ⟨last,.head ⟨_,step,rfl⟩ runs,committed,fun other different =>
      (others other different).trans (step.others different),issued,?_⟩
    rw [← E.resume_proceed same]
    exact ended

/-- A transaction that only reads can be answered at once, from what is committed. -/
theorem answers_at_once (only : (programs client).Only E.Quiet) (ready : config.status client = .ready) :
    ∃ last, Runs E programs (fun _ label => label.client = client) config last ∧ last.committed = config.committed ∧
      (∀ other, other ≠ client → last.status other = config.status other) ∧
      ∃ issued, last.status client = .ended (E.transact client (programs client) config.committed).outcome issued := by
  have step : Step E programs config _ _ := .start config client ready
  have opened : (config.set client (.running ⟨programs client,[],[],[]⟩)).status client = _ := Config.set_self ..
  have ends : ∃ last, Runs E programs _ _ last ∧ _ := (quiet_start only).ends opened
  obtain ⟨last,runs,committed,others,issued,ended⟩ := ends
  exact ⟨last,.head ⟨_,step,rfl⟩ runs,committed,fun other different =>
    (others other different).trans (step.others different),issued,ended⟩

end Alone

namespace Program
variable (E : Engine S Client Db Write Resource) (client : Client)

/-- The program can end so if each statement is answered on some store of a kind. -/
inductive Yields (Saw : Db → Prop) : ℕ → Program S α → Except S.Error α → Prop
  | done (turn : ℕ) (outcome : Except S.Error α) : Yields Saw turn (.done outcome) outcome
  | call {turn : ℕ} {op : S.Op} {next : Except S.Error (S.Reply op) → Program S α} {outcome : Except S.Error α} (db : Db)
      (saw : Saw db) (rest : Yields Saw (turn + 1) (next ((E.exec client turn op db).map Prod.fst)) outcome) :
      Yields Saw turn (.call op next) outcome

variable {E client} {Saw Seen : Db → Prop} {turn : ℕ}

theorem Yields.mono (more : ∀ db, Saw db → Seen db) {program : Program S α} {outcome : Except S.Error α}
    (yields : program.Yields E client Saw turn outcome) : program.Yields E client Seen turn outcome := by
  induction yields with
  | done turn outcome => exact .done turn outcome
  | call db saw _ ih => exact .call db (more db saw) ih

theorem Yields.ended {last outcome : Except S.Error α}
    (yields : (Program.done last : Program S α).Yields E client Saw turn outcome) : last = outcome := by
  cases yields
  rfl

theorem Yields.returned {allowed : α → Prop} {program : Program S α} {value : α}
    (yields : program.Yields E client Saw turn (.ok value)) (returns : program.Returns allowed) : allowed value := by
  generalize same : (.ok value : Except S.Error α) = outcome at yields
  induction yields with
  | done turn outcome =>
    subst same
    exact returns
  | call db saw _ ih => exact ih (returns _) same

end Program

section Answers
variable [DecidableEq Client] {E : Engine S Client Db Write Resource} {programs : Client → Program S α}
  {first last : Config S Client Db Write Resource α} {client : Client}

def Between (E : Engine S Client Db Write Resource) (programs : Client → Program S α)
    (first last : Config S Client Db Write Resource α) (db : Db) : Prop :=
  ∃ config, Runs E programs (fun _ _ => True) first config ∧ Runs E programs (fun _ _ => True) config last ∧
    config.committed = db

theorem Between.earlier {before : Config S Client Db Write Resource α} {label : Label S Client} {db : Db}
    (between : Between E programs first last db) (step : Step E programs before label first) :
    Between E programs before last db := by
  obtain ⟨config,reached,rest,committed⟩ := between
  exact ⟨config,.head ⟨label,step,trivial⟩ reached,rest,committed⟩

/-- A transaction that only reads ends as its program does when every statement is
answered on a store that is committed between its start and its end. -/
theorem Runs.yields {outcome : Except S.Error α} {issued : List S.Op} (only : (programs client).Only E.Quiet)
    (runs : Runs E programs (fun _ _ => True) first last) (ready : first.status client = .ready)
    (ended : last.status client = .ended outcome issued) :
    (programs client).Yields E client (Between E programs first last) 0 outcome := by
  have opened (config : Config S Client Db Write Resource α) (rest : Runs E programs (fun _ _ => True) config last) :
      (config.status client = .ready → (programs client).Yields E client (Between E programs config last) 0 outcome) ∧
      ∀ session, config.status client = .running session → session.Quiet E →
        session.program.Yields E client (Between E programs config last) session.issued.length outcome := by
    induction rest using Relation.ReflTransGen.head_induction_on with
    | refl =>
      constructor
      · intro ready
        cases ready.symm.trans ended
      · intro session running
        cases running.symm.trans ended
    | head move rest ih =>
      obtain ⟨label,step,_⟩ := move
      have earlier : ∀ db, Between E programs _ last db → Between E programs _ last db := fun _ between =>
        between.earlier step
      constructor
      · intro ready
        by_cases mine : client = label.client
        · exact (ih.2 _ (step.opens mine ready).1 (quiet_start only)).mono earlier
        · rw [← step.others mine] at ready
          exact (ih.1 ready).mono earlier
      · intro session running quiet
        by_cases mine : client = label.client
        · cases program : session.program with
          | call op next =>
            obtain ⟨_,moved,_⟩ := step.sends mine running program
            obtain ⟨later,rest'⟩ := quiet.proceed program client _
            have yields := ih.2 _ moved later
            rw [rest',E.proceed_issued,List.length_append] at yields
            exact .call _ ⟨_,.refl,.head ⟨label,step,trivial⟩ rest,rfl⟩ (yields.mono earlier)
          | done final =>
            have stays := Runs.stays rest (congrArg Status.isEnded (step.finishes mine running program).1)
            rw [(step.finishes mine running program).1] at stays
            cases stays.symm.trans ended
            exact .done _ _
        · rw [← step.others mine] at running
          exact (ih.2 session running quiet).mono earlier
  exact (opened first runs).1 ready

end Answers

end CryptoBrokerage.Transaction
