import CryptoBrokerage.Transaction.Schedule

/-! Programs that send the same statements whatever the replies, and end in outcomes
that are related. Each run of a system of such programs is matched, step by step, by
a run of the other with the same committed stores and the same history. -/
namespace CryptoBrokerage.Transaction

inductive Resembles {Error α β : Type} (R : Error → Error → Prop) (V : α → β → Prop) :
    Except Error α → Except Error β → Prop
  | ok {value : α} {other : β} (related : V value other) : Resembles R V (.ok value) (.ok other)
  | error {error other : Error} (related : R error other) : Resembles R V (.error error) (.error other)

theorem Resembles.refl {Error α : Type} {R : Error → Error → Prop} (alike : ∀ error, R error error)
    (outcome : Except Error α) : Resembles R Eq outcome outcome := by
  cases outcome with
  | ok value => exact .ok rfl
  | error error => exact .error (alike error)

variable {S : Signature} {Client Db Write Resource α β γ δ : Type} {R : S.Error → S.Error → Prop}
  {V : α → β → Prop} {W : γ → δ → Prop}

namespace Program

def Matches (R : S.Error → S.Error → Prop) (V : α → β → Prop) : Program S α → Program S β → Prop
  | .done outcome, other => ∃ last, other = .done last ∧ Resembles R V outcome last
  | .call op next, other => ∃ rest, other = .call op rest ∧ ∀ reply, (next reply).Matches R V (rest reply)

theorem matches_done {outcome : Except S.Error α} {other : Except S.Error β} (resembles : Resembles R V outcome other) :
    (Program.done outcome : Program S α).Matches R V (.done other) := ⟨other,rfl,resembles⟩

theorem matches_refl (alike : ∀ error, R error error) (program : Program S α) : program.Matches R Eq program := by
  induction program with
  | done outcome => exact matches_done (.refl alike outcome)
  | call op next ih => exact ⟨next,rfl,ih⟩

theorem Matches.bind {program : Program S α} {other : Program S β} {next : α → Program S γ} {rest : β → Program S δ}
    (first : program.Matches R V other) (later : ∀ value last, V value last → (next value).Matches R W (rest last)) :
    (program >>= next).Matches R W (other >>= rest) := by
  induction program generalizing other with
  | done outcome =>
    obtain ⟨last,rfl,resembles⟩ := first
    cases resembles with
    | ok related => exact later _ _ related
    | error related => exact matches_done (.error related)
  | call op next ih =>
    obtain ⟨follow,rfl,replies⟩ := first
    exact ⟨_,rfl,fun reply => ih reply (replies reply)⟩

theorem Matches.attempt {program : Program S α} {other : Program S β} (first : program.Matches R V other) :
    program.attempt.Matches R (Resembles R V) other.attempt := by
  induction program generalizing other with
  | done outcome =>
    obtain ⟨last,rfl,resembles⟩ := first
    exact matches_done (.ok resembles)
  | call op next ih =>
    obtain ⟨follow,rfl,replies⟩ := first
    exact ⟨_,rfl,fun reply => ih reply (replies reply)⟩

/-- Related programs that follow the same one. -/
theorem matches_after (alike : ∀ error, R error error) (program : Program S α) {next : α → Program S γ}
    {rest : α → Program S δ} (later : ∀ value, (next value).Matches R W (rest value)) :
    (program >>= next).Matches R W (program >>= rest) := by
  refine (matches_refl alike program).bind ?_
  rintro value _ rfl
  exact later value

end Program

inductive Status.Matches (R : S.Error → S.Error → Prop) (V : α → β → Prop) :
    Status S Write Resource α → Status S Write Resource β → Prop
  | ready : Matches R V .ready .ready
  | running {program : Program S α} {other : Program S β} (programs : program.Matches R V other) (writes : List Write)
      (held : List Resource) (issued : List S.Op) :
      Matches R V (.running ⟨program,writes,held,issued⟩) (.running ⟨other,writes,held,issued⟩)
  | ended {outcome : Except S.Error α} {other : Except S.Error β} (resembles : Resembles R V outcome other)
      (issued : List S.Op) : Matches R V (.ended outcome issued) (.ended other issued)

theorem Status.Matches.held {status : Status S Write Resource α} {other : Status S Write Resource β}
    (alike : status.Matches R V other) : status.held = other.held := by
  cases alike <;> rfl

theorem Status.Matches.idle {other : Status S Write Resource β}
    (alike : (.ready : Status S Write Resource α).Matches R V other) : other = .ready := by
  cases alike
  rfl

theorem Status.Matches.opened {session : Session S Write Resource α} {other : Status S Write Resource β}
    (alike : (Status.running session).Matches R V other) : ∃ program, session.program.Matches R V program ∧
      other = .running ⟨program,session.writes,session.held,session.issued⟩ := by
  cases alike with
  | running programs writes held issued => exact ⟨_,programs,rfl⟩

structure Config.Matches (R : S.Error → S.Error → Prop) (V : α → β → Prop) (config : Config S Client Db Write Resource α)
    (other : Config S Client Db Write Resource β) : Prop where
  committed : config.committed = other.committed
  history : config.history = other.history
  status : ∀ client, (config.status client).Matches R V (other.status client)

theorem proceed_matches {E : Engine S Client Db Write Resource} {client : Client} {committed : Db}
    {session : Session S Write Resource α} {other : Program S β} {op : S.Op}
    {next : Except S.Error (S.Reply op) → Program S α} {rest : Except S.Error (S.Reply op) → Program S β}
    (replies : ∀ reply, (next reply).Matches R V (rest reply)) :
    (Status.running (E.proceed client committed session op next)).Matches R V
      (.running (E.proceed client committed ⟨other,session.writes,session.held,session.issued⟩ op rest)) := by
  cases answered : E.exec client session.issued.length op (E.visible committed session.writes) with
  | ok pair =>
    have same : E.exec client (⟨other,session.writes,session.held,session.issued⟩ : Session S Write Resource β).issued.length
        op (E.visible committed session.writes) = .ok pair := answered
    rw [E.proceed_ok next answered,E.proceed_ok rest same]
    exact .running (replies _) _ _ _
  | error error =>
    have same : E.exec client (⟨other,session.writes,session.held,session.issued⟩ : Session S Write Resource β).issued.length
        op (E.visible committed session.writes) = .error error := answered
    rw [E.proceed_error next answered,E.proceed_error rest same]
    exact .running (replies _) _ _ _

variable [DecidableEq Client] {E : Engine S Client Db Write Resource} {programs : Client → Program S α}
  {others : Client → Program S β} {before after : Config S Client Db Write Resource α}
  {mirror : Config S Client Db Write Resource β} {label : Label S Client}

theorem Config.Matches.set (alike : before.Matches R V mirror) {client : Client} {status : Status S Write Resource α}
    {other : Status S Write Resource β} (same : status.Matches R V other) (one : Client) :
    ((before.set client status).status one).Matches R V ((mirror.set client other).status one) := by
  by_cases own : one = client
  · rw [own,Config.set_self,Config.set_self]
    exact same
  · rw [Config.set_other _ _ own,Config.set_other _ _ own]
    exact alike.status one

theorem Step.matched (same : ∀ client, (programs client).Matches R V (others client))
    (alike : before.Matches R V mirror) (step : Step E programs before label after) :
    ∃ next, Step E others mirror label next ∧ after.Matches R V next := by
  cases step with
  | start client idle =>
    have ready := (idle ▸ alike.status client).idle
    exact ⟨_,.start mirror client ready,alike.committed,alike.history,alike.set (.running (same client) [] [] [])⟩
  | issue client session op next opened sent free =>
    obtain ⟨program,programs,running⟩ := (opened ▸ alike.status client).opened
    rw [sent] at programs
    obtain ⟨rest,called,replies⟩ := programs
    have unheld : mirror.Free client (E.locks op (E.visible mirror.committed session.writes)) := by
      intro other different resource member
      rw [← (alike.status other).held]
      rw [← alike.committed] at member
      exact free other different resource member
    refine ⟨_,.issue mirror client _ op rest running called unheld,alike.committed,?_,?_⟩
    · exact congrArg (· ++ [(client,op)]) alike.history
    · rw [← alike.committed]
      exact alike.set (proceed_matches replies)
  | commit client session value opened returned =>
    obtain ⟨program,programs,running⟩ := (opened ▸ alike.status client).opened
    rw [returned] at programs
    obtain ⟨last,ended,resembles⟩ := programs
    cases resembles with
    | ok related =>
      refine ⟨_,.commit mirror client _ _ running ended,?_,alike.history,alike.set (.ended (.ok related) _)⟩
      exact congrArg (fun db => E.visible db session.writes) alike.committed
  | rollback client session error opened raised =>
    obtain ⟨program,programs,running⟩ := (opened ▸ alike.status client).opened
    rw [raised] at programs
    obtain ⟨last,ended,resembles⟩ := programs
    cases resembles with
    | error related =>
      exact ⟨_,.rollback mirror client _ _ running ended,alike.committed,alike.history,
        alike.set (.ended (.error related) _)⟩

/-- Whatever one system reaches, the other one reaches with the same store, the same
history and related outcomes. -/
theorem Reachable.matched (same : ∀ client, (programs client).Matches R V (others client)) {db : Db}
    (reached : Reachable E programs db after) :
    ∃ mirror, Reachable E others db mirror ∧ after.Matches R V mirror := by
  refine Runs.invariant (fun config => ∃ mirror, Reachable E others db mirror ∧ config.Matches R V mirror) reached
    ⟨.initial db,.refl,rfl,rfl,fun _ => .ready⟩ ?_
  rintro before label after ⟨mirror,there,alike⟩ step _
  obtain ⟨next,move,alike⟩ := step.matched same alike
  exact ⟨next,there.step move,alike⟩

end CryptoBrokerage.Transaction
