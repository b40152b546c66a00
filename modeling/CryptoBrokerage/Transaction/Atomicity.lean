import CryptoBrokerage.Transaction.Progress
import CryptoBrokerage.Transaction.Readers

/-! Transactions that are broken off. A process stops, a connection is lost or a
commit fails, at any time; what is committed then, and what the others see, is as
if no transaction had been but those that have been committed. -/
namespace CryptoBrokerage.Transaction

variable {S : Signature} {Client Db Write Resource α : Type} [DecidableEq Client]
  {E : Engine S Client Db Write Resource} {programs others : Client → Program S α}
  {before after config : Config S Client Db Write Resource α} {apart : Client → Bool} {db : Db}

inductive Disturbed (E : Engine S Client Db Write Resource) (programs : Client → Program S α) :
    Config S Client Db Write Resource α → Config S Client Db Write Resource α → Prop
  | step {before after : Config S Client Db Write Resource α} (label : Label S Client)
      (step : Step E programs before label after) : Disturbed E programs before after
  | breaks (config : Config S Client Db Write Resource α) (client : Client) (session : Session S Write Resource α)
      (error : S.Error) (opened : config.status client = .running session) :
      Disturbed E programs config (config.set client (.ended (.error error) session.issued))

def breakOff (config : Config S Client Db Write Resource α) (client : Client) (error : S.Error) :
    Option (Config S Client Db Write Resource α) :=
  match config.status client with
  | .running session => some (config.set client (.ended (.error error) session.issued))
  | _ => none

theorem breakOff_disturbed {client : Client} {error : S.Error} (broken : breakOff before client error = some after) :
    Disturbed E programs before after := by
  unfold breakOff at broken
  split at broken
  · next session opened =>
    cases broken
    exact .breaks before client session error opened
  · cases broken

def Endures (E : Engine S Client Db Write Resource) (programs : Client → Program S α) (db : Db) :
    Config S Client Db Write Resource α → Prop :=
  Relation.ReflTransGen (Disturbed E programs) (.initial db)

omit [DecidableEq Client] in
theorem Status.ended_committed {status : Status S Write Resource α} (committed : status.isCommitted = true) :
    status.isEnded = true := by
  cases status with
  | ended outcome issued => rfl
  | _ => cases committed

theorem Endures.runs (endures : Endures E programs db before) (runs : Runs E programs (fun _ _ => True) before after) :
    Endures E programs db after :=
  runs.invariant (Endures E programs db) endures fun _ _ _ endures step _ => .tail endures (.step _ step)

theorem Disturbed.stays (disturbed : Disturbed E programs before after) {client : Client}
    (ended : (before.status client).isEnded = true) : after.status client = before.status client := by
  cases disturbed with
  | step label step =>
    refine step.others ?_
    rintro rfl
    rw [step.unended] at ended
    cases ended
  | breaks other session error opened =>
    refine Config.set_other _ _ ?_
    rintro rfl
    rw [opened] at ended
    cases ended

structure Config.Failing (config : Config S Client Db Write Resource α) (apart : Client → Bool) : Prop where
  committed : ∀ client, (config.status client).isCommitted = true → apart client = false
  failed : ∀ client error issued, config.status client = .ended (.error error) issued → apart client = true

omit [DecidableEq Client] in
theorem failing_failed (config : Config S Client Db Write Resource α) :
    config.Failing fun client => (config.status client).isEnded && !(config.status client).isCommitted := by
  constructor
  · intro client committed
    simp [committed]
  · intro client error issued ended
    simp [ended,Status.isCommitted,Status.isEnded]

theorem Disturbed.failing (disturbed : Disturbed E programs before after) (failing : after.Failing apart) :
    before.Failing apart := by
  constructor
  · intro client committed
    refine failing.committed client ?_
    rwa [disturbed.stays (Status.ended_committed committed)]
  · intro client error issued ended
    refine failing.failed client error issued ?_
    rwa [disturbed.stays (congrArg Status.isEnded ended)]

theorem Step.kept_apart {label : Label S Client} (step : Step E programs before label after)
    (failing : after.Failing apart) (aside : apart label.client = true) : after.committed = before.committed := by
  cases step with
  | commit client session value opened returned =>
    have included : apart client = false := by
      apply failing.committed
      exact congrArg Status.isCommitted (Config.set_self before client _)
    cases included.symm.trans aside
  | _ => rfl

/-- What a system reaches with transactions broken off it reaches without the
broken ones, and without any others that are not committed. -/
theorem Endures.without (same : ∀ client, apart client = false → others client = programs client)
    (endures : Endures E programs db config) (failing : config.Failing apart) :
    ∃ mirror, Reachable E others db mirror ∧ config.Without apart mirror := by
  induction endures with
  | refl => exact ⟨.initial db,.refl,without_initial apart db⟩
  | tail _ disturbed ih =>
    obtain ⟨mirror,reached,without⟩ := ih (disturbed.failing failing)
    cases disturbed with
    | step label step =>
      cases aside : apart label.client with
      | true => exact ⟨mirror,reached,step.without_apart (step.kept_apart failing aside) aside without⟩
      | false =>
        obtain ⟨next,move,without⟩ := step.without_included same aside without
        exact ⟨next,reached.step move,without⟩
    | breaks client session error opened =>
      have aside : apart client = true := failing.failed client error session.issued (Config.set_self _ client _)
      refine ⟨mirror,reached,without.committed,without.history,fun other included => ?_,without.idle⟩
      rw [without.others other included]
      refine (Config.set_other _ _ ?_).symm
      rintro rfl
      rw [included] at aside
      cases aside

section Progress
variable {Rank : Type} [Preorder Rank] [WellFoundedGT Rank] {rank : Resource → Rank}

/-- A transaction that is broken off leaves nothing that another one could wait for. -/
theorem Endures.moves (ascending : ∀ config, Reachable E programs db config → ∀ client session,
      config.status client = .running session → session.Ascending E rank config.committed)
    (endures : Endures E programs db config) {client : Client} (unended : (config.status client).isEnded = false) :
    ∃ other, Moves E programs config other := by
  obtain ⟨mirror,reached,without⟩ := endures.without (fun _ _ => rfl) (failing_failed config)
  have shared (one : Client) (session : Session S Write Resource α) (running : config.status one = .running session) :
      mirror.status one = .running session := by
    rw [without.others one (by rw [running]; rfl)]
    exact running
  have exclusive : Exclusive config := fun one other different mine theirs first second =>
    reached.exclusive one other different mine theirs (shared one mine first) (shared other theirs second)
  have ascends (one : Client) (session : Session S Write Resource α) (running : config.status one = .running session) :
      session.Ascending E rank config.committed := by
    rw [← without.committed]
    exact ascending mirror reached one session (shared one session running)
  exact exists_moves exclusive ascends unended

end Progress

end CryptoBrokerage.Transaction
