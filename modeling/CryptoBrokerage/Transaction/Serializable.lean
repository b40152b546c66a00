import CryptoBrokerage.Transaction.Protocol
import Mathlib.Data.List.Induction

/-! Serial equivalence of transactions with one critical section each. Until it
enters its section a transaction writes nothing and reads nothing that others
change; after that it runs alone. Every run in which no transaction enters while
another is inside leaves what running them in the order of entry leaves. -/
namespace CryptoBrokerage.Transaction

variable {S : Signature} {Client Db Write Resource α : Type}

section Sessions
variable (E : Engine S Client Db Write Resource)

def Engine.resume (client : Client) (db : Db) (session : Session S Write Resource α) : Receipt S Db α :=
  settle db (E.run client session.program ⟨E.visible db session.writes,session.issued⟩)

theorem Engine.resume_start (client : Client) (db : Db) (program : Program S α) :
    E.resume client db (⟨program,[],[],[]⟩ : Session S Write Resource α) = E.transact client program db := rfl

theorem Engine.resume_proceed {client : Client} {db : Db} {session : Session S Write Resource α} {op : S.Op}
    {next : Except S.Error (S.Reply op) → Program S α} (sent : session.program = .call op next) :
    E.resume client db (E.proceed client db session op next) = E.resume client db session := by
  unfold Engine.resume
  rw [sent,E.run_call]
  cases result : E.exec client session.issued.length op (E.visible db session.writes) with
  | ok pair =>
    obtain ⟨reply,writes⟩ := pair
    rw [E.proceed_ok next result,
      @Engine.issue_ok S Client Db Write Resource E client op ⟨E.visible db session.writes,session.issued⟩ _ _ result]
    simp only [E.visible_append]
  | error error =>
    rw [E.proceed_error next result,
      @Engine.issue_error S Client Db Write Resource E client op ⟨E.visible db session.writes,session.issued⟩ _ result]

theorem Engine.resume_congr {client : Client} {db : Db} {first second : Session S Write Resource α}
    (program : first.program = second.program) (writes : first.writes = second.writes)
    (issued : first.issued = second.issued) : E.resume client db first = E.resume client db second := by
  unfold Engine.resume
  rw [program,writes,issued]

theorem Engine.proceed_quiet {client : Client} {db : Db} {session : Session S Write Resource α} {op : S.Op}
    (next : Except S.Error (S.Reply op) → Program S α) {reply : Except S.Error (S.Reply op)}
    (quiet : E.exec client session.issued.length op (E.visible db session.writes) =
      reply.map (fun value => (value,[]))) :
    (E.proceed client db session op next).program = next reply ∧
      (E.proceed client db session op next).writes = session.writes ∧
      (E.proceed client db session op next).issued = session.issued ++ [op] := by
  cases reply with
  | ok value =>
    rw [E.proceed_ok next quiet]
    exact ⟨rfl,List.append_nil _,rfl⟩
  | error error =>
    rw [E.proceed_error next quiet]
    exact ⟨rfl,rfl,rfl⟩

theorem Engine.resume_done {client : Client} {session : Session S Write Resource α}
    {outcome : Except S.Error α} (db : Db) (returned : session.program = .done outcome) :
    (E.resume client db session).outcome = outcome ∧ (E.resume client db session).issued = session.issued ∧
      (session.writes = [] → (E.resume client db session).after = db) := by
  unfold Engine.resume
  rw [returned,E.run_done]
  cases outcome with
  | ok value =>
    refine ⟨rfl,rfl,fun writes => ?_⟩
    rw [writes]
    rfl
  | error error => exact ⟨rfl,rfl,fun _ => rfl⟩

end Sessions

/-- Until it enters its section the program writes nothing, and each reply is
the same on all the stores that it may see. -/
def Program.Calm (E : Engine S Client Db Write Resource) (enters : S.Op → Prop) (Seen : Db → Prop)
    (client : Client) : Program S α → List S.Op → Prop
  | .done _, _ => True
  | .call op next, issued => enters op ∨ (¬enters op ∧ ∃ reply : Except S.Error (S.Reply op),
      (∀ db, Seen db → E.exec client issued.length op db = reply.map (fun value => (value,[]))) ∧
      (next reply).Calm E enters Seen client (issued ++ [op]))

def watching (E : Engine S Client Db Write Resource) (enters : Client → S.Op → Prop) (Seen : Client → Db → Prop) :
    Protocol S Client Unit where
  start _ := ()
  allowed client _ op := ¬enters client op ∧ ∀ turn db reply writes, Seen client db →
    E.exec client turn op db = .ok (reply,writes) → writes = []
  after _ _ _ _ := ()

def Program.Watches (E : Engine S Client Db Write Resource) (enters : Client → S.Op → Prop)
    (Seen : Client → Db → Prop) (client : Client) (program : Program S α) : Prop :=
  program.Obeys E (Seen client) (watching E enters Seen) client () (fun _ _ => True)

def Careful (enters : Client → S.Op → Prop) (config : Config S Client Db Write Resource α) :
    Label S Client → Prop
  | .issue client op => enters client op → ∀ other, other ≠ client → ∀ session,
      config.status other = .running session → ∀ sent ∈ session.issued, ¬enters other sent
  | _ => True

theorem Program.Watches.run {E : Engine S Client Db Write Resource} {enters : Client → S.Op → Prop}
    {Seen : Client → Db → Prop} {client : Client} {program : Program S α}
    (watches : program.Watches E enters Seen client) {view : View S Db} (seen : Seen client view.db) :
    (E.run client program view).2.db = view.db := by
  induction program generalizing view with
  | done outcome => rfl
  | call op next ih =>
    obtain ⟨⟨_,silent⟩,rest⟩ := watches
    have kept : (E.issue client op view).2.db = view.db ∧ E.Answers (Seen client) client op (E.issue client op view).1 := by
      cases result : E.exec client view.issued.length op view.db with
      | ok pair =>
        obtain ⟨reply,writes⟩ := pair
        rw [E.issue_ok result,silent _ view.db reply writes seen result]
        exact ⟨rfl,view.issued.length,view.db,seen,by rw [result]; rfl⟩
      | error error =>
        rw [E.issue_error result]
        exact ⟨rfl,view.issued.length,view.db,seen,by rw [result]; rfl⟩
    rw [E.run_call]
    exact (ih _ (rest _ kept.2) (by rw [kept.1]; exact seen)).trans kept.1

theorem Program.Watches.transact {E : Engine S Client Db Write Resource} {enters : Client → S.Op → Prop}
    {Seen : Client → Db → Prop} {client : Client} {program : Program S α}
    (watches : program.Watches E enters Seen client) {db : Db} (seen : Seen client db) :
    (E.transact client program db).after = db := by
  have kept := @Program.Watches.run _ _ _ _ _ _ E enters Seen client program watches ⟨db,[]⟩ seen
  unfold Engine.transact
  rcases ran : E.run client program ⟨db,[]⟩ with ⟨_ | _,view⟩
  · rfl
  · rw [ran] at kept
    exact kept

section Order
variable [DecidableEq Client] (enters : Client → S.Op → Prop) [∀ client op, Decidable (enters client op)]

def entryOrder (history : List (Client × S.Op)) : List Client :=
  history.foldl (fun order sent => if enters sent.1 sent.2 ∧ sent.1 ∉ order then order ++ [sent.1] else order) []

theorem entryOrder_append (history : List (Client × S.Op)) (client : Client) (op : S.Op) :
    entryOrder enters (history ++ [(client,op)]) =
      if enters client op ∧ client ∉ entryOrder enters history then entryOrder enters history ++ [client]
      else entryOrder enters history := by
  unfold entryOrder
  rw [List.foldl_append]
  rfl

end Order

section Outside
variable (E : Engine S Client Db Write Resource) (programs : Client → Program S α)
  (enters : Client → S.Op → Prop) (Seen : Client → Db → Prop)

def Waits (client : Client) : Prop := (programs client).Calm E (enters client) (Seen client) client []

/-- What is assumed of the programs: outside its section each waits or only
watches, and the transactions of others keep what it may see. -/
structure Sectioned : Prop where
  outside : ∀ client, Waits E programs enters Seen client ∨ (programs client).Watches E enters Seen client
  stable : ∀ client other db, other ≠ client → Seen client db → Seen other db →
    Seen client (E.transact other (programs other) db).after

def Outside (client : Client) : Status S Write Resource α → Prop
  | .ready => True
  | .running session => session.writes = [] ∧ (∀ op ∈ session.issued, ¬enters client op) ∧
      ((session.program.Calm E (enters client) (Seen client) client session.issued ∧ ∀ db, Seen client db →
          E.resume client db session = E.transact client (programs client) db) ∨
        (¬Waits E programs enters Seen client ∧ session.program.Watches E enters Seen client ∧
          (programs client).Watches E enters Seen client))
  | .ended outcome issued => (∀ op ∈ issued, ¬enters client op) ∧
      ∀ db, Seen client db → (E.transact client (programs client) db).after = db ∧
        (Waits E programs enters Seen client → (E.transact client (programs client) db).outcome = outcome ∧
          (E.transact client (programs client) db).issued = issued)

variable {E programs enters Seen}

theorem Outside.start (sectioned : Sectioned E programs enters Seen) (client : Client) :
    Outside E programs enters Seen client
      (.running ⟨programs client,[],[],[]⟩ : Status S Write Resource α) := by
  refine ⟨rfl,by simp,?_⟩
  by_cases waits : Waits E programs enters Seen client
  · exact Or.inl ⟨waits,fun db _ => E.resume_start client db _⟩
  · have watches := (sectioned.outside client).resolve_left waits
    exact Or.inr ⟨waits,watches,watches⟩

theorem clean_append {client : Client} {issued : List S.Op} {op : S.Op}
    (clean : ∀ sent ∈ issued, ¬enters client sent) (quiet : ¬enters client op) :
    ∀ sent ∈ issued ++ [op], ¬enters client sent := by
  intro sent member
  rcases List.mem_append.mp member with old | new
  · exact clean sent old
  · rwa [List.mem_singleton.mp new]

/-- A client outside its section enters it or stays outside, as its statement does. -/
theorem Outside.proceed {client : Client} {session : Session S Write Resource α} {op : S.Op}
    {next : Except S.Error (S.Reply op) → Program S α} {committed : Db} (seen : Seen client committed)
    (outside : Outside E programs enters Seen client (.running session)) (sent : session.program = .call op next) :
    (enters client op ∧ E.resume client committed (E.proceed client committed session op next) =
        E.transact client (programs client) committed) ∨
      (¬enters client op ∧ Outside E programs enters Seen client
        (.running (E.proceed client committed session op next))) := by
  obtain ⟨writes,clean,calm | watches⟩ := outside
  · obtain ⟨calm,resumes⟩ := calm
    rw [sent] at calm
    rcases calm with enter | ⟨quiet,reply,replies,calm⟩
    · exact Or.inl ⟨enter,by rw [E.resume_proceed sent,resumes committed seen]⟩
    · have shape (db : Db) (seen : Seen client db) := @Engine.proceed_quiet _ _ _ _ _ _ E client db session op next
        reply (by rw [writes]; exact replies db seen)
      obtain ⟨program,written,issued⟩ := shape committed seen
      refine Or.inr ⟨quiet,written.trans writes,?_,Or.inl ⟨?_,fun db seen => ?_⟩⟩
      · rw [issued]
        exact clean_append clean quiet
      · rw [program,issued]
        exact calm
      · obtain ⟨same,rest,sofar⟩ := shape db seen
        rw [← resumes db seen,← E.resume_proceed sent]
        exact E.resume_congr (program.trans same.symm) (written.trans rest.symm) (issued.trans sofar.symm)
  · obtain ⟨impatient,now,always⟩ := watches
    rw [sent] at now
    obtain ⟨⟨quiet,silent⟩,rest⟩ := now
    have plain : E.exec client session.issued.length op (E.visible committed session.writes) =
        E.exec client session.issued.length op committed := by rw [writes,E.visible_nil]
    refine Or.inr ⟨quiet,?_⟩
    cases result : E.exec client session.issued.length op (E.visible committed session.writes) with
    | ok pair =>
      obtain ⟨reply,more⟩ := pair
      have answered := plain.symm.trans result
      rw [E.proceed_ok next result,silent _ committed reply more seen answered,List.append_nil]
      exact ⟨writes,clean_append clean quiet,
        Or.inr ⟨impatient,rest _ ⟨session.issued.length,committed,seen,by rw [answered]; rfl⟩,always⟩⟩
    | error error =>
      have failed := plain.symm.trans result
      rw [E.proceed_error next result]
      exact ⟨writes,clean_append clean quiet,
        Or.inr ⟨impatient,rest _ ⟨session.issued.length,committed,seen,by rw [failed]; rfl⟩,always⟩⟩

theorem Outside.ended {client : Client} {session : Session S Write Resource α} {outcome : Except S.Error α}
    (outside : Outside E programs enters Seen client (.running session))
    (returned : session.program = .done outcome) :
    (∀ db, (E.resume client db session).after = db) ∧
      Outside E programs enters Seen client
        (.ended outcome session.issued : Status S Write Resource α) := by
  have quiet (db : Db) : (E.resume client db session).after = db := (E.resume_done db returned).2.2 outside.1
  obtain ⟨_,clean,calm | watches⟩ := outside
  · refine ⟨quiet,clean,fun db seen => ?_⟩
    rw [← calm.2 db seen]
    exact ⟨quiet db,fun _ => ⟨(E.resume_done db returned).1,(E.resume_done db returned).2.1⟩⟩
  · exact ⟨quiet,clean,fun db seen => ⟨watches.2.2.transact seen,fun waits => absurd waits watches.1⟩⟩

/-- Clients served one after another keep what those still to come may see. -/
theorem Sectioned.seen_settled (sectioned : Sectioned E programs enters Seen) {db : Db}
    (seen : ∀ client, Seen client db) {order : List Client} (nodup : order.Nodup) :
    ∀ client, client ∉ order → Seen client (E.settled programs order db) := by
  induction order using List.reverseRecOn with
  | nil => exact fun client _ => seen client
  | append_singleton front last ih =>
    intro client absent
    rw [List.mem_append,not_or,List.mem_singleton] at absent
    obtain ⟨front,_,apart⟩ := List.nodup_append.mp nodup
    rw [E.settled_append]
    exact sectioned.stable client last _ (fun equal => absent.2 equal.symm) (ih front client absent.1)
      (ih front last fun member => apart last member last (List.mem_singleton_self last) rfl)

end Outside

section Serial
variable [DecidableEq Client] (E : Engine S Client Db Write Resource) (programs : Client → Program S α)
  (enters : Client → S.Op → Prop) [∀ client op, Decidable (enters client op)] (Seen : Client → Db → Prop)

/-- The clients that have entered did so one after another: all but the last
have ended, with what they have committed, and that one runs on their result. -/
structure Serial (db : Db) (config : Config S Client Db Write Resource α) (finished : List Client)
    (active : Option Client) : Prop where
  order : entryOrder enters config.history = finished ++ active.toList
  nodup : (finished ++ active.toList).Nodup
  committed : config.committed = E.settled programs finished db
  ended : ∀ first client rest, finished = first ++ client::rest → ∃ issued, config.status client =
    .ended (E.transact client (programs client) (E.settled programs first db)).outcome issued
  inside : ∀ client, active = some client → ∃ session, config.status client = .running session ∧
    (∃ op ∈ session.issued, enters client op) ∧
    E.resume client config.committed session = E.transact client (programs client) config.committed
  outside : ∀ client, client ∉ finished → active ≠ some client →
    Outside E programs enters Seen client (config.status client)
  seen : ∀ client, client ∉ finished → Seen client config.committed

variable {E programs enters Seen} {db : Db} {config : Config S Client Db Write Resource α}
  {finished : List Client} {active : Option Client}

theorem Serial.initial (seen : ∀ client, Seen client db) :
    Serial E programs enters Seen db (.initial db) [] none where
  order := rfl
  nodup := List.nodup_nil
  committed := rfl
  ended := by
    intro first client rest split
    simp at split
  inside := by
    intro client entered
    cases entered
  outside _ _ _ := trivial
  seen client _ := seen client

theorem Serial.running (serial : Serial E programs enters Seen db config finished active) {client : Client}
    {session : Session S Write Resource α} (opened : config.status client = .running session) :
    client ∉ finished := by
  intro member
  obtain ⟨first,rest,split⟩ := List.append_of_mem member
  obtain ⟨issued,ended⟩ := serial.ended first client rest split
  rw [opened] at ended
  cases ended

theorem Serial.outside_step (serial : Serial E programs enters Seen db config finished active) {client : Client}
    (status : Status S Write Resource α) {history : List (Client × S.Op)}
    (same : entryOrder enters history = entryOrder enters config.history)
    (unfinished : client ∉ finished) (inactive : active ≠ some client)
    (outside : Outside E programs enters Seen client status) :
    Serial E programs enters Seen db { config.set client status with history } finished active where
  order := same.trans serial.order
  nodup := serial.nodup
  committed := serial.committed
  ended := by
    intro first other rest split
    have different : other ≠ client := by
      rintro rfl
      exact unfinished (by rw [split]; simp)
    obtain ⟨issued,ended⟩ := serial.ended first other rest split
    exact ⟨issued,(Config.set_other config status different).trans ended⟩
  inside := by
    intro other entered
    have different : other ≠ client := by
      rintro rfl
      exact inactive entered
    obtain ⟨session,running,within⟩ := serial.inside other entered
    exact ⟨session,(Config.set_other config status different).trans running,within⟩
  outside := by
    intro other unended idle
    by_cases equal : other = client
    · subst equal
      rw [show ({ config.set other status with history } : Config S Client Db Write Resource α).status other =
        status from Config.set_self config other status]
      exact outside
    · rw [show ({ config.set client status with history } : Config S Client Db Write Resource α).status other =
        config.status other from Config.set_other config status equal]
      exact serial.outside other unended idle
  seen := serial.seen

theorem Serial.inside_step (serial : Serial E programs enters Seen db config finished active) {client : Client}
    {session : Session S Write Resource α} {history : List (Client × S.Op)}
    (alone : ∀ other, active = some other → other = client)
    (order : entryOrder enters history = finished ++ [client]) (unfinished : client ∉ finished)
    (entered : ∃ op ∈ session.issued, enters client op)
    (resumes : E.resume client config.committed session = E.transact client (programs client) config.committed) :
    Serial E programs enters Seen db { config.set client (.running session) with history } finished
      (some client) where
  order := order
  nodup := by
    rw [Option.toList_some,List.nodup_append]
    refine ⟨(List.nodup_append.mp serial.nodup).1,List.nodup_singleton client,?_⟩
    rintro first member other single rfl
    exact unfinished (List.mem_singleton.mp single ▸ member)
  committed := serial.committed
  ended := by
    intro first other rest split
    have different : other ≠ client := by
      rintro rfl
      exact unfinished (by rw [split]; simp)
    obtain ⟨issued,ended⟩ := serial.ended first other rest split
    exact ⟨issued,(Config.set_other config _ different).trans ended⟩
  inside := by
    rintro other same
    cases same
    exact ⟨session,Config.set_self config client _,entered,resumes⟩
  outside := by
    intro other unended idle
    have different : other ≠ client := fun equal => idle (congrArg some equal.symm)
    rw [show ({ config.set client (.running session) with history } :
      Config S Client Db Write Resource α).status other = config.status other from
        Config.set_other config _ different]
    exact serial.outside other unended fun now => different (alone other now)
  seen := serial.seen

theorem Serial.finish (sectioned : Sectioned E programs enters Seen) {client : Client}
    (serial : Serial E programs enters Seen db config finished (some client))
    {session : Session S Write Resource α} (opened : config.status client = .running session)
    {outcome : Except S.Error α} (returned : session.program = .done outcome) :
    Serial E programs enters Seen db { config.set client (.ended outcome session.issued) with
      committed := (E.resume client config.committed session).after } (finished ++ [client]) none := by
  obtain ⟨inner,running,_,resumes⟩ := serial.inside client rfl
  obtain rfl : session = inner := by
    rw [opened] at running
    cases running
    rfl
  have unfinished := serial.running opened
  have order := serial.order
  have nodup := serial.nodup
  rw [Option.toList_some] at order nodup
  constructor
  · exact order.trans (List.append_nil _).symm
  · rwa [Option.toList_none,List.append_nil]
  · change (E.resume client config.committed session).after = _
    rw [resumes,E.settled_append,← serial.committed]
    rfl
  · intro first other rest split
    -- the last of the new list is the client itself, the others ended before it
    rcases List.eq_nil_or_concat rest with rfl | ⟨front,final,rfl⟩
    · obtain ⟨rfl,same⟩ := List.append_inj' split rfl
      cases same
      refine ⟨session.issued,(Config.set_self config client _).trans ?_⟩
      rw [← serial.committed,← resumes,(E.resume_done config.committed returned).1]
    · rw [List.concat_eq_append,← List.cons_append,← List.append_assoc] at split
      obtain ⟨shorter,_⟩ := List.append_inj' split rfl
      have different : other ≠ client := by
        rintro rfl
        exact unfinished (by rw [shorter]; simp)
      obtain ⟨issued,ended⟩ := serial.ended first other front shorter
      exact ⟨issued,(Config.set_other config _ different).trans ended⟩
  · intro other entered
    cases entered
  · intro other unended _
    have different : other ≠ client := by
      rintro rfl
      exact unended (by simp)
    rw [show ({ config.set client (.ended outcome session.issued) with
      committed := (E.resume client config.committed session).after } :
        Config S Client Db Write Resource α).status other = config.status other from
        Config.set_other config _ different]
    exact serial.outside other (fun member => unended (List.mem_append_left _ member))
      fun same => different (Option.some.inj same).symm
  · intro other unended
    have different : other ≠ client := by
      rintro rfl
      exact unended (by simp)
    change Seen other (E.resume client config.committed session).after
    rw [resumes]
    exact sectioned.stable other client _ (Ne.symm different)
      (serial.seen other fun member => unended (List.mem_append_left _ member)) (serial.seen client unfinished)

theorem Serial.ending (sectioned : Sectioned E programs enters Seen)
    (serial : Serial E programs enters Seen db config finished active) {client : Client}
    {session : Session S Write Resource α} (opened : config.status client = .running session)
    {outcome : Except S.Error α} (returned : session.program = .done outcome) :
    ∃ finished active, Serial E programs enters Seen db { config.set client (.ended outcome session.issued) with
      committed := (E.resume client config.committed session).after } finished active := by
  have unfinished := serial.running opened
  by_cases within : active = some client
  · subst within
    exact ⟨_,_,serial.finish sectioned opened returned⟩
  · have outside := serial.outside client unfinished within
    rw [opened] at outside
    obtain ⟨same,ended⟩ := outside.ended returned
    rw [same]
    exact ⟨_,_,serial.outside_step (.ended outcome session.issued) rfl unfinished within ended⟩

/-- A careful client enters its section while nobody is inside. -/
theorem Serial.nobody (serial : Serial E programs enters Seen db config finished active) {client : Client} {op : S.Op}
    (enter : enters client op) (within : active ≠ some client) (careful : Careful enters config (.issue client op)) :
    active = none := by
  cases current : active with
  | none => rfl
  | some other =>
    obtain ⟨inner,running,⟨entry,earlier,entered⟩,_⟩ := serial.inside other current
    have different : other ≠ client := by
      rintro rfl
      exact within current
    exact absurd entered (careful enter other different inner running entry earlier)

theorem Serial.issuing (serial : Serial E programs enters Seen db config finished active) {client : Client}
    {session : Session S Write Resource α} (opened : config.status client = .running session) {op : S.Op}
    {next : Except S.Error (S.Reply op) → Program S α} (sent : session.program = .call op next)
    (careful : Careful enters config (.issue client op)) :
    ∃ finished active, Serial E programs enters Seen db
      { config.set client (.running (E.proceed client config.committed session op next)) with
        history := config.history ++ [(client,op)] } finished active := by
  have unfinished := serial.running opened
  have order := entryOrder_append enters config.history client op
  have issued := E.proceed_issued client config.committed session op next
  by_cases within : active = some client
  · subst within
    obtain ⟨inner,running,⟨entry,earlier,entered⟩,resumes⟩ := serial.inside client rfl
    obtain rfl : session = inner := by
      rw [opened] at running
      cases running
      rfl
    refine ⟨finished,some client,serial.inside_step (fun other same => (Option.some.inj same).symm) ?_ unfinished
      ⟨entry,by rw [issued]; exact List.mem_append_left _ earlier,entered⟩ ?_⟩
    · rw [order,if_neg fun fresh => fresh.2 (by rw [serial.order]; simp),serial.order]
      rfl
    · rw [E.resume_proceed sent]
      exact resumes
  · have outside := serial.outside client unfinished within
    rw [opened] at outside
    rcases outside.proceed (serial.seen client unfinished) sent with ⟨enter,resumes⟩ | ⟨quiet,outside⟩
    · obtain rfl := serial.nobody enter within careful
      refine ⟨finished,some client,serial.inside_step (fun other same => (by cases same)) ?_ unfinished
        ⟨op,by rw [issued]; simp,enter⟩ resumes⟩
      have sofar := serial.order
      rw [Option.toList_none,List.append_nil] at sofar
      rw [order,sofar,if_pos ⟨enter,unfinished⟩]
    · refine ⟨finished,active,serial.outside_step _ ?_ unfinished within outside⟩
      rw [order,if_neg fun fresh => quiet fresh.1]

theorem Serial.step (sectioned : Sectioned E programs enters Seen)
    (serial : Serial E programs enters Seen db config finished active)
    {after : Config S Client Db Write Resource α} {label : Label S Client}
    (step : Step E programs config label after) (careful : Careful enters config label) :
    ∃ finished active, Serial E programs enters Seen db after finished active := by
  cases step with
  | start client idle =>
    have unfinished : client ∉ finished := by
      intro member
      obtain ⟨first,rest,split⟩ := List.append_of_mem member
      obtain ⟨issued,ended⟩ := serial.ended first client rest split
      rw [idle] at ended
      cases ended
    have inactive : active ≠ some client := by
      intro same
      obtain ⟨session,running,_⟩ := serial.inside client same
      rw [idle] at running
      cases running
    exact ⟨_,_,serial.outside_step _ rfl unfinished inactive (Outside.start sectioned client)⟩
  | issue client session op next opened sent free => exact serial.issuing opened sent careful
  | commit client session value opened returned =>
    have ended := serial.ending sectioned opened returned
    have committed : (E.resume client config.committed session).after =
        E.visible config.committed session.writes := by
      rw [Engine.resume,returned]
      rfl
    rwa [committed] at ended
  | rollback client session error opened raised =>
    have ended := serial.ending sectioned opened raised
    have kept : (E.resume client config.committed session).after = config.committed := by
      rw [Engine.resume,raised]
      rfl
    rwa [kept] at ended

theorem Sectioned.serial (sectioned : Sectioned E programs enters Seen) (seen : ∀ client, Seen client db)
    (runs : Runs E programs (Careful enters) (.initial db) config) :
    ∃ finished active, Serial E programs enters Seen db config finished active :=
  Runs.invariant (fun config => ∃ finished active, Serial E programs enters Seen db config finished active) runs
    ⟨[],none,Serial.initial seen⟩ fun _ _ _ ⟨_,_,serial⟩ step careful => serial.step sectioned step careful

def Entering (enters : Client → S.Op → Prop) (Found : Client → Db → Prop) (config : Config S Client Db Write Resource α) :
    Label S Client → Prop
  | .issue client op => enters client op → Found client config.committed
  | _ => True

/-- A client that runs while no other transaction is open is careful, and finds what is
committed as it starts. -/
theorem follow_alone [Fintype Client] [DecidableEq Resource] (enters : Client → S.Op → Prop)
    {Found : Client → Db → Prop} {client : Client} {steps : Nat}
    {before after : Config S Client Db Write Resource α}
    (alone : ∀ other, other ≠ client → ∀ session, before.status other ≠ .running session)
    (found : Found client before.committed)
    (followed : follow E programs (List.replicate steps client) before = some after) :
    Runs E programs (fun config label => Careful enters config label ∧ Entering enters Found config label) before
      after := by
  refine (follow_own followed).1.weaken fun config label own => ?_
  cases label with
  | issue client op =>
    obtain ⟨rfl,committed,still⟩ := own
    refine ⟨fun _ other different session running => ?_,fun _ => ?_⟩
    · rw [still other different] at running
      exact absurd running (alone other different session)
    · rw [committed]
      exact found
  | _ => exact ⟨trivial,trivial⟩

/-- What clients find as they enter, they find in the serial run. -/
theorem Sectioned.entries (sectioned : Sectioned E programs enters Seen) (seen : ∀ client, Seen client db)
    {Found : Client → Db → Prop} (runs : Runs E programs (fun config label => Careful enters config label ∧
      Entering enters Found config label) (.initial db) config) :
    ∃ finished active, Serial E programs enters Seen db config finished active ∧
      ∀ front client rest, finished = front ++ client::rest → Found client (E.settled programs front db) := by
  have entered : ∀ front client rest, entryOrder enters config.history = front ++ client::rest →
      Found client (E.settled programs front db) := by
    induction runs with
    | refl =>
      intro front client rest split
      change [] = _ at split
      simp at split
    | tail sofar last ih =>
      rename_i before after
      obtain ⟨label,step,careful,found⟩ := last
      obtain ⟨finished,active,serial⟩ := sectioned.serial seen (Runs.weaken (fun _ _ kept => kept.1) sofar)
      cases step with
      | issue client session op next opened sent free =>
        intro front other rest split
        change entryOrder enters (before.history ++ [(client,op)]) = _ at split
        rw [entryOrder_append] at split
        split at split
        · next fresh =>
          have within : active ≠ some client := by
            rintro rfl
            exact fresh.2 (by rw [serial.order]; simp)
          obtain rfl := serial.nobody fresh.1 within careful
          have order := serial.order
          rw [Option.toList_none,List.append_nil] at order
          rcases List.eq_nil_or_concat rest with rfl | ⟨middle,final,rfl⟩
          · obtain ⟨same,single⟩ := List.append_inj' split rfl
            obtain rfl := List.singleton_injective single
            rw [← same,order,← serial.committed]
            exact found fresh.1
          · rw [List.concat_eq_append,← List.cons_append,← List.append_assoc] at split
            exact ih front other middle (List.append_inj' split rfl).1
        · exact ih front other rest split
      | _ => exact ih
  obtain ⟨finished,active,serial⟩ := sectioned.serial seen (Runs.weaken (fun _ _ kept => kept.1) runs)
  refine ⟨finished,active,serial,fun front client rest split => entered front client (rest ++ active.toList) ?_⟩
  rw [serial.order,split]
  simp

/-- Once all have ended, the run is equivalent to every serial order of all
clients in which those that have entered keep their order of entry. -/
theorem Serial.listing (sectioned : Sectioned E programs enters Seen) (seen : ∀ client, Seen client db)
    (serial : Serial E programs enters Seen db config finished active)
    (closed : ∀ client, ∃ outcome issued, config.status client = .ended outcome issued) {order : List Client}
    (nodup : order.Nodup)
    (sorted : order.filter (· ∈ entryOrder enters config.history) = entryOrder enters config.history) :
    config.committed = E.settled programs order db ∧
      ∀ first client rest, order = first ++ client::rest → Waits E programs enters Seen client →
        ∃ issued, config.status client =
          .ended (E.transact client (programs client) (E.settled programs first db)).outcome issued := by
  have idle : active = none := by
    cases current : active with
    | none => rfl
    | some client =>
      obtain ⟨session,running,_⟩ := serial.inside client current
      obtain ⟨outcome,issued,ended⟩ := closed client
      rw [running] at ended
      cases ended
  subst idle
  have entered := serial.order
  rw [Option.toList_none,List.append_nil] at entered
  rw [entered] at sorted
  have apart {client : Client} (unended : client ∉ finished) {db : Db} (seen : Seen client db) :
      (E.transact client (programs client) db).after = db ∧ (Waits E programs enters Seen client →
        ∃ issued, config.status client = .ended (E.transact client (programs client) db).outcome issued) := by
    obtain ⟨outcome,issued,ended⟩ := closed client
    have outside := serial.outside client unended (fun same => (by cases same))
    rw [ended] at outside
    refine ⟨(outside.2 db seen).1,fun waits => ⟨issued,?_⟩⟩
    rw [((outside.2 db seen).2 waits).1]
    exact ended
  -- those that never entered have left the store as they found it
  have skipped (first rest : List Client) (split : order = first ++ rest) :
      E.settled programs first db = E.settled programs (first.filter (· ∈ finished)) db := by
    induction first using List.reverseRecOn generalizing rest with
    | nil => rfl
    | append_singleton front last ih =>
      have sofar := ih (last::rest) (by rw [split,List.append_assoc]; rfl)
      rw [List.filter_append,E.settled_append,sofar]
      by_cases member : last ∈ finished
      · rw [List.filter_cons_of_pos (by simpa using member),List.filter_nil,E.settled_append]
      · rw [List.filter_cons_of_neg (by simpa using member),List.filter_nil,List.append_nil,← sofar]
        refine (apart member (sectioned.seen_settled seen ?_ last ?_)).1
        · exact ((List.nodup_append.mp (split ▸ nodup)).1).sublist (List.sublist_append_left front [last])
        · have distinct := (List.nodup_append.mp (split ▸ nodup)).1
          exact fun inside => (List.nodup_append.mp distinct).2.2 last inside last (List.mem_singleton_self last) rfl
  refine ⟨?_,fun first client rest split waits => ?_⟩
  · rw [skipped order [] (List.append_nil order).symm,sorted]
    exact serial.committed
  · have front := (List.nodup_append.mp (split ▸ nodup))
    by_cases member : client ∈ finished
    · rw [skipped first (client::rest) split]
      refine serial.ended (first.filter (· ∈ finished)) client (rest.filter (· ∈ finished)) ?_
      refine sorted.symm.trans ?_
      rw [split,List.filter_append,List.filter_cons_of_pos (by simpa using member)]
    · refine (apart member (sectioned.seen_settled seen front.1 client fun inside => ?_)).2 waits
      exact front.2.2 client inside client List.mem_cons_self rfl

theorem Serial.entered (serial : Serial E programs enters Seen db config finished active) {client : Client}
    {session : Session S Write Resource α} (opened : config.status client = .running session)
    (entered : ∃ op ∈ session.issued, enters client op) : active = some client := by
  by_contra idle
  have outside := serial.outside client (serial.running opened) idle
  rw [opened] at outside
  obtain ⟨op,member,enter⟩ := entered
  exact outside.2.1 op member enter

theorem Serial.waiting (serial : Serial E programs enters Seen db config finished active) {client : Client}
    {session : Session S Write Resource α} (opened : config.status client = .running session)
    (idle : active ≠ some client) :
    E.visible config.committed session.writes = config.committed ∧ Seen client config.committed := by
  have unfinished := serial.running opened
  have outside := serial.outside client unfinished idle
  rw [opened] at outside
  exact ⟨by rw [outside.1,E.visible_nil],serial.seen client unfinished⟩

/-- If entering a section takes a lock, then an open transaction that has entered
holds it. -/
theorem Serial.holding (serial : Serial E programs enters Seen db config finished active) {lock : Resource}
    (locks : ∀ client turn op db, Seen client db → enters client op →
      lock ∈ E.locks op db ∧ ∃ answer, E.exec client turn op db = .ok answer)
    (holds : ∀ client session, config.status client = .running session →
      (∃ op ∈ session.issued, enters client op) → lock ∈ session.held)
    {after : Config S Client Db Write Resource α} {label : Label S Client}
    (step : Step E programs config label after) :
    ∀ client session, after.status client = .running session →
      (∃ op ∈ session.issued, enters client op) → lock ∈ session.held := by
  intro one current running entered
  rcases step.running running with same | rfl | ⟨op,next,session,_,opened,sent,rfl⟩
  · exact holds one current same entered
  · obtain ⟨op,member,_⟩ := entered
    cases member
  · by_cases earlier : ∃ op ∈ session.issued, enters one op
    · exact E.proceed_keeps one config.committed op next (holds one session opened earlier)
    · have idle : active ≠ some one := by
        intro same
        obtain ⟨inner,inside,before,_⟩ := serial.inside one same
        rw [opened] at inside
        cases inside
        exact earlier before
      have enter : enters one op := by
        obtain ⟨entry,member,enter⟩ := entered
        rw [E.proceed_issued] at member
        rcases List.mem_append.mp member with old | new
        · exact absurd ⟨entry,old,enter⟩ earlier
        · rwa [← List.mem_singleton.mp new]
      obtain ⟨visible,seen⟩ := serial.waiting opened idle
      obtain ⟨locked,⟨reply,writes⟩,answered⟩ := locks one session.issued.length op config.committed seen enter
      rw [← visible] at answered locked
      rw [E.proceed_ok next answered]
      exact List.mem_append_right _ locked

/-- If entering a section takes a lock that is held to the end, all runs are careful. -/
theorem Sectioned.careful (sectioned : Sectioned E programs enters Seen) (seen : ∀ client, Seen client db)
    {lock : Resource} (locks : ∀ client turn op db, Seen client db → enters client op →
      lock ∈ E.locks op db ∧ ∃ answer, E.exec client turn op db = .ok answer)
    (reached : Reachable E programs db config) : Runs E programs (Careful enters) (.initial db) config := by
  have both : Runs E programs (Careful enters) (.initial db) config ∧
      ∀ client session, config.status client = .running session →
        (∃ op ∈ session.issued, enters client op) → lock ∈ session.held := by
    induction reached with
    | refl => exact ⟨Relation.ReflTransGen.refl,fun client session running => (by cases running)⟩
    | tail _ last ih =>
      obtain ⟨runs,holds⟩ := ih
      obtain ⟨label,step,_⟩ := last
      obtain ⟨finished,active,serial⟩ := sectioned.serial seen runs
      refine ⟨runs.tail ⟨label,step,?_⟩,serial.holding locks holds step⟩
      cases step with
      | issue client session op next opened sent free =>
        intro enter other different theirs running entry member entered
        have inside := serial.entered running ⟨entry,member,entered⟩
        obtain ⟨visible,seen⟩ := serial.waiting opened fun same =>
          different (Option.some.inj (inside.symm.trans same))
        have locked := (locks client session.issued.length op _ seen enter).1
        rw [← visible] at locked
        exact free.session different running locked (holds other theirs running ⟨entry,member,entered⟩)
      | _ => trivial
  exact both.1

end Serial

end CryptoBrokerage.Transaction
