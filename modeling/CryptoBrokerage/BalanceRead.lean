import CryptoBrokerage.Ledger
import CryptoBrokerage.TradingService
import CryptoBrokerage.Transaction.Snapshot

/-! `get_balance` without a lock while other transactions post to the ledger. Its
two sums are two statements, which may see two committed states. -/
namespace CryptoBrokerage
open Transaction (Program Engine Session Config Label Step Reachable Passes Clear Gauges)
open DecimalContext (rounded)

/-- Entries are posted with a positive amount and never amended. -/
def Posts : Statement → Prop
  | .insert .ledgerEntries row => 0 < row.amount
  | .update .ledgerEntries _ _ => False
  | _ => True

theorem createDoubleEntry_posts (posting : Posting) : (LedgerRepository.createDoubleEntry posting).Only Posts := by
  unfold LedgerRepository.createDoubleEntry LedgerRepository.refusal
  split
  · trivial
  · next positive =>
    split
    · trivial
    · exact add_sends trivial (fun id => not_le.mp positive) fun id => trivial

def Database.posted (before after : Database) : List LedgerEntry :=
  (after .ledgerEntries).drop (before .ledgerEntries).length

def Credited (account : Uuid) (before after : Database) : Prop :=
  ∃ entry ∈ before.posted after, entry.creditAccountId = account ∧ 0 < entry.amount

def Debited (account : Uuid) (before after : Database) : Prop :=
  ∃ entry ∈ before.posted after, entry.debitAccountId = account ∧ 0 < entry.amount

instance (account : Uuid) (before after : Database) : Decidable (Credited account before after) :=
  inferInstanceAs (Decidable (∃ entry ∈ before.posted after, _))

instance (account : Uuid) (before after : Database) : Decidable (Debited account before after) :=
  inferInstanceAs (Decidable (∃ entry ∈ before.posted after, _))

def Grown (before after : Database) : Prop :=
  after .ledgerEntries = before .ledgerEntries ++ before.posted after ∧
    ∀ entry ∈ before.posted after, 0 ≤ entry.amount

theorem grown_of_append {before after : Database} {more : List LedgerEntry}
    (appended : after .ledgerEntries = before .ledgerEntries ++ more) (positive : ∀ entry ∈ more, 0 ≤ entry.amount) :
    Grown before after := by
  have posted : before.posted after = more := by
    rw [Database.posted,appended,List.drop_left]
  rw [Grown,posted]
  exact ⟨appended,positive⟩

theorem grown_refl (db : Database) : Grown db db :=
  grown_of_append (List.append_nil _).symm (by simp)

theorem Grown.trans {first second third : Database} (early : Grown first second) (late : Grown second third) :
    Grown first third := by
  have appended : third .ledgerEntries = first .ledgerEntries ++ (first.posted second ++ second.posted third) := by
    rw [late.1,early.1,List.append_assoc]
  refine grown_of_append appended fun entry member => ?_
  rcases List.mem_append.mp member with old | new
  · exact early.2 entry old
  · exact late.2 entry new

instance : IsTrans Database Grown := ⟨fun _ _ _ => Grown.trans⟩

theorem ledger_gauges (account : Uuid) :
    Gauges Grown (Credited account) (Debited account) (·.credits account) (·.debits account) := by
  have credits {before after : Database} (grown : Grown before after) :
      after.credits account = before.credits account + books.credits (before.posted after) account := by
    change books.credits (after .ledgerEntries) account = _
    rw [grown.1,books.credits_append]
    rfl
  have debits {before after : Database} (grown : Grown before after) :
      after.debits account = before.debits account + books.debits (before.posted after) account := by
    change books.debits (after .ledgerEntries) account = _
    rw [grown.1,books.debits_append]
    rfl
  constructor
  · rintro before after grown ⟨entry,member,named,positive⟩
    change before.credits account < after.credits account
    rw [credits grown]
    exact lt_add_of_pos_right _ (books.sum_pos grown.2 member (by simp [books,named]) positive)
  · intro before after grown uncredited
    rw [credits grown,add_eq_left]
    refine books.sum_zero grown.2 fun entry member named positive => ?_
    exact uncredited ⟨entry,member,by simpa [books] using named,positive⟩
  · rintro before after grown ⟨entry,member,named,positive⟩
    change before.debits account < after.debits account
    rw [debits grown]
    exact lt_add_of_pos_right _ (books.sum_pos grown.2 member (by simp [books,named]) positive)
  · intro before after grown undebited
    rw [debits grown,add_eq_left]
    refine books.sum_zero grown.2 fun entry member named positive => ?_
    exact undebited ⟨entry,member,by simpa [books] using named,positive⟩

structure Poster {α : Type} (session : Session sql Write Resource α) : Prop where
  program : session.program.Only Posts
  plain : ∀ write ∈ session.writes, write.amends = false
  positive : ∀ entry ∈ session.writes.flatMap Write.entry, 0 ≤ entry.amount

section Posters
variable {Client α : Type} {server : Server Client} {grid : AddSubgroup ℚ} {client : Client}
  {session : Session sql Write Resource α} {committed : Database}

theorem exec_posts (rounding : Rounding server.numeric grid) {turn : Nat} {op : Statement} {db : Database}
    {reply : op.Reply} {writes : List Write} (answered : server.exec client turn op db = .ok (reply,writes))
    (posts : Posts op) : (∀ write ∈ writes, write.amends = false) ∧
      ∀ entry ∈ writes.flatMap Write.entry, 0 ≤ entry.amount := by
  have written := Server.exec_writes answered
  cases op with
  | insert t row =>
    obtain ⟨stored,ok,_,rfl⟩ := written
    cases t with
    | ledgerEntries =>
      refine ⟨by simp [Write.amends],?_⟩
      simpa [Write.entry] using rounding.above (store_entry ok).1 grid.zero_mem (le_of_lt posts)
    | _ => simp [Write.amends,Write.entry]
  | update t id set =>
    obtain ⟨stored,_,rfl⟩ := written
    cases t with
    | ledgerEntries => exact posts.elim
    | _ => simp [Write.amends,Write.entry]
  | _ =>
    obtain rfl : writes = [] := written
    simp

theorem Poster.proceed (rounding : Rounding server.numeric grid) (poster : Poster session) {op : Statement}
    {next : Except Exception op.Reply → Program sql α} (sent : session.program = .call op next) :
    Poster (server.engine.proceed client committed session op next) := by
  have only := poster.program
  rw [sent] at only
  cases answered : server.engine.exec client session.issued.length op
      (server.engine.visible committed session.writes) with
  | error error =>
    rw [Engine.proceed_error _ next answered]
    exact ⟨only.2 _,poster.plain,poster.positive⟩
  | ok pair =>
    obtain ⟨reply,writes⟩ := pair
    obtain ⟨plain,positive⟩ := exec_posts rounding answered only.1
    rw [Engine.proceed_ok _ next answered]
    refine ⟨only.2 _,fun write member => ?_,fun entry member => ?_⟩
    · rcases List.mem_append.mp member with old | new
      · exact poster.plain write old
      · exact plain write new
    · rw [List.flatMap_append] at member
      rcases List.mem_append.mp member with old | new
      · exact poster.positive entry old
      · exact positive entry new

theorem Poster.grown (poster : Poster session) (db : Database) : Grown db (server.engine.visible db session.writes) :=
  grown_of_append (ledger_visible poster.plain db) poster.positive

section Runs
variable [DecidableEq Client] {programs : Client → Action α} {reader : Client}
  {before after : Config sql Client Database Write Resource α} {label : Label sql Client}

def Posters (reader : Client) (config : Config sql Client Database Write Resource α) : Prop :=
  ∀ client, client ≠ reader → ∀ session, config.status client = .running session → Poster session

theorem posters_step (rounding : Rounding server.numeric grid)
    (posts : ∀ client, client ≠ reader → (programs client).Only Posts) (posters : Posters reader before)
    (step : Step server.engine programs before label after) : Posters reader after := by
  intro client other session running
  rcases step.running running with same | rfl | ⟨op,next,earlier,_,opened,sent,rfl⟩
  · exact posters client other session same
  · exact ⟨posts client other,by simp,by simp⟩
  · exact (posters client other earlier opened).proceed rounding sent

theorem posters_reachable (rounding : Rounding server.numeric grid)
    (posts : ∀ client, client ≠ reader → (programs client).Only Posts) {db : Database}
    (reached : Reachable server.engine programs db before) : Posters reader before := by
  refine Transaction.Runs.invariant (Posters reader) reached ?_ fun _ _ _ posters step _ =>
    posters_step rounding posts posters step
  intro client _ session running
  cases running

theorem posters_grown (posters : Posters reader before) (step : Step server.engine programs before label after)
    (other : label.client ≠ reader) : Grown before.committed after.committed := by
  cases step with
  | commit client session value opened returned => exact (posters client other session opened).grown _
  | _ => exact grown_refl _

end Runs

/-- One call of `get_balance` by a transaction that has written nothing: its two
statements, and what the others do between them. -/
structure BalanceCall [DecidableEq Client] (server : Server Client) (programs : Client → Action α) (db : Database)
    (reader : Client) (account : Uuid) where
  before : Config sql Client Database Write Resource α
  started : Config sql Client Database Write Resource α
  paused : Config sql Client Database Write Resource α
  finished : Config sql Client Database Write Resource α
  session : Session sql Write Resource α
  next : ℚ → Action α
  rest : List Database
  reached : Reachable server.engine programs db before
  opened : before.status reader = .running session
  unwritten : session.writes = []
  called : session.program = AccountRepository.getBalance account >>= next
  credits : Step server.engine programs before (.issue reader (.sumCredits account)) started
  others : Passes server.engine programs (fun label => label.client ≠ reader) started rest paused
  debits : Step server.engine programs paused (.issue reader (.sumDebits account)) finished

namespace BalanceCall
variable [DecidableEq Client] {programs : Client → Action α} {db : Database} {reader : Client} {account : Uuid}
  (call : BalanceCall server programs db reader account)

def during : List Database := call.started.committed::call.rest

def Returns (value : ℚ) : Prop :=
  ∃ session, call.finished.status reader = .running session ∧ session.program = call.next value

/-- The value is the balance in one of these states, and so not negative unless
one of theirs is. -/
def Real (value : ℚ) : Prop :=
  (∃ state ∈ call.during, value = state.balance account) ∧
    ((∀ state ∈ call.during, 0 ≤ state.balance account) → 0 ≤ value)

/-- What `get_balance` subtracts: the credits at the first sum and the debits at the second. -/
def difference : ℚ := call.started.committed.credits account - call.paused.committed.debits account

theorem returns : call.Returns (rounded call.difference) := by
  obtain ⟨_,running,committed⟩ := call.credits.sends (Eq.refl reader) call.opened call.called
  rw [Engine.proceed_ok _ _ (show server.engine.exec reader call.session.issued.length (.sumCredits account)
    (server.engine.visible call.before.committed call.session.writes) = .ok (_,[]) from rfl)] at running
  rw [← call.others.others] at running
  obtain ⟨_,running,_⟩ := call.debits.sends (Eq.refl reader) running rfl
  rw [Engine.proceed_ok _ _ (show server.engine.exec reader (call.session.issued ++ [Statement.sumCredits account]).length
    (.sumDebits account) (server.engine.visible call.paused.committed (call.session.writes ++ [])) = .ok (_,[])
    from rfl)] at running
  refine ⟨_,running,?_⟩
  rw [difference,committed,call.unwritten]
  rfl

theorem grows {grid : AddSubgroup ℚ} (rounding : Rounding server.numeric grid)
    (posts : ∀ client, client ≠ reader → (programs client).Only Posts) : call.during.Pairwise Grown := by
  have posters := posters_reachable rounding posts (call.reached.step call.credits)
  refine List.isChain_iff_pairwise.mp (call.others.chain (Posters reader) ?_ posters)
  intro before label after posters step other
  exact ⟨posters_step rounding posts posters step,posters_grown posters step other⟩

/-- Between a state committed during the call and the two sums: what it has been credited
since the first one, and what it is still to be debited before the second. -/
def lag (state : Database) : ℚ :=
  (state.credits account - call.started.committed.credits account) +
    (call.paused.committed.debits account - state.debits account)

theorem balance_eq (state : Database) : state.balance account = call.difference + call.lag state := by
  unfold difference lag Database.balance
  ring

theorem real_iff {value : ℚ} : call.Real value ↔ ∃ state ∈ call.during, value = state.balance account := by
  refine ⟨And.left,fun real => ⟨real,fun solvent => ?_⟩⟩
  obtain ⟨state,member,same⟩ := real
  rw [same]
  exact solvent state member

/-- The sums are never further apart than in a state committed during the call. -/
theorem lag_nonneg {grid : AddSubgroup ℚ} (rounding : Rounding server.numeric grid)
    (posts : ∀ client, client ≠ reader → (programs client).Only Posts) {state : Database} (member : state ∈ call.during) :
    0 ≤ call.lag state := by
  have gauges := ledger_gauges account
  have gained := gauges.gain_first (call.grows rounding posts) state member
  have lost := gauges.loss_last (call.grows rounding posts) state member
  rw [call.others.last] at lost
  exact add_nonneg (sub_nonneg.mpr gained) (sub_nonneg.mpr lost)

end BalanceCall

end Posters

/-- The value that an unlocked `get_balance` returns is the balance of a state committed
during the call exactly if 28 digits keep the difference of its sums and no transaction
that credits the account commits, between the two, together with or before one that
debits it; or if they raise the difference by just what such a state lags behind. -/
theorem balance_read_iff {Client α : Type} [DecidableEq Client] (server : Server Client) (grid : AddSubgroup ℚ)
    (rounding : Rounding server.numeric grid) (programs : Client → Action α) (db : Database) (reader : Client)
    (posts : ∀ client, client ≠ reader → (programs client).Only Posts) (account : Uuid)
    (call : BalanceCall server programs db reader account) :
    ∃ value, call.Returns value ∧
      (call.Real value ↔
        (rounded call.difference = call.difference ∧ Clear (Credited account) (Debited account) call.during) ∨
          (call.difference < rounded call.difference ∧
            ∃ state ∈ call.during, rounded call.difference = call.difference + call.lag state)) := by
  refine ⟨_,call.returns,call.real_iff.trans ?_⟩
  have mixed := Transaction.mixed_read (ledger_gauges account) (call.grows rounding posts)
  rw [call.others.last] at mixed
  constructor
  · rintro ⟨state,member,same⟩
    rw [call.balance_eq] at same
    rcases (call.lag_nonneg rounding posts member).eq_or_lt with level | behind
    · have balance := call.balance_eq state
      rw [← level,add_zero] at same balance
      exact Or.inl ⟨same,mixed.mp ⟨state,member,balance.symm⟩⟩
    · exact Or.inr ⟨by linarith,state,member,same⟩
  · rintro (⟨kept,clear⟩ | ⟨_,state,member,same⟩)
    · obtain ⟨state,member,same⟩ := mixed.mpr clear
      exact ⟨state,member,kept.trans same⟩
    · exact ⟨state,member,same.trans (call.balance_eq state).symm⟩

section Sample

def postAll : List Posting → Action ℚ
  | [] => pure 0
  | posting::rest => do
    let _ ← LedgerRepository.createDoubleEntry posting
    postAll rest

theorem postAll_posts (postings : List Posting) : (postAll postings).Only Posts := by
  induction postings with
  | nil => trivial
  | cons posting rest ih => exact (createDoubleEntry_posts posting).bind fun _ => ih

def readAndPost (postings : List Posting) (client : Fin 2) : Action ℚ :=
  if client = oneClient then AccountRepository.getBalance 21 else postAll postings

theorem readAndPost_posts (postings : List Posting) :
    ∀ client, client ≠ 0 → (readAndPost postings client).Only Posts := by
  intro client other
  rw [readAndPost,if_neg other]
  exact postAll_posts postings

def opening (postings : List Posting) : Config sql (Fin 2) Database Write Resource ℚ :=
  (Config.initial sample).set oneClient (.running ⟨readAndPost postings oneClient,[],[],[]⟩)

def readAround (postings : List Posting) (steps : Nat) : Option (Database × List Database × Database) :=
  (Transaction.advance sampleServer.engine (readAndPost postings) (opening postings) oneClient).bind fun started =>
    (Transaction.trail sampleServer.engine (readAndPost postings) (List.replicate steps otherClient) started).bind fun passed =>
      (Transaction.advance sampleServer.engine (readAndPost postings) passed.2 oneClient).map fun _ =>
        (started.committed,passed.1,passed.2.committed)

theorem readAround_call {postings : List Posting} {steps : Nat} {first last : Database} {rest : List Database}
    (ran : readAround postings steps = some (first,rest,last)) :
    ∃ call : BalanceCall sampleServer (readAndPost postings) sample 0 21,
      call.next = pure ∧ call.during = first::rest ∧ call.difference = first.credits 21 - last.debits 21 := by
  obtain ⟨started,begun,ran⟩ := Option.bind_eq_some_iff.mp ran
  obtain ⟨⟨passed,paused⟩,between,ran⟩ := Option.bind_eq_some_iff.mp ran
  obtain ⟨finished,resumed,same⟩ := Option.map_eq_some_iff.mp ran
  cases same
  have called : readAndPost postings 0 = AccountRepository.getBalance 21 >>= pure := (bind_pure _).symm
  have opened : (opening postings).status 0 = .running ⟨readAndPost postings 0,[],[],[]⟩ := Config.set_self _ _ _
  have credits := Transaction.advance_sent opened called begun
  have others : Passes sampleServer.engine (readAndPost postings) (fun label => label.client ≠ 0) started passed
      paused :=
    Transaction.trail_passes (by simp) between
  obtain ⟨_,running,_⟩ := credits.sends (Eq.refl 0) opened called
  rw [← others.others] at running
  let call : BalanceCall sampleServer (readAndPost postings) sample 0 21 :=
    { before := opening postings, started, paused, finished, session := ⟨readAndPost postings 0,[],[],[]⟩, next := pure
      rest := passed, reached := Reachable.step .refl (.start _ 0 rfl), opened, unwritten := rfl, called, credits, others
      debits := Transaction.advance_sent running rfl resumed }
  exact ⟨call,rfl,rfl,rfl⟩

/-- A debit of 300 commits between the two sums. -/
theorem balance_read_real :
    ∃ call : BalanceCall sampleServer (readAndPost [⟨21,24,300,"BRL","WITHDRAW",""⟩]) sample 0 21,
      (∃ state ∈ call.during, state.balance 21 = 700) ∧ ∃ value, call.Returns value ∧ call.Real value := by
  have scheduled : (readAround [⟨21,24,300,"BRL","WITHDRAW",""⟩] 5).map (fun read : Database × List Database × Database =>
      (decide (∀ a ∈ read.1::read.2.1, ∀ b ∈ read.1::read.2.1, ¬Credited 21 a b),
        decide (∃ state ∈ read.1::read.2.1, state.balance 21 = 700),
        decide (rounded (read.1.credits 21 - read.2.2.debits 21) = read.1.credits 21 - read.2.2.debits 21))) =
      some (true,true,true) := by
    decide +kernel
  obtain ⟨⟨first,rest,last⟩,ran,facts⟩ := Option.map_eq_some_iff.mp scheduled
  simp only [Prod.mk.injEq] at facts
  obtain ⟨never,settled,kept⟩ := facts
  obtain ⟨call,_,during,apart⟩ := readAround_call ran
  obtain ⟨value,returned,real⟩ := balance_read_iff sampleServer grid36 numeric36_rounding
    (readAndPost [⟨21,24,300,"BRL","WITHDRAW",""⟩]) sample 0 (readAndPost_posts _) 21 call
  refine ⟨call,?_,value,returned,real.mpr (Or.inl ?_)⟩
  · rw [during]
    exact of_decide_eq_true settled
  · rw [during,apart]
    exact ⟨of_decide_eq_true kept,Transaction.clear_of_never (of_decide_eq_true never)⟩

/-- A transaction credits 500 and debits 1200 between the two sums. The balance
is never negative, yet -200 is returned. -/
theorem balance_read_negative :
    ∃ call : BalanceCall sampleServer (readAndPost
        [⟨24,21,500,"BRL","DEPOSIT",""⟩,⟨21,24,1200,"BRL","WITHDRAW",""⟩]) sample 0 21,
      call.next = pure ∧ call.Returns (-200) ∧ (∀ state ∈ call.during, 0 ≤ state.balance 21) ∧
        ¬call.Real (-200) := by
  have scheduled : (readAround [⟨24,21,500,"BRL","DEPOSIT",""⟩,⟨21,24,1200,"BRL","WITHDRAW",""⟩] 8).map
      (fun read : Database × List Database × Database => (rounded (read.1.credits 21 - read.2.2.debits 21),
        decide (∀ state ∈ read.1::read.2.1, 0 ≤ state.balance 21))) = some (-200,true) := by
    decide +kernel
  obtain ⟨⟨first,rest,last⟩,ran,facts⟩ := Option.map_eq_some_iff.mp scheduled
  obtain ⟨value,solvent⟩ := Prod.mk.inj facts
  obtain ⟨call,next,during,apart⟩ := readAround_call ran
  have returned := call.returns
  have positive : ∀ state ∈ call.during, 0 ≤ state.balance 21 := by
    rw [during]
    exact of_decide_eq_true solvent
  rw [apart,show rounded (first.credits 21 - last.debits 21) = -200 from value] at returned
  refine ⟨call,next,returned,positive,fun real => ?_⟩
  have above := real.2 positive
  norm_num at above

end Sample

end CryptoBrokerage
