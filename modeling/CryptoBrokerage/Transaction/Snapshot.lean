import CryptoBrokerage.Transaction.Schedule
import Mathlib.Algebra.Order.Group.Defs
import Mathlib.Algebra.Order.Group.Unbundled.Basic
import Mathlib.Data.List.Chain

/-! What a statement-by-statement read sees of the stores that other transactions
commit meanwhile: the history of a stretch of a run, and the difference of two
growing quantities that are read at its two ends. -/
namespace CryptoBrokerage.Transaction

section History
variable {S : Signature} {Client Db Write Resource α : Type} [DecidableEq Client]

inductive Passes (E : Engine S Client Db Write Resource) (programs : Client → Program S α)
    (permitted : Label S Client → Prop) :
    Config S Client Db Write Resource α → List Db → Config S Client Db Write Resource α → Prop
  | stay (config) : Passes E programs permitted config [] config
  | step {before middle after} {label : Label S Client} {rest : List Db}
      (step : Step E programs before label middle) (allowed : permitted label)
      (passes : Passes E programs permitted middle rest after) :
      Passes E programs permitted before (middle.committed::rest) after

variable {E : Engine S Client Db Write Resource} {programs : Client → Program S α}
  {permitted : Label S Client → Prop} {before after : Config S Client Db Write Resource α} {rest : List Db}

theorem Passes.last (passes : Passes E programs permitted before rest after) :
    rest.getLastD before.committed = after.committed := by
  induction passes with
  | stay config => rfl
  | step step allowed passes ih => rw [List.getLastD_cons,ih]

theorem Passes.reachable {db : Db} (reached : Reachable E programs db before)
    (passes : Passes E programs permitted before rest after) : Reachable E programs db after := by
  induction passes with
  | stay config => exact reached
  | step step allowed passes ih => exact ih (reached.step step)

theorem Passes.others {client : Client}
    (passes : Passes E programs (fun label => label.client ≠ client) before rest after) :
    after.status client = before.status client := by
  induction passes with
  | stay config => rfl
  | step step allowed passes ih => rw [ih,step.others (Ne.symm allowed)]

/-- A relation that every permitted step keeps between the stores before and
after it holds between any two successive stores. -/
theorem Passes.chain {R : Db → Db → Prop} (Inv : Config S Client Db Write Resource α → Prop)
    (kept : ∀ before label after, Inv before → Step E programs before label after → permitted label →
      Inv after ∧ R before.committed after.committed)
    (inv : Inv before) (passes : Passes E programs permitted before rest after) :
    List.IsChain R (before.committed::rest) := by
  induction passes with
  | stay config => exact List.isChain_singleton _
  | step step allowed passes ih =>
    obtain ⟨later,related⟩ := kept _ _ _ inv step allowed
    exact List.isChain_cons_cons.mpr ⟨related,ih later⟩

section Trail
variable [Fintype Client] [DecidableEq Resource] (E programs)

def trail : List Client → Config S Client Db Write Resource α →
    Option (List Db × Config S Client Db Write Resource α)
  | [], config => some ([],config)
  | client::schedule, config => (advance E programs config client).bind fun next =>
    (trail schedule next).map fun passed => (next.committed::passed.1,passed.2)

variable {E programs}

theorem advance_sent {client : Client} {session : Session S Write Resource α} {op : S.Op}
    {next : Except S.Error (S.Reply op) → Program S α} (opened : before.status client = .running session)
    (sent : session.program = .call op next) (moved : advance E programs before client = some after) :
    Step E programs before (.issue client op) after := by
  obtain ⟨label,step,actor⟩ := advance_step moved
  obtain ⟨rfl,_⟩ := step.sends actor.symm opened sent
  exact step

theorem trail_passes {client : Client} {schedule : List Client} (others : ∀ other ∈ schedule, other ≠ client)
    (followed : trail E programs schedule before = some (rest,after)) :
    Passes E programs (fun label => label.client ≠ client) before rest after := by
  induction schedule generalizing before rest with
  | nil =>
    cases followed
    exact .stay _
  | cons other schedule ih =>
    obtain ⟨next,moved,tail⟩ := Option.bind_eq_some_iff.mp followed
    obtain ⟨passed,later,same⟩ := Option.map_eq_some_iff.mp tail
    obtain ⟨label,step,actor⟩ := advance_step moved
    cases same
    refine .step step ?_ (ih (fun one member => others one (List.mem_cons_of_mem _ member)) later)
    rw [actor]
    exact others other List.mem_cons_self

end Trail

end History

section Mixed
variable {X M : Type} [LinearOrder M]

/-- Two quantities along a relation, each of which is constant or grows, and what
tells the one from the other. -/
structure Gauges (R Gains Loses : X → X → Prop) (gain loss : X → M) : Prop where
  gains : ∀ a b, R a b → Gains a b → gain a < gain b
  gainless : ∀ a b, R a b → ¬Gains a b → gain b = gain a
  loses : ∀ a b, R a b → Loses a b → loss a < loss b
  lossless : ∀ a b, R a b → ¬Loses a b → loss b = loss a

namespace Gauges
variable {R Gains Loses : X → X → Prop} {gain loss : X → M} (gauges : Gauges R Gains Loses gain loss)
include gauges

theorem gain_le {a b : X} (related : R a b) : gain a ≤ gain b := by
  by_cases grown : Gains a b
  · exact (gauges.gains a b related grown).le
  · exact (gauges.gainless a b related grown).ge

theorem loss_le {a b : X} (related : R a b) : loss a ≤ loss b := by
  by_cases grown : Loses a b
  · exact (gauges.loses a b related grown).le
  · exact (gauges.lossless a b related grown).ge

variable {first : X} {rest : List X}

theorem gain_first (grows : (first::rest).Pairwise R) : ∀ x ∈ first::rest, gain first ≤ gain x := by
  intro x member
  rcases List.mem_cons.mp member with rfl | later
  · exact le_refl _
  · exact gauges.gain_le ((List.pairwise_cons.mp grows).1 x later)

theorem loss_last (grows : (first::rest).Pairwise R) :
    ∀ x ∈ first::rest, loss x ≤ loss (rest.getLastD first) := by
  induction rest generalizing first with
  | nil => simp
  | cons next rest ih =>
    obtain ⟨before,grows⟩ := List.pairwise_cons.mp grows
    intro x member
    rw [List.getLastD_cons]
    rcases List.mem_cons.mp member with rfl | later
    · exact gauges.loss_le (before _ (@List.getLastD_mem_cons _ rest next))
    · exact ih grows x later

end Gauges

def Clear (Gains Loses : X → X → Prop) (history : List X) : Prop :=
  ∀ front a b back, history = front ++ a::b::back → Gains a b → ∀ x ∈ b::back, ¬Loses a x

theorem clear_of_never {Gains Loses : X → X → Prop} {history : List X}
    (never : ∀ a ∈ history, ∀ b ∈ history, ¬Gains a b) : Clear Gains Loses history := by
  rintro front a b back rfl gained
  exact absurd gained (never a (by simp) b (by simp))

variable {R Gains Loses : X → X → Prop} {gain loss : X → M} {first : X} {rest : List X}

theorem Clear.tail (clear : Clear Gains Loses (first::rest)) : Clear Gains Loses rest :=
  fun front a b back split => clear (first::front) a b back (congrArg (first :: ·) split)

theorem Clear.meets (gauges : Gauges R Gains Loses gain loss) (grows : (first::rest).Pairwise R)
    (clear : Clear Gains Loses (first::rest)) :
    ∃ x ∈ first::rest, gain first = gain x ∧ loss x = loss (rest.getLastD first) := by
  induction rest generalizing first with
  | nil => exact ⟨first,List.mem_cons_self,rfl,rfl⟩
  | cons next rest ih =>
    obtain ⟨before,later⟩ := List.pairwise_cons.mp grows
    rw [List.getLastD_cons]
    by_cases gained : Gains first next
    · have last := @List.getLastD_mem_cons _ rest next
      have kept := gauges.lossless first _ (before _ last) (clear [] first next rest rfl gained _ last)
      exact ⟨first,List.mem_cons_self,rfl,kept.symm⟩
    · obtain ⟨x,member,gain,loss⟩ := ih later clear.tail
      exact ⟨x,List.mem_cons_of_mem _ member,
        (gauges.gainless first next (before next List.mem_cons_self) gained).symm.trans gain,loss⟩

theorem Gauges.clear (gauges : Gauges R Gains Loses gain loss) (grows : (first::rest).Pairwise R) {x : X}
    (member : x ∈ first::rest) (early : gain first = gain x) (late : loss x = loss (rest.getLastD first)) :
    Clear Gains Loses (first::rest) := by
  intro front a b back split gained y inside lost
  have ordered := grows
  rw [split] at ordered
  obtain ⟨_,ends,across⟩ := List.pairwise_append.mp ordered
  obtain ⟨fromA,ends⟩ := List.pairwise_cons.mp ends
  have whole {z : X} (among : z ∈ front ++ a::b::back) : z ∈ first::rest := by rwa [split]
  have started := gauges.gain_first grows a (whole (by simp))
  have ended := gauges.loss_last grows y (whole (List.mem_append_right _ (List.mem_cons_of_mem _ inside)))
  have grown := gauges.gains a b (fromA b List.mem_cons_self) gained
  have sunk := gauges.loses a y (fromA y inside) lost
  rw [← late] at ended
  rw [early] at started
  have placed : x ∈ front ++ a::b::back := by rwa [← split]
  rcases List.mem_append.mp placed with before | after
  · exact absurd (gauges.loss_le (across x before a List.mem_cons_self)) (not_le.mpr (sunk.trans_le ended))
  · rcases List.mem_cons.mp after with rfl | after
    · exact absurd ended (not_le.mpr sunk)
    · refine absurd started (not_le.mpr (grown.trans_le ?_))
      rcases List.mem_cons.mp after with rfl | after
      · exact le_refl _
      · exact gauges.gain_le ((List.pairwise_cons.mp ends).1 x after)

variable [AddCommGroup M] [IsOrderedAddMonoid M]

/-- A difference that is read at the two ends is the one of a state between them
exactly if the gain has not moved before it and the loss not after it. -/
theorem Gauges.difference_iff (gauges : Gauges R Gains Loses gain loss) (grows : (first::rest).Pairwise R) {x : X}
    (member : x ∈ first::rest) :
    gain first - loss (rest.getLastD first) = gain x - loss x ↔
      gain first = gain x ∧ loss x = loss (rest.getLastD first) := by
  rw [sub_eq_sub_iff_add_eq_add]
  exact add_eq_add_iff_eq_and_eq (gauges.gain_first grows x member) (gauges.loss_last grows x member)

/-- The gain at the first state less the loss at the last one is the difference
in one state of the history exactly if all losses precede all gains. -/
theorem mixed_read (gauges : Gauges R Gains Loses gain loss) (grows : (first::rest).Pairwise R) :
    (∃ x ∈ first::rest, gain first - loss (rest.getLastD first) = gain x - loss x) ↔
      Clear Gains Loses (first::rest) := by
  constructor
  · rintro ⟨x,member,same⟩
    obtain ⟨early,late⟩ := (gauges.difference_iff grows member).mp same
    exact gauges.clear grows member early late
  · intro clear
    obtain ⟨x,member,same⟩ := clear.meets gauges grows
    exact ⟨x,member,(gauges.difference_iff grows member).mpr same⟩

end Mixed

end CryptoBrokerage.Transaction
