import Mathlib.Tactic.Common
import WebServer.Foundation.Stages

/-!
# The lifecycle of a connection

What a connection is for, seen from outside: a sequence of phases from its construction to
the close of its descriptor, and the events that lead from one to the next. The events carry
what was found when they happened. A history of events that the phases admit is `Lawful`: it
is closed and destructed at most once and in the right order.
-/

namespace WebServer.Util

open WebServer.Foundation

/-- The phases of a connection. -/
inductive Phase where
  | free
  | accepted
  | established
  | closing
  | erased
  | destructed
  | closed
deriving DecidableEq

/-- What happens to a connection: the functions called for it, with the loop whose thread calls
them, the entry of `connections_` found under its descriptor by `HandleNewConn` and by
`HandleCloseInLoop`, and, when the descriptor is closed, the entries under it in `connections_`
and in the `channelmap_` of its loop. -/
inductive LifecycleEvent (Loop : Type) where
  | handleNewConn (entry : Option ℕ)
  | connectionEstablished (loop : Loop)
  | handleMessage (closes : Bool)
  | handleWrite
  | handleCloseInLoop (entry : Option ℕ)
  | connectionDestructor (loop : Loop)
  | close (entry registered : Option ℕ)
deriving DecidableEq

namespace LifecycleEvent

variable {Loop : Type}

/-- An event handler of the channel. -/
def isHandler : LifecycleEvent Loop → Bool
  | handleMessage _ => true
  | handleWrite => true
  | _ => false

/-- A call of `HandleCloseInLoop`. -/
def isHandleCloseInLoop : LifecycleEvent Loop → Bool
  | handleCloseInLoop _ => true
  | _ => false

/-- A call of `ConnectionDestructor`. -/
def isConnectionDestructor : LifecycleEvent Loop → Bool
  | connectionDestructor _ => true
  | _ => false

end LifecycleEvent

namespace Phase

variable {Loop : Type} [DecidableEq Loop]

/-- The number of a phase. -/
def rank : Phase → ℕ
  | free => 0
  | accepted => 1
  | established => 2
  | closing => 3
  | erased => 4
  | destructed => 5
  | closed => 6

/-- The phase after an event of the connection with this identity in this loop, if it may happen. -/
def next (id : ℕ) (loop : Loop) : Phase → LifecycleEvent Loop → Option Phase
  | .free, .handleNewConn none => some .accepted
  | .accepted, .connectionEstablished thread => if thread = loop then some .established else none
  | .established, .handleMessage closes => some (if closes then .closing else .established)
  | .established, .handleWrite => some .established
  | .closing, .handleWrite => some .closing
  | .erased, .handleWrite => some .erased
  | .closing, .handleCloseInLoop entry => if entry = some id then some .erased else none
  | .erased, .connectionDestructor thread => if thread = loop then some .destructed else none
  | .destructed, .close none none => some .closed
  | _, _ => none

/-- The events that may happen, with the phases before and after. -/
inductive Passes (id : ℕ) (loop : Loop) : Phase → LifecycleEvent Loop → Phase → Prop where
  | handleNewConn : Passes id loop .free (.handleNewConn none) .accepted
  | connectionEstablished : Passes id loop .accepted (.connectionEstablished loop) .established
  | handleMessage : Passes id loop .established (.handleMessage false) .established
  | handleClose : Passes id loop .established (.handleMessage true) .closing
  | handleWrite {phase : Phase} (known : 2 ≤ phase.rank ∧ phase.rank ≤ 4) : Passes id loop phase .handleWrite phase
  | handleCloseInLoop : Passes id loop .closing (.handleCloseInLoop (some id)) .erased
  | connectionDestructor : Passes id loop .erased (.connectionDestructor loop) .destructed
  | close : Passes id loop .destructed (.close none none) .closed

/-- Every event that happens is one of these. -/
theorem passes_of_next {id : ℕ} {loop : Loop} {phase phase' : Phase} {event : LifecycleEvent Loop}
    (h : next id loop phase event = some phase') : Passes id loop phase event phase' := by
  unfold next at h
  split at h
  · cases h
    exact .handleNewConn
  · split at h
    · next hthread =>
      cases h
      exact hthread ▸ .connectionEstablished
    · cases h
  · next closes =>
    cases h
    cases closes with
    | true => exact .handleClose
    | false => exact .handleMessage
  · cases h
    exact .handleWrite (by decide)
  · cases h
    exact .handleWrite (by decide)
  · cases h
    exact .handleWrite (by decide)
  · split at h
    · next hentry =>
      cases h
      exact hentry ▸ .handleCloseInLoop
    · cases h
  · split at h
    · next hthread =>
      cases h
      exact hthread ▸ .connectionDestructor
    · cases h
  · cases h
    exact .close
  · cases h

/-- A connection does not return to an earlier phase. -/
theorem advances_next (id : ℕ) (loop : Loop) : Advances (next id loop) rank := by
  intro phase event phase' h
  cases passes_of_next h with
  | handleWrite _ => exact Nat.le_refl _
  | _ => decide

/-- The event that enters a phase. -/
def entering (id : ℕ) (loop : Loop) : Phase → Option (LifecycleEvent Loop)
  | free => none
  | accepted => some (.handleNewConn none)
  | established => some (.connectionEstablished loop)
  | closing => some (.handleMessage true)
  | erased => some (.handleCloseInLoop (some id))
  | destructed => some (.connectionDestructor loop)
  | closed => some (.close none none)

/-- Every phase up to the one that is reached was entered. -/
theorem entering_mem {id : ℕ} {loop : Loop} {history : List (LifecycleEvent Loop)} {reached : Phase}
    (phase : Phase) {event : LifecycleEvent Loop} (hrun : run (next id loop) .free history = some reached)
    (hentering : entering id loop phase = some event) (hrank : phase.rank ≤ reached.rank) : event ∈ history := by
  have hpos : free.rank < phase.rank := by
    cases phase with
    | free => cases hentering
    | _ => decide
  obtain ⟨crossing, hmem, v, v', hcross, hlow, hhigh⟩ := exists_crossing rank phase.rank hrun hpos hrank
  suffices heq : crossing = event from heq ▸ hmem
  cases passes_of_next hcross with
  | handleWrite _ => exact absurd hlow (Nat.not_lt.mpr hhigh)
  | handleMessage => exact absurd hlow (Nat.not_lt.mpr hhigh)
  | _ => cases phase <;> simp_all [rank, entering]

end Phase

/-- What a history promises about the order of its events. -/
structure Lawful {Loop : Type} (id : ℕ) (loop : Loop) (history : List (LifecycleEvent Loop)) : Prop where
  overwrites : ∀ entry, .handleNewConn entry ∈ history → entry = none
  closesOnce : history.countP LifecycleEvent.isHandleCloseInLoop ≤ 1
  finds : ∀ entry, .handleCloseInLoop entry ∈ history → entry = some id
  destructsOnce : history.countP LifecycleEvent.isConnectionDestructor ≤ 1
  destructs : ∀ thread before after, history = before ++ .connectionDestructor thread :: after →
    thread = loop ∧ .connectionEstablished loop ∈ before ∧ ∀ event ∈ after, event.isHandler = false
  leaves : ∀ entry registered before after, history = before ++ .close entry registered :: after →
    entry = none ∧ registered = none ∧ .handleCloseInLoop (some id) ∈ before ∧
      .connectionDestructor loop ∈ before ∧ after = []

namespace Lawful

variable {Loop : Type} [DecidableEq Loop]

/-- Histories that the phases admit are lawful. -/
theorem of_run {id : ℕ} {loop : Loop} {history : List (LifecycleEvent Loop)} {phase : Phase}
    (hrun : run (Phase.next id loop) .free history = some phase) : Lawful id loop history where
  overwrites entry hmem := by
    obtain ⟨u, u', hstep, -⟩ := (Phase.advances_next id loop).mem_run hrun hmem
    cases Phase.passes_of_next hstep with
    | handleNewConn => rfl
  closesOnce := by
    apply (Phase.advances_next id loop).countP_le_one 4 _ hrun
    intro u event u' hevent hstep
    cases Phase.passes_of_next hstep with
    | handleCloseInLoop => decide
    | _ => cases hevent
  finds entry hmem := by
    obtain ⟨u, u', hstep, -⟩ := (Phase.advances_next id loop).mem_run hrun hmem
    cases Phase.passes_of_next hstep with
    | handleCloseInLoop => rfl
  destructsOnce := by
    apply (Phase.advances_next id loop).countP_le_one 5 _ hrun
    intro u event u' hevent hstep
    cases Phase.passes_of_next hstep with
    | connectionDestructor => decide
    | _ => cases hevent
  destructs thread before after heq := by
    subst heq
    obtain ⟨u, hbefore, hrest⟩ := run_append_eq_some.mp hrun
    obtain ⟨u', hstep, hafter⟩ := run_cons_eq_some.mp hrest
    cases Phase.passes_of_next hstep with
    | connectionDestructor =>
      refine ⟨rfl, Phase.entering_mem .established hbefore rfl (by decide), ?_⟩
      intro event hmem
      obtain ⟨v, v', hlater, hlow, -⟩ := (Phase.advances_next id loop).mem_run hafter hmem
      cases Phase.passes_of_next hlater with
      | handleWrite hknown => exact absurd (Nat.le_trans hlow hknown.2) (by decide)
      | handleMessage => exact absurd hlow (by decide)
      | handleClose => exact absurd hlow (by decide)
      | _ => rfl
  leaves entry registered before after heq := by
    subst heq
    obtain ⟨u, hbefore, hrest⟩ := run_append_eq_some.mp hrun
    obtain ⟨u', hstep, hafter⟩ := run_cons_eq_some.mp hrest
    cases Phase.passes_of_next hstep with
    | close =>
      refine ⟨rfl, rfl, Phase.entering_mem .erased hbefore rfl (by decide),
        Phase.entering_mem .destructed hbefore rfl (by decide), ?_⟩
      cases after with
      | nil => rfl
      | cons event rest =>
        obtain ⟨v, hlater, -⟩ := run_cons_eq_some.mp hafter
        cases Phase.passes_of_next hlater with
        | handleWrite hknown => exact absurd hknown.2 (by decide)

end Lawful

end WebServer.Util
