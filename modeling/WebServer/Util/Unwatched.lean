import WebServer.Util.ConnectionOrder
import WebServer.Util.Registration

/-!
# Channels without interest

`Update` chooses the operation of `epoll_ctl` by the state of the channel before it looks at
the events: a channel that is not registered gets registered, also for no events, and the
kernel reports errors and hang-ups for every registered descriptor. So a function that
leaves no interest leaves the descriptor unwatched exactly if it finds it registered.

`ConnectionDestructor` disables a connection again unless it finds it in `kDisconnected`. After
`HandleClose` this is the case unless `Shutdown` was called in between, which sets
`kDisconnecting` in every state.
-/

namespace WebServer.Util

open WebServer.Foundation

namespace Epoller

/-- `Update` for no events leaves a descriptor unwatched exactly if it finds it registered. -/
theorem InStep.interest_update_none {epoller : Epoller} {channel : Channel} (h : epoller.InStep channel) :
    (epoller.update { channel with event := .none }).1.interest channel.fd = none ↔ channel.state = .kAdded := by
  rw [update_interest]
  constructor
  · intro hnone
    by_contra hstate
    have hadd : updateOperation { channel with event := .none } = .add := by
      cases hcases : channel.state with
      | kAdded => exact absurd hcases hstate
      | kNew => rw [updateOperation]
      | kDeleted => rw [updateOperation]
    rw [hadd, epollCtl_add _ (h.interest_none hstate)] at hnone
    cases hnone
  · intro hstate
    have hdel : updateOperation { channel with event := .none } = .del := by simp [updateOperation, hstate]
    rw [hdel]
    exact epollCtl_del _ _ _

end Epoller

namespace ChannelSet

variable {ι : Type} [DecidableEq ι]

/-- When the function leaves no interest, the kernel does not watch the descriptor. -/
def LeavesUnwatched (s : ChannelSet ι) (a : ι × ChannelOp) : Prop :=
  ∀ s', s.step a = some s' → (s'.channels a.1).event = .none → s'.epoller.interest (s'.channels a.1).fd = none

/-- If the function leaves no interest and is not `Remove`, it finds the channel registered. -/
def FindsRegistered (s : ChannelSet ι) (a : ι × ChannelOp) : Prop :=
  a.2 ≠ .remove → a.2.event (s.channels a.1).event = .none → (s.channels a.1).state = .kAdded

instance (s : ChannelSet ι) (a : ι × ChannelOp) : Decidable (s.FindsRegistered a) :=
  inferInstanceAs (Decidable (_ → _ → _))

/-- A function that leaves no interest leaves the descriptor unwatched if and only if it is
`Remove` or finds the channel registered. -/
theorem leavesUnwatched_iff {fd : ι → ℕ} {s : ChannelSet ι} (h : InStep fd s) (a : ι × ChannelOp) :
    s.LeavesUnwatched a ↔ s.FindsRegistered a := by
  obtain ⟨i, op⟩ := a
  obtain ⟨state, hchannel⟩ := s.epoller.apply_channel (s.channels i) op
  by_cases hnone : op.event (s.channels i).event = .none
  · by_cases hremove : op = .remove
    · refine iff_of_true (fun s' hstep _ => ?_) fun hother => absurd hremove hother
      obtain ⟨hallowed, hepoller, hchannels⟩ := step_eq_some hstep
      have hstep' := (h.inStep i).apply hallowed
      rw [hepoller, hchannels, Function.update_self]
      subst hremove
      exact hstep'.2
    · have hupdate : s.epoller.apply (s.channels i) op = s.epoller.update { s.channels i with event := .none } := by
        rw [← hnone]
        cases op with
        | remove => exact absurd rfl hremove
        | _ => rfl
      have hunwatched := (h.inStep i).interest_update_none
      rw [← hupdate] at hunwatched
      constructor
      · intro hleaves _ _
        apply hunwatched.mp
        have hstep : s.step (i, op) = some _ := if_neg fun hboth => hremove hboth.1
        have hlast := hleaves _ hstep
        simp only [Function.update_self, hchannel] at hlast
        exact hlast hnone
      · intro hfinds s' hstep _
        obtain ⟨-, hepoller, hchannels⟩ := step_eq_some hstep
        rw [hepoller, hchannels, Function.update_self, hchannel]
        exact hunwatched.mpr (hfinds hremove hnone)
  · refine iff_of_true (fun s' hstep hevent => absurd ?_ hnone) fun _ hevent => absurd hevent hnone
    obtain ⟨-, -, hchannels⟩ := step_eq_some hstep
    rw [hchannels, Function.update_self, hchannel] at hevent
    exact hevent

end ChannelSet

/-- What can happen to a connection that was closed: a `Shutdown` by the idle timer, the write
callback of the same report, and `ConnectionDestructor`. -/
inductive ClosedStep where
  | shutdown
  | handleWrite (result : SendResult)
  | connectionDestructor

namespace Session

/-- One step of a closed connection; `Remove` is not called for a channel in `kNew`. -/
def closedStep (s : Session) : ClosedStep → Option Session
  | .shutdown => some s.shutdown
  | .handleWrite result => some (s.handleWrite result)
  | .connectionDestructor => if s.channel.state = .kNew then none else some s.connectionDestructor

/-- `ConnectionDestructor()` up to the call of `Remove`. -/
def beforeRemove (s : Session) : Session :=
  if s.state = .kDisconnecting ∨ s.state = .kConnected then disableAll { s with state := .kDisconnected } else s

/-- The connection after each call of its epoller in a step, and after the step. -/
def moments (s : Session) : ClosedStep → List Session
  | .shutdown => [s.shutdown]
  | .handleWrite result => [s.handleWrite result]
  | .connectionDestructor => [s.beforeRemove, s.connectionDestructor]

/-- At no moment of the step the descriptor is registered. -/
def StaysUnregistered (s : Session) (step : ClosedStep) : Prop :=
  ∀ moment ∈ s.moments step, moment.epoller.interest s.channel.fd = none

/-- `ConnectionDestructor` finds that the connection was not shut down since it was closed. -/
def FindsDisconnected (s : Session) : ClosedStep → Prop
  | .connectionDestructor => s.state = .kDisconnected
  | _ => True

instance (s : Session) : (step : ClosedStep) → Decidable (s.FindsDisconnected step)
  | .connectionDestructor => inferInstanceAs (Decidable (_ = _))
  | .shutdown => isTrue trivial
  | .handleWrite _ => isTrue trivial

/-- The channel is in step, without interest and not registered. -/
structure Unwatched (s : Session) : Prop where
  inStep : s.epoller.InStep s.channel
  notAdded : s.channel.state ≠ .kAdded
  event : s.channel.event = .none

/-- Disabling a channel without interest changes only its registration. -/
theorem unwatched_disableAll {s : Session} (h : Unwatched s) :
    s.disableAll.epoller.InStep s.disableAll.channel ∧ s.disableAll.channel.state ≠ .kNew ∧
      s.disableAll.channel.event = .none := by
  obtain ⟨state, hchannel, hstate⟩ := s.epoller.update_channel { s.channel with event := .none }
  refine ⟨h.inStep.update .none, ?_, ?_⟩
  · rw [disableAll, setEvent, hchannel]
    exact hstate
  · rw [disableAll, setEvent, hchannel]

/-- Up to the call of `Remove` the channel stays in step, and it is not new afterwards. -/
theorem unwatched_beforeRemove {s : Session} (h : Unwatched s) (hstate : s.channel.state ≠ .kNew) :
    s.beforeRemove.epoller.InStep s.beforeRemove.channel ∧ s.beforeRemove.channel.state ≠ .kNew ∧
      s.beforeRemove.channel.event = .none := by
  rw [beforeRemove]
  split
  · exact unwatched_disableAll ⟨h.inStep, h.notAdded, h.event⟩
  · exact ⟨h.inStep, hstate, h.event⟩

/-- A connection that is not watched is not watched after any further step. -/
theorem unwatched_step (s : Session) (step : ClosedStep) (s' : Session) (h : Unwatched s)
    (hstep : s.closedStep step = some s') : Unwatched s' := by
  cases step with
  | shutdown =>
    obtain rfl := Option.some.inj hstep
    rw [shutdown]
    split
    · exact ⟨h.inStep, h.notAdded, h.event⟩
    · exact ⟨h.inStep, h.notAdded, h.event⟩
  | handleWrite result =>
    obtain rfl := Option.some.inj hstep
    have hidle : ¬ s.channel.isWriting := by simp [Channel.isWriting, h.event, Events.none]
    rw [handleWrite, if_neg hidle]
    exact h
  | connectionDestructor =>
    rw [closedStep] at hstep
    split at hstep
    · cases hstep
    · next hnew =>
      obtain rfl := Option.some.inj hstep
      obtain ⟨hinStep, hstate, hevent⟩ := unwatched_beforeRemove h hnew
      exact ⟨hinStep.remove hstate, ChannelState.noConfusion, hevent⟩

/-- A step of an unwatched connection registers its descriptor exactly if it is a call of
`ConnectionDestructor` that does not find `kDisconnected`. -/
theorem staysUnregistered_iff {s : Session} (h : Unwatched s) (step : ClosedStep) :
    s.StaysUnregistered step ↔ s.FindsDisconnected step := by
  have hnone := h.inStep.interest_none h.notAdded
  cases step with
  | shutdown =>
    refine iff_of_true (fun moment hmem => ?_) trivial
    rw [List.mem_singleton.mp hmem, shutdown]
    split
    · exact hnone
    · exact hnone
  | handleWrite result =>
    refine iff_of_true (fun moment hmem => ?_) trivial
    have hidle : ¬ s.channel.isWriting := by simp [Channel.isWriting, h.event, Events.none]
    rw [List.mem_singleton.mp hmem, handleWrite, if_neg hidle]
    exact hnone
  | connectionDestructor =>
    by_cases hstate : s.state = .kDisconnected
    · have hbefore : s.beforeRemove = s := by simp [beforeRemove, hstate]
      refine iff_of_true (fun moment hmem => ?_) hstate
      rcases List.mem_cons.mp hmem with rfl | hlast
      · rw [hbefore]
        exact hnone
      · have hremoved : s.connectionDestructor.epoller.interest s.channel.fd =
            (s.beforeRemove.epoller.remove s.beforeRemove.channel).1.interest s.channel.fd := rfl
        rw [List.mem_singleton.mp hlast, hremoved, hbefore, Epoller.remove, if_neg h.notAdded]
        exact hnone
    · refine iff_of_false (fun hstays => h.notAdded (h.inStep.interest_update_none.mp ?_)) hstate
      have hopen : s.state = .kDisconnecting ∨ s.state = .kConnected := by
        cases hcases : s.state with
        | kConnected => exact Or.inr rfl
        | kDisconnected => exact absurd hcases hstate
        | kDisconnecting => exact Or.inl rfl
      have hfirst := hstays s.beforeRemove List.mem_cons_self
      rw [beforeRemove, if_pos hopen] at hfirst
      exact hfirst

/-- Closing a registered connection leaves it unwatched. -/
theorem unwatched_handleClose {s : Session} (h : s.epoller.InStep s.channel) (hadded : s.channel.state = .kAdded) :
    Unwatched s.handleClose where
  inStep := setEvent_inStep { s with state := .kDisconnected } h .none
  notAdded := by
    have hdeleted := (disableAll_unregistered { s with state := .kDisconnected } hadded).2
    exact fun hstate => ChannelState.noConfusion (hdeleted.symm.trans hstate)
  event := setEvent_event { s with state := .kDisconnected } .none

end Session

/-- A function that leaves a channel without interest leaves its descriptor unwatched, in every
such call of a run, if and only if these calls find the channel registered, unless they are
calls of `Remove`. After `HandleClose` of a registered connection the descriptor is not
registered again, at any moment of any later step, if and only if no call of
`ConnectionDestructor` finds that `Shutdown` was called in between. -/
theorem unwatched_iff {ι : Type} [DecidableEq ι] (address : ι → ℕ) {fd : ι → ℕ} (hfd : Function.Injective fd)
    (ops : List (ι × ChannelOp)) {s : Session} (hinStep : s.epoller.InStep s.channel)
    (hadded : s.channel.state = .kAdded) (steps : List ClosedStep) :
    (Meets ChannelSet.step ChannelSet.LeavesUnwatched (ChannelSet.new address fd) ops ↔
      Meets ChannelSet.step ChannelSet.FindsRegistered (ChannelSet.new address fd) ops) ∧
    (Meets Session.closedStep Session.StaysUnregistered s.handleClose steps ↔
      Meets Session.closedStep Session.FindsDisconnected s.handleClose steps) := by
  constructor
  · exact meets_congr_of_invariant (ChannelSet.inStep_step hfd) (fun s a h => ChannelSet.leavesUnwatched_iff h a)
      (ChannelSet.inStep_new address fd) ops
  · exact meets_congr_of_invariant Session.unwatched_step (fun s step h => Session.staysUnregistered_iff h step)
      (Session.unwatched_handleClose hinStep hadded) steps

/-- A channel that is registered, disabled and removed, and a connection that is destructed without
a `Shutdown`, are not watched again. -/
theorem unwatched_registered :
    Meets ChannelSet.step ChannelSet.LeavesUnwatched (ChannelSet.new (fun _ : Unit => 0) fun _ => 5)
      [((), .enableRead), ((), .disableAll), ((), .enableWrite), ((), .disableWrite), ((), .remove)] ∧
    Meets Session.closedStep Session.StaysUnregistered (Session.started 0 5 0
      (.new .kGet .kUnknown) .new).handleClose
      [.handleWrite .wouldBlock, .connectionDestructor, .shutdown] := by
  have hopen : (Session.started 0 5 0 (.new .kGet .kUnknown) .new).Open := Session.open_started rfl rfl
  have hone : Function.Injective fun _ : Unit => 5 := fun _ _ _ => rfl
  have hboth := unwatched_iff (fun _ : Unit => 0) hone
    [((), .enableRead), ((), .disableAll), ((), .enableWrite), ((), .disableWrite), ((), .remove)]
    hopen.inStep hopen.added [.handleWrite .wouldBlock, .connectionDestructor, .shutdown]
  exact ⟨hboth.1.mpr (by decide), hboth.2.mpr (by decide)⟩

/-- Disabling a channel twice registers its descriptor for no events, and so does
`ConnectionDestructor` for a closed connection which the idle timer shut down. -/
theorem watched_disabledTwice :
    (∃ s, run ChannelSet.step (ChannelSet.new (fun _ : Unit => 0) fun _ => 5)
        [((), .enableRead), ((), .disableAll), ((), .disableAll)] = some s ∧
      (s.channels ()).event = .none ∧ s.epoller.interest (s.channels ()).fd = some (.none, 0)) ∧
    ∃ s, Session.closedStep (Session.started 0 5 0 (.new .kGet .kUnknown) .new).handleClose .shutdown = some s ∧
      ∃ moment ∈ s.moments .connectionDestructor, moment.epoller.interest s.channel.fd = some (.none, 0) :=
  ⟨⟨_, rfl, rfl, rfl⟩, _, rfl, _, List.mem_cons_self, rfl⟩

end WebServer.Util
