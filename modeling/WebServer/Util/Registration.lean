import WebServer.Foundation.Run
import WebServer.Util.TcpConnection

/-!
# The channels of one epoller

A `ChannelSet` is an epoller with any number of channels on distinct descriptors, and a step
is one call of `EnableRead`, `EnableWrite`, `DisableWrite`, `DisableAll` or `Remove` on one of
them. Every channel stays in step with `channelmap_` and with the kernel, so each `epoll_ctl`
of the code does what it asks for and the assertions hold.
-/

namespace WebServer.Util

open WebServer.Foundation

/-- The functions of a channel that reach its epoller. -/
inductive ChannelOp where
  | enableRead
  | enableWrite
  | disableWrite
  | disableAll
  | remove
deriving DecidableEq

/-- What a function makes of `event_`. -/
def ChannelOp.event : ChannelOp → Events → Events
  | enableRead, event => { event with epollin := true }
  | enableWrite, event => { event with epollout := true }
  | disableWrite, event => { event with epollout := false }
  | disableAll, _ => .none
  | remove, event => event

namespace Epoller

/-- Call a function of a channel. -/
def apply (epoller : Epoller) (channel : Channel) : ChannelOp → Epoller × Channel
  | .remove => epoller.remove channel
  | op => epoller.update { channel with event := op.event channel.event }

/-- The `operation` which `Update(channel)` chooses. -/
def updateOperation (channel : Channel) : EpollCtl :=
  match channel.state with
  | .kAdded => if channel.event = .none then .del else .mod
  | _ => .add

/-- The `epoll_ctl` call a function of a channel makes. -/
def issued (channel : Channel) : ChannelOp → Option EpollCtl
  | .remove => if channel.state = .kAdded then some .del else none
  | op => some (updateOperation { channel with event := op.event channel.event })

/-- The kernel performs the operation: only an absent descriptor can be added, and only a
present one modified or deleted. -/
def Legal (epoller : Epoller) (fd : ℕ) : EpollCtl → Prop
  | .add => epoller.interest fd = none
  | _ => (epoller.interest fd).isSome

/-- The assertions of `Update(channel)`. -/
def UpdateAsserts (epoller : Epoller) (channel : Channel) : Prop :=
  if channel.state = .kNew then epoller.channelmap channel.fd = none
  else epoller.channelmap channel.fd = some channel.address

/-- The assertions met in a function of a channel. -/
def AssertsHold (epoller : Epoller) (channel : Channel) : ChannelOp → Prop
  | .remove => channel.state = .kDeleted ∨ channel.state = .kAdded
  | _ => epoller.UpdateAsserts channel

/-- `Update` changes the kernel's list by the operation it chooses. -/
theorem update_interest (epoller : Epoller) (channel : Channel) : (epoller.update channel).1.interest =
    (epoller.epollCtl (updateOperation channel) channel.fd (channel.event, channel.address)).interest := by
  obtain ⟨address, fd, event, state⟩ := channel
  cases state with
  | kNew => cases h : epoller.interest fd <;> simp [update, updateOperation, updateChannel, epollCtl, h]
  | kDeleted => rfl
  | kAdded => by_cases h : event = .none <;> simp [update, updateOperation, updateChannel, h]

/-- A function of a channel keeps its descriptor and address, and gives it the new events. -/
theorem apply_channel (epoller : Epoller) (channel : Channel) (op : ChannelOp) :
    ∃ state, (epoller.apply channel op).2 = { channel with event := op.event channel.event, state } := by
  cases op with
  | remove => exact ⟨.kNew, rfl⟩
  | enableRead => exact (epoller.update_channel _).imp fun state h => h.1
  | enableWrite => exact (epoller.update_channel _).imp fun state h => h.1
  | disableWrite => exact (epoller.update_channel _).imp fun state h => h.1
  | disableAll => exact (epoller.update_channel _).imp fun state h => h.1

/-- A function of a channel keeps it in step. -/
theorem InStep.apply {epoller : Epoller} {channel : Channel} (h : epoller.InStep channel) {op : ChannelOp}
    (hremove : op = .remove → channel.state ≠ .kNew) :
    (epoller.apply channel op).1.InStep (epoller.apply channel op).2 := by
  cases op with
  | remove => exact h.remove (hremove rfl)
  | enableRead => exact h.update _
  | enableWrite => exact h.update _
  | disableWrite => exact h.update _
  | disableAll => exact h.update _

/-- A function of one channel leaves other descriptors alone. -/
theorem sameAt_apply (epoller : Epoller) {channel : Channel} {fd : ℕ} (h : fd ≠ channel.fd) (op : ChannelOp) :
    SameAt epoller (epoller.apply channel op).1 fd := by
  cases op with
  | remove => exact sameAt_remove epoller h
  | enableRead => exact sameAt_update epoller h
  | enableWrite => exact sameAt_update epoller h
  | disableWrite => exact sameAt_update epoller h
  | disableAll => exact sameAt_update epoller h

/-- For a channel in step the assertions of `Update` hold. -/
theorem InStep.updateAsserts {epoller : Epoller} {channel : Channel} (h : epoller.InStep channel) :
    epoller.UpdateAsserts channel := by
  rw [InStep] at h
  rw [UpdateAsserts]
  cases hstate : channel.state with
  | kNew =>
    rw [hstate] at h
    exact h.1
  | kAdded =>
    rw [hstate] at h
    exact h.1
  | kDeleted =>
    rw [hstate] at h
    exact h.1

/-- For a channel in step the assertions hold. -/
theorem InStep.assertsHold {epoller : Epoller} {channel : Channel} (h : epoller.InStep channel) {op : ChannelOp}
    (hremove : op = .remove → channel.state ≠ .kNew) : epoller.AssertsHold channel op := by
  cases op with
  | remove =>
    cases hstate : channel.state with
    | kNew => exact absurd hstate (hremove rfl)
    | kAdded => exact Or.inr hstate
    | kDeleted => exact Or.inl hstate
  | enableRead => exact h.updateAsserts
  | enableWrite => exact h.updateAsserts
  | disableWrite => exact h.updateAsserts
  | disableAll => exact h.updateAsserts

/-- For a channel in step the kernel performs what `Update` asks for. -/
theorem InStep.legal_updateOperation {epoller : Epoller} {channel : Channel} (h : epoller.InStep channel)
    (event : Events) : epoller.Legal channel.fd (updateOperation { channel with event }) := by
  rw [InStep] at h
  rw [updateOperation]
  cases hstate : channel.state with
  | kNew =>
    rw [hstate] at h
    exact h.2
  | kDeleted =>
    rw [hstate] at h
    exact h.2
  | kAdded =>
    rw [hstate] at h
    have hpresent : (epoller.interest channel.fd).isSome := by simp [h.2]
    simp only
    split
    · exact hpresent
    · exact hpresent

/-- For a channel in step the kernel performs every operation it is asked for. -/
theorem InStep.legal_issued {epoller : Epoller} {channel : Channel} (h : epoller.InStep channel) {op : ChannelOp}
    {operation : EpollCtl} (hissued : issued channel op = some operation) : epoller.Legal channel.fd operation := by
  cases op with
  | remove =>
    rw [issued] at hissued
    split at hissued
    · next hadded =>
      rw [InStep, hadded] at h
      obtain rfl := Option.some.inj hissued
      simp [Legal, h.2]
    · cases hissued
  | enableRead => exact Option.some.inj hissued ▸ h.legal_updateOperation _
  | enableWrite => exact Option.some.inj hissued ▸ h.legal_updateOperation _
  | disableWrite => exact Option.some.inj hissued ▸ h.legal_updateOperation _
  | disableAll => exact Option.some.inj hissued ▸ h.legal_updateOperation _

/-- A channel in step that is not registered is not watched. -/
theorem InStep.interest_none {epoller : Epoller} {channel : Channel} (h : epoller.InStep channel)
    (hstate : channel.state ≠ .kAdded) : epoller.interest channel.fd = none := by
  rw [InStep] at h
  cases hcases : channel.state with
  | kAdded => exact absurd hcases hstate
  | kNew =>
    rw [hcases] at h
    exact h.2
  | kDeleted =>
    rw [hcases] at h
    exact h.2

end Epoller

/-- An epoller and its channels. -/
structure ChannelSet (ι : Type) where
  epoller : Epoller
  channels : ι → Channel

namespace ChannelSet

variable {ι : Type}

/-- New channels, none of them registered. -/
def new (address fd : ι → ℕ) : ChannelSet ι := ⟨.new, fun i => .new (address i) (fd i)⟩

/-- Call a function of one channel; `Remove` is not called for a channel in `kNew`. -/
def step [DecidableEq ι] (s : ChannelSet ι) (a : ι × ChannelOp) : Option (ChannelSet ι) :=
  if a.2 = .remove ∧ (s.channels a.1).state = .kNew then none
  else
    let applied := s.epoller.apply (s.channels a.1) a.2
    some { epoller := applied.1, channels := Function.update s.channels a.1 applied.2 }

/-- The channels have these descriptors, and each is in step with the epoller. -/
structure InStep (fd : ι → ℕ) (s : ChannelSet ι) : Prop where
  descriptor : ∀ i, (s.channels i).fd = fd i
  inStep : ∀ i, s.epoller.InStep (s.channels i)

/-- New channels are in step. -/
theorem inStep_new (address fd : ι → ℕ) : InStep fd (new address fd) :=
  ⟨fun _ => rfl, fun _ => Epoller.inStep_new rfl rfl⟩

section

variable [DecidableEq ι]

/-- What a step does, and when it is taken. -/
theorem step_eq_some {s s' : ChannelSet ι} {i : ι} {op : ChannelOp} (h : s.step (i, op) = some s') :
    (op = .remove → (s.channels i).state ≠ .kNew) ∧ s'.epoller = (s.epoller.apply (s.channels i) op).1 ∧
      s'.channels = Function.update s.channels i (s.epoller.apply (s.channels i) op).2 := by
  rw [step] at h
  split at h
  · cases h
  · next hallowed =>
    obtain rfl := Option.some.inj h
    exact ⟨fun hremove hnew => hallowed ⟨hremove, hnew⟩, rfl, rfl⟩

/-- Every function of a channel keeps all channels in step. -/
theorem inStep_step {fd : ι → ℕ} (hfd : Function.Injective fd) (s : ChannelSet ι) (a : ι × ChannelOp)
    (s' : ChannelSet ι) (h : InStep fd s) (hstep : s.step a = some s') : InStep fd s' := by
  obtain ⟨i, op⟩ := a
  obtain ⟨hremove, hepoller, hchannels⟩ := step_eq_some hstep
  obtain ⟨state, hchannel⟩ := s.epoller.apply_channel (s.channels i) op
  constructor
  · intro j
    rw [hchannels]
    by_cases hj : j = i
    · subst hj
      rw [Function.update_self, hchannel]
      exact h.descriptor j
    · rw [Function.update_of_ne hj]
      exact h.descriptor j
  · intro j
    rw [hepoller, hchannels]
    by_cases hj : j = i
    · subst hj
      rw [Function.update_self]
      exact (h.inStep j).apply hremove
    · have hother : (s.channels j).fd ≠ (s.channels i).fd := by
        rw [h.descriptor, h.descriptor]
        exact fun hsame => hj (hfd hsame)
      rw [Function.update_of_ne hj]
      exact (s.epoller.sameAt_apply hother op).inStep (h.inStep j)

/-- In every run each channel is in step with `channelmap_` and with the kernel; so the
assertions hold whenever a function is called, and every `epoll_ctl` issued is legal. -/
theorem inStep_run {address fd : ι → ℕ} (hfd : Function.Injective fd) {ops : List (ι × ChannelOp)}
    {s : ChannelSet ι}
    (hrun : run step (new address fd) ops = some s) :
    (∀ i, (s.channels i).fd = fd i ∧ s.epoller.InStep (s.channels i)) ∧
    ∀ i op s', s.step (i, op) = some s' → s.epoller.AssertsHold (s.channels i) op ∧
      ∀ operation, Epoller.issued (s.channels i) op = some operation →
        s.epoller.Legal (s.channels i).fd operation := by
  have hall := run_invariant (inStep_step hfd) (inStep_new address fd) hrun
  refine ⟨fun i => ⟨hall.descriptor i, hall.inStep i⟩, fun i op s' hstep => ?_⟩
  exact ⟨(hall.inStep i).assertsHold (step_eq_some hstep).1, fun operation => (hall.inStep i).legal_issued⟩

end

/-- Two channels, one of which is disabled, enabled again and removed. -/
theorem inStep_twoChannels : ∃ s : ChannelSet Bool,
    run step (new Bool.toNat fun b => 5 + b.toNat) [(true, .enableRead), (false, .enableRead), (true, .disableAll),
      (true, .enableWrite), (true, .remove)] = some s ∧ s.epoller.InStep (s.channels true) := by
  have hfd : Function.Injective fun b : Bool => 5 + b.toNat := by
    intro b b' hsame
    cases b <;> cases b' <;> simp_all
  have hrun : run step (new Bool.toNat fun b => 5 + b.toNat) [(true, .enableRead), (false, .enableRead),
      (true, .disableAll), (true, .enableWrite), (true, .remove)] = some _ := rfl
  exact ⟨_, hrun, ((inStep_run hfd hrun).1 true).2⟩

end ChannelSet

end WebServer.Util
