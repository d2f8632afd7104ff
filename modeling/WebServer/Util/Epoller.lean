import Mathlib.Logic.Function.Basic
import Mathlib.Tactic.Common

/-!
# Channels and the epoll set

A `Channel` is the interest of one descriptor in events, and an `Epoller` keeps the channels
of one loop by their descriptor in `channelmap_` and registers them with the kernel. The
kernel's interest list is part of the model: `epoll_ctl` refuses to add a descriptor that is
present and to modify or delete one that is absent, and the code ignores the refusal.

A pointer to a channel is its address. The assertions of the code are compiled away in the
default build and are not part of the functions; `InStep` is what they check.
-/

namespace WebServer.Util

/-- A set of epoll events. -/
structure Events where
  epollin : Bool
  epollout : Bool
deriving DecidableEq

/-- The empty set of events. -/
def Events.none : Events := ⟨false, false⟩

/-- `ChannelState`. -/
inductive ChannelState where
  | kNew
  | kAdded
  | kDeleted
deriving DecidableEq

/-- The data members of `Channel`, and the address of the object. -/
structure Channel where
  address : ℕ
  fd : ℕ
  event : Events
  state : ChannelState
deriving DecidableEq

/-- The constructor. -/
def Channel.new (address fd : ℕ) : Channel := ⟨address, fd, .none, .kNew⟩

/-- `IsWriting()`. -/
def Channel.isWriting (channel : Channel) : Bool := channel.event.epollout

/-- The operations of `epoll_ctl`. -/
inductive EpollCtl where
  | add
  | mod
  | del
deriving DecidableEq

/-- `channelmap_`, and the interest list which the kernel keeps for the epoll descriptor. -/
structure Epoller where
  channelmap : ℕ → Option ℕ
  interest : ℕ → Option (Events × ℕ)

namespace Epoller

/-- The constructor. -/
def new : Epoller := ⟨fun _ => none, fun _ => none⟩

/-- `epoll_ctl`: adding needs an absent descriptor, the other operations a present one. -/
def epollCtl (epoller : Epoller) (operation : EpollCtl) (fd : ℕ) (event : Events × ℕ) : Epoller :=
  match operation, epoller.interest fd with
  | .add, none => { epoller with interest := Function.update epoller.interest fd (some event) }
  | .mod, some _ => { epoller with interest := Function.update epoller.interest fd (some event) }
  | .del, some _ => { epoller with interest := Function.update epoller.interest fd none }
  | _, _ => epoller

/-- `UpdateChannel(channel, operation)`. -/
def updateChannel (epoller : Epoller) (channel : Channel) (operation : EpollCtl) : Epoller :=
  epoller.epollCtl operation channel.fd (channel.event, channel.address)

/-- `Update(channel)`. -/
def update (epoller : Epoller) (channel : Channel) : Epoller × Channel :=
  match channel.state with
  | .kNew =>
    let epoller := { epoller with
      channelmap := Function.update epoller.channelmap channel.fd (some channel.address) }
    (epoller.updateChannel channel .add, { channel with state := .kAdded })
  | .kDeleted => (epoller.updateChannel channel .add, { channel with state := .kAdded })
  | .kAdded =>
    if channel.event = .none then (epoller.updateChannel channel .del, { channel with state := .kDeleted })
    else (epoller.updateChannel channel .mod, channel)

/-- `Remove(channel)`. -/
def remove (epoller : Epoller) (channel : Channel) : Epoller × Channel :=
  let epoller := if channel.state = .kAdded then epoller.updateChannel channel .del else epoller
  ({ epoller with channelmap := Function.update epoller.channelmap channel.fd none },
    { channel with state := .kNew })

/-- The channel, `channelmap_` and the kernel agree about the descriptor. -/
def InStep (epoller : Epoller) (channel : Channel) : Prop :=
  match channel.state with
  | .kNew => epoller.channelmap channel.fd = none ∧ epoller.interest channel.fd = none
  | .kAdded => epoller.channelmap channel.fd = some channel.address ∧
      epoller.interest channel.fd = some (channel.event, channel.address)
  | .kDeleted => epoller.channelmap channel.fd = some channel.address ∧ epoller.interest channel.fd = none

/-- A new channel agrees with an epoller that does not know its descriptor. -/
theorem inStep_new {epoller : Epoller} {address fd : ℕ} (hmap : epoller.channelmap fd = none)
    (hinterest : epoller.interest fd = none) : epoller.InStep (.new address fd) := ⟨hmap, hinterest⟩

/-- `epoll_ctl` changes at most the entry of its descriptor. -/
theorem epollCtl_eq (epoller : Epoller) (operation : EpollCtl) (fd : ℕ) (event : Events × ℕ) :
    ∃ entry, epoller.epollCtl operation fd event =
      { epoller with interest := Function.update epoller.interest fd entry } := by
  have hsame : epoller =
    { epoller with interest := Function.update epoller.interest fd (epoller.interest fd) } := by
    rw [Function.update_eq_self]
  cases operation with
  | add =>
    cases h : epoller.interest fd with
    | none => exact ⟨some event, by simp [epollCtl, h]⟩
    | some old => exact ⟨_, by simpa [epollCtl, h] using hsame⟩
  | mod =>
    cases h : epoller.interest fd with
    | none => exact ⟨_, by simpa [epollCtl, h] using hsame⟩
    | some old => exact ⟨some event, by simp [epollCtl, h]⟩
  | del =>
    cases h : epoller.interest fd with
    | none => exact ⟨_, by simpa [epollCtl, h] using hsame⟩
    | some old => exact ⟨none, by simp [epollCtl, h]⟩

/-- `epoll_ctl` concerns one descriptor only. -/
theorem epollCtl_interest_of_ne {epoller : Epoller} {operation : EpollCtl} {fd other : ℕ} {event : Events × ℕ}
    (h : other ≠ fd) : (epoller.epollCtl operation fd event).interest other = epoller.interest other := by
  obtain ⟨entry, hentry⟩ := epoller.epollCtl_eq operation fd event
  rw [hentry]
  exact Function.update_of_ne h _ _

/-- `epoll_ctl` does not touch `channelmap_`. -/
@[simp] theorem epollCtl_channelmap (epoller : Epoller) (operation : EpollCtl) (fd : ℕ) (event : Events × ℕ) :
    (epoller.epollCtl operation fd event).channelmap = epoller.channelmap := by
  obtain ⟨entry, hentry⟩ := epoller.epollCtl_eq operation fd event
  rw [hentry]

/-- Adding an absent descriptor registers it. -/
theorem epollCtl_add {epoller : Epoller} {fd : ℕ} (event : Events × ℕ) (h : epoller.interest fd = none) :
    (epoller.epollCtl .add fd event).interest fd = some event := by
  simp [epollCtl, h]

/-- Modifying a present descriptor replaces its entry. -/
theorem epollCtl_mod {epoller : Epoller} {fd : ℕ} (event : Events × ℕ) (h : (epoller.interest fd).isSome) :
    (epoller.epollCtl .mod fd event).interest fd = some event := by
  obtain ⟨old, hold⟩ := Option.isSome_iff_exists.mp h
  simp [epollCtl, hold]

/-- After a deletion the descriptor is absent. -/
theorem epollCtl_del (epoller : Epoller) (fd : ℕ) (event : Events × ℕ) :
    (epoller.epollCtl .del fd event).interest fd = none := by
  cases h : epoller.interest fd with
  | none => simp [epollCtl, h]
  | some old => simp [epollCtl, h]

/-- `Update` keeps the identity and the events of the channel. -/
theorem update_channel (epoller : Epoller) (channel : Channel) :
    ∃ state, (epoller.update channel).2 = { channel with state } ∧ state ≠ .kNew := by
  rw [update]
  split
  · exact ⟨.kAdded, rfl, by decide⟩
  · exact ⟨.kAdded, rfl, by decide⟩
  · next hadded =>
    split
    · exact ⟨.kDeleted, rfl, by decide⟩
    · exact ⟨.kAdded, by rw [← hadded], by decide⟩

/-- After the events of a channel changed, `Update` brings the three views together again. -/
theorem InStep.update {epoller : Epoller} {channel : Channel} (h : epoller.InStep channel) (event : Events) :
    (epoller.update { channel with event }).1.InStep (epoller.update { channel with event }).2 := by
  rw [InStep] at h
  rw [Epoller.update]
  cases hstate : channel.state with
  | kNew =>
    rw [hstate] at h
    simp only [InStep, updateChannel, epollCtl_channelmap, Function.update_self, true_and]
    exact epollCtl_add _ h.2
  | kDeleted =>
    rw [hstate] at h
    simp only [InStep, updateChannel, epollCtl_channelmap]
    exact ⟨h.1, epollCtl_add _ h.2⟩
  | kAdded =>
    rw [hstate] at h
    have hpresent : (epoller.interest channel.fd).isSome := by simp [h.2]
    by_cases hnone : event = .none
    · simp only [if_pos hnone, InStep, updateChannel, epollCtl_channelmap]
      exact ⟨h.1, epollCtl_del _ _ _⟩
    · simp only [if_neg hnone, InStep, updateChannel, epollCtl_channelmap]
      exact ⟨h.1, epollCtl_mod _ hpresent⟩

/-- `Remove` takes the descriptor out of `channelmap_` and out of the kernel's list. -/
theorem InStep.remove {epoller : Epoller} {channel : Channel} (h : epoller.InStep channel)
    (hstate : channel.state ≠ .kNew) :
    (epoller.remove channel).1.InStep (epoller.remove channel).2 := by
  rw [InStep] at h
  rw [Epoller.remove]
  cases hcases : channel.state with
  | kNew => exact absurd hcases hstate
  | kAdded => simp [InStep, updateChannel, epollCtl_del]
  | kDeleted =>
    rw [hcases] at h
    simp [InStep, h.2]

/-- The two epollers say the same about a descriptor. -/
def SameAt (epoller epoller' : Epoller) (fd : ℕ) : Prop :=
  epoller'.channelmap fd = epoller.channelmap fd ∧ epoller'.interest fd = epoller.interest fd

/-- Whether a channel is in step depends only on what is said about its descriptor. -/
theorem SameAt.inStep {epoller epoller' : Epoller} {channel : Channel} (h : SameAt epoller epoller' channel.fd)
    (hstep : epoller.InStep channel) : epoller'.InStep channel := by
  rw [InStep, h.1, h.2]
  exact hstep

/-- `Update` of one channel leaves other descriptors alone. -/
theorem sameAt_update (epoller : Epoller) {channel : Channel} {fd : ℕ} (h : fd ≠ channel.fd) :
    SameAt epoller (epoller.update channel).1 fd := by
  rw [update]
  split
  · exact ⟨(congrFun (epollCtl_channelmap _ _ _ _) fd).trans (Function.update_of_ne h _ _),
      epollCtl_interest_of_ne h⟩
  · exact ⟨congrFun (epollCtl_channelmap _ _ _ _) fd, epollCtl_interest_of_ne h⟩
  · split
    · exact ⟨congrFun (epollCtl_channelmap _ _ _ _) fd, epollCtl_interest_of_ne h⟩
    · exact ⟨congrFun (epollCtl_channelmap _ _ _ _) fd, epollCtl_interest_of_ne h⟩

/-- `Remove` of one channel leaves other descriptors alone. -/
theorem sameAt_remove (epoller : Epoller) {channel : Channel} {fd : ℕ} (h : fd ≠ channel.fd) :
    SameAt epoller (epoller.remove channel).1 fd := by
  rw [remove]
  constructor
  · apply (Function.update_of_ne h _ _).trans
    split
    · exact congrFun (epollCtl_channelmap _ _ _ _) fd
    · rfl
  · split
    · exact epollCtl_interest_of_ne h
    · rfl

end Epoller

end WebServer.Util
