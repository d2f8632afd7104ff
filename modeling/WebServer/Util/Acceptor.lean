import WebServer.Foundation.Trace

/-!
# The acceptor and the descriptors of the process

`NewConn()` takes one pending connection, sets two options on it and hands it to the callback. When the
process has no descriptor left, it gives up the one it keeps open on `/dev/null`, accepts the connection with
it, closes the connection and opens `/dev/null` again. Every system call is a step of its own, because the
other threads open and close descriptors between them, and the kernel gives a number that was closed to the
next one who asks.

The acceptor still closes no descriptor but its own, and it loses none. A number in `idlefd_` does not
have to be a descriptor of the acceptor: between the two calls the member holds a number that was closed.
-/

namespace WebServer.Util

open WebServer.Foundation

/-- What a system call that makes a descriptor returns; an error is `EMFILE` or another one. -/
inductive DescriptorResult where
  | made (fd : ℕ)
  | emfile
  | failed
deriving DecidableEq

/-- What `NewConn()` does with a connection: hand it to the callback, close it after an option could not be set, or
close it because there is no descriptor for it. -/
inductive Fate where
  | handed
  | refused
  | dropped
deriving DecidableEq

/-- How far `NewConn()` has come with an accepted connection, by the call that comes next. -/
inductive NewConnStage where
  | keepAlive
  | tcpNoDelay
  | refusing
  | handing
deriving DecidableEq

/-- The program position of `NewConn()`, by the call that comes next. -/
inductive NewConnPosition (Peer : Type) where
  | returned
  | accepted (stage : NewConnStage) (fd : ℕ) (peer : Peer)
  | closingIdle
  | acceptingIdle
  | closingAccepted (peer : Option Peer)
  | reopening
deriving DecidableEq

/-- The members of `Acceptor` and the program position of `NewConn()`, with the descriptors that are open,
those among them that the rest of the process is to close, the connections that wait to be accepted, all
connections that ever arrived, and what became of them. -/
structure Acceptor (Peer : Type) where
  limit : ℕ
  opened : List ℕ
  others : List ℕ
  acceptfd : ℕ
  idlefd : Option ℕ
  position : NewConnPosition Peer
  arrived : List Peer
  backlog : List Peer
  settled : List (Peer × Fate)
deriving DecidableEq

/-- A connection arrives, another part of the process opens or closes a descriptor, or `NewConn()` goes on
with a call that makes a descriptor, with `setsockopt`, or with another call. -/
inductive AcceptorAction (Peer : Type) where
  | arrive (peer : Peer)
  | otherOpen (fd : ℕ)
  | otherClose (fd : ℕ)
  | make (result : DescriptorResult)
  | setsockopt (success : Bool)
  | proceed
deriving DecidableEq

namespace Acceptor

variable {Peer : Type}

/-- The acceptor listens, and nothing has arrived. -/
def listening (limit acceptfd idlefd : ℕ) (others : List ℕ) : Acceptor Peer where
  limit := limit
  opened := idlefd :: acceptfd :: others
  others := others
  acceptfd := acceptfd
  idlefd := some idlefd
  position := .returned
  arrived := []
  backlog := []
  settled := []

/-- `close`, where -1 is no descriptor. -/
def closed (opened : List ℕ) : Option ℕ → List ℕ
  | some fd => opened.erase fd
  | none => opened

/-- The kernel may return this: a number that is not in use while the limit is not reached, or `EMFILE` when
it is. -/
def permits (s : Acceptor Peer) : DescriptorResult → Bool
  | .made fd => fd ∉ s.opened ∧ s.opened.length < s.limit
  | .emfile => s.limit ≤ s.opened.length
  | .failed => true

/-- The call of `accept4` with which `NewConn()` begins. The assertion that the descriptor is not 0 is
compiled out. -/
def accept4 (s : Acceptor Peer) : DescriptorResult → Option (Acceptor Peer)
  | .made fd =>
    match s.backlog with
    | peer :: backlog =>
      some { s with
        opened := fd :: s.opened
        backlog := backlog
        position := .accepted .keepAlive fd peer }
    | [] => none
  | .emfile => some { s with position := .closingIdle }
  | .failed => some s

/-- The call of `accept` with the descriptor that was given up. -/
def acceptIdle (s : Acceptor Peer) : DescriptorResult → Option (Acceptor Peer)
  | .made fd =>
    match s.backlog with
    | peer :: backlog =>
      some { s with
        opened := fd :: s.opened
        backlog := backlog
        idlefd := some fd
        position := .closingAccepted (some peer) }
    | [] => none
  | _ => some { s with idlefd := none, position := .closingAccepted none }

/-- The call of `open` for `/dev/null`. -/
def reopen (s : Acceptor Peer) : DescriptorResult → Acceptor Peer
  | .made fd => { s with opened := fd :: s.opened, idlefd := some fd, position := .returned }
  | _ => { s with idlefd := none, position := .returned }

/-- The next call makes a descriptor. -/
def make (s : Acceptor Peer) (result : DescriptorResult) : Option (Acceptor Peer) :=
  match s.position with
  | .returned => s.accept4 result
  | .acceptingIdle => s.acceptIdle result
  | .reopening => some (s.reopen result)
  | _ => none

/-- The next call is `setsockopt`. -/
def setsockopt (s : Acceptor Peer) (success : Bool) : Option (Acceptor Peer) :=
  match s.position with
  | .accepted .keepAlive fd peer =>
    some { s with position := .accepted (if success then .tcpNoDelay else .refusing) fd peer }
  | .accepted .tcpNoDelay fd peer =>
    some { s with position := .accepted (if success then .handing else .refusing) fd peer }
  | _ => none

/-- The next call is `close` or the callback, which takes the descriptor over. -/
def proceed (s : Acceptor Peer) : Option (Acceptor Peer) :=
  match s.position with
  | .accepted .refusing fd peer =>
    some { s with
      opened := closed s.opened (some fd)
      settled := s.settled ++ [(peer, .refused)]
      position := .returned }
  | .accepted .handing fd peer =>
    some { s with
      others := fd :: s.others
      settled := s.settled ++ [(peer, .handed)]
      position := .returned }
  | .closingIdle => some { s with opened := closed s.opened s.idlefd, position := .acceptingIdle }
  | .closingAccepted peer =>
    some { s with
      opened := closed s.opened s.idlefd
      settled := s.settled ++ peer.toList.map fun peer => (peer, .dropped)
      position := .reopening }
  | _ => none

/-- One step; `none` when it is not enabled. -/
def step (s : Acceptor Peer) : AcceptorAction Peer → Option (Acceptor Peer)
  | .arrive peer => some { s with arrived := s.arrived ++ [peer], backlog := s.backlog ++ [peer] }
  | .otherOpen fd =>
    if s.permits (.made fd) then some { s with opened := fd :: s.opened, others := fd :: s.others } else none
  | .otherClose fd =>
    if fd ∈ s.others then some { s with opened := s.opened.erase fd, others := s.others.erase fd } else none
  | .make result => if s.permits result then s.make result else none
  | .setsockopt success => s.setsockopt success
  | .proceed => s.proceed

/-- The descriptors which the acceptor is to close. -/
def owned (s : Acceptor Peer) : List ℕ :=
  match s.position with
  | .accepted _ fd _ => fd :: (s.idlefd.toList ++ [s.acceptfd])
  | .acceptingIdle => [s.acceptfd]
  | .reopening => [s.acceptfd]
  | _ => s.idlefd.toList ++ [s.acceptfd]

/-- The connection which `NewConn()` has accepted and not settled. -/
def inHand (s : Acceptor Peer) : List Peer :=
  match s.position with
  | .accepted _ _ peer => [peer]
  | .closingAccepted peer => peer.toList
  | _ => []

/-- The descriptor which the next call closes. -/
def closes (s : Acceptor Peer) : Option ℕ :=
  match s.position with
  | .accepted .refusing fd _ => some fd
  | .closingIdle => s.idlefd
  | .closingAccepted _ => s.idlefd
  | _ => none

/-- The steps, one constructor for each thing that can happen. -/
inductive Stepped (s : Acceptor Peer) : AcceptorAction Peer → Acceptor Peer → Prop
  | arrive (peer : Peer) :
      Stepped s (.arrive peer) { s with arrived := s.arrived ++ [peer], backlog := s.backlog ++ [peer] }
  | otherOpen (fd : ℕ) (fresh : fd ∉ s.opened) (room : s.opened.length < s.limit) :
      Stepped s (.otherOpen fd) { s with opened := fd :: s.opened, others := fd :: s.others }
  | otherClose (fd : ℕ) (mem : fd ∈ s.others) :
      Stepped s (.otherClose fd) { s with opened := s.opened.erase fd, others := s.others.erase fd }
  | accept (fd : ℕ) (peer : Peer) (backlog : List Peer) (stage : NewConnStage) (position : s.position = .returned)
      (fresh : fd ∉ s.opened) (room : s.opened.length < s.limit) (front : s.backlog = peer :: backlog) :
      Stepped s (.make (.made fd))
        { s with opened := fd :: s.opened, backlog, position := .accepted stage fd peer }
  | full (position : s.position = .returned) (full : s.limit ≤ s.opened.length) :
      Stepped s (.make .emfile) { s with position := .closingIdle }
  | failed (position : s.position = .returned) : Stepped s (.make .failed) s
  | acceptIdle (fd : ℕ) (peer : Peer) (backlog : List Peer) (position : s.position = .acceptingIdle)
      (fresh : fd ∉ s.opened) (room : s.opened.length < s.limit) (front : s.backlog = peer :: backlog) :
      Stepped s (.make (.made fd))
        { s with opened := fd :: s.opened, backlog, idlefd := some fd, position := .closingAccepted (some peer) }
  | notAccepted (result : DescriptorResult) (position : s.position = .acceptingIdle)
      (reason : result = .failed ∨ s.limit ≤ s.opened.length) :
      Stepped s (.make result) { s with idlefd := none, position := .closingAccepted none }
  | reopen (fd : ℕ) (position : s.position = .reopening) (fresh : fd ∉ s.opened)
    (room : s.opened.length < s.limit) :
      Stepped s (.make (.made fd)) { s with opened := fd :: s.opened, idlefd := some fd, position := .returned }
  | notReopened (result : DescriptorResult) (position : s.position = .reopening)
      (reason : result = .failed ∨ s.limit ≤ s.opened.length) :
      Stepped s (.make result) { s with idlefd := none, position := .returned }
  | option (stage stage' : NewConnStage) (fd : ℕ) (peer : Peer) (success : Bool)
      (position : s.position = .accepted stage fd peer) :
      Stepped s (.setsockopt success) { s with position := .accepted stage' fd peer }
  | refuse (fd : ℕ) (peer : Peer) (position : s.position = .accepted .refusing fd peer) :
      Stepped s .proceed
        { s with opened := s.opened.erase fd, settled := s.settled ++ [(peer, .refused)], position := .returned }
  | hand (fd : ℕ) (peer : Peer) (position : s.position = .accepted .handing fd peer) :
      Stepped s .proceed
        { s with others := fd :: s.others, settled := s.settled ++ [(peer, .handed)], position := .returned }
  | closeIdle (position : s.position = .closingIdle) :
      Stepped s .proceed { s with opened := closed s.opened s.idlefd, position := .acceptingIdle }
  | closeAccepted (peer : Option Peer) (position : s.position = .closingAccepted peer) :
      Stepped s .proceed
        { s with
          opened := closed s.opened s.idlefd
          settled := s.settled ++ peer.toList.map fun peer => (peer, .dropped)
          position := .reopening }

/-- A number is given out if it is not in use and the limit is not reached. -/
theorem permits_made {s : Acceptor Peer} {fd : ℕ} :
    s.permits (.made fd) = true ↔ fd ∉ s.opened ∧ s.opened.length < s.limit := decide_eq_true_iff

/-- `EMFILE` says that the limit is reached. -/
theorem permits_emfile {s : Acceptor Peer} : s.permits .emfile = true ↔ s.limit ≤ s.opened.length :=
    decide_eq_true_iff

/-- Every call that makes a descriptor is one of those listed. -/
theorem stepped_of_make {s s' : Acceptor Peer} {result : DescriptorResult} (hpermits : s.permits result = true)
    (hmake : s.make result = some s') : Stepped s (.make result) s' := by
  rw [make] at hmake
  split at hmake
  · next hposition =>
    cases result with
    | made fd =>
      obtain ⟨hfresh, hroom⟩ := permits_made.mp hpermits
      rw [accept4] at hmake
      split at hmake
      · next peer backlog hfront =>
        cases hmake
        exact .accept fd peer backlog _ hposition hfresh hroom hfront
      · cases hmake
    | emfile =>
      cases hmake
      exact .full hposition (permits_emfile.mp hpermits)
    | failed =>
      cases hmake
      exact .failed hposition
  · next hposition =>
    cases result with
    | made fd =>
      obtain ⟨hfresh, hroom⟩ := permits_made.mp hpermits
      rw [acceptIdle] at hmake
      split at hmake
      · next peer backlog hfront =>
        cases hmake
        exact .acceptIdle fd peer backlog hposition hfresh hroom hfront
      · cases hmake
    | emfile =>
      cases hmake
      exact .notAccepted .emfile hposition (Or.inr (permits_emfile.mp hpermits))
    | failed =>
      cases hmake
      exact .notAccepted .failed hposition (Or.inl rfl)
  · next hposition =>
    cases result with
    | made fd =>
      obtain ⟨hfresh, hroom⟩ := permits_made.mp hpermits
      cases hmake
      exact .reopen fd hposition hfresh hroom
    | emfile =>
      cases hmake
      exact .notReopened .emfile hposition (Or.inr (permits_emfile.mp hpermits))
    | failed =>
      cases hmake
      exact .notReopened .failed hposition (Or.inl rfl)
  · cases hmake

/-- Every step is one of those listed. -/
theorem stepped_of_step {s s' : Acceptor Peer} {action : AcceptorAction Peer} (hstep : s.step action = some s') :
    Stepped s action s' := by
  cases action with
  | arrive peer =>
    cases hstep
    exact .arrive peer
  | otherOpen fd =>
    obtain ⟨hpermits, hopened⟩ := Option.ite_none_right_eq_some.mp hstep
    obtain ⟨hfresh, hroom⟩ := permits_made.mp hpermits
    cases hopened
    exact .otherOpen fd hfresh hroom
  | otherClose fd =>
    obtain ⟨hmem, hclosed⟩ := Option.ite_none_right_eq_some.mp hstep
    cases hclosed
    exact .otherClose fd hmem
  | make result =>
    obtain ⟨hpermits, hmake⟩ := Option.ite_none_right_eq_some.mp hstep
    exact stepped_of_make hpermits hmake
  | setsockopt success =>
    simp only [step, setsockopt] at hstep
    split at hstep
    · next fd peer hposition =>
      cases hstep
      exact .option _ _ fd peer success hposition
    · next fd peer hposition =>
      cases hstep
      exact .option _ _ fd peer success hposition
    · cases hstep
  | proceed =>
    simp only [step, proceed] at hstep
    split at hstep
    · next fd peer hposition =>
      cases hstep
      exact .refuse fd peer hposition
    · next fd peer hposition =>
      cases hstep
      exact .hand fd peer hposition
    · next hposition =>
      cases hstep
      exact .closeIdle hposition
    · next peer hposition =>
      cases hstep
      exact .closeAccepted peer hposition
    · cases hstep

/-- Every open descriptor is held by one owner. -/
structure HeldOnce (opened held : List ℕ) : Prop where
  nodup : held.Nodup
  perm : opened.Perm held

variable {opened held held' : List ℕ} {fd : ℕ}

/-- Descriptors may change their owner. -/
theorem HeldOnce.reorder (h : HeldOnce opened held) (hperm : held.Perm held') : HeldOnce opened held' :=
  ⟨hperm.nodup_iff.mp h.nodup, h.perm.trans hperm⟩

/-- A new descriptor gets an owner. -/
theorem HeldOnce.make (h : HeldOnce opened held) (hfresh : fd ∉ opened) : HeldOnce (fd :: opened) (fd :: held) :=
  ⟨List.nodup_cons.mpr ⟨fun hmem => hfresh (h.perm.mem_iff.mpr hmem), h.nodup⟩, h.perm.cons fd⟩

/-- A closed descriptor has lost its owner. -/
theorem HeldOnce.close (h : HeldOnce opened (fd :: held)) : HeldOnce (opened.erase fd) held := by
  refine ⟨h.nodup.of_cons, ?_⟩
  have hperm := h.perm.erase fd
  rwa [List.erase_cons_head] at hperm

/-- A number that may be no descriptor is closed. -/
theorem HeldOnce.closed {idlefd : Option ℕ} (h : HeldOnce opened (idlefd.toList ++ held)) :
    HeldOnce (closed opened idlefd) held := by
  cases idlefd with
  | none => exact h
  | some fd => exact HeldOnce.close h

/-- The acceptor and the rest of the process hold every open descriptor once. -/
def Owning (s : Acceptor Peer) : Prop := HeldOnce s.opened (s.owned ++ s.others)

/-- The connections that arrived are settled, in hand, or wait. -/
def Accounted (s : Acceptor Peer) : Prop := s.arrived = s.settled.map Prod.fst ++ s.inHand ++ s.backlog

/-- A descriptor of the rest of the process is in front of all others. -/
theorem perm_otherClose (owned : List ℕ) {others : List ℕ} (h : fd ∈ others) :
    (owned ++ others).Perm (fd :: (owned ++ others.erase fd)) :=
  ((List.perm_cons_erase h).append_left owned).trans List.perm_middle

/-- Every step keeps the descriptors held once. -/
theorem owning_step {s s' : Acceptor Peer} {action : AcceptorAction Peer} (h : s.Owning)
    (hstep : Stepped s action s') :
    s'.Owning := by
  cases hstep with
  | arrive peer => exact h
  | otherOpen fd hfresh hroom => exact (h.make hfresh).reorder List.perm_middle.symm
  | otherClose fd hmem => exact (h.reorder (perm_otherClose s.owned hmem)).close
  | accept fd peer backlog stage hposition hfresh hroom hfront =>
    simp only [Owning, owned, hposition] at h ⊢
    exact h.make hfresh
  | full hposition hfull =>
    simp only [Owning, owned, hposition] at h ⊢
    exact h
  | failed hposition => exact h
  | acceptIdle fd peer backlog hposition hfresh hroom hfront =>
    simp only [Owning, owned, hposition] at h ⊢
    exact h.make hfresh
  | notAccepted result hposition hreason =>
    simp only [Owning, owned, hposition] at h ⊢
    exact h
  | reopen fd hposition hfresh hroom =>
    simp only [Owning, owned, hposition] at h ⊢
    exact h.make hfresh
  | notReopened result hposition hreason =>
    simp only [Owning, owned, hposition] at h ⊢
    exact h
  | option stage stage' fd peer success hposition =>
    simp only [Owning, owned, hposition] at h ⊢
    exact h
  | refuse fd peer hposition =>
    simp only [Owning, owned, hposition] at h ⊢
    exact h.close
  | hand fd peer hposition =>
    simp only [Owning, owned, hposition] at h ⊢
    exact h.reorder List.perm_middle.symm
  | closeIdle hposition =>
    simp only [Owning, owned, hposition, List.append_assoc] at h ⊢
    exact h.closed
  | closeAccepted peer hposition =>
    simp only [Owning, owned, hposition, List.append_assoc] at h ⊢
    exact h.closed

/-- Every step keeps the account of the connections. -/
theorem accounted_step {s s' : Acceptor Peer} {action : AcceptorAction Peer} (h : s.Accounted)
    (hstep : Stepped s action s') : s'.Accounted := by
  rw [Accounted] at h ⊢
  cases hstep with
  | arrive peer =>
    change s.arrived ++ [peer] = _ ++ s.inHand ++ (s.backlog ++ [peer])
    rw [h, List.append_assoc]
  | otherOpen fd hfresh hroom => exact h
  | otherClose fd hmem => exact h
  | accept fd peer backlog stage hposition hfresh hroom hfront =>
    simp only [inHand, hposition, hfront] at h ⊢
    simpa using h
  | full hposition hfull =>
    simp only [inHand, hposition] at h ⊢
    exact h
  | failed hposition => exact h
  | acceptIdle fd peer backlog hposition hfresh hroom hfront =>
    simp only [inHand, hposition, hfront] at h ⊢
    simpa using h
  | notAccepted result hposition hreason =>
    simp only [inHand, hposition] at h ⊢
    exact h
  | reopen fd hposition hfresh hroom =>
    simp only [inHand, hposition] at h ⊢
    exact h
  | notReopened result hposition hreason =>
    simp only [inHand, hposition] at h ⊢
    exact h
  | option stage stage' fd peer success hposition =>
    simp only [inHand, hposition] at h ⊢
    exact h
  | refuse fd peer hposition =>
    simp only [inHand, hposition] at h ⊢
    simpa using h
  | hand fd peer hposition =>
    simp only [inHand, hposition] at h ⊢
    simpa using h
  | closeIdle hposition =>
    simp only [inHand, hposition] at h ⊢
    exact h
  | closeAccepted peer hposition =>
    simp only [inHand, hposition] at h ⊢
    rw [h, List.map_append, List.map_map]
    cases peer <;> simp

/-- What the next call closes belongs to the acceptor. -/
theorem owned_of_closes {s : Acceptor Peer} {fd : ℕ} (h : s.closes = some fd) : fd ∈ s.owned := by
  rw [closes] at h
  split at h
  · next hposition =>
    cases h
    simp [owned, hposition]
  · next hposition => simp [owned, hposition, h]
  · next hposition => simp [owned, hposition, h]
  · cases h

/-- Nobody else opens a descriptor while the acceptor is without its spare one; `accept4`, `accept` and `open`
fail only for the lack of a descriptor; and a connection waits whenever `NewConn()` begins. -/
def Undisturbed (s : Acceptor Peer) : AcceptorAction Peer → Prop
  | .otherOpen _ => s.position ≠ .acceptingIdle ∧ s.position ≠ .reopening
  | .make result => result ≠ .failed ∧ (s.position = .returned → s.backlog ≠ [])
  | _ => True

/-- Whether a step is undisturbed can be checked. -/
instance [DecidableEq Peer] (s : Acceptor Peer) (action : AcceptorAction Peer) : Decidable (Undisturbed s action) :=
  match action with
  | .arrive _ => .isTrue trivial
  | .otherOpen _ => inferInstanceAs (Decidable (_ ∧ _))
  | .otherClose _ => .isTrue trivial
  | .make _ => inferInstanceAs (Decidable (_ ∧ (_ → _)))
  | .setsockopt _ => .isTrue trivial
  | .proceed => .isTrue trivial

/-- The calls of `NewConn()`, noted where they begin. -/
def newConnCalls (s : Acceptor Peer) : AcceptorAction Peer → List Unit
  | .make _ => match s.position with
    | .returned => [()]
    | _ => []
  | _ => []

/-- The calls of `NewConn()` that have not returned. -/
def inProgress (s : Acceptor Peer) : ℕ :=
  match s.position with
  | .returned => 0
  | .reopening => 0
  | _ => 1

/-- What the next call of `NewConn()` needs, by the program position. -/
def Ready (s : Acceptor Peer) : Prop :=
  s.opened.length ≤ s.limit ∧ match s.position with
    | .returned => s.idlefd.isSome
    | .accepted _ _ _ => s.idlefd.isSome
    | .closingIdle => s.idlefd.isSome ∧ s.backlog ≠ []
    | .acceptingIdle => s.opened.length < s.limit ∧ s.backlog ≠ []
    | .closingAccepted peer => s.idlefd.isSome ∧ peer.isSome
    | .reopening => s.opened.length < s.limit

/-- Closing the spare descriptor makes room. -/
theorem length_closed {s : Acceptor Peer} (hidle : s.idlefd.isSome) (howned : ∀ fd ∈ s.idlefd, fd ∈ s.owned)
    (h : s.Owning) : (closed s.opened s.idlefd).length < s.opened.length := by
  obtain ⟨fd, hfd⟩ := Option.isSome_iff_exists.mp hidle
  have hmem : fd ∈ s.opened := h.perm.mem_iff.mpr (List.mem_append_left _ (howned fd hfd))
  have hsome := List.length_pos_of_mem hmem
  rw [hfd, closed, List.length_erase_of_mem hmem]
  omega

/-- An undisturbed step keeps the acceptor ready, and settles what it begins. -/
theorem ready_step {s s' : Acceptor Peer} {action : AcceptorAction Peer} (h : s.Ready) (howning : s.Owning)
    (hundisturbed : Undisturbed s action) (hstep : Stepped s action s') : s'.Ready ∧
      s'.settled.length + s'.inProgress = s.settled.length + s.inProgress + (newConnCalls s action).length := by
  obtain ⟨hlimit, hposition'⟩ := h
  cases hstep with
  | arrive peer =>
    refine ⟨⟨hlimit, ?_⟩, rfl⟩
    cases hposition : s.position with
    | closingIdle =>
      simp only [hposition] at hposition'
      exact ⟨hposition'.1, List.append_ne_nil_of_right_ne_nil _ (List.cons_ne_nil peer [])⟩
    | acceptingIdle =>
      simp only [hposition] at hposition'
      exact ⟨hposition'.1, List.append_ne_nil_of_right_ne_nil _ (List.cons_ne_nil peer [])⟩
    | _ => simpa only [hposition] using hposition'
  | otherOpen fd hfresh hroom =>
    refine ⟨⟨hroom, ?_⟩, rfl⟩
    cases hposition : s.position with
    | acceptingIdle => exact absurd hposition hundisturbed.1
    | reopening => exact absurd hposition hundisturbed.2
    | _ => simpa only [hposition] using hposition'
  | otherClose fd hmem =>
    have hfewer : (s.opened.erase fd).length ≤ s.opened.length := List.length_erase_le
    refine ⟨⟨Nat.le_trans hfewer hlimit, ?_⟩, rfl⟩
    cases hposition : s.position with
    | acceptingIdle =>
      simp only [hposition] at hposition'
      exact ⟨Nat.lt_of_le_of_lt hfewer hposition'.1, hposition'.2⟩
    | reopening =>
      simp only [hposition] at hposition'
      exact Nat.lt_of_le_of_lt hfewer hposition'
    | _ => simpa only [hposition] using hposition'
  | accept fd peer backlog stage hposition hfresh hroom hfront =>
    simp only [Ready, inProgress, newConnCalls, hposition] at hposition' ⊢
    exact ⟨⟨hroom, hposition'⟩, rfl⟩
  | full hposition hfull =>
    simp only [Ready, inProgress, newConnCalls, hposition] at hposition' ⊢
    exact ⟨⟨hlimit, hposition', hundisturbed.2 hposition⟩, rfl⟩
  | failed hposition => exact absurd rfl hundisturbed.1
  | acceptIdle fd peer backlog hposition hfresh hroom hfront =>
    simp only [Ready, inProgress, newConnCalls, hposition] at hposition' ⊢
    exact ⟨⟨hroom, rfl, rfl⟩, rfl⟩
  | notAccepted result hposition hreason =>
    simp only [hposition] at hposition'
    rcases hreason with rfl | hfull
    · exact absurd rfl hundisturbed.1
    · exact absurd hfull (Nat.not_le.mpr hposition'.1)
  | reopen fd hposition hfresh hroom =>
    simp only [Ready, inProgress, newConnCalls, hposition]
    exact ⟨⟨hroom, rfl⟩, rfl⟩
  | notReopened result hposition hreason =>
    simp only [hposition] at hposition'
    rcases hreason with rfl | hfull
    · exact absurd rfl hundisturbed.1
    · exact absurd hfull (Nat.not_le.mpr hposition')
  | option stage stage' fd peer success hposition =>
    simp only [Ready, inProgress, newConnCalls, hposition] at hposition' ⊢
    exact ⟨⟨hlimit, hposition'⟩, rfl⟩
  | refuse fd peer hposition =>
    simp only [Ready, inProgress, newConnCalls, hposition] at hposition' ⊢
    have hfewer : (s.opened.erase fd).length ≤ s.opened.length := List.length_erase_le
    exact ⟨⟨Nat.le_trans hfewer hlimit, hposition'⟩, by simp⟩
  | hand fd peer hposition =>
    simp only [Ready, inProgress, newConnCalls, hposition] at hposition' ⊢
    exact ⟨⟨hlimit, hposition'⟩, by simp⟩
  | closeIdle hposition =>
    simp only [hposition] at hposition'
    have hroom := length_closed hposition'.1 (fun fd hfd => owned_of_closes
      (by rw [closes, hposition, hfd])) howning
    simp only [Ready, inProgress, newConnCalls, hposition]
    exact ⟨⟨by omega, by omega, hposition'.2⟩, rfl⟩
  | closeAccepted peer hposition =>
    simp only [hposition] at hposition'
    have hroom := length_closed hposition'.1 (fun fd hfd => owned_of_closes
      (by rw [closes, hposition, hfd])) howning
    obtain ⟨settledPeer, rfl⟩ := Option.isSome_iff_exists.mp hposition'.2
    simp only [Ready, inProgress, newConnCalls, hposition]
    exact ⟨⟨by omega, by omega⟩, by simp⟩

/-- An undisturbed run keeps the acceptor ready, and every call of `NewConn()` settles one connection. -/
theorem ready_run {s s' : Acceptor Peer} {actions : List (AcceptorAction Peer)} (h : s.Ready) (howning : s.Owning)
    (hmeets : Meets step Undisturbed s actions) (hrun : run step s actions = some s') : s'.Ready ∧
      s'.settled.length + s'.inProgress =
        s.settled.length + s.inProgress + (trace step newConnCalls s actions).length := by
  induction actions generalizing s with
  | nil =>
    obtain rfl := Option.some.inj hrun
    exact ⟨h, rfl⟩
  | cons action rest ih =>
    obtain ⟨m, hfirst, hrest⟩ := run_cons_eq_some.mp hrun
    have hstepped := stepped_of_step hfirst
    obtain ⟨hready, hhere⟩ := ready_step h howning hmeets.head hstepped
    obtain ⟨hready', hlater⟩ := ih hready (owning_step howning hstepped) (hmeets.tail hfirst) hrest
    rw [trace_cons hfirst, List.length_append]
    exact ⟨hready', by omega⟩

/-- In every run, with any results of the system calls and with other threads opening and closing descriptors
in between: every open descriptor is held once, by the acceptor or by the rest of the process, and what the
acceptor closes is its own; the connections that arrived are settled in order, in hand, or wait. In a run in
which nobody else opens a descriptor while the spare one is given up, no call but for the lack of a descriptor
fails, and a connection waits whenever `NewConn()` begins, the acceptor has its spare descriptor whenever
`NewConn()` has returned, and each call settles one connection. -/
theorem acceptor_run {limit acceptfd idlefd : ℕ} {others : List ℕ} (hnodup : (idlefd :: acceptfd :: others).Nodup)
    (hlimit : others.length + 2 ≤ limit) {actions : List (AcceptorAction Peer)} {s : Acceptor Peer}
    (hrun : run step (listening limit acceptfd idlefd others) actions = some s) :
    (s.owned ++ s.others).Nodup ∧ s.opened.Perm (s.owned ++ s.others) ∧ (∀ fd, s.closes = some fd → fd ∈ s.owned) ∧
      s.arrived = s.settled.map Prod.fst ++ s.inHand ++ s.backlog ∧
      (Meets step Undisturbed (listening limit acceptfd idlefd others) actions →
        (s.position = .returned → s.idlefd.isSome) ∧
          s.settled.length + s.inProgress =
            (trace step newConnCalls (listening limit acceptfd idlefd others) actions).length) := by
  have hstart : (listening limit acceptfd idlefd others : Acceptor Peer).Owning := ⟨hnodup, .refl _⟩
  have howning : s.Owning :=
    run_invariant (fun _ _ _ h hstep => owning_step h (stepped_of_step hstep)) hstart hrun
  have hnone : (listening limit acceptfd idlefd others : Acceptor Peer).Accounted := rfl
  have haccounted : s.Accounted :=
    run_invariant (fun _ _ _ h hstep => accounted_step h (stepped_of_step hstep)) hnone hrun
  refine ⟨howning.nodup, howning.perm, fun fd => owned_of_closes, haccounted, fun hmeets => ?_⟩
  have hready : (listening limit acceptfd idlefd others : Acceptor Peer).Ready := ⟨hlimit, rfl⟩
  obtain ⟨hready', hsettled⟩ := ready_run hready hstart hmeets hrun
  refine ⟨fun hposition => ?_, by simpa [listening, inProgress] using hsettled⟩
  have hspare := hready'.2
  rwa [hposition] at hspare

/-- Two connections arrive, the second one when no descriptor is left. -/
def crowdedActions : List (AcceptorAction ℕ) :=
  [.arrive 1, .arrive 2, .make (.made 5), .setsockopt true, .setsockopt true, .proceed, .make .emfile, .proceed,
    .make (.made 4), .proceed, .make (.made 4)]

/-- The first connection is handed on and the second one is dropped, and the spare descriptor is open again. -/
theorem acceptor_run_crowded : ∃ s : Acceptor ℕ, run step (listening 4 3 4 [0]) crowdedActions = some s ∧
    s.settled = [(1, .handed), (2, .dropped)] ∧ s.idlefd.isSome ∧ (s.owned ++ s.others).Nodup := by
  have hnodup : [4, 3, 0].Nodup := by decide
  have hlimit : [0].length + 2 ≤ 4 := by decide
  have hrun : run step (listening 4 3 4 [0]) crowdedActions =
      some ⟨4, [4, 5, 3, 0], [5, 0], 3, some 4, .returned, [1, 2], [], [(1, .handed), (2, .dropped)]⟩ := by decide
  have hundisturbed : Meets step Undisturbed (listening 4 3 4 [0]) crowdedActions := by decide
  obtain ⟨howned, -, -, -, hready⟩ := acceptor_run hnodup hlimit hrun
  exact ⟨_, hrun, rfl, (hready hundisturbed).1 rfl, howned⟩

end Acceptor

end WebServer.Util
