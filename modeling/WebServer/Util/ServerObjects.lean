import WebServer.Foundation.Heap
import WebServer.Util.TcpServer

/-!
# The connections of a server and their epollers

`Objects` is the part of the server's invariant that concerns the connections and the
epollers: the history of each connection leads to its phase, its channel is in the state
which the phase expects and in step with the epoller of its loop, descriptors of existing
connections are distinct, and an epoller knows no other descriptors.
-/

namespace WebServer.Util

open WebServer.Foundation

/-- The state of the channel of a connection in a phase, which is never free. -/
def Phase.Expects : Phase → Channel → Prop
  | free, _ => False
  | accepted, channel => channel.state = .kNew
  | established, channel => channel.state = .kAdded ∧ channel.event.epollin = true
  | closing, channel => channel.state = .kDeleted ∧ channel.event = .none
  | erased, channel => channel.state = .kDeleted ∧ channel.event = .none
  | destructed, channel => channel.state = .kNew
  | closed, _ => True

namespace TcpServer

variable {Loop : Type} [DecidableEq Loop]

/-- The loop and the descriptor of a connection. -/
def located (objects : List (Connection Loop)) (id : ℕ) : Option (Loop × ℕ) :=
  objects[id]?.map fun c => (c.loop, c.channel.fd)

/-- What holds of one connection. -/
structure Sound (epollers : Loop → Epoller) (id : ℕ) (phase : Phase) (c : Connection Loop) : Prop where
  history : run (Phase.next id c.loop) .free c.history = some phase
  alive : c.alive = true ↔ phase ≠ .closed
  address : c.channel.address = id
  inStep : c.alive = true → (epollers c.loop).InStep c.channel
  expects : phase.Expects c.channel

/-- What holds of all connections and epollers. -/
structure Objects (objects : List (Connection Loop)) (epollers : Loop → Epoller) (phase : ℕ → Phase) : Prop where
  free : ∀ id, objects.length ≤ id → phase id = .free
  sound : ∀ id c, objects[id]? = some c → Sound epollers id (phase id) c
  distinct : ∀ (id : ℕ) (c : Connection Loop) (other : ℕ) (d : Connection Loop), objects[id]? = some c →
    objects[other]? = some d → c.alive = true → d.alive = true → c.channel.fd = d.channel.fd → id = other
  unknown : ∀ loop fd,
    (∀ (id : ℕ) (c : Connection Loop), objects[id]? = some c → c.alive = true → c.loop = loop → c.channel.fd ≠ fd) →
    (epollers loop).channelmap fd = none ∧ (epollers loop).interest fd = none

variable {objects : List (Connection Loop)} {epollers : Loop → Epoller} {phase : ℕ → Phase}
  {id : ℕ} {c d : Connection Loop}

omit [DecidableEq Loop] in
/-- Replacing a connection by one with the same loop and descriptor does not move it. -/
theorem located_set (hid : objects[id]? = some c) (hloop : d.loop = c.loop) (hfd : d.channel.fd = c.channel.fd) :
    located (objects.set id d) = located objects := by
  funext other
  rw [located, located, List.getElem?_set]
  split
  · next heq =>
    subst heq
    rw [if_pos (List.getElem?_eq_some_iff.mp hid).1, hid, Option.map_some, Option.map_some, hloop, hfd]
  · rfl

omit [DecidableEq Loop] in
/-- A new connection is located at its loop and descriptor. -/
theorem located_concat (objects : List (Connection Loop)) (d : Connection Loop) :
    located (objects ++ [d]) = Function.update (located objects) objects.length (some (d.loop, d.channel.fd)) := by
  funext other
  by_cases heq : other = objects.length
  · subst heq
    rw [Function.update_self, located, List.getElem?_concat_length, Option.map_some]
  · rw [Function.update_of_ne heq, located, located, List.getElem?_append]
    split
    · rfl
    · next hge =>
      have hbeyond : objects[other]? = none := List.getElem?_eq_none (Nat.not_lt.mp hge)
      rw [hbeyond, List.getElem?_singleton, if_neg (by omega)]

omit [DecidableEq Loop] in
/-- A connection is located at its loop and descriptor. -/
theorem located_of_getElem? (hid : objects[id]? = some c) : located objects id = some (c.loop, c.channel.fd) := by
  rw [located, hid, Option.map_some]

/-- What an epoller watches is an established connection of its loop. -/
theorem Objects.registered (h : Objects objects epollers phase) {loop : Loop} {fd address : ℕ} {event : Events}
    (hentry : (epollers loop).interest fd = some (event, address)) :
    phase address = .established ∧ located objects address = some (loop, fd) := by
  have hknown : ∃ (id : ℕ) (c : Connection Loop), objects[id]? = some c ∧ c.alive = true ∧ c.loop = loop ∧
      c.channel.fd = fd := by
    by_contra hnone
    have hunknown := h.unknown loop fd fun id c hid hc hloop hfd => hnone ⟨id, c, hid, hc, hloop, hfd⟩
    rw [hunknown.2] at hentry
    cases hentry
  obtain ⟨id, c, hid, halive, rfl, rfl⟩ := hknown
  have hsound := h.sound id c hid
  have hinStep := hsound.inStep halive
  have hexpects := hsound.expects
  rw [Epoller.InStep] at hinStep
  cases hstate : c.channel.state with
  | kAdded =>
    rw [hstate] at hinStep
    have haddress : address = id := by
      have heq := Option.some.inj (hentry.symm.trans hinStep.2)
      exact (congrArg Prod.snd heq).trans hsound.address
    subst haddress
    refine ⟨?_, located_of_getElem? hid⟩
    have hopen := hsound.alive.mp halive
    cases hphase : phase address with
    | established => rfl
    | closed => exact absurd hphase hopen
    | _ => simp [hphase, Phase.Expects, hstate] at hexpects
  | kNew =>
    rw [hstate] at hinStep
    rw [hinStep.2] at hentry
    cases hentry
  | kDeleted =>
    rw [hstate] at hinStep
    rw [hinStep.2] at hentry
    cases hentry

/-- Before the first accept there are no connections, and no epoller knows a descriptor. -/
theorem objects_nil : Objects ([] : List (Connection Loop)) (fun _ => .new) fun _ => .free where
  free _ _ := rfl
  sound id c h := by cases h
  distinct id c other d h := by cases h
  unknown _ _ _ := ⟨rfl, rfl⟩

/-- An existing connection is replaced, and the epoller of its loop changes at its descriptor only. -/
theorem Objects.replace (h : Objects objects epollers phase) (hid : objects[id]? = some c) (halive : c.alive = true)
    (hloop : d.loop = c.loop) (hfd : d.channel.fd = c.channel.fd) {epollers' : Loop → Epoller} {next : Phase}
    (hsame : ∀ loop fd, loop ≠ c.loop ∨ fd ≠ c.channel.fd → Epoller.SameAt (epollers loop) (epollers' loop) fd)
    (hsound : Sound epollers' id next d)
    (hclosed : d.alive = false → (epollers' c.loop).channelmap c.channel.fd = none ∧
      (epollers' c.loop).interest c.channel.fd = none) :
    Objects (objects.set id d) epollers' (Function.update phase id next) where
  free other hother := by
    rw [List.length_set] at hother
    have hlt := (List.getElem?_eq_some_iff.mp hid).1
    rw [Function.update_of_ne (by omega)]
    exact h.free other hother
  sound other d' hother := by
    rcases getElem?_set_cases hother with ⟨rfl, rfl⟩ | ⟨hne, hold⟩
    · rw [Function.update_self]
      exact hsound
    · rw [Function.update_of_ne hne]
      have hsound' := h.sound other d' hold
      refine { hsound' with inStep := fun halive' => ?_ }
      have hother : d'.channel.fd ≠ c.channel.fd := fun heq => hne
        (h.distinct other d' id c hold hid halive' halive heq)
      exact (hsame d'.loop d'.channel.fd (Or.inr hother)).inStep (hsound'.inStep halive')
  distinct other e other' e' hother hother' he he' heq := by
    rcases getElem?_set_cases hother with ⟨rfl, rfl⟩ | ⟨hne, hold⟩
    · rcases getElem?_set_cases hother' with ⟨rfl, rfl⟩ | ⟨hne', hold'⟩
      · rfl
      · exact h.distinct other c other' e' hid hold' halive he' (hfd ▸ heq)
    · rcases getElem?_set_cases hother' with ⟨rfl, rfl⟩ | ⟨hne', hold'⟩
      · exact h.distinct other e other' c hold hid he halive (hfd ▸ heq)
      · exact h.distinct other e other' e' hold hold' he he' heq
  unknown loop fd hnone := by
    by_cases hat : loop = c.loop ∧ fd = c.channel.fd
    · obtain ⟨rfl, rfl⟩ := hat
      apply hclosed
      by_contra hd
      have hget : (objects.set id d)[id]? = some d :=
        List.getElem?_set_self (List.getElem?_eq_some_iff.mp hid).1
      exact hnone id d hget (by simpa using hd) hloop hfd
    · have hat' : loop ≠ c.loop ∨ fd ≠ c.channel.fd := not_and_or.mp hat
      obtain ⟨hmap, hinterest⟩ := hsame loop fd hat'
      rw [hmap, hinterest]
      apply h.unknown loop fd
      intro other e hother he heloop hefd
      by_cases hne : other = id
      · subst hne
        obtain rfl := Option.some.inj (hid.symm.trans hother)
        exact hat ⟨heloop.symm, hefd.symm⟩
      · refine hnone other e ?_ he heloop hefd
        rw [List.getElem?_set_ne (Ne.symm hne)]
        exact hother

/-- A function of a connection is called. -/
theorem Objects.store (h : Objects objects epollers phase) (hid : objects[id]? = some c) (halive : c.alive = true)
    {session : Session} {events : List (LifecycleEvent Loop)} {next : Phase}
    (hlocal : Session.Local (c.session (epollers c.loop)) session)
    (hinStep : session.epoller.InStep session.channel) (hexpects : next.Expects session.channel)
    (hevents : run (Phase.next id c.loop) (phase id) events = some next) (hopen : next ≠ .closed) :
    Objects
      (objects.set id { c with toTcpConnection := session.toTcpConnection, history := c.history ++ events })
      (Function.update epollers c.loop session.epoller) (Function.update phase id next) := by
  have hsound := h.sound id c hid
  apply h.replace hid halive
  · rfl
  · exact hlocal.fd
  · intro loop fd hat
    by_cases hloop : loop = c.loop
    · subst hloop
      rw [Function.update_self]
      exact hlocal.elsewhere fd (hat.resolve_left fun hne => hne rfl)
    · rw [Function.update_of_ne hloop]
      exact ⟨rfl, rfl⟩
  · refine ⟨?_, iff_of_true halive hopen, hlocal.address.trans hsound.address, fun _ => ?_, hexpects⟩
    · exact run_append_eq_some.mpr ⟨phase id, hsound.history, hevents⟩
    · rw [Function.update_self]
      exact hinStep
  · intro hdead
    exact absurd (halive.symm.trans hdead) Bool.noConfusion

/-- An event of a connection is recorded that leaves its channel alone. -/
theorem Objects.record (h : Objects objects epollers phase) (hid : objects[id]? = some c) (halive : c.alive = true)
    {events : List (LifecycleEvent Loop)} {next : Phase} (hexpects : next.Expects c.channel)
    (hevents : run (Phase.next id c.loop) (phase id) events = some next) (hopen : next ≠ .closed) :
    Objects (objects.set id { c with history := c.history ++ events }) epollers
      (Function.update phase id next) := by
  have hsound := h.sound id c hid
  apply h.replace hid halive
  · rfl
  · rfl
  · exact fun _ _ _ => ⟨rfl, rfl⟩
  · exact ⟨run_append_eq_some.mpr ⟨phase id, hsound.history, hevents⟩, iff_of_true halive hopen, hsound.address,
      hsound.inStep, hexpects⟩
  · intro hdead
    exact absurd (halive.symm.trans hdead) Bool.noConfusion

/-- A connection that is destructed may be closed. -/
theorem Objects.close (h : Objects objects epollers phase) (hid : objects[id]? = some c) (halive : c.alive = true)
    {events : List (LifecycleEvent Loop)} (hnew : c.channel.state = .kNew)
    (hevents : run (Phase.next id c.loop) (phase id) events = some .closed) :
    Objects (objects.set id { c with alive := false, history := c.history ++ events }) epollers
      (Function.update phase id .closed) := by
  have hsound := h.sound id c hid
  apply h.replace hid halive
  · rfl
  · rfl
  · exact fun _ _ _ => ⟨rfl, rfl⟩
  · refine ⟨run_append_eq_some.mpr ⟨phase id, hsound.history, hevents⟩, by simp, hsound.address, ?_, trivial⟩
    exact fun hdead => absurd hdead Bool.noConfusion
  · intro _
    have hinStep := hsound.inStep halive
    rw [Epoller.InStep, hnew] at hinStep
    exact hinStep

/-- A connection is constructed on a descriptor that no existing connection has. -/
theorem Objects.add (h : Objects objects epollers phase) (halive : d.alive = true)
    (hfresh : ∀ (id : ℕ) (c : Connection Loop), objects[id]? = some c → c.alive = true →
      c.channel.fd ≠ d.channel.fd)
    (haddress : d.channel.address = objects.length) (hnew : d.channel.state = .kNew)
    (hhistory : run (Phase.next objects.length d.loop) .free d.history = some .accepted) :
    Objects (objects ++ [d]) epollers (Function.update phase objects.length .accepted) where
  free other hother := by
    rw [List.length_append, List.length_singleton] at hother
    rw [Function.update_of_ne (by omega)]
    exact h.free other (by omega)
  sound other e hother := by
    rcases getElem?_concat_cases hother with ⟨hlt, hold⟩ | ⟨rfl, rfl⟩
    · rw [Function.update_of_ne (by omega)]
      exact h.sound other e hold
    · rw [Function.update_self]
      have hunknown := h.unknown e.loop e.channel.fd fun id c hid hc _ => hfresh id c hid hc
      refine ⟨hhistory, iff_of_true halive (by decide), haddress, fun _ => ?_, hnew⟩
      rw [Epoller.InStep, hnew]
      exact hunknown
  distinct other e other' e' hother hother' he he' heq := by
    rcases getElem?_concat_cases hother with ⟨hlt, hold⟩ | ⟨rfl, rfl⟩
    · rcases getElem?_concat_cases hother' with ⟨hlt', hold'⟩ | ⟨rfl, rfl⟩
      · exact h.distinct other e other' e' hold hold' he he' heq
      · exact absurd heq (hfresh other e hold he)
    · rcases getElem?_concat_cases hother' with ⟨hlt', hold'⟩ | ⟨rfl, rfl⟩
      · exact absurd heq.symm (hfresh other' e' hold' he')
      · rfl
  unknown loop fd hnone := by
    apply h.unknown loop fd
    intro other e hother
    apply hnone other e
    rw [List.getElem?_append_left (List.getElem?_eq_some_iff.mp hother).1]
    exact hother

end TcpServer

end WebServer.Util
