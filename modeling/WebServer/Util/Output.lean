import WebServer.Foundation.Ledger
import WebServer.Util.ConnectionOrder

/-!
# Output of a connection over a non-blocking socket

The bytes which the kernel accepted, followed by the output buffer, are the bytes a
connection still accounts for. `HandleWrite` moves bytes from the buffer to the kernel and
`Send` adds its message, whether the kernel takes it at once, in part, or not yet. The one
exception is a direct `send()` that fails, with `EWOULDBLOCK` as with any other error: `Send`
returns then without buffering the message. All of this is subject to the `int` arithmetic of
`Send` and of the output buffer, which `FitsInt` keeps in range.
-/

namespace WebServer.Util

open WebServer.Foundation
open WebServer.Http (HttpContent)

/-- The bytes a call handed over to the kernel. -/
def Call.kernelBytes : Call → Bytes
  | .kernelSend accepted => accepted
  | _ => []

/-- What happens to the output of a connection. -/
inductive OutputAction where
  | send (message : Bytes) (result : SendResult)
  | handleWrite (result : SendResult)
  | shutdown
deriving DecidableEq

/-- The bytes an action wants to be sent. -/
def OutputAction.message : OutputAction → Bytes
  | .send message _ => message
  | _ => []

namespace Session

/-- Perform an action on the output. -/
def outputStep (s : Session) : OutputAction → Option Session
  | .send message result => some (s.send message result)
  | .handleWrite result => some (s.handleWrite result)
  | .shutdown => some s.shutdown

/-- The bytes accepted by the kernel, and behind them the output buffer. -/
def output (s : Session) : Bytes := s.calls.flatMap Call.kernelBytes ++ s.outputBuffer.bytes

/-- A `Send` of a nonempty message does not meet an error on a direct `send()`. -/
def KeepsMessage (s : Session) : OutputAction → Prop
  | .send message result => message ≠ [] → s.SendsDirectly → result ≠ .wouldBlock ∧ result ≠ .failed
  | .handleWrite _ => True
  | .shutdown => True

instance (s : Session) : (action : OutputAction) → Decidable (s.KeepsMessage action)
  | .send message result =>
    inferInstanceAs (Decidable (message ≠ [] → s.SendsDirectly → result ≠ .wouldBlock ∧ result ≠ .failed))
  | .handleWrite _ => isTrue trivial
  | .shutdown => isTrue trivial

/-- The `int` results of a `Send` are in range. -/
def FitsInt (s : Session) : OutputAction → Prop
  | .send message result => s.SendFits message result
  | .handleWrite _ => True
  | .shutdown => True

instance (s : Session) : (action : OutputAction) → Decidable (s.FitsInt action)
  | .send message result => inferInstanceAs (Decidable (s.SendFits message result))
  | .handleWrite _ => isTrue trivial
  | .shutdown => isTrue trivial

/-- A recorded call adds the bytes it handed over, in front of the output buffer. -/
theorem output_record (s : Session) (call : Call) :
    (s.record call).output = s.calls.flatMap Call.kernelBytes ++ call.kernelBytes ++ s.outputBuffer.bytes := by
  rw [output, record_calls, List.flatMap_append, List.flatMap_singleton]
  rfl

/-- A call that hands nothing over does not change the output. -/
theorem output_record_nil (s : Session) {call : Call} (h : call.kernelBytes = []) :
    (s.record call).output = s.output := by
  rw [output_record, h, List.append_nil]
  rfl

/-- Another output buffer stands behind the bytes accepted by the kernel. -/
theorem output_bufferOutput (s : Session) (outputBuffer : IntBuffer) :
    (s.bufferOutput outputBuffer).output = s.calls.flatMap Call.kernelBytes ++ outputBuffer.bytes := by
  rw [bufferOutput]
  split
  · rfl
  · rfl

/-- Buffering the unsent bytes adds them to the output. -/
theorem output_bufferUnsent {s : Session} (h : s.outputBuffer.Exact) {unsent : Bytes}
    (hfits : unsent ≠ [] → s.outputBuffer.AppendFits unsent.length) :
    (s.bufferUnsent unsent).output = s.output ++ unsent := by
  by_cases hsome : 0 < unsent.length
  · have happend := (h.append (hfits (List.ne_nil_of_length_pos hsome))).2
    rw [bufferUnsent, if_pos hsome, output_bufferOutput, happend, output, List.append_assoc]
  · have hempty : unsent = [] := by simpa using hsome
    rw [bufferUnsent, if_neg hsome, hempty, List.append_nil]

/-- `Shutdown` does not change the output. -/
@[simp] theorem output_shutdown (s : Session) : s.shutdown.output = s.output := by
  have hrequested : ({ s with state := .kDisconnecting }.record .shutdown).output = s.output :=
    output_record_nil _ rfl
  rw [shutdown]
  by_cases hwriting : s.channel.isWriting
  · rw [if_pos hwriting, hrequested]
  · rw [if_neg hwriting, output_record_nil _ rfl, hrequested]

/-- Finishing a write does not change the output. -/
@[simp] theorem output_finishWrite (s : Session) : s.finishWrite.output = s.output := by
  rw [finishWrite]
  split
  · split
    · rw [output_shutdown]
      rfl
    · rfl
  · rfl

/-- `HandleWrite` moves bytes from the buffer to the kernel. -/
theorem output_handleWrite {s : Session} (h : s.outputBuffer.Exact) (result : SendResult) :
    (s.handleWrite result).output = s.output := by
  by_cases hwriting : s.channel.isWriting
  · rw [handleWrite, if_pos hwriting]
    cases result with
    | accepted count =>
      have htake : (s.outputBuffer.bytes.take count).length ≤ s.outputBuffer.bytes.length :=
        (List.take_sublist _ _).length_le
      have hsplit : s.outputBuffer.bytes.take count ++
          s.outputBuffer.bytes.drop (s.outputBuffer.bytes.take count).length = s.outputBuffer.bytes :=
        List.prefix_iff_eq_append.mp (List.take_prefix _ _)
      rw [writeOutput, output_finishWrite, output, setOutput_outputBuffer, (h.retrieve htake).2, setOutput_calls,
        record_calls, List.flatMap_append, List.flatMap_singleton, Call.kernelBytes, List.append_assoc, hsplit,
          output]
    | wouldBlock => exact output_record_nil s rfl
    | failed => exact output_record_nil s rfl
  · rw [handleWrite, if_neg hwriting]

/-- `Send` adds its message unless a direct `send()` fails. -/
theorem output_send {s : Session} {message : Bytes} {result : SendResult} (h : s.outputBuffer.Exact)
    (hfits : s.SendFits message result) (hkeeps : s.KeepsMessage (.send message result)) :
    (s.send message result).output = s.output ++ message := by
  have hrecorded : (s.record (.send message)).output = s.output := output_record_nil _ rfl
  obtain ⟨hlength, hunsent⟩ := hfits
  rw [send_eq hlength]
  split
  · next hdirect =>
    have hempty : s.outputBuffer.bytes = [] := h.readable_eq_zero.mp hdirect.2
    cases result with
    | accepted count =>
      let sent := (s.record (.send message)).record (.kernelSend (message.take count))
      have hrange : sent.outputBuffer.Exact := h
      have hbuffered : (sent.bufferUnsent (message.drop count)).output = sent.output ++ message.drop count :=
        output_bufferUnsent hrange (unsent_accepted hdirect message count ▸ hunsent)
      have hsent : sent.output = s.output ++ message.take count := by
        rw [output_record, record_toTcpConnection, hempty, List.append_nil, ← hrecorded, output,
          record_toTcpConnection,
          hempty, List.append_nil]
        rfl
      exact hbuffered.trans (by rw [hsent, List.append_assoc, List.take_append_drop])
    | wouldBlock =>
      have hnil : message = [] := not_not.mp fun hne => (hkeeps hne hdirect).1 rfl
      rw [output_record_nil _ rfl, hrecorded, hnil, List.append_nil]
    | failed =>
      have hnil : message = [] := not_not.mp fun hne => (hkeeps hne hdirect).2 rfl
      rw [output_record_nil _ rfl, hrecorded, hnil, List.append_nil]
  · next hdirect =>
    have hrange : (s.record (.send message)).outputBuffer.Exact := h
    have hbuffered : ((s.record (.send message)).bufferUnsent message).output =
        (s.record (.send message)).output ++ message :=
      output_bufferUnsent hrange (unsent_buffered hdirect message result ▸ hunsent)
    rw [hbuffered, hrecorded]

/-- A message on which a direct `send()` fails is lost. -/
theorem output_send_lost {s : Session} {message : Bytes} {result : SendResult}
    (hdrops : ¬ s.KeepsMessage (.send message result)) :
    (s.send message result).output = s.output ∧ message ≠ [] := by
  simp only [KeepsMessage, Classical.not_imp] at hdrops
  obtain ⟨hne, hdirect, hfailed⟩ := hdrops
  refine ⟨?_, hne⟩
  rw [send, sendOrBuffer, if_pos (by exact hdirect)]
  cases result with
  | accepted count => simp at hfailed
  | wouldBlock => rw [sendDirectly, output_record_nil _ rfl, output_record_nil _ rfl]
  | failed => rw [sendDirectly, output_record_nil _ rfl, output_record_nil _ rfl]

/-- Actions in range keep the output buffer in range. -/
theorem drains_outputStep {s s' : Session} {action : OutputAction} (h : s.Drains) (hfits : s.FitsInt action)
    (hstep : outputStep s action = some s') : s'.Drains := by
  cases action with
  | send message result => exact Option.some.inj hstep ▸ h.send hfits
  | handleWrite result => exact Option.some.inj hstep ▸ h.handleWrite result
  | shutdown => exact Option.some.inj hstep ▸ h.shutdown

/-- What was not sent makes the output buffer grow by its length at most. -/
theorem within_bufferUnsent {s : Session} {size : ℕ} (h : s.outputBuffer.Within size) {unsent : Bytes}
    (hpre : preIndex ≤ size) (hfits : size + unsent.length < 2147483648) :
    (s.bufferUnsent unsent).outputBuffer.Within (size + unsent.length) := by
  by_cases hne : unsent = []
  · have hlength : ¬ 0 < unsent.length := by simp [hne]
    rw [bufferUnsent, if_neg hlength]
    exact h.mono (Nat.le_add_right _ _)
  · rw [(bufferUnsent_waits hne).1]
    exact (h.append hpre hfits).2

/-- A `Send` stays in range, and makes the output buffer grow by its message at most, if that keeps the vector below
`2^31` bytes. -/
theorem within_send {s : Session} {size : ℕ} (h : s.outputBuffer.Within size) (message : Bytes)
    (result : SendResult)
    (hpre : preIndex ≤ size) (hfits : size + message.length < 2147483648) :
    s.SendFits message result ∧ (s.send message result).outputBuffer.Within (size + message.length) := by
  have hlength : message.length < 2147483648 := by omega
  have hunsent := s.length_unsent_le message result
  have hbuffered (t : Session) (ht : t.outputBuffer.Within size) (rest : Bytes)
    (hrest : rest.length ≤ message.length) :
      (t.bufferUnsent rest).outputBuffer.Within (size + message.length) :=
    (within_bufferUnsent ht hpre (by omega)).mono (Nat.add_le_add_left hrest size)
  refine ⟨⟨hlength, fun _ => (h.append hpre (by omega)).1⟩, ?_⟩
  rw [send_eq hlength]
  split
  · cases result with
    | accepted count =>
      exact hbuffered ((s.record (.send message)).record (.kernelSend (message.take count))) h (message.drop count)
        (List.drop_sublist _ _).length_le
    | wouldBlock => exact h.mono (Nat.le_add_right _ _)
    | failed => exact h.mono (Nat.le_add_right _ _)
  · exact hbuffered (s.record (.send message)) h message le_rfl

/-- `HandleWrite` does not make the output buffer grow. -/
theorem within_handleWrite {s : Session} {size : ℕ} (h : s.outputBuffer.Within size) (result : SendResult)
    (hsmall : size < 2147483648) : (s.handleWrite result).outputBuffer.Within size := by
  rw [handleWrite]
  split
  · cases result with
    | accepted count =>
      have htake : (s.outputBuffer.bytes.take count).length ≤ s.outputBuffer.bytes.length :=
        (List.take_sublist _ _).length_le
      rw [writeOutput, outputBuffer_finishWrite, setOutput_outputBuffer]
      exact h.retrieve htake hsmall
    | wouldBlock => exact h
    | failed => exact h
  · exact h

/-- The account of the output: each `Send` offers its message. -/
def outputLedger : Ledger outputStep UInt8 where
  held := output
  offered := OutputAction.message
  admits := FitsInt
  keeps := KeepsMessage
  invariant := Drains
  invariant_step _ _ _ h hfits hstep := drains_outputStep h hfits hstep
  held_of_keeps s action s' h hfits hstep hkeeps := by
    cases action with
    | send message result => exact Option.some.inj hstep ▸ output_send h.inRange hfits hkeeps
    | handleWrite result =>
      rw [← Option.some.inj hstep, output_handleWrite h.inRange]
      exact (List.append_nil _).symm
    | shutdown =>
      rw [← Option.some.inj hstep, output_shutdown]
      exact (List.append_nil _).symm
  held_of_drops s action s' _ _ hstep hdrops := by
    cases action with
    | send message result => exact Option.some.inj hstep ▸ output_send_lost hdrops
    | handleWrite result => exact absurd trivial hdrops
    | shutdown => exact absurd trivial hdrops

/-- An established connection has no output yet. -/
theorem output_started (address fd : ℕ) (now : ℤ) (content : HttpContent) (epoller : Epoller) :
    (started address fd now content epoller).output = [] := IntBuffer.exact_new.2

/-- Where the results of every `Send` are in range, the bytes accepted by the kernel and the output buffer are
together the messages sent, exactly if no direct `send()` of a message failed. -/
theorem output_eq_messages_iff {address fd : ℕ} {now : ℤ} {content : HttpContent} {epoller : Epoller}
    {actions : List OutputAction} {s : Session}
    (hfits : Meets outputStep FitsInt (started address fd now content epoller) actions)
    (hrun : run outputStep (started address fd now content epoller) actions = some s) :
    s.output = actions.flatMap OutputAction.message ↔
      Meets outputStep KeepsMessage (started address fd now content epoller) actions := by
  have hledger := outputLedger.held_eq_iff Drains.started hfits hrun
  change s.output = (started address fd now content epoller).output ++ _ ↔ _ at hledger
  rw [output_started] at hledger
  exact hledger

/-- A message sent in part and finished by `HandleWrite` is accounted for. -/
theorem output_eq_messages_twoParts : ∃ s, run outputStep (started 0 5 0 (.new .kGet .kUnknown) .new)
    [.send (ascii "ab") (.accepted 1), .handleWrite (.accepted 1)] = some s ∧ s.output = ascii "ab" := by
  have hrun : run outputStep (started 0 5 0 (.new .kGet .kUnknown) .new)
      [.send (ascii "ab") (.accepted 1), .handleWrite (.accepted 1)] = some _ := rfl
  exact ⟨_, hrun, (output_eq_messages_iff (by decide +kernel) hrun).mpr (by simp [Meets, KeepsMessage])⟩

/-- A message on which the first direct `send()` would block is lost. -/
theorem output_ne_messages_wouldBlock : ∃ s, run outputStep (started 0 5 0 (.new .kGet .kUnknown) .new)
    [.send (ascii "ab") .wouldBlock] = some s ∧ s.output ≠ ascii "ab" := by
  have hdirect : SendsDirectly (started 0 5 0 (.new .kGet .kUnknown) .new) := by
    constructor
    · simp [started, new, connectionEstablished, enableRead, Channel.new, Channel.isWriting, Events.none]
    · rfl
  have hdrops : ¬ KeepsMessage (started 0 5 0 (.new .kGet .kUnknown) .new) (.send (ascii "ab") .wouldBlock) :=
    fun hkeeps => (hkeeps (by decide) hdirect).1 rfl
  have hlost := (output_send_lost hdrops).1.trans (output_started ..)
  exact ⟨_, rfl, fun hall => absurd (hlost.symm.trans hall) (by decide)⟩

end Session

end WebServer.Util
