import WebServer.Log.AsyncLoggingContent

/-!
# When the logging thread runs out of buffers

Each iteration of the thread gives its first spare away at the swap and takes a buffer back
from the batch. The second spare is given away only when an `Append` call has used `next_`,
and then the batch has at least two buffers. The code never puts the second spare back: both
refilling branches assign `newbuffer_current`. From then on every iteration needs two
buffers, so a swap after which the batch has only `current_` ends in `buffers.back()` on an
empty vector.
-/

namespace WebServer.Log.AsyncLogging

open WebServer.Foundation
open WebServer.Util (Bytes)

/-- A wait for records does not end with nothing pending after the second spare is gone. -/
def SwapYields (s : AsyncLogging) (action : AsyncAction) : Prop :=
  action = .thread → s.position = .waiting → s.newbufferNext.isSome ∨ s.buffersToWrite ≠ []

/-- Whether a step's swap yields enough can be read off the state. -/
instance (s : AsyncLogging) (action : AsyncAction) : Decidable (s.SwapYields action) :=
  inferInstanceAs (Decidable (_ → _ → _ ∨ _))

/-- The pointers are consistent and the batch in hand is large enough to refill the spares. -/
structure Supplied (s : AsyncLogging) : Prop where
  consistent : s.Consistent
  fault_none : s.fault = none
  rolled : s.next = none → s.buffersToWrite ≠ [] ∨ s.position ≠ .start ∧ s.newbufferNext = none
  enough : s.position.ownsBatch → s.buffers ≠ [] ∧ (s.newbufferNext = none → 2 ≤ s.buffers.length)

/-- The logger starts well supplied. -/
theorem supplied_started : started.Supplied where
  consistent := consistent_started
  fault_none := rfl
  rolled h := by cases h
  enough h := absurd h Bool.false_ne_true

/-- Taking from the back of a nonempty vector of present pointers succeeds. -/
theorem takeBack_of_ne_nil {buffers : List BufferPtr} (hne : buffers ≠ [])
    (hsome : ∀ pointer ∈ buffers, pointer.isSome) :
    ∃ pointer, takeBack buffers = .ok (pointer, buffers.dropLast) := by
  have hlast := List.getLast?_eq_some_getLast hne
  obtain ⟨buffer, hbuffer⟩ := Option.isSome_iff_exists.mp (hsome _ (List.getLast_mem hne))
  rw [takeBack, hlast, hbuffer]
  exact ⟨_, rfl⟩

/-- A batch that is large enough refills the spares without a fault. -/
theorem refill_of_enough (newbufferCurrent newbufferNext : BufferPtr) {buffers : List BufferPtr}
    (hsome : ∀ pointer ∈ buffers, pointer.isSome) (hne : buffers ≠ [])
    (htwo : newbufferNext = none → 2 ≤ buffers.length) :
    ∃ pointer, refill newbufferCurrent newbufferNext buffers = .ok pointer := by
  have hcut : ∃ kept : List BufferPtr, (if buffers.length > 2 then buffers.take 2 else buffers) = kept ∧
      (∀ pointer ∈ kept, pointer.isSome) ∧ kept ≠ [] ∧ (newbufferNext = none → 2 ≤ kept.length) := by
    refine ⟨_, rfl, ?_⟩
    split_ifs with hlong
    · have hlength : (buffers.take 2).length = 2 := by
        rw [List.length_take]
        omega
      refine ⟨fun pointer hpointer => hsome pointer (List.mem_of_mem_take hpointer), ?_, fun _ => hlength.ge⟩
      exact List.ne_nil_of_length_pos (by omega)
    · exact ⟨hsome, hne, htwo⟩
  obtain ⟨kept, hkept, hkeptSome, hkeptNe, hkeptTwo⟩ := hcut
  obtain ⟨first, hfirst⟩ := takeBack_of_ne_nil hkeptNe hkeptSome
  rw [refill, hkept]
  cases newbufferNext with
  | some next =>
    cases newbufferCurrent with
    | none => exact ⟨first, except_bind_eq_ok.mpr ⟨_, hfirst, rfl⟩⟩
    | some current => exact ⟨some current, rfl⟩
  | none =>
    have hlength := hkeptTwo rfl
    cases newbufferCurrent with
    | none =>
      have hrestNe : kept.dropLast ≠ [] := by
        apply List.ne_nil_of_length_pos
        rw [List.length_dropLast]
        omega
      obtain ⟨second, hsecond⟩ := takeBack_of_ne_nil hrestNe
        (fun pointer hpointer => hkeptSome pointer (List.mem_of_mem_dropLast hpointer))
      exact ⟨second, except_bind_eq_ok.mpr ⟨_, hfirst, except_bind_eq_ok.mpr ⟨_, hsecond, rfl⟩⟩⟩
    | some current => exact ⟨first, except_bind_eq_ok.mpr ⟨_, rfl, except_bind_eq_ok.mpr ⟨_, hfirst, rfl⟩⟩⟩

/-- `Append` never meets a null `current_`, and rolling over leaves a buffer pending. -/
theorem Supplied.append {s : AsyncLogging} (h : s.Supplied) (record : Bytes) :
    (s.append record).Supplied := by
  have hconsistent := h.consistent.append record
  obtain ⟨current, hcurrent⟩ := Option.isSome_iff_exists.mp h.consistent.current_some
  rw [AsyncLogging.append] at hconsistent ⊢
  simp only [hcurrent] at hconsistent ⊢
  split at hconsistent
  · next hfits =>
    rw [if_pos hfits]
    exact { h with consistent := hconsistent }
  · next hfits =>
    rw [if_neg hfits]
    exact { h with consistent := hconsistent, rolled := fun _ => Or.inl (by simp [rollOver]) }

/-- A swap that yields two buffers, or keeps the second spare, supplies the thread. -/
theorem Supplied.swap {s : AsyncLogging} (h : s.Supplied) (hposition : s.position.beforeSwap)
    (hyields : s.newbufferNext.isSome ∨ s.buffersToWrite ≠ []) : s.swap.Supplied := by
  have hconsistent := h.consistent.swap hposition
  obtain ⟨current, hcurrent⟩ := Option.isSome_iff_exists.mp h.consistent.current_some
  have hrolled : s.next = none → s.newbufferNext.isSome → s.buffersToWrite ≠ [] := by
    intro hnext hspare
    rcases h.rolled hnext with hpending | ⟨-, hnone⟩
    · exact hpending
    · rw [hnone] at hspare
      cases hspare
  have htwo : s.buffersToWrite ≠ [] → 2 ≤ (s.buffersToWrite ++ [some current]).length := by
    intro hpending
    have hpos := List.length_pos_of_ne_nil hpending
    rw [List.length_append, List.length_singleton]
    omega
  rw [AsyncLogging.swap] at hconsistent ⊢
  simp only [hcurrent] at hconsistent ⊢
  refine ⟨hconsistent, h.fault_none, ?_, fun _ => ⟨by simp, ?_⟩⟩
  · intro hnext
    right
    cases hcase : s.next with
    | none => simp
    | some next => simp [hcase] at hnext
  · intro hspare
    apply htwo
    cases hcase : s.next with
    | none =>
      rcases hyields with hsome | hpending
      · exact hrolled hcase hsome
      · exact hpending
    | some next =>
      rcases hyields with hsome | hpending
      · simp only [hcase, Option.isNone_some, Bool.false_eq_true, if_false] at hspare
        rw [hspare] at hsome
        cases hsome
      · exact hpending

/-- A well supplied thread recycles without a fault. -/
theorem Supplied.recycle {s : AsyncLogging} (h : s.Supplied) (hposition : s.position = .recycling) :
    s.recycle.Supplied := by
  have hconsistent := h.consistent.recycle
  obtain ⟨hne, htwo⟩ := h.enough (hposition ▸ rfl)
  obtain ⟨pointer, hrefill⟩ := refill_of_enough s.newbufferCurrent s.newbufferNext
    h.consistent.buffers_some hne htwo
  rw [AsyncLogging.recycle, hrefill] at hconsistent ⊢
  refine ⟨hconsistent, h.fault_none, ?_, fun hbatch => absurd hbatch Bool.false_ne_true⟩
  intro hnext
  rcases h.rolled hnext with hpending | ⟨-, hnone⟩
  · exact Or.inl hpending
  · exact Or.inr ⟨by simp, hnone⟩

/-- A step of the thread keeps it well supplied unless its swap yields too little. -/
theorem Supplied.threadStep {s s' : AsyncLogging} (h : s.Supplied) (hyields : s.SwapYields .thread)
    (hstep : ThreadStep s s') : s'.Supplied := by
  have hconsistent := h.consistent.threadStep hstep
  have hidle : s.position ≠ .start → s.next = none →
      s.buffersToWrite ≠ [] ∨ s.newbufferNext = none := by
    intro _ hnext
    exact (h.rolled hnext).imp_right And.right
  cases hstep with
  | start hposition =>
    refine ⟨hconsistent, h.fault_none, ?_, fun hbatch => absurd hbatch Bool.false_ne_true⟩
    intro hnext
    rcases h.rolled hnext with hpending | ⟨hstart, -⟩
    · exact Or.inl hpending
    · exact absurd hposition hstart
  | enter hposition =>
    refine ⟨hconsistent, h.fault_none, fun hnext => ?_, fun hbatch => ?_⟩
    · refine (hidle (by simp [hposition]) hnext).imp_right fun hnone => ⟨?_, hnone⟩
      cases s.running <;> simp
    · cases hrunning : s.running <;> simp [hrunning, ThreadPosition.ownsBatch] at hbatch
  | wait hposition hempty =>
    refine ⟨hconsistent, h.fault_none, fun hnext => ?_, fun hbatch => absurd hbatch Bool.false_ne_true⟩
    exact (hidle (by simp [hposition]) hnext).imp_right fun hnone => ⟨by simp, hnone⟩
  | swap hposition =>
    rcases hposition with ⟨hposition, hpending⟩ | hposition
    · exact h.swap (hposition ▸ rfl) (Or.inr hpending)
    · exact h.swap (hposition ▸ rfl) (hyields rfl hposition)
  | write index buffer hposition hbuffer =>
    obtain ⟨written, rfl⟩ := Option.isSome_iff_exists.mp
      (h.consistent.buffers_some buffer (List.mem_of_getElem? hbuffer))
    refine ⟨hconsistent, h.fault_none, fun hnext => ?_, fun _ => h.enough (hposition ▸ rfl)⟩
    exact (hidle (by simp [hposition]) hnext).imp_right fun hnone => ⟨by simp [write], hnone⟩
  | rollFile index hposition hend =>
    refine ⟨hconsistent, h.fault_none, fun hnext => ?_, fun _ => h.enough (hposition ▸ rfl)⟩
    exact (hidle (by simp [hposition]) hnext).imp_right fun hnone => ⟨by simp [AsyncLogging.rollFile], hnone⟩
  | recycle hposition => exact h.recycle hposition

/-- Every step whose swap yields enough keeps the thread well supplied. -/
theorem supplied_step (s : AsyncLogging) (action : AsyncAction) (s' : AsyncLogging) (h : s.Supplied)
    (hyields : s.SwapYields action) (hstep : s.step action = some s') : s'.Supplied := by
  obtain ⟨-, ⟨record, rfl, rfl⟩ | ⟨rfl, hthread⟩ | ⟨rfl, hstop⟩⟩ := step_cases hstep
  · exact h.append record
  · exact h.threadStep hyields hthread
  · have hconsistent := consistent_step s .stop s' h.consistent hstep
    rw [stopStep_eq hstop] at hconsistent ⊢
    exact { h with consistent := hconsistent }

/-- After a wait that ends with nothing pending and no second spare, the thread's own next
steps take from an empty vector. -/
theorem emptyVector_of_not_swapYields {s : AsyncLogging} (h : s.Consistent) (hfault : s.fault = none)
    (hyields : ¬ s.SwapYields .thread) :
    ∃ t, run step s (List.replicate 4 .thread) = some t ∧ t.fault = some .emptyVector := by
  obtain ⟨-, hwaiting, hspare⟩ : True ∧ s.position = .waiting ∧
      ¬ (s.newbufferNext.isSome ∨ s.buffersToWrite ≠ []) := by
    simpa [SwapYields] using hyields
  obtain ⟨hnone, hempty⟩ := not_or.mp hspare
  obtain ⟨current, hcurrent⟩ := Option.isSome_iff_exists.mp h.current_some
  have hbuffers := h.buffers_nil (hwaiting ▸ Bool.false_ne_true)
  obtain ⟨running, _, next, _, _, spare, _, _, written, writtenbytes, stopPosition, _⟩ := s
  simp only [ne_eq, not_not, Option.not_isSome_iff_eq_none] at hwaiting hnone hempty hcurrent hbuffers hfault
  subst hwaiting hnone hempty hcurrent hbuffers hfault
  cases next with
  | none => exact ⟨_, rfl, rfl⟩
  | some next => exact ⟨_, rfl, rfl⟩

/-- As long as no wait ends with nothing pending after the second spare is gone, no step of
the run takes from an empty vector or uses a null pointer; when one does, the thread's next
steps take from an empty vector. -/
theorem fault_none_of_swapYields {actions : List AsyncAction} {s : AsyncLogging}
    (hrun : run step started actions = some s) (hyields : Meets step SwapYields started actions) :
    s.fault = none ∧ s.current.isSome ∧ (¬ s.SwapYields .thread →
      ∃ t, run step s (List.replicate 4 .thread) = some t ∧ t.fault = some .emptyVector) := by
  have hsupplied := run_invariant_of_meets supplied_step supplied_started hyields hrun
  exact ⟨hsupplied.fault_none, hsupplied.consistent.current_some,
    emptyVector_of_not_swapYields hsupplied.consistent hsupplied.fault_none⟩

/-- An iteration in which `current_` was full refills the spares from two written buffers, without a fault. -/
theorem fault_none_busy : ∃ s, run step started (rollOverActions ++ List.replicate 7 .thread) = some s ∧
    s.position = .loopHead ∧ s.newbufferCurrent.isSome ∧ s.fault = none := by
  obtain ⟨current, -, hrolled⟩ := run_rollOverActions
  have hrun : run step started (rollOverActions ++ List.replicate 7 .thread) = some _ :=
    run_append_eq_some.mpr ⟨_, hrolled, rfl⟩
  have hyields : Meets step SwapYields started (rollOverActions ++ List.replicate 7 .thread) := by
    refine meets_append.mpr ⟨meets_of_forall_mem (fun action hmem s => ?_) _, fun m hm => ?_⟩
    · rintro rfl
      rcases List.mem_append.mp hmem with hfill | hlast
      · cases List.eq_of_mem_replicate hfill
      · cases List.mem_singleton.mp hlast
    · -- The thread finds a pending buffer, so it never waits.
      obtain rfl := Option.some.inj (hrolled.symm.trans hm)
      have hbusy {s s' : AsyncLogging} {count : ℕ} (position : ThreadPosition) (hposition : s.position = position)
          (hnot : position ≠ .waiting) (hstep : s.step .thread = some s')
          (hrest : Meets step SwapYields s' (List.replicate count .thread)) :
          Meets step SwapYields s (List.replicate (count + 1) .thread) :=
        (meets_cons_of_step hstep).mpr ⟨fun _ hwaiting => absurd (hposition.symm.trans hwaiting) hnot, hrest⟩
      refine hbusy (.start) rfl (by decide) rfl ?_
      refine hbusy (.loopHead) rfl (by decide) rfl ?_
      refine hbusy (.locking) rfl (by decide) rfl ?_
      refine hbusy (.writing 0) rfl (by decide) rfl ?_
      refine hbusy (.writing 1) rfl (by decide) rfl ?_
      refine hbusy (.writing 2) rfl (by decide) rfl ?_
      exact hbusy (.recycling) rfl (by decide) rfl trivial
  exact ⟨_, hrun, rfl, rfl, (fault_none_of_swapYields hrun hyields).1⟩

/-- A busy iteration followed by a quiet one takes from an empty vector. -/
theorem emptyVector_rollOver :
    ∃ s, run step started (rollOverActions ++ List.replicate 13 .thread) = some s ∧
      s.fault = some .emptyVector := by
  obtain ⟨current, -, hrun⟩ := run_rollOverActions
  refine ⟨_, run_append_eq_some.mpr ⟨_, hrun, rfl⟩, rfl⟩

end WebServer.Log.AsyncLogging
