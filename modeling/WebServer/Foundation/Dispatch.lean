import Mathlib.Data.List.Count
import Mathlib.Logic.Function.Basic

/-!
# Outstanding tasks

Tasks wait in queues at several places. Some tasks concern a subject, and `Scheduled` says
that every subject has at most one outstanding task: the one that is due for it, once in the
queue of the place where it is due.
-/

namespace WebServer.Foundation

variable {Place Task Subject : Type*} [DecidableEq Place] [DecidableEq Task]

/-- The queues hold exactly the tasks that are due, each of them once. -/
def Scheduled (subject : Task → Option Subject) (queues : Place → List Task)
    (due : Subject → Option (Place × Task)) : Prop :=
  ∀ place task owner, subject task = some owner →
    (queues place).count task = if due owner = some (place, task) then 1 else 0

namespace Scheduled

variable {subject : Task → Option Subject} {queues : Place → List Task} {due : Subject → Option (Place × Task)}
  {place : Place} {task : Task} {owner : Subject}

/-- A task that waits is due. -/
theorem due_of_mem (h : Scheduled subject queues due) (hsubject : subject task = some owner)
    (hmem : task ∈ queues place) : due owner = some (place, task) := by
  have hpos := List.count_pos_iff.mpr hmem
  rw [h place task owner hsubject] at hpos
  by_contra hne
  simp [hne] at hpos

/-- A task that is due waits. -/
theorem mem_of_due (h : Scheduled subject queues due) (hsubject : subject task = some owner)
    (hdue : due owner = some (place, task)) : task ∈ queues place := by
  rw [← List.count_pos_iff, h place task owner hsubject, if_pos hdue]
  exact Nat.one_pos

/-- Replacing what is due for one subject, when the queues follow. -/
theorem replace [DecidableEq Subject] (h : Scheduled subject queues due) {queues' : Place → List Task}
    {next : Option (Place × Task)}
    (hothers : ∀ place task, subject task ≠ some owner → subject task ≠ none →
      (queues' place).count task = (queues place).count task)
    (howner : ∀ place task, subject task = some owner →
      (queues' place).count task = if next = some (place, task) then 1 else 0) :
    Scheduled subject queues' (Function.update due owner next) := by
  intro place task other hother
  by_cases heq : other = owner
  · subst heq
    rw [Function.update_self]
    exact howner place task hother
  · rw [Function.update_of_ne heq, hothers place task (by simp [hother, heq]) (by simp [hother])]
    exact h place task other hother

/-- A task may be queued for a subject that has none outstanding. -/
theorem push [DecidableEq Subject] (h : Scheduled subject queues due) (hsubject : subject task = some owner)
    (hnone : due owner = none) :
    Scheduled subject (Function.update queues place (queues place ++ [task]))
      (Function.update due owner (some (place, task))) := by
  have hcount (place' : Place) (task' : Task) :
      (Function.update queues place (queues place ++ [task]) place').count task' =
        (queues place').count task' + if (place, task) = (place', task') then 1 else 0 := by
    by_cases hplace : place' = place
    · subst hplace
      rw [Function.update_self, List.count_append, List.count_singleton]
      simp
    · rw [Function.update_of_ne hplace]
      simp [Ne.symm hplace]
  apply h.replace
  · intro place' task' hne _
    have hdistinct : (place, task) ≠ (place', task') := fun heq => hne ((Prod.mk.inj heq).2 ▸ hsubject)
    rw [hcount, if_neg hdistinct, Nat.add_zero]
  · intro place' task' howner
    rw [hcount, h place' task' owner howner, hnone]
    simp

/-- Taking the first task of a queue leaves nothing outstanding for its subject. -/
theorem pop [DecidableEq Subject] (h : Scheduled subject queues due) (hsubject : subject task = some owner)
    {rest : List Task} (hqueue : queues place = task :: rest) :
    Scheduled subject (Function.update queues place rest) (Function.update due owner none) := by
  have hdue := h.due_of_mem hsubject (hqueue ▸ List.mem_cons_self)
  have hcount (place' : Place) (task' : Task) :
      (Function.update queues place rest place').count task' + (if (place, task) = (place', task') then 1 else 0) =
        (queues place').count task' := by
    by_cases hplace : place' = place
    · subst hplace
      rw [Function.update_self, hqueue, List.count_cons]
      simp
    · rw [Function.update_of_ne hplace]
      simp [Ne.symm hplace]
  apply h.replace
  · intro place' task' hne _
    have hdistinct : (place, task) ≠ (place', task') := fun heq => hne ((Prod.mk.inj heq).2 ▸ hsubject)
    rw [← hcount, if_neg hdistinct, Nat.add_zero]
  · intro place' task' howner
    have hsum := hcount place' task'
    rw [h place' task' owner howner, hdue] at hsum
    simpa using hsum

/-- Tasks that concern no subject may come and go. -/
theorem congr (h : Scheduled subject queues due) {queues' : Place → List Task}
    (hsame : ∀ place task, subject task ≠ none → (queues' place).count task = (queues place).count task) :
    Scheduled subject queues' due := by
  intro place task owner hsubject
  rw [hsame place task (by simp [hsubject])]
  exact h place task owner hsubject

end Scheduled

end WebServer.Foundation
