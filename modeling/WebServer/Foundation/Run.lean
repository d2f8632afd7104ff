import Mathlib.Data.List.Basic
import Mathlib.Tactic.Common

/-!
# Finite runs of a partial step function

A system is given by a step function which answers `none` when the requested action is
not enabled in the current state. Nondeterminism of the environment and of the scheduler
is carried by the actions, so a run is determined by its list of actions.

The invariant rules below are used for every state machine of the development. `Meets`
restricts a run to steps that satisfy a condition on the state before the step and on the
action taken; it is the form in which a defect is excluded from a run.
-/

namespace WebServer.Foundation

variable {σ α : Type*}

/-- Execute the actions in order, failing at the first one that is not enabled. -/
def run (step : σ → α → Option σ) : σ → List α → Option σ
  | s, [] => some s
  | s, a :: rest => (step s a).bind fun s' => run step s' rest

/-- The empty run stays where it is. -/
@[simp] theorem run_nil (step : σ → α → Option σ) (s : σ) : run step s [] = some s := rfl

/-- A nonempty run takes its first step and continues from there. -/
theorem run_cons (step : σ → α → Option σ) (s : σ) (a : α) (rest : List α) :
    run step s (a :: rest) = (step s a).bind fun s' => run step s' rest := rfl

/-- A successful nonempty run exposes the state after its first step. -/
theorem run_cons_eq_some {step : σ → α → Option σ} {s t : σ} {a : α} {rest : List α} :
    run step s (a :: rest) = some t ↔ ∃ s', step s a = some s' ∧ run step s' rest = some t := by
  rw [run_cons, Option.bind_eq_some_iff]

/-- Runs compose at the state reached by the first part. -/
theorem run_append (step : σ → α → Option σ) (s : σ) (first second : List α) :
    run step s (first ++ second) = (run step s first).bind fun t => run step t second := by
  induction first generalizing s with
  | nil => rfl
  | cons a rest ih =>
    rw [List.cons_append, run_cons, run_cons, Option.bind_assoc]
    congr 1
    funext s'
    exact ih s'

/-- A run that succeeds exposes the state reached by each of its prefixes. -/
theorem run_append_eq_some {step : σ → α → Option σ} {s t : σ} {first second : List α} :
    run step s (first ++ second) = some t ↔
      ∃ m, run step s first = some m ∧ run step m second = some t := by
  rw [run_append, Option.bind_eq_some_iff]

/-- Extending a run by one action performs exactly that step at the end. -/
theorem run_snoc_eq_some {step : σ → α → Option σ} {s t : σ} {acts : List α} {a : α} :
    run step s (acts ++ [a]) = some t ↔ ∃ m, run step s acts = some m ∧ step m a = some t := by
  simp only [run_append_eq_some, run_cons_eq_some, run_nil, Option.some.injEq, exists_eq_right]

/-- A run of one system is mapped to a run of another one when every step is. -/
theorem run_map {τ β : Type*} {step : σ → α → Option σ} {step' : τ → β → Option τ} {f : σ → τ} {g : α → β}
    (h : ∀ s a, (step s a).map f = step' (f s) (g a)) (s : σ) (acts : List α) :
    (run step s acts).map f = run step' (f s) (acts.map g) := by
  induction acts generalizing s with
  | nil => rfl
  | cons a rest ih =>
    rw [List.map_cons, run_cons, run_cons, ← h]
    cases step s a with
    | none => rfl
    | some s' => exact ih s'

/-- Every state reached from a state with the invariant has the invariant. -/
theorem run_invariant {step : σ → α → Option σ} {I : σ → Prop}
    (hstep : ∀ s a s', I s → step s a = some s' → I s') {s t : σ} {acts : List α}
    (hs : I s) (hrun : run step s acts = some t) : I t := by
  induction acts generalizing s with
  | nil => exact Option.some.inj hrun ▸ hs
  | cons a rest ih =>
    obtain ⟨s', hfirst, hrest⟩ := run_cons_eq_some.mp hrun
    exact ih (hstep s a s' hs hfirst) hrest

/-- What every step extends by the same part for the same action is extended by all these parts in a run. -/
theorem run_extends {β : Type*} {step : σ → α → Option σ} {observe : σ → List β} {added : α → List β}
    (hstep : ∀ s a s', step s a = some s' → observe s' = observe s ++ added a) {s t : σ} {acts : List α}
    (hrun : run step s acts = some t) : observe t = observe s ++ acts.flatMap added := by
  induction acts generalizing s with
  | nil =>
    obtain rfl := Option.some.inj hrun
    exact (List.append_nil _).symm
  | cons a rest ih =>
    obtain ⟨s', hfirst, hrest⟩ := run_cons_eq_some.mp hrun
    rw [ih hrest, hstep s a s' hfirst, List.flatMap_cons, List.append_assoc]

/-- Where every step uses up one unit of a measure, and some actions add to it before, a run is not longer than
what is there at first and what is added. -/
theorem run_length_le {step : σ → α → Option σ} {measure : σ → ℕ} {adds : α → Bool} {extra : ℕ}
    (hstep : ∀ s a s', step s a = some s' → measure s' + 1 ≤ measure s + if adds a then extra else 0) {s t : σ}
    {acts : List α} (hrun : run step s acts = some t) :
    measure t + acts.length ≤ measure s + extra * acts.countP adds := by
  induction acts generalizing s with
  | nil =>
    obtain rfl := Option.some.inj hrun
    exact Nat.le_add_right _ _
  | cons a rest ih =>
    obtain ⟨s', hfirst, hrest⟩ := run_cons_eq_some.mp hrun
    have hhere := hstep s a s' hfirst
    have hlater := ih hrest
    rw [List.length_cons, List.countP_cons, Nat.mul_add]
    split
    · next hadds =>
      rw [if_pos hadds] at hhere
      omega
    · next hnot =>
      rw [if_neg hnot] at hhere
      omega

/-- Where every marked action leads to the next one of a chain of conditions, and the others keep them, a run
gets as far in the chain as it has marked actions. -/
theorem run_levels {step : σ → α → Option σ} {mark : α → Bool} {P : ℕ → σ → Prop}
    (hstep : ∀ k s a s', P k s → step s a = some s' → P (if mark a then k + 1 else k) s') {k : ℕ} {s t : σ}
    {acts : List α} (hs : P k s) (hrun : run step s acts = some t) : P (k + acts.countP mark) t := by
  induction acts generalizing k s with
  | nil => exact Option.some.inj hrun ▸ hs
  | cons a rest ih =>
    obtain ⟨s', hfirst, hrest⟩ := run_cons_eq_some.mp hrun
    have hlater := ih (hstep k s a s' hs hfirst) hrest
    rw [List.countP_cons]
    split_ifs at hlater ⊢
    · rwa [Nat.add_assoc, Nat.add_comm 1] at hlater
    · exact hlater

/-- A state is reached by actions of a certain kind. -/
def ReachedBy (step : σ → α → Option σ) (kind : α → Prop) (s t : σ) : Prop :=
  ∃ acts, (∀ a ∈ acts, kind a) ∧ run step s acts = some t

/-- Every state is reached from itself. -/
theorem ReachedBy.refl (step : σ → α → Option σ) (kind : α → Prop) (s : σ) : ReachedBy step kind s s :=
  ⟨[], List.forall_mem_nil _, rfl⟩

/-- One action of the kind comes in front of others. -/
theorem ReachedBy.head {step : σ → α → Option σ} {kind : α → Prop} {s m t : σ} {a : α}
    (hfirst : step s a = some m) (hkind : kind a) (h : ReachedBy step kind m t) : ReachedBy step kind s t := by
  obtain ⟨acts, hall, hrun⟩ := h
  exact ⟨a :: acts, List.forall_mem_cons.mpr ⟨hkind, hall⟩, run_cons_eq_some.mpr ⟨m, hfirst, hrun⟩⟩

/-- What is reached from a reached state is reached. -/
theorem ReachedBy.trans {step : σ → α → Option σ} {kind : α → Prop} {s m t : σ} (h : ReachedBy step kind s m)
    (h' : ReachedBy step kind m t) : ReachedBy step kind s t := by
  obtain ⟨acts, hall, hrun⟩ := h
  obtain ⟨acts', hall', hrun'⟩ := h'
  exact ⟨acts ++ acts', List.forall_mem_append.mpr ⟨hall, hall'⟩, run_append_eq_some.mpr ⟨m, hrun, hrun'⟩⟩

/-- Every executed step of the run satisfies the condition in the state it starts from. -/
def Meets (step : σ → α → Option σ) (C : σ → α → Prop) : σ → List α → Prop
  | _, [] => True
  | s, a :: rest => C s a ∧ ∀ s', step s a = some s' → Meets step C s' rest

/-- The first step of a run meeting a condition meets it. -/
theorem Meets.head {step : σ → α → Option σ} {C : σ → α → Prop} {s : σ} {a : α} {rest : List α}
    (h : Meets step C s (a :: rest)) : C s a := h.1

/-- After its first step a run still meets the condition. -/
theorem Meets.tail {step : σ → α → Option σ} {C : σ → α → Prop} {s s' : σ} {a : α} {rest : List α}
    (h : Meets step C s (a :: rest)) (hfirst : step s a = some s') : Meets step C s' rest :=
  h.2 s' hfirst

/-- A run in two parts meets a condition when both parts do, the second one from where the first one ends. -/
theorem meets_append {step : σ → α → Option σ} {C : σ → α → Prop} {s : σ} {first rest : List α} :
    Meets step C s (first ++ rest) ↔
      Meets step C s first ∧ ∀ m, run step s first = some m → Meets step C m rest := by
  induction first generalizing s with
  | nil =>
    constructor
    · intro h
      exact ⟨trivial, fun m hm => Option.some.inj hm ▸ h⟩
    · intro h
      exact h.2 s rfl
  | cons a first ih =>
    constructor
    · intro h
      refine ⟨⟨h.head, fun s' hfirst => (ih.mp (h.tail hfirst)).1⟩, fun m hm => ?_⟩
      obtain ⟨s', hfirst, hrest⟩ := run_cons_eq_some.mp hm
      exact (ih.mp (h.tail hfirst)).2 m hrest
    · rintro ⟨hmeets, hrest⟩
      refine ⟨hmeets.head, fun s' hfirst => ih.mpr ⟨hmeets.tail hfirst, fun m hm => ?_⟩⟩
      exact hrest m (run_cons_eq_some.mpr ⟨s', hfirst, hm⟩)

/-- A run meeting a condition meets it at each of its steps. -/
theorem Meets.at_run {step : σ → α → Option σ} {C : σ → α → Prop} {s m : σ} {a : α} {first rest : List α}
    (h : Meets step C s (first ++ a :: rest)) (hrun : run step s first = some m) : C m a :=
  ((meets_append.mp h).2 m hrun).head

/-- Along a step that is enabled, meeting a condition is checked step by step. -/
theorem meets_cons_of_step {step : σ → α → Option σ} {C : σ → α → Prop} {s s' : σ} {a : α} {rest : List α}
    (hfirst : step s a = some s') : Meets step C s (a :: rest) ↔ C s a ∧ Meets step C s' rest := by
  constructor
  · intro h
    exact ⟨h.head, h.tail hfirst⟩
  · intro h
    exact ⟨h.1, fun u hu => Option.some.inj (hfirst.symm.trans hu) ▸ h.2⟩

/-- Meeting a decidable condition can be decided by executing the run. -/
instance decidableMeets (step : σ → α → Option σ) (C : σ → α → Prop) [∀ s a, Decidable (C s a)] :
    (s : σ) → (acts : List α) → Decidable (Meets step C s acts)
  | _, [] => isTrue trivial
  | s, a :: rest =>
    match hfirst : step s a with
    | none => decidable_of_iff (C s a) ⟨fun h => ⟨h, by simp [hfirst]⟩, fun h => h.1⟩
    | some s' =>
      have := decidableMeets step C s' rest
      decidable_of_iff (C s a ∧ Meets step C s' rest) (meets_cons_of_step hfirst).symm

/-- A condition that holds of the actions in every state is met by all runs. -/
theorem meets_of_forall_mem {step : σ → α → Option σ} {C : σ → α → Prop} {acts : List α}
    (h : ∀ a ∈ acts, ∀ s, C s a)
    (s : σ) : Meets step C s acts := by
  induction acts generalizing s with
  | nil => exact trivial
  | cons a rest ih =>
    obtain ⟨hfirst, hrest⟩ := List.forall_mem_cons.mp h
    exact ⟨hfirst s, fun s' _ => ih hrest s'⟩

/-- A condition that follows from another one wherever an invariant holds is met by all runs meeting that
one, where the invariant is kept by the steps that do. -/
theorem Meets.mono_of_kept {step : σ → α → Option σ} {C D : σ → α → Prop} {I : σ → Prop}
    (hstep : ∀ s a s', I s → C s a → step s a = some s' → I s') (h : ∀ s a, I s → C s a → D s a) {s : σ} (hs : I s)
    {acts : List α} (hmeets : Meets step C s acts) : Meets step D s acts := by
  induction acts generalizing s with
  | nil => exact trivial
  | cons a rest ih =>
    refine ⟨h s a hs hmeets.head, fun s' hfirst => ?_⟩
    exact ih (hstep s a s' hs hmeets.head hfirst) (hmeets.tail hfirst)

/-- Conditions that are equivalent wherever an invariant holds are met by the same runs, where the
invariant is kept by the steps that meet the first of them. -/
theorem meets_congr_of_kept {step : σ → α → Option σ} {C D : σ → α → Prop} {I : σ → Prop}
    (hstep : ∀ s a s', I s → C s a → step s a = some s' → I s') (h : ∀ s a, I s → (C s a ↔ D s a)) {s : σ}
    (hs : I s)
    (acts : List α) : Meets step C s acts ↔ Meets step D s acts := by
  constructor
  · exact Meets.mono_of_kept hstep (fun s a hs => (h s a hs).mp) hs
  · exact Meets.mono_of_kept (fun s a s' hs hD => hstep s a s' hs ((h s a hs).mpr hD))
      (fun s a hs => (h s a hs).mpr) hs

/-- Conditions that are equivalent wherever an invariant holds are met by the same runs. -/
theorem meets_congr_of_invariant {step : σ → α → Option σ} {C D : σ → α → Prop} {I : σ → Prop}
    (hstep : ∀ s a s', I s → step s a = some s' → I s') (h : ∀ s a, I s → (C s a ↔ D s a)) {s : σ} (hs : I s)
    (acts : List α) : Meets step C s acts ↔ Meets step D s acts :=
  meets_congr_of_kept (fun s a s' hs _ => hstep s a s' hs) h hs acts

/-- Equivalent conditions are met by the same runs. -/
theorem meets_congr {step : σ → α → Option σ} {C D : σ → α → Prop} (h : ∀ s a, C s a ↔ D s a) (s : σ)
    (acts : List α) : Meets step C s acts ↔ Meets step D s acts :=
  meets_congr_of_invariant (I := fun _ => True) (fun _ _ _ _ _ => trivial) (fun s a _ => h s a) trivial acts

/-- Where each step keeps a property exactly under a condition, the property holds at every
point of a run if and only if all steps of the run meet the condition. -/
theorem throughout_iff_meets {step : σ → α → Option σ} {C : σ → α → Prop} {I P : σ → Prop}
    (hinvariant : ∀ s a s', I s → step s a = some s' → I s')
    (hstep : ∀ s a s', I s → P s → step s a = some s' → (P s' ↔ C s a)) {s t : σ} {acts : List α} (hs : I s)
    (hP : P s) (hrun : run step s acts = some t) :
    (∀ first m, first <+: acts → run step s first = some m → P m) ↔ Meets step C s acts := by
  induction acts generalizing s with
  | nil =>
    refine iff_of_true (fun first m hfirst hm => ?_) trivial
    rw [List.prefix_nil.mp hfirst] at hm
    exact Option.some.inj hm ▸ hP
  | cons a rest ih =>
    obtain ⟨s', hfirst, hrest⟩ := run_cons_eq_some.mp hrun
    have hcondition := hstep s a s' hs hP hfirst
    rw [meets_cons_of_step hfirst]
    constructor
    · intro hall
      have hP' : P s' := hall [a] s' (List.prefix_append [a] rest) (run_cons_eq_some.mpr ⟨s', hfirst, rfl⟩)
      refine ⟨hcondition.mp hP', (ih (hinvariant s a s' hs hfirst) hP' hrest).mp fun first m hprefix hm => ?_⟩
      exact hall (a :: first) m (List.cons_prefix_cons.mpr ⟨rfl, hprefix⟩) (run_cons_eq_some.mpr ⟨s', hfirst, hm⟩)
    · rintro ⟨hnow, hlater⟩ first m hprefix hm
      cases first with
      | nil => exact Option.some.inj hm ▸ hP
      | cons b first =>
        obtain ⟨rfl, hprefix'⟩ := List.cons_prefix_cons.mp hprefix
        obtain ⟨s'', hfirst', hm'⟩ := run_cons_eq_some.mp hm
        obtain rfl := Option.some.inj (hfirst.symm.trans hfirst')
        exact (ih (hinvariant s b s' hs hfirst) (hcondition.mpr hnow) hrest).mpr hlater first m hprefix' hm'

/-- The invariant rule for runs whose steps all meet a condition. -/
theorem run_invariant_of_meets {step : σ → α → Option σ} {C : σ → α → Prop} {I : σ → Prop}
    (hstep : ∀ s a s', I s → C s a → step s a = some s' → I s') {s t : σ} {acts : List α}
    (hs : I s) (hmeets : Meets step C s acts) (hrun : run step s acts = some t) : I t := by
  induction acts generalizing s with
  | nil => exact Option.some.inj hrun ▸ hs
  | cons a rest ih =>
    obtain ⟨s', hfirst, hrest⟩ := run_cons_eq_some.mp hrun
    exact ih (hstep s a s' hs hmeets.head hfirst) (hmeets.tail hfirst) hrest

end WebServer.Foundation
