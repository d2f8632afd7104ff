import WebServer.Foundation.Run

/-!
# What a run shows to an observer

An observer notes some items at each step of a run, which may depend on the state before the
step as well as on the action. `trace` collects the notes. A state may be final for the
observer: nothing is noted from there on, so an item that leads to such a state can only be
the last one of a trace.
-/

namespace WebServer.Foundation

variable {σ α β γ : Type*}

/-- What is noted at the steps of a run, up to the first action that is not enabled. -/
def trace (step : σ → α → Option σ) (note : σ → α → List β) : σ → List α → List β
  | _, [] => []
  | s, a :: rest =>
    match step s a with
    | some s' => note s a ++ trace step note s' rest
    | none => []

/-- Nothing is noted in the empty run. -/
@[simp] theorem trace_nil (step : σ → α → Option σ) (note : σ → α → List β) (s : σ) : trace step note s [] = [] :=
    rfl

/-- The notes of the first step stand in front of the later ones. -/
theorem trace_cons {step : σ → α → Option σ} {s s' : σ} {a : α} (hfirst : step s a = some s')
    (note : σ → α → List β) (rest : List α) :
    trace step note s (a :: rest) = note s a ++ trace step note s' rest := by
  rw [trace, hfirst]

/-- The notes of two parts of a run stand one after the other. -/
theorem trace_append {step : σ → α → Option σ} {s m : σ} {first : List α} (hrun : run step s first = some m)
    (note : σ → α → List β) (second : List α) :
    trace step note s (first ++ second) = trace step note s first ++ trace step note m second := by
  induction first generalizing s with
  | nil =>
    obtain rfl := Option.some.inj hrun
    rfl
  | cons a rest ih =>
    obtain ⟨s', hfirst, hrest⟩ := run_cons_eq_some.mp hrun
    rw [List.cons_append, trace_cons hfirst, trace_cons hfirst, ih hrest, List.append_assoc]

/-- What holds of the notes of every step holds of a trace. -/
theorem forall_mem_trace {step : σ → α → Option σ} {note : σ → α → List β} {P : β → Prop}
    (h : ∀ s a, ∀ b ∈ note s a, P b) (s : σ) (acts : List α) : ∀ b ∈ trace step note s acts, P b := by
  induction acts generalizing s with
  | nil => simp
  | cons a rest ih =>
    cases hfirst : step s a with
    | none => simp [trace, hfirst]
    | some s' =>
      rw [trace_cons hfirst, List.forall_mem_append]
      exact ⟨h s a, ih s'⟩

/-- What is made of each note can be made of the whole trace. -/
theorem trace_flatMap (step : σ → α → Option σ) (note : σ → α → List β) (f : β → List γ) (s : σ) (acts : List α) :
    trace step (fun s a => (note s a).flatMap f) s acts = (trace step note s acts).flatMap f := by
  induction acts generalizing s with
  | nil => rfl
  | cons a rest ih =>
    rw [trace, trace]
    cases step s a with
    | none => rfl
    | some s' => simp only [ih, List.flatMap_append]

/-- Notes that agree at every step of a run make the same trace. -/
theorem trace_congr_of_meets {step : σ → α → Option σ} {C : σ → α → Prop} {note note' : σ → α → List β}
    (h : ∀ s a, C s a → note s a = note' s a) {s : σ} {acts : List α} (hmeets : Meets step C s acts) :
    trace step note s acts = trace step note' s acts := by
  induction acts generalizing s with
  | nil => rfl
  | cons a rest ih =>
    rw [trace, trace]
    cases hfirst : step s a with
    | none => rfl
    | some s' =>
      have hlater := ih (hmeets.tail hfirst)
      simp only [h s a hmeets.head, hlater]

/-- What every step extends by its notes is extended by the trace in a run. -/
theorem run_extends_trace {step : σ → α → Option σ} {note : σ → α → List β} {observe : σ → List β}
    (hstep : ∀ s a s', step s a = some s' → observe s' = observe s ++ note s a) {s t : σ} {acts : List α}
    (hrun : run step s acts = some t) : observe t = observe s ++ trace step note s acts := by
  induction acts generalizing s with
  | nil =>
    obtain rfl := Option.some.inj hrun
    exact (List.append_nil _).symm
  | cons a rest ih =>
    obtain ⟨s', hfirst, hrest⟩ := run_cons_eq_some.mp hrun
    rw [ih hrest, hstep s a s' hfirst, trace_cons hfirst, List.append_assoc]

/-- What holds of the notes so far and the state, and goes on to hold with the notes of each step, holds of
the trace of a run and the state it reaches. -/
theorem run_invariant_trace {step : σ → α → Option σ} {note : σ → α → List β} {I : List β → σ → Prop}
    (hstep : ∀ notes s a s', I notes s → step s a = some s' → I (notes ++ note s a) s') {notes : List β} {s t : σ}
    {acts : List α} (hs : I notes s) (hrun : run step s acts = some t) : I (notes ++ trace step note s acts) t := by
  induction acts generalizing notes s with
  | nil =>
    obtain rfl := Option.some.inj hrun
    rwa [trace_nil, List.append_nil]
  | cons a rest ih =>
    obtain ⟨s', hfirst, hrest⟩ := run_cons_eq_some.mp hrun
    rw [trace_cons hfirst, ← List.append_assoc]
    exact ih (hstep notes s a s' hs hfirst) hrest

/-- The same with a condition which the steps of the run meet. -/
theorem run_invariant_trace_of_meets {step : σ → α → Option σ} {C : σ → α → Prop} {note : σ → α → List β}
    {I : List β → σ → Prop}
    (hstep : ∀ notes s a s', I notes s → C s a → step s a = some s' → I (notes ++ note s a) s') {notes : List β}
    {s t : σ} {acts : List α} (hs : I notes s) (hmeets : Meets step C s acts) (hrun : run step s acts = some t) :
    I (notes ++ trace step note s acts) t := by
  induction acts generalizing notes s with
  | nil =>
    obtain rfl := Option.some.inj hrun
    rwa [trace_nil, List.append_nil]
  | cons a rest ih =>
    obtain ⟨s', hfirst, hrest⟩ := run_cons_eq_some.mp hrun
    rw [trace_cons hfirst, ← List.append_assoc]
    exact ih (hstep notes s a s' hs hmeets.head hfirst) (hmeets.tail hfirst) hrest

/-- Where the notes of each step are the actions of a part of the system, the trace is a run of this part. -/
theorem run_trace {τ : Type*} {step : σ → α → Option σ} {part : τ → β → Option τ} {f : σ → τ}
    {note : σ → α → List β}
    (h : ∀ s a s', step s a = some s' → run part (f s) (note s a) = some (f s')) {s t : σ} {acts : List α}
    (hrun : run step s acts = some t) : run part (f s) (trace step note s acts) = some (f t) := by
  induction acts generalizing s with
  | nil => exact congrArg (some ∘ f) (Option.some.inj hrun)
  | cons a rest ih =>
    obtain ⟨s', hfirst, hrest⟩ := run_cons_eq_some.mp hrun
    rw [trace_cons hfirst]
    exact run_append_eq_some.mpr ⟨f s', h s a s' hfirst, ih hrest⟩

/-- Where each step has as many notes of a kind as its action counts for, a run has as many as its actions do. -/
theorem countP_trace {step : σ → α → Option σ} {note : σ → α → List β} {p : β → Bool} {mark : α → Bool}
    (h : ∀ s a s', step s a = some s' → (note s a).countP p = if mark a then 1 else 0) {s t : σ} {acts : List α}
    (hrun : run step s acts = some t) : (trace step note s acts).countP p = acts.countP mark := by
  induction acts generalizing s with
  | nil => rfl
  | cons a rest ih =>
    obtain ⟨s', hfirst, hrest⟩ := run_cons_eq_some.mp hrun
    rw [trace_cons hfirst, List.countP_append, List.countP_cons, h s a s' hfirst, ih hrest, Nat.add_comm]

/-- From a state that is final for the observer nothing is noted. -/
theorem trace_of_final {step : σ → α → Option σ} {note : σ → α → List β} {Final : σ → Prop}
    (hfinal : ∀ s a s', Final s → step s a = some s' → Final s' ∧ note s a = []) {s : σ} (hs : Final s)
    (acts : List α) : trace step note s acts = [] := by
  induction acts generalizing s with
  | nil => rfl
  | cons a rest ih =>
    rw [trace]
    cases hfirst : step s a with
    | none => rfl
    | some s' =>
      obtain ⟨hs', hnote⟩ := hfinal s a s' hs hfirst
      simp only [hnote, ih hs', List.append_nil]

/-- When at most one item is noted at a step, and an item that ends the notes leads to a final
state, nothing is noted behind an item that ends the notes. -/
theorem pairwise_not_ends {step : σ → α → Option σ} {note : σ → α → List β} {I Final : σ → Prop}
    {Ends : β → Prop} (hinvariant : ∀ s a s', I s → step s a = some s' → I s')
    (hfinal : ∀ s a s', Final s → step s a = some s' → Final s' ∧ note s a = [])
    (hnote : ∀ s a s', I s → step s a = some s' → note s a = [] ∨ ∃ b, note s a = [b] ∧ (Ends b → Final s'))
    {s : σ} (hs : I s) (acts : List α) : (trace step note s acts).Pairwise fun b _ => ¬ Ends b := by
  induction acts generalizing s with
  | nil => exact List.Pairwise.nil
  | cons a rest ih =>
    cases hfirst : step s a with
    | none => simp [trace, hfirst]
    | some s' =>
      have hlater := ih (hinvariant s a s' hs hfirst)
      rw [trace_cons hfirst]
      rcases hnote s a s' hs hfirst with hnone | ⟨b, hone, hends⟩
      · rw [hnone, List.nil_append]
        exact hlater
      · rw [hone, List.singleton_append, List.pairwise_cons]
        refine ⟨fun c hmem hb => ?_, hlater⟩
        rw [trace_of_final hfinal (hends hb)] at hmem
        cases hmem

/-- What holds of every item with another one behind it holds of all items but the last one. -/
theorem forall_mem_dropLast {P : β → Prop} {l : List β} (h : l.Pairwise fun b _ => P b) :
    ∀ b ∈ l.dropLast, P b := by
  induction l with
  | nil => simp
  | cons b rest ih =>
    obtain ⟨hnow, hlater⟩ := List.pairwise_cons.mp h
    cases rest with
    | nil => simp
    | cons c rest =>
      rw [List.dropLast_cons_cons, List.forall_mem_cons]
      exact ⟨hnow c List.mem_cons_self, ih hlater⟩

end WebServer.Foundation
