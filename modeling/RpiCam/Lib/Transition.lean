import Mathlib.Data.List.Basic

/-!
# Runs of a partial step function

A system is a step function `step : σ → α → Option σ`: `none` says that the action is not possible in the state.

* `run step s as` : the state after the actions `as`, `run_append`;
* `Reach start step ok` : the states reached by runs whose every action meets `ok` in the state it is taken in;
* `Reach.invariant` : what `start` gives and every such step keeps holds in every reached state;
* `Reach.mono` : a guard that allows more reaches more;
* `Reach.of_run`, `Reach.of_checked` : a concrete run reaches its last state;
* `Along step p s as` : `p` holds of every action that is tried, in the state it is tried in. `along_congr` exchanges `p`
  under an invariant, `along_map` takes it along a simulation, as `run_map` does with runs; `Reach.of_along` is the end
  of such a run, and `along_of_checked` gives concrete ones;
* `Always step P s as` : `P` holds in every state of the run. `always_iff_along` : this is `p` along it, where `p` is what
  a step must meet to keep `P`.
-/

namespace RpiCam.Transition

variable {σ α : Type*}

def run (step : σ → α → Option σ) : σ → List α → Option σ
  | s, [] => some s
  | s, a :: as => (step s a).bind fun s' => run step s' as

@[simp] theorem run_nil (step : σ → α → Option σ) (s : σ) : run step s [] = some s := rfl

theorem run_cons (step : σ → α → Option σ) (s : σ) (a : α) (as : List α) :
    run step s (a :: as) = (step s a).bind fun s' => run step s' as := rfl

theorem run_append (step : σ → α → Option σ) (s : σ) (as bs : List α) :
    run step s (as ++ bs) = (run step s as).bind fun s' => run step s' bs := by
  induction as generalizing s with
  | nil => rfl
  | cons a as ih =>
    rw [List.cons_append, run_cons, run_cons]
    cases step s a with
    | none => rfl
    | some s' => exact ih s'

/-- The states reached from `start` by steps that meet `ok` in the state they are taken in. -/
inductive Reach (start : σ → Prop) (step : σ → α → Option σ) (ok : σ → α → Prop) : σ → Prop
  | init {s : σ} : start s → Reach start step ok s
  | next {s s' : σ} (a : α) : Reach start step ok s → ok s a → step s a = some s' → Reach start step ok s'

/-- **The invariant rule.** -/
theorem Reach.invariant {start : σ → Prop} {step : σ → α → Option σ} {ok : σ → α → Prop} (inv : σ → Prop)
    (hinit : ∀ s, start s → inv s) (hstep : ∀ s a s', inv s → ok s a → step s a = some s' → inv s') {s : σ}
    (h : Reach start step ok s) : inv s := by
  induction h with
  | init hs => exact hinit _ hs
  | next a _ hok hst ih => exact hstep _ a _ ih hok hst

/-- The invariant rule above facts already known of every reached state. -/
theorem Reach.invariant_of {start : σ → Prop} {step : σ → α → Option σ} {ok : σ → α → Prop} {known : σ → Prop}
    (inv : σ → Prop) (hknown : ∀ s, Reach start step ok s → known s) (hinit : ∀ s, start s → inv s)
    (hstep : ∀ s a s', known s → inv s → ok s a → step s a = some s' → inv s') {s : σ}
    (h : Reach start step ok s) : inv s := by
  induction h with
  | init hs => exact hinit _ hs
  | next a hs hok hst ih => exact hstep _ a _ (hknown _ hs) ih hok hst

/-- A guard that allows more of the steps of the run reaches more. -/
theorem Reach.mono {start : σ → Prop} {step : σ → α → Option σ} {ok ok' : σ → α → Prop}
    (hok : ∀ s a s', Reach start step ok s → ok s a → step s a = some s' → ok' s a) {s : σ}
    (h : Reach start step ok s) : Reach start step ok' s := by
  induction h with
  | init hs => exact .init hs
  | next a hr ha hst ih => exact .next a ih (hok _ a _ hr ha hst) hst

/-- The step function that refuses the actions that do not pass `check`. -/
def checked (check : σ → α → Bool) (step : σ → α → Option σ) (s : σ) (a : α) : Option σ :=
  if check s a then step s a else none

theorem checked_eq_some {check : σ → α → Bool} {step : σ → α → Option σ} {s s' : σ} {a : α} :
    checked check step s a = some s' ↔ check s a = true ∧ step s a = some s' := by
  rw [checked, Option.ite_none_right_eq_some]

/-- A concrete run whose actions pass a check for the guard reaches its last state, where the check is for the states
of an invariant. -/
theorem Reach.of_checked_of {start : σ → Prop} {step : σ → α → Option σ} {ok : σ → α → Prop} (check : σ → α → Bool)
    (inv : σ → Prop) (hcheck : ∀ s a, inv s → check s a = true → ok s a)
    (hstep : ∀ s a s', inv s → check s a = true → step s a = some s' → inv s') {s s' : σ} {as : List α}
    (hs : Reach start step ok s) (hinv : inv s) (h : run (checked check step) s as = some s') :
    Reach start step ok s' := by
  induction as generalizing s with
  | nil => cases h; exact hs
  | cons a as ih =>
    rw [run_cons, Option.bind_eq_some_iff] at h
    obtain ⟨t, ht, h⟩ := h
    obtain ⟨hc, ht⟩ := checked_eq_some.mp ht
    exact ih (.next a hs (hcheck s a hinv hc) ht) (hstep s a t hinv hc ht) h

theorem Reach.of_checked {start : σ → Prop} {step : σ → α → Option σ} {ok : σ → α → Prop} (check : σ → α → Bool)
    (hcheck : ∀ s a, check s a = true → ok s a) {s s' : σ} {as : List α} (hs : Reach start step ok s)
    (h : run (checked check step) s as = some s') : Reach start step ok s' :=
  .of_checked_of check (fun _ => True) (fun s a _ => hcheck s a) (fun _ _ _ _ _ _ => trivial) hs trivial h

theorem Reach.of_run {start : σ → Prop} {step : σ → α → Option σ} {s s' : σ} {as : List α}
    (hs : Reach start step (fun _ _ => True) s) (h : run step s as = some s') :
    Reach start step (fun _ _ => True) s' := by
  have he : checked (fun _ _ => true) step = step := by
    funext s a
    simp [checked]
  exact .of_checked (fun _ _ => true) (fun _ _ _ => trivial) hs (he.symm ▸ h)

/-! ## Along a run -/

/-- `p` holds of the actions in the states they are tried in, up to the first one that is not possible. -/
def Along (step : σ → α → Option σ) (p : σ → α → Prop) : σ → List α → Prop
  | _, [] => True
  | s, a :: as => p s a ∧ ∀ s', step s a = some s' → Along step p s' as

theorem along_cons {step : σ → α → Option σ} {p : σ → α → Prop} {s : σ} {a : α} {as : List α} :
    Along step p s (a :: as) ↔ p s a ∧ ∀ s', step s a = some s' → Along step p s' as := Iff.rfl

theorem Along.mono {step : σ → α → Option σ} {p q : σ → α → Prop} (hpq : ∀ s a, p s a → q s a) {s : σ} {as : List α}
    (h : Along step p s as) : Along step q s as := by
  induction as generalizing s with
  | nil => trivial
  | cons a as ih => exact ⟨hpq s a h.1, fun s' hst => ih (h.2 s' hst)⟩

theorem Reach.of_along {start : σ → Prop} {step : σ → α → Option σ} {ok : σ → α → Prop} {s s' : σ} {as : List α}
    (hs : Reach start step ok s) (h : Along step ok s as) (hrun : run step s as = some s') :
    Reach start step ok s' := by
  induction as generalizing s with
  | nil =>
    cases hrun
    exact hs
  | cons a as ih =>
    rw [run_cons, Option.bind_eq_some_iff] at hrun
    obtain ⟨t, ht, hrun⟩ := hrun
    exact ih (.next a hs h.1 ht) (h.2 t ht) hrun

/-- A concrete run that passes a check is a run, and the check holds along it. -/
theorem along_of_checked {step : σ → α → Option σ} {ok : σ → α → Prop} (check : σ → α → Bool)
    (hcheck : ∀ s a, check s a = true → ok s a) {s s' : σ} {as : List α}
    (h : run (checked check step) s as = some s') : run step s as = some s' ∧ Along step ok s as := by
  induction as generalizing s with
  | nil => exact ⟨h, trivial⟩
  | cons a as ih =>
    rw [run_cons, Option.bind_eq_some_iff] at h
    obtain ⟨t, ht, h⟩ := h
    obtain ⟨hc, ht⟩ := checked_eq_some.mp ht
    obtain ⟨hrun, halong⟩ := ih h
    refine ⟨by rw [run_cons, ht]; exact hrun, hcheck s a hc, fun u hu => ?_⟩
    rw [ht, Option.some.injEq] at hu
    exact hu ▸ halong

theorem run_of_checked {check : σ → α → Bool} {step : σ → α → Option σ} {s s' : σ} {as : List α}
    (h : run (checked check step) s as = some s') : run step s as = some s' :=
  (along_of_checked check (fun _ _ h => h) h).1

theorem along_congr {step : σ → α → Option σ} {p q : σ → α → Prop} (inv : σ → Prop)
    (hpq : ∀ s a, inv s → (p s a ↔ q s a)) (hstep : ∀ s a s', inv s → p s a → step s a = some s' → inv s') {s : σ}
    (hs : inv s) (as : List α) : Along step p s as ↔ Along step q s as := by
  induction as generalizing s with
  | nil => exact Iff.rfl
  | cons a as ih =>
    rw [along_cons, along_cons, ← hpq s a hs]
    apply and_congr_right
    intro hp
    constructor
    · intro h s' hst
      exact (ih (hstep s a s' hs hp hst)).mp (h s' hst)
    · intro h s' hst
      exact (ih (hstep s a s' hs hp hst)).mpr (h s' hst)

/-- A machine and one that it simulates, in the states of an invariant. -/
theorem along_map {τ : Type*} {step : σ → α → Option σ} {step' : τ → α → Option τ} (f : σ → τ) (inv : σ → Prop)
    (hf : ∀ s a, inv s → (step s a).map f = step' (f s) a) (hstep : ∀ s a s', inv s → step s a = some s' → inv s')
    {q : τ → α → Prop} {s : σ} (hs : inv s) (as : List α) :
    Along step (fun s a => q (f s) a) s as ↔ Along step' q (f s) as := by
  induction as generalizing s with
  | nil => exact Iff.rfl
  | cons a as ih =>
    rw [along_cons, along_cons, ← hf s a hs]
    apply and_congr Iff.rfl
    constructor
    · intro h t ht
      rw [Option.map_eq_some_iff] at ht
      obtain ⟨s', hst, rfl⟩ := ht
      exact (ih (hstep s a s' hs hst)).mp (h s' hst)
    · intro h s' hst
      apply (ih (hstep s a s' hs hst)).mpr
      exact h (f s') (by rw [hst]; rfl)

theorem run_map {τ : Type*} {step : σ → α → Option σ} {step' : τ → α → Option τ} (f : σ → τ) (inv : σ → Prop)
    (hf : ∀ s a, inv s → (step s a).map f = step' (f s) a) (hstep : ∀ s a s', inv s → step s a = some s' → inv s')
    {s : σ} (hs : inv s) (as : List α) : (run step s as).map f = run step' (f s) as := by
  induction as generalizing s with
  | nil => rfl
  | cons a as ih =>
    rw [run_cons, run_cons, ← hf s a hs]
    cases hst : step s a with
    | none => rfl
    | some s' => exact ih (hstep s a s' hs hst)

/-- What every step with an action of the list keeps, its run keeps. -/
theorem run_invariant_of_mem {step : σ → α → Option σ} (inv : σ → Prop) {s s' : σ} {as : List α}
    (hstep : ∀ a ∈ as, ∀ s s', inv s → step s a = some s' → inv s') (hs : inv s) (h : run step s as = some s') :
    inv s' := by
  induction as generalizing s with
  | nil =>
    cases h
    exact hs
  | cons a as ih =>
    rw [run_cons, Option.bind_eq_some_iff] at h
    obtain ⟨t, ht, h⟩ := h
    exact ih (fun b hb => hstep b (List.mem_cons_of_mem _ hb)) (hstep a List.mem_cons_self s t hs ht) h

theorem run_invariant {step : σ → α → Option σ} (inv : σ → Prop)
    (hstep : ∀ s a s', inv s → step s a = some s' → inv s') {s s' : σ} (hs : inv s) {as : List α}
    (h : run step s as = some s') : inv s' :=
  run_invariant_of_mem inv (fun a _ s s' => hstep s a s') hs h

/-! ## In every state of a run -/

/-- `P` holds in every state that the actions, or the first of them, come to. -/
def Always (step : σ → α → Option σ) (P : σ → Prop) (s : σ) (as : List α) : Prop :=
  ∀ pre, pre <+: as → ∀ s', run step s pre = some s' → P s'

theorem always_nil {step : σ → α → Option σ} {P : σ → Prop} {s : σ} : Always step P s [] ↔ P s := by
  constructor
  · intro h
    exact h [] (List.prefix_refl _) s rfl
  · intro h pre hpre s' hrun
    rw [List.prefix_nil.mp hpre, run_nil, Option.some.injEq] at hrun
    exact hrun ▸ h

theorem always_cons {step : σ → α → Option σ} {P : σ → Prop} {s : σ} {a : α} {as : List α} :
    Always step P s (a :: as) ↔ P s ∧ ∀ s', step s a = some s' → Always step P s' as := by
  constructor
  · intro h
    refine ⟨h [] (List.nil_prefix) s rfl, ?_⟩
    intro s' hs pre hpre t hrun
    apply h (a :: pre) ((List.cons_prefix_cons).mpr ⟨rfl, hpre⟩)
    rw [run_cons, hs, Option.bind_some, hrun]
  · rintro ⟨hs, h⟩ pre hpre t hrun
    rcases List.prefix_cons_iff.mp hpre with rfl | ⟨pre', rfl, hpre'⟩
    · cases hrun
      exact hs
    · rw [run_cons, Option.bind_eq_some_iff] at hrun
      obtain ⟨s', hs', hrun⟩ := hrun
      exact h s' hs' pre' hpre' t hrun

/-- What holds in every state of a run is what its steps must meet. -/
theorem always_iff_along {step : σ → α → Option σ} {P : σ → Prop} {ok : σ → α → Prop} (inv : σ → Prop)
    (hstep : ∀ s a s', inv s → P s → step s a = some s' → inv s' ∧ (P s' ↔ ok s a))
    (hnone : ∀ s a, step s a = none → ok s a) {s : σ} (hs : inv s) (hP : P s) (as : List α) :
    Always step P s as ↔ Along step ok s as := by
  induction as generalizing s with
  | nil => exact iff_of_true (always_nil.mpr hP) trivial
  | cons a as ih =>
    rw [always_cons, along_cons]
    cases ha : step s a with
    | none => exact iff_of_true ⟨hP, nofun⟩ ⟨hnone s a ha, nofun⟩
    | some s' =>
      obtain ⟨hinv, hok⟩ := hstep s a s' hs hP ha
      constructor
      · rintro ⟨-, h⟩
        have hP' : P s' := h s' rfl [] List.nil_prefix s' rfl
        refine ⟨hok.mp hP', ?_⟩
        rintro t ⟨⟩
        exact (ih hinv hP').mp (h s' rfl)
      · rintro ⟨ha', h⟩
        refine ⟨hP, ?_⟩
        rintro t ⟨⟩
        exact (ih hinv (hok.mpr ha')).mpr (h s' rfl)

end RpiCam.Transition
