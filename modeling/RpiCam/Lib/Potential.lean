import Mathlib.Algebra.Order.BigOperators.Group.Finset
import RpiCam.Lib.Transition

/-!
# Runs that end

A potential bounds the length of a run: every step but those that are charged lowers it. Where the state is made of
threads, the potential is a sum over them, and a step changes the part of the thread that steps and adds something to
those of others.

* `charged`, `charged_checked` : what the steps of a run are charged;
* `length_le_potential` : the steps of a run are no more than the potential it begins with and what is charged;
* `exists_terminal` : so a run that is not charged can be continued until nothing is possible without a charge;
* `sum_turn` : the sum after a step of one thread;
* `exists_bounds_idle` : a run begins with finitely many threads at work, and each step adds one at most.
-/

namespace RpiCam.Transition

variable {σ α ι : Type*}

/-- What the steps of a run are charged, each by `charge`. -/
def charged (step : σ → α → Option σ) (charge : σ → α → Nat) : σ → List α → Nat
  | _, [] => 0
  | s, a :: as => charge s a + (step s a).elim 0 fun s' => charged step charge s' as

/-- **A potential bounds a run.** -/
theorem length_le_potential {step : σ → α → Option σ} {charge : σ → α → Nat} (inv : σ → Prop) (potential : σ → Nat)
    (hstep : ∀ s a s', inv s → step s a = some s' →
      inv s' ∧ potential s' + 1 ≤ potential s + charge s a) {s s' : σ} {as : List α} (hs : inv s)
    (hrun : run step s as = some s') :
    potential s' + as.length ≤ potential s + charged step charge s as := by
  induction as generalizing s with
  | nil =>
    cases hrun
    exact Nat.le_refl _
  | cons a as ih =>
    rw [run_cons, Option.bind_eq_some_iff] at hrun
    obtain ⟨t, ht, hrun⟩ := hrun
    obtain ⟨hinv, hle⟩ := hstep s a t hs ht
    have hrest := ih hinv hrun
    rw [List.length_cons, charged, ht, Option.elim_some]
    omega

theorem charged_mul (step : σ → α → Option σ) (k : Nat) (charge : σ → α → Nat) (s : σ) (as : List α) :
    charged step (fun s a => k * charge s a) s as = k * charged step charge s as := by
  induction as generalizing s with
  | nil => rfl
  | cons a as ih =>
    rw [charged, charged, Nat.mul_add]
    cases step s a with
    | none => rfl
    | some s' => exact congrArg _ (ih s')

theorem charged_checked {check : σ → α → Bool} {step : σ → α → Option σ} (charge : σ → α → Nat) {s s' : σ} {as : List α}
    (hrun : run (checked check step) s as = some s') :
    charged (checked check step) charge s as = charged step charge s as := by
  induction as generalizing s with
  | nil => rfl
  | cons a as ih =>
    rw [run_cons, Option.bind_eq_some_iff] at hrun
    obtain ⟨t, ht, hrun⟩ := hrun
    rw [charged, charged, ht, (checked_eq_some.mp ht).2, Option.elim_some, Option.elim_some, ih hrun]

/-- A run that is not charged comes to a state with no step but such as are charged. -/
theorem exists_terminal {step : σ → α → Option σ} {charge : σ → α → Nat} (inv : σ → Prop) (potential : σ → Nat)
    (hstep : ∀ s a s', inv s → step s a = some s' →
      inv s' ∧ potential s' + 1 ≤ potential s + charge s a) {s : σ} (hs : inv s) :
    ∃ as s', run step s as = some s' ∧ charged step charge s as = 0 ∧ ∀ a, charge s' a = 0 → step s' a = none := by
  induction hn : potential s using Nat.strong_induction_on generalizing s with
  | _ n ih =>
    by_cases hterm : ∀ a, charge s a = 0 → step s a = none
    · exact ⟨[], s, rfl, rfl, hterm⟩
    · push Not at hterm
      obtain ⟨a, hcharge, hsome⟩ := hterm
      obtain ⟨t, ht⟩ := Option.ne_none_iff_exists'.mp hsome
      obtain ⟨hinv, hle⟩ := hstep s a t hs ht
      obtain ⟨as, s', hrun, hnone, hend⟩ := ih (potential t) (by omega) hinv rfl
      refine ⟨a :: as, s', ?_, ?_, hend⟩
      · rw [run_cons, ht, Option.bind_some, hrun]
      · rw [charged, ht, Option.elim_some, hcharge, hnone]

variable [DecidableEq ι]

/-- One thread goes from `w i` to `w' i`, and the others rise by `rise` at most. -/
theorem sum_turn {threads : Finset ι} {i : ι} (hi : i ∈ threads) {w w' rise : ι → Nat}
    (h : ∀ j ∈ threads, j ≠ i → w' j ≤ w j + rise j) :
    ∑ j ∈ threads, w' j + w i ≤ ∑ j ∈ threads, w j + w' i + ∑ j ∈ threads, rise j := by
  have hothers : ∑ j ∈ threads.erase i, w' j ≤ ∑ j ∈ threads.erase i, w j + ∑ j ∈ threads.erase i, rise j := by
    rw [← Finset.sum_add_distrib]
    exact Finset.sum_le_sum fun j hj => h j (Finset.mem_of_mem_erase hj) (Finset.ne_of_mem_erase hj)
  have hw := Finset.add_sum_erase threads w hi
  have hw' := Finset.add_sum_erase threads w' hi
  have hrise := Finset.add_sum_erase threads rise hi
  omega

/-- Where a step of a thread changes what is at work by that thread at most, finitely many are at work in any run. -/
theorem exists_bounds_idle {start : σ → Prop} {step : σ → ι × α → Option σ} {ok : σ → ι × α → Prop}
    (idle : σ → ι → Prop) (hinit : ∀ s, start s → ∃ threads : Finset ι, ∀ j ∉ threads, idle s j)
    (hstep : ∀ s i a s', step s (i, a) = some s' → ∀ j, j ≠ i → idle s j → idle s' j) {s : σ}
    (h : Reach start step ok s) : ∃ threads : Finset ι, ∀ j ∉ threads, idle s j := by
  refine h.invariant (fun s => ∃ threads : Finset ι, ∀ j ∉ threads, idle s j) hinit ?_
  rintro s ⟨i, a⟩ s' ⟨threads, hidle⟩ - hst
  refine ⟨insert i threads, ?_⟩
  intro j hj
  rw [Finset.mem_insert, not_or] at hj
  exact hstep s i a s' hst j hj.1 (hidle j hj.2)

end RpiCam.Transition
