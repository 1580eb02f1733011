import Mathlib.Logic.Relation
import Mathlib.Order.WellFounded

/-!
# Mutexes taken in order

Threads `τ` take mutexes `μ`. `holds i m` says that `i` has `m`, `wants i m` that it is waiting for `m`.

* `WaitsFor` : `i` waits for a mutex that `j` has;
* `Ordered` : who waits for a mutex has only strictly smaller ones;
* `Ordered.acyclic` : then no threads wait for each other in a cycle;
* `Ordered.exists_free` : and at the end of every chain of waiting threads is one that waits for nobody.
-/

namespace RpiCam.LockOrder

open Relation

variable {τ μ : Type*} {holds wants : τ → μ → Prop}

/-- `i` waits for a mutex that `j` has. -/
def WaitsFor (holds wants : τ → μ → Prop) (i j : τ) : Prop := ∃ m, wants i m ∧ holds j m

/-- Who waits for a mutex has only strictly smaller ones. -/
def Ordered [Preorder μ] (holds wants : τ → μ → Prop) : Prop := ∀ i m n, wants i m → holds i n → n < m

variable [Preorder μ]

/-- Along a chain of waiting threads the mutexes grow. -/
theorem Ordered.le_of_chain (h : Ordered holds wants) {i j : τ} (hc : TransGen (WaitsFor holds wants) i j) :
    ∃ m n, wants i m ∧ holds j n ∧ m ≤ n := by
  induction hc with
  | single hw =>
    obtain ⟨m, hi, hj⟩ := hw
    exact ⟨m, m, hi, hj, le_refl m⟩
  | tail _ hw ih =>
    obtain ⟨m, n, hi, hj, hmn⟩ := ih
    obtain ⟨n', hj', hk⟩ := hw
    exact ⟨m, n', hi, hk, hmn.trans (h _ _ _ hj' hj).le⟩

/-- **Mutexes taken in order leave no cycle of waiting threads.** -/
theorem Ordered.acyclic (h : Ordered holds wants) (i : τ) : ¬ TransGen (WaitsFor holds wants) i i := by
  intro hc
  obtain ⟨m, n, hi, hi', hmn⟩ := h.le_of_chain hc
  exact (h i m n hi hi').not_ge hmn

/-- A thread that waits for another one waits, through others, for one that has a mutex and waits for nobody. -/
theorem Ordered.exists_free [WellFoundedGT μ] (h : Ordered holds wants) {i : τ} {m : μ} (hi : wants i m) {j : τ}
    (hj : holds j m) : ∃ k, TransGen (WaitsFor holds wants) i k ∧ ∀ l, ¬ WaitsFor holds wants k l := by
  induction m using WellFoundedGT.induction generalizing i j with
  | ind m ih =>
    by_cases hfree : ∀ l, ¬ WaitsFor holds wants j l
    · exact ⟨j, .single ⟨m, hi, hj⟩, hfree⟩
    · simp only [not_forall, not_not] at hfree
      obtain ⟨l, m', hj', hl⟩ := hfree
      obtain ⟨k, hk, hnone⟩ := ih m' (h j m' m hj' hj) hj' hl
      exact ⟨k, .head ⟨m, hi, hj⟩ hk, hnone⟩

end RpiCam.LockOrder
