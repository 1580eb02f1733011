/-!
# Mutual exclusion

A mutex is the thread that has it, if any. `OwnedBy m holds` ties it to the places of the threads: the thread that `m`
names is the one that is inside. A step of one thread takes the mutex, gives it back or leaves it alone (`Turn`), and
each keeps the tie (`OwnedBy.turn`); two threads are never inside at once (`OwnedBy.unique`). `atHolder` is what the
thread inside has in its hands.
-/

namespace RpiCam

variable {τ : Type}

/-- The thread in `m` is the one inside. -/
def OwnedBy (m : Option τ) (holds : τ → Bool) : Prop := ∀ i, m = some i ↔ holds i = true

theorem OwnedBy.unique {m : Option τ} {holds : τ → Bool} (h : OwnedBy m holds) {i j : τ} (hi : holds i = true)
    (hj : holds j = true) : i = j :=
  Option.some.inj (((h i).mpr hi).symm.trans ((h j).mpr hj))

theorem OwnedBy.of_free {holds : τ → Bool} (h : ∀ i, holds i = false) : OwnedBy none holds := fun i => by simp [h i]

theorem OwnedBy.free {holds : τ → Bool} (h : OwnedBy none holds) (i : τ) : holds i = false := by
  cases hi : holds i with
  | false => rfl
  | true => cases (h i).mpr hi

/-- What a step of thread `i` does to a mutex, with its place before and after. -/
inductive Turn (i : τ) (m : Option τ) (before after : Bool) : Option τ → Prop
  | keep : after = before → Turn i m before after m
  | take : m = none → after = true → Turn i m before after (some i)
  | give : before = true → after = false → Turn i m before after none

theorem OwnedBy.turn {m m' : Option τ} {holds holds' : τ → Bool} {i : τ} (h : OwnedBy m holds)
    (hothers : ∀ j, j ≠ i → holds' j = holds j) (ht : Turn i m (holds i) (holds' i) m') : OwnedBy m' holds' := by
  intro j
  by_cases hj : j = i
  · subst hj
    cases ht with
    | keep he => rw [he]; exact h j
    | take _ ha => simp [ha]
    | give _ ha => simp [ha]
  · rw [hothers j hj]
    cases ht with
    | keep _ => exact h j
    | take hm _ =>
      subst hm
      simp [h.free j, Ne.symm hj]
    | give hb _ =>
      have : holds j = false := by
        cases hj' : holds j with
        | false => rfl
        | true => exact absurd (h.unique hj' hb) hj
      simp [this]

/-! ## What the thread inside has -/

variable {α : Type}

/-- A step of a thread that has the default before and after leaves what the thread inside has as it was. -/
theorem OwnedBy.elim_turn {m m' : Option τ} {holds : τ → Bool} {i : τ} {after : Bool} {d : α} {f f' : τ → α}
    (h : OwnedBy m holds) (ht : Turn i m (holds i) after m') (hi : f i = d) (hi' : f' i = d)
    (hothers : ∀ j, j ≠ i → m = some j → f' j = f j) : m'.elim d f' = m.elim d f := by
  cases ht with
  | keep _ =>
    cases m with
    | none => rfl
    | some j =>
      by_cases hj : j = i
      · subst hj; simp [hi, hi']
      · exact hothers j hj rfl
  | take hm _ =>
    subst hm
    simp [hi']
  | give hb _ =>
    rw [(h i).mpr hb]
    simp [hi]

/-- The list that `f` gives the thread that has the mutex. -/
def atHolder (m : Option τ) (f : τ → List α) : List α := m.elim [] f

@[simp] theorem atHolder_none (f : τ → List α) : atHolder none f = [] := rfl

@[simp] theorem atHolder_some (i : τ) (f : τ → List α) : atHolder (some i) f = f i := rfl

theorem OwnedBy.atHolder_turn {m m' : Option τ} {holds : τ → Bool} {i : τ} {after : Bool} {f f' : τ → List α}
    (h : OwnedBy m holds) (ht : Turn i m (holds i) after m') (hi : f i = []) (hi' : f' i = [])
    (hothers : ∀ j, j ≠ i → m = some j → f' j = f j) : atHolder m' f' = atHolder m f :=
  h.elim_turn ht hi hi' hothers

end RpiCam
