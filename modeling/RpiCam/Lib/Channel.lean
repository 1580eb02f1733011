/-!
# A first-in first-out channel

A `Channel` has what was taken from it, what is queued, what is announced and not yet queued, and all that was
announced (`due`). Its steps announce, queue and take one item at a time. `Exact` is the whole specification: what was
taken, queued and announced is, in this order, what is due; every step keeps it.
-/

namespace RpiCam

variable {α : Type}

structure Channel (α : Type) where
  taken : List α
  queued : List α
  pending : List α
  due : List α

namespace Channel

/-- Nothing is lost, repeated or out of order. -/
def Exact (c : Channel α) : Prop := c.taken ++ c.queued ++ c.pending = c.due

inductive Step : Channel α → Channel α → Prop
  | stay (c : Channel α) : Step c c
  | announce (t q d : List α) (x : α) : Step ⟨t, q, [], d⟩ ⟨t, q, [x], d ++ [x]⟩
  | queue (t q d : List α) (x : α) : Step ⟨t, q, [x], d⟩ ⟨t, q ++ [x], [], d⟩
  | take (t q p d : List α) (x : α) : Step ⟨t, x :: q, p, d⟩ ⟨t ++ [x], q, p, d⟩

theorem Step.exact {c c' : Channel α} (h : Step c c') (hc : c.Exact) : c'.Exact := by
  cases h with
  | stay => exact hc
  | announce t q d x =>
    simp only [Exact, List.append_nil] at hc ⊢
    rw [hc]
  | queue t q d x => simpa [Exact] using hc
  | take t q p d x => simpa [Exact] using hc

end Channel

end RpiCam
