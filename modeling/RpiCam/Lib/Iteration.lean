import Mathlib.Data.List.Basic

/-!
# Iterations with a callback

A library calls back with one item after the other, and the callback says each time whether to go on.

* `iterate` : the state after an iteration;
* `iterate_keeps`, `iterate_takes` : a part of the state that no item changes, and one that a single item sets;
* `foldl_iterate_takes` : several iterations over one state.
-/

namespace RpiCam

variable {σ π β : Type}

/-- The state after an iteration over items. -/
def iterate (f : σ → π → σ × Bool) (s : σ) : List π → σ
  | [] => s
  | p :: ps => if (f s p).2 then iterate f (f s p).1 ps else (f s p).1

variable {f : σ → π → σ × Bool} (read : σ → β)

theorem iterate_keeps {ps : List π} (h : ∀ p ∈ ps, ∀ s, read (f s p).1 = read s) (s : σ) :
    read (iterate f s ps) = read s := by
  induction ps generalizing s with
  | nil => rfl
  | cons p ps ih =>
    rw [List.forall_mem_cons] at h
    rw [iterate]
    split_ifs
    · rw [ih h.2, h.1]
    · exact h.1 s

theorem iterate_append {pre : List π} (h : ∀ p ∈ pre, ∀ s, (f s p).2 = true) (s : σ) (ps : List π) :
    iterate f s (pre ++ ps) = iterate f (iterate f s pre) ps := by
  induction pre generalizing s with
  | nil => rfl
  | cons p pre ih =>
    rw [List.forall_mem_cons] at h
    rw [List.cons_append, iterate, iterate, if_pos (h.1 s), if_pos (h.1 s)]
    exact ih h.2 _

/-- An item that the iteration comes to, and after which no item changes what is read. -/
theorem iterate_takes {pre post : List π} {p : π} {v : β} (hgo : ∀ q ∈ pre, ∀ s, (f s q).2 = true)
    (hp : ∀ s, read (f s p).1 = v) (hpost : ∀ q ∈ post, ∀ s, read (f s q).1 = read s) (s : σ) :
    read (iterate f s (pre ++ p :: post)) = v := by
  rw [iterate_append hgo, iterate]
  split_ifs
  · rw [iterate_keeps read hpost, hp]
  · exact hp _

theorem foldl_iterate_keeps {parts : List (List π)} (h : ∀ ps ∈ parts, ∀ p ∈ ps, ∀ s, read (f s p).1 = read s) (s : σ) :
    read (parts.foldl (iterate f) s) = read s := by
  induction parts generalizing s with
  | nil => rfl
  | cons ps parts ih =>
    rw [List.forall_mem_cons] at h
    rw [List.foldl_cons, ih h.2, iterate_keeps read h.1]

theorem foldl_iterate_takes {parts parts' : List (List π)} {pre post : List π} {p : π} {v : β}
    (hgo : ∀ q ∈ pre, ∀ s, (f s q).2 = true) (hp : ∀ s, read (f s p).1 = v)
    (hpost : ∀ q ∈ post, ∀ s, read (f s q).1 = read s)
    (hparts' : ∀ ps ∈ parts', ∀ q ∈ ps, ∀ s, read (f s q).1 = read s) (s : σ) :
    read ((parts ++ (pre ++ p :: post) :: parts').foldl (iterate f) s) = v := by
  rw [List.foldl_append, List.foldl_cons, foldl_iterate_keeps read hparts', iterate_takes read hgo hp hpost]

end RpiCam
