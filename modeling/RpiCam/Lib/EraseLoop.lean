import Mathlib.Data.List.Basic

/-!
# A loop that erases from its vector

`for (auto it = v.begin(); it != v.end();)` with `it = v.erase(it)` for some elements and `++it` for the others. The
vector gets shorter under the iterator; `it` is a position in it.

* `LoopTurn` : how the body of the loop leaves an element;
* `eraseLoop` : the loop, `pass` : the body on each element of a list in turn;
* `eraseLoop_eq_pass` : the loop is one pass over the elements from the iterator on.
-/

namespace RpiCam

/-- The end of the body of a loop. -/
inductive LoopTurn (ε : Type)
  | erase
  | next
  | throw (e : ε)

/-- After a loop: the vector, the state of the surroundings, and what it threw. -/
structure Looped (α σ ε : Type) where
  vector : List α
  state : σ
  thrown : Option ε

variable {α σ ε : Type} (body : α → σ → LoopTurn ε × σ)

/-- The loop from the position `it` on. -/
def eraseLoop (v : List α) (it : Nat) (s : σ) : Looped α σ ε :=
  if h : it < v.length then
    match body v[it] s with
    | (.erase, s') => eraseLoop (v.eraseIdx it) it s'
    | (.next, s') => eraseLoop v (it + 1) s'
    | (.throw e, s') => ⟨v, s', some e⟩
  else ⟨v, s, none⟩
termination_by v.length - it
decreasing_by
  · rw [List.length_eraseIdx_of_lt h]
    omega
  · omega

/-- The body on each element; an exception leaves the rest as it is. -/
def pass : List α → σ → Looped α σ ε
  | [], s => ⟨[], s, none⟩
  | a :: rest, s =>
    match body a s with
    | (.erase, s') => pass rest s'
    | (.next, s') => { pass rest s' with vector := a :: (pass rest s').vector }
    | (.throw e, s') => ⟨a :: rest, s', some e⟩

/-- **No element is skipped after an erase**, and none is met twice: behind the elements that are kept, the loop is a pass
over the rest. -/
theorem eraseLoop_append (kept rest : List α) (s : σ) :
    eraseLoop body (kept ++ rest) kept.length s =
      { pass body rest s with vector := kept ++ (pass body rest s).vector } := by
  induction rest generalizing kept s with
  | nil =>
    rw [eraseLoop, dif_neg (by simp)]
    rfl
  | cons a rest ih =>
    have hlt : kept.length < (kept ++ a :: rest).length := by simp
    have hget : (kept ++ a :: rest)[kept.length] = a := by simp
    rw [eraseLoop, dif_pos hlt, hget, pass]
    cases hbody : body a s with
    | mk turn s' =>
      cases turn with
      | erase =>
        have herase : (kept ++ a :: rest).eraseIdx kept.length = kept ++ rest := by
          rw [List.eraseIdx_append_of_length_le (Nat.le_refl _), Nat.sub_self, List.eraseIdx_cons_zero]
        simp only [herase]
        exact ih kept s'
      | next =>
        have hnext := ih (kept ++ [a]) s'
        rw [List.length_append, List.length_singleton, List.append_assoc, List.singleton_append] at hnext
        simp only [hnext, List.append_assoc, List.singleton_append]
      | throw e => rfl

theorem eraseLoop_eq_pass (v : List α) (s : σ) : eraseLoop body v 0 s = pass body v s :=
  eraseLoop_append body [] v s

end RpiCam
