import Mathlib.Data.List.Infix

/-!
# Words

The words of a list are its longest parts without a separator.

* `words p s` : the words of `s`, where `p` tells the separators;
* `of_mem_words` : a word is not empty, has no separator, and is made of what is in the list;
* `words_append_cons`, `words_append_word` : around a separator.
-/

namespace RpiCam

variable {α : Type*} {p : α → Bool} {s t w : List α} {a : α}

/-- The parts between the separators, but for the empty ones. -/
def words (p : α → Bool) (s : List α) : List (List α) := (s.splitOnP p).filter fun w => !w.isEmpty

theorem of_mem_splitOnP (hw : w ∈ s.splitOnP p) : ∀ a ∈ w, p a = false ∧ a ∈ s := by
  induction s generalizing w with
  | nil =>
    intro a ha
    rw [List.splitOnP_nil, List.mem_singleton] at hw
    rw [hw] at ha
    cases ha
  | cons x s ih =>
    intro a ha
    rw [List.splitOnP_cons_eq_if_modifyHead] at hw
    split_ifs at hw with hx
    · rcases List.mem_cons.mp hw with rfl | hw
      · cases ha
      · exact (ih hw a ha).imp_right (List.mem_cons_of_mem x)
    · obtain ⟨v, vs, hv⟩ := List.exists_cons_of_ne_nil (List.splitOnP_ne_nil p s)
      rw [hv, List.modifyHead_cons] at hw
      rcases List.mem_cons.mp hw with rfl | hw
      · rcases List.mem_cons.mp ha with rfl | ha
        · exact ⟨Bool.eq_false_iff.mpr hx, List.mem_cons_self ..⟩
        · exact (ih (hv ▸ List.mem_cons_self ..) a ha).imp_right (List.mem_cons_of_mem x)
      · exact (ih (hv ▸ List.mem_cons_of_mem v hw) a ha).imp_right (List.mem_cons_of_mem x)

theorem of_mem_words (hw : w ∈ words p s) : w ≠ [] ∧ ∀ a ∈ w, p a = false ∧ a ∈ s := by
  obtain ⟨hmem, hne⟩ := List.mem_filter.mp hw
  refine ⟨?_, of_mem_splitOnP hmem⟩
  rintro rfl
  cases hne

theorem words_append_cons (ha : p a = true) (s t : List α) : words p (s ++ a :: t) = words p s ++ words p t := by
  unfold words
  rw [List.splitOnP_append_cons s t ha, List.filter_append]

theorem words_of_word (hne : w ≠ []) (hw : ∀ a ∈ w, p a = false) : words p w = [w] := by
  unfold words
  rw [List.splitOnP_eq_singleton hw]
  simp [hne]

theorem words_append_word (ha : p a = true) (hne : w ≠ []) (hw : ∀ a ∈ w, p a = false) (t : List α) :
    words p (w ++ a :: t) = w :: words p t := by
  rw [words_append_cons ha, words_of_word hne hw]
  rfl

end RpiCam
