import Mathlib.Data.List.Perm.Basic
import Mathlib.Data.List.Nodup

/-!
# Each resource in one place

Resources are numbered as they are allocated. `Census held n` says that each of the first `n` is at exactly one place,
once, and that nothing else is anywhere. A step that allocates a resource at a place, or moves one from a place to
another, keeps it (`Transfer`, `Census.transfer`).
-/

namespace RpiCam

variable {π : Type}

/-- Each of the first `n` resources is at one place. -/
structure Census (held : π → List Nat) (n : Nat) : Prop where
  nodup : ∀ p, (held p).Nodup
  unique : ∀ p p' a, a ∈ held p → a ∈ held p' → p = p'
  known : ∀ a, a < n ↔ ∃ p, a ∈ held p

/-- What a step does to the places. -/
inductive Transfer (held : π → List Nat) (n : Nat) (held' : π → List Nat) (n' : Nat) : Prop
  | same : n' = n → (∀ p, held' p = held p) → Transfer held n held' n'
  | alloc (p : π) : n' = n + 1 → (held' p).Perm (n :: held p) → (∀ x, x ≠ p → held' x = held x) →
      Transfer held n held' n'
  | move (p p' : π) (a : Nat) : p ≠ p' → n' = n → (held p).Perm (a :: held' p) → (held' p').Perm (a :: held p') →
      (∀ x, x ≠ p → x ≠ p' → held' x = held x) → Transfer held n held' n'

theorem Census.alloc {held held' : π → List Nat} {n : Nat} (h : Census held n) {p : π}
    (hp : (held' p).Perm (n :: held p)) (hx : ∀ x, x ≠ p → held' x = held x) : Census held' (n + 1) := by
  have hfresh : ∀ x, n ∉ held x := fun x hn => Nat.lt_irrefl n ((h.known n).mpr ⟨x, hn⟩)
  -- what is at a place now was there before, or it is the new resource at `p`
  have hmem : ∀ x a, a ∈ held' x ↔ a ∈ held x ∨ (x = p ∧ a = n) := by
    intro x a
    by_cases hxp : x = p
    · subst hxp
      rw [hp.mem_iff, List.mem_cons]
      tauto
    · rw [hx x hxp]
      simp [hxp]
  refine ⟨fun x => ?_, fun x x' a ha ha' => ?_, fun a => ?_⟩
  · by_cases hxp : x = p
    · subst hxp
      exact hp.nodup_iff.mpr (List.nodup_cons.mpr ⟨hfresh x, h.nodup x⟩)
    · rw [hx x hxp]
      exact h.nodup x
  · rcases (hmem x a).mp ha with h1 | ⟨rfl, rfl⟩ <;> rcases (hmem x' a).mp ha' with h2 | ⟨h2, h3⟩
    · exact h.unique x x' a h1 h2
    · exact absurd h1 (h3 ▸ hfresh x)
    · exact absurd h2 (hfresh x')
    · exact h2.symm
  · simp only [hmem, exists_or]
    rw [← h.known a]
    simp only [exists_eq_left]
    omega

theorem Census.move {held held' : π → List Nat} {n : Nat} (h : Census held n) {p p' : π} {a : Nat} (hne : p ≠ p')
    (hp : (held p).Perm (a :: held' p)) (hp' : (held' p').Perm (a :: held p'))
    (hx : ∀ x, x ≠ p → x ≠ p' → held' x = held x) : Census held' n := by
  have hnd := hp.nodup_iff.mp (h.nodup p)
  have ha : a ∈ held p := hp.mem_iff.mpr (List.mem_cons_self ..)
  have hmem : ∀ x c, c ∈ held' x ↔ (c ∈ held x ∧ c ≠ a) ∨ (x = p' ∧ c = a) := by
    intro x c
    by_cases hxp : x = p
    · subst hxp
      rw [hp.mem_iff, List.mem_cons]
      constructor
      · intro hc
        exact Or.inl ⟨Or.inr hc, fun he => (List.nodup_cons.mp hnd).1 (he ▸ hc)⟩
      · rintro (⟨hc | hc, hca⟩ | ⟨hx', -⟩)
        · exact absurd hc hca
        · exact hc
        · exact absurd hx' hne
    · by_cases hxp' : x = p'
      · subst hxp'
        rw [hp'.mem_iff, List.mem_cons]
        have : a ∉ held x := fun hc => hne (h.unique p x a ha hc)
        by_cases hca : c = a
        · simp [hca]
        · simp [hca]
      · rw [hx x hxp hxp']
        have : a ∉ held x := fun hc => hxp (h.unique x p a hc ha)
        constructor
        · exact fun hc => Or.inl ⟨hc, fun he => this (he ▸ hc)⟩
        · rintro (⟨hc, -⟩ | ⟨hx', -⟩)
          · exact hc
          · exact absurd hx' hxp'
  refine ⟨fun x => ?_, fun x x' c hc hc' => ?_, fun c => ?_⟩
  · by_cases hxp : x = p
    · subst hxp
      exact (List.nodup_cons.mp hnd).2
    · by_cases hxp' : x = p'
      · subst hxp'
        exact hp'.nodup_iff.mpr (List.nodup_cons.mpr ⟨fun hc => hne (h.unique p x a ha hc), h.nodup x⟩)
      · rw [hx x hxp hxp']
        exact h.nodup x
  · rcases (hmem x c).mp hc with ⟨h1, h1'⟩ | ⟨rfl, rfl⟩ <;> rcases (hmem x' c).mp hc' with ⟨h2, h2'⟩ | ⟨h2, h3⟩
    · exact h.unique x x' c h1 h2
    · exact absurd h3 h1'
    · exact absurd rfl h2'
    · exact h2.symm
  · rw [h.known c]
    constructor
    · rintro ⟨x, hc⟩
      by_cases hca : c = a
      · exact ⟨p', (hmem p' c).mpr (Or.inr ⟨rfl, hca⟩)⟩
      · exact ⟨x, (hmem x c).mpr (Or.inl ⟨hc, hca⟩)⟩
    · rintro ⟨x, hc⟩
      rcases (hmem x c).mp hc with ⟨hc, -⟩ | ⟨-, rfl⟩
      · exact ⟨x, hc⟩
      · exact ⟨p, ha⟩

/-- **A step that transfers one resource keeps the census.** -/
theorem Census.transfer {held held' : π → List Nat} {n n' : Nat} (h : Census held n)
    (ht : Transfer held n held' n') : Census held' n' := by
  cases ht with
  | same hn hs =>
    have : held' = held := funext hs
    rw [this, hn]
    exact h
  | alloc p hn hp hx =>
    rw [hn]
    exact h.alloc hp hx
  | move p p' a hne hn hp hp' hx =>
    rw [hn]
    exact h.move hne hp hp' hx

/-- Where a resource is at another place, not all are at this one. -/
theorem Census.length_lt {held : π → List Nat} {n : Nat} (h : Census held n) {p p' : π} (hp : p' ≠ p) {a : Nat}
    (ha : a ∈ held p') : (held p).length < n := by
  have hnotMem : a ∉ held p := fun hmem => hp (h.unique p' p a ha hmem)
  have hnodup : (a :: held p).Nodup := List.nodup_cons.mpr ⟨hnotMem, h.nodup p⟩
  have hrange : a :: held p ⊆ List.range n := by
    intro b hb
    rw [List.mem_range, h.known b]
    rcases List.mem_cons.mp hb with rfl | hb
    · exact ⟨p', ha⟩
    · exact ⟨p, hb⟩
  have hlength := (List.subperm_of_subset hnodup hrange).length_le
  rw [List.length_range, List.length_cons] at hlength
  exact hlength

end RpiCam
