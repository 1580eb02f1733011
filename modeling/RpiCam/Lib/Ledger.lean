import Mathlib.Data.List.Count

/-!
# References that are given back

Resources are numbered as they are created, each with one reference. A `Ledger` counts them and lists the references that
were released, in order, so that a second release of one reference shows.

* `Settled held` : the references in `held` are still to be released, all others were released once;
* `settled_create`, `settled_release`, `settled_unmade` : the two entries, and both at once, keep the account;
* `balanced_iff` : every reference was released exactly once where nothing is held;
* `Overdrawn` : some reference was released twice; both entries keep that, too.
-/

namespace RpiCam

structure Ledger where
  created : Nat
  released : List Nat

namespace Ledger

def empty : Ledger := ⟨0, []⟩

/-- A new resource: its number is `l.created`. -/
def create (l : Ledger) : Ledger := { l with created := l.created + 1 }

def release (l : Ledger) (a : Nat) : Ledger := { l with released := a :: l.released }

/-- Each resource was released exactly once. -/
def Balanced (l : Ledger) : Prop := ∀ a, a < l.created → l.released.count a = 1

instance (l : Ledger) : Decidable l.Balanced :=
  inferInstanceAs (Decidable (∀ a, a < l.created → l.released.count a = 1))

/-- What is held was not released, and the rest was released once. -/
structure Settled (l : Ledger) (held : Nat → Prop) : Prop where
  known : ∀ a, held a → a < l.created
  due : ∀ a, held a → l.released.count a = 0
  once : ∀ a, a < l.created → ¬ held a → l.released.count a = 1
  beyond : ∀ a, l.created ≤ a → l.released.count a = 0

variable {l : Ledger} {held : Nat → Prop}

theorem settled_empty : empty.Settled fun _ => False :=
  ⟨nofun, nofun, nofun, fun _ _ => rfl⟩

theorem settled_create (h : l.Settled held) : l.create.Settled fun a => held a ∨ a = l.created := by
  refine ⟨?_, ?_, ?_, ?_⟩
  · rintro a (ha | rfl)
    · exact Nat.lt_succ_of_lt (h.known a ha)
    · exact Nat.lt_succ_self _
  · rintro a (ha | rfl)
    · exact h.due a ha
    · exact h.beyond _ (Nat.le_refl _)
  · intro a ha hn
    rw [not_or] at hn
    have hlt : a < l.created := Nat.lt_of_le_of_ne (Nat.le_of_lt_succ ha) hn.2
    exact h.once a hlt hn.1
  · intro a ha
    exact h.beyond a (Nat.le_of_succ_le ha)

theorem count_release (l : Ledger) (a b : Nat) :
    (l.release a).released.count b = l.released.count b + if a = b then 1 else 0 := by
  unfold release
  simp [List.count_cons]

theorem settled_release (h : l.Settled held) {a : Nat} (ha : held a) :
    (l.release a).Settled fun b => held b ∧ b ≠ a := by
  refine ⟨?_, ?_, ?_, ?_⟩
  · intro b hb
    exact h.known b hb.1
  · intro b hb
    rw [count_release, if_neg (Ne.symm hb.2), h.due b hb.1]
  · intro b hb hn
    rw [count_release]
    by_cases hab : a = b
    · subst hab
      rw [if_pos rfl, h.due a ha]
    · rw [if_neg hab, h.once b hb fun hheld => hn ⟨hheld, Ne.symm hab⟩]
  · intro b hb
    have hlt : a < l.created := h.known a ha
    have hab : a ≠ b := by
      intro he
      subst he
      exact absurd hlt (Nat.not_lt.mpr hb)
    rw [count_release, if_neg hab, h.beyond b hb]

theorem Settled.congr {held' : Nat → Prop} (h : l.Settled held) (he : ∀ a, held' a ↔ held a) : l.Settled held' := by
  have : held' = held := funext fun a => propext (he a)
  rw [this]
  exact h

theorem settled_unmade (h : l.Settled held) : (l.create.release l.created).Settled held := by
  have hs := settled_release (settled_create h) (Or.inr rfl)
  refine hs.congr fun a => ?_
  constructor
  · intro ha
    exact ⟨Or.inl ha, Nat.ne_of_lt (h.known a ha)⟩
  · rintro ⟨ha, hne⟩
    exact ha.resolve_right hne

/-- **Balanced where nothing is held.** -/
theorem Settled.balanced_iff (h : l.Settled held) : l.Balanced ↔ ∀ a, ¬ held a := by
  constructor
  · intro hb a ha
    have h1 := hb a (h.known a ha)
    rw [h.due a ha] at h1
    omega
  · intro hn a ha
    exact h.once a ha (hn a)

/-- A reference was released twice. -/
def Overdrawn (l : Ledger) : Prop := ∃ a, a < l.created ∧ 2 ≤ l.released.count a

theorem Overdrawn.not_balanced (h : l.Overdrawn) : ¬ l.Balanced := by
  obtain ⟨a, ha, hc⟩ := h
  intro hb
  have := hb a ha
  omega

theorem Overdrawn.create (h : l.Overdrawn) : l.create.Overdrawn := by
  obtain ⟨a, ha, hc⟩ := h
  exact ⟨a, Nat.lt_succ_of_lt ha, hc⟩

theorem Overdrawn.release (h : l.Overdrawn) (b : Nat) : (l.release b).Overdrawn := by
  obtain ⟨a, ha, hc⟩ := h
  refine ⟨a, ha, ?_⟩
  rw [count_release]
  omega

theorem overdrawn_release_release {a : Nat} (ha : a < l.created) : ((l.release a).release a).Overdrawn := by
  refine ⟨a, ha, ?_⟩
  rw [count_release, count_release, if_pos rfl]
  omega

end Ledger

end RpiCam
