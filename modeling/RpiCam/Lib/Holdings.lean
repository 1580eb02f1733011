import RpiCam.Lib.Ledger
import RpiCam.Lib.UnorderedMap

/-!
# References that the entries of a map hold

Each entry of a map holds a reference, and `num` is its number. An entry that goes without a release takes its
reference with it.

* `Account l m num lost` : the references of the entries are due, those in `lost` were never released, and all others
  were released once;
* `Account.insert`, `Account.replace`, `Account.release`, `Account.lose` : what happens to an entry; `Account.drop` is
  one of the last two;
* `Account.balanced_iff` : where no entry is left, the ledger is balanced exactly if nothing was lost.
-/

namespace RpiCam

universe u v

open UnorderedMap (lookup_insert_eq_some lookup_erase_eq_some)

variable {κ : Type u} {β : Type v} [DecidableEq κ]

/-- The entries hold references of their own, and beside them only the lost ones are due. -/
structure Account (l : Ledger) (m : UnorderedMap κ β) (num : β → Nat) (lost : Nat → Prop) : Prop where
  settled : l.Settled fun a => (∃ k b, AList.lookup k m = some b ∧ num b = a) ∨ lost a
  own : ∀ k b k' b', AList.lookup k m = some b → AList.lookup k' m = some b' → num b = num b' → k = k'
  apart : ∀ k b, AList.lookup k m = some b → ¬ lost (num b)

namespace Account

variable {l : Ledger} {m : UnorderedMap κ β} {num : β → Nat} {lost : Nat → Prop} {k : κ} {b : β}

theorem empty (num : β → Nat) : Account .empty (∅ : UnorderedMap κ β) num fun _ => False := by
  refine ⟨Ledger.settled_empty.congr fun a => ?_, ?_, ?_⟩
  · simp
  · intro k b k' b' hk
    simp at hk
  · intro k b hk
    simp at hk

theorem known (h : Account l m num lost) (hk : AList.lookup k m = some b) : num b < l.created :=
  h.settled.known _ (Or.inl ⟨k, b, hk, rfl⟩)

theorem unmade (h : Account l m num lost) : Account (l.create.release l.created) m num lost :=
  ⟨Ledger.settled_unmade h.settled, h.own, h.apart⟩

theorem insert (h : Account l m num lost) (hk : AList.lookup k m = none) (hn : num b = l.created) :
    Account l.create (AList.insert k b m) num lost := by
  have hne : ∀ {k' b'}, AList.lookup k' m = some b' → k' ≠ k := by
    rintro k' b' hb rfl
    rw [hk] at hb
    cases hb
  refine ⟨(Ledger.settled_create h.settled).congr fun a => ?_, ?_, ?_⟩
  · simp only [lookup_insert_eq_some]
    constructor
    · rintro (⟨k', b', ⟨rfl, rfl⟩ | ⟨-, hb⟩, rfl⟩ | ha)
      · exact Or.inr hn
      · exact Or.inl (Or.inl ⟨k', b', hb, rfl⟩)
      · exact Or.inl (Or.inr ha)
    · rintro ((⟨k', b', hb, rfl⟩ | ha) | rfl)
      · exact Or.inl ⟨k', b', Or.inr ⟨hne hb, hb⟩, rfl⟩
      · exact Or.inr ha
      · exact Or.inl ⟨k, b, Or.inl ⟨rfl, rfl⟩, hn⟩
  · intro k₁ b₁ k₂ b₂ h₁ h₂ he
    rcases lookup_insert_eq_some.mp h₁ with ⟨hk₁, hb₁⟩ | ⟨-, hold₁⟩ <;>
      rcases lookup_insert_eq_some.mp h₂ with ⟨hk₂, hb₂⟩ | ⟨-, hold₂⟩
    · rw [hk₁, hk₂]
    · have := h.known hold₂
      rw [hb₁] at he
      omega
    · have := h.known hold₁
      rw [hb₂] at he
      omega
    · exact h.own k₁ b₁ k₂ b₂ hold₁ hold₂ he
  · intro k' b' hb hlost
    rcases lookup_insert_eq_some.mp hb with ⟨-, rfl⟩ | ⟨-, hold⟩
    · have := h.settled.known _ (Or.inr hlost)
      omega
    · exact h.apart k' b' hold hlost

theorem replace (h : Account l m num lost) (hk : AList.lookup k m = some b) {b₁ : β} (hn : num b₁ = num b) :
    Account l (AList.insert k b₁ m) num lost := by
  -- the entry before the change
  have hbefore : ∀ {k' b'}, AList.lookup k' (AList.insert k b₁ m) = some b' →
      ∃ c, AList.lookup k' m = some c ∧ num c = num b' := by
    intro k' b' hb
    rcases lookup_insert_eq_some.mp hb with ⟨rfl, rfl⟩ | ⟨-, hb⟩
    · exact ⟨b, hk, hn.symm⟩
    · exact ⟨b', hb, rfl⟩
  refine ⟨h.settled.congr fun a => or_congr_left ?_, ?_, ?_⟩
  · constructor
    · rintro ⟨k', b', hb, rfl⟩
      obtain ⟨c, hc, he⟩ := hbefore hb
      exact ⟨k', c, hc, he⟩
    · rintro ⟨k', b', hb, rfl⟩
      simp only [lookup_insert_eq_some]
      by_cases he : k' = k
      · subst he
        rw [hk, Option.some.injEq] at hb
        exact ⟨k', b₁, Or.inl ⟨rfl, rfl⟩, by rw [hn, hb]⟩
      · exact ⟨k', b', Or.inr ⟨he, hb⟩, rfl⟩
  · intro k₁ b₁ k₂ b₂ h₁ h₂ he
    obtain ⟨c₁, hc₁, hn₁⟩ := hbefore h₁
    obtain ⟨c₂, hc₂, hn₂⟩ := hbefore h₂
    exact h.own k₁ c₁ k₂ c₂ hc₁ hc₂ (by rw [hn₁, hn₂, he])
  · intro k' b' hb
    obtain ⟨c, hc, hn'⟩ := hbefore hb
    rw [← hn']
    exact h.apart k' c hc

/-- What is left when an entry goes. -/
theorem held_erase_iff (h : Account l m num lost) (hk : AList.lookup k m = some b) (a : Nat) :
    (∃ k' b', AList.lookup k' (AList.erase k m) = some b' ∧ num b' = a) ↔
      (∃ k' b', AList.lookup k' m = some b' ∧ num b' = a) ∧ a ≠ num b := by
  simp only [lookup_erase_eq_some]
  constructor
  · rintro ⟨k', b', ⟨hne, hb⟩, rfl⟩
    exact ⟨⟨k', b', hb, rfl⟩, fun hn => hne (h.own k' b' k b hb hk hn)⟩
  · rintro ⟨⟨k', b', hb, rfl⟩, hne⟩
    refine ⟨k', b', ⟨?_, hb⟩, rfl⟩
    rintro rfl
    rw [hk, Option.some.injEq] at hb
    exact hne (by rw [hb])

theorem own_erase (h : Account l m num lost) (k₁ : κ) (b₁ : β) (k₂ : κ) (b₂ : β)
    (h₁ : AList.lookup k₁ (AList.erase k m) = some b₁) (h₂ : AList.lookup k₂ (AList.erase k m) = some b₂) :
    num b₁ = num b₂ → k₁ = k₂ :=
  h.own k₁ b₁ k₂ b₂ (lookup_erase_eq_some.mp h₁).2 (lookup_erase_eq_some.mp h₂).2

theorem release (h : Account l m num lost) (hk : AList.lookup k m = some b) :
    Account (l.release (num b)) (AList.erase k m) num lost := by
  have hs := Ledger.settled_release h.settled (Or.inl ⟨k, b, hk, rfl⟩)
  refine ⟨hs.congr fun a => ?_, h.own_erase, ?_⟩
  · rw [h.held_erase_iff hk]
    constructor
    · rintro (⟨hheld, hne⟩ | hlost)
      · exact ⟨Or.inl hheld, hne⟩
      · refine ⟨Or.inr hlost, ?_⟩
        rintro rfl
        exact h.apart k b hk hlost
    · rintro ⟨hheld | hlost, hne⟩
      · exact Or.inl ⟨hheld, hne⟩
      · exact Or.inr hlost
  · intro k' b' hb
    exact h.apart k' b' (lookup_erase_eq_some.mp hb).2

theorem lose (h : Account l m num lost) (hk : AList.lookup k m = some b) :
    Account l (AList.erase k m) num fun a => lost a ∨ a = num b := by
  refine ⟨h.settled.congr fun a => ?_, h.own_erase, ?_⟩
  · rw [h.held_erase_iff hk]
    constructor
    · rintro (⟨hheld, -⟩ | hlost | rfl)
      · exact Or.inl hheld
      · exact Or.inr hlost
      · exact Or.inl ⟨k, b, hk, rfl⟩
    · rintro (hheld | hlost)
      · by_cases he : a = num b
        · exact Or.inr (Or.inr he)
        · exact Or.inl ⟨hheld, he⟩
      · exact Or.inr (Or.inl hlost)
  · rintro k' b' hb (hlost | hn)
    · exact h.apart k' b' (lookup_erase_eq_some.mp hb).2 hlost
    · obtain ⟨hne, hold⟩ := lookup_erase_eq_some.mp hb
      exact hne (h.own k' b' k b hold hk hn)

/-- An entry that goes, and `q` says whether its reference is released. -/
theorem drop (h : Account l m num lost) (hk : AList.lookup k m = some b) (q : Prop) [Decidable q] :
    ∃ lost', Account (if q then l.release (num b) else l) (AList.erase k m) num lost' ∧
      ((∀ a, ¬ lost' a) ↔ (∀ a, ¬ lost a) ∧ q) := by
  split_ifs with hq
  · exact ⟨lost, h.release hk, (and_iff_left hq).symm⟩
  · refine ⟨_, h.lose hk, iff_of_false ?_ fun hall => hq hall.2⟩
    intro hall
    exact hall (num b) (Or.inr rfl)

/-- **Where no entry is left**, the ledger is balanced exactly if nothing was lost. -/
theorem balanced_iff (h : Account l m num lost) (he : m.keys = []) : l.Balanced ↔ ∀ a, ¬ lost a := by
  have hnone : ∀ k, AList.lookup k m = none := by
    intro k
    rw [AList.lookup_eq_none, AList.mem_keys, he]
    exact List.not_mem_nil
  rw [h.settled.balanced_iff]
  refine forall_congr' fun a => not_congr ?_
  simp [hnone]

end Account

end RpiCam
