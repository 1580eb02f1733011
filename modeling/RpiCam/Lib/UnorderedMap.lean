import Mathlib.Data.List.AList

/-!
# `std::unordered_map`

An `UnorderedMap` is an association list without repeated keys. `find` is `AList.lookup`, `erase` is `AList.erase`;
`emplace` keeps the entry that is there, and `subscript` (`operator[]`) adds one where there is none. An iteration
visits the entries in an order the program cannot rely on: `IterationOrder m l` holds for every such order `l`.
-/

namespace RpiCam

universe u v

abbrev UnorderedMap (κ : Type u) (β : Type v) := AList (fun _ : κ => β)

namespace UnorderedMap

variable {κ : Type u} {β : Type v} [DecidableEq κ]

def emplace (m : UnorderedMap κ β) (k : κ) (b : β) : UnorderedMap κ β :=
  if (AList.lookup k m).isSome then m else AList.insert k b m

/-- `m[k]`: the map after it, and the value. An absent key is inserted with the default value. -/
def subscript [Inhabited β] (m : UnorderedMap κ β) (k : κ) : UnorderedMap κ β × β :=
  match AList.lookup k m with
  | some b => (m, b)
  | none => (AList.insert k default m, default)

def toPairs (m : UnorderedMap κ β) : List (κ × β) := m.entries.map fun e => (e.1, e.2)

/-- `l` lists every entry of `m` once, in some order. -/
def IterationOrder (m : UnorderedMap κ β) (l : List (κ × β)) : Prop := l.Perm (toPairs m)

instance [DecidableEq β] (m : UnorderedMap κ β) (l : List (κ × β)) : Decidable (IterationOrder m l) :=
  inferInstanceAs (Decidable (l.Perm (toPairs m)))

theorem lookup_emplace (m : UnorderedMap κ β) (k k' : κ) (b : β) :
    AList.lookup k' (emplace m k b) =
      if k' = k ∧ AList.lookup k m = none then some b else AList.lookup k' m := by
  unfold emplace
  cases h : AList.lookup k m with
  | some c => simp
  | none =>
    by_cases hk : k' = k
    · subst hk; simp
    · simp [hk, AList.lookup_insert_ne hk]

/-- `operator[]` leaves the map alone exactly where the key is there. -/
theorem subscript_fst_eq_iff [Inhabited β] (m : UnorderedMap κ β) (k : κ) : (subscript m k).1 = m ↔ k ∈ m := by
  rw [← AList.lookup_isSome]
  unfold subscript
  cases h : AList.lookup k m with
  | some b => simp
  | none =>
    simp only [Option.isSome_none, Bool.false_eq_true, iff_false]
    intro he
    have hk : AList.lookup k (AList.insert k default m) = some default := AList.lookup_insert ..
    rw [he, h] at hk
    cases hk

theorem subscript_of_mem [Inhabited β] {m : UnorderedMap κ β} {k : κ} (h : k ∈ m) :
    subscript m k = (m, (AList.lookup k m).getD default) := by
  rw [← AList.lookup_isSome] at h
  unfold subscript
  cases hk : AList.lookup k m with
  | some b => rfl
  | none =>
    rw [hk] at h
    cases h

theorem getD_lookup_subscript [Inhabited β] (m : UnorderedMap κ β) (k k' : κ) :
    (AList.lookup k' (subscript m k).1).getD default = (AList.lookup k' m).getD default := by
  unfold subscript
  cases h : AList.lookup k m with
  | some b => rfl
  | none =>
    by_cases hk : k' = k
    · subst hk
      dsimp only
      rw [AList.lookup_insert, h]
      rfl
    · dsimp only
      rw [AList.lookup_insert_ne hk]

theorem subscript_snd [Inhabited β] (m : UnorderedMap κ β) (k : κ) :
    (subscript m k).2 = (AList.lookup k m).getD default := by
  unfold subscript
  cases AList.lookup k m with
  | some b => rfl
  | none => rfl

theorem mem_subscript [Inhabited β] {m : UnorderedMap κ β} {k k' : κ} (h : k' ∈ m) : k' ∈ (subscript m k).1 := by
  unfold subscript
  cases AList.lookup k m with
  | some b => exact h
  | none => exact (AList.mem_insert m).mpr (Or.inr h)

theorem mem_of_lookup {m : UnorderedMap κ β} {k : κ} {b : β} (h : AList.lookup k m = some b) : k ∈ m :=
  AList.lookup_isSome.mp (by rw [h]; rfl)

theorem mem_emplace (m : UnorderedMap κ β) (k k' : κ) (b : β) : k' ∈ emplace m k b ↔ k' = k ∨ k' ∈ m := by
  rw [← AList.lookup_isSome, ← AList.lookup_isSome, lookup_emplace]
  by_cases hk : k' = k
  · subst hk
    cases AList.lookup k' m <;> simp
  · simp [hk]

theorem lookup_erase' (m : UnorderedMap κ β) (k k' : κ) :
    AList.lookup k' (AList.erase k m) = if k' = k then none else AList.lookup k' m := by
  by_cases hk : k' = k
  · subst hk; simp
  · simp [hk, AList.lookup_erase_ne hk]

theorem lookup_insert_eq_some {m : UnorderedMap κ β} {k k' : κ} {b b' : β} :
    AList.lookup k' (AList.insert k b m) = some b' ↔ (k' = k ∧ b' = b) ∨ (k' ≠ k ∧ AList.lookup k' m = some b') := by
  by_cases hk : k' = k
  · subst hk
    rw [AList.lookup_insert, Option.some.injEq, or_iff_left fun h => h.1 rfl]
    exact ⟨fun h => ⟨rfl, h.symm⟩, fun h => h.2.symm⟩
  · rw [AList.lookup_insert_ne hk, or_iff_right fun h => hk h.1]
    exact (and_iff_right hk).symm

theorem lookup_erase_eq_some {m : UnorderedMap κ β} {k k' : κ} {b' : β} :
    AList.lookup k' (AList.erase k m) = some b' ↔ k' ≠ k ∧ AList.lookup k' m = some b' := by
  rw [lookup_erase']
  split_ifs with hk
  · exact iff_of_false nofun fun h => h.1 hk
  · exact (and_iff_right hk).symm

theorem forall_insert {P : β → Prop} {m : UnorderedMap κ β} (h : ∀ k b, AList.lookup k m = some b → P b) {k k' : κ}
    {b b' : β} (hb : P b) (hl : AList.lookup k' (AList.insert k b m) = some b') : P b' := by
  rcases lookup_insert_eq_some.mp hl with ⟨-, rfl⟩ | ⟨-, hl⟩
  · exact hb
  · exact h k' b' hl

theorem erase_of_lookup_eq_none {m : UnorderedMap κ β} {k : κ} (h : AList.lookup k m = none) :
    AList.erase k m = m := by
  apply AList.ext
  exact List.kerase_of_notMem_keys (AList.mem_keys.not.mp (AList.lookup_eq_none.mp h))

theorem mem_toPairs (m : UnorderedMap κ β) (k : κ) (b : β) :
    (k, b) ∈ toPairs m ↔ AList.lookup k m = some b := by
  have h := AList.mem_lookup_iff (a := k) (b := b) (s := m)
  simp only [Option.mem_def] at h
  rw [h, toPairs, List.mem_map]
  constructor
  · rintro ⟨⟨k', b'⟩, hm, he⟩
    cases he; exact hm
  · intro hm
    exact ⟨⟨k, b⟩, hm, rfl⟩

omit [DecidableEq κ] in
theorem nodup_toPairs_keys (m : UnorderedMap κ β) : ((toPairs m).map Prod.fst).Nodup := by
  have h : (toPairs m).map Prod.fst = m.keys := by
    rw [toPairs, List.map_map]; rfl
  rw [h]
  exact m.keys_nodup

theorem IterationOrder.mem {m : UnorderedMap κ β} {l : List (κ × β)} (h : IterationOrder m l) (k : κ) (b : β) :
    (k, b) ∈ l ↔ AList.lookup k m = some b :=
  h.mem_iff.trans (mem_toPairs m k b)

omit [DecidableEq κ] in
theorem IterationOrder.nodup {m : UnorderedMap κ β} {l : List (κ × β)} (h : IterationOrder m l) :
    (l.map Prod.fst).Nodup :=
  (h.map Prod.fst).nodup_iff.mpr (nodup_toPairs_keys m)

end UnorderedMap

end RpiCam
