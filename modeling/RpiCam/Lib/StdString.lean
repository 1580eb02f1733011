import Mathlib.Data.List.Infix

/-!
# `std::string::find` and `substr`

`find s t pos` is the position of `t` in `s` from `pos` on, and `none` for `npos`. `substr s pos` is the rest of `s` from
`pos` on, and `none` where it throws `out_of_range`.

* `indexOf_append`, `find_append` : a text is found where its first character first stands;
* `indexOf_eq_some_iff` : the first place of a text;
* `find_char_eq_none_iff` : one character;
* `substr_of_find` : a place that was found is no place where `substr` throws.
-/

namespace RpiCam

def indexOf (t : List Char) : List Char → Option Nat
  | [] => if t = [] then some 0 else none
  | c :: s => if t.isPrefixOf (c :: s) then some 0 else (indexOf t s).map (· + 1)

def find (s t : List Char) (pos : Nat) : Option Nat :=
  if pos ≤ s.length then (indexOf t (s.drop pos)).map (· + pos) else none

def substr (s : List Char) (pos : Nat) : Option (List Char) := if pos ≤ s.length then some (s.drop pos) else none

theorem indexOf_append {c : Char} {pre : List Char} (h : c ∉ pre) (t post : List Char) :
    indexOf (c :: t) (pre ++ (c :: t ++ post)) = some pre.length := by
  induction pre with
  | nil =>
    have hstart : (c :: t).isPrefixOf (c :: (t ++ post)) = true :=
      List.isPrefixOf_iff_prefix.mpr (List.prefix_append (c :: t) post)
    rw [List.nil_append, List.cons_append, indexOf, if_pos hstart]
    rfl
  | cons x pre ih =>
    have hx : ¬ (c :: t).isPrefixOf (x :: (pre ++ (c :: t ++ post))) = true := by
      rw [List.isPrefixOf_iff_prefix, List.cons_prefix_cons]
      exact fun hp => h (hp.1 ▸ List.mem_cons_self ..)
    rw [List.cons_append, indexOf, if_neg hx, ih fun hc => h (List.mem_cons_of_mem _ hc)]
    rfl

theorem indexOf_eq_some_iff {t s : List Char} {k : Nat} :
    indexOf t s = some k ↔ k ≤ s.length ∧ t <+: s.drop k ∧ ∀ j < k, ¬ t <+: s.drop j := by
  induction s generalizing k with
  | nil =>
    unfold indexOf
    split_ifs with ht
    · subst ht
      constructor
      · intro hk
        cases hk
        exact ⟨Nat.le_refl _, List.prefix_refl _, fun j hj => absurd hj (Nat.not_lt_zero j)⟩
      · rintro ⟨hk, -, -⟩
        rw [Nat.le_zero.mp hk]
    · constructor
      · intro hk
        cases hk
      · rintro ⟨-, hp, -⟩
        rw [List.drop_nil, List.prefix_nil] at hp
        exact absurd hp ht
  | cons c s ih =>
    unfold indexOf
    by_cases hp : t <+: c :: s
    · rw [if_pos (List.isPrefixOf_iff_prefix.mpr hp)]
      constructor
      · intro hk
        cases hk
        exact ⟨Nat.zero_le _, hp, fun j hj => absurd hj (Nat.not_lt_zero j)⟩
      · rintro ⟨-, -, hfirst⟩
        have hk : k = 0 := by
          by_contra hk
          exact hfirst 0 (Nat.pos_of_ne_zero hk) hp
        rw [hk]
    · rw [if_neg (by rwa [List.isPrefixOf_iff_prefix]), Option.map_eq_some_iff]
      constructor
      · rintro ⟨i, hi, rfl⟩
        obtain ⟨hle, hat, hfirst⟩ := ih.mp hi
        refine ⟨Nat.succ_le_succ hle, hat, fun j hj => ?_⟩
        cases j with
        | zero => exact hp
        | succ j => exact hfirst j (Nat.lt_of_succ_lt_succ hj)
      · rintro ⟨hle, hat, hfirst⟩
        cases k with
        | zero => exact absurd hat hp
        | succ k =>
          exact ⟨k, ih.mpr ⟨Nat.le_of_succ_le_succ hle, hat, fun j hj => hfirst (j + 1) (Nat.succ_lt_succ hj)⟩, rfl⟩

theorem find_append {c : Char} {mid : List Char} (h : c ∉ mid) (pre t post : List Char) :
    find (pre ++ (mid ++ (c :: t ++ post))) (c :: t) pre.length = some (pre.length + mid.length) := by
  rw [find, if_pos (by simp), List.drop_left, indexOf_append h, Option.map_some, Nat.add_comm]

theorem find_char_eq_none_iff {s : List Char} {c : Char} {pos : Nat} : find s [c] pos = none ↔ c ∉ s.drop pos := by
  by_cases hpos : pos ≤ s.length
  · rw [find, if_pos hpos, Option.map_eq_none_iff]
    constructor
    · intro hnone hc
      obtain ⟨pre, post, hs, hpre⟩ := List.eq_append_cons_of_mem hc
      rw [hs] at hnone
      have hsome := indexOf_append hpre [] post
      rw [List.singleton_append, hnone] at hsome
      cases hsome
    · intro hc
      by_contra hsome
      obtain ⟨k, hk⟩ := Option.ne_none_iff_exists'.mp hsome
      obtain ⟨-, hp, -⟩ := indexOf_eq_some_iff.mp hk
      exact hc (List.mem_of_mem_drop (hp.subset (List.mem_singleton_self c)))
  · rw [find, if_neg hpos, List.drop_eq_nil_of_le (by omega)]
    simp

/-- `substr` never throws at a place that `find` gives. -/
theorem substr_of_find {s t : List Char} {pos k : Nat} (h : find s t pos = some k) : substr s k = some (s.drop k) := by
  unfold find at h
  split_ifs at h with hpos
  obtain ⟨i, hi, rfl⟩ := Option.map_eq_some_iff.mp h
  obtain ⟨hle, -, -⟩ := indexOf_eq_some_iff.mp hi
  rw [List.length_drop] at hle
  exact if_pos (by omega)

theorem isPrefix_of_find {s t : List Char} {pos k : Nat} (h : find s t pos = some k) : t <+: s.drop k := by
  unfold find at h
  split_ifs at h with hpos
  obtain ⟨i, hi, rfl⟩ := Option.map_eq_some_iff.mp h
  obtain ⟨-, hprefix, -⟩ := indexOf_eq_some_iff.mp hi
  rw [List.drop_drop, Nat.add_comm] at hprefix
  exact hprefix

end RpiCam
