import RpiCam.Lib.FileTree

/-!
# What the calls on a directory change

* `Concerned fs cwd s q` : `q` is an entry that removing and making the directory `s` may change;
* `removeAll_entry`, `removeAll_clears`, `createDirectory_free` : `remove_all` and `create_directory` change these only;
* `concerned_changes` : and each of them, where nothing is refused;
* `contents fs cwd s` : what is in the directory `s`;
* `directories`, `removeAll_directories` : trees in which every path has something to remove.
-/

namespace RpiCam.FileSystem

/-- The entries below the directory `s` leads to, where it is not the last entry of `s`; else the last entry of `s` with
what is below it, if that is a directory, or the free place. -/
def Concerned (fs : FileSystem) (cwd : Path) (s : List Char) (q : Path) : Prop :=
  ∃ p last, fs.locate cwd s = some (p, last) ∧
    if fs.indirect p last (endsInSlash s) = true then
      ∃ t, fs.walkDir cwd (components s) = some t ∧ t <+: q ∧ q ≠ t ∧ fs.entry q ≠ none
    else p ++ [last] <+: q ∧ ((fs.isDirectory cwd s = true ∧ fs.entry q ≠ none) ∨
      (fs.entry (p ++ [last]) = none ∧ q = p ++ [last]))

/-- The entries of the directory `s` leads to, by their paths below it. -/
def contents (fs : FileSystem) (cwd : Path) (s : List Char) : Option (Path → Option Node) :=
  (fs.walkDir cwd (components s)).map fun t q => fs.entry (t ++ q)

variable {fs fs' : FileSystem} {cwd p : Path} {s c : List Char} {cs : List (List Char)}

theorem contents_ne {t r : Path} (hk : Keeps fs' fs) (ht : fs.walkDir cwd (components s) = some t)
    (hr : fs'.entry (t ++ r) ≠ fs.entry (t ++ r)) : fs'.contents cwd s ≠ fs.contents cwd s := by
  intro he
  unfold contents at he
  rw [ht] at he
  cases ht' : fs'.walkDir cwd (components s) with
  | none =>
    rw [ht'] at he
    cases he
  | some t' =>
    obtain rfl : t = t' := Option.some.inj (ht.symm.trans (walkDir_keeps hk ht'))
    rw [ht', Option.map_some, Option.map_some, Option.some.injEq] at he
    exact hr (congrFun he r)

theorem contents_isSome : (fs.contents cwd s).isSome = fs.isDirectory cwd s := Option.isSome_map

theorem locate_of_isDirectory (hc : c ≠ []) (hs : components s = cs ++ [c] ∨ components s = cs ++ [c, []])
    (h : fs.isDirectory cwd s = true) : ∃ p, fs.walkDir cwd cs = some p ∧ fs.locate cwd s = some (p, c) := by
  obtain ⟨t, ht⟩ := Option.isSome_iff_exists.mp h
  have ht' := (walkDir_eq_some.mp ht).1
  obtain ⟨p, hp⟩ : ∃ p, fs.walkDir cwd cs = some p := by
    rcases hs with hs | hs <;> exact walkDir_of_append (hs ▸ ht')
  exact ⟨p, hp, by rw [locate_of_ordinary hc hs, hp]; rfl⟩

theorem walkDir_components (hs : components s = cs ++ [c] ∨ components s = cs ++ [c, []]) :
    fs.walkDir cwd (components s) = fs.walkDir cwd (cs ++ [c]) := by
  rcases hs with hs | hs
  · rw [hs]
  · rw [hs, List.append_cons, walkDir_concat_nil]

theorem isDirectory_of_dot (hs : components s = cs ++ [c] ∨ components s = cs ++ [c, []]) (hdot : isDot c = true)
    (hp : fs.walkDir cwd cs = some p) : fs.isDirectory cwd s = true := by
  obtain ⟨hw, hdir⟩ := walkDir_eq_some.mp hp
  have hno : NoLink fs (fs.walk maxLinks cwd cs) c := fun hc => by rw [hc.2] at hdot; cases hdot
  have hup : fs.entry p.dropLast = some .dir := by
    rcases List.eq_nil_or_concat p with rfl | ⟨q, n, rfl⟩
    · exact fs.root
    · rw [List.concat_eq_append] at hdir ⊢
      rw [List.dropLast_concat]
      exact fs.closed _ _ (by rw [hdir]; exact Option.some_ne_none _)
  rw [isDirectory, walkDir_components hs, walkDir, walk_concat hno, hw]
  simp only [isDot, Bool.or_eq_true, beq_iff_eq] at hdot
  rcases hdot with rfl | rfl
  · simp [enter, hdir]
  · simp [enter, hdir, hup]

theorem indirect_false_of_entry {last : List Char} {slash : Bool} (hdot : isDot last = false)
    (h : ∀ t, fs.entry (p ++ [last]) ≠ some (.link t)) : fs.indirect p last slash = false := by
  unfold indirect
  split
  · exact absurd ‹_› (h _)
  · simp [hdot]

theorem dot_of_direct {last : List Char} {slash : Bool} (h : fs.indirect p last slash = false) :
    isDot last = false := by
  unfold indirect at h
  exact (Bool.or_eq_false_iff.mp h).1

/-- **`remove_all` of a directory** leaves an entry or takes one it concerns. -/
theorem removeAll_entry (refused : List Path) (h : fs.isDirectory cwd s = true) (q : Path) :
    (fs.removeAll refused cwd s).1.entry q = fs.entry q ∨
      ((fs.removeAll refused cwd s).1.entry q = none ∧ fs.Concerned cwd s q) := by
  by_cases he : (fs.removeAll refused cwd s).1.entry q = fs.entry q
  · exact Or.inl he
  · right
    unfold removeAll at he ⊢
    cases hl : fs.locate cwd s with
    | none => rw [hl] at he; exact absurd rfl he
    | some at_ =>
      obtain ⟨p, last⟩ := at_
      rw [hl] at he
      simp only at he ⊢
      split_ifs at he ⊢ with hi hn
      · split at he
        · exact absurd rfl he
        · rename_i t ht
          simp only [prune] at he ⊢
          split_ifs at he ⊢ with hq
          · refine ⟨rfl, p, last, hl, ?_⟩
            rw [if_pos hi]
            exact ⟨t, ht, hq.1, fun hqt => hq.2.2 ⟨t, List.mem_cons_self .., hqt ▸ List.prefix_refl _⟩, Ne.symm he⟩
          · exact absurd rfl he
      · exact absurd rfl he
      · simp only [prune] at he ⊢
        split_ifs at he ⊢ with hq
        · refine ⟨rfl, p, last, hl, ?_⟩
          rw [if_neg hi]
          exact ⟨hq.1, Or.inl ⟨h, Ne.symm he⟩⟩
        · exact absurd rfl he

/-- Where it does not throw, the last entry of the string is gone with all that was below. -/
theorem removeAll_clears {refused : List Path} (hc : c ≠ [])
    (hs : components s = cs ++ [c] ∨ components s = cs ++ [c, []]) (h : fs.isDirectory cwd s = true)
    (hr : fs.removeAll refused cwd s = (fs', false)) :
    ∃ p, fs.walkDir cwd cs = some p ∧ isDot c = false ∧ fs.Concerned cwd s (p ++ [c]) ∧
      (∀ t, endsInSlash s = true → fs.entry (p ++ [c]) ≠ some (.link t)) ∧ fs' = fs.prune (p ++ [c]) [] := by
  obtain ⟨p, hp, hl⟩ := locate_of_isDirectory hc hs h
  obtain ⟨t, ht⟩ := Option.isSome_iff_exists.mp h
  simp only [removeAll, hl, ht] at hr
  split_ifs at hr with hi hn
  · cases hr
  · -- a directory string whose last entry is absent leads through a link, but that is an entry
    have hdot := dot_of_direct (Bool.eq_false_iff.mpr hi)
    rw [walkDir_components hs, walkDir_eq_some, walk_child ⟨hc, hdot⟩ hp (by simp [hn])] at ht
    obtain ⟨he, hd⟩ := ht
    rw [← Option.some.inj he, hn] at hd
    cases hd
  · have hi' := Bool.eq_false_iff.mpr hi
    rw [Prod.mk.injEq, Bool.not_eq_false', List.isEmpty_iff] at hr
    rw [hr.2] at hr
    refine ⟨p, hp, dot_of_direct hi', ⟨p, c, hl, ?_⟩, fun t hslash hlink => ?_, hr.1.symm⟩
    · rw [if_neg hi]
      exact ⟨List.prefix_refl _, Or.inl ⟨h, hn⟩⟩
    · simp [indirect, hslash, hlink] at hi

theorem isDirectory_prune (hc : Ordinary c) (hs : components s = cs ++ [c] ∨ components s = cs ++ [c, []])
    (hp : fs.walkDir cwd cs = some p) : (fs.prune (p ++ [c]) []).isDirectory cwd s = false := by
  by_contra hd
  rw [Bool.not_eq_false] at hd
  obtain ⟨p', hp', -⟩ := locate_of_isDirectory hc.1 hs hd
  have he := walkDir_keeps (keeps_of_prune fs _ _) hp'
  rw [hp, Option.some.injEq] at he
  subst he
  have hnone : (fs.prune (p ++ [c]) []).entry (p ++ [c]) = none :=
    entry_prune_nil _ (by simp) (List.prefix_refl _)
  rw [isDirectory, walkDir_components hs, walkDir, walk_child hc hp' (by simp [hnone])] at hd
  simp [hnone] at hd

/-- Where `remove_all` throws although it can remove everything, it has emptied the directory. -/
theorem removeAll_empties (hr : fs.removeAll [] cwd s = (fs', true)) :
    ∃ t, fs.walkDir cwd (components s) = some t ∧ fs' = fs.prune t [t] := by
  unfold removeAll at hr
  cases hl : fs.locate cwd s with
  | none =>
    rw [hl] at hr
    cases hr
  | some at_ =>
    simp only [hl, stuck, List.filter_nil] at hr
    split_ifs at hr
    · cases ht : fs.walkDir cwd (components s) with
      | none =>
        rw [ht] at hr
        cases hr
      | some t =>
        rw [ht] at hr
        cases hr
        exact ⟨t, rfl, rfl⟩
    · cases hr
    · cases hr

theorem removeAll_stuck (hc : Ordinary c) (hs : components s = cs ++ [c] ∨ components s = cs ++ [c, []])
    (hp : fs.walkDir cwd cs = some p) (hdir : fs.entry (p ++ [c]) = some .dir)
    (hbelow : ∀ q, p ++ [c] <+: q → q ≠ p ++ [c] → fs.entry q = none) : fs.removeAll [p ++ [c]] cwd s = (fs, true) := by
  have hstuck : fs.stuck (p ++ [c]) [p ++ [c]] = [p ++ [c]] := by simp [stuck, hdir]
  have hdirect : ∀ slash, fs.indirect p c slash = false := fun _ => indirect_false_of_entry hc.2 (by simp [hdir])
  unfold removeAll
  rw [locate_of_ordinary hc.1 hs, hp]
  simp only [Option.map_some, hdirect, hdir, reduceCtorEq, if_false, hstuck, Bool.false_eq_true]
  congr 1
  ext1 q
  simp only [prune]
  split_ifs with hq
  · refine (hbelow q hq.1 ?_).symm
    rintro rfl
    exact hq.2.2 ⟨_, List.mem_singleton.mpr rfl, List.prefix_refl _⟩
  · rfl

theorem createDirectory_refused (hc : c ≠ []) (hs : components s = cs ++ [c] ∨ components s = cs ++ [c, []])
    (h : fs.isDirectory cwd s = false) : fs.createDirectory true cwd s = none := by
  unfold createDirectory
  rw [locate_of_ordinary hc hs]
  cases hp : fs.walkDir cwd cs with
  | none => rfl
  | some p =>
    cases hdot : isDot c with
    | true =>
      rw [isDirectory_of_dot hs hdot hp] at h
      cases h
    | false => cases hn : fs.entry (p ++ [c]) <;> simp [hn, h, hdot]

/-- **`create_directory`** where there is none makes one in a free place. -/
theorem createDirectory_free {refused : Bool} (hc : c ≠ [])
    (hs : components s = cs ++ [c] ∨ components s = cs ++ [c, []]) (h : fs.isDirectory cwd s = false)
    (hr : fs.createDirectory refused cwd s = some fs') :
    ∃ p, fs.walkDir cwd cs = some p ∧ isDot c = false ∧ fs.entry (p ++ [c]) = none ∧ fs.Concerned cwd s (p ++ [c]) ∧
      fs' = fs.put (p ++ [c]) .dir := by
  unfold createDirectory at hr
  rw [locate_of_ordinary hc hs] at hr
  cases hp : fs.walkDir cwd cs with
  | none => rw [hp] at hr; cases hr
  | some p =>
    rw [hp] at hr
    simp only [Option.map_some] at hr
    cases hdot : isDot c with
    | true => rw [isDirectory_of_dot hs hdot hp] at h; cases h
    | false =>
      rw [hdot, if_neg Bool.false_ne_true] at hr
      cases hn : fs.entry (p ++ [c]) with
      | some node => simp [hn, h] at hr
      | none =>
        simp only [hn] at hr
        split_ifs at hr
        cases hr
        refine ⟨p, rfl, rfl, hn, ⟨p, c, by rw [locate_of_ordinary hc hs, hp]; rfl, ?_⟩, rfl⟩
        rw [indirect_false_of_entry hdot (by simp [hn]), if_neg Bool.false_ne_true]
        exact ⟨List.prefix_refl _, Or.inr ⟨hn, rfl⟩⟩

/-- **What is concerned changes**, where nothing is refused: the directory that is there is removed, else it is made. -/
theorem concerned_changes (hc : c ≠ []) (hs : components s = cs ++ [c] ∨ components s = cs ++ [c, []]) {q : Path}
    (h : fs.Concerned cwd s q) :
    (fs.isDirectory cwd s = true ∧ (fs.removeAll [] cwd s).1.entry q ≠ fs.entry q) ∨
      (fs.isDirectory cwd s = false ∧ ∃ fs', fs.createDirectory false cwd s = some fs' ∧ fs'.entry q ≠ fs.entry q) := by
  obtain ⟨p, last, hl, h⟩ := h
  have hl' := hl
  rw [locate_of_ordinary hc hs, Option.map_eq_some_iff] at hl'
  obtain ⟨p', hp, he⟩ := hl'
  rw [Prod.mk.injEq] at he
  obtain ⟨rfl, rfl⟩ := he
  split_ifs at h with hi
  · obtain ⟨t, ht, hpre, hne, hq⟩ := h
    refine Or.inl ⟨by rw [isDirectory, ht]; rfl, ?_⟩
    have hq0 : q ≠ [] := by
      rintro rfl
      exact hne (List.prefix_nil.mp hpre).symm
    have : (fs.removeAll [] cwd s).1.entry q = none := by
      simp only [removeAll, hl, hi, if_true, ht, stuck, List.filter_nil]
      refine if_pos ⟨hpre, hq0, ?_⟩
      rintro ⟨r, hr, hqr⟩
      rw [List.mem_singleton.mp hr] at hqr
      exact hne (hqr.eq_of_length (Nat.le_antisymm hqr.length_le hpre.length_le))
    rw [this]
    exact Ne.symm hq
  · obtain ⟨hpre, ⟨hdir, hq⟩ | ⟨hn, rfl⟩⟩ := h
    · refine Or.inl ⟨hdir, ?_⟩
      have hlast : fs.entry (p' ++ [c]) ≠ none := by
        obtain ⟨r, rfl⟩ := hpre
        by_cases hr : r = []
        · subst hr
          simpa using hq
        · rw [fs.dir_of_below hr hq]
          exact Option.some_ne_none _
      have : (fs.removeAll [] cwd s).1.entry q = none := by
        simp only [removeAll, hl, hi, Bool.false_eq_true, if_false, hlast, stuck, List.filter_nil]
        exact entry_prune_nil fs (by simp) hpre
      rw [this]
      exact Ne.symm hq
    · have hdot := dot_of_direct (Bool.eq_false_iff.mpr hi)
      have hdir : fs.isDirectory cwd s = false := by
        rw [isDirectory, walkDir_components hs, walkDir, walk_child ⟨hc, hdot⟩ hp (by simp [hn])]
        simp [hn]
      refine Or.inr ⟨hdir, fs.put (p' ++ [c]) .dir, ?_, ?_⟩
      · simp [createDirectory, hl, hdot, hn]
      · rw [entry_put fs (walkDir_eq_some.mp hp).2 (by simp [hn]), if_pos rfl, hn]
        simp

/-! ## Trees in which every path leads somewhere -/

/-- A component that names an entry, and is not `.` or `..`. -/
def names (cs : List (List Char)) : List (List Char) := cs.filter fun c => c ≠ [] ∧ isDot c = false

/-- The directories with these names, to the given depth. -/
def directories (cs : List (List Char)) (depth : Nat) : FileSystem where
  entry q := if q.length ≤ depth ∧ ∀ c ∈ q, c ∈ names cs then some .dir else none
  root := by simp
  closed := by
    intro p n h
    split_ifs at h with hp
    · refine if_pos ⟨?_, fun c hc => hp.2 c (List.mem_append_left _ hc)⟩
      have := hp.1
      rw [List.length_append] at this
      omega
    · exact absurd rfl h

/-- The paths in such a tree. -/
def Within (cs : List (List Char)) (n : Nat) (q : Path) : Prop := q.length ≤ n ∧ ∀ c ∈ q, c ∈ names cs

theorem entry_directories {cs : List (List Char)} {depth n : Nat} {q : Path} (h : Within cs n q) (hn : n ≤ depth) :
    (directories cs depth).entry q = some .dir :=
  if_pos ⟨h.1.trans hn, h.2⟩

theorem no_link_directories (cs : List (List Char)) (depth : Nat) (q : Path) (t : List Char) :
    (directories cs depth).entry q ≠ some (.link t) := by
  change (if _ then some Node.dir else none) ≠ _
  split_ifs <;> simp

theorem walkWith_directories {cs : List (List Char)} (depth : Nat) (f : Path → List (List Char) → Option Path)
    {ds : List (List Char)} (hds : ∀ c ∈ ds, c ∈ cs) {p : Path} {n : Nat} (hp : Within cs n p)
    (hd : n + ds.length ≤ depth) :
    ∃ q, (directories cs depth).walkWith f p ds = some q ∧ Within cs (n + ds.length) q := by
  induction ds generalizing p n with
  | nil => exact ⟨p, rfl, hp⟩
  | cons c ds ih =>
    have hds' : ∀ c ∈ ds, c ∈ cs := fun c hc => hds c (List.mem_cons_of_mem _ hc)
    rw [List.length_cons] at hd ⊢
    have hdir : (directories cs depth).entry p = some .dir := entry_directories hp (by omega)
    have hup : ∀ {q}, Within cs n q → Within cs (n + 1) q := fun h => ⟨by have := h.1; omega, h.2⟩
    rw [← Nat.add_assoc, Nat.add_right_comm] at hd ⊢
    simp only [walkWith, if_pos hdir]
    split_ifs with h1 h2
    · exact ih hds' (hup hp) hd
    · refine ih hds' (hup ⟨?_, fun c hc => hp.2 c (List.mem_of_mem_dropLast hc)⟩) hd
      have := hp.1
      rw [List.length_dropLast]
      omega
    · have hc : c ∈ names cs := by
        simp only [names, isDot, List.mem_filter, decide_eq_true_eq, Bool.or_eq_false_iff, beq_eq_false_iff_ne]
        exact ⟨hds c (List.mem_cons_self ..), fun h => h1 (Or.inl h), fun h => h1 (Or.inr h), h2⟩
      have hpc : Within cs (n + 1) (p ++ [c]) := by
        refine ⟨by have := hp.1; simp; omega, fun d hd => ?_⟩
        rcases List.mem_append.mp hd with hd | hd
        · exact hp.2 d hd
        · rw [List.mem_singleton.mp hd]; exact hc
      rw [entry_directories hpc (by omega)]
      exact ih hds' hpc hd

theorem walkDir_directories (cs : List (List Char)) (depth : Nat) {ds : List (List Char)} (hds : ∀ c ∈ ds, c ∈ cs)
    (hd : ds.length ≤ depth) :
    ∃ q, (directories cs depth).walkDir [] ds = some q ∧ Within cs ds.length q := by
  have hroot : Within cs 0 [] := ⟨Nat.le_refl _, by simp⟩
  obtain ⟨q, hq, hw⟩ := walkWith_directories depth ((directories cs depth).walk 39) hds hroot (by omega)
  rw [Nat.zero_add] at hw
  exact ⟨q, walkDir_eq_some.mpr ⟨hq, entry_directories hw hd⟩, hw⟩

/-- **In such a tree `remove_all` removes something.** -/
theorem removeAll_directories {s c : List Char} {cs : List (List Char)} (hc : Ordinary c)
    (hs : components s = c :: cs) :
    (directories (c :: cs) (cs.length + 2)).isDirectory [] s = true ∧
      ((directories (c :: cs) (cs.length + 2)).removeAll [] [] s).1 ≠ directories (c :: cs) (cs.length + 2) := by
  set fs := directories (c :: cs) (cs.length + 2) with hfs
  have hmem : c ∈ names (c :: cs) := by simp [names, hc.1, hc.2]
  obtain ⟨t, ht, htw⟩ := walkDir_directories (c :: cs) (cs.length + 2) (fun _ h => h)
    (by rw [List.length_cons]; omega)
  rw [← hfs, ← hs] at ht
  refine ⟨by rw [isDirectory, ht]; rfl, ?_⟩
  -- the last component that is not empty, and the ones before it
  obtain ⟨last, init, hl, hl0, hsub⟩ : ∃ last init, (components s).reverse.dropWhile (· == []) = last :: init ∧
      last ≠ [] ∧ (last :: init) <:+ (components s).reverse := by
    have hne : (components s).reverse.dropWhile (· == []) ≠ [] := by
      rw [ne_eq, List.dropWhile_eq_nil_iff]
      intro h
      have := h c (by rw [hs]; simp)
      exact hc.1 (by simpa using this)
    obtain ⟨last, init, hl⟩ := List.exists_cons_of_ne_nil hne
    refine ⟨last, init, hl, ?_, hl ▸ List.dropWhile_suffix _⟩
    have := List.head_dropWhile_not (p := (· == [])) hne
    simp only [hl, List.head_cons] at this
    simpa using this
  have hinit : ∀ d ∈ init.reverse, d ∈ c :: cs := fun d hd => by
    rw [← hs, ← List.mem_reverse]
    exact hsub.subset (List.mem_cons_of_mem _ (List.mem_reverse.mp hd))
  have hlen : init.length + 1 ≤ cs.length + 1 := by
    have := hsub.length_le
    rwa [List.length_reverse, hs, List.length_cons, List.length_cons] at this
  obtain ⟨p, hp, hpw⟩ := walkDir_directories (c :: cs) (cs.length + 2) hinit (by rw [List.length_reverse]; omega)
  rw [List.length_reverse] at hpw
  rw [← hfs] at hp
  have hloc : fs.locate [] s = some (p, last) := by
    rw [locate, hl]
    simp only [hp, Option.map_some]
  have hind : fs.indirect p last (endsInSlash s) = isDot last := by
    unfold indirect
    split
    · exact absurd ‹_› (no_link_directories _ _ _ _)
    · simp
  rw [removeAll, hloc]
  simp only [hind]
  cases hdot : isDot last with
  | true =>
    simp only [ht, if_true, stuck, List.filter_nil]
    intro he
    have h1 := entry_prune_below fs (p := t) (n := c)
    rw [he, hfs, entry_directories (n := cs.length + 2) ?_ le_rfl] at h1
    · cases h1
    · refine ⟨by have := htw.1; simp at this ⊢; omega, fun d hd => ?_⟩
      rcases List.mem_append.mp hd with hd | hd
      · exact htw.2 d hd
      · rw [List.mem_singleton.mp hd]; exact hmem
  | false =>
    have hlast : fs.entry (p ++ [last]) = some .dir := by
      refine entry_directories (n := cs.length + 2) ⟨by have := hpw.1; simp; omega, fun d hd => ?_⟩ le_rfl
      rcases List.mem_append.mp hd with hd | hd
      · exact hpw.2 d hd
      · rw [List.mem_singleton.mp hd]
        simp only [names, List.mem_filter, decide_eq_true_eq]
        refine ⟨?_, hl0, hdot⟩
        rw [← hs, ← List.mem_reverse]
        exact hsub.subset (List.mem_cons_self ..)
    simp only [Bool.false_eq_true, if_false, hlast, reduceCtorEq, stuck, List.filter_nil]
    intro he
    have h1 := entry_prune_nil fs (p := p ++ [last]) (by simp) (List.prefix_refl _)
    rw [he, hlast] at h1
    cases h1

end RpiCam.FileSystem
