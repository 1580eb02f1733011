import RpiCam.Http.EventDirectory

/-!
# Where an upload writes

`post_request_complete` is to work in `event/<name>/` only. The name is checked for a slash and nothing else.

* `Confined` : the file system differs from the one before in `event/<name>` and what is directly in it, or below it by
  removal;
* `Contained` : what the string `event/<name>/` leads to is `event/<name>`, or holds nothing else;
* `confined_iff` : a save is confined exactly there;
* `contained_iff` : where `event/<name>` is no symbolic link this is so for every name but `.`, `..` and those with a
  NUL;
* `escaping_upload` : an upload with the name `..`.
-/

namespace RpiCam.Http

open Transition FileSystem

/-- All that is different from `fs₀` is `event/<name>`, a file directly in it, or gone from below it. -/
def Confined (cwd : Path) (info : ConnectionInfo) (fs₀ fs : FileSystem) : Prop :=
  ∀ q, fs.entry q ≠ fs₀.entry q → ∃ b, fs₀.walkDir cwd ["event".toList] = some b ∧ b ++ [info.fileName] <+: q ∧
    (fs.entry q = none ∨ q = b ++ [info.fileName] ∨ ∃ n, q = b ++ [info.fileName] ++ [n])

/-- Every entry that making the directory `event/<name>/` anew concerns is `event/<name>` or below. -/
def Contained (cwd : Path) (info : ConnectionInfo) (fs₀ : FileSystem) : Prop :=
  ∀ q, fs₀.Concerned cwd (eventDirectory info) q →
    ∃ b, fs₀.walkDir cwd ["event".toList] = some b ∧ b ++ [info.fileName] <+: q

/-- `event/<name>` is no symbolic link. -/
def NotLinked (cwd : Path) (info : ConnectionInfo) (fs₀ : FileSystem) : Prop :=
  ∀ b, fs₀.walkDir cwd ["event".toList] = some b → ∀ t, fs₀.entry (b ++ [info.fileName]) ≠ some (.link t)

/-- A name that is one component, and the name of a child. -/
def PlainName (name : List Char) : Prop := '\x00' ∉ name ∧ name ≠ ".".toList ∧ name ≠ "..".toList

theorem PlainName.noDot {name : List Char} (h : PlainName name) : isDot name = false := by
  have h1 : name ≠ ['.'] := h.2.1
  have h2 : name ≠ ['.', '.'] := h.2.2
  simp [isDot, h1, h2]

variable {cwd : Path} {info : ConnectionInfo} {fs₀ fs : FileSystem}

/-! ## Contained uploads are confined -/

theorem confined_refl : Confined cwd info fs₀ fs₀ := fun _ h => absurd rfl h

theorem Filled.confined {b : Path} (h : Filled cwd info fs₀ fs b) : Confined cwd info fs₀ fs := by
  intro q hq
  by_cases hpre : b ++ [info.fileName] <+: q
  · refine ⟨b, h.start, hpre, ?_⟩
    by_cases he : q = b ++ [info.fileName]
    · exact Or.inr (Or.inl he)
    · rcases h.files q hpre he with hnone | ⟨n, c, hn, -, -⟩
      · exact Or.inl hnone
      · exact Or.inr (Or.inr ⟨n, hn⟩)
  · exact absurd (h.outside q hpre) hq

theorem Fresh.noNul {p : Path} (h : Fresh cwd info fs₀ fs p) (hcon : Contained cwd info fs₀) :
    '\x00' ∉ info.fileName := by
  obtain ⟨b, hb, hpre⟩ := hcon _ h.concerned
  intro hnul
  have hstart := h.start
  by_cases hc : cStr info.fileName = []
  · -- the string is `event/`, whose last component leads to the directory of the events itself
    have hbase : base info = [] := if_pos hc
    have hleaf : leaf info = "event".toList := if_pos hc
    have hslash : endsInSlash (eventDirectory info) = true := by
      have hs := components_of_nul hnul []
      have hname : components info.fileName = [[]] := by rw [components, hc]; rfl
      rw [List.append_nil, hname] at hs
      rw [endsInSlash, hs]
      rfl
    rw [hbase] at hstart
    have hw := walk_child ordinary_event hstart (hleaf ▸ fun t => h.noLink t hslash)
    have he := (walkDir_eq_some.mp hb).1
    rw [List.nil_append] at hw
    rw [hw, Option.some.injEq] at he
    rw [hleaf, ← he] at hpre
    have := hpre.length_le
    simp at this
  · have hbase : base info = ["event".toList] := if_neg hc
    have hleaf : leaf info = cStr info.fileName := if_neg hc
    rw [hbase, hb, Option.some.injEq] at hstart
    rw [hleaf, ← hstart] at hpre
    have := List.append_cancel_left (hpre.eq_of_length (by simp))
    rw [List.cons.injEq] at this
    exact nul_notMem_cStr _ (this.1 ▸ hnul)

theorem filled_of_shape {flag : Bool} (hcon : Contained cwd info fs₀)
    (h : ('\x00' ∈ info.fileName ∧ flag = true ∧ ∃ p, Fresh cwd info fs₀ fs p) ∨ ∃ b, Filled cwd info fs₀ fs b) :
    ∃ b, Filled cwd info fs₀ fs b := by
  rcases h with ⟨hnul, -, p, hp⟩ | h
  · exact absurd hnul (hp.noNul hcon)
  · exact h

theorem Filled.cleaned {b : Path} (h : Filled cwd info fs₀ fs b) (hn : Named info) (stuck : List Path) :
    Confined cwd info fs₀ (fs.removeAll stuck cwd (eventDirectory info)).1 := by
  have hs : components (eventDirectory info) = ["event".toList] ++ [info.fileName, []] := by
    have := components_of_name hn.noSlash h.noNul []
    rwa [List.append_nil] at this
  have hdir : fs.isDirectory cwd (eventDirectory info) = true := by
    rw [isDirectory, walkDir_components (Or.inr hs)]
    exact Option.isSome_iff_exists.mpr ⟨_, h.walkDir_event hn⟩
  intro q hq
  rcases removeAll_entry stuck hdir q with he | ⟨he, p, last, hl, hc⟩
  · rw [he] at hq ⊢
    exact h.confined q hq
  · rw [locate_of_ordinary hn.nonempty (Or.inr hs), h.parent, Option.map_some, Option.some.injEq, Prod.mk.injEq] at hl
    obtain ⟨rfl, rfl⟩ := hl
    rw [if_neg (by rw [indirect_false_of_entry h.noDot (by simp [h.dir])]; simp)] at hc
    exact ⟨b, h.start, hc.1, Or.inl he⟩

theorem step_confined {s s' : Saving} (hn : Named info) (hcon : Contained cwd info fs₀) (hshape : Shape cwd info fs₀ s)
    (hs : Confined cwd info fs₀ s.fs) (h : SaveStep cwd info s s') : Confined cwd info fs₀ s'.fs := by
  have hshape' := step_shape hn hshape h
  cases h with
  | refusedName => exact hs
  | there => exact hs
  | notThere => exact hs
  | removed fs fs' flag threw stuck h =>
    obtain ⟨rfl, hdir⟩ : fs = fs₀ ∧ _ := hshape
    intro q hq
    rcases removeAll_entry stuck hdir q with he | ⟨he, hc⟩
    · rw [h] at he
      exact absurd he hq
    · rw [h] at he
      obtain ⟨b, hb, hpre⟩ := hcon q hc
      exact ⟨b, hb, hpre, Or.inl he⟩
  | created =>
    obtain ⟨p, hp⟩ := hshape'
    exact (hp.filled hn (hp.noNul hcon)).confined
  | programClosed => exact hs
  | programOpen =>
    obtain ⟨b, hb, -⟩ := hshape'
    exact hb.confined
  | programWritten =>
    obtain ⟨b, hb⟩ := filled_of_shape hcon hshape'
    exact hb.confined
  | fpsClosed => exact hs
  | fpsOpen =>
    obtain ⟨b, hb⟩ := filled_of_shape hcon hshape'
    exact hb.confined
  | enableClosed => exact hs
  | enableOpen fs flag file h =>
    cases flag with
    | true =>
      obtain ⟨b, hb⟩ := filled_of_shape hcon hshape'
      exact hb.confined
    | false =>
      obtain ⟨b, hb, -⟩ := hshape'
      exact hb.confined
  | enableWritten =>
    obtain ⟨b, hb⟩ := hshape' rfl
    exact hb.confined
  | cleaned fs fs' flag threw stuck h =>
    obtain ⟨b, hb⟩ := filled_of_shape hcon hshape
    have hfs : fs' = (fs.removeAll stuck cwd (eventDirectory info)).1 := by rw [h]
    exact hfs ▸ hb.cleaned hn stuck

/-- **A save is confined exactly where the upload is contained.** -/
theorem confined_iff (hn : Named info) (cwd : Path) (fs₀ : FileSystem) :
    (∀ s, Saves cwd info fs₀ s → Confined cwd info fs₀ s.fs) ↔ Contained cwd info fs₀ := by
  constructor
  · intro h q hq
    rcases concerned_changes (leaf_ne_nil info) (components_leaf hn) hq with ⟨hdir, hne⟩ | ⟨hdir, fs', hr, hne⟩
    · obtain ⟨s, hs, hfs⟩ := saves_removeAll hdir
      obtain ⟨b, hb, hpre, -⟩ := h s hs q (hfs ▸ hne)
      exact ⟨b, hb, hpre⟩
    · obtain ⟨b, hb, hpre, -⟩ := h _ (saves_createDirectory hdir hr) q hne
      exact ⟨b, hb, hpre⟩
  · intro hcon s hs
    refine Reach.invariant_of (fun s => Confined cwd info fs₀ s.fs) (fun s hr => shape_of_saves hn hr) ?_
      (fun s a s' hk hi _ hst => step_confined hn hcon hk hi (saveStep_sound hst)) hs
    rintro s rfl
    exact confined_refl

/-! ## Which names are contained -/

/-- A tree in which `event/<name>/` leads somewhere. -/
def eventTreeOf (info : ConnectionInfo) : FileSystem :=
  directories (components (eventDirectory info)) ((components (eventDirectory info)).length + 1)

theorem event_mem_components (info : ConnectionInfo) : "event".toList ∈ components (eventDirectory info) := by
  have := components_eventDirectory info []
  rw [List.append_nil] at this
  rw [this]
  exact List.mem_cons_self ..

theorem entry_eventTreeOf {q : Path} (h : Within (components (eventDirectory info))
    ((components (eventDirectory info)).length + 1) q) : (eventTreeOf info).entry q = some .dir :=
  entry_directories h le_rfl

theorem within_event (info : ConnectionInfo) : Within (components (eventDirectory info)) 1 ["event".toList] :=
  ⟨le_rfl, fun c hc => by
    rw [List.mem_singleton.mp hc]
    exact List.mem_filter.mpr ⟨event_mem_components info, by decide⟩⟩

theorem walkDir_event_eventTreeOf (info : ConnectionInfo) :
    (eventTreeOf info).walkDir [] ["event".toList] = some ["event".toList] := by
  have hdir : (eventTreeOf info).entry ["event".toList] = some .dir :=
    entry_directories (within_event info) (Nat.le_add_left _ _)
  have hroot : (eventTreeOf info).walkDir [] [] = some [] := walkDir_eq_some.mpr ⟨rfl, FileSystem.root _⟩
  exact walkDir_eq_some.mpr ⟨walk_child ordinary_event hroot (no_link_directories _ _ _), hdir⟩

/-- A place that the string concerns in this tree and that is not under the name. -/
theorem concerned_eventTreeOf (hn : Named info) (hplain : ¬ PlainName info.fileName) :
    ∃ q, (eventTreeOf info).Concerned [] (eventDirectory info) q ∧ ¬ ["event".toList, info.fileName] <+: q := by
  have hs := components_leaf hn
  obtain ⟨t, ht, htw⟩ := walkDir_directories (components (eventDirectory info))
    ((components (eventDirectory info)).length + 1) (fun _ h => h) (Nat.le_succ _)
  change (eventTreeOf info).walkDir [] _ = _ at ht
  have hdir : (eventTreeOf info).isDirectory [] (eventDirectory info) = true := by rw [isDirectory, ht]; rfl
  obtain ⟨p, hp, hl⟩ := locate_of_isDirectory (leaf_ne_nil info) hs hdir
  cases hdot : isDot (leaf info) with
  | true =>
    -- the contents of a directory above: a name among them would be `event`
    have hq : Within (components (eventDirectory info)) ((components (eventDirectory info)).length + 1)
        (t ++ ["event".toList]) := by
      refine ⟨by have := htw.1; rw [List.length_append, List.length_singleton]; omega, fun c hc => ?_⟩
      rcases List.mem_append.mp hc with hc | hc
      · exact htw.2 c hc
      · exact (within_event info).2 c hc
    refine ⟨t ++ ["event".toList], ⟨p, leaf info, hl, ?_⟩, fun hpre => ?_⟩
    · rw [if_pos (by simp [indirect, hdot])]
      exact ⟨t, ht, List.prefix_append _ _, by simp, by rw [entry_eventTreeOf hq]; simp⟩
    · have hmem := hq.2 info.fileName (hpre.subset (by simp))
      have hleaf : leaf info = cStr info.fileName := by
        unfold leaf at hdot ⊢
        split_ifs at hdot ⊢ with h
        · cases hdot
        · rfl
      obtain ⟨hc, hne⟩ := List.mem_filter.mp hmem
      simp only [decide_eq_true_eq] at hne
      have hcs : info.fileName ∈ ["event".toList, leaf info] := by
        have hb : base info = ["event".toList] := by
          unfold base leaf at *
          split_ifs at hdot ⊢ with h
          · cases hdot
          · rfl
        rcases hs with hs | hs <;> rw [hs, hb] at hc
        · exact hc
        · simp only [List.singleton_append, List.mem_cons, List.not_mem_nil, or_false, hne.1] at hc ⊢
          exact hc
      rw [List.mem_cons, List.mem_singleton] at hcs
      rcases hcs with he | he
      · rw [hleaf, he] at hdot
        revert hdot
        decide
      · rw [← he, hne.2] at hdot
        cases hdot
  | false =>
    have hdirect : (eventTreeOf info).indirect p (leaf info) (endsInSlash (eventDirectory info)) = false :=
      indirect_false_of_entry hdot (no_link_directories _ _ _)
    have hw : (eventTreeOf info).walkDir [] _ = _ := walkDir_components hs
    rw [ht, eq_comm, walkDir_eq_some, walk_child ⟨leaf_ne_nil info, hdot⟩ hp (no_link_directories _ _ _),
      Option.some.injEq] at hw
    refine ⟨p ++ [leaf info], ⟨p, leaf info, hl, ?_⟩, fun hpre => ?_⟩
    · rw [hdirect, if_neg Bool.false_ne_true]
      exact ⟨List.prefix_refl _, Or.inl ⟨hdir, by rw [hw.1, hw.2]; simp⟩⟩
    · by_cases hc : cStr info.fileName = []
      · have hbase : base info = [] := if_pos hc
        rw [hbase, walkDir_eq_some] at hp
        have hp0 : p = [] := Option.some.inj hp.1.symm
        rw [hp0] at hpre
        have := hpre.length_le
        simp at this
      · have hbase : base info = ["event".toList] := if_neg hc
        have hleaf : leaf info = cStr info.fileName := if_neg hc
        rw [hbase, walkDir_event_eventTreeOf, Option.some.injEq] at hp
        rw [← hp, hleaf] at hpre
        have he := hpre.eq_of_length rfl
        have hname : info.fileName = cStr info.fileName := by
          have : [info.fileName] = [cStr info.fileName] :=
            List.append_cancel_left (show ["event".toList] ++ _ = _ from he)
          exact (List.cons.inj this).1
        refine hplain ⟨hname ▸ nul_notMem_cStr _, ?_, ?_⟩ <;> intro hd <;>
          rw [hleaf, ← hname, hd] at hdot <;> revert hdot <;> decide

/-- **Where `event/<name>` is no symbolic link, an upload is contained exactly if its name is plain.** -/
theorem contained_iff (hn : Named info) :
    (∀ cwd fs₀, NotLinked cwd info fs₀ → Contained cwd info fs₀) ↔ PlainName info.fileName := by
  constructor
  · intro h
    by_contra hplain
    obtain ⟨q, hq, hnot⟩ := concerned_eventTreeOf hn hplain
    obtain ⟨b, hb, hpre⟩ := h [] (eventTreeOf info) (fun _ _ => no_link_directories _ _ _) q hq
    rw [walkDir_event_eventTreeOf, Option.some.injEq] at hb
    rw [← hb] at hpre
    exact hnot hpre
  · rintro hplain cwd fs₀ hlink q ⟨p, last, hl, hc⟩
    obtain ⟨hbase, hleaf⟩ := leaf_of_name hn hplain.1
    have hs := components_leaf hn
    rw [hbase, hleaf] at hs
    rw [locate_of_ordinary hn.nonempty hs, Option.map_eq_some_iff] at hl
    obtain ⟨b, hb, he⟩ := hl
    rw [Prod.mk.injEq] at he
    obtain ⟨rfl, rfl⟩ := he
    rw [if_neg (by rw [indirect_false_of_entry hplain.noDot (hlink b hb)]; simp)] at hc
    exact ⟨b, hb, hc.1⟩

/-- **The confinement of uploads.** A save changes only `event/<name>` exactly where all that making that directory
anew concerns is there; where `event/<name>` is no symbolic link, exactly for the names without a NUL other than `.` and
`..`. -/
theorem upload_confinement {info : ConnectionInfo} {body : String} (h : programReply info = .ok ⟨200, body⟩) :
    (∀ cwd fs₀, (∀ s, Saves cwd info fs₀ s → Confined cwd info fs₀ s.fs) ↔ Contained cwd info fs₀) ∧
    ((∀ cwd fs₀, NotLinked cwd info fs₀ → ∀ s, Saves cwd info fs₀ s → Confined cwd info fs₀ s.fs) ↔
      PlainName info.fileName) := by
  have hn := named_of_reply h
  refine ⟨confined_iff hn, ?_⟩
  simp only [confined_iff hn]
  exact contained_iff hn

theorem upload_confinement_cam : PlainName "cam".toList ∧ ∀ cwd fs₀, NotLinked cwd (uploadOf "cam".toList) fs₀ →
    ∀ s, Saves cwd (uploadOf "cam".toList) fs₀ s → Confined cwd (uploadOf "cam".toList) fs₀ s.fs :=
  have hplain : PlainName "cam".toList := ⟨by decide, by decide, by decide⟩
  ⟨hplain, (upload_confinement rfl).2.mpr hplain⟩

/-- The working directory `app` with the directories `event` and `system`. -/
def appTree : FileSystem :=
  ((bare.put ["app".toList] .dir).put ["app".toList, "event".toList] .dir).put ["app".toList, "system".toList] .dir

/-- **An upload with the name `..`** is answered `200` and removes the working directory's contents. -/
theorem escaping_upload : programReply (uploadOf "..".toList) = .ok ⟨200, "program file saved"⟩ ∧
    ¬ ∀ s, Saves ["app".toList] (uploadOf "..".toList) appTree s →
      Confined ["app".toList] (uploadOf "..".toList) appTree s.fs := by
  refine ⟨rfl, fun h => ?_⟩
  have hrun : run (saveStep ["app".toList] (uploadOf "..".toList)) (.begin appTree) [Os.able, Os.able] =
      some ⟨appTree.prune ["app".toList] [["app".toList]], invalidName, false⟩ := rfl
  obtain ⟨b, hb, hpre, -⟩ := h _ (.of_run (.init rfl) hrun) ["app".toList, "system".toList] (by decide)
  have he : appTree.walkDir ["app".toList] ["event".toList] = some ["app".toList, "event".toList] := by decide
  rw [he, Option.some.injEq] at hb
  rw [← hb] at hpre
  exact absurd hpre (by decide)

end RpiCam.Http
