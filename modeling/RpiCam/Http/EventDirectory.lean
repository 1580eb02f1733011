import RpiCam.Http.Save
import RpiCam.Lib.TreeChanges

/-!
# The directory of an event while it is saved

What the file system looks like at each place of `post_request_complete`, for a name without a slash and a number as the
frame rate, whatever the operating system refuses.

* `base`, `leaf` : the components of `event/<name>/`, as far as a NUL in the name lets it be read;
* `Cleared`, `Fresh` : before and after `create_directory`; the directory is then empty and nothing else has changed;
* `Filled` : from then on it has files only, all but the program and `enable` without contents;
* `Shape`, `shape_of_saves` : the place and the file system go together, in every state of a save.
-/

namespace RpiCam.Http

open Transition FileSystem

/-- An upload that `program_accept` answers `200`, as far as its names go. -/
structure Named (info : ConnectionInfo) : Prop where
  noSlash : '/' ∉ info.fileName
  nonempty : info.fileName ≠ []
  number : ∃ n, stoi info.fps = .ok n

theorem named_of_reply {info : ConnectionInfo} {body : String} (h : programReply info = .ok ⟨200, body⟩) :
    Named info := by
  obtain ⟨h1, h2, h3, -, -⟩ := (programReply_status h).mp rfl
  exact ⟨h1, h3, h2⟩

/-- An upload of the program `x` at 30 frames a second. -/
def uploadOf (name : List Char) : ConnectionInfo where
  connectionType := .post
  postprocessor := true
  fileName := name
  fps := "30".toList
  fileContent := ['x']
  uploadDone := true

/-- The components before the last one of `event/<name>/`. -/
def base (info : ConnectionInfo) : List (List Char) := if cStr info.fileName = [] then [] else ["event".toList]

/-- The last component of `event/<name>/`. -/
def leaf (info : ConnectionInfo) : List Char := if cStr info.fileName = [] then "event".toList else cStr info.fileName

theorem leaf_ne_nil (info : ConnectionInfo) : leaf info ≠ [] := by
  unfold leaf
  split_ifs with h
  · exact ordinary_event.1
  · exact h

/-- After a NUL in the name nothing is read. -/
theorem components_of_nul {info : ConnectionInfo} (h : '\x00' ∈ info.fileName) (s : List Char) :
    components (eventDirectory info ++ s) = "event".toList :: components info.fileName := by
  rw [components_eventDirectory, List.append_assoc, components_append_nul h]

/-- Without one, the name is a component and the rest is read below it. -/
theorem components_of_name {info : ConnectionInfo} (hslash : '/' ∉ info.fileName) (h : '\x00' ∉ info.fileName)
    (s : List Char) :
    components (eventDirectory info ++ s) = "event".toList :: info.fileName :: components s := by
  rw [components_eventDirectory, List.append_assoc]
  exact congrArg _ (components_cons h hslash s)

theorem components_leaf {info : ConnectionInfo} (h : Named info) :
    components (eventDirectory info) = base info ++ [leaf info] ∨
      components (eventDirectory info) = base info ++ [leaf info, []] := by
  have he := List.append_nil (eventDirectory info)
  by_cases hnul : '\x00' ∈ info.fileName
  · have hc : components info.fileName = [cStr info.fileName] :=
      List.splitOn_eq_singleton fun hm => h.noSlash ((List.takeWhile_subset _) hm)
    have hs := components_of_nul hnul []
    rw [he, hc] at hs
    by_cases hn : cStr info.fileName = []
    · right
      rw [hs, base, leaf, if_pos hn, if_pos hn, hn]
      rfl
    · left
      rw [hs, base, leaf, if_neg hn, if_neg hn]
      rfl
  · right
    have hs := components_of_name h.noSlash hnul []
    rw [he] at hs
    rw [hs, base, leaf, cStr_eq_self hnul, if_neg h.nonempty, if_neg h.nonempty]
    rfl

theorem leaf_of_name {info : ConnectionInfo} (h : Named info) (hnul : '\x00' ∉ info.fileName) :
    base info = ["event".toList] ∧ leaf info = info.fileName := by
  rw [base, leaf, cStr_eq_self hnul, if_neg h.nonempty, if_neg h.nonempty]
  exact ⟨rfl, rfl⟩

/-! ## The new directory -/

/-- Line 75 is reached: there was no directory, or it was removed. -/
def Cleared (cwd : Path) (info : ConnectionInfo) (fs₀ fs : FileSystem) : Prop :=
  (fs = fs₀ ∧ fs₀.isDirectory cwd (eventDirectory info) = false) ∨
    ∃ p, fs₀.walkDir cwd (base info) = some p ∧ isDot (leaf info) = false ∧
      fs₀.Concerned cwd (eventDirectory info) (p ++ [leaf info]) ∧
      (∀ t, endsInSlash (eventDirectory info) = true → fs₀.entry (p ++ [leaf info]) ≠ some (.link t)) ∧
      fs = fs₀.prune (p ++ [leaf info]) []

/-- Line 75 has made the directory `p/leaf`. -/
structure Fresh (cwd : Path) (info : ConnectionInfo) (fs₀ fs : FileSystem) (p : Path) : Prop where
  start : fs₀.walkDir cwd (base info) = some p
  concerned : fs₀.Concerned cwd (eventDirectory info) (p ++ [leaf info])
  noLink : ∀ t, endsInSlash (eventDirectory info) = true → fs₀.entry (p ++ [leaf info]) ≠ some (.link t)
  noDot : isDot (leaf info) = false
  parent : fs.walkDir cwd (base info) = some p
  dir : fs.entry (p ++ [leaf info]) = some .dir
  below : ∀ q, p ++ [leaf info] <+: q → q ≠ p ++ [leaf info] → fs.entry q = none
  outside : ∀ q, ¬ p ++ [leaf info] <+: q → fs.entry q = fs₀.entry q

theorem Cleared.created {cwd : Path} {info : ConnectionInfo} {fs₀ fs fs' : FileSystem} {refused : Bool}
    (h : Cleared cwd info fs₀ fs) (hn : Named info)
    (hr : createDirectory refused fs cwd (eventDirectory info) = some fs') : ∃ p, Fresh cwd info fs₀ fs' p := by
  have hs := components_leaf hn
  have hc := leaf_ne_nil info
  -- in both cases the place is free and `create_directory` puts the directory there
  obtain ⟨hdir, hstart⟩ : fs.isDirectory cwd (eventDirectory info) = false ∧
      ∀ p, fs.walkDir cwd (base info) = some p → fs.Concerned cwd (eventDirectory info) (p ++ [leaf info]) →
        fs.entry (p ++ [leaf info]) = none →
        fs₀.walkDir cwd (base info) = some p ∧ fs₀.Concerned cwd (eventDirectory info) (p ++ [leaf info]) ∧
        (∀ t, endsInSlash (eventDirectory info) = true → fs₀.entry (p ++ [leaf info]) ≠ some (.link t)) ∧
        ∀ q, ¬ p ++ [leaf info] <+: q → fs.entry q = fs₀.entry q := by
    rcases h with ⟨rfl, hdir⟩ | ⟨p, hp, hdot, hcon, hlink, rfl⟩
    · exact ⟨hdir, fun p hp hcon hnone => ⟨hp, hcon, fun t _ => by simp [hnone], fun q _ => rfl⟩⟩
    · have hp' : ∀ p', (fs₀.prune (p ++ [leaf info]) []).walkDir cwd (base info) = some p' → p' = p := fun p' h' => by
        rw [walkDir_keeps (keeps_of_prune fs₀ _ _) h', Option.some.injEq] at hp
        exact hp
      refine ⟨isDirectory_prune ⟨hc, hdot⟩ hs hp, fun p' h' _ _ => ?_⟩
      · have := hp' p' h'
        subst this
        exact ⟨hp, hcon, hlink, fun q hq => entry_prune_of_not_prefix _ _ hq⟩
  obtain ⟨p, hp, hdot, hnone, hcon, rfl⟩ := createDirectory_free hc hs hdir hr
  obtain ⟨h1, h2, h3, h4⟩ := hstart p hp hcon hnone
  have hpd := (walkDir_eq_some.mp hp).2
  have hput := entry_put fs hpd (n := leaf info) (by simp [hnone]) .dir
  refine ⟨p, h1, h2, h3, hdot, walkDir_keeps (keeps_put fs _ (by simp [hnone])) hp, by simp [hput], fun q hq hne => ?_,
    fun q hq => ?_⟩
  · obtain ⟨r, rfl⟩ := hq
    rw [hput, if_neg hne]
    exact fs.none_below (by simp [hnone]) (by rintro rfl; simp at hne)
  · rw [hput, if_neg (by rintro rfl; exact hq (List.prefix_refl _))]
    exact h4 q hq

/-! ## Its files -/

/-- The directory `b/<name>` has files only, and all but two of them are empty; nothing outside has changed. -/
structure Filled (cwd : Path) (info : ConnectionInfo) (fs₀ fs : FileSystem) (b : Path) : Prop where
  start : fs₀.walkDir cwd ["event".toList] = some b
  parent : fs.walkDir cwd ["event".toList] = some b
  noNul : '\x00' ∉ info.fileName
  noDot : isDot info.fileName = false
  dir : fs.entry (b ++ [info.fileName]) = some .dir
  files : ∀ q, b ++ [info.fileName] <+: q → q ≠ b ++ [info.fileName] → fs.entry q = none ∨
    ∃ n c, q = b ++ [info.fileName] ++ [n] ∧ fs.entry q = some (.file c) ∧
      (n ≠ info.fileName → n ≠ "enable".toList → c = [])
  outside : ∀ q, ¬ b ++ [info.fileName] <+: q → fs.entry q = fs₀.entry q

theorem Fresh.filled {cwd : Path} {info : ConnectionInfo} {fs₀ fs : FileSystem} {p : Path}
    (h : Fresh cwd info fs₀ fs p) (hn : Named info) (hnul : '\x00' ∉ info.fileName) : Filled cwd info fs₀ fs p := by
  obtain ⟨hb, hl⟩ := leaf_of_name hn hnul
  obtain ⟨h1, -, -, h4, h5, h6, h7, h8⟩ := h
  rw [hb] at h1 h5
  rw [hl] at h4 h6 h7 h8
  exact ⟨h1, h5, hnul, h4, h6, fun q hq hne => Or.inl (h7 q hq hne), h8⟩

/-- With a NUL in the name every file of the save is the new directory itself, and does not open. -/
theorem Fresh.openAt {cwd : Path} {info : ConnectionInfo} {fs₀ fs : FileSystem} {p : Path}
    (h : Fresh cwd info fs₀ fs p) (hn : Named info) (hnul : '\x00' ∈ info.fileName) (s : List Char) :
    fs.openAt cwd (eventDirectory info ++ s) = none := by
  have hs : components (eventDirectory info ++ s) = components (eventDirectory info) := by
    rw [components_of_nul hnul, ← components_of_nul hnul [], List.append_nil]
  have hd : fs.walkDir cwd (components (eventDirectory info)) = some (p ++ [leaf info]) := by
    rw [walkDir_components (components_leaf hn), walkDir,
      walk_child ⟨leaf_ne_nil info, h.noDot⟩ h.parent (by simp [h.dir])]
    simp [h.dir]
  obtain ⟨hw, hdir⟩ := walkDir_eq_some.mp hd
  rw [FileSystem.openAt, hs, hw]
  simp [hdir]

namespace Filled

variable {cwd : Path} {info : ConnectionInfo} {fs₀ fs : FileSystem} {b : Path}

theorem entry_ne_dir (h : Filled cwd info fs₀ fs b) (n : List Char) :
    fs.entry (b ++ [info.fileName] ++ [n]) ≠ some .dir := by
  rcases h.files (b ++ [info.fileName] ++ [n]) (List.prefix_append _ _) (by simp) with he | ⟨_, c, -, he, -⟩ <;>
    (rw [he]; simp)

theorem entry_ne_link (h : Filled cwd info fs₀ fs b) (n t : List Char) :
    fs.entry (b ++ [info.fileName] ++ [n]) ≠ some (.link t) := by
  rcases h.files (b ++ [info.fileName] ++ [n]) (List.prefix_append _ _) (by simp) with he | ⟨_, c, -, he, -⟩ <;>
    (rw [he]; simp)

theorem walkDir_event (h : Filled cwd info fs₀ fs b) (hn : Named info) :
    fs.walkDir cwd ["event".toList, info.fileName] = some (b ++ [info.fileName]) :=
  walkDir_eq_some.mpr ⟨walk_child ⟨hn.nonempty, h.noDot⟩ h.parent (by simp [h.dir]), h.dir⟩

/-- Whatever string begins with an ordinary component, a file opens under this component or does not. -/
theorem openAt_below (h : Filled cwd info fs₀ fs b) (hn : Named info) {s c : List Char} {more : List (List Char)}
    (hs : components s = c :: more) (hc : Ordinary c) {file : Path}
    (ho : fs.openAt cwd (eventDirectory info ++ s) = some file) :
    more = [] ∧ file = b ++ [info.fileName] ++ [c] := by
  have hw := walk_child hc (h.walkDir_event hn) (h.entry_ne_link c)
  simp only [FileSystem.openAt, components_of_name hn.noSlash h.noNul, hs, Option.bind_eq_some_iff] at ho
  obtain ⟨q, hq, ho⟩ := ho
  cases more with
  | nil =>
    rw [show ["event".toList, info.fileName, c] = ["event".toList, info.fileName] ++ [c] from rfl, hw,
      Option.some.injEq] at hq
    split_ifs at ho
    rw [Option.some.injEq] at ho
    exact ⟨rfl, by rw [← ho, hq]⟩
  | cons d more =>
    -- a path on from a file leads nowhere
    obtain ⟨r, hr⟩ := walkDir_of_append
      (show fs.walk maxLinks cwd (["event".toList, info.fileName] ++ [c] ++ d :: more) = some q from hq)
    obtain ⟨hr, hdir⟩ := walkDir_eq_some.mp hr
    rw [hw, Option.some.injEq] at hr
    exact absurd (hr ▸ hdir) (h.entry_ne_dir c)

theorem put (h : Filled cwd info fs₀ fs b) {n c : List Char} (hc : n ≠ info.fileName → n ≠ "enable".toList → c = []) :
    Filled cwd info fs₀ (fs.put (b ++ [info.fileName] ++ [n]) (.file c)) b := by
  have hput := entry_put fs h.dir (h.entry_ne_dir n) (.file c)
  have hfile : ∀ node, fs.entry (b ++ [info.fileName] ++ [n]) = some node → ∃ c, node = .file c := by
    intro node he
    rcases h.files (b ++ [info.fileName] ++ [n]) (List.prefix_append _ _) (by simp) with h' | ⟨_, c, -, h', -⟩
    · rw [h'] at he; cases he
    · rw [h', Option.some.injEq] at he; exact ⟨c, he.symm⟩
  refine ⟨h.start, walkDir_keeps (keeps_put fs _ hfile) h.parent, h.noNul, h.noDot, ?_, fun q hq hne => ?_,
    fun q hq => ?_⟩
  · rw [hput, if_neg (by simp)]
    exact h.dir
  · rw [hput]
    split_ifs with he
    · exact Or.inr ⟨n, c, he, rfl, hc⟩
    · exact h.files q hq hne
  · rw [hput, if_neg (by rintro rfl; exact hq (List.prefix_append _ _))]
    exact h.outside q hq

theorem create (h : Filled cwd info fs₀ fs b) (n : List Char) (trunc : Bool) :
    Filled cwd info fs₀ (fs.create (b ++ [info.fileName] ++ [n]) trunc) b := by
  unfold FileSystem.create
  split_ifs
  · exact h.put fun _ _ => rfl
  · exact h

theorem writeFile (h : Filled cwd info fs₀ fs b) {n : List Char} (hn : n = info.fileName ∨ n = "enable".toList)
    (bytes : List Char) : Filled cwd info fs₀ (fs.writeFile (b ++ [info.fileName] ++ [n]) bytes) b := by
  unfold FileSystem.writeFile
  split
  · exact h
  · exact h.put fun h1 h2 => (hn.elim h1 h2).elim

end Filled

/-! ## Every state of a save -/

/-- The file system at each place of the function. -/
def Shape (cwd : Path) (info : ConnectionInfo) (fs₀ : FileSystem) (s : Saving) : Prop :=
  match s.place with
  | .isDirectory => s.fs = fs₀
  | .removeAll => s.fs = fs₀ ∧ fs₀.isDirectory cwd (eventDirectory info) = true
  | .createDirectory => Cleared cwd info fs₀ s.fs
  | .openProgram => ∃ p, Fresh cwd info fs₀ s.fs p
  | .writeProgram file => ∃ b, Filled cwd info fs₀ s.fs b ∧ file = b ++ [info.fileName] ++ [info.fileName]
  | .openFps | .openEnable | .removeSaved =>
    ('\x00' ∈ info.fileName ∧ s.flag = true ∧ ∃ p, Fresh cwd info fs₀ s.fs p) ∨ ∃ b, Filled cwd info fs₀ s.fs b
  | .writeEnable file => ∃ b, Filled cwd info fs₀ s.fs b ∧ file = b ++ [info.fileName] ++ ["enable".toList]
  | .done _ => s.saved → ∃ b, Filled cwd info fs₀ s.fs b
  | .escaped => True

theorem ordinary_enable : Ordinary "enable".toList := ⟨by decide, by decide⟩

theorem step_shape {cwd : Path} {info : ConnectionInfo} {fs₀ : FileSystem} (hn : Named info) {s s' : Saving}
    (hs : Shape cwd info fs₀ s) (h : SaveStep cwd info s s') : Shape cwd info fs₀ s' := by
  -- a file that opens after line 93 is in the directory
  have hopen : ∀ {fs flag file t c more}, ('\x00' ∈ info.fileName ∧ flag = true ∧ ∃ p, Fresh cwd info fs₀ fs p) ∨
      (∃ b, Filled cwd info fs₀ fs b) → components t = c :: more → Ordinary c →
      fs.openAt cwd (eventDirectory info ++ t) = some file →
      ∃ b, Filled cwd info fs₀ fs b ∧ file = b ++ [info.fileName] ++ [c] := by
    rintro fs flag file t c more (⟨hnul, -, p, hp⟩ | ⟨b, hb⟩) ht hc ho
    · rw [hp.openAt hn hnul] at ho
      cases ho
    · exact ⟨b, hb, (hb.openAt_below hn ht hc ho).2⟩
  cases h with
  | refusedName => exact fun h => by simp [invalidName, Saving.saved] at h
  | there fs flag h =>
    obtain rfl : fs = fs₀ := hs
    exact ⟨rfl, h⟩
  | notThere fs flag h =>
    obtain rfl : fs = fs₀ := hs
    exact Or.inl ⟨rfl, h⟩
  | removed fs fs' flag threw stuck h =>
    obtain ⟨rfl, hdir⟩ : fs = fs₀ ∧ _ := hs
    cases threw with
    | true => exact fun h => by simp [invalidName, Saving.saved] at h
    | false => exact Or.inr (removeAll_clears (leaf_ne_nil info) (components_leaf hn) hdir h)
  | created fs fs' flag refused h => exact Cleared.created hs hn h
  | programClosed fs flag =>
    obtain ⟨p, hp⟩ : ∃ p, Fresh cwd info fs₀ fs p := hs
    by_cases hnul : '\x00' ∈ info.fileName
    · exact Or.inl ⟨hnul, rfl, p, hp⟩
    · exact Or.inr ⟨p, hp.filled hn hnul⟩
  | programOpen fs flag file h =>
    obtain ⟨p, hp⟩ : ∃ p, Fresh cwd info fs₀ fs p := hs
    by_cases hnul : '\x00' ∈ info.fileName
    · rw [hp.openAt hn hnul] at h
      cases h
    · have hb := hp.filled hn hnul
      obtain ⟨-, rfl⟩ := hb.openAt_below hn (components_single hnul hn.noSlash) ⟨hn.nonempty, hb.noDot⟩ h
      exact ⟨p, hb.create info.fileName true, rfl⟩
  | programWritten fs flag file n =>
    obtain ⟨b, hb, rfl⟩ : ∃ b, Filled cwd info fs₀ fs b ∧ file = _ := hs
    exact Or.inr ⟨b, hb.writeFile (Or.inl rfl) _⟩
  | fpsClosed fs flag =>
    rcases hs with ⟨hnul, -, hp⟩ | hb
    · exact Or.inl ⟨hnul, rfl, hp⟩
    · exact Or.inr hb
  | fpsOpen fs flag file h =>
    obtain ⟨n, hstoi⟩ := hn.number
    obtain ⟨c, more, hcs, hc⟩ := components_of_stoi hstoi
    obtain ⟨b, hb, rfl⟩ := hopen hs hcs hc h
    exact Or.inr ⟨b, hb.create _ _⟩
  | enableClosed fs flag =>
    rcases hs with ⟨hnul, -, hp⟩ | hb
    · exact Or.inl ⟨hnul, rfl, hp⟩
    · exact Or.inr hb
  | enableOpen fs flag file h =>
    obtain ⟨b, hb, rfl⟩ := hopen hs (components_single (by decide) (by decide)) ordinary_enable h
    cases flag with
    | true => exact Or.inr ⟨b, hb.create _ _⟩
    | false => exact ⟨b, hb.create "enable".toList false, rfl⟩
  | enableWritten fs flag file n =>
    obtain ⟨b, hb, rfl⟩ : ∃ b, Filled cwd info fs₀ fs b ∧ file = _ := hs
    exact fun _ => ⟨b, hb.writeFile (Or.inr rfl) _⟩
  | cleaned fs fs' flag threw stuck h =>
    cases threw with
    | true => exact trivial
    | false => exact fun h => by simp [Saving.saved] at h

/-- **The shape of the event directory** in every state of a save. -/
theorem shape_of_saves {cwd : Path} {info : ConnectionInfo} {fs₀ : FileSystem} (hn : Named info) {s : Saving}
    (h : Saves cwd info fs₀ s) : Shape cwd info fs₀ s := by
  refine Reach.invariant (Shape cwd info fs₀) ?_ (fun s a s' hs _ hst => step_shape hn hs (saveStep_sound hst)) h
  rintro s rfl
  rfl

end RpiCam.Http
