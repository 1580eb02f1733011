import RpiCam.Http.FailedSave

/-!
# Two uploads of one name

The server runs `post_request_complete` on several threads, and nothing keeps two of them from saving into one directory.

* `Uploads`, `uploadsStep` : two saves on one file system, in any interleaving of their calls;
* `uploaded` : what the directory of an upload is to hold, and nothing else;
* `Apart` : an upload has the directory to itself until it ends, and the one that fills it last makes it and does not fail;
* `Stage` : the directory while an upload fills it, `step_stage`;
* `uploads_atomic` : what two uploads that keep apart leave is that of one of them.

`remove_all` is one step, although it is not one for the operating system.
-/

namespace RpiCam.Http

open Transition FileSystem

/-! ## Two saves -/

/-- A file system and the two saves on it. -/
structure Uploads where
  fs : FileSystem
  place : Bool → SavePlace
  flag : Bool → Bool

namespace Uploads

/-- Both are at line 63. -/
def begin (fs : FileSystem) : Uploads := ⟨fs, fun _ => .isDirectory, fun _ => false⟩

def saving (v : Uploads) (i : Bool) : Saving := ⟨v.fs, v.place i, v.flag i⟩

/-- One of the saves after a step. -/
def set (v : Uploads) (i : Bool) (s : Saving) : Uploads :=
  ⟨s.fs, Function.update v.place i s.place, Function.update v.flag i s.flag⟩

@[simp] theorem saving_set (v : Uploads) (i : Bool) (s : Saving) : (v.set i s).saving i = s := by
  simp [saving, set]

end Uploads

/-- A call of one of the two. -/
def uploadsStep (cwd : Path) (info : Bool → ConnectionInfo) (v : Uploads) (a : Bool × Os) : Option Uploads :=
  (saveStep cwd (info a.1) (v.saving a.1) a.2).map (v.set a.1)

/-- Up to `create_directory`. -/
def SavePlace.begins : SavePlace → Bool
  | .isDirectory | .removeAll | .createDirectory => true
  | .openProgram | .writeProgram _ | .openFps | .openEnable | .writeEnable _ | .removeSaved | .done _ | .escaped => false

/-- From `create_directory` on, until the answer. -/
def SavePlace.fills : SavePlace → Bool
  | .openProgram | .writeProgram _ | .openFps | .openEnable | .writeEnable _ | .removeSaved => true
  | .isDirectory | .removeAll | .createDirectory | .done _ | .escaped => false

/-- The save changes nothing while the other fills the directory. Unless the other is still to fill it, the directory is
made where there is none, and the call succeeds. -/
structure Apart (cwd : Path) (info : Bool → ConnectionInfo) (v : Uploads) (a : Bool × Os) : Prop where
  alone : v.place a.1 ≠ .isDirectory → (v.place !a.1).fills = false
  makes : (v.place !a.1).begins = false → v.place a.1 = .createDirectory →
    v.fs.isDirectory cwd (eventDirectory (info a.1)) = false
  succeeds : (v.place !a.1).begins = false → saveFails cwd (info a.1) (v.saving a.1) a.2 = false

/-! ## What an upload is to leave -/

/-- The program, the empty file for the rate, and `enable`. -/
def savedFiles (info : ConnectionInfo) : List Char → Option (List Char) :=
  Function.update (Function.update (Function.update (fun _ => none) info.fileName (some info.fileContent))
    (cStr info.fps) (some [])) "enable".toList (some "1".toList)

def directoryOf (files : List Char → Option (List Char)) : Path → Option Node
  | [] => some .dir
  | [n] => (files n).map .file
  | _ => none

/-- What the directory of the event is to hold. -/
def uploaded (info : ConnectionInfo) : Path → Option Node := directoryOf (savedFiles info)

/-- The three files have three names. -/
structure Distinct (info : ConnectionInfo) : Prop where
  fps : info.fileName ≠ cStr info.fps
  enable : info.fileName ≠ "enable".toList

/-- The files in the directory `d`. -/
def Files (fs : FileSystem) (d : Path) (files : List Char → Option (List Char)) : Prop :=
  ∀ n, fs.entry (d ++ [n]) = (files n).map .file

variable {cwd : Path} {info : ConnectionInfo} {fs fs₀ : FileSystem} {d b : Path}
  {files : List Char → Option (List Char)}

theorem Files.put (h : Files fs d files) (hd : fs.entry d = some .dir) (n c : List Char) :
    Files (fs.put (d ++ [n]) (.file c)) d (Function.update files n (some c)) := by
  have hfile : fs.entry (d ++ [n]) ≠ some .dir := by
    rw [h n]
    cases files n <;> simp
  intro m
  rw [entry_put fs hd hfile]
  by_cases hm : m = n
  · subst hm
    rw [if_pos rfl, Function.update_self]
    rfl
  · rw [if_neg (by simpa using hm), Function.update_of_ne hm]
    exact h m

theorem Files.create (h : Files fs d files) (hd : fs.entry d = some .dir) {n : List Char} {trunc : Bool}
    (hn : trunc = true ∨ files n = none) :
    Files (fs.create (d ++ [n]) trunc) d (Function.update files n (some [])) := by
  have hnew : trunc = true ∨ fs.entry (d ++ [n]) = none := by
    apply hn.imp_right
    intro hnone
    rw [h n, hnone]
    rfl
  unfold FileSystem.create
  rw [if_pos hnew]
  exact h.put hd n []

theorem Files.writeFile (h : Files fs d files) (hd : fs.entry d = some .dir) {n : List Char} (hn : files n = some [])
    (bytes : List Char) : Files (fs.writeFile (d ++ [n]) bytes) d (Function.update files n (some bytes)) := by
  have hcontent : fs.content (d ++ [n]) = some [] := by
    unfold FileSystem.content
    rw [h n, hn]
    rfl
  unfold FileSystem.writeFile
  rw [hcontent]
  exact h.put hd n bytes

theorem contents_of_files {s : List Char} (hw : fs.walkDir cwd (components s) = some d) (h : Files fs d files) :
    fs.contents cwd s = some (directoryOf files) := by
  have hd := (walkDir_eq_some.mp hw).2
  unfold FileSystem.contents
  rw [hw, Option.map_some]
  congr 1
  funext q
  cases q with
  | nil => rw [List.append_nil, hd]; rfl
  | cons n q =>
    cases q with
    | nil => exact h n
    | cons m q =>
      have hfile : fs.entry (d ++ [n]) ≠ some .dir := by
        rw [h n]
        cases files n <;> simp
      rw [List.append_cons]
      exact fs.none_below hfile (by simp)

/-! ## While an upload fills the directory -/

/-- The new directory `b/<name>` has these files. -/
structure Holds (cwd : Path) (info : ConnectionInfo) (fs : FileSystem) (b : Path)
    (files : List Char → Option (List Char)) : Prop where
  filled : ∃ fs₀, Filled cwd info fs₀ fs b
  files : Files fs (b ++ [info.fileName]) files

theorem Holds.dir (h : Holds cwd info fs b files) : fs.entry (b ++ [info.fileName]) = some .dir := by
  obtain ⟨fs₀, hf⟩ := h.filled
  exact hf.dir

theorem Holds.openFile (h : Holds cwd info fs b files) (hn : Named info) {s c : List Char} (hs : components s = [c])
    (hc : Ordinary c) {refused trunc : Bool} {file : Path} {fs' : FileSystem}
    (ho : fs.openFile refused cwd (eventDirectory info ++ s) trunc = some (file, fs'))
    (hnew : trunc = true ∨ files c = none) :
    file = b ++ [info.fileName] ++ [c] ∧ Holds cwd info fs' b (Function.update files c (some [])) := by
  obtain ⟨fs₀, hf⟩ := h.filled
  obtain ⟨hat, rfl⟩ := openFile_eq_some ho
  obtain ⟨-, rfl⟩ := hf.openAt_below hn hs hc hat
  exact ⟨rfl, ⟨fs₀, hf.create c trunc⟩, h.files.create h.dir hnew⟩

theorem Holds.writeFile (h : Holds cwd info fs b files) {n : List Char}
    (hn : n = info.fileName ∨ n = "enable".toList) (he : files n = some []) (bytes : List Char) :
    Holds cwd info (fs.writeFile (b ++ [info.fileName] ++ [n]) bytes) b (Function.update files n (some bytes)) := by
  obtain ⟨fs₀, hf⟩ := h.filled
  exact ⟨⟨fs₀, hf.writeFile hn bytes⟩, h.files.writeFile h.dir he bytes⟩

theorem Holds.contents (h : Holds cwd info fs b files) (hn : Named info) :
    fs.contents cwd (eventDirectory info) = some (directoryOf files) := by
  obtain ⟨fs₀, hf⟩ := h.filled
  obtain ⟨hbase, hleaf⟩ := leaf_of_name hn hf.noNul
  have hw : fs.walkDir cwd (components (eventDirectory info)) = some (b ++ [info.fileName]) := by
    rw [walkDir_components (components_leaf hn), hbase, hleaf]
    exact hf.walkDir_event hn
  exact contents_of_files hw h.files

def programFile (info : ConnectionInfo) (content : List Char) : List Char → Option (List Char) :=
  Function.update (fun _ => none) info.fileName (some content)

def rateFile (info : ConnectionInfo) : List Char → Option (List Char) :=
  Function.update (programFile info info.fileContent) (cStr info.fps) (some [])

/-- The directory of the event at each place of the save that makes it. -/
def Stage (cwd : Path) (info : ConnectionInfo) (s : Saving) : Prop :=
  match s.place with
  | .isDirectory | .removeAll | .createDirectory => True
  | .openProgram => ∃ fs₀ p, Fresh cwd info fs₀ s.fs p
  | .writeProgram file =>
    ∃ b, file = b ++ [info.fileName] ++ [info.fileName] ∧ Holds cwd info s.fs b (programFile info [])
  | .openFps => ∃ b, Holds cwd info s.fs b (programFile info info.fileContent)
  | .openEnable => ∃ b, Holds cwd info s.fs b (rateFile info)
  | .writeEnable file => ∃ b, file = b ++ [info.fileName] ++ ["enable".toList] ∧
    Holds cwd info s.fs b (Function.update (rateFile info) "enable".toList (some []))
  | .removeSaved | .escaped => False
  | .done _ => s.fs.contents cwd (eventDirectory info) = some (uploaded info)

theorem components_fps {c : List Char} (h : components info.fps = [c]) : c = cStr info.fps := by
  have hjoin : ['/'].intercalate ((cStr info.fps).splitOn '/') = cStr info.fps := List.intercalate_splitOn '/'
  rw [show (cStr info.fps).splitOn '/' = [c] from h] at hjoin
  simpa using hjoin

theorem cStr_fps_ne_enable (hn : Named info) : cStr info.fps ≠ "enable".toList := by
  obtain ⟨n, hstoi⟩ := hn.number
  obtain ⟨pre, d, rest, hs, hd, hpre⟩ := stoi_ok_digit hstoi
  intro he
  rw [he] at hs
  have hhead := congrArg List.head? hs
  cases pre with
  | nil =>
    obtain rfl : 'e' = d := Option.some.inj hhead
    exact absurd hd (by decide)
  | cons c pre =>
    obtain rfl : 'e' = c := Option.some.inj hhead
    exact absurd (hpre _ (List.mem_cons_self ..)) (by decide)

theorem Fresh.openProgram (h : Fresh cwd info fs₀ fs b) (hn : Named info) {refused : Bool} {file : Path}
    {fs' : FileSystem} (ho : fs.openFile refused cwd (eventDirectory info ++ info.fileName) true = some (file, fs')) :
    file = b ++ [info.fileName] ++ [info.fileName] ∧ Holds cwd info fs' b (programFile info []) := by
  have hnul : '\x00' ∉ info.fileName := by
    intro hnul
    have hat := (openFile_eq_some ho).1
    rw [h.openAt hn hnul] at hat
    cases hat
  have hholds : Holds cwd info fs b fun _ => none := by
    refine ⟨⟨fs₀, h.filled hn hnul⟩, ?_⟩
    intro n
    have hbelow := h.below (b ++ [leaf info] ++ [n]) (List.prefix_append _ _) (by simp)
    rwa [(leaf_of_name hn hnul).2] at hbelow
  have hordinary : Ordinary info.fileName := ⟨hn.nonempty, (h.filled hn hnul).noDot⟩
  exact hholds.openFile hn (components_single hnul hn.noSlash) hordinary ho (.inl rfl)

theorem Holds.openFps (h : Holds cwd info fs b (programFile info info.fileContent)) (hn : Named info)
    (hd : Distinct info) {refused : Bool} {file : Path} {fs' : FileSystem}
    (ho : fs.openFile refused cwd (eventDirectory info ++ info.fps) false = some (file, fs')) :
    Holds cwd info fs' b (rateFile info) := by
  obtain ⟨n, hstoi⟩ := hn.number
  obtain ⟨c, more, hcs, hc⟩ := components_of_stoi hstoi
  obtain ⟨fs₀, hf⟩ := h.filled
  obtain ⟨rfl, -⟩ := hf.openAt_below hn hcs hc (openFile_eq_some ho).1
  obtain rfl := components_fps hcs
  have hfree : programFile info info.fileContent (cStr info.fps) = none := Function.update_of_ne hd.fps.symm _ _
  exact (h.openFile hn hcs hc ho (.inr hfree)).2

theorem Holds.openEnable (h : Holds cwd info fs b (rateFile info)) (hn : Named info) (hd : Distinct info)
    {refused : Bool} {file : Path} {fs' : FileSystem}
    (ho : fs.openFile refused cwd (eventDirectory info ++ "enable".toList) false = some (file, fs')) :
    file = b ++ [info.fileName] ++ ["enable".toList] ∧
      Holds cwd info fs' b (Function.update (rateFile info) "enable".toList (some [])) := by
  have hfree : rateFile info "enable".toList = none := by
    unfold rateFile programFile
    rw [Function.update_of_ne (cStr_fps_ne_enable hn).symm, Function.update_of_ne hd.enable.symm]
  exact h.openFile hn (components_single (by decide) (by decide)) ordinary_enable ho (.inr hfree)

/-- **One call of the upload that fills the directory.** -/
theorem step_stage (hn : Named info) (hd : Distinct info) {s s' : Saving} {os : Os} (hflag : s.flag = false)
    (hstage : Stage cwd info s)
    (hmakes : s.place = .createDirectory → s.fs.isDirectory cwd (eventDirectory info) = false)
    (hok : saveFails cwd info s os = false) (h : saveStep cwd info s os = some s') :
    s'.flag = false ∧ Stage cwd info s' := by
  obtain ⟨fs, place, flag⟩ := s
  cases place with
  | isDirectory =>
    have hrefused : os.refused = false := hok
    simp only [saveStep, hrefused, Bool.false_eq_true, if_false] at h
    split_ifs at h <;> cases h <;> exact ⟨hflag, trivial⟩
  | removeAll =>
    cases hr : FileSystem.removeAll os.stuck fs cwd (eventDirectory info) with
    | mk fs' threw =>
      simp only [saveFails, hr] at hok
      subst hok
      simp only [saveStep, hr] at h
      cases h
      exact ⟨hflag, trivial⟩
  | createDirectory =>
    simp only [saveFails, Option.isNone_eq_false_iff, Option.isSome_iff_exists] at hok
    obtain ⟨fs', hc⟩ := hok
    simp only [saveStep, hc] at h
    cases h
    obtain ⟨p, hp⟩ := Cleared.created (.inl ⟨rfl, hmakes rfl⟩) hn hc
    exact ⟨hflag, fs, p, hp⟩
  | openProgram =>
    obtain ⟨fs₀, p, hfresh⟩ := hstage
    simp only [saveFails, Option.isNone_eq_false_iff, Option.isSome_iff_exists] at hok
    obtain ⟨⟨file, fs'⟩, ho⟩ := hok
    simp only [saveStep, ho] at h
    cases h
    exact ⟨hflag, p, hfresh.openProgram hn ho⟩
  | writeProgram file =>
    obtain ⟨b, rfl, hholds⟩ := hstage
    have hwhole : info.fileContent.take os.written = info.fileContent := by
      apply List.take_of_length_le
      simpa [saveFails] using hok
    simp only [saveStep, hwhole] at h
    cases h
    refine ⟨hflag, b, ?_⟩
    have hwrite := hholds.writeFile (.inl rfl) (Function.update_self ..) info.fileContent
    rwa [programFile, Function.update_idem] at hwrite
  | openFps =>
    obtain ⟨b, hholds⟩ := hstage
    simp only [saveFails, Option.isNone_eq_false_iff, Option.isSome_iff_exists] at hok
    obtain ⟨⟨file, fs'⟩, ho⟩ := hok
    simp only [saveStep, ho] at h
    cases h
    exact ⟨hflag, b, hholds.openFps hn hd ho⟩
  | openEnable =>
    obtain ⟨b, hholds⟩ := hstage
    simp only [saveFails, Option.isNone_eq_false_iff, Option.isSome_iff_exists] at hok
    obtain ⟨⟨file, fs'⟩, ho⟩ := hok
    simp only [saveStep, ho] at h
    cases h
    obtain rfl : flag = false := hflag
    exact ⟨rfl, b, hholds.openEnable hn hd ho⟩
  | writeEnable file =>
    obtain ⟨b, rfl, hholds⟩ := hstage
    have hwhole : "1".toList.take os.written = "1".toList := by
      apply List.take_of_length_le
      have : os.written ≠ 0 := by simpa [saveFails] using hok
      show 1 ≤ os.written
      omega
    simp only [saveStep, hwhole] at h
    cases h
    refine ⟨hflag, ?_⟩
    have hwrite := hholds.writeFile (.inr rfl) (Function.update_self ..) "1".toList
    rw [Function.update_idem] at hwrite
    exact hwrite.contents hn
  | removeSaved => exact hstage.elim
  | done | escaped => cases h

/-! ## Both -/

/-- In a run of two uploads that keep apart at most one fills the directory. If it is the last to do so, nothing has failed
in it; and in the end the directory is that of one of them. -/
structure Orderly (cwd : Path) (info : Bool → ConnectionInfo) (v : Uploads) : Prop where
  flag : ∀ i, (v.place i).begins = true → v.flag i = false
  alone : ∀ i, (v.place i).fills = true → (v.place !i).fills = false
  stage : ∀ i, (v.place i).fills = true → (v.place !i).begins = false →
    v.flag i = false ∧ Stage cwd (info i) (v.saving i)
  whole : (∀ i, (v.saving i).ended) → ∃ i, v.fs.contents cwd (eventDirectory (info i)) = some (uploaded (info i))

theorem SavePlace.fills_of_begins {p : SavePlace} (h : p.begins = true) : p.fills = false := by
  cases p with
  | isDirectory | removeAll | createDirectory => rfl
  | _ => cases h

theorem Saving.ended.place {s : Saving} (h : s.ended) : s.place.begins = false ∧ s.place.fills = false := by
  obtain ⟨reply, hp⟩ | hp := h <;> rw [hp] <;> exact ⟨rfl, rfl⟩

theorem stage_of_begins {s : Saving} (h : s.place.begins = true) : Stage cwd info s := by
  obtain ⟨fs, place, flag⟩ := s
  cases place with
  | isDirectory | removeAll | createDirectory => trivial
  | _ => cases h

theorem begins_or_fills {s s' : Saving} {os : Os} (h : saveStep cwd info s os = some s') :
    s.place.begins = true ∨ s.place.fills = true := by
  obtain ⟨fs, place, flag⟩ := s
  cases place with
  | isDirectory | removeAll | createDirectory => exact .inl rfl
  | done | escaped => cases h
  | _ => exact .inr rfl

theorem flag_of_begins {s s' : Saving} {os : Os} (h : saveStep cwd info s os = some s') (hb : s'.place.begins = true) :
    s.place.begins = true ∧ s'.flag = s.flag := by
  cases saveStep_sound h with
  | there | notThere => exact ⟨rfl, rfl⟩
  | removed fs fs' flag threw =>
    cases threw with
    | true => cases hb
    | false => exact ⟨rfl, rfl⟩
  | enableOpen fs flag => cases flag <;> cases hb
  | cleaned fs fs' flag threw => cases threw <;> cases hb
  | _ => cases hb

theorem begins_of_check {s s' : Saving} {os : Os} (hp : s.place = .isDirectory) (hok : saveFails cwd info s os = false)
    (h : saveStep cwd info s os = some s') : s'.place.begins = true := by
  obtain ⟨fs, place, flag⟩ := s
  dsimp only at hp
  subst hp
  have hrefused : os.refused = false := hok
  simp only [saveStep, hrefused, Bool.false_eq_true, if_false] at h
  split_ifs at h <;> cases h <;> rfl

/-- At the end of the save the directory is the one that the upload is to leave. -/
theorem Stage.of_ended {s : Saving} (h : Stage cwd info s) (hended : s.ended) :
    s.fs.contents cwd (eventDirectory info) = some (uploaded info) := by
  unfold Stage at h
  obtain ⟨reply, hp⟩ | hp := hended
  · rw [hp] at h
    exact h
  · rw [hp] at h
    exact h.elim

theorem Orderly.set {info : Bool → ConnectionInfo} {v : Uploads} {i : Bool} {s : Saving} (hv : Orderly cwd info v)
    (hflag : s.place.begins = true → s.flag = false)
    (hstage : s.place.fills = true → (v.place !i).begins = false → s.flag = false ∧ Stage cwd (info i) s)
    (halone : s.place.fills = true → (v.place !i).fills = false)
    (hother : (v.place !i).fills = true → s.place.begins = true)
    (hwhole : s.ended → (v.saving !i).ended →
      ∃ j, s.fs.contents cwd (eventDirectory (info j)) = some (uploaded (info j))) :
    Orderly cwd info (v.set i s) := by
  have hplace : (v.set i s).place i = s.place := Function.update_self ..
  have hplace' : (v.set i s).place (!i) = v.place !i := Function.update_of_ne (Bool.not_ne_self i) _ _
  have hset : (v.set i s).flag i = s.flag := Function.update_self ..
  have hset' : (v.set i s).flag (!i) = v.flag !i := Function.update_of_ne (Bool.not_ne_self i) _ _
  have heither : ∀ j, j = i ∨ j = !i := fun j => by cases i <;> cases j <;> simp
  refine ⟨?_, ?_, ?_, ?_⟩
  · intro j hb
    obtain rfl | rfl := heither j
    · rw [hplace] at hb
      rw [hset]
      exact hflag hb
    · rw [hplace'] at hb
      rw [hset']
      exact hv.flag _ hb
  · intro j hf
    obtain rfl | rfl := heither j
    · rw [hplace] at hf
      rw [hplace']
      exact halone hf
    · rw [hplace'] at hf
      rw [Bool.not_not, hplace]
      exact SavePlace.fills_of_begins (hother hf)
  · intro j hf hb
    obtain rfl | rfl := heither j
    · rw [hplace] at hf
      rw [hplace'] at hb
      rw [hset, Uploads.saving_set]
      exact hstage hf hb
    · rw [hplace'] at hf
      rw [Bool.not_not, hplace, hother hf] at hb
      cases hb
  · intro hended
    have hend := hended i
    rw [Uploads.saving_set] at hend
    have hend' := hended !i
    unfold Saving.ended Uploads.saving at hend'
    dsimp only at hend'
    rw [hplace'] at hend'
    exact hwhole hend hend'

theorem step_orderly {info : Bool → ConnectionInfo} (hn : ∀ i, Named (info i)) (hd : ∀ i, Distinct (info i))
    {v v' : Uploads} {a : Bool × Os} (hv : Orderly cwd info v) (ha : Apart cwd info v a)
    (h : uploadsStep cwd info v a = some v') : Orderly cwd info v' := by
  obtain ⟨i, os⟩ := a
  unfold uploadsStep at h
  rw [Option.map_eq_some_iff] at h
  obtain ⟨s, hs, rfl⟩ := h
  have hflag : s.place.begins = true → s.flag = false := by
    intro hb
    obtain ⟨hb', he⟩ := flag_of_begins hs hb
    rw [he]
    exact hv.flag i hb'
  cases hk : (v.place !i).begins with
  | true =>
    -- the other is still to fill the directory: nothing has to hold of this one
    have hfills := SavePlace.fills_of_begins hk
    apply hv.set hflag
    · intro _ hb
      rw [hk] at hb
      cases hb
    · exact fun _ => hfills
    · intro hf
      rw [hfills] at hf
      cases hf
    · intro _ hended
      have hb := hended.place.1
      rw [show (v.saving !i).place = v.place !i from rfl, hk] at hb
      cases hb
  | false =>
    have hok := ha.succeeds hk
    cases hf : (v.place !i).fills with
    | true =>
      -- the other fills it: this one can be at its check only, and is still to fill it afterwards
      have hp : v.place i = .isDirectory := by
        by_contra hne
        rw [ha.alone hne] at hf
        cases hf
      have hb : s.place.begins = true := begins_of_check hp hok hs
      have hfills := SavePlace.fills_of_begins hb
      apply hv.set hflag
      · intro hfs
        rw [hfills] at hfs
        cases hfs
      · intro hfs
        rw [hfills] at hfs
        cases hfs
      · exact fun _ => hb
      · intro hended
        rw [hended.place.1] at hb
        cases hb
    | false =>
      -- the other has ended: this one is the last
      have hbefore : v.flag i = false ∧ Stage cwd (info i) (v.saving i) := by
        obtain hb | hfi := begins_or_fills hs
        · exact ⟨hv.flag i hb, stage_of_begins hb⟩
        · exact hv.stage i hfi hk
      obtain ⟨hsflag, hsstage⟩ := step_stage (hn i) (hd i) hbefore.1 hbefore.2 (ha.makes hk) hok hs
      apply hv.set hflag
      · exact fun _ _ => ⟨hsflag, hsstage⟩
      · exact fun _ => hf
      · intro hfk
        rw [hf] at hfk
        cases hfk
      · intro hended _
        exact ⟨i, hsstage.of_ended hended⟩

/-- **Two uploads of one name that keep apart**: once both are complete, the directory has exactly the three files of one of
them. -/
theorem uploads_atomic {info : Bool → ConnectionInfo} {body : Bool → String}
    (haccepted : ∀ i, programReply (info i) = .ok ⟨200, body i⟩) (hname : (info true).fileName = (info false).fileName)
    (hdistinct : ∀ i, Distinct (info i)) {cwd : Path} {fs : FileSystem} {v : Uploads}
    (h : Reach (· = Uploads.begin fs) (uploadsStep cwd info) (Apart cwd info) v) (hended : ∀ i, (v.saving i).ended) :
    ∃ i, v.fs.contents cwd (eventDirectory (info true)) = some (uploaded (info i)) := by
  have horderly : Orderly cwd info v := by
    apply h.invariant (Orderly cwd info)
    · rintro v rfl
      refine ⟨fun _ _ => rfl, fun _ _ => rfl, fun _ hf => ?_, fun hended => ?_⟩
      · cases hf
      · obtain ⟨reply, hp⟩ | hp := hended true <;> cases hp
    · intro v a v' hv ha hst
      exact step_orderly (fun i => named_of_reply (haccepted i)) hdistinct hv ha hst
  obtain ⟨i, hi⟩ := horderly.whole hended
  refine ⟨i, ?_⟩
  have hdir : eventDirectory (info true) = eventDirectory (info i) := by
    cases i with
    | true => rfl
    | false => exact congrArg (fun name => "event/".toList ++ name ++ "/".toList) hname
  rw [hdir, hi]

def apart (cwd : Path) (info : Bool → ConnectionInfo) (v : Uploads) (a : Bool × Os) : Bool :=
  (decide (v.place a.1 = .isDirectory) || !(v.place !a.1).fills) &&
    ((v.place !a.1).begins ||
      (decide (v.place a.1 ≠ .createDirectory) || !v.fs.isDirectory cwd (eventDirectory (info a.1))) &&
        !saveFails cwd (info a.1) (v.saving a.1) a.2)

theorem apart_of_check {cwd : Path} {info : Bool → ConnectionInfo} (v : Uploads) (a : Bool × Os)
    (h : apart cwd info v a = true) : Apart cwd info v a := by
  simp only [apart, Bool.and_eq_true, Bool.or_eq_true, decide_eq_true_eq, Bool.not_eq_true'] at h
  obtain ⟨halone, hlast⟩ := h
  have hlast : (v.place !a.1).begins = false → _ := fun hb => hlast.resolve_left (by rw [hb]; exact Bool.false_ne_true)
  exact ⟨halone.resolve_left, fun hb hp => (hlast hb).1.resolve_left (not_not_intro hp), fun hb => (hlast hb).2⟩

/-- The uploads of two programs `cam`, at 30 and at 15 frames a second. -/
def camUploads (i : Bool) : ConnectionInfo :=
  { uploadOf "cam".toList with
    fps := if i then "30".toList else "15".toList
    fileContent := if i then ['x'] else ['y'] }

theorem accepted_camUploads (i : Bool) : programReply (camUploads i) = .ok ⟨200, "program file saved"⟩ := by
  cases i <;> rfl

theorem distinct_camUploads (i : Bool) : Distinct (camUploads i) := by
  cases i <;> exact ⟨by decide, by decide⟩

def eventsTree : FileSystem := bare.put ["event".toList] .dir

/-- One upload after the other. -/
def inTurn : List (Bool × Os) := List.replicate 7 (true, .able) ++ List.replicate 8 (false, .able)

theorem uploads_atomic_inTurn : ∃ v : Uploads, (∀ i, (v.saving i).ended) ∧
    ∃ i, v.fs.contents [] (eventDirectory (camUploads true)) = some (uploaded (camUploads i)) := by
  have hsome : (run (checked (apart [] camUploads) (uploadsStep [] camUploads)) (.begin eventsTree) inTurn).isSome := by
    decide +kernel
  obtain ⟨v, hv⟩ := Option.isSome_iff_exists.mp hsome
  have hplace : ∀ i, ((run (checked (apart [] camUploads) (uploadsStep [] camUploads)) (.begin eventsTree) inTurn).map
      fun v => v.place i) = some (.done ⟨200, "Program saved successfully"⟩) := by decide +kernel
  have hended : ∀ i, (v.saving i).ended := by
    intro i
    have hp := hplace i
    rw [hv] at hp
    exact .inl ⟨_, Option.some.inj hp⟩
  exact ⟨v, hended, uploads_atomic accepted_camUploads rfl distinct_camUploads
    (.of_checked _ apart_of_check (.init rfl) hv) hended⟩

/-- Both check for the directory before either makes it. -/
def mixed : List (Bool × Os) :=
  [(true, .able), (false, .able)] ++ List.replicate 6 (true, .able) ++ List.replicate 6 (false, .able)

/-- **A directory of two uploads**: both are answered that they are saved, and there are two rates and an `enable` that
says `11`. -/
theorem mixed_uploads : ∃ v : Uploads,
    Reach (· = Uploads.begin eventsTree) (uploadsStep [] camUploads) (fun _ _ => True) v ∧
    (∀ i, (v.saving i).saved) ∧
    ¬ ∃ i, v.fs.contents [] (eventDirectory (camUploads true)) = some (uploaded (camUploads i)) := by
  have hsome : (run (uploadsStep [] camUploads) (.begin eventsTree) mixed).isSome := by decide +kernel
  obtain ⟨v, hv⟩ := Option.isSome_iff_exists.mp hsome
  have hplace : ∀ i, ((run (uploadsStep [] camUploads) (.begin eventsTree) mixed).map fun v => v.place i) =
      some (.done ⟨200, "Program saved successfully"⟩) := by decide +kernel
  have henable : ((run (uploadsStep [] camUploads) (.begin eventsTree) mixed).bind fun v =>
      (v.fs.contents [] (eventDirectory (camUploads true))).map fun c => c ["enable".toList]) =
      some (some (.file "11".toList)) := by decide +kernel
  rw [hv] at hplace henable
  refine ⟨v, .of_run (.init rfl) hv, fun i => Option.some.inj (hplace i), ?_⟩
  rintro ⟨i, hi⟩
  have hfile : uploaded (camUploads i) ["enable".toList] = some (.file "11".toList) := by
    rw [Option.bind_some, hi] at henable
    exact Option.some.inj henable
  revert hfile
  cases i <;> decide +kernel

end RpiCam.Http
