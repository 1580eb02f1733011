import RpiCam.Http.EventDirectory

/-!
# A save that fails

`post_request_complete` removes the directory of an event before it can know that it will fill it again.

* `saveFails` : a call of the save that fails, `Attempt` : a save, and whether a call of it has failed;
* `KeepsContents` : where one has, the directory is in the end as it was;
* `keepsContents_iff` : exactly where a save can change nothing;
* `saves_untouched`, `lost_program`, `left_directory` : the two directions of this.
-/

namespace RpiCam.Http

open Transition FileSystem

/-! ## Failures -/

/-- The next call fails: it throws, it opens no file, or it does not write all it is to write. -/
def saveFails (cwd : Path) (info : ConnectionInfo) (s : Saving) (os : Os) : Bool :=
  let dir := eventDirectory info
  match s.place with
  | .isDirectory => os.refused
  | .removeAll => (FileSystem.removeAll os.stuck s.fs cwd dir).2
  | .createDirectory => (FileSystem.createDirectory os.refused s.fs cwd dir).isNone
  | .openProgram => (s.fs.openFile os.refused cwd (dir ++ info.fileName) true).isNone
  | .writeProgram _ => decide (os.written < info.fileContent.length)
  | .openFps => (s.fs.openFile os.refused cwd (dir ++ info.fps) false).isNone
  | .openEnable => (s.fs.openFile os.refused cwd (dir ++ "enable".toList) false).isNone
  | .writeEnable _ => decide (os.written = 0)
  | .removeSaved | .done _ | .escaped => false

/-- A save, and whether one of its calls has failed. -/
structure Attempt where
  saving : Saving
  failed : Bool

def attemptStep (cwd : Path) (info : ConnectionInfo) (a : Attempt) (os : Os) : Option Attempt :=
  (saveStep cwd info a.saving os).map fun s => ⟨s, a.failed || saveFails cwd info a.saving os⟩

def Attempt.begin (fs : FileSystem) : Attempt := ⟨.begin fs, false⟩

/-- The states of an attempt that finds the file system `fs`. -/
def Attempts (cwd : Path) (info : ConnectionInfo) (fs : FileSystem) (a : Attempt) : Prop :=
  Reach (· = Attempt.begin fs) (attemptStep cwd info) (fun _ _ => True) a

/-- The function has returned, or was left by the exception. -/
def Saving.ended (s : Saving) : Prop := (∃ reply, s.place = .done reply) ∨ s.place = .escaped

/-- Whatever fails, the directory of the event is in the end as it was. -/
def KeepsContents (cwd : Path) (info : ConnectionInfo) (fs : FileSystem) : Prop :=
  ∀ a, Attempts cwd info fs a → a.failed = true → a.saving.ended →
    a.saving.fs.contents cwd (eventDirectory info) = fs.contents cwd (eventDirectory info)

variable {cwd : Path} {info : ConnectionInfo} {fs : FileSystem}

theorem Attempts.saves {a : Attempt} (h : Attempts cwd info fs a) : Saves cwd info fs a.saving := by
  induction h with
  | init he =>
    rw [he]
    exact saves_begin cwd info fs
  | next os _ _ hst ih =>
    unfold attemptStep at hst
    rw [Option.map_eq_some_iff] at hst
    obtain ⟨s, hs, rfl⟩ := hst
    exact ih.next os trivial hs

/-! ## Where nothing is concerned -/

/-- The save has changed nothing, and has not come past line 75. -/
def Untouched (cwd : Path) (info : ConnectionInfo) (fs : FileSystem) (s : Saving) : Prop :=
  s.fs = fs ∧
    match s.place with
    | .isDirectory | .done _ => True
    | .removeAll => fs.isDirectory cwd (eventDirectory info) = true
    | .createDirectory => fs.isDirectory cwd (eventDirectory info) = false
    | _ => False

theorem step_untouched (hn : Named info) (hcon : ∀ q, ¬ fs.Concerned cwd (eventDirectory info) q) {s s' : Saving}
    (hs : Untouched cwd info fs s) (h : SaveStep cwd info s s') : Untouched cwd info fs s' := by
  obtain ⟨he, hp⟩ := hs
  cases h with
  | refusedName => exact ⟨he, trivial⟩
  | there fs₁ flag h =>
    obtain rfl : fs₁ = fs := he
    exact ⟨rfl, h⟩
  | notThere fs₁ flag h =>
    obtain rfl : fs₁ = fs := he
    exact ⟨rfl, h⟩
  | removed fs₁ fs' flag threw stuck h =>
    obtain rfl : fs₁ = fs := he
    have hkeep : fs' = fs₁ := by
      ext1 q
      have hq := removeAll_entry stuck hp q
      rw [h] at hq
      exact hq.resolve_right fun hq => hcon q hq.2
    cases threw with
    | true => exact ⟨hkeep, trivial⟩
    | false =>
      obtain ⟨p, -, -, hc, -, -⟩ := removeAll_clears (leaf_ne_nil info) (components_leaf hn) hp h
      exact absurd hc (hcon _)
  | created fs₁ fs' flag refused h =>
    obtain rfl : fs₁ = fs := he
    obtain ⟨p, -, -, -, hc, -⟩ := createDirectory_free (leaf_ne_nil info) (components_leaf hn) hp h
    exact absurd hc (hcon _)
  | _ => exact absurd hp id

/-- **Where nothing is concerned, a save changes nothing.** -/
theorem saves_untouched (hn : Named info) (hcon : ∀ q, ¬ fs.Concerned cwd (eventDirectory info) q) {s : Saving}
    (h : Saves cwd info fs s) : Untouched cwd info fs s := by
  apply Reach.invariant (Untouched cwd info fs) _ (fun s a s' hs _ hst => step_untouched hn hcon hs (saveStep_sound hst)) h
  rintro s rfl
  exact ⟨rfl, trivial⟩

/-! ## Where something is concerned -/

theorem attempts_of_run {calls : List Os} {a : Attempt}
    (h : run (attemptStep cwd info) (.begin fs) calls = some a) : Attempts cwd info fs a := .of_run (.init rfl) h

/-- A call that is refused. -/
def Os.unable : Os := ⟨true, [], 0⟩

/-- **A program that is lost**: there is something in the directory to remove, and then it is not made again. -/
theorem lost_program (hn : Named info) (hdir : fs.isDirectory cwd (eventDirectory info) = true) {q : Path}
    (hq : (fs.removeAll [] cwd (eventDirectory info)).1.entry q ≠ fs.entry q) : ¬ KeepsContents cwd info fs := by
  intro hk
  cases hr : fs.removeAll [] cwd (eventDirectory info) with
  | mk fs' threw =>
    rw [hr] at hq
    cases threw with
    | true =>
      obtain ⟨t, ht, rfl⟩ := removeAll_empties hr
      have hrun : run (attemptStep cwd info) (.begin fs) [.able, .able] =
          some ⟨⟨fs.prune t [t], invalidName, false⟩, true⟩ := by
        simp [run_cons, attemptStep, Attempt.begin, Saving.begin, saveStep, saveFails, Os.able, hdir, hr]
      have he := hk _ (attempts_of_run hrun) rfl (.inl ⟨_, rfl⟩)
      obtain ⟨r, rfl⟩ : t <+: q := by
        by_contra hpre
        apply hq
        exact entry_prune_of_not_prefix _ _ hpre
      exact contents_ne (keeps_of_prune fs t [t]) ht hq he
    | false =>
      obtain ⟨p, hp, hdot, -, -, rfl⟩ := removeAll_clears (leaf_ne_nil info) (components_leaf hn) hdir hr
      have hgone := isDirectory_prune ⟨leaf_ne_nil info, hdot⟩ (components_leaf hn) hp
      have hrefused := createDirectory_refused (leaf_ne_nil info) (components_leaf hn) hgone
      have hrun : run (attemptStep cwd info) (.begin fs) [.able, .able, .unable] =
          some ⟨⟨fs.prune (p ++ [leaf info]) [], invalidName, false⟩, true⟩ := by
        simp [run_cons, attemptStep, Attempt.begin, Saving.begin, saveStep, saveFails, Os.able, Os.unable, hdir, hr,
          hrefused]
      have he := congrArg Option.isSome (hk _ (attempts_of_run hrun) rfl (.inl ⟨_, rfl⟩))
      rw [contents_isSome, contents_isSome, hgone, hdir] at he
      cases he

/-- **A directory that is left**: it is made, no file opens, and it cannot be removed. -/
theorem left_directory (hn : Named info) (hdir : fs.isDirectory cwd (eventDirectory info) = false) {fs' : FileSystem}
    (hr : fs.createDirectory false cwd (eventDirectory info) = some fs') : ¬ KeepsContents cwd info fs := by
  intro hk
  obtain ⟨p, hfresh⟩ := Cleared.created (.inl ⟨rfl, hdir⟩) hn hr
  have hstuck := removeAll_stuck ⟨leaf_ne_nil info, hfresh.noDot⟩ (components_leaf hn) hfresh.parent hfresh.dir hfresh.below
  have hthere : fs'.isDirectory cwd (eventDirectory info) = true := by
    rw [isDirectory, walkDir_components (components_leaf hn), walkDir,
      walk_child ⟨leaf_ne_nil info, hfresh.noDot⟩ hfresh.parent (by simp [hfresh.dir])]
    simp [hfresh.dir]
  have hrun : run (attemptStep cwd info) (.begin fs)
      [.able, .able, .unable, .unable, .unable, ⟨false, [p ++ [leaf info]], 0⟩] =
      some ⟨⟨fs', .escaped, true⟩, true⟩ := by
    simp [run_cons, attemptStep, Attempt.begin, Saving.begin, saveStep, saveFails, Os.able, Os.unable, hdir, hr,
      openFile, hstuck]
  have he := congrArg Option.isSome (hk _ (attempts_of_run hrun) rfl (.inr rfl))
  rw [contents_isSome, contents_isSome, hthere, hdir] at he
  cases he

/-- **Failed saves**: one leaves the directory of the event as it was exactly where no save can change anything. -/
theorem keepsContents_iff {info : ConnectionInfo} {body : String} (h : programReply info = .ok ⟨200, body⟩) (cwd : Path)
    (fs : FileSystem) : KeepsContents cwd info fs ↔ ∀ q, ¬ fs.Concerned cwd (eventDirectory info) q := by
  have hn := named_of_reply h
  constructor
  · intro hk q hq
    obtain ⟨hdir, hne⟩ | ⟨hdir, fs', hr, -⟩ := concerned_changes (leaf_ne_nil info) (components_leaf hn) hq
    · exact lost_program hn hdir hne hk
    · exact left_directory hn hdir hr hk
  · intro hcon a ha _ _
    rw [(saves_untouched hn hcon ha.saves).1]

/-- A tree with the program `door`, where a file is in the way of the directory of `cam`. -/
def fileTree : FileSystem :=
  (((bare.put ["event".toList] .dir).put ["event".toList, "door".toList] .dir).put
    ["event".toList, "door".toList, "door".toList] (.file ['x'])).put ["event".toList, "cam".toList] (.file ['y'])

theorem keepsContents_iff_file : fileTree.isDirectory [] "event".toList = true ∧
    KeepsContents [] (uploadOf "cam".toList) fileTree := by
  have hcon : ∀ q, ¬ fileTree.Concerned [] (eventDirectory (uploadOf "cam".toList)) q := by
    rintro q ⟨p, last, hl, hq⟩
    rw [show fileTree.locate [] (eventDirectory (uploadOf "cam".toList)) = some (["event".toList], "cam".toList) by rfl,
      Option.some.injEq, Prod.mk.injEq] at hl
    obtain ⟨rfl, rfl⟩ := hl
    rw [if_neg (by decide)] at hq
    rcases hq.2 with ⟨hdir, -⟩ | ⟨hnone, -⟩
    · exact absurd hdir (by decide)
    · exact absurd hnone (by decide)
  exact ⟨rfl, (keepsContents_iff rfl [] fileTree).mpr hcon⟩

/-- A tree with the program `cam`, at 30 frames a second. -/
def camTree : FileSystem :=
  ((((bare.put ["event".toList] .dir).put ["event".toList, "cam".toList] .dir).put
    ["event".toList, "cam".toList, "cam".toList] (.file ['x'])).put
    ["event".toList, "cam".toList, "30".toList] (.file [])).put
    ["event".toList, "cam".toList, "enable".toList] (.file ['1'])

/-- **An upload that fails and takes the program with it**: the directory of `cam` is removed and not made again. -/
theorem lost_cam : programReply (uploadOf "cam".toList) = .ok ⟨200, "program file saved"⟩ ∧
    ¬ KeepsContents [] (uploadOf "cam".toList) camTree := by
  refine ⟨rfl, fun hk => ?_⟩
  have hrun : run (attemptStep [] (uploadOf "cam".toList)) (.begin camTree) [.able, .able, .unable] =
      some ⟨⟨camTree.prune ["event".toList, "cam".toList] [], invalidName, false⟩, true⟩ := rfl
  have he := congrArg Option.isSome (hk _ (attempts_of_run hrun) rfl (.inl ⟨_, rfl⟩))
  exact absurd he (by decide)

end RpiCam.Http
