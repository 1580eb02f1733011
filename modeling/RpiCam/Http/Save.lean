import RpiCam.Http.Upload
import RpiCam.Lib.FileTree
import RpiCam.Lib.Transition

/-!
# Saving an upload

From line 63 on, `post_request_complete` makes the directory `event/<name>/` anew and writes three files into it: the
program under the name itself, an empty file whose name is the frame rate, and `enable`. Each call that reaches the file
system is one step, and `Os` is what the operating system makes of it, so a state of the machine is a file system that
another program could see.

* `Saving` : the file system, the place in the function, the local `flag`;
* `saveStep cwd info s os` : the next call; `none` at the end;
* `Saves cwd info fs s` : `s` is reached from the file system `fs`;
* `SaveStep` : the rules, `saveStep_sound` : every step is one of them.
-/

namespace RpiCam.Http

open Transition FileSystem

/-- What the operating system makes of a call: it refuses, it cannot remove these entries, it writes so many bytes. -/
structure Os where
  refused : Bool
  stuck : List Path
  written : Nat

def Os.able : Os := ⟨false, [], 2 ^ 64⟩

inductive SavePlace
  /-- 72. -/
  | isDirectory
  /-- 73. -/
  | removeAll
  /-- 75. -/
  | createDirectory
  /-- 93. -/
  | openProgram
  /-- 95, 96. -/
  | writeProgram (file : Path)
  /-- 106. -/
  | openFps
  /-- 119. -/
  | openEnable
  /-- 122, 123, and the answer of line 138. -/
  | writeEnable (file : Path)
  /-- 142. -/
  | removeSaved
  /-- After the response. -/
  | done (reply : Reply)
  /-- The exception of line 142 is not caught. -/
  | escaped
  deriving DecidableEq

structure Saving where
  fs : FileSystem
  place : SavePlace
  flag : Bool

/-- `event_directory`. -/
def eventDirectory (info : ConnectionInfo) : List Char := "event/".toList ++ info.fileName ++ "/".toList

theorem append_slash (d n t s : List Char) : d ++ ['/'] ++ n ++ t ++ s = d ++ '/' :: (n ++ t ++ s) := by simp

theorem components_eventDirectory (info : ConnectionInfo) (s : List Char) :
    components (eventDirectory info ++ s) = "event".toList :: components (info.fileName ++ "/".toList ++ s) :=
  (congrArg components (append_slash "event".toList info.fileName "/".toList s)).trans
    (components_cons (by decide) (by decide) _)

theorem ordinary_event : Ordinary "event".toList := ⟨by decide, by decide⟩

/-- Lines 76 to 90. -/
def invalidName : SavePlace := .done ⟨400, "Invalid file name"⟩

def saveStep (cwd : Path) (info : ConnectionInfo) (s : Saving) (os : Os) : Option Saving :=
  let dir := eventDirectory info
  match s.place with
  | .isDirectory =>
    if os.refused then some { s with place := invalidName }
    else if s.fs.isDirectory cwd dir then some { s with place := .removeAll }
    else some { s with place := .createDirectory }
  | .removeAll =>
    match FileSystem.removeAll os.stuck s.fs cwd dir with
    | (fs, true) => some { s with fs, place := invalidName }
    | (fs, false) => some { s with fs, place := .createDirectory }
  | .createDirectory =>
    match FileSystem.createDirectory os.refused s.fs cwd dir with
    | none => some { s with place := invalidName }
    | some fs => some { s with fs, place := .openProgram }
  | .openProgram =>
    match s.fs.openFile os.refused cwd (dir ++ info.fileName) true with
    | none => some { s with place := .openFps, flag := true }
    | some (file, fs) => some { s with fs, place := .writeProgram file }
  | .writeProgram file =>
    some { s with fs := s.fs.writeFile file (info.fileContent.take os.written), place := .openFps }
  | .openFps =>
    match s.fs.openFile os.refused cwd (dir ++ info.fps) false with
    | none => some { s with place := .openEnable, flag := true }
    | some (_, fs) => some { s with fs, place := .openEnable }
  | .openEnable =>
    match s.fs.openFile os.refused cwd (dir ++ "enable".toList) false with
    | none => some { s with place := .removeSaved, flag := true }
    | some (file, fs) => some { s with fs, place := if s.flag then .removeSaved else .writeEnable file }
  | .writeEnable file =>
    some { s with
      fs := s.fs.writeFile file ("1".toList.take os.written)
      place := .done ⟨200, "Program saved successfully"⟩ }
  | .removeSaved =>
    match FileSystem.removeAll os.stuck s.fs cwd dir with
    | (fs, true) => some { s with fs, place := .escaped }
    | (fs, false) => some { s with fs, place := .done ⟨200, "Program save Error"⟩ }
  | .done _ | .escaped => none

/-- Line 63, with the file system as it is then. -/
def Saving.begin (fs : FileSystem) : Saving := ⟨fs, .isDirectory, false⟩

/-- The states of a save that finds the file system `fs`. -/
def Saves (cwd : Path) (info : ConnectionInfo) (fs : FileSystem) (s : Saving) : Prop :=
  Reach (· = Saving.begin fs) (saveStep cwd info) (fun _ _ => True) s

def Saving.saved (s : Saving) : Prop := s.place = .done ⟨200, "Program saved successfully"⟩

theorem saves_begin (cwd : Path) (info : ConnectionInfo) (fs : FileSystem) : Saves cwd info fs (.begin fs) := .init rfl

theorem saves_removeAll {cwd : Path} {info : ConnectionInfo} {fs : FileSystem}
    (h : fs.isDirectory cwd (eventDirectory info) = true) :
    ∃ s, Saves cwd info fs s ∧ s.fs = (fs.removeAll [] cwd (eventDirectory info)).1 := by
  have hfirst : saveStep cwd info (.begin fs) Os.able = some ⟨fs, .removeAll, false⟩ := by
    simp [saveStep, Saving.begin, Os.able, h]
  refine ⟨⟨(fs.removeAll [] cwd (eventDirectory info)).1,
    if (fs.removeAll [] cwd (eventDirectory info)).2 then invalidName else .createDirectory, false⟩, ?_, rfl⟩
  refine .next Os.able (.next Os.able (saves_begin cwd info fs) trivial hfirst) trivial ?_
  simp only [saveStep, Os.able]
  rcases fs.removeAll [] cwd (eventDirectory info) with ⟨fs', _ | _⟩ <;> rfl

theorem saves_createDirectory {cwd : Path} {info : ConnectionInfo} {fs fs' : FileSystem}
    (h : fs.isDirectory cwd (eventDirectory info) = false)
    (hr : fs.createDirectory false cwd (eventDirectory info) = some fs') :
    Saves cwd info fs ⟨fs', .openProgram, false⟩ := by
  have hfirst : saveStep cwd info (.begin fs) Os.able = some ⟨fs, .createDirectory, false⟩ := by
    simp [saveStep, Saving.begin, Os.able, h]
  refine .next Os.able (.next Os.able (saves_begin cwd info fs) trivial hfirst) trivial ?_
  simp [saveStep, Os.able, hr]

/-! ## The steps -/

/-- The steps from `isDirectory` to `createDirectory`, and those that write. -/
inductive SaveStep (cwd : Path) (info : ConnectionInfo) : Saving → Saving → Prop
  | refusedName (fs : FileSystem) (flag : Bool) (place : SavePlace)
      (hp : place = .isDirectory ∨ place = .createDirectory) :
      SaveStep cwd info ⟨fs, place, flag⟩ ⟨fs, invalidName, flag⟩
  | there (fs : FileSystem) (flag : Bool) (h : fs.isDirectory cwd (eventDirectory info) = true) :
      SaveStep cwd info ⟨fs, .isDirectory, flag⟩ ⟨fs, .removeAll, flag⟩
  | notThere (fs : FileSystem) (flag : Bool) (h : fs.isDirectory cwd (eventDirectory info) = false) :
      SaveStep cwd info ⟨fs, .isDirectory, flag⟩ ⟨fs, .createDirectory, flag⟩
  | removed (fs fs' : FileSystem) (flag threw : Bool) (stuck : List Path)
      (h : fs.removeAll stuck cwd (eventDirectory info) = (fs', threw)) :
      SaveStep cwd info ⟨fs, .removeAll, flag⟩ ⟨fs', if threw then invalidName else .createDirectory, flag⟩
  | created (fs fs' : FileSystem) (flag refused : Bool)
      (h : FileSystem.createDirectory refused fs cwd (eventDirectory info) = some fs') :
      SaveStep cwd info ⟨fs, .createDirectory, flag⟩ ⟨fs', .openProgram, flag⟩
  | programClosed (fs : FileSystem) (flag : Bool) : SaveStep cwd info ⟨fs, .openProgram, flag⟩ ⟨fs, .openFps, true⟩
  | programOpen (fs : FileSystem) (flag : Bool) (file : Path)
      (h : fs.openAt cwd (eventDirectory info ++ info.fileName) = some file) :
      SaveStep cwd info ⟨fs, .openProgram, flag⟩ ⟨fs.create file true, .writeProgram file, flag⟩
  | programWritten (fs : FileSystem) (flag : Bool) (file : Path) (n : Nat) :
      SaveStep cwd info ⟨fs, .writeProgram file, flag⟩ ⟨fs.writeFile file (info.fileContent.take n), .openFps, flag⟩
  | fpsClosed (fs : FileSystem) (flag : Bool) : SaveStep cwd info ⟨fs, .openFps, flag⟩ ⟨fs, .openEnable, true⟩
  | fpsOpen (fs : FileSystem) (flag : Bool) (file : Path)
      (h : fs.openAt cwd (eventDirectory info ++ info.fps) = some file) :
      SaveStep cwd info ⟨fs, .openFps, flag⟩ ⟨fs.create file false, .openEnable, flag⟩
  | enableClosed (fs : FileSystem) (flag : Bool) :
      SaveStep cwd info ⟨fs, .openEnable, flag⟩ ⟨fs, .removeSaved, true⟩
  | enableOpen (fs : FileSystem) (flag : Bool) (file : Path)
      (h : fs.openAt cwd (eventDirectory info ++ "enable".toList) = some file) :
      SaveStep cwd info ⟨fs, .openEnable, flag⟩
        ⟨fs.create file false, if flag then .removeSaved else .writeEnable file, flag⟩
  | enableWritten (fs : FileSystem) (flag : Bool) (file : Path) (n : Nat) :
      SaveStep cwd info ⟨fs, .writeEnable file, flag⟩
        ⟨fs.writeFile file ("1".toList.take n), .done ⟨200, "Program saved successfully"⟩, flag⟩
  | cleaned (fs fs' : FileSystem) (flag threw : Bool) (stuck : List Path)
      (h : fs.removeAll stuck cwd (eventDirectory info) = (fs', threw)) :
      SaveStep cwd info ⟨fs, .removeSaved, flag⟩
        ⟨fs', if threw then .escaped else .done ⟨200, "Program save Error"⟩, flag⟩

theorem openFile_eq_some {refused : Bool} {fs fs' : FileSystem} {cwd file : Path} {s : List Char} {trunc : Bool}
    (h : fs.openFile refused cwd s trunc = some (file, fs')) :
    fs.openAt cwd s = some file ∧ fs' = fs.create file trunc := by
  unfold FileSystem.openFile at h
  split_ifs at h
  simp only [Option.map_eq_some_iff, Prod.mk.injEq] at h
  obtain ⟨q, hq, rfl, rfl⟩ := h
  exact ⟨hq, rfl⟩

theorem saveStep_sound {cwd : Path} {info : ConnectionInfo} {s s' : Saving} {os : Os}
    (h : saveStep cwd info s os = some s') : SaveStep cwd info s s' := by
  obtain ⟨fs, place, flag⟩ := s
  cases place <;> simp only [saveStep, reduceCtorEq] at h
  case isDirectory =>
    split_ifs at h with h1 h2 <;> cases h
    · exact .refusedName fs flag _ (Or.inl rfl)
    · exact .there fs flag h2
    · exact .notThere fs flag (by simpa using h2)
  case removeAll =>
    split at h <;> rename_i hr <;> cases h
    · exact .removed fs _ flag true _ hr
    · exact .removed fs _ flag false _ hr
  case createDirectory =>
    split at h <;> rename_i hc <;> cases h
    · exact .refusedName fs flag _ (Or.inr rfl)
    · exact .created fs _ flag _ hc
  case openProgram =>
    split at h <;> rename_i ho <;> cases h
    · exact .programClosed fs flag
    · obtain ⟨hat, rfl⟩ := openFile_eq_some ho
      exact .programOpen fs flag _ hat
  case writeProgram file => cases h; exact .programWritten fs flag file _
  case openFps =>
    split at h <;> rename_i ho <;> cases h
    · exact .fpsClosed fs flag
    · obtain ⟨hat, rfl⟩ := openFile_eq_some ho
      exact .fpsOpen fs flag _ hat
  case openEnable =>
    split at h <;> rename_i ho <;> cases h
    · exact .enableClosed fs flag
    · obtain ⟨hat, rfl⟩ := openFile_eq_some ho
      exact .enableOpen fs flag _ hat
  case writeEnable file => cases h; exact .enableWritten fs flag file _
  case removeSaved =>
    split at h <;> rename_i hr <;> cases h
    · exact .cleaned fs _ flag true _ hr
    · exact .cleaned fs _ flag false _ hr

end RpiCam.Http
