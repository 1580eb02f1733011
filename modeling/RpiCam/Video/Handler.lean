import Mathlib.Data.List.DropRight
import Mathlib.Data.List.Sort
import RpiCam.Lib.CInt
import RpiCam.Lib.Stoi

/-!
# Recorded video

`VideoHandler` reads the directory of segments for two purposes. `process_video` joins those around an event, and
`remove_video` deletes those that are old. The name of a segment is the second at which it starts.

* `setFilename` : the names of the segments, in the order of their times;
* `selected`, `processVideo` : the segments of an event, and the call with its lock and its pipeline;
* `getVideo` : the file of an event;
* `removeLoop`, `removeVideo` : the deletions, and the call with its lock;
* `mem_setFilename`, `mem_selected`, `mem_removeLoop` : what the three lists have in them;
* `readable_iff`, `selected_ok_iff`, `removeLoop_ok_iff` : when nothing is thrown.

A directory is what one iteration over it finds, by a call that has the lock. The order of the names is arbitrary, and so
is that of names with equal times after `sort`. A mutex that is taken by hand stays taken where an exception passes.
-/

namespace RpiCam.Video

abbrev FileName := List Char

/-- What `video` in the settings says; times are seconds. -/
structure VideoConfig where
  splitTime : Int
  duration : Int
  maintainSec : Int
  vidPath : List Char
  fits : FitsInt splitTime ∧ FitsInt duration ∧ FitsInt maintainSec

/-- `split_time()`: nanoseconds. -/
def VideoConfig.splitTimeNs (c : VideoConfig) : Int := wrapInt (c.splitTime * 10 ^ 9)

/-- What a step of a `directory_iterator` finds. -/
inductive Visit
  | entry (name : FileName) (isRegularFile : Bool)
  /-- The iterator throws, or the status of the entry does. A directory that is not there is this visit alone. -/
  | fails
  deriving DecidableEq, Repr

/-- The exceptions that leave a call. -/
inductive Thrown
  | filesystem
  | stoi
  deriving DecidableEq, Repr

/-- `extension()` of the name of an entry: from the last `.` on, unless the name starts there. -/
def extension (name : FileName) : List Char :=
  if (name.rdropWhile fun c => c ≠ '.').length ≤ 1 then [] else '.' :: name.rtakeWhile fun c => c ≠ '.'

/-- What `set_filename` takes. -/
def isSegment (name : FileName) (isRegularFile : Bool) : Bool :=
  isRegularFile && extension name = ['.', 'm', 'p', '4']

/-- The loop of `set_filename`, lines 45 to 52. -/
def listFiles (files : List FileName) : List Visit → Except Thrown (List FileName)
  | [] => .ok files
  | .fails :: _ => .error .filesystem
  | .entry name isRegularFile :: visits =>
    if isSegment name isRegularFile then
      listFiles (if name ∈ files then files else files ++ [name]) visits
    else listFiles files visits

/-- Whether `stoi` takes the name. -/
def isNumbered (name : FileName) : Bool := (stoi name).isOk

/-- Line 55. Two or more names are each compared with another one, and a comparison throws where `stoi` does. -/
def sortFiles (files : List FileName) : Except Thrown (List FileName) :=
  if files.length < 2 then .ok files
  else if files.all isNumbered then
    .ok (files.mergeSort fun a b => decide ((stoi a).toOption.getD 0 ≤ (stoi b).toOption.getD 0))
  else .error .stoi

/-- `set_filename`, for a directory and an empty vector. -/
def setFilename (dir : List Visit) : Except Thrown (List FileName) :=
  match listFiles [] dir with
  | .error e => .error e
  | .ok files => sortFiles files

/-! ## `process_video` -/

/-- Lines 79, 80, 90 and 92, where `timestamp` is the time of the event and `split_time` and `duration` are ints. -/
def overlaps (c : VideoConfig) (timestamp fileTimestamp : Int) : Bool :=
  let splitTime := c.splitTimeNs.tdiv 1000000000
  let startTime := wrapInt (timestamp - c.duration)
  let endTime := wrapInt (timestamp + c.duration)
  let endFile := wrapInt (fileTimestamp + splitTime - 1)
  fileTimestamp ≤ endTime && endFile ≥ startTime

/-- The loop of `process_video`, lines 86 to 95. -/
def concatFile (c : VideoConfig) (timestamp : Int) : List FileName → Except Thrown (List FileName)
  | [] => .ok []
  | file :: files =>
    match stoi (upToDot file) with
    | .error _ => .error .stoi
    | .ok fileTimestamp =>
      match concatFile c timestamp files with
      | .error e => .error e
      | .ok later => .ok (if overlaps c timestamp fileTimestamp then file :: later else later)

/-- The segments `process_video` joins for an event at `timestamp`. -/
def selected (c : VideoConfig) (timestamp : Int) (dir : List Visit) : Except Thrown (List FileName) :=
  match setFilename dir with
  | .error e => .error e
  | .ok files => concatFile c timestamp files

/-- Lines 104 to 110. -/
def pipeline (c : VideoConfig) (eventId : List Char) (concat : List FileName) : List Char :=
  "concat name=c ! queue ! m.video_0 qtmux name=m ! filesink location=".toList ++ c.vidPath ++ "/event/".toList ++
    eventId ++ ".mp4".toList ++ concat.flatMap fun file =>
      " filesrc location=".toList ++ c.vidPath ++ "/".toList ++ file ++ " ! qtdemux ! h264parse ! c.".toList

/-- The messages the bus is asked for. -/
inductive BusMessage
  | error
  | eos
  deriving DecidableEq, Repr

/-- How GStreamer answers. -/
structure Gst where
  /-- `gst_parse_launch` makes a pipeline of the text. -/
  parses : List Char → Bool
  /-- The pipeline goes to `PLAYING`. -/
  plays : Bool
  /-- What the bus gives, second after second. -/
  bus : List (Option BusMessage)

/-- The bus loop, lines 138 to 170: it is left at the first message. -/
def busLoop : List (Option BusMessage) → Bool
  | [] => false
  | none :: bus => busLoop bus
  | some _ :: _ => true

inductive Outcome
  /-- It waits for `_file_lock` for ever. -/
  | blocked
  /-- It waits for a pipeline that sends no message. -/
  | running
  | threw (e : Thrown)
  | returned (ret : Int)
  deriving DecidableEq, Repr

/-- `_file_lock`, as a call finds or leaves it. -/
inductive FileLock
  | free
  /-- A call has it that will give it back. -/
  | held
  /-- Nobody gives it back: its call was left by an exception, or waits for ever. -/
  | kept
  deriving DecidableEq, Repr

/-- `process_video`, with the lock before and after it. A lock that is held is waited for. -/
def processVideo (c : VideoConfig) (lock : FileLock) (timestamp : Int) (eventId : List Char) (dir : List Visit)
    (gst : Gst) : FileLock × Outcome :=
  if lock = .kept then (.kept, .blocked)
  else
    match selected c timestamp dir with
    | .error e => (.kept, .threw e)
    | .ok concat =>
      if concat = [] then (.free, .returned (-1))
      else if !gst.parses (pipeline c eventId concat) then (.free, .returned (-1))
      else if !gst.plays then (.free, .returned (-1))
      else if busLoop gst.bus then (.free, .returned 0)
      else (.kept, .running)

def eventFile (c : VideoConfig) (eventId : List Char) : List Char :=
  c.vidPath ++ "/event/".toList ++ eventId ++ ".mp4".toList

/-- `get_video`. It looks at the path, not at the directory. -/
def getVideo (c : VideoConfig) (eventId : List Char) : Int :=
  if (eventFile c eventId).getLast?.all fun ch => ch = '/' then -1 else 0

/-! ## `remove_video` -/

def filePath (path : List Char) (file : FileName) : List Char := path ++ '/' :: file

/-- The loop of `remove_video`, lines 194 to 209: the paths that are deleted, and the exception that ends it. `refused`
are the paths whose removal throws. -/
def removeLoop (cutoff : Int) (path : List Char) (refused : List Char → Bool) :
    List FileName → List (List Char) × Option Thrown
  | [] => ([], none)
  | file :: files =>
    match stoi (upToDot file) with
    | .error _ => ([], some .stoi)
    | .ok fileTimestamp =>
      if fileTimestamp < cutoff then
        if refused (filePath path file) then ([], some .filesystem)
        else
          let later := removeLoop cutoff path refused files
          (filePath path file :: later.1, later.2)
      else removeLoop cutoff path refused files

/-- `now-(maintain_time)`, in `int`. -/
def cutoff (now maintainTime : Int) : Int := wrapInt (wrapInt now - maintainTime)

/-- What a `remove_video` at `now` that has the lock deletes, and its exception. -/
def removed (now maintainTime : Int) (path : List Char) (dir : List Visit) (refused : List Char → Bool) :
    List (List Char) × Option Thrown :=
  match setFilename dir with
  | .error e => ([], some e)
  | .ok files => removeLoop (cutoff now maintainTime) path refused files

/-- `remove_video`, with the lock as in `processVideo`. -/
def removeVideo (lock : FileLock) (now maintainTime : Int) (path : List Char) (dir : List Visit)
    (refused : List Char → Bool) : FileLock × Outcome :=
  if lock = .kept then (.kept, .blocked)
  else
    match (removed now maintainTime path dir refused).2 with
    | some e => (.kept, .threw e)
    | none => (.free, .returned 0)

/-! ## The segments of a directory -/

/-- `name` is a segment of the directory. -/
def Segment (dir : List Visit) (name : FileName) : Prop :=
  ∃ isRegularFile, isSegment name isRegularFile ∧ .entry name isRegularFile ∈ dir

theorem segment_nil (name : FileName) : ¬ Segment [] name := by
  rintro ⟨r, -, hr⟩
  cases hr

theorem segment_cons {dir : List Visit} {n name : FileName} {r : Bool} :
    Segment (.entry n r :: dir) name ↔ isSegment n r ∧ name = n ∨ Segment dir name := by
  unfold Segment
  constructor
  · rintro ⟨r', hseg, hmem⟩
    rcases List.mem_cons.mp hmem with he | hmem
    · cases he
      exact Or.inl ⟨hseg, rfl⟩
    · exact Or.inr ⟨r', hseg, hmem⟩
  · rintro (⟨hseg, rfl⟩ | ⟨r', hseg, hmem⟩)
    · exact ⟨r, hseg, List.mem_cons_self ..⟩
    · exact ⟨r', hseg, List.mem_cons_of_mem _ hmem⟩

theorem listFiles_ok_iff (files : List FileName) (dir : List Visit) :
    (∃ fs, listFiles files dir = .ok fs) ↔ .fails ∉ dir := by
  induction dir generalizing files with
  | nil => simp [listFiles]
  | cons v dir ih =>
    cases v with
    | fails => simp [listFiles]
    | entry name r =>
      unfold listFiles
      split_ifs with hseg hmem <;> simp [ih]

theorem mem_add {files : List FileName} {n name : FileName} :
    name ∈ (if n ∈ files then files else files ++ [n]) ↔ name ∈ files ∨ name = n := by
  split_ifs with h
  · constructor
    · exact Or.inl
    · rintro (hname | rfl)
      · exact hname
      · exact h
  · rw [List.mem_append, List.mem_singleton]

theorem mem_listFiles {files fs : List FileName} {dir : List Visit} (h : listFiles files dir = .ok fs)
    (name : FileName) :
    name ∈ fs ↔ name ∈ files ∨ Segment dir name := by
  induction dir generalizing files with
  | nil =>
    cases h
    simp [segment_nil]
  | cons v dir ih =>
    cases v with
    | fails => cases h
    | entry n r =>
      unfold listFiles at h
      rw [segment_cons]
      by_cases hseg : isSegment n r
      · rw [if_pos hseg] at h
        rw [ih h, mem_add, or_assoc]
        simp [hseg]
      · rw [if_neg hseg] at h
        rw [ih h]
        simp [hseg]

theorem sortFiles_perm {files fs : List FileName} (h : sortFiles files = .ok fs) : fs.Perm files := by
  unfold sortFiles at h
  split_ifs at h
  · cases h
    exact List.Perm.refl _
  · cases h
    exact List.mergeSort_perm _ _

/-- **`set_filename` gives the segments of the directory.** -/
theorem mem_setFilename {dir : List Visit} {fs : List FileName} (h : setFilename dir = .ok fs) (name : FileName) :
    name ∈ fs ↔ Segment dir name := by
  unfold setFilename at h
  cases hl : listFiles [] dir with
  | error e => rw [hl] at h; cases h
  | ok files =>
    rw [hl] at h
    rw [(sortFiles_perm h).mem_iff, mem_listFiles hl]
    simp

/-- A directory without a refusal and whose segments all have numbers. -/
def Readable (dir : List Visit) : Prop := .fails ∉ dir ∧ ∀ name, Segment dir name → isNumbered name

/-- A single segment is not compared, so its name may have no number. -/
theorem setFilename_of_readable {dir : List Visit} (h : Readable dir) : ∃ fs, setFilename dir = .ok fs := by
  obtain ⟨files, hl⟩ := (listFiles_ok_iff [] dir).mpr h.1
  have hall : files.all isNumbered := by
    rw [List.all_eq_true]
    intro name hname
    apply h.2
    simpa using (mem_listFiles hl name).mp hname
  simp only [setFilename, hl, sortFiles, hall, if_true]
  split_ifs <;> exact ⟨_, rfl⟩

theorem readable_iff {dir : List Visit} :
    Readable dir ↔ ∃ fs, setFilename dir = .ok fs ∧ ∀ name ∈ fs, isNumbered name := by
  constructor
  · intro h
    obtain ⟨fs, hfs⟩ := setFilename_of_readable h
    exact ⟨fs, hfs, fun name hname => h.2 name ((mem_setFilename hfs name).mp hname)⟩
  · rintro ⟨fs, hfs, hall⟩
    refine ⟨?_, fun name hname => hall name ((mem_setFilename hfs name).mpr hname)⟩
    rw [← listFiles_ok_iff []]
    unfold setFilename at hfs
    cases hl : listFiles [] dir with
    | error e => rw [hl] at hfs; cases hfs
    | ok files => exact ⟨files, rfl⟩

theorem isNumbered_iff {name : FileName} : isNumbered name ↔ ∃ n, stoi name = .ok n := by
  unfold isNumbered
  cases stoi name <;> simp [Except.isOk, Except.toBool]

/-! ## The two loops -/

theorem concatFile_ok_iff (c : VideoConfig) (timestamp : Int) (files : List FileName) :
    (∃ fs, concatFile c timestamp files = .ok fs) ↔ ∀ name ∈ files, isNumbered name := by
  induction files with
  | nil => simp [concatFile]
  | cons file files ih =>
    rw [List.forall_mem_cons, ← ih, isNumbered_iff]
    simp only [concatFile, stoi_upToDot]
    cases stoi file with
    | error e => simp
    | ok n => cases concatFile c timestamp files <;> simp

theorem mem_concatFile {c : VideoConfig} {timestamp : Int} {files fs : List FileName}
    (h : concatFile c timestamp files = .ok fs) (name : FileName) :
    name ∈ fs ↔ name ∈ files ∧ ∃ n, stoi name = .ok n ∧ overlaps c timestamp n := by
  induction files generalizing fs with
  | nil =>
    cases h
    simp
  | cons file files ih =>
    simp only [concatFile, stoi_upToDot] at h
    cases hn : stoi file with
    | error e => rw [hn] at h; cases h
    | ok n =>
      rw [hn] at h
      cases hl : concatFile c timestamp files with
      | error e => rw [hl] at h; cases h
      | ok later =>
        rw [hl] at h
        cases h
        rw [List.mem_cons]
        by_cases ho : overlaps c timestamp n
        · rw [if_pos ho, List.mem_cons, ih hl]
          constructor
          · rintro (rfl | ⟨hname, hrest⟩)
            · exact ⟨Or.inl rfl, n, hn, ho⟩
            · exact ⟨Or.inr hname, hrest⟩
          · rintro ⟨rfl | hname, hrest⟩
            · exact Or.inl rfl
            · exact Or.inr ⟨hname, hrest⟩
        · rw [if_neg ho, ih hl]
          constructor
          · rintro ⟨hname, hrest⟩
            exact ⟨Or.inr hname, hrest⟩
          · rintro ⟨rfl | hname, m, hm, hover⟩
            · rw [hn] at hm
              cases hm
              exact absurd hover ho
            · exact ⟨hname, m, hm, hover⟩

/-- **What `process_video` joins.** -/
theorem mem_selected {c : VideoConfig} {timestamp : Int} {dir : List Visit} {fs : List FileName}
    (h : selected c timestamp dir = .ok fs) (name : FileName) :
    name ∈ fs ↔ Segment dir name ∧ ∃ n, stoi name = .ok n ∧ overlaps c timestamp n := by
  unfold selected at h
  cases hl : setFilename dir with
  | error e => rw [hl] at h; cases h
  | ok files =>
    rw [hl] at h
    rw [mem_concatFile h, mem_setFilename hl]

theorem selected_ok_iff (c : VideoConfig) (timestamp : Int) (dir : List Visit) :
    (∃ fs, selected c timestamp dir = .ok fs) ↔ Readable dir := by
  rw [readable_iff]
  unfold selected
  cases setFilename dir with
  | error e => simp
  | ok files => simp [concatFile_ok_iff]

theorem processVideo_returned_iff (c : VideoConfig) (lock : FileLock) (timestamp : Int) (eventId : List Char)
    (dir : List Visit) (gst : Gst) :
    (∃ ret, (processVideo c lock timestamp eventId dir gst).2 = .returned ret) ↔
      lock ≠ .kept ∧ Readable dir ∧ ∀ concat, selected c timestamp dir = .ok concat → concat ≠ [] →
        gst.parses (pipeline c eventId concat) → gst.plays → busLoop gst.bus := by
  rw [← selected_ok_iff c timestamp]
  by_cases hlock : lock = .kept
  · simp [processVideo, hlock]
  · unfold processVideo
    cases selected c timestamp dir with
    | error e => simp [hlock]
    | ok concat =>
      by_cases hc : concat = []
      · simp [hlock, hc]
      · cases hparses : gst.parses (pipeline c eventId concat) <;> cases gst.plays <;> cases busLoop gst.bus <;>
          simp [hlock, hc, hparses]

/-- It returns 0 after any message of a pipeline that was started. -/
theorem processVideo_zero_iff (c : VideoConfig) (lock : FileLock) (timestamp : Int) (eventId : List Char)
    (dir : List Visit) (gst : Gst) :
    (processVideo c lock timestamp eventId dir gst).2 = .returned 0 ↔
      lock ≠ .kept ∧ ∃ concat, selected c timestamp dir = .ok concat ∧ concat ≠ [] ∧
        gst.parses (pipeline c eventId concat) = true ∧ gst.plays = true ∧ busLoop gst.bus = true := by
  by_cases hlock : lock = .kept
  · simp [processVideo, hlock]
  · unfold processVideo
    cases selected c timestamp dir with
    | error e => simp [hlock]
    | ok concat =>
      by_cases hc : concat = []
      · simp [hlock, hc]
      · cases hparses : gst.parses (pipeline c eventId concat) <;> cases gst.plays <;> cases busLoop gst.bus <;>
          simp [hlock, hc, hparses]

theorem getVideo_eq (c : VideoConfig) (eventId : List Char) : getVideo c eventId = 0 := by
  have hlast : (eventFile c eventId).getLast? = some '4' := by
    rw [eventFile, List.getLast?_append_of_ne_nil _ (by decide)]
    rfl
  rw [getVideo, hlast]
  rfl

theorem mem_removeLoop {cutoff : Int} {path p : List Char} {refused : List Char → Bool} {files : List FileName}
    (h : p ∈ (removeLoop cutoff path refused files).1) :
    ∃ file ∈ files, p = filePath path file ∧ ∃ n, stoi file = .ok n ∧ n < cutoff := by
  induction files with
  | nil => cases h
  | cons file files ih =>
    simp only [removeLoop, stoi_upToDot] at h
    cases hn : stoi file with
    | error e => rw [hn] at h; cases h
    | ok n =>
      rw [hn] at h
      have hlater : p ∈ (removeLoop cutoff path refused files).1 →
          ∃ file' ∈ file :: files, p = filePath path file' ∧ ∃ n, stoi file' = .ok n ∧ n < cutoff := by
        intro hp
        obtain ⟨file', hmem, hrest⟩ := ih hp
        exact ⟨file', List.mem_cons_of_mem _ hmem, hrest⟩
      dsimp only at h
      split_ifs at h with hlt href
      · cases h
      · rcases List.mem_cons.mp h with h | h
        · exact ⟨file, List.mem_cons_self .., h, n, hn, hlt⟩
        · exact hlater h
      · exact hlater h

/-- A removal before the cutoff throws. -/
def Stuck (cutoff : Int) (path : List Char) (refused : List Char → Bool) (name : FileName) : Prop :=
  ∃ n, stoi name = .ok n ∧ n < cutoff ∧ refused (filePath path name)

theorem removeLoop_ok_iff (cutoff : Int) (path : List Char) (refused : List Char → Bool) (files : List FileName) :
    (removeLoop cutoff path refused files).2 = none ↔
      ∀ name ∈ files, isNumbered name ∧ ¬ Stuck cutoff path refused name := by
  induction files with
  | nil => simp [removeLoop]
  | cons file files ih =>
    rw [List.forall_mem_cons, ← ih, isNumbered_iff]
    simp only [Stuck, removeLoop, stoi_upToDot]
    cases stoi file with
    | error e => simp
    | ok n =>
      by_cases hlt : n < cutoff
      · cases href : refused (filePath path file) <;> simp [hlt]
      · simp [hlt]

theorem mem_removed {now maintainTime : Int} {path p : List Char} {dir : List Visit} {refused : List Char → Bool}
    (h : p ∈ (removed now maintainTime path dir refused).1) :
    ∃ name, Segment dir name ∧ p = filePath path name ∧ ∃ n, stoi name = .ok n ∧ n < cutoff now maintainTime := by
  unfold removed at h
  cases hl : setFilename dir with
  | error e => rw [hl] at h; cases h
  | ok files =>
    rw [hl] at h
    obtain ⟨name, hname, hrest⟩ := mem_removeLoop h
    exact ⟨name, (mem_setFilename hl name).mp hname, hrest⟩

theorem removed_ok_iff (now maintainTime : Int) (path : List Char) (dir : List Visit) (refused : List Char → Bool) :
    (removed now maintainTime path dir refused).2 = none ↔
      Readable dir ∧ ∀ name, Segment dir name → ¬ Stuck (cutoff now maintainTime) path refused name := by
  rw [readable_iff]
  unfold removed
  cases hl : setFilename dir with
  | error e => simp
  | ok files => simp [removeLoop_ok_iff, ← mem_setFilename hl, forall_and]

end RpiCam.Video
