import Mathlib.Logic.Function.Basic
import Mathlib.Tactic.Simps.Basic
import RpiCam.Lib.Mutex
import RpiCam.Lib.Transition
import RpiCam.Video.Removal

/-!
# The footage and its users

The recorder begins one segment after the other, threads of the HTTP server make clips of them (`process_video`), and
the remove thread sweeps them (`remove_video`). The last two take `_file_lock`; the recorder knows nothing of it.

* `Directory` : the entries of the directory of the segments, `History` : what has happened to them;
* `listing` : what an iteration over the directory may find while it changes;
* `Place` : the line a thread is at;
* `step` : the clock or the recorder goes on, or a thread does, up to the next place where another one can come between;
* `Rule`, `step_rule` : the steps by what they change.

An exception ends the call, and the lock stays taken. What `std::filesystem::remove` will refuse in a sweep is chosen when
the sweep begins; it asks for each path once. The clips are written into another directory, `event`.
-/

namespace RpiCam.Video

open Transition

/-- The names of the entries, and which of them are regular files. -/
abbrev Directory := List (FileName × Bool)

/-- A change of the directory. -/
inductive Change
  /-- The recorder has begun the segment of this time. -/
  | recorded (t : Int)
  | deleted (name : FileName)
  deriving DecidableEq

/-- A listing that begins with `before`, and the changes until its end: it has each entry that is there all the time,
and no other than these and those that come. It may also fail. -/
def listing (before : Directory) (changes : List Change) (dir : List Visit) : Bool :=
  (dir.all fun v => match v with
    | .entry name r => (name, r) ∈ before ∨ (r = true ∧ changes.any fun e => match e with
      | .recorded t => name = timeName t
      | .deleted _ => false)
    | .fails => true) &&
  (.fails ∈ dir ∨ before.all fun e => .deleted e.1 ∈ changes ∨ .entry e.1 e.2 ∈ dir)

/-- A `remove_video` that has its vector. `deleted`, for the record: the paths that it has removed. -/
structure Sweep where
  now : Int
  dir : List Visit
  refused : List Char → Bool
  deleted : List (List Char)

/-- Where a thread is: the line of `VideoHandler.cpp` it is about to run, with its local variables. -/
inductive Place
  | idle
  /-- 76. -/
  | clipLock (timestamp : Int) (eventId : List Char)
  /-- 83, to begin the iteration over the directory. -/
  | clipList (timestamp : Int) (eventId : List Char)
  /-- In the iteration: how the directory was, the changes so far, and the time. -/
  | clipListing (timestamp : Int) (eventId : List Char) (before : Directory) (mark : Nat) (begun : Int)
  /-- 103 to 179: the pipeline reads these files. `mark` and `begun` are those of the iteration. -/
  | clipping (timestamp : Int) (eventId : List Char) (concat : List FileName) (mark : Nat) (begun : Int)
  /-- 187. -/
  | sweepLock
  /-- 188, and to begin the iteration. -/
  | sweepTime
  | sweepListing (now : Int) (before : Directory) (mark : Nat) (refused : List Char → Bool)
  /-- 194 to 209, or 211 where the iterator is at the end. -/
  | sweeping (sweep : Sweep) (files : List FileName) (it : Nat)
  /-- An exception has left the call. -/
  | threw

/-- The places where the thread has `_file_lock`. -/
def Place.inside : Place → Bool
  | idle | clipLock _ _ | sweepLock => false
  | _ => true

/-- The directory, the clock, `_file_lock` and the threads. -/
structure Footage where
  folder : Directory
  clock : Int
  lock : Option Nat
  place : Nat → Place
  /-- For the record: the changes of the directory, and the sweeps that are over, with what they threw. -/
  history : List Change
  sweeps : List (Sweep × Option Thrown)

/-- How a thread goes on. -/
inductive WorkerAct
  | processVideo (timestamp : Int) (eventId : List Char)
  | removeVideo
  | lock
  /-- The iteration over the directory begins. -/
  | list (refused : List Char → Bool)
  /-- It is over and has found this. -/
  | listed (dir : List Visit)
  /-- The loop of `remove_video` goes on. -/
  | turn
  /-- GStreamer is done, in one way or the other. -/
  | finished

inductive FootageAct
  /-- The clock shows this. -/
  | tick (t : Int)
  /-- The recorder begins a segment. -/
  | record
  | worker (i : Nat) (a : WorkerAct)

/-- The body of the loop of `remove_video`, lines 196 to 208: how it leaves the name. -/
def sweepTurn (cutoff : Int) (path : List Char) (refused : List Char → Bool) (file : FileName) : LoopTurn Thrown :=
  match stoi (upToDot file) with
  | .error _ => .throw .stoi
  | .ok fileTimestamp =>
    if fileTimestamp < cutoff then if refused (filePath path file) then .throw .filesystem else .erase else .next

namespace Footage

def start (folder : Directory) (clock : Int) : Footage where
  folder := folder
  clock := clock
  lock := none
  place := fun _ => .idle
  history := []
  sweeps := []

variable (c : VideoConfig) (s : Footage)

@[simps] def goto (i : Nat) (p : Place) : Footage := { s with place := Function.update s.place i p }

/-- `_file_lock.unlock()`, and the call returns. -/
@[simps] def release (i : Nat) : Footage := { s.goto i .idle with lock := none }

def acquire (i : Nat) (p : Place) : Option Footage :=
  if s.lock = none then some { s.goto i p with lock := some i } else none

/-- The recorder begins the segment of this second. -/
def record : Footage :=
  { s with
    folder := if (timeName s.clock, true) ∈ s.folder then s.folder else s.folder ++ [(timeName s.clock, true)]
    history := s.history ++ [.recorded s.clock] }

/-- `std::filesystem::remove` of the path of a name. -/
def delete (name : FileName) : Footage :=
  { s with folder := s.folder.filter fun e => e.1 ≠ name, history := s.history ++ [.deleted name] }

/-- Lines 83 to 101. -/
def select (i : Nat) (timestamp : Int) (eventId : List Char) (mark : Nat) (begun : Int) (dir : List Visit) : Footage :=
  match selected c timestamp dir with
  | .error _ => s.goto i .threw
  | .ok [] => s.release i
  | .ok concat => s.goto i (.clipping timestamp eventId concat mark begun)

/-- Line 192 has its names. -/
def beginSweep (i : Nat) (now : Int) (refused : List Char → Bool) (dir : List Visit) : Footage :=
  match setFilename dir with
  | .error _ => s.goto i .threw
  | .ok files => s.goto i (.sweeping ⟨now, dir, refused, []⟩ files 0)

/-- Lines 194 to 209, once. -/
def sweepStep (i : Nat) (sweep : Sweep) (files : List FileName) (it : Nat) : Footage :=
  match files[it]? with
  | none => { s.release i with sweeps := s.sweeps ++ [(sweep, none)] }
  | some file =>
    match sweepTurn (cutoff sweep.now c.maintainSec) c.vidPath sweep.refused file with
    | .erase =>
      (s.delete file).goto i
        (.sweeping { sweep with deleted := sweep.deleted ++ [filePath c.vidPath file] } (files.eraseIdx it) it)
    | .next => s.goto i (.sweeping sweep files (it + 1))
    | .throw e => { s.goto i .threw with sweeps := s.sweeps ++ [(sweep, some e)] }

def stepWorker (i : Nat) (a : WorkerAct) : Place → Option Footage
  | .idle =>
    match a with
    | .processVideo timestamp eventId => some (s.goto i (.clipLock timestamp eventId))
    | .removeVideo => some (s.goto i .sweepLock)
    | _ => none
  | .clipLock timestamp eventId =>
    match a with
    | .lock => s.acquire i (.clipList timestamp eventId)
    | _ => none
  | .clipList timestamp eventId =>
    match a with
    | .list _ => some (s.goto i (.clipListing timestamp eventId s.folder s.history.length s.clock))
    | _ => none
  | .clipListing timestamp eventId before mark begun =>
    match a with
    | .listed dir =>
      if listing before (s.history.drop mark) dir then some (s.select c i timestamp eventId mark begun dir) else none
    | _ => none
  | .clipping _ _ _ _ _ =>
    match a with
    | .finished => some (s.release i)
    | _ => none
  | .sweepLock =>
    match a with
    | .lock => s.acquire i .sweepTime
    | _ => none
  | .sweepTime =>
    match a with
    | .list refused => some (s.goto i (.sweepListing s.clock s.folder s.history.length refused))
    | _ => none
  | .sweepListing now before mark refused =>
    match a with
    | .listed dir => if listing before (s.history.drop mark) dir then some (s.beginSweep i now refused dir) else none
    | _ => none
  | .sweeping sweep files it =>
    match a with
    | .turn => some (s.sweepStep c i sweep files it)
    | _ => none
  | .threw => none

/-- The clock does not go back, and the recorder needs a name that is no directory. -/
def step (s : Footage) : FootageAct → Option Footage
  | .tick t => if s.clock ≤ t then some { s with clock := t } else none
  | .record => if (timeName s.clock, false) ∉ s.folder then some s.record else none
  | .worker i a => s.stepWorker c i a (s.place i)

/-! ## The rules -/

variable {c s}

/-- The steps of a thread that change nothing but its place. -/
inductive Moves (c : VideoConfig) (s : Footage) : Place → Place → Prop
  | processVideo {timestamp eventId} : Moves c s .idle (.clipLock timestamp eventId)
  | removeVideo : Moves c s .idle .sweepLock
  | clipList {timestamp eventId} :
      Moves c s (.clipList timestamp eventId) (.clipListing timestamp eventId s.folder s.history.length s.clock)
  | sweepList {refused} : Moves c s .sweepTime (.sweepListing s.clock s.folder s.history.length refused)
  | select {timestamp eventId before mark begun dir concat} : listing before (s.history.drop mark) dir = true →
      selected c timestamp dir = .ok concat →
      Moves c s (.clipListing timestamp eventId before mark begun)
        (.clipping timestamp eventId concat mark begun)
  | clipThrows {timestamp eventId before mark begun} :
      Moves c s (.clipListing timestamp eventId before mark begun) .threw
  | sweep {now before mark refused dir files} : listing before (s.history.drop mark) dir = true →
      setFilename dir = .ok files →
      Moves c s (.sweepListing now before mark refused) (.sweeping ⟨now, dir, refused, []⟩ files 0)
  | sweepThrows {now before mark refused} : Moves c s (.sweepListing now before mark refused) .threw
  | next {sweep files it file} : files[it]? = some file →
      sweepTurn (cutoff sweep.now c.maintainSec) c.vidPath sweep.refused file = .next →
      Moves c s (.sweeping sweep files it) (.sweeping sweep files (it + 1))

/-- The places where `_file_lock` is taken. -/
inductive Takes : Place → Place → Prop
  | clip {timestamp eventId} : Takes (.clipLock timestamp eventId) (.clipList timestamp eventId)
  | sweep : Takes .sweepLock .sweepTime

/-- The places of `process_video` where it is given back. -/
inductive Gives : Place → Prop
  | noFiles {timestamp eventId before mark begun} : Gives (.clipListing timestamp eventId before mark begun)
  | finished {timestamp eventId concat mark begun} : Gives (.clipping timestamp eventId concat mark begun)

inductive Rule (c : VideoConfig) (s : Footage) : FootageAct → Footage → Prop
  | tick {t} : s.clock ≤ t → Rule c s (.tick t) { s with clock := t }
  | record : (timeName s.clock, false) ∉ s.folder → Rule c s .record s.record
  | move {i a p} : Moves c s (s.place i) p → Rule c s (.worker i a) (s.goto i p)
  | take {i a p} : Takes (s.place i) p → s.lock = none → Rule c s (.worker i a) { s.goto i p with lock := some i }
  | give {i a} : Gives (s.place i) → Rule c s (.worker i a) (s.release i)
  | erase {i a sweep files it file} : s.place i = .sweeping sweep files it → files[it]? = some file →
      sweepTurn (cutoff sweep.now c.maintainSec) c.vidPath sweep.refused file = .erase →
      Rule c s (.worker i a) ((s.delete file).goto i
        (.sweeping { sweep with deleted := sweep.deleted ++ [filePath c.vidPath file] } (files.eraseIdx it) it))
  | swept {i a sweep files it} : s.place i = .sweeping sweep files it → files.length ≤ it →
      Rule c s (.worker i a) { s.release i with sweeps := s.sweeps ++ [(sweep, none)] }
  | throws {i a sweep files it file e} : s.place i = .sweeping sweep files it → files[it]? = some file →
      sweepTurn (cutoff sweep.now c.maintainSec) c.vidPath sweep.refused file = .throw e →
      Rule c s (.worker i a) { s.goto i .threw with sweeps := s.sweeps ++ [(sweep, some e)] }

theorem acquire_rule {i : Nat} {a : WorkerAct} {p : Place} (hp : Takes (s.place i) p) {s' : Footage}
    (h : s.acquire i p = some s') : Rule c s (.worker i a) s' := by
  unfold acquire at h
  split_ifs at h with hfree
  cases h
  exact .take hp hfree

theorem select_rule {i : Nat} {a : WorkerAct} {timestamp : Int} {eventId : List Char} {before : Directory}
    {mark : Nat} {begun : Int} (hp : s.place i = .clipListing timestamp eventId before mark begun) {dir : List Visit}
    (hdir : listing before (s.history.drop mark) dir = true) :
    Rule c s (.worker i a) (s.select c i timestamp eventId mark begun dir) := by
  unfold select
  cases hsel : selected c timestamp dir with
  | error e => exact .move (hp ▸ .clipThrows)
  | ok concat =>
    cases concat with
    | nil => exact .give (hp ▸ .noFiles)
    | cons file rest => exact .move (hp ▸ .select hdir hsel)

theorem beginSweep_rule {i : Nat} {a : WorkerAct} {now : Int} {before : Directory} {mark : Nat}
    {refused : List Char → Bool} (hp : s.place i = .sweepListing now before mark refused) {dir : List Visit}
    (hdir : listing before (s.history.drop mark) dir = true) :
    Rule c s (.worker i a) (s.beginSweep i now refused dir) := by
  unfold beginSweep
  cases hfiles : setFilename dir with
  | error e => exact .move (hp ▸ .sweepThrows)
  | ok files => exact .move (hp ▸ .sweep hdir hfiles)

theorem sweepStep_rule {i : Nat} {a : WorkerAct} {sweep : Sweep} {files : List FileName} {it : Nat}
    (hp : s.place i = .sweeping sweep files it) : Rule c s (.worker i a) (s.sweepStep c i sweep files it) := by
  unfold sweepStep
  cases hfile : files[it]? with
  | none => exact .swept hp (List.getElem?_eq_none_iff.mp hfile)
  | some file =>
    dsimp only
    cases hturn : sweepTurn (cutoff sweep.now c.maintainSec) c.vidPath sweep.refused file with
    | erase => exact .erase hp hfile hturn
    | next => exact .move (hp ▸ .next hfile hturn)
    | throw e => exact .throws hp hfile hturn

theorem stepWorker_rule {i : Nat} {a : WorkerAct} {p : Place} (hp : s.place i = p) {s' : Footage}
    (h : s.stepWorker c i a p = some s') : Rule c s (.worker i a) s' := by
  cases p <;> cases a <;> simp only [stepWorker, reduceCtorEq] at h
  case idle.processVideo timestamp eventId =>
    cases h
    exact .move (hp ▸ .processVideo)
  case idle.removeVideo =>
    cases h
    exact .move (hp ▸ .removeVideo)
  case clipLock.lock => exact acquire_rule (hp ▸ .clip) h
  case sweepLock.lock => exact acquire_rule (hp ▸ .sweep) h
  case clipList.list =>
    cases h
    exact .move (hp ▸ .clipList)
  case sweepTime.list =>
    cases h
    exact .move (hp ▸ .sweepList)
  case clipListing.listed =>
    split_ifs at h with hdir
    cases h
    exact select_rule hp hdir
  case sweepListing.listed =>
    split_ifs at h with hdir
    cases h
    exact beginSweep_rule hp hdir
  case clipping.finished =>
    cases h
    exact .give (hp ▸ .finished)
  case sweeping.turn =>
    cases h
    exact sweepStep_rule hp

theorem step_rule {a : FootageAct} {s' : Footage} (h : s.step c a = some s') : Rule c s a s' := by
  cases a <;> simp only [step] at h
  case tick t =>
    split_ifs at h with ht
    cases h
    exact .tick ht
  case record =>
    split_ifs at h with hname
    cases h
    exact .record hname
  case worker i a => exact stepWorker_rule rfl h

end Footage

end RpiCam.Video
