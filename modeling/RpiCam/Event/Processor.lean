import Mathlib.Data.List.Nodup
import RpiCam.Lib.FileTree
import RpiCam.VideoQueue.Machine

/-!
# Event processors

`EventProcessor` reads its settings from the directory of the event: the name of a file is the frame rate, if it is a
number, and the file `enable` says whether the event runs. The program is the shared object `<name>.so` in it.

* `isPositive` : the file names that are taken for a frame rate, `isPositive_iff`;
* `scan` : the constructor over the files of the directory, in the order the iterator lists them;
* `eventInit` : `dlopen` and `dlsym`; which files they accept is a parameter;
* `EventProcessor.request` : what `event_loop` asks of the queue.
-/

namespace RpiCam

def isPositive (str : List Char) : Bool :=
  match stoi str with
  | .ok number => decide (0 ≤ number)
  | .error .invalidArgument => false
  | .error .outOfRange => false

theorem isPositive_iff (str : List Char) : isPositive str = true ↔ ∃ n, stoi str = .ok n ∧ 0 ≤ n := by
  unfold isPositive
  cases h : stoi str with
  | ok n => simp
  | error e => cases e <;> simp

/-- `event::EventProcessor`. A setting that no file gave is `none`: the constructor leaves the member as it was. -/
structure EventProcessor where
  eventName : Name
  fps : Option Int
  enable : Option Bool
  /-- The shared object that is loaded. -/
  handle : Option (List Char)
  deriving DecidableEq

namespace EventProcessor

/-- `"event/" + event_name`. -/
def eventDirectory (eventName : Name) : List Char := "event/".toList ++ eventName

/-- `"./event/" << _event_name << "/" << _event_name << ".so"`. -/
def soPath (eventName : Name) : List Char :=
  "./event/".toList ++ eventName ++ "/".toList ++ eventName ++ ".so".toList

/-- `enable_file >> enable`: the number at the beginning of the file, if it is an `int`. -/
def extractInt (content : List Char) : Option Int :=
  match stoi content with
  | .ok n => some n
  | .error _ => none

/-- Lines 49 to 63, on one file of the directory. -/
def scanEntry (fs : FileSystem) (cwd : Path) (p : EventProcessor) (filename : Name) : EventProcessor :=
  if filename = "enable".toList then
    match (fs.readFile cwd (eventDirectory p.eventName ++ "/".toList ++ filename)).bind extractInt with
    | some enable => { p with enable := some (enable ≠ 0) }
    | none => p
  else if isPositive filename then { p with fps := (stoi filename).toOption }
  else p

/-- `order` lists the files of the directory, each once. -/
def Lists (fs : FileSystem) (dir : Path) (order : List Name) : Prop :=
  order.Nodup ∧ ∀ n, n ∈ order ↔ fs.entry (dir ++ [n]) ≠ none

/-- Lines 43 to 68. Where there is no directory the iterator throws, and no setting is read. -/
def scan (fs : FileSystem) (cwd : Path) (eventName : Name) (order : List Name) : EventProcessor :=
  match fs.walkDir cwd (FileSystem.components (eventDirectory eventName)) with
  | some _ => order.foldl (scanEntry fs cwd) ⟨eventName, none, none, none⟩
  | none => ⟨eventName, none, none, none⟩

/-- `event_init`: the code, and the processor with the shared object `dlopen` loaded. -/
def eventInit (loads : List Char → Bool) (hasMain : List Char → Bool) (fs : FileSystem) (cwd : Path)
    (p : EventProcessor) : Int × EventProcessor :=
  match (fs.readFile cwd (soPath p.eventName)).filter loads with
  | none => (1, p)
  | some program =>
    if hasMain program then (0, { p with handle := some program }) else (2, { p with handle := some program })

def new (loads hasMain : List Char → Bool) (fs : FileSystem) (cwd : Path) (eventName : Name) (order : List Name) :
    EventProcessor :=
  (eventInit loads hasMain fs cwd (scan fs cwd eventName order)).2

/-- The registration `event_loop` begins with, where both settings were read. -/
def request (p : EventProcessor) : Option Request :=
  match p.fps, p.enable with
  | some fps, some enable => some (.insert p.eventName fps enable)
  | _, _ => none

/-! ## Where the settings come from -/

theorem foldl_scanEntry (fs : FileSystem) (cwd : Path) (order : List Name) (p : EventProcessor) :
    (order.foldl (scanEntry fs cwd) p).eventName = p.eventName ∧
      (order.foldl (scanEntry fs cwd) p).handle = p.handle := by
  induction order generalizing p with
  | nil => exact ⟨rfl, rfl⟩
  | cons filename order ih =>
    have hp : (scanEntry fs cwd p filename).eventName = p.eventName ∧
        (scanEntry fs cwd p filename).handle = p.handle := by
      unfold scanEntry
      split_ifs
      · split <;> exact ⟨rfl, rfl⟩
      · exact ⟨rfl, rfl⟩
      · exact ⟨rfl, rfl⟩
    exact ⟨(ih _).1.trans hp.1, (ih _).2.trans hp.2⟩

end EventProcessor

end RpiCam
