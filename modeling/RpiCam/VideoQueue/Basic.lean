import Mathlib.Logic.Function.Basic
import RpiCam.Lib.Stoi
import RpiCam.Lib.UnorderedMap

/-!
# The frame-distribution queue

The data of `camera_device::VideoQueue` and its methods, each as the code runs it when no other thread interferes.
`std::queue` and `ThreadInfo` objects live on the heap, so the two maps hold their addresses (`QueueId`, `InfoId`).
A `VideoBuffer*` is a `BufferRef`: its address with the contents, which nothing writes once the frame is queued.

* `insertEvent`, `removeEvent`, `push`, `pop`, `distributeBuffer` : the methods; `removeEvent` and `distributeBuffer`
  are composed of the pieces (`popFront`, `takeInput`, `copyTo`, ...) that the threads of `Machine` take one by one;
* `Outcome` : a method returns, blocks on a condition variable, or does what C++ leaves undefined (`Fault`).

`int` is `Int`: nothing here leaves the range of `int` unless the device fps is `INT_MAX` itself.
-/

namespace RpiCam

abbrev Name := List Char
/-- The address of a `VideoBuffer`. -/
abbrev Addr := Nat
/-- The address of a `ThreadInfo`. -/
abbrev InfoId := Nat
/-- The address of a `std::queue<VideoBuffer*>`. -/
abbrev QueueId := Nat

structure VideoMeta where
  pixelType : Nat
  width : Int
  height : Int
  deriving DecidableEq, Repr

/-- `VideoBuffer`, whose `buffer` was allocated with `size` bytes. -/
structure VideoBuffer where
  metadata : VideoMeta
  timestamp : Int
  buffer : List UInt8
  size : Nat
  size_eq : buffer.length = size
  deriving DecidableEq

/-- What a copy keeps of a frame: all but the timestamp. -/
def VideoBuffer.payload (b : VideoBuffer) : VideoMeta × List UInt8 × Nat := (b.metadata, b.buffer, b.size)

/-- The copy `distribute_buffer` makes: the same contents, stamped with the time of the pass. -/
def VideoBuffer.copyAt (b : VideoBuffer) (t : Int) : VideoBuffer := { b with timestamp := t }

@[simp] theorem VideoBuffer.payload_copyAt (b : VideoBuffer) (t : Int) : (b.copyAt t).payload = b.payload := rfl

structure BufferRef where
  addr : Addr
  val : VideoBuffer
  deriving DecidableEq

/-- `ThreadInfo`, without its mutex and condition variable. -/
structure ThreadInfo where
  isRun : Bool
  fps : Int
  deriving DecidableEq, Repr

/-- What the C++ code leaves undefined. -/
inductive Fault
  /-- A division or modulus by zero. -/
  | zeroDivisor
  /-- `find(name)->second` where `name` has no entry. -/
  | absentEntry
  /-- An iterator whose entry was erased is used. -/
  | danglingIterator
  /-- A queue that was deleted is used. -/
  | deletedQueue
  /-- `front()` or `pop()` on an empty queue. -/
  | emptyQueue
  deriving DecidableEq, Repr

/-- The members of `VideoQueue`, the heap they point to, and the addresses deleted so far. -/
structure VideoQueue where
  deviceFps : Int
  input : List BufferRef
  currentFrameNo : Int
  output : UnorderedMap Name QueueId
  threadInfo : UnorderedMap Name InfoId
  queues : QueueId → Option (List BufferRef)
  infos : InfoId → ThreadInfo
  nextAddr : Addr
  nextQueue : QueueId
  nextInfo : InfoId
  deleted : List Addr

/-- How a method call ends. -/
inductive Outcome (ρ : Type) where
  | done (v : VideoQueue) (ret : ρ)
  | blocked
  | fault (f : Fault)

namespace VideoQueue

def new (deviceFps : Int) : VideoQueue where
  deviceFps := deviceFps
  input := []
  currentFrameNo := 0
  output := ∅
  threadInfo := ∅
  queues := fun _ => none
  infos := fun _ => ⟨false, 0⟩
  nextAddr := 0
  nextQueue := 0
  nextInfo := 0
  deleted := []

variable (v : VideoQueue)

/-- `new ThreadInfo()`, with the fields its owner sets. -/
def newThreadInfo (fps : Int) (isRun : Bool) : VideoQueue :=
  { v with infos := Function.update v.infos v.nextInfo ⟨isRun, fps⟩, nextInfo := v.nextInfo + 1 }

def newBuffer : VideoQueue := { v with nextAddr := v.nextAddr + 1 }

/-! ## `insert_event` -/

/-- Lines 69 to 71: the request becomes a divisor, and the entry goes into `_thread_info`. -/
def enterInfo (name : Name) (info : InfoId) : VideoQueue :=
  { v with
    infos := Function.update v.infos info { v.infos info with fps := v.deviceFps.tdiv (v.infos info).fps }
    threadInfo := UnorderedMap.emplace v.threadInfo name info }

/-- Line 72. -/
def enterOutput (name : Name) : VideoQueue :=
  { v with
    output := UnorderedMap.emplace v.output name v.nextQueue
    queues := Function.update v.queues v.nextQueue (some [])
    nextQueue := v.nextQueue + 1 }

def insertEvent (name : Name) (info : InfoId) : Outcome Int :=
  match AList.lookup name v.threadInfo with
  | some _ => .done v 1
  | none =>
    if (v.infos info).fps = 0 then .fault .zeroDivisor
    else .done ((v.enterInfo name info).enterOutput name) 0

/-! ## `remove_event` -/

/-- `delete` of a frame: lines 110 and 242, and the caller of `pop`. -/
def deleteBuffer (b : BufferRef) : VideoQueue := { v with deleted := v.deleted ++ [b.addr] }

/-- `pop()` on a queue `b :: rest`: lines 112 and 184. -/
def popFront (q : QueueId) (rest : List BufferRef) : VideoQueue :=
  { v with queues := Function.update v.queues q (some rest) }

/-- The loop at line 106, over the contents of the queue. -/
def drain (q : QueueId) : List BufferRef → VideoQueue → VideoQueue
  | [], v => v
  | b :: rest, v => drain q rest ((v.deleteBuffer b).popFront q rest)

def deleteQueue (q : QueueId) : VideoQueue := { v with queues := Function.update v.queues q none }

def eraseOutput (name : Name) : VideoQueue := { v with output := AList.erase name v.output }

def stopInfo (info : InfoId) : VideoQueue :=
  { v with infos := Function.update v.infos info { v.infos info with isRun := false } }

def eraseThreadInfo (name : Name) : VideoQueue := { v with threadInfo := AList.erase name v.threadInfo }

/-- Lines 99 to 119: the queue of `name`, with what it holds, is deleted. -/
def removeOutput (name : Name) : Outcome Unit :=
  match AList.lookup name v.output with
  | none => .done v ()
  | some q =>
    match v.queues q with
    | none => .fault .deletedQueue
    | some l => .done (((drain q l v).deleteQueue q).eraseOutput name) ()

def removeEvent (name : Name) : Outcome Int :=
  match v.removeOutput name with
  | .done w _ =>
    match AList.lookup name v.threadInfo with
    | none => .done w 1
    | some info =>
      .done ((w.stopInfo info).eraseThreadInfo name) (if (AList.lookup name v.output).isNone then 2 else 0)
  | .blocked => .blocked
  | .fault f => .fault f

/-! ## `push` and `pop` -/

def push (b : BufferRef) : VideoQueue := { v with input := v.input ++ [b] }

/-- `pop`: `none` is `nullptr`. The wait at line 170 ends where its predicate holds. -/
def pop (name : Name) : Outcome (Option BufferRef) :=
  match AList.lookup name v.threadInfo with
  | none => .done v none
  | some info =>
    match AList.lookup name v.output with
    | none => .done v none
    | some q =>
      if (v.infos info).isRun then
        match v.queues q with
        | none => .fault .deletedQueue
        | some [] => .blocked
        | some (b :: rest) => .done (v.popFront q rest) (some b)
      else .done (v.eraseThreadInfo name) none

/-! ## `distribute_buffer` -/

/-- Lines 204 to 212: the next frame leaves `_input`, and the frame number advances within `1 .. _device_fps`. -/
def takeInput : Option (BufferRef × VideoQueue) :=
  match v.input with
  | [] => none
  | b :: rest =>
    some (b, { v with
      input := rest
      currentFrameNo := if v.currentFrameNo + 1 > v.deviceFps then 1 else v.currentFrameNo + 1 })

/-- Lines 224 to 236: a copy of the frame goes to the queue of `name`; without a queue the copy is lost. -/
def copyTo (b : BufferRef) (t : Int) (name : Name) : Outcome Unit :=
  match AList.lookup name v.output with
  | none => .done v.newBuffer ()
  | some q =>
    match v.queues q with
    | none => .fault .deletedQueue
    | some l =>
      .done { v.newBuffer with
        queues := Function.update v.queues q (some (l ++ [⟨v.nextAddr, b.val.copyAt t⟩])) } ()

/-- Line 219 on one entry: whether this frame is one of those its event takes; `none` divides by zero. -/
def due (info : InfoId) : Option Bool :=
  if (v.infos info).fps = 0 then none else some (v.currentFrameNo.tmod (v.infos info).fps == 0)

/-- Lines 217 to 240: the entries of `_thread_info` in the order of the iteration. -/
def visit (b : BufferRef) (t : Int) : List (Name × InfoId) → VideoQueue → Outcome Unit
  | [], v => .done v ()
  | (name, info) :: rest, v =>
    match v.due info with
    | none => .fault .zeroDivisor
    | some false => visit b t rest v
    | some true =>
      match v.copyTo b t name with
      | .done w _ => visit b t rest w
      | .blocked => .blocked
      | .fault f => .fault f

/-- One pass of the loop of `distribute_buffer` (lines 193 to 242), at time `t`, with the entries in order `order`. -/
def distributeBuffer (t : Int) (order : List (Name × InfoId)) : Outcome Unit :=
  match v.takeInput with
  | none => .blocked
  | some (b, w) =>
    match visit b t order w with
    | .done u _ => .done (u.deleteBuffer b) ()
    | .blocked => .blocked
    | .fault f => .fault f

end VideoQueue

end RpiCam
