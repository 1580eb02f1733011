import RpiCam.Lib.Exchange
import RpiCam.Lib.Transition
import RpiCam.VideoQueue.Basic

/-!
# The camera thread

`main` runs `CameraInitializer::init` and `start` on a thread of their own and looks at the result of neither. `init` sets
the device up and queues its buffers; `start` turns the stream on, and its loop takes one filled buffer after the other,
pushes a copy of it, and queues the buffer again.

* `CameraPc` : the line the thread is at;
* `Camera` : the members, the buffers of the device and the thread;
* `step` : the thread goes on, with what the device answers, or the device writes or finishes a buffer;
* `Rule`, `step_rule` : the steps by what they change, for the proofs;
* `hand` : the buffer that the thread has taken.

An `ioctl` may fail at any time. It succeeds where V4L2 lets it: a buffer is queued once, a stream has buffers, and
`VIDIOC_DQBUF` waits for a buffer that is filled. `VIDIOC_QUERYBUF` tells the length of a buffer, which stays, and `mmap`
is asked for so much. The device writes into queued buffers only, within them, and what it says of a filled one is at
most its length; the memory of the process is what was mapped.
-/

namespace RpiCam

open Transition

def nCamBuf : Nat := 8

/-- Where the thread is: the line of `CameraInitializer.cpp` it is about to run. -/
inductive CameraPc
  /-- 52. -/
  | openDevice
  /-- 60. -/
  | queryCap
  /-- 98. -/
  | setFormat
  /-- 109. -/
  | setParm
  /-- 126. -/
  | requestBuffers
  /-- 144 and 149. -/
  | queryBuffer (i : Nat)
  /-- 42, and so 165. -/
  | queue (i : Nat)
  /-- 246. -/
  | streamOn
  /-- 216. -/
  | select
  /-- 183. -/
  | dequeue
  /-- 191 to 195. -/
  | copy (index bytesused : Nat)
  /-- 234. -/
  | push (index : Nat) (frame : VideoBuffer)
  /-- 236, and so 165. -/
  | requeue (index : Nat)
  /-- 231, and so 257. -/
  | streamOff
  /-- `start` has returned. -/
  | returned (ret : Int)
  /-- Line 195 read what is not there. -/
  | crashed (index bytesused : Nat)
  deriving DecidableEq

/-- The buffer that the thread has taken and not queued again. -/
def CameraPc.hand : CameraPc → List Nat
  | copy index _ | push index _ | requeue index | crashed index _ => [index]
  | _ => []

/-- `CameraInitializer`, the device and the thread. -/
structure Camera where
  /-- `_cam_config->metadata()`. -/
  metadata : VideoMeta
  pc : CameraPc
  /-- `_fd` is not -1. -/
  fd : Bool
  /-- The buffers that `VIDIOC_REQBUFS` made. -/
  count : Nat
  streaming : Bool
  buffers : Exchange Nat (List UInt8) Nat
  /-- How many bytes are at the address in `_camera_buffers`; `none` where there is none. -/
  mapped : Nat → Option Nat
  /-- What `init` returned. -/
  initRet : Option Int
  /-- For the record: how many buffers `init` has tried to queue, and those of them, or of the loop, that were refused. -/
  tried : Nat
  lost : List Nat
  /-- For the record: what the device has filled, the frames made of it, and what was there when the stream was turned
  off. -/
  filled : List (List UInt8)
  frames : List VideoBuffer
  unread : List (List UInt8)
  dropped : List Nat

/-- How the thread goes on, or the device. -/
inductive CameraAct
  | opened (ok : Bool)
  | ioctl (ok : Bool)
  /-- `VIDIOC_REQBUFS` succeeds with this count. -/
  | granted (count : Nat)
  /-- `VIDIOC_QUERYBUF` succeeds, and `mmap` gives an address or not. -/
  | queried (mapped : Bool)
  /-- `select` returns this. -/
  | selected (r : Int)
  /-- `time(NULL)` is this. -/
  | clock (t : Int)
  /-- `push` returns. -/
  | pushed
  | write (i : Nat) (bytes : List UInt8)
  | finish (i bytesused : Nat)
  deriving DecidableEq

def firstBytes (bytes : List UInt8) (n : Nat) : List UInt8 := bytes.take n

namespace Camera

def start (metadata : VideoMeta) (memory : Nat → List UInt8) : Camera where
  metadata := metadata
  pc := .openDevice
  fd := false
  count := 0
  streaming := false
  buffers := ⟨[], [], memory⟩
  mapped := fun _ => none
  initRet := none
  tried := 0
  lost := []
  filled := []
  frames := []
  unread := []
  dropped := []

variable (c : Camera)

def goto (p : CameraPc) : Camera := { c with pc := p }

/-- `init` returns, and `main` calls `start`. -/
def initReturns (ret : Int) : Camera := { c with pc := .streamOn, initRet := some ret }

/-- Line 149, where `buf.length` is the length of the buffer. -/
def mmap (i : Nat) (mapped : Bool) : Nat → Option Nat :=
  Function.update c.mapped i (if mapped then some (c.buffers.memory i).length else none)

/-- `queue_v4l2_buffer`. -/
def queueBuffer (i : Nat) (ok : Bool) (p : CameraPc) : Option Camera :=
  if ok then
    if i < c.count ∧ i ∉ c.buffers.owned then some { c with buffers := c.buffers.queue i, pc := p } else none
  else some { c with lost := c.lost ++ [i], pc := p }

/-- Line 42, for the buffer `i`. -/
def initQueue (i : Nat) (ok : Bool) : Option Camera :=
  ((c.queueBuffer i ok (.queue (i + 1))).map fun c => { c with tried := i + 1 }).map fun c =>
    if i + 1 < nCamBuf then c else c.initReturns 0

/-- So many bytes of the buffer are mapped, and are the buffer's. -/
def Covers (index bytesused : Nat) : Prop :=
  ∃ length ∈ c.mapped index, bytesused ≤ length ∧ length ≤ (c.buffers.memory index).length

instance (index bytesused : Nat) : Decidable (c.Covers index bytesused) :=
  inferInstanceAs (Decidable (∃ length ∈ c.mapped index, _))

theorem Covers.le {c : Camera} {index bytesused : Nat} (h : c.Covers index bytesused) :
    bytesused ≤ (c.buffers.memory index).length := by
  obtain ⟨length, -, hn, hlength⟩ := h
  exact hn.trans hlength

/-- Lines 189 to 199. -/
def copyFrame (index bytesused : Nat) (t : Int) : Camera :=
  if h : index < nCamBuf ∧ c.Covers index bytesused then
    let frame : VideoBuffer :=
      ⟨c.metadata, t, firstBytes (c.buffers.memory index) bytesused, bytesused, by
        rw [firstBytes, List.length_take, Nat.min_eq_left h.2.le]⟩
    { c with frames := c.frames ++ [frame], pc := .push index frame }
  else c.goto (.crashed index bytesused)

/-- Line 257 succeeds. -/
def turnOff : Camera :=
  { c with
    streaming := false
    unread := c.buffers.delivered firstBytes ++ c.unread
    dropped := c.dropped ++ c.buffers.owned
    buffers := c.buffers.off }

def stepThread (a : CameraAct) : CameraPc → Option Camera
  | .openDevice =>
    match a with
    | .opened true => some { c with fd := true, pc := .queryCap }
    | .opened false => some (c.initReturns 1)
    | _ => none
  | .queryCap =>
    match a with
    | .ioctl ok => some (if ok then c.goto .setFormat else c.initReturns 2)
    | _ => none
  | .setFormat =>
    match a with
    | .ioctl ok => some (if ok then c.goto .setParm else c.initReturns 4)
    | _ => none
  | .setParm =>
    match a with
    | .ioctl ok => some (if ok then c.goto .requestBuffers else c.initReturns 5)
    | _ => none
  | .requestBuffers =>
    match a with
    | .ioctl false => some (c.initReturns 1)
    | .granted count =>
      let c := { c with count }
      some (if count > nCamBuf then c.initReturns 2 else c.goto (.queryBuffer 0))
    | _ => none
  | .queryBuffer i =>
    match a with
    | .ioctl false => some (c.initReturns 3)
    | .queried mapped =>
      if i < c.count then
        some { c with
          mapped := c.mmap i mapped
          pc := if i + 1 < nCamBuf then .queryBuffer (i + 1) else .queue 0 }
      else none
    | _ => none
  | .queue i =>
    match a with
    | .ioctl ok => c.initQueue i ok
    | _ => none
  | .streamOn =>
    match a with
    | .ioctl true => if c.fd ∧ 0 < c.count then some { c with streaming := true, pc := .select } else none
    | .ioctl false => some (c.goto (.returned 1))
    | _ => none
  | .select =>
    match a with
    | .selected r => some (c.goto (if r = 0 then .returned 1 else .dequeue))
    | _ => none
  | .dequeue =>
    match a with
    | .ioctl true =>
      match c.buffers.done with
      | [] => none
      | (index, bytesused) :: _ => some { c with buffers := c.buffers.take, pc := .copy index bytesused }
    | .ioctl false => some (c.goto .streamOff)
    | _ => none
  | .copy index bytesused =>
    match a with
    | .clock t => some (c.copyFrame index bytesused t)
    | _ => none
  | .push index _ =>
    match a with
    | .pushed => some (c.goto (.requeue index))
    | _ => none
  | .requeue index =>
    match a with
    | .ioctl ok => c.queueBuffer index ok .select
    | _ => none
  | .streamOff =>
    match a with
    | .ioctl ok => some ((if ok then c.turnOff else c).goto (.returned 0))
    | _ => none
  | .returned _ => none
  | .crashed _ _ => none

/-- The process is there. -/
def alive : Bool :=
  match c.pc with
  | .crashed _ _ => false
  | _ => true

def step (c : Camera) : CameraAct → Option Camera
  | .write i bytes =>
    if c.alive ∧ c.streaming ∧ i ∈ c.buffers.queued ∧ bytes.length = (c.buffers.memory i).length then
      some { c with buffers := c.buffers.write i bytes }
    else none
  | .finish i n =>
    if c.alive ∧ c.streaming ∧ i ∈ c.buffers.queued ∧ n ≤ (c.buffers.memory i).length then
      some { c with
        buffers := c.buffers.finish i n
        filled := c.filled ++ [firstBytes (c.buffers.memory i) n] }
    else none
  | a => c.stepThread a c.pc

/-! ## The rules -/

/-- The lines of `init` before it queues the buffers. -/
def setsUp : CameraPc → Bool
  | .openDevice | .queryCap | .setFormat | .setParm | .requestBuffers | .queryBuffer _ => true
  | _ => false

/-- The steps of the thread that change nothing but its place. -/
inductive Goes : CameraPc → CameraPc → Prop
  | refused : Goes .streamOn (.returned 1)
  | timeout : Goes .select (.returned 1)
  | ready : Goes .select .dequeue
  | noFrame : Goes .dequeue .streamOff
  | pushed {index frame} : Goes (.push index frame) (.requeue index)
  | stopRefused : Goes .streamOff (.returned 0)

inductive Rule (c : Camera) : Camera → Prop
  | setUp (fd : Bool) (count : Nat) (mapped : Nat → Option Nat) {p} : setsUp c.pc = true →
      (setsUp p = true ∨ p = .queue 0) →
      (∀ i n, mapped i = some n → c.mapped i = some n ∨ (c.buffers.memory i).length = n) →
      Rule c { c with fd, count, mapped, pc := p }
  | initFails (count : Nat) {ret} : setsUp c.pc = true → ret ≠ 0 → Rule c (initReturns { c with count } ret)
  | initQueued {i} : c.pc = .queue i → i ∉ c.buffers.owned → i + 1 < nCamBuf →
      Rule c { c with buffers := c.buffers.queue i, tried := i + 1, pc := .queue (i + 1) }
  | lastQueued {i} : c.pc = .queue i → i ∉ c.buffers.owned → nCamBuf ≤ i + 1 →
      Rule c (initReturns { c with buffers := c.buffers.queue i, tried := i + 1 } 0)
  | initRefused {i} : c.pc = .queue i → i + 1 < nCamBuf →
      Rule c { c with lost := c.lost ++ [i], tried := i + 1, pc := .queue (i + 1) }
  | lastRefused {i} : c.pc = .queue i → nCamBuf ≤ i + 1 →
      Rule c (initReturns { c with lost := c.lost ++ [i], tried := i + 1 } 0)
  | streamOn : c.pc = .streamOn → Rule c { c with streaming := true, pc := .select }
  | goes {p} : Goes c.pc p → Rule c (c.goto p)
  | take {index n rest} : c.pc = .dequeue → c.buffers.done = (index, n) :: rest →
      Rule c { c with buffers := c.buffers.take, pc := .copy index n }
  | copy {index n frame} : c.pc = .copy index n → frame.metadata = c.metadata →
      frame.buffer = firstBytes (c.buffers.memory index) n →
      Rule c { c with frames := c.frames ++ [frame], pc := .push index frame }
  | crash {index n} : c.pc = .copy index n →
      ¬ (index < nCamBuf ∧ c.Covers index n) →
      Rule c (c.goto (.crashed index n))
  | requeued {index} : c.pc = .requeue index → Rule c { c with buffers := c.buffers.queue index, pc := .select }
  | requeueRefused {index} : c.pc = .requeue index → Rule c { c with lost := c.lost ++ [index], pc := .select }
  | turnedOff : c.pc = .streamOff → Rule c (c.turnOff.goto (.returned 0))
  | write {i bytes} : c.alive = true → c.streaming = true → i ∈ c.buffers.queued →
      bytes.length = (c.buffers.memory i).length →
      Rule c { c with buffers := c.buffers.write i bytes }
  | finish {i n} : c.alive = true → c.streaming = true → i ∈ c.buffers.queued →
      n ≤ (c.buffers.memory i).length →
      Rule c { c with
        buffers := c.buffers.finish i n
        filled := c.filled ++ [firstBytes (c.buffers.memory i) n] }

variable {c}

theorem mmap_cases {i : Nat} {mapped : Bool} {j n : Nat} (h : c.mmap i mapped j = some n) :
    c.mapped j = some n ∨ (c.buffers.memory j).length = n := by
  rw [mmap, Function.update_apply] at h
  split_ifs at h with hji
  · subst hji
    exact Or.inr (Option.some.inj h)
  · exact Or.inl h

theorem setUp_rule {a : CameraAct} {p : CameraPc} (hpc : c.pc = p) (hp : setsUp p = true) {c' : Camera}
    (h : c.stepThread a p = some c') : Rule c c' := by
  have hset : setsUp c.pc = true := hpc ▸ hp
  cases p <;> simp only [setsUp, Bool.false_eq_true] at hp
  case openDevice =>
    cases a <;> simp only [stepThread, reduceCtorEq] at h
    case opened ok =>
      cases ok <;> cases h
      · exact .initFails c.count hset (by decide)
      · exact .setUp true c.count c.mapped hset (Or.inl rfl) fun _ _ => Or.inl
  case requestBuffers =>
    cases a <;> simp only [stepThread, reduceCtorEq] at h
    case ioctl ok =>
      cases ok <;> cases h
      exact .initFails c.count hset (by decide)
    case granted count =>
      cases h
      split_ifs
      · exact .initFails count hset (by decide)
      · exact .setUp c.fd count c.mapped hset (Or.inl rfl) fun _ _ => Or.inl
  case queryBuffer i =>
    cases a <;> simp only [stepThread, reduceCtorEq] at h
    case ioctl ok =>
      cases ok <;> cases h
      exact .initFails c.count hset (by decide)
    case queried mapped =>
      split_ifs at h <;> cases h
      · exact .setUp c.fd c.count (c.mmap i mapped) hset (Or.inl rfl) fun _ _ => mmap_cases
      · exact .setUp c.fd c.count (c.mmap i mapped) hset (Or.inr rfl) fun _ _ => mmap_cases
  -- the three that only ask
  all_goals
    cases a <;> simp only [stepThread, reduceCtorEq] at h
    case ioctl ok =>
      cases ok <;> cases h
      · exact .initFails c.count hset (by decide)
      · exact .setUp c.fd c.count c.mapped hset (Or.inl rfl) fun _ _ => Or.inl

theorem initQueue_rule {i : Nat} {ok : Bool} (hpc : c.pc = .queue i) {c' : Camera}
    (h : c.initQueue i ok = some c') : Rule c c' := by
  unfold initQueue queueBuffer at h
  by_cases hlast : i + 1 < nCamBuf
  · cases ok <;> simp only [hlast, if_true, Bool.false_eq_true, if_false] at h
    · cases h
      exact .initRefused hpc hlast
    · split_ifs at h with hfree <;> cases h
      exact .initQueued hpc hfree.2 hlast
  · cases ok <;> simp only [hlast, if_true, Bool.false_eq_true, if_false] at h
    · cases h
      exact .lastRefused hpc (Nat.le_of_not_lt hlast)
    · split_ifs at h with hfree <;> cases h
      exact .lastQueued hpc hfree.2 (Nat.le_of_not_lt hlast)

theorem copyFrame_rule {index n : Nat} (hpc : c.pc = .copy index n) (t : Int) : Rule c (c.copyFrame index n t) := by
  unfold copyFrame
  split_ifs with h
  · exact .copy hpc rfl rfl
  · exact .crash hpc h

theorem stepThread_rule {a : CameraAct} {p : CameraPc} (hpc : c.pc = p) {c' : Camera}
    (h : c.stepThread a p = some c') : Rule c c' := by
  by_cases hset : setsUp p = true
  · exact setUp_rule hpc hset h
  cases p <;> simp only [setsUp, not_true_eq_false] at hset
  case queue i =>
    cases a <;> simp only [stepThread, reduceCtorEq] at h
    exact initQueue_rule hpc h
  case streamOn =>
    cases a <;> simp only [stepThread, reduceCtorEq] at h
    case ioctl ok =>
      cases ok <;> simp only at h
      · cases h
        exact .goes (hpc ▸ .refused)
      · split_ifs at h
        cases h
        exact .streamOn hpc
  case select =>
    cases a <;> simp only [stepThread, reduceCtorEq] at h
    cases h
    split_ifs
    · exact .goes (hpc ▸ .timeout)
    · exact .goes (hpc ▸ .ready)
  case dequeue =>
    cases a <;> simp only [stepThread, reduceCtorEq] at h
    case ioctl ok =>
      cases ok <;> simp only at h
      · cases h
        exact .goes (hpc ▸ .noFrame)
      · cases hd : c.buffers.done <;> rw [hd] at h <;> cases h
        exact .take hpc hd
  case copy index n =>
    cases a <;> simp only [stepThread, reduceCtorEq] at h
    cases h
    exact copyFrame_rule hpc _
  case push index frame =>
    cases a <;> simp only [stepThread, reduceCtorEq] at h
    cases h
    exact .goes (hpc ▸ .pushed)
  case requeue index =>
    cases a <;> simp only [stepThread, reduceCtorEq] at h
    unfold queueBuffer at h
    split_ifs at h <;> cases h
    · exact .requeued hpc
    · exact .requeueRefused hpc
  case streamOff =>
    cases a <;> simp only [stepThread, reduceCtorEq] at h
    case ioctl ok =>
      cases ok <;> cases h
      · exact .goes (hpc ▸ .stopRefused)
      · exact .turnedOff hpc
  all_goals cases h

theorem step_rule {a : CameraAct} {c' : Camera} (h : c.step a = some c') : Rule c c' := by
  cases a <;> simp only [step] at h
  case write i bytes =>
    split_ifs at h with hg
    cases h
    exact .write hg.1 hg.2.1 hg.2.2.1 hg.2.2.2
  case finish i n =>
    split_ifs at h with hg
    cases h
    exact .finish hg.1 hg.2.1 hg.2.2.1 hg.2.2.2
  all_goals exact stepThread_rule rfl h

end Camera

end RpiCam
