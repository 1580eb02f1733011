import RpiCam.Lib.LockOrder
import RpiCam.VideoQueue.Lookup

/-!
# The order of the mutexes

`_input_mutex` comes before `_thread_info_mutex`, and both before the mutex of a `ThreadInfo`.

* `Pc.wants`, `Pc.holds` : the mutex a thread is about to lock, and those it has;
* `State.owner` : who has a mutex; `locked_owner` : it is the thread whose place says so;
* `wants_blocked`, `step_enabled` : a thread cannot go on exactly where it wants a mutex that is taken;
* `lock_order` : every thread takes its mutexes in order, so no threads wait for each other in a cycle;
* `deadlock_free` : a thread that waits for a mutex waits, through others, for one that can go on.

`Fresh` is what the order needs of the start: any number of threads at the head of `distribute_buffer`, all others in no
call.
-/

namespace RpiCam

open Transition LockOrder Relation

inductive Mutex
  | input
  | threadInfo
  /-- The mutex of a `ThreadInfo`. -/
  | info (t : InfoId)
  deriving DecidableEq

namespace Mutex

def rank : Mutex → Nat
  | input => 0
  | threadInfo => 1
  | info _ => 2

instance : Preorder Mutex := Preorder.lift rank

theorem lt_iff {m n : Mutex} : m < n ↔ m.rank < n.rank := Iff.rfl

theorem rank_le (m : Mutex) : m.rank ≤ 2 := by cases m <;> simp [rank]

instance : WellFoundedGT Mutex := by
  have hwf : WellFounded fun m n : Mutex => 2 - m.rank < 2 - n.rank := InvImage.wf (fun m => 2 - rank m) Nat.lt_wfRel.wf
  refine ⟨Subrelation.wf (fun {m n} h => ?_) hwf⟩
  have hlt : n.rank < m.rank := h
  have := m.rank_le
  omega

end Mutex

namespace Pc

/-- The mutex the thread is about to lock. -/
def wants : Pc → Option Mutex
  | pushLock _ | distLock | distWake => some .input
  | insertLock _ _ | removeLock _ | distIterate _ _ => some .threadInfo
  | removeTouch _ _ (some t) | popLock _ t | popWake _ t _ | distEntry _ _ _ t _ => some (.info t)
  | _ => none

def holds (p : Pc) : Mutex → Bool
  | .input => p.holdsInput
  | .threadInfo => p.holdsThreadInfo
  | .info t => p.holdsInfo t

/-- At every lock, what the thread has comes before what it wants. -/
theorem holds_lt_wants {p : Pc} {m n : Mutex} (hm : p.wants = some m) (hn : p.holds n = true) : n < m := by
  rw [Mutex.lt_iff]
  cases p with
  | removeTouch name queue info =>
    cases info with
    | none => cases hm
    | some t =>
      cases hm
      cases n <;> simp_all [holds, holdsInput, holdsThreadInfo, holdsInfo, Mutex.rank]
  | pushLock | insertLock | removeLock | popLock | popWake | distLock | distWake | distIterate | distEntry =>
    cases hm
    cases n <;> simp_all [holds, holdsInput, holdsThreadInfo, holdsInfo, Mutex.rank]
  | _ => cases hm

theorem holdsInfo_unique {p : Pc} {t u : InfoId} (ht : p.holdsInfo t = true) (hu : p.holdsInfo u = true) : t = u := by
  cases p <;> simp_all [holdsInfo]

end Pc

namespace State

def owner (s : State) : Mutex → Option Tid
  | .input => s.inputMutex
  | .threadInfo => s.threadInfoMutex
  | .info t => s.infoMutex t

def Wants (s : State) (i : Tid) (m : Mutex) : Prop := (s.pc i).wants = some m

def Holds (s : State) (i : Tid) (m : Mutex) : Prop := s.owner m = some i

theorem locked_owner {s : State} (hl : Locked s) (i : Tid) (m : Mutex) : s.Holds i m ↔ (s.pc i).holds m = true := by
  cases m with
  | input => exact hl.input i
  | threadInfo => exact hl.threadInfo i
  | info t => exact hl.info t i

theorem ordered_of_locked {s : State} (hl : Locked s) : Ordered s.Holds s.Wants := fun i _ n hm hn =>
  Pc.holds_lt_wants hm ((locked_owner hl i n).mp hn)

/-! ## Where a thread can go on -/

/-- A thread that wants a taken mutex cannot go on, unless it uses an iterator whose entry is gone. -/
theorem wants_blocked {s s' : State} {i : Tid} {m : Mutex} (hm : s.Wants i m) (ho : s.owner m ≠ none) {a : Act}
    (h : step s (i, a) = some s') : s'.fault = some .danglingIterator := by
  unfold Wants at hm
  have hs := step_sound h
  generalize s.pc i = p at hm hs
  cases hs
  case lockInput p' hfree ht => cases ht <;> cases hm <;> exact absurd hfree ho
  case lockThreadInfo p' hfree ht => cases ht <;> cases hm <;> exact absurd hfree ho
  case lockInfo p' t hfree ht => cases ht <;> cases hm <;> exact absurd hfree ho
  case distIterate b t order hfree hord =>
    cases hm
    exact absurd hfree ho
  case move p' ht =>
    cases ht
    case removeTouch name queue info hfree =>
      cases info with
      | none => cases hm
      | some t =>
        cases hm
        exact absurd (hfree t rfl).2 ho
    all_goals cases hm
  case fail f ht =>
    cases ht
    case touchDangling => rfl
    case entryDangling => rfl
    all_goals cases hm
  all_goals cases hm

/-- Whom `notify_one` wakes can always be chosen. -/
theorem exists_canNotify (s : State) : ∃ waiter, s.CanNotify waiter := by
  by_cases hw : ∃ i < 6, s.pc i = .distWait false
  · obtain ⟨i, -, hi⟩ := hw
    exact ⟨some i, hi⟩
  · exact ⟨none, fun i hi hp => hw ⟨i, hi, hp⟩⟩

theorem copyTo_ne_blocked (v : VideoQueue) (b : BufferRef) (t : Int) (name : Name) : v.copyTo b t name ≠ .blocked := by
  unfold VideoQueue.copyTo
  cases AList.lookup name v.output with
  | none => simp
  | some q =>
    dsimp only
    cases v.queues q <;> simp

theorem step_enabled {s : State} (hf : s.fault = none) {i : Tid} (hfree : ∀ m, s.Wants i m → s.owner m = none) :
    ∃ a, (step s (i, a)).isSome = true := by
  unfold Wants at hfree
  cases hpc : s.pc i with
  | idle => exact ⟨.call (.pop []), by simp [step, hf, hpc, start]⟩
  | pushInput b =>
    obtain ⟨w, hw⟩ := s.exists_canNotify
    exact ⟨.notify w, by simp [step, hf, hpc, hw]⟩
  | popWait name info cond notified => exact ⟨.wake, by simp [step, hf, hpc]⟩
  | distWait notified => exact ⟨.wake, by simp [step, hf, hpc]⟩
  | distTake =>
    refine ⟨.clock 0, ?_⟩
    cases ht : s.data.takeInput <;> simp [step, hf, hpc, ht]
  | distIterate b t =>
    have ho : s.threadInfoMutex = none := hfree .threadInfo (by rw [hpc]; rfl)
    exact ⟨.iterate (UnorderedMap.toPairs s.data.threadInfo), by
      simp [step, hf, hpc, ho, UnorderedMap.IterationOrder]⟩
  | pushLock | distLock | distWake =>
    have ho : s.inputMutex = none := hfree .input (by rw [hpc]; rfl)
    exact ⟨.run, by simp [step, hf, hpc, runPush, runInsert, runRemove, runPop, runDistribute, ho]⟩
  | insertLock | removeLock =>
    have ho : s.threadInfoMutex = none := hfree .threadInfo (by rw [hpc]; rfl)
    exact ⟨.run, by simp [step, hf, hpc, runPush, runInsert, runRemove, runPop, runDistribute, ho]⟩
  | popLock name info =>
    have ho : s.infoMutex info = none := hfree (.info info) (by rw [hpc]; rfl)
    exact ⟨.run, by simp [step, hf, hpc, runPush, runInsert, runRemove, runPop, runDistribute, ho]⟩
  | popWake name info cond =>
    have ho : s.infoMutex info = none := hfree (.info info) (by rw [hpc]; rfl)
    exact ⟨.run, by simp [step, hf, hpc, runPush, runInsert, runRemove, runPop, runDistribute, ho]⟩
  | distDue b t name info rest =>
    refine ⟨.run, ?_⟩
    simp only [step, hf, hpc, runPush, runInsert, runRemove, runPop, runDistribute]
    cases hd : s.data.due info with
    | none => by_cases hl : AList.lookup name s.data.threadInfo = some info <;> simp [hl]
    | some due => by_cases hl : AList.lookup name s.data.threadInfo = some info <;> cases due <;> simp [hl]
  | distEntry b t name info rest =>
    have ho : s.infoMutex info = none := hfree (.info info) (by rw [hpc]; rfl)
    refine ⟨.run, ?_⟩
    simp only [step, hf, hpc, runPush, runInsert, runRemove, runPop, runDistribute, ho]
    split_ifs <;> simp_all
  | removeTouch name queue info =>
    refine ⟨.run, ?_⟩
    cases info with
    | none => simp [step, hf, hpc, runPush, runInsert, runRemove, runPop, runDistribute]
    | some t =>
      have ho : s.infoMutex t = none := hfree (.info t) (by rw [hpc]; rfl)
      by_cases hl : AList.lookup name s.data.threadInfo = some t <;>
        simp [step, hf, hpc, runPush, runInsert, runRemove, runPop, runDistribute, ho, hl]
  | distCopy b t name info rest =>
    refine ⟨.run, ?_⟩
    have hb := copyTo_ne_blocked s.data b t name
    simp only [step, hf, hpc, runPush, runInsert, runRemove, runPop, runDistribute]
    cases hc : s.data.copyTo b t name <;> simp_all <;> split_ifs <;> simp
  | distVisit b t left rest =>
    refine ⟨.run, ?_⟩
    by_cases hleft : s.Erased left
    · simp [step, hf, hpc, runPush, runInsert, runRemove, runPop, runDistribute, hleft]
    · rcases rest with _ | ⟨⟨name, info⟩, rest⟩
      · simp [step, hf, hpc, runPush, runInsert, runRemove, runPop, runDistribute, hleft]
      · by_cases hl : AList.lookup name s.data.threadInfo = some info <;>
          simp [step, hf, hpc, runPush, runInsert, runRemove, runPop, runDistribute, hleft, hl]
  | _ =>
    refine ⟨.run, ?_⟩
    -- the other places look something up, and every branch goes on
    simp only [step, hf, hpc, runPush, runInsert, runRemove, runPop, runDistribute]
    repeat' split
    all_goals first | rfl | contradiction

/-! ## Every reachable state -/

/-- All mutexes are free, and every thread is in no call or at the head of `distribute_buffer`. -/
structure Fresh (s : State) : Prop where
  pc : ∀ i, s.pc i = .idle ∨ s.pc i = .distLock
  owner : ∀ m, s.owner m = none

theorem fresh_init (F : Int) : Fresh (init F) where
  pc i := (init_pc F i).symm
  owner m := by cases m <;> rfl

theorem locked_of_fresh {s : State} (h : Fresh s) : Locked s := by
  refine ⟨?_, ?_, fun t => ?_⟩
  · rw [show s.inputMutex = none from h.owner .input]
    exact .of_free fun i => by rcases h.pc i with hi | hi <;> rw [hi] <;> rfl
  · rw [show s.threadInfoMutex = none from h.owner .threadInfo]
    exact .of_free fun i => by rcases h.pc i with hi | hi <;> rw [hi] <;> rfl
  · rw [show s.infoMutex t = none from h.owner (.info t)]
    exact .of_free fun i => by rcases h.pc i with hi | hi <;> rw [hi] <;> rfl

theorem reach_locked {ok : State → Tid × Act → Prop} {s : State} (h : Reach Fresh step ok s) : Locked s :=
  h.invariant Locked (fun _ hs => locked_of_fresh hs) fun _ _ _ hl _ hst => step_locked hl (step_sound hst)

/-- **Every thread that waits for a mutex has only earlier ones, none has the mutexes of two `ThreadInfo`s or waits for
one it has, and no threads wait for each other in a cycle.** -/
theorem lock_order {s : State} (h : Reach Fresh step (fun _ _ => True) s) :
    (∀ i m n, s.Wants i m → s.Holds i n → n < m) ∧
      (∀ i t u, s.Holds i (.info t) → s.Holds i (.info u) → t = u) ∧
      (∀ i m, s.Wants i m → ¬ s.Holds i m) ∧
      ∀ i, ¬ TransGen (WaitsFor s.Holds s.Wants) i i := by
  have hl := reach_locked h
  have hord := ordered_of_locked hl
  refine ⟨hord, fun i t u ht hu => ?_, fun i m hm hm' => ?_, hord.acyclic⟩
  · exact Pc.holdsInfo_unique ((locked_owner hl i _).mp ht) ((locked_owner hl i _).mp hu)
  · exact lt_irrefl m (hord i m m hm hm')

/-- In this run a distributor has `_input_mutex` and `_thread_info_mutex` and comes to the mutex of a `ThreadInfo`,
which the consumer has; a thread that pushes waits for the distributor. -/
def contendedRun : List (Tid × Act) :=
  [(6, .call (.insert ['a'] 30 true)), (6, .run), (6, .run), (6, .run),
    (8, .call (.push ⟨⟨0, 0, 0⟩, 0, [], 0, rfl⟩)), (8, .run), (8, .notify none),
    (7, .call (.pop ['a'])), (7, .run), (7, .run), (7, .run), (7, .run),
    (0, .run), (0, .run), (0, .clock 0), (0, .iterate [(['a'], 0)]), (0, .run), (0, .run),
    (8, .call (.push ⟨⟨0, 0, 0⟩, 0, [], 0, rfl⟩))]

theorem lock_order_contended : ∃ s, run step (init 30) contendedRun = some s ∧ s.Wants 0 (.info 0) ∧
    s.Holds 0 .input ∧ s.Holds 7 (.info 0) ∧ s.Wants 8 .input ∧
    ∀ i, ¬ TransGen (WaitsFor s.Holds s.Wants) i i := by
  have hrun : run step (init 30) contendedRun = some _ := rfl
  exact ⟨_, hrun, rfl, rfl, rfl, rfl, (lock_order (.of_run (.init (fresh_init 30)) hrun)).2.2.2⟩

/-- **The queue has no deadlock**: a thread that waits for a taken mutex waits, through others, for one that has a mutex
and can go on. -/
theorem deadlock_free {s : State} (h : Reach Fresh step (fun _ _ => True) s) (hf : s.fault = none) {i j : Tid}
    {m : Mutex} (hi : s.Wants i m) (hj : s.Holds j m) :
    ∃ k, TransGen (WaitsFor s.Holds s.Wants) i k ∧ ∃ a, (step s (k, a)).isSome = true := by
  obtain ⟨k, hk, hfree⟩ := (ordered_of_locked (reach_locked h)).exists_free hi hj
  refine ⟨k, hk, step_enabled hf fun n hn => ?_⟩
  cases ho : s.owner n with
  | none => rfl
  | some l => exact absurd ⟨n, hn, ho⟩ (hfree l)

end State

end RpiCam
