import RpiCam.Lib.Mutex
import RpiCam.VideoQueue.Rules

/-!
# Who holds which mutex

`holdsInput`, `holdsThreadInfo`, `holdsInfo` say at which places a thread holds `_input_mutex`, `_thread_info_mutex` and
the mutex of a `ThreadInfo`. `Locked s` ties the three to the mutexes of `s`; every step keeps it (`step_locked`).

Another thread changes the place of a waiting thread only by notifying it: `Pc.plain` forgets that.
-/

namespace RpiCam

open Transition

namespace Pc

def holdsInput : Pc → Bool
  | pushInput _ | distTest | distTake | distIterate _ _ | distVisit _ _ _ _ | distDue _ _ _ _ _ | distEntry _ _ _ _ _
  | distCopy _ _ _ _ _ | distDelete _ => true
  | _ => false

def holdsThreadInfo : Pc → Bool
  | insertInfo _ _ | insertOutput _ | removeFind _ | removeTouch _ _ _ | removeDrain _ _ _ | removeDelete _ _ _
  | removePop _ _ _ | removeErase _ _ | removeStop _ _ | removeInfo _ _ | distVisit _ _ _ _ | distDue _ _ _ _ _
  | distEntry _ _ _ _ _ | distCopy _ _ _ _ _ => true
  | _ => false

def holdsInfo (t : InfoId) : Pc → Bool
  | popCond _ info | popRun _ info _ | popEmpty _ info _ | popTest _ info | popErase _ info | popFront _ info
  | popPop _ info _ | distCopy _ _ _ info _ => info == t
  | _ => false

/-- The place of a waiting thread, notified or not. -/
def plain : Pc → Pc
  | popWait name info cond _ => popWait name info cond false
  | distWait _ => distWait false
  | p => p

def waits : Pc → Bool
  | popWait _ _ _ _ | distWait _ => true
  | _ => false

theorem plain_eq_plain {p q : Pc} (hq : q.waits = false) : p.plain = q.plain ↔ p = q := by
  refine ⟨fun h => ?_, fun h => by rw [h]⟩
  cases q <;> cases p <;> simp_all [plain, waits]

theorem holdsInput_plain (p : Pc) : p.plain.holdsInput = p.holdsInput := by cases p <;> rfl

theorem holdsThreadInfo_plain (p : Pc) : p.plain.holdsThreadInfo = p.holdsThreadInfo := by cases p <;> rfl

theorem holdsInfo_plain (t : InfoId) (p : Pc) : p.plain.holdsInfo t = p.holdsInfo t := by cases p <;> rfl

end Pc

namespace State

theorem notifyAll_plain (s : State) (info : InfoId) (j : Tid) :
    ((s.notifyAll info).pc j).plain = (s.pc j).plain := by
  simp only [notifyAll]
  cases s.pc j <;> rfl

theorem notifyOne_plain {s : State} {w : Option Tid} (h : s.CanNotify w) (j : Tid) :
    ((s.notifyOne w).pc j).plain = (s.pc j).plain := by
  simp only [notifyOne]
  split_ifs with hw
  · subst hw
    have hj : s.pc j = .distWait false := h
    rw [hj]
    rfl
  · rfl

theorem Step.plain_of_ne {s s' : State} {i : Tid} {a : Act} (h : Step s i a (s.pc i) s') {j : Tid} (hj : j ≠ i) :
    (s'.pc j).plain = (s.pc j).plain := by
  generalize s.pc i = p at h
  cases h
  case pushInput b waiter hn =>
    simp only [goto_pc, Function.update_of_ne hj]
    exact notifyOne_plain hn j
  case distCopy b t name info rest v hl hc =>
    simp only [goto_pc, Function.update_of_ne hj]
    exact notifyAll_plain _ info j
  all_goals simp [Function.update_of_ne hj]

theorem Step.pc_of_ne {s s' : State} {i : Tid} {a : Act} (h : Step s i a (s.pc i) s') {j : Tid} (hj : j ≠ i) {p : Pc}
    (hp : p.waits = false) : s'.pc j = p ↔ s.pc j = p := by
  rw [← Pc.plain_eq_plain hp, h.plain_of_ne hj, Pc.plain_eq_plain hp]

/-! ## Runs of a few threads -/

/-- The threads from `n` on are idle. -/
def Few (n : Nat) (s : State) : Prop := ∀ j, n ≤ j → s.pc j = .idle

theorem few_init {n : Nat} (hn : 6 ≤ n) (F : Int) : Few n (init F) := by
  intro j hj
  exact if_neg (Nat.not_lt.mpr (Nat.le_trans hn hj))

theorem step_few {n : Nat} {s s' : State} {i : Tid} {a : Act} (hs : Few n s) (hi : i < n)
    (h : Step s i a (s.pc i) s') : Few n s' := by
  intro j hj
  exact (h.pc_of_ne (Nat.ne_of_gt (Nat.lt_of_lt_of_le hi hj)) rfl).mpr (hs j hj)

theorem few_of_run {n : Nat} {s s' : State} {as : List (Tid × Act)} (hs : Few n s) (has : ∀ ia ∈ as, ia.1 < n)
    (hrun : run step s as = some s') : Few n s' := by
  refine run_invariant_of_mem (Few n) ?_ hs hrun
  intro ia hia s s' hs hst
  exact step_few hs (has ia hia) (step_sound hst)

/-- No thread of the first `n` but `i` is at such a place. -/
def noOther (n : Nat) (s : State) (i : Tid) (f : Pc → Bool) : Bool := decide (∀ j < n, j ≠ i → f (s.pc j) = false)

theorem noOther_sound {n : Nat} {s : State} (hs : Few n s) {i : Tid} {f : Pc → Bool} (hf : f .idle = false)
    (h : noOther n s i f = true) {j : Tid} (hj : j ≠ i) : f (s.pc j) = false := by
  by_cases hn : j < n
  · exact of_decide_eq_true h j hn hj
  · rw [hs j (Nat.not_lt.mp hn)]
    exact hf

/-- A concrete run of the first threads whose steps pass a check, which is for the states where the others are idle. -/
theorem reach_of_few {n : Nat} (hn : 6 ≤ n) {ok : State → Tid × Act → Prop} (check : State → Tid × Act → Bool)
    (hlt : ∀ s ia, check s ia = true → ia.1 < n) (hcheck : ∀ s ia, Few n s → check s ia = true → ok s ia) {F : Int}
    {s : State} {as : List (Tid × Act)} (h : run (checked check step) (init F) as = some s) :
    Reach (· = init F) step ok s := by
  refine .of_checked_of check (Few n) hcheck ?_ (.init rfl) (few_init hn F) h
  intro s ia s' hs hc hst
  exact step_few hs (hlt s ia hc) (step_sound hst)

/-! ## The three mutexes -/

/-- The mutexes belong to the threads that are inside. -/
structure Locked (s : State) : Prop where
  input : OwnedBy s.inputMutex fun i => (s.pc i).holdsInput
  threadInfo : OwnedBy s.threadInfoMutex fun i => (s.pc i).holdsThreadInfo
  info : ∀ t, OwnedBy (s.infoMutex t) fun i => (s.pc i).holdsInfo t

theorem Moves.holdsInput {s : State} {a : Act} {p p' : Pc} (h : Moves s a p p') : p'.holdsInput = p.holdsInput := by
  cases h <;> rfl

theorem Moves.holdsThreadInfo {s : State} {a : Act} {p p' : Pc} (h : Moves s a p p') :
    p'.holdsThreadInfo = p.holdsThreadInfo := by
  cases h <;> rfl

theorem Moves.holdsInfo {s : State} {a : Act} {p p' : Pc} (h : Moves s a p p') (t : InfoId) :
    p'.holdsInfo t = p.holdsInfo t := by
  cases h <;> rfl

theorem Step.turn_input {s s' : State} {i : Tid} {a : Act} (h : Step s i a (s.pc i) s') :
    Turn i s.inputMutex (s.pc i).holdsInput (s'.pc i).holdsInput s'.inputMutex := by
  generalize hpc : s.pc i = p at h ⊢
  cases h
  case move p' hm => exact .keep (by simp [hm.holdsInput])
  case lockInput p' hfree hm => exact .take hfree (by cases hm <;> simp [Pc.holdsInput])
  case lockThreadInfo p' hfree hm => exact .keep (by cases hm <;> simp [Pc.holdsInput])
  case lockInfo p' info hfree hm => exact .keep (by cases hm <;> simp [Pc.holdsInput])
  case pushInput b waiter hn => exact .give (by simp [Pc.holdsInput]) (by simp [Pc.holdsInput])
  case distBlock hi => exact .give (by simp [Pc.holdsInput]) (by simp [Pc.holdsInput])
  case distDelete b => exact .give (by simp [Pc.holdsInput]) (by simp [Pc.holdsInput])
  all_goals exact .keep (by simp [*, Pc.holdsInput])

theorem Step.turn_threadInfo {s s' : State} {i : Tid} {a : Act} (h : Step s i a (s.pc i) s') :
    Turn i s.threadInfoMutex (s.pc i).holdsThreadInfo (s'.pc i).holdsThreadInfo s'.threadInfoMutex := by
  generalize hpc : s.pc i = p at h ⊢
  cases h
  case move p' hm => exact .keep (by simp [hm.holdsThreadInfo])
  case lockInput p' hfree hm => exact .keep (by cases hm <;> simp [Pc.holdsThreadInfo])
  case lockThreadInfo p' hfree hm => exact .take hfree (by cases hm <;> simp [Pc.holdsThreadInfo])
  case lockInfo p' info hfree hm => exact .keep (by cases hm <;> simp [Pc.holdsThreadInfo])
  case distIterate b t order hfree ho => exact .take hfree (by simp [Pc.holdsThreadInfo])
  case insertRefused | insertOutput | removeNone | removeInfo | distEnd =>
    exact .give (by simp [*, Pc.holdsThreadInfo]) (by simp [Pc.holdsThreadInfo])
  all_goals exact .keep (by simp [*, Pc.holdsThreadInfo])

theorem turn_unlock {m : InfoId → Option Tid} {i : Tid} {p p' : Pc} {info t : InfoId}
    (hp : p.holdsInfo t = (info == t)) (hp' : p'.holdsInfo t = false) :
    Turn i (m t) (p.holdsInfo t) (p'.holdsInfo t) (Function.update m info none t) := by
  by_cases ht : t = info
  · subst ht
    rw [Function.update_self]
    exact .give (by simp [hp]) hp'
  · rw [Function.update_of_ne ht]
    exact .keep (by simp [hp, hp', Ne.symm ht])

theorem Step.turn_info {s s' : State} {i : Tid} {a : Act} (h : Step s i a (s.pc i) s') (t : InfoId) :
    Turn i (s.infoMutex t) ((s.pc i).holdsInfo t) ((s'.pc i).holdsInfo t) (s'.infoMutex t) := by
  generalize hpc : s.pc i = p at h ⊢
  cases h
  case move p' hm => exact .keep (by simp [hm.holdsInfo])
  case lockInput p' hfree hm => exact .keep (by cases hm <;> simp [Pc.holdsInfo])
  case lockThreadInfo p' hfree hm => exact .keep (by cases hm <;> simp [Pc.holdsInfo])
  case lockInfo p' info hfree hm =>
    by_cases ht : t = info
    · subst ht
      simp only [goto_infoMutex, setInfo_infoMutex, Function.update_self]
      exact .take hfree (by cases hm <;> simp [Pc.holdsInfo])
    · simp only [goto_infoMutex, setInfo_infoMutex, Function.update_of_ne ht]
      exact .keep (by cases hm <;> simp [Pc.holdsInfo, Ne.symm ht])
  case popBlock name info cond q ho hq => exact turn_unlock rfl (by simp [Pc.holdsInfo])
  case popErase name info => exact turn_unlock rfl (by simp [Pc.holdsInfo])
  case popPop name info b q c rest ho hq => exact turn_unlock rfl (by simp [Pc.holdsInfo])
  case distCopy b' t' name info rest v hl hc => exact turn_unlock rfl (by simp [Pc.holdsInfo])
  all_goals exact .keep (by simp [*, Pc.holdsInfo])

/-- **Every step keeps the mutexes with the threads that are inside.** -/
theorem step_locked {s s' : State} {i : Tid} {a : Act} (hl : Locked s) (h : Step s i a (s.pc i) s') : Locked s' where
  input := hl.input.turn (fun j hj => by
    rw [← Pc.holdsInput_plain, h.plain_of_ne hj, Pc.holdsInput_plain]) h.turn_input
  threadInfo := hl.threadInfo.turn (fun j hj => by
    rw [← Pc.holdsThreadInfo_plain, h.plain_of_ne hj, Pc.holdsThreadInfo_plain]) h.turn_threadInfo
  info t := (hl.info t).turn (fun j hj => by
    rw [← Pc.holdsInfo_plain, h.plain_of_ne hj, Pc.holdsInfo_plain]) (h.turn_info t)

theorem init_pc (F : Int) (i : Tid) : (init F).pc i = .distLock ∨ (init F).pc i = .idle := by
  by_cases hi : i < 6
  · exact Or.inl (if_pos hi)
  · exact Or.inr (if_neg hi)

theorem locked_init (F : Int) : Locked (init F) := by
  refine ⟨.of_free fun i => ?_, .of_free fun i => ?_, fun t => .of_free fun i => ?_⟩ <;>
    rcases init_pc F i with h | h <;> rw [h] <;> rfl

end State

end RpiCam
