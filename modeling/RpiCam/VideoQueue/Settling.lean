import Mathlib.Algebra.BigOperators.Group.Finset.Piecewise
import RpiCam.Lib.Potential
import RpiCam.VideoQueue.Delivery
import RpiCam.VideoQueue.LockOrder
import RpiCam.VideoQueue.Reclaim

/-!
# The queue settles

When nobody calls a method any more, the threads that are inside finish: what is in `_input` is passed on, and then every
thread is out of the queue or asleep in a wait. A wait that ends on its own costs a few steps more, and nothing else.

* `Pc.effort`, `State.effort` : a bound for the steps that are left, of a thread and of all;
* `step_effort` : every step takes one off, but for a wait that ends on its own, which adds three, and for a call of `pop`
  that a frame pays for;
* `settles` : so the run without calls is bounded;
* `AtRest`, `atRest_iff` : nothing is left to do exactly where every thread is idle or asleep;
* `comes_to_rest` : the threads can always go on to there;
* `FeedsOne`, `delivered_at_rest` : there every frame that was pushed has been passed on, and a consumer that waits has got
  all that its divisor selects;
* `reclaimed_at_rest` : and every frame is deleted or in a queue.
-/

namespace RpiCam

open Transition

/-- A method is called. -/
def Act.calls : Act → Bool
  | .call _ => true
  | _ => false

namespace Pc

/-- In a wait that nobody has ended. -/
def sleeps : Pc → Bool
  | popWait _ _ _ notified | distWait notified => !notified
  | _ => false

/-! ## The effort that is left -/

/-- The steps of a pass with `k` entries to come: each wakes up to `n` threads, and has a copy that is worth `w`. -/
def visitEffort (n w k : Nat) : Nat := 4 + k * (4 + 4 * n + w)

/-- The steps for a frame of `_input`, with up to `e` entries. -/
def frameEffort (n e w : Nat) : Nat := visitEffort n w e + 2

/-- The steps of a thread, among `n` threads and with up to `e` entries, outside `remove_event`. It may call again when it
is out, for `w`. -/
def effort (n e w : Nat) : Pc → Nat
  | idle => w
  | pushLock _ => frameEffort n e w + 5 + w
  | pushInput _ => frameEffort n e w + 4 + w
  | insertLock _ _ => 3 + w
  | insertInfo _ _ => 2 + w
  | insertOutput _ => 1 + w
  | popFindInfo _ => 11
  | popFindOutput _ => 10
  | popMutex _ => 9
  | popLock _ _ => 8
  | popCond _ _ => 7
  | popRun _ _ _ => 6
  | popEmpty _ _ _ => 5
  | popWait _ _ _ notified => if notified then 8 else 4
  | popWake _ _ _ => 7
  | popTest _ _ => 4
  | popFront _ _ => 3
  | popPop _ _ _ => 2
  | hold _ => 1
  | distLock => 2
  | distTest => 1
  | distWait notified => if notified then 3 else 0
  | distWake => 2
  | distTake => 0
  | distIterate _ _ => visitEffort n w e + 1
  | distVisit _ _ _ rest => visitEffort n w rest.length
  | distDue _ _ _ _ rest => visitEffort n w rest.length + 4 * n + 3 + w
  | distEntry _ _ _ _ rest => visitEffort n w rest.length + 4 * n + 2 + w
  | distCopy _ _ _ _ rest => visitEffort n w rest.length + 4 * n + 1 + w
  | distDelete _ => 3
  | _ => 0

/-- Whether the thread may add an entry. -/
def enters (p : Pc) : Nat := if p.inserts.isSome then 1 else 0

theorem enters_plain (p : Pc) : p.plain.enters = p.enters := by rw [enters, enters, inserts_plain]

theorem visitEffort_cons (n w k : Nat) : visitEffort n w (k + 1) = visitEffort n w k + (4 + 4 * n + w) := by
  unfold visitEffort
  rw [Nat.add_mul, Nat.one_mul]
  exact (Nat.add_assoc _ _ _).symm

theorem visitEffort_mono (n w : Nat) {k l : Nat} (h : k ≤ l) : visitEffort n w k ≤ visitEffort n w l :=
  Nat.add_le_add_left (Nat.mul_le_mul_right _ h) _

end Pc

/-- How many frames are not deleted. -/
def VideoQueue.frames (v : VideoQueue) : Nat := v.nextAddr - v.deleted.length

namespace State

/-- A wait ends that nobody has ended. -/
def spurious (s : State) : Tid × Act → Bool
  | (i, .wake) => (s.pc i).sleeps
  | _ => false

/-- The steps that are left, in `_input`, to the threads, and for the frames that somebody may still pop. -/
def effort (threads : Finset Tid) (e w : Nat) (s : State) : Nat :=
  ∑ i ∈ threads, (s.pc i).effort threads.card e w + Pc.frameEffort threads.card e w * s.data.input.length +
    w * s.data.frames

/-- The entries there are or will be. -/
def mostEntries (threads : Finset Tid) (s : State) : Nat :=
  ∑ i ∈ threads, (s.pc i).enters + (UnorderedMap.toPairs s.data.threadInfo).length

/-- Only the threads of `threads` are in the queue, and there will be `e` entries at most. -/
structure Within (threads : Finset Tid) (e : Nat) (s : State) : Prop where
  idle : ∀ j, j ∉ threads → s.pc j = .idle
  entries : s.mostEntries threads ≤ e

/-- A thread of `threads` goes on. If it calls a method, this is `pop`, and a frame is worth it. -/
structure Draws (threads : Finset Tid) (w : Nat) (i : Tid) (a : Act) : Prop where
  mem : i ∈ threads
  call : ∀ r, a = .call r → (∃ n, r = .pop n) ∧ 12 ≤ w

/-! ## The bounds stay -/

theorem calls_of_idle {s s' : State} {i : Tid} {a : Act} (h : Step s i a .idle s') : a.calls = true := by
  cases h with
  | move hm => cases hm <;> rfl
  | lockInput hm => cases hm
  | lockThreadInfo hm => cases hm
  | lockInfo hm => cases hm
  | fail hm => cases hm
  | callPush => rfl
  | callInsert => rfl

theorem Within.draws {threads : Finset Tid} {e : Nat} {s s' : State} (hw : Within threads e s) {i : Tid} {a : Act}
    (h : Step s i a (s.pc i) s') (ha : a.calls = false) (w : Nat) : Draws threads w i a where
  mem := by
    by_contra hi
    rw [hw.idle i hi] at h
    rw [calls_of_idle h] at ha
    cases ha
  call := by
    rintro r rfl
    cases ha

theorem Step.enters_self {threads : Finset Tid} {w : Nat} {s s' : State} {i : Tid} {a : Act}
    (h : Step s i a (s.pc i) s') (hd : Draws threads w i a) : (s'.pc i).enters ≤ (s.pc i).enters := by
  unfold Pc.enters
  cases hi : (s'.pc i).inserts with
  | none => exact Nat.zero_le _
  | some u =>
    rcases h.inserts_self hi with hold | ⟨n, fps, r, rfl, -⟩ | ⟨n, rfl⟩
    · rw [hold]
    · obtain ⟨⟨m, hm⟩, -⟩ := hd.call _ rfl
      cases hm
    · obtain ⟨⟨m, hm⟩, -⟩ := hd.call _ rfl
      cases hm

theorem length_emplace (m : UnorderedMap Name InfoId) (n : Name) (t : InfoId) :
    (UnorderedMap.toPairs (UnorderedMap.emplace m n t)).length ≤ (UnorderedMap.toPairs m).length + 1 := by
  unfold UnorderedMap.emplace
  split_ifs
  · exact Nat.le_succ _
  · simp only [UnorderedMap.toPairs, List.length_map, AList.entries_insert, List.length_cons]
    exact Nat.succ_le_succ (List.kerase_sublist n m.entries).length_le

theorem Within.step {threads : Finset Tid} {e w : Nat} {s s' : State} (hw : Within threads e s) (hst : Steady s)
    {i : Tid} {a : Act} (h : Step s i a (s.pc i) s') (hd : Draws threads w i a) : Within threads e s' where
  idle j hj := by
    have hne : j ≠ i := by
      rintro rfl
      exact hj hd.mem
    exact (h.pc_of_ne hne rfl).mpr (hw.idle j hj)
  entries := by
    have hothers : ∀ j ∈ threads, j ≠ i → (s'.pc j).enters ≤ (s.pc j).enters + (fun _ => 0) j := by
      intro j _ hj
      rw [← Pc.enters_plain, h.plain_of_ne hj, Pc.enters_plain]
      exact Nat.le_refl _
    have hsum := sum_turn hd.mem hothers
    rw [Finset.sum_const_zero] at hsum
    have hself := h.enters_self hd
    have hle := hw.entries
    unfold mostEntries at hle ⊢
    rcases h.threadInfo_cases with he | ⟨n, t, hpc, hpc', -, hentered⟩ | ⟨n, hpc, -, -⟩
    · rw [he]
      omega
    · have hlength := length_emplace s.data.threadInfo n t
      have henters : (s.pc i).enters = 1 := by rw [hpc]; rfl
      have henters' : (s'.pc i).enters = 0 := by rw [hpc']; rfl
      rw [hentered]
      simp only [VideoQueue.enterInfo]
      omega
    · have herase := hst.erasesInfo i n
      rcases hpc with ⟨u, hpc⟩ | ⟨u, hpc⟩ <;> rw [hpc] at herase <;> simp [Pc.erasesInfo] at herase

/-! ## Every step takes one off -/

/-- The threads in `pop` are there for an event that is registered, or a frame is worth nothing. -/
def PopsKnown (w : Nat) (s : State) : Prop :=
  ∀ i n, (s.pc i).inPop n = true → w = 0 ∨ (n ∈ s.data.threadInfo ∧ n ∈ s.data.output)

theorem Moves.effort {threads : Finset Tid} {w : Nat} {s : State} {i : Tid} {a : Act} {p p' : Pc} (h : Moves s a p p')
    (hd : Draws threads w i a) (hr : ∀ n, p.removes n = false)
    (hknown : ∀ n, p.inPop n = true → w = 0 ∨ (n ∈ s.data.threadInfo ∧ n ∈ s.data.output)) (n e : Nat) :
    p'.effort n e w + 1 ≤ p.effort n e w + 4 * if a = .wake ∧ p.sleeps then 1 else 0 := by
  cases h with
  | insertAgain | remove =>
    obtain ⟨⟨m, hm⟩, -⟩ := hd.call _ rfl
    cases hm
  | pop =>
    obtain ⟨-, hworth⟩ := hd.call _ rfl
    exact Nat.le_add_right_of_le hworth
  | @popUnknown _ name hl =>
    rcases hknown name (by simp [Pc.inPop]) with rfl | ⟨hmem, -⟩
    · exact Nat.le_add_right_of_le (by simp [Pc.effort])
    · exact absurd (AList.lookup_isSome.mpr hmem) (by simp [hl])
  | @popNoQueue _ name hl =>
    rcases hknown name (by simp [Pc.inPop]) with rfl | ⟨-, hmem⟩
    · exact Nat.le_add_right_of_le (by simp [Pc.effort])
    · exact absurd (AList.lookup_isSome.mpr hmem) (by simp [hl])
  | @removeFind _ name | @removeTouch _ name | @removeDrain _ name | @removeFront _ name =>
    have hname := hr name
    simp [Pc.removes] at hname
  | @popAwake _ _ _ notified => cases notified <;> simp [Pc.effort, Pc.sleeps]
  | @distAwake notified => cases notified <;> simp [Pc.effort, Pc.sleeps]
  | distErased | distReach | distSkip | distDue =>
    simp only [Pc.effort, List.length_cons, Pc.visitEffort_cons]
    omega
  | _ => exact Nat.le_add_right_of_le (by simp [Pc.effort])

/-- A step of one thread, by what it adds to the others and takes off its own. -/
def Pays (threads : Finset Tid) (e w : Nat) (s s' : State) (i : Tid) (charge : Nat) : Prop :=
  ∃ rise : Tid → Nat,
    (∀ j, j ≠ i → (s'.pc j).effort threads.card e w ≤ (s.pc j).effort threads.card e w + rise j) ∧
    (s'.pc i).effort threads.card e w + ∑ j ∈ threads, rise j +
        Pc.frameEffort threads.card e w * s'.data.input.length + w * s'.data.frames + 1 ≤
      (s.pc i).effort threads.card e w + Pc.frameEffort threads.card e w * s.data.input.length + w * s.data.frames +
        charge

theorem pays_alone {threads : Finset Tid} {e w : Nat} {s s' : State} {i : Tid} {charge : Nat}
    (hothers : ∀ j, j ≠ i → s'.pc j = s.pc j) (hin : s'.data.input = s.data.input)
    (hframes : s'.data.frames ≤ s.data.frames)
    (hself : (s'.pc i).effort threads.card e w + 1 ≤ (s.pc i).effort threads.card e w + charge) :
    Pays threads e w s s' i charge := by
  refine ⟨fun _ => 0, fun j hj => ?_, ?_⟩
  · rw [hothers j hj]
    exact Nat.le_refl _
  · have hworth := Nat.mul_le_mul_left w hframes
    rw [Finset.sum_const_zero, hin]
    omega

theorem Step.pays {threads : Finset Tid} {e w : Nat} {s s' : State} (hw : Within threads e s) (hst : Steady s)
    (hc : Census s.held s.data.nextAddr) (hknown : PopsKnown w s) {i : Tid} {a : Act}
    (hsafe : ∀ f, ¬ Fails s (s.pc i) f) (h : Step s i a (s.pc i) s') (hd : Draws threads w i a) :
    Pays threads e w s s' i (4 * if a = .wake ∧ (s.pc i).sleeps then 1 else 0) := by
  have hremoves := hst.removes i
  have hinPop := hknown i
  have herases := hst.erases i
  have hhand : ∀ b, s.pc i = .hold b → s.data.deleted.length < s.data.nextAddr := by
    intro b hpc
    have hplace : Place.hand i ≠ Place.deleted := nofun
    exact hc.length_lt hplace (by rw [held, hpc]; exact List.mem_singleton_self _)
  generalize hpc : s.pc i = p at h hsafe hremoves hinPop herases hhand
  cases h
  case callPush =>
    obtain ⟨⟨m, hm⟩, -⟩ := hd.call _ rfl
    cases hm
  case callInsert =>
    obtain ⟨⟨m, hm⟩, -⟩ := hd.call _ rfl
    cases hm
  case fail f hf => exact absurd hf (hsafe f)
  case move p' hm =>
    refine pays_alone (fun j hj => by simp [Function.update_of_ne hj]) rfl (Nat.le_refl _) ?_
    rw [goto_pc, Function.update_self, hpc]
    exact hm.effort hd hremoves hinPop _ _
  case lockInput p' hfree hm =>
    refine pays_alone (fun j hj => by simp [Function.update_of_ne hj]) rfl (Nat.le_refl _) ?_
    rw [goto_pc, Function.update_self, hpc]
    cases hm <;> simp only [Pc.effort] <;> omega
  case lockThreadInfo p' hfree hm =>
    refine pays_alone (fun j hj => by simp [Function.update_of_ne hj]) rfl (Nat.le_refl _) ?_
    rw [goto_pc, Function.update_self, hpc]
    cases hm with
    | insert =>
      simp only [Pc.effort]
      omega
    | @remove name =>
      have hname := hremoves name
      simp [Pc.removes] at hname
  case lockInfo p' t hfree hm =>
    refine pays_alone (fun j hj => by simp [Function.update_of_ne hj]) rfl (Nat.le_refl _) ?_
    rw [goto_pc, Function.update_self, hpc]
    cases hm <;> simp only [Pc.effort] <;> omega
  case pushInput b waiter hn =>
    -- the distributor that is woken has up to three steps more, and the frame has its own
    refine ⟨fun j => if waiter = some j then 3 else 0, ?_, ?_⟩
    · intro j hj
      simp only [goto_pc, Function.update_of_ne hj, note_pc, setInput_pc, setData_pc, notifyOne_pc]
      split_ifs
      · simp [Pc.effort]
      · exact Nat.le_refl _
    · have hrise : ∑ j ∈ threads, (if waiter = some j then 3 else 0) ≤ 3 := by
        cases waiter with
        | none => simp
        | some w =>
          simp only [Option.some.injEq, Finset.sum_ite_eq]
          split_ifs <;> omega
      simp only [goto_pc, Function.update_self, goto_data, note_data, setInput_data, setData_data, VideoQueue.push,
        VideoQueue.frames, List.length_append, List.length_singleton, Nat.mul_add, Nat.mul_one, hpc, Pc.effort]
      omega
  case removeDelete n q info b rest hq | removePop n q info b rest hq | deleteQueue n q info hq | removeErase n info
      | removeNone n | removeStop n info hl | removeInfo n info =>
    have hname := hremoves n
    simp [Pc.removes] at hname
  case popErase n info => exact absurd rfl (herases n info)
  case release b =>
    -- the thread may call again for what the frame was worth
    refine ⟨fun _ => 0, fun j hj => by simp [Function.update_of_ne hj], ?_⟩
    have hlt := hhand b rfl
    have hframes : s.data.frames = (s.data.deleteBuffer b).frames + 1 := by
      simp only [VideoQueue.frames, VideoQueue.deleteBuffer, List.length_append, List.length_singleton]
      omega
    rw [Finset.sum_const_zero, hframes, Nat.mul_succ]
    simp only [goto_pc, Function.update_self, goto_data, setData_data, hpc, Pc.effort, VideoQueue.deleteBuffer]
    omega
  case distTake b t v hi =>
    obtain ⟨hin, hv⟩ := VideoQueue.takeInput_eq hi
    refine ⟨fun _ => 0, fun j hj => by simp [Function.update_of_ne hj], ?_⟩
    have hframes : v.frames = s.data.frames := by
      rw [hv]
      rfl
    rw [Finset.sum_const_zero, hin]
    simp only [goto_pc, Function.update_self, goto_data, setData_data, List.length_cons, Nat.mul_succ, hpc, Pc.effort,
      hframes]
    have hframe : Pc.frameEffort threads.card e w = Pc.visitEffort threads.card w e + 2 := rfl
    omega
  case distIterate b t order hfree ho =>
    refine pays_alone (fun j hj => by simp [Function.update_of_ne hj]) rfl (Nat.le_refl _) ?_
    have hlength : order.length ≤ e := by
      rw [ho.length_eq]
      exact Nat.le_trans (Nat.le_add_left _ _) hw.entries
    have hvisit := Pc.visitEffort_mono threads.card w hlength
    simp only [goto_pc, Function.update_self, hpc, Pc.effort]
    omega
  case distCopy b t name info rest v hl hcopy =>
    -- everyone who waits on the condition variable has up to four steps more, and the copy is worth `w`
    refine ⟨fun _ => 4, ?_, ?_⟩
    · intro j hj
      simp only [goto_pc, Function.update_of_ne hj, setInfo_pc, setData_pc, notifyAll_pc]
      cases s.pc j with
      | popWait n t c notified =>
        cases notified <;> simp only [Pc.effort, Bool.false_or, Bool.true_or] <;> split_ifs <;> omega
      | _ => exact Nat.le_add_right _ _
    · have hin := (VideoQueue.copyTo_extends hcopy).input
      have hframes : v.frames ≤ s.data.frames + 1 := by
        rcases VideoQueue.copyTo_done hcopy with ⟨-, rfl⟩ | ⟨q, l, -, -, rfl⟩ <;>
          simp only [VideoQueue.frames, VideoQueue.copied, VideoQueue.newBuffer] <;> omega
      have hworth := Nat.mul_le_mul_left w hframes
      rw [Nat.mul_succ] at hworth
      have hrise : ∑ _j ∈ threads, 4 = threads.card * 4 := Finset.sum_const_nat fun _ _ => rfl
      simp only [goto_pc, Function.update_self, goto_data, setInfo_data, setData_data, hin, hpc, Pc.effort, hrise]
      omega
  case distDelete b =>
    refine pays_alone (fun j hj => by simp [Function.update_of_ne hj]) rfl ?_ (Nat.le_add_right_of_le ?_)
    · simp only [goto_data, setInput_data, setData_data, VideoQueue.frames, VideoQueue.deleteBuffer, List.length_append]
      omega
    · rw [goto_pc, Function.update_self, hpc]
      simp [Pc.effort]
  all_goals
    refine pays_alone (fun j hj => by simp [Function.update_of_ne hj]) rfl (Nat.le_refl _) (Nat.le_add_right_of_le ?_)
    rw [goto_pc, Function.update_self, hpc]
    simp only [Pc.effort, Pc.visitEffort, List.length_nil, Bool.false_eq_true, if_false]
    omega

/-- **Every step takes one off.** -/
theorem step_effort {threads : Finset Tid} {e w : Nat} {s s' : State} (hw : Within threads e s) (hst : Steady s)
    (hc : Census s.held s.data.nextAddr) (hknown : PopsKnown w s) {i : Tid} {a : Act}
    (hsafe : ∀ f, ¬ Fails s (s.pc i) f) (h : Step s i a (s.pc i) s') (hd : Draws threads w i a) :
    s'.effort threads e w + 1 ≤ s.effort threads e w + 4 * if a = .wake ∧ (s.pc i).sleeps then 1 else 0 := by
  obtain ⟨rise, hothers, hself⟩ := h.pays hw hst hc hknown hsafe hd
  have hsum := sum_turn hd.mem (fun j _ hj => hothers j hj)
  unfold State.effort
  omega

theorem charge_eq (s : State) (i : Tid) (a : Act) :
    (if spurious s (i, a) then 1 else 0) = if a = .wake ∧ (s.pc i).sleeps then 1 else 0 := by
  cases a with
  | wake => by_cases h : (s.pc i).sleeps = true <;> simp [spurious, h]
  | _ => simp [spurious]

theorem quiet_step {F : Int} {threads : Finset Tid} {e w : Nat} {s s' : State} {i : Tid} {a : Act}
    (hr : Reach (· = init F) step Feeds s) (hw : Within threads e s) (hknown : PopsKnown w s)
    (hd : Draws threads w i a) (hst : step s (i, a) = some s') :
    Within threads e s' ∧
      s'.effort threads e w + 1 ≤ s.effort threads e w + 4 * if spurious s (i, a) then 1 else 0 := by
  have hsteady := (reach_wakeup hr).1
  have hrule := step_sound hst
  refine ⟨hw.step hsteady hrule hd, ?_⟩
  rw [charge_eq]
  exact step_effort hw hsteady (reach_census hr) hknown ((reach_safe hr).no_failure (reach_coherent hr).2 hsteady i)
    hrule hd

/-! ## Runs without calls -/

def noCall (_ : State) (ia : Tid × Act) : Bool := !ia.2.calls

/-- How many waits of the run end that nobody has ended. -/
def spuriousWakes (s : State) (as : List (Tid × Act)) : Nat :=
  charged step (fun s ia => if spurious s ia then 1 else 0) s as

theorem feeds_of_noCall (s : State) (i : Tid) {a : Act} (ha : a.calls = false) : Feeds s (i, a) := by
  have hno : ∀ r, a ≠ .call r := by
    rintro r rfl
    cases ha
  exact ⟨fun n fps r h => absurd h (hno _), fun n t => hno _, fun n => hno _⟩

theorem noCall_step {F : Int} {threads : Finset Tid} {e : Nat} {s s' : State} {ia : Tid × Act}
    (hs : Reach (· = init F) step Feeds s ∧ Within threads e s) (h : checked noCall step s ia = some s') :
    (Reach (· = init F) step Feeds s' ∧ Within threads e s') ∧
      s'.effort threads e 0 + 1 ≤ s.effort threads e 0 + 4 * if spurious s ia then 1 else 0 := by
  obtain ⟨i, a⟩ := ia
  obtain ⟨hr, hw⟩ := hs
  obtain ⟨ha, hst⟩ := checked_eq_some.mp h
  rw [noCall, Bool.not_eq_true'] at ha
  obtain ⟨hw', hle⟩ := quiet_step hr hw (fun _ _ _ => Or.inl rfl) (hw.draws (step_sound hst) ha 0) hst
  exact ⟨⟨.next (i, a) hr (feeds_of_noCall s i ha) hst, hw'⟩, hle⟩

theorem exists_idle {F : Int} {s : State} (h : Reach (· = init F) step Feeds s) :
    ∃ threads : Finset Tid, ∀ j ∉ threads, s.pc j = .idle := by
  refine exists_bounds_idle (fun s j => s.pc j = .idle) ?_ ?_ h
  · rintro s rfl
    refine ⟨Finset.range 6, fun j hj => few_init (Nat.le_refl 6) F j ?_⟩
    rwa [Finset.mem_range, Nat.not_lt] at hj
  · intro s i a s' hst j hj hidle
    exact ((step_sound hst).pc_of_ne hj rfl).mpr hidle

/-- **The queue settles.** From any state that the callers of `Feeds` come to, with frames in `_input`, passes under way
and any number of threads in their calls: when no method is called any more, the number of steps is bounded, up to four
for each wait that ends on its own, however the threads come between each other. -/
theorem settles {F : Int} {s : State} (h : Reach (· = init F) step Feeds s) :
    ∃ n, ∀ as s', run (checked noCall step) s as = some s' → as.length ≤ n + 4 * spuriousWakes s as := by
  obtain ⟨threads, hidle⟩ := exists_idle h
  refine ⟨s.effort threads (s.mostEntries threads) 0, ?_⟩
  intro as s' hrun
  have hle := length_le_potential
    (fun t => Reach (· = init F) step Feeds t ∧ Within threads (s.mostEntries threads) t)
    (effort threads (s.mostEntries threads) 0) (fun s ia s' hs hst => noCall_step hs hst)
    ⟨h, hidle, Nat.le_refl _⟩ hrun
  rw [charged_checked _ hrun, charged_mul] at hle
  exact Nat.le_trans (Nat.le_add_left _ _) hle

theorem settles_frame : ∃ s, run (checked feeding step) (init 30) (waitingRun ++ pushingRun) = some s ∧
    s.data.input ≠ [] ∧
    ∃ n, ∀ as s', run (checked noCall step) s as = some s' → as.length ≤ n + 4 * spuriousWakes s as :=
  ⟨_, rfl, List.cons_ne_nil _ _, settles (.of_checked feeding feeds_of_feeding (.init rfl)
    (rfl : run (checked feeding step) (init 30) (waitingRun ++ pushingRun) = some _))⟩

/-! ## At rest -/

/-- Without a call, nothing happens but that waits end on their own. -/
def AtRest (s : State) : Prop := ∀ ia : Tid × Act, ia.2.calls = false → spurious s ia = false → step s ia = none

theorem sleeps_holds {p : Pc} (h : p = .idle ∨ p.sleeps = true) (m : Mutex) : p.holds m = false := by
  rcases h with rfl | h
  · cases m <;> rfl
  · cases p <;> first | cases h | (cases m <;> rfl)

theorem not_atRest {s : State} {i : Tid} (hidle : s.pc i ≠ .idle) (hsleeps : (s.pc i).sleeps = false) {a : Act}
    (h : (step s (i, a)).isSome = true) : ¬ AtRest s := by
  intro hrest
  obtain ⟨s', hs'⟩ := Option.isSome_iff_exists.mp h
  have hcalls : a.calls = false := by
    cases a with
    | call r => exact absurd (idle_of_call hs') hidle
    | _ => rfl
  have hspurious : spurious s (i, a) = false := by cases a <;> simp [spurious, hsleeps]
  rw [hrest (i, a) hcalls hspurious] at hs'
  cases hs'

/-- **Nothing is left to do exactly where every thread is idle or asleep.** -/
theorem atRest_iff {s : State} (hl : Locked s) (hf : s.fault = none) :
    AtRest s ↔ ∀ i, s.pc i = .idle ∨ (s.pc i).sleeps = true := by
  constructor
  · intro hrest i
    by_contra hbusy
    rw [not_or, Bool.not_eq_true] at hbusy
    by_cases hfree : ∀ m, s.Wants i m → s.owner m = none
    · obtain ⟨a, ha⟩ := step_enabled hf hfree
      exact not_atRest hbusy.1 hbusy.2 ha hrest
    · -- it waits, through others, for a thread that has a mutex and can go on
      push Not at hfree
      obtain ⟨m, hm, howner⟩ := hfree
      obtain ⟨j, hj⟩ := Option.ne_none_iff_exists'.mp howner
      obtain ⟨k, hk, hkfree⟩ := (ordered_of_locked hl).exists_free hm hj
      obtain ⟨l, -, n, -, hn⟩ := Relation.TransGen.tail'_iff.mp hk
      have hholds := (locked_owner hl k n).mp hn
      have hkbusy : ¬ (s.pc k = .idle ∨ (s.pc k).sleeps = true) := by
        intro hk
        rw [sleeps_holds hk n] at hholds
        cases hholds
      rw [not_or, Bool.not_eq_true] at hkbusy
      obtain ⟨a, ha⟩ := step_enabled (i := k) hf fun n' hn' => by
        cases ho : s.owner n' with
        | none => rfl
        | some l' => exact absurd ⟨n', hn', ho⟩ (hkfree l')
      exact not_atRest hkbusy.1 hkbusy.2 ha hrest
  · rintro hall ⟨i, a⟩ hcalls hspurious
    by_contra hstep
    obtain ⟨s', hs'⟩ := Option.ne_none_iff_exists'.mp hstep
    rcases hall i with hidle | hsleeps
    · have hrule := step_sound hs'
      rw [hidle] at hrule
      rw [calls_of_idle hrule] at hcalls
      cases hcalls
    · simp only [step, hf] at hs'
      cases hpc : s.pc i with
      | popWait n t c notified =>
        rw [hpc] at hs' hsleeps
        cases a with
        | wake =>
          simp only [spurious, hpc, hsleeps] at hspurious
          cases hspurious
        | call r => cases hcalls
        | _ => simp [runPush, runInsert, runRemove, runPop, runDistribute] at hs'
      | distWait notified =>
        rw [hpc] at hs' hsleeps
        cases a with
        | wake =>
          simp only [spurious, hpc, hsleeps] at hspurious
          cases hspurious
        | call r => cases hcalls
        | _ => simp [runPush, runInsert, runRemove, runPop, runDistribute] at hs'
      | _ =>
        rw [hpc] at hsleeps
        cases hsleeps

/-- **The threads come to rest.** From any such state they can go on without a call, and without a wait that ends on its
own, until nothing is left to do. -/
theorem comes_to_rest {F : Int} {s : State} (h : Reach (· = init F) step Feeds s) :
    ∃ as s', run (checked noCall step) s as = some s' ∧ spuriousWakes s as = 0 ∧ AtRest s' := by
  obtain ⟨threads, hidle⟩ := exists_idle h
  obtain ⟨as, s', hrun, hcharge, hend⟩ := exists_terminal
    (fun t => Reach (· = init F) step Feeds t ∧ Within threads (s.mostEntries threads) t)
    (effort threads (s.mostEntries threads) 0) (fun s ia s' hs hst => noCall_step hs hst) ⟨h, hidle, Nat.le_refl _⟩
  refine ⟨as, s', hrun, ?_, ?_⟩
  · rw [charged_checked _ hrun, charged_mul] at hcharge
    exact (Nat.mul_eq_zero.mp hcharge).resolve_left (by decide)
  · intro ia hcalls hspurious
    have hnone := hend ia (by rw [hspurious]; rfl)
    rwa [checked, noCall, hcalls, Bool.not_false, if_pos rfl] at hnone

theorem comes_to_rest_frame : ∃ s, run (checked feeding step) (init 30) (waitingRun ++ pushingRun) = some s ∧
    s.data.input ≠ [] ∧ ∃ as s', run (checked noCall step) s as = some s' ∧ spuriousWakes s as = 0 ∧ AtRest s' :=
  ⟨_, rfl, List.cons_ne_nil _ _, comes_to_rest (.of_checked feeding feeds_of_feeding (.init rfl)
    (rfl : run (checked feeding step) (init 30) (waitingRun ++ pushingRun) = some _))⟩

/-- One consumer at a time for `e`, and the callers of all events keep to `Feeds`. -/
def FeedsOne (e : Name) (s : State) (ia : Tid × Act) : Prop :=
  Feeds s ia ∧ (ia.2 = .call (.pop e) → ∀ j, (s.pc j).inPop e = false)

theorem FeedsOne.delivers {e : Name} {s : State} {ia : Tid × Act} (h : FeedsOne e s ia) : Delivers e s ia := by
  obtain ⟨i, a⟩ := ia
  obtain ⟨⟨hinsert, hagain, hremove⟩, hpop⟩ := h
  exact ⟨fun n fps r ha => ⟨(hinsert n fps r ha).1, (hinsert n fps r ha).2.1⟩, hagain, hremove e, hpop⟩

theorem entries_of_rest {p : Pc} (h : p = .idle ∨ p.sleeps = true) : p.entries = [] ∧ p.taken = [] := by
  rcases h with rfl | h
  · exact ⟨rfl, rfl⟩
  · cases p <;> first | exact ⟨rfl, rfl⟩ | cases h

theorem hand_of_rest {p : Pc} (h : p = .idle ∨ p.sleeps = true) : p.hand = [] := by
  rcases h with rfl | h
  · rfl
  · cases p <;> first | rfl | cases h

theorem popWait_of_rest {p : Pc} {e : Name} (h : p = .idle ∨ p.sleeps = true) (hp : p.inPop e = true) :
    ∃ info cond, p = .popWait e info cond false := by
  rcases h with rfl | h
  · cases hp
  · cases p <;> simp only [Pc.sleeps, Bool.false_eq_true, Bool.not_eq_true'] at h
    case popWait n info cond notified =>
      simp only [Pc.inPop, beq_iff_eq] at hp
      exact ⟨info, cond, by rw [h, hp]⟩
    case distWait => cases hp

section

variable {s : State} (hall : ∀ i, s.pc i = .idle ∨ (s.pc i).sleeps = true)

include hall

/-- The distributors do not all sleep while `_input` has frames. -/
theorem Attended.input_nil (ha : Attended s) : s.data.input = [] := by
  by_contra hne
  obtain ⟨j, hj, hawake⟩ := ha.input hne
  have hdist := (ha.distributors j).mpr hj
  rcases hall j with hidle | hsleeps
  · rw [hidle] at hdist
    cases hdist
  · cases hp : s.pc j with
    | distWait notified =>
      rw [hp] at hsleeps
      cases notified
      · exact hawake hp
      · cases hsleeps
    | popWait =>
      rw [hp] at hdist
      cases hdist
    | _ =>
      rw [hp] at hsleeps
      cases hsleeps

theorem passes_of_rest (ho : PushOrder s) (hin : s.data.input = []) :
    (passesOf s.log).map Prod.fst = pushesOf s.log := by
  have htaken : s.taken = [] := by
    unfold State.taken
    cases hm : s.inputMutex with
    | none => exact atHolder_none _
    | some i => rw [atHolder_some, (entries_of_rest (hall i)).2]
  unfold PushOrder at ho
  rw [htaken, hin, List.append_nil, List.append_nil] at ho
  exact ho

theorem pending_of_rest (e : Name) (d : Int) : s.pendingOf e d = [] := by
  unfold pendingOf
  cases hm : s.threadInfoMutex with
  | none => exact atHolder_none _
  | some i => rw [atHolder_some, Pc.pending_of_entries (entries_of_rest (hall i)).1]

theorem queued_of_rest (hw : Watching s) {e : Name} {j : Tid} (hj : (s.pc j).inPop e = true) :
    s.data.queued e = [] := by
  obtain ⟨info, cond, hp⟩ := popWait_of_rest (hall j) hj
  obtain ⟨q, ho, hq⟩ := hw.empty j e info cond hp
  exact queued_of_lookup ho hq

theorem left_of_rest (hst : Steady s) (ha : Attended s) (hc : Census s.held s.data.nextAddr) {a : Addr}
    (hlt : a < s.data.nextAddr) : a ∈ s.data.deleted ∨ ∃ e, a ∈ (s.data.queued e).map BufferRef.addr := by
  obtain ⟨p, hp⟩ := (hc.known a).mp hlt
  cases p with
  | input =>
    rw [held, ha.input_nil hall] at hp
    cases hp
  | hand i =>
    rw [held, hand_of_rest (hall i)] at hp
    cases hp
  | output e =>
    rw [hst.held_output e] at hp
    exact Or.inr ⟨e, hp⟩
  | deleted => exact Or.inl hp

end

/-- **At rest everything is delivered.** Every frame that was pushed has been passed on, in order; what a consumer has got
and what is in its queue are the frames that its divisor selects of those passed on since it registered; and while it
waits for more, its queue is empty. -/
theorem delivered_at_rest {F : Int} (hF : 1 ≤ F) {e : Name} {s : State}
    (h : Reach (· = init F) step (FeedsOne e) s) (hrest : AtRest s) {t : InfoId} {f : Int} {post : List Event}
    (hr : FirstRegistered e t f post s.log) :
    (passesOf s.log).map Prod.fst = pushesOf s.log ∧
      (poppedOf e s.log ++ s.data.queued e).map (fun b => b.val.payload) =
        (selected (F / f) post).map (fun b => b.val.payload) ∧
      ∀ j, (s.pc j).inPop e = true → s.data.queued e = [] := by
  have hfeeds : Reach (· = init F) step Feeds s := h.mono fun _ _ _ _ hok _ => hok.1
  have hall := (atRest_iff (reach_coherent h).1 (reach_safe hfeeds).fault).mp hrest
  obtain ⟨-, hwatch, hattended⟩ := reach_wakeup hfeeds
  refine ⟨passes_of_rest hall (push_order h) (hattended.input_nil hall), ?_, fun j hj => queued_of_rest hall hwatch hj⟩
  have hdelivered := delivered_eq hF (h.mono fun _ _ _ _ hok _ => hok.delivers) hr
  rw [pending_of_rest hall, List.append_nil] at hdelivered
  exact hdelivered

/-- `feeding`, and nobody begins a `pop`. -/
def feedingOnly (s : State) : Tid × Act → Bool
  | (_, .call (.pop _)) => false
  | ia => feeding s ia

theorem feedsOne_of_feedingOnly (e : Name) (s : State) (ia : Tid × Act) (h : feedingOnly s ia = true) :
    FeedsOne e s ia := by
  obtain ⟨i, a⟩ := ia
  cases a with
  | call r =>
    cases r with
    | pop n => cases h
    | _ => exact ⟨feeds_of_feeding _ _ h, nofun⟩
  | _ => exact ⟨feeds_of_feeding _ _ h, nofun⟩

theorem feedsOne_pop {n : Nat} {e : Name} {s : State} (hidle : Few n s)
    (hnone : ∀ j < n, (s.pc j).inPop e = false) (i : Tid) : FeedsOne e s (i, .call (.pop e)) := by
  refine ⟨feeds_of_feeding _ _ rfl, ?_⟩
  rintro - j
  by_cases hj : j < n
  · exact hnone j hj
  · rw [hidle j (Nat.le_of_not_lt hj)]
    rfl

theorem atRest_of_idle {n : Nat} {s : State} (hl : Locked s) (hf : s.fault = none) (hidle : Few n s)
    (hsleeps : ∀ j < n, s.pc j = .idle ∨ (s.pc j).sleeps = true) : AtRest s := by
  refine (atRest_iff hl hf).mpr ?_
  intro j
  by_cases hj : j < n
  · exact hsleeps j hj
  · exact Or.inl (hidle j (Nat.le_of_not_lt hj))

/-- Thread `7` waits in `pop`, everybody falls asleep, a frame is pushed and passed on, and thread `7` gets it. -/
def restingRun : List (Tid × Act) :=
  waitingRun.drop 5 ++ ((List.range 6).flatMap fun j => [(j, .run), (j, .run)]) ++
    [(8, .call (.push sampleFrame)), (8, .run), (8, .notify (some 0)), (0, .wake)] ++ passingRun ++
    [(0, .run), (0, .run), (7, .wake)] ++ List.replicate 7 (7, .run)

theorem delivered_at_rest_frame : ∃ s, run step (init 30) (waitingRun.take 5 ++ restingRun) = some s ∧
    (poppedOf ['c', 'a', 'm'] s.log).length = 1 ∧ (passesOf s.log).map Prod.fst = pushesOf s.log := by
  have hinit : Few 9 (init 30) := few_init (by decide) 30
  have hfirst : run (checked feedingOnly step) (init 30) (waitingRun.take 4) = some _ := rfl
  have hreach : Reach (· = init 30) step (FeedsOne ['c', 'a', 'm']) _ :=
    .of_checked feedingOnly (feedsOne_of_feedingOnly _) (.init rfl) hfirst
  have hpop : FeedsOne ['c', 'a', 'm'] _ (7, .call (.pop ['c', 'a', 'm'])) :=
    feedsOne_pop (few_of_run hinit (by decide) (rfl : run step (init 30) (waitingRun.take 4) = some _)) (by decide) 7
  have hrun : run step (init 30) (waitingRun.take 5 ++ restingRun) = some _ := rfl
  have hlast : Reach (· = init 30) step (FeedsOne ['c', 'a', 'm']) _ :=
    .of_checked feedingOnly (feedsOne_of_feedingOnly _) (.next _ hreach hpop rfl)
      (rfl : run (checked feedingOnly step) _ restingRun = some _)
  refine ⟨_, hrun, rfl, (delivered_at_rest (by decide) hlast ?_ ⟨[], rfl, by simp⟩).1⟩
  exact atRest_of_idle (reach_coherent hlast).1 rfl (few_of_run hinit (by decide) hrun) (by decide)

/-- **At rest nothing is left over.** Every frame that was ever pushed or copied has been deleted, or it is in the queue
of one event; and the queue of an event for which a thread waits is empty. -/
theorem reclaimed_at_rest {F : Int} {s : State} (h : Reach (· = init F) step Feeds s) (hrest : AtRest s) :
    (∀ a < s.data.nextAddr, a ∈ s.data.deleted ∨ ∃! e, a ∈ (s.data.queued e).map BufferRef.addr) ∧
      ∀ e j, (s.pc j).inPop e = true → s.data.queued e = [] := by
  have hcensus := reach_census h
  have hall := (atRest_iff (reach_coherent h).1 (reach_safe h).fault).mp hrest
  obtain ⟨hst, hwatch, hattended⟩ := reach_wakeup h
  refine ⟨?_, fun e j hj => queued_of_rest hall hwatch hj⟩
  intro a ha
  rcases left_of_rest hall hst hattended hcensus ha with hdeleted | ⟨e, he⟩
  · exact Or.inl hdeleted
  · refine Or.inr ⟨e, he, ?_⟩
    intro e' he'
    rw [← hst.held_output] at he he'
    have hplace := hcensus.unique (.output e') (.output e) a he' he
    cases hplace
    rfl

theorem reclaimed_at_rest_frame : ∃ s, run (checked feeding step) (init 30) (waitingRun.take 5 ++ restingRun) = some s ∧
    s.data.nextAddr = 2 ∧ s.data.queued ['c', 'a', 'm'] = [] ∧
    ∀ a < s.data.nextAddr, a ∈ s.data.deleted ∨ ∃! e, a ∈ (s.data.queued e).map BufferRef.addr := by
  have hinit : Few 9 (init 30) := few_init (by decide) 30
  have hrun : run (checked feeding step) (init 30) (waitingRun.take 5 ++ restingRun) = some _ := rfl
  have hreach : Reach (· = init 30) step Feeds _ := .of_checked feeding feeds_of_feeding (.init rfl) hrun
  have hidle := few_of_run hinit (by decide) (run_of_checked hrun)
  have hrest := atRest_of_idle (reach_coherent hreach).1 rfl hidle (by decide)
  exact ⟨_, hrun, rfl, rfl, (reclaimed_at_rest hreach hrest).1⟩

end State

end RpiCam
