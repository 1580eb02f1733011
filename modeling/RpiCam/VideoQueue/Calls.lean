import RpiCam.Lib.Transition
import RpiCam.VideoQueue.Basic

/-!
# Sequences of calls on the queue

`exec v c` runs one call of the class on `v`; `step` is its state, where the call returns. The lemmas say once what a
call does to the two maps, to the heap of queues and to the `ThreadInfo` objects:

* `insertEvent_done`, `removeEvent_done`, `pop_done` : the cases of the three methods that change the registry;
* `Extends v w` : `w` is `v` after copies were appended to queues; `visit_extends`, `distributeBuffer_done`.
-/

namespace RpiCam

open Transition

/-- A call of a method, or the allocation of the `ThreadInfo` a caller will register. -/
inductive Call
  | newThreadInfo (fps : Int) (isRun : Bool)
  | insertEvent (name : Name) (info : InfoId)
  | removeEvent (name : Name)
  | push (b : VideoBuffer)
  | distributeBuffer (t : Int) (order : List (Name × InfoId))
  | pop (name : Name)
  deriving DecidableEq

inductive Ret
  | unit
  | code (n : Int)
  | frame (b : Option BufferRef)
  deriving DecidableEq

def Outcome.mapRet {ρ ρ' : Type} (f : ρ → ρ') : Outcome ρ → Outcome ρ'
  | .done v r => .done v (f r)
  | .blocked => .blocked
  | .fault k => .fault k

namespace VideoQueue

/-- One call. A `ThreadInfo*` points to an allocated object, and a pass visits the entries of `_thread_info` in some
order; any other argument is no call. -/
def exec (v : VideoQueue) : Call → Outcome Ret
  | .newThreadInfo fps isRun => .done (v.newThreadInfo fps isRun) .unit
  | .insertEvent name info => if info < v.nextInfo then (v.insertEvent name info).mapRet .code else .blocked
  | .removeEvent name => (v.removeEvent name).mapRet .code
  | .push b => .done (v.newBuffer.push ⟨v.nextAddr, b⟩) .unit
  | .distributeBuffer t order =>
    if UnorderedMap.IterationOrder v.threadInfo order then (v.distributeBuffer t order).mapRet fun _ => .unit
    else .blocked
  | .pop name => (v.pop name).mapRet .frame

def step (v : VideoQueue) (c : Call) : Option VideoQueue :=
  match v.exec c with
  | .done w _ => some w
  | .blocked => none
  | .fault _ => none

theorem step_eq_some {v w : VideoQueue} {c : Call} (h : v.step c = some w) : ∃ r, v.exec c = .done w r := by
  unfold step at h
  split at h
  · rename_i r he
    cases h
    exact ⟨r, he⟩
  · cases h
  · cases h

theorem mapRet_eq_done {ρ ρ' : Type} {f : ρ → ρ'} {o : Outcome ρ} {w : VideoQueue} {r' : ρ'}
    (h : o.mapRet f = .done w r') : ∃ r, o = .done w r ∧ f r = r' := by
  cases o with
  | done v r => cases h; exact ⟨r, rfl, rfl⟩
  | blocked => cases h
  | fault k => cases h

/-! ## The registry -/

/-- The queue after a successful registration. -/
def registered (v : VideoQueue) (name : Name) (info : InfoId) : VideoQueue := (v.enterInfo name info).enterOutput name

theorem insertEvent_done {v w : VideoQueue} {name : Name} {info : InfoId} {r : Int}
    (h : v.insertEvent name info = .done w r) :
    ((∃ t, AList.lookup name v.threadInfo = some t) ∧ w = v ∧ r = 1) ∨
    (AList.lookup name v.threadInfo = none ∧ (v.infos info).fps ≠ 0 ∧ w = v.registered name info ∧ r = 0) := by
  unfold insertEvent at h
  cases hl : AList.lookup name v.threadInfo with
  | some t =>
    rw [hl] at h
    cases h
    exact Or.inl ⟨⟨t, rfl⟩, rfl, rfl⟩
  | none =>
    rw [hl] at h
    by_cases hf : (v.infos info).fps = 0
    · simp [hf] at h
    · simp only [hf, if_false] at h
      cases h
      exact Or.inr ⟨rfl, hf, rfl, rfl⟩

theorem drain_eq (q : QueueId) (l : List BufferRef) (v : VideoQueue) :
    drain q l v = { v with
      queues := if l = [] then v.queues else Function.update v.queues q (some [])
      deleted := v.deleted ++ l.map BufferRef.addr } := by
  induction l generalizing v with
  | nil => simp [drain]
  | cons b rest ih =>
    rw [drain, ih]
    cases rest with
    | nil => simp [deleteBuffer, popFront]
    | cons c rest => simp [deleteBuffer, popFront]

theorem removeOutput_done {v w : VideoQueue} {name : Name} (h : v.removeOutput name = .done w ()) :
    w.threadInfo = v.threadInfo ∧ w.output = AList.erase name v.output ∧ w.infos = v.infos ∧
      w.nextAddr = v.nextAddr ∧ w.nextInfo = v.nextInfo ∧ w.deviceFps = v.deviceFps ∧
      ∀ q, w.queues q = v.queues q ∨ w.queues q = none := by
  unfold removeOutput at h
  cases ho : AList.lookup name v.output with
  | none =>
    rw [ho] at h
    cases h
    exact ⟨rfl, (UnorderedMap.erase_of_lookup_eq_none ho).symm, rfl, rfl, rfl, rfl, fun q => Or.inl rfl⟩
  | some q =>
    simp only [ho] at h
    cases hq : v.queues q with
    | none => simp [hq] at h
    | some l =>
      simp only [hq] at h
      cases h
      refine ⟨?_, ?_, ?_, ?_, ?_, ?_, fun q' => ?_⟩ <;>
        simp only [eraseOutput, deleteQueue, drain_eq]
      by_cases hqq : q' = q
      · subst hqq; simp
      · left
        rw [Function.update_of_ne hqq]
        split_ifs
        · rfl
        · rw [Function.update_of_ne hqq]

theorem removeEvent_done {v w : VideoQueue} {name : Name} {r : Int} (h : v.removeEvent name = .done w r) :
    w.threadInfo = AList.erase name v.threadInfo ∧ w.output = AList.erase name v.output ∧
      w.nextAddr = v.nextAddr ∧ w.nextInfo = v.nextInfo ∧ w.deviceFps = v.deviceFps ∧
      (∀ t, (w.infos t).fps = (v.infos t).fps) ∧ ∀ q, w.queues q = v.queues q ∨ w.queues q = none := by
  unfold removeEvent at h
  cases hr : v.removeOutput name with
  | blocked => simp [hr] at h
  | fault f => simp [hr] at h
  | done u _ =>
    obtain ⟨hti, hout, hinf, hna, hni, hfps, hq⟩ := removeOutput_done hr
    simp only [hr] at h
    cases hl : AList.lookup name v.threadInfo with
    | none =>
      simp only [hl] at h
      cases h
      exact ⟨hti.trans (UnorderedMap.erase_of_lookup_eq_none hl).symm, hout, hna, hni, hfps,
        fun t => by rw [hinf], hq⟩
    | some info =>
      simp only [hl] at h
      cases h
      refine ⟨by simp [eraseThreadInfo, stopInfo, hti], hout, hna, hni, hfps, fun t => ?_, hq⟩
      simp only [eraseThreadInfo, stopInfo, hinf, Function.update_apply]
      split_ifs with ht
      · rw [ht]
      · rfl

/-- How `pop` returns: an unknown name, the stop path, or the frame at the front. -/
theorem pop_done {v w : VideoQueue} {name : Name} {r : Option BufferRef} (h : v.pop name = .done w r) :
    (w = v ∧ r = none ∧
      (AList.lookup name v.threadInfo = none ∨ AList.lookup name v.output = none)) ∨
    (∃ info, AList.lookup name v.threadInfo = some info ∧ (AList.lookup name v.output).isSome ∧
      (v.infos info).isRun = false ∧ w = v.eraseThreadInfo name ∧ r = none) ∨
    (∃ info q b rest, AList.lookup name v.threadInfo = some info ∧ AList.lookup name v.output = some q ∧
      (v.infos info).isRun = true ∧ v.queues q = some (b :: rest) ∧ w = v.popFront q rest ∧ r = some b) := by
  unfold pop at h
  cases hl : AList.lookup name v.threadInfo with
  | none =>
    rw [hl] at h
    cases h
    exact Or.inl ⟨rfl, rfl, Or.inl rfl⟩
  | some info =>
    simp only [hl] at h
    cases ho : AList.lookup name v.output with
    | none =>
      simp only [ho] at h
      cases h
      exact Or.inl ⟨rfl, rfl, Or.inr rfl⟩
    | some q =>
      simp only [ho] at h
      cases hr : (v.infos info).isRun with
      | false =>
        simp only [hr, Bool.false_eq_true, if_false] at h
        cases h
        exact Or.inr (Or.inl ⟨info, rfl, rfl, hr, rfl, rfl⟩)
      | true =>
        simp only [hr, if_true] at h
        match hq : v.queues q with
        | none => simp [hq] at h
        | some [] => simp [hq] at h
        | some (b :: rest) =>
          simp only [hq] at h
          cases h
          exact Or.inr (Or.inr ⟨info, q, b, rest, rfl, rfl, hr, hq, rfl, rfl⟩)

/-! ## A distribution pass -/

/-- `w` is `v` after new copies were appended to queues. -/
structure Extends (v w : VideoQueue) : Prop where
  deviceFps : w.deviceFps = v.deviceFps
  threadInfo : w.threadInfo = v.threadInfo
  output : w.output = v.output
  infos : w.infos = v.infos
  nextInfo : w.nextInfo = v.nextInfo
  nextQueue : w.nextQueue = v.nextQueue
  currentFrameNo : w.currentFrameNo = v.currentFrameNo
  input : w.input = v.input
  deleted : w.deleted = v.deleted
  nextAddr : v.nextAddr ≤ w.nextAddr
  queues : ∀ q, w.queues q = v.queues q ∨
    ∃ l new, v.queues q = some l ∧ w.queues q = some (l ++ new) ∧ ∀ b ∈ new, v.nextAddr ≤ b.addr

theorem Extends.refl (v : VideoQueue) : Extends v v :=
  ⟨rfl, rfl, rfl, rfl, rfl, rfl, rfl, rfl, rfl, le_refl _, fun _ => Or.inl rfl⟩

theorem Extends.trans {u v w : VideoQueue} (h₁ : Extends u v) (h₂ : Extends v w) : Extends u w := by
  refine ⟨h₂.deviceFps.trans h₁.deviceFps, h₂.threadInfo.trans h₁.threadInfo, h₂.output.trans h₁.output,
    h₂.infos.trans h₁.infos, h₂.nextInfo.trans h₁.nextInfo, h₂.nextQueue.trans h₁.nextQueue,
    h₂.currentFrameNo.trans h₁.currentFrameNo, h₂.input.trans h₁.input, h₂.deleted.trans h₁.deleted,
    Nat.le_trans h₁.nextAddr h₂.nextAddr, fun q => ?_⟩
  rcases h₂.queues q with h | ⟨l, new, hl, hw, hnew⟩
  · rw [h]
    exact h₁.queues q
  · rcases h₁.queues q with h | ⟨l', new', hl', hv, hnew'⟩
    · exact Or.inr ⟨l, new, h ▸ hl, hw, fun b hb => Nat.le_trans h₁.nextAddr (hnew b hb)⟩
    · rw [hv, Option.some.injEq] at hl
      subst hl
      refine Or.inr ⟨l', new' ++ new, hl', by rw [hw, List.append_assoc], fun b hb => ?_⟩
      rcases List.mem_append.mp hb with hb | hb
      · exact hnew' b hb
      · exact Nat.le_trans h₁.nextAddr (hnew b hb)

/-- The queue after a copy of `b` was appended to `q`, which holds `l`. -/
def copied (v : VideoQueue) (b : BufferRef) (t : Int) (q : QueueId) (l : List BufferRef) : VideoQueue :=
  { v.newBuffer with queues := Function.update v.queues q (some (l ++ [⟨v.nextAddr, b.val.copyAt t⟩])) }

theorem copyTo_done {v w : VideoQueue} {b : BufferRef} {t : Int} {name : Name} (h : v.copyTo b t name = .done w ()) :
    (AList.lookup name v.output = none ∧ w = v.newBuffer) ∨
      ∃ q l, AList.lookup name v.output = some q ∧ v.queues q = some l ∧ w = v.copied b t q l := by
  unfold copyTo at h
  cases ho : AList.lookup name v.output with
  | none =>
    simp only [ho] at h
    cases h
    exact Or.inl ⟨rfl, rfl⟩
  | some q =>
    simp only [ho] at h
    cases hq : v.queues q with
    | none => simp [hq] at h
    | some l =>
      simp only [hq] at h
      cases h
      exact Or.inr ⟨q, l, rfl, hq, rfl⟩

theorem copyTo_extends {v w : VideoQueue} {b : BufferRef} {t : Int} {name : Name}
    (h : v.copyTo b t name = .done w ()) : Extends v w := by
  rcases copyTo_done h with ⟨-, rfl⟩ | ⟨q, l, -, hq, rfl⟩
  · exact ⟨rfl, rfl, rfl, rfl, rfl, rfl, rfl, rfl, rfl, Nat.le_succ _, fun _ => Or.inl rfl⟩
  · refine ⟨rfl, rfl, rfl, rfl, rfl, rfl, rfl, rfl, rfl, Nat.le_succ _, fun q' => ?_⟩
    by_cases hqq : q' = q
    · subst hqq
      refine Or.inr ⟨l, [⟨v.nextAddr, b.val.copyAt t⟩], hq, by simp [copied], fun c hc => ?_⟩
      rw [List.mem_singleton] at hc
      subst hc
      exact le_refl _
    · exact Or.inl (by simp [copied, Function.update_of_ne hqq])

theorem visit_extends {b : BufferRef} {t : Int} {order : List (Name × InfoId)} {v w : VideoQueue}
    (h : visit b t order v = .done w ()) : Extends v w := by
  induction order generalizing v with
  | nil =>
    cases h
    exact Extends.refl _
  | cons e rest ih =>
    obtain ⟨name, info⟩ := e
    rw [visit] at h
    cases hd : v.due info with
    | none => simp [hd] at h
    | some hit =>
      cases hit with
      | false =>
        simp only [hd] at h
        exact ih h
      | true =>
        simp only [hd] at h
        cases hc : v.copyTo b t name with
        | blocked => simp [hc] at h
        | fault f => simp [hc] at h
        | done u _ =>
          simp only [hc] at h
          exact (copyTo_extends hc).trans (ih h)

theorem distributeBuffer_done {v w : VideoQueue} {t : Int} {order : List (Name × InfoId)}
    (h : v.distributeBuffer t order = .done w ()) :
    ∃ b u u', v.takeInput = some (b, u) ∧ Extends u u' ∧ w = u'.deleteBuffer b := by
  unfold distributeBuffer at h
  cases hi : v.takeInput with
  | none => simp [hi] at h
  | some p =>
    obtain ⟨b, u⟩ := p
    simp only [hi] at h
    cases hv : visit b t order u with
    | blocked => simp [hv] at h
    | fault f => simp [hv] at h
    | done u' _ =>
      simp only [hv] at h
      cases h
      exact ⟨b, u, u', rfl, visit_extends hv, rfl⟩

theorem takeInput_eq {v u : VideoQueue} {b : BufferRef} (h : v.takeInput = some (b, u)) :
    v.input = b :: u.input ∧ u = { v with
      input := u.input
      currentFrameNo := if v.currentFrameNo + 1 > v.deviceFps then 1 else v.currentFrameNo + 1 } := by
  unfold takeInput at h
  cases hi : v.input with
  | nil => simp [hi] at h
  | cons c rest =>
    simp only [hi] at h
    cases h
    exact ⟨rfl, rfl⟩

end VideoQueue

def sampleFrame : VideoBuffer := ⟨⟨0, 1, 1⟩, 0, [7], 1, rfl⟩

end RpiCam
