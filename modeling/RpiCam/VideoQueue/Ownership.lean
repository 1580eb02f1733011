import RpiCam.Lib.Census
import RpiCam.VideoQueue.Lookup

/-!
# Ownership of the frames

A `VideoBuffer` is in `_input`, in the hand of a thread, in the queue of one name, or deleted (`Place`, `State.held`).
Both `pop` and `remove_event` look at the front of a queue first and take it out in a step of its own.

* `Exclusive` : a step takes a frame out of a queue while no other thread is between the two on it, and uses no queue that
  `remove_event` has deleted;
* `step_transfer` : such a step allocates one buffer or moves one;
* `unique_ownership` : in runs of such steps every buffer is in one place, and no deleted queue is used;
* `frame_in_two_places` : without it, `pop` returns a frame that `remove_event` has deleted.
-/

namespace RpiCam

open Transition

namespace Pc

/-- Between the look at the front of the queue of the name and its removal: lines 183 and 184, or 110 and 112. -/
def takes (name : Name) : Pc → Bool
  | popPop n _ _ | removePop n _ _ => n == name
  | _ => false

/-- How many frames at the front of the queue of the name the thread has deleted and not yet taken out. -/
def drained (name : Name) : Pc → Nat
  | removePop n _ _ => if n = name then 1 else 0
  | _ => 0

/-- About to use the queue of the name, outside the mutex of the maps. -/
def usesQueue (name : Name) : Pc → Bool
  | popEmpty n _ _ | popFront n _ => n == name
  | _ => false

/-- The buffers a thread has. Between `front()` and `pop()` the frame is still in its queue. -/
def hand : Pc → List Addr
  | pushLock b | pushInput b | hold b | distIterate b _ | distVisit b _ _ _ | distDue b _ _ _ _ | distEntry b _ _ _ _
  | distCopy b _ _ _ _ | distDelete b => [b.addr]
  | _ => []

theorem drained_plain (name : Name) (p : Pc) : p.plain.drained name = p.drained name := by cases p <;> rfl

theorem hand_plain (p : Pc) : p.plain.hand = p.hand := by cases p <;> rfl

theorem drained_of_takes {name : Name} {p : Pc} (h : p.takes name = false) : p.drained name = 0 := by
  cases p <;> first | rfl | simpa [takes, drained] using h

end Pc

/-- Where a `VideoBuffer` can be. -/
inductive Place
  | input
  | hand (i : Tid)
  | output (name : Name)
  | deleted
  deriving DecidableEq

/-- The buffers in the queue of the name. -/
def VideoQueue.queued (v : VideoQueue) (name : Name) : List BufferRef :=
  match AList.lookup name v.output with
  | none => []
  | some q => (v.queues q).getD []

namespace State

/-- What `remove_event`, which is inside `_thread_info_mutex`, has deleted and not yet taken out of the queue. -/
def drained (s : State) (name : Name) : Nat := s.threadInfoMutex.elim 0 fun i => (s.pc i).drained name

/-- The buffers at each place. A frame that line 110 has deleted is in its queue no more, but for its address. -/
def held (s : State) : Place → List Addr
  | .input => s.data.input.map BufferRef.addr
  | .hand i => (s.pc i).hand
  | .output name => ((s.data.queued name).drop (s.drained name)).map BufferRef.addr
  | .deleted => s.data.deleted

/-- The step takes no frame out of a queue while another thread has looked at its front, and uses no deleted queue. -/
def Exclusive (s : State) : Tid × Act → Prop
  | (i, _) => ∀ name,
    ((s.pc i).takes name = true → ∀ j, j ≠ i → (s.pc j).takes name = false) ∧
    ((s.pc i).usesQueue name = true → ∀ j, j ≠ i → (s.pc j).deletes name = false)

/-- A thread between lines 183 and 184 has the first frame of the queue. -/
def HeadKnown (s : State) : Prop :=
  ∀ j name info b, s.pc j = .popPop name info b →
    ∃ q rest, AList.lookup name s.data.output = some q ∧ s.data.queues q = some (b :: rest)

/-! ## The frame that `pop` has seen -/

/-- A name keeps its queue where the queue is still there. -/
theorem Step.output_lookup {s s' : State} {i : Tid} {a : Act} (hc : Coherent s) (h : Step s i a (s.pc i) s')
    {name : Name} {q : QueueId} (hk : AList.lookup name s.data.output = some q) (hq : s.data.queues q ≠ none) :
    AList.lookup name s'.data.output = some q := by
  rcases h.output_cases with ⟨ho, -⟩ | ⟨n, -, -, hd⟩ | ⟨n, info, hpc, -, hd⟩
  · rw [ho]; exact hk
  · rw [hd]
    simp only [VideoQueue.enterOutput, UnorderedMap.lookup_emplace]
    rw [if_neg]
    · exact hk
    · rintro ⟨rfl, hn⟩
      rw [hk] at hn
      cases hn
  · rw [hd]
    simp only [VideoQueue.eraseOutput, UnorderedMap.lookup_erase']
    rw [if_neg]
    · exact hk
    · rintro rfl
      exact hq (hc.gone i name info q hpc hk)

theorem step_headKnown {s s' : State} {i : Tid} {a : Act} (hc : Coherent s) (hs : HeadKnown s)
    (hok : Exclusive s (i, a)) (h : Step s i a (s.pc i) s') : HeadKnown s' := by
  intro j name info b hpc'
  by_cases hj : j = i
  · subst hj
    generalize hpc : s.pc j = p at h
    cases h
    case move p' hm =>
      simp only [goto_pc, Function.update_self] at hpc'
      cases hm <;> cases hpc'
      case popFront q rest ho hq => exact ⟨q, rest, ho, hq⟩
    case fail f hm => exact hs j name info b hpc'
    case lockInput p' hfree hm => cases hm <;> simp at hpc'
    case lockThreadInfo p' hfree hm => cases hm <;> simp at hpc'
    case lockInfo p' t hfree hm => cases hm <;> simp at hpc'
    all_goals simp at hpc'
  · have hpc := (h.pc_of_ne hj rfl).mp hpc'
    obtain ⟨q, rest, ho, hq⟩ := hs j name info b hpc
    have ho' := h.output_lookup hc ho (by rw [hq]; simp)
    have hpop : (s.pc j).takes name = true := by simp [hpc, Pc.takes]
    rcases h.queue (hc.queueFresh name q ho) with he | ⟨-, -, hl, he⟩ | ⟨hpi, -, -⟩ | ⟨-, hl, -, -⟩ | ⟨hpi, hoi, -, -⟩
    · exact ⟨q, rest, ho', by rw [he]; exact hq⟩
    · rw [hq, Option.some.injEq] at hl
      subst hl
      exact ⟨q, _, ho', he⟩
    · -- the drained queue would be the one of this name
      have hf := hc.fact i
      rw [hpi] at hf
      have hn := hc.inj _ _ q hf.1 ho
      subst hn
      rw [(hok _).1 (by simp [hpi, Pc.takes]) j hj] at hpop
      cases hpop
    · -- the deleted queue is empty, and this one has a frame
      rw [hq] at hl
      cases hl
    · have hn := hc.inj _ _ q hoi ho
      subst hn
      rw [(hok _).1 (by simp [hpi, Pc.takes]) j hj] at hpop
      cases hpop

/-! ## One step moves one buffer -/

theorem Step.hand_of_ne {s s' : State} {i : Tid} {a : Act} (h : Step s i a (s.pc i) s') {j : Tid} (hj : j ≠ i) :
    (s'.pc j).hand = (s.pc j).hand := by
  rw [← Pc.hand_plain, h.plain_of_ne hj, Pc.hand_plain]

theorem Step.hand_same {s s' : State} {i : Tid} {a : Act} (h : Step s i a (s.pc i) s')
    (hi : (s'.pc i).hand = (s.pc i).hand) (j : Tid) : (s'.pc j).hand = (s.pc j).hand := by
  by_cases hj : j = i
  · subst hj; exact hi
  · exact h.hand_of_ne hj

theorem Step.drained_same {s s' : State} {i : Tid} {a : Act} (hl : Locked s) (h : Step s i a (s.pc i) s') (name : Name)
    (hi : (s.pc i).drained name = 0) (hi' : (s'.pc i).drained name = 0) : s'.drained name = s.drained name :=
  hl.threadInfo.elim_turn h.turn_threadInfo hi hi' fun j hj _ => by
    rw [← Pc.drained_plain, h.plain_of_ne hj, Pc.drained_plain]

theorem drained_of_holder {s : State} (hl : Locked s) {i : Tid} (hi : (s.pc i).holdsThreadInfo = true) (name : Name) :
    s.drained name = (s.pc i).drained name := by
  rw [drained, (hl.threadInfo i).mpr hi, Option.elim_some]

theorem drained_eq_zero {s : State} {name : Name} (h : ∀ i, (s.pc i).drained name = 0) : s.drained name = 0 := by
  unfold drained
  cases s.threadInfoMutex with
  | none => rfl
  | some i => exact h i

theorem Step.held_output {s s' : State} {i : Tid} {a : Act} (hl : Locked s) (h : Step s i a (s.pc i) s') {name : Name}
    (hdr : (s.pc i).drained name = 0 ∧ (s'.pc i).drained name = 0)
    (hq : s'.data.queued name = s.data.queued name) : s'.held (.output name) = s.held (.output name) := by
  simp only [held, hq, h.drained_same hl _ hdr.1 hdr.2]

theorem held_same {s s' : State} {i : Tid} {a : Act} (hl : Locked s) (h : Step s i a (s.pc i) s')
    (hi : (s'.pc i).hand = (s.pc i).hand) (hdr : ∀ name, (s.pc i).drained name = 0 ∧ (s'.pc i).drained name = 0)
    (hin : s'.data.input = s.data.input) (hout : ∀ name, s'.data.queued name = s.data.queued name)
    (hdel : s'.data.deleted = s.data.deleted) (p : Place) : s'.held p = s.held p := by
  cases p with
  | input => simp only [held, hin]
  | hand j => exact h.hand_same hi j
  | output name => exact h.held_output hl (hdr name) (hout name)
  | deleted => exact hdel

theorem Moves.drained {s : State} {a : Act} {p p' : Pc} (h : Moves s a p p') (name : Name) :
    p.drained name = 0 ∧ p'.drained name = 0 := by
  cases h <;> exact ⟨rfl, rfl⟩

theorem Moves.hand {s : State} {a : Act} {p p' : Pc} (h : Moves s a p p') : p'.hand = p.hand := by cases h <;> rfl

theorem queued_of_lookup {v : VideoQueue} {name : Name} {q : QueueId} {l : List BufferRef}
    (ho : AList.lookup name v.output = some q) (hq : v.queues q = some l) : v.queued name = l := by
  simp [VideoQueue.queued, ho, hq]

theorem exists_queue {v : VideoQueue} {n : Name} (h : v.queued n ≠ []) :
    ∃ q b rest, AList.lookup n v.output = some q ∧ v.queues q = some (b :: rest) := by
  unfold VideoQueue.queued at h
  cases ho : AList.lookup n v.output with
  | none => simp [ho] at h
  | some q =>
    cases hq : v.queues q with
    | none => simp [ho, hq] at h
    | some l =>
      cases l with
      | nil => simp [ho, hq] at h
      | cons b rest => exact ⟨q, b, rest, rfl, hq⟩

theorem Coherent.queued_update {s : State} (hc : Coherent s) {name : Name} {q : QueueId}
    (ho : AList.lookup name s.data.output = some q) (w : VideoQueue) {l : Option (List BufferRef)}
    (hwo : w.output = s.data.output) (hwq : w.queues = Function.update s.data.queues q l) {name' : Name}
    (hne : name' ≠ name) : w.queued name' = s.data.queued name' := by
  simp only [VideoQueue.queued, hwo, hwq]
  cases ho' : AList.lookup name' s.data.output with
  | none => rfl
  | some q' =>
    have hqq : q' ≠ q := by
      rintro rfl
      exact hne (hc.inj name' name q' ho' ho)
    simp [Function.update_of_ne hqq]

/-- Lines 72, 115 and 116 touch empty queues only. -/
theorem queued_enterOutput {s : State} (hc : Coherent s) (name name' : Name) :
    (s.data.enterOutput name).queued name' = s.data.queued name' := by
  simp only [VideoQueue.queued]
  cases ho : AList.lookup name' (s.data.enterOutput name).output with
  | none =>
    have : AList.lookup name' s.data.output = none := by
      simp only [VideoQueue.enterOutput, UnorderedMap.lookup_emplace] at ho
      split_ifs at ho
      exact ho
    rw [this]
  | some q =>
    rcases lookup_enterOutput ho with ho' | ⟨rfl, hn, rfl⟩
    · rw [ho']
      simp [VideoQueue.enterOutput, Function.update_of_ne (Nat.ne_of_lt (hc.queueFresh name' q ho'))]
    · rw [hn]
      simp [VideoQueue.enterOutput]

theorem queued_deleteQueue {s : State} (hc : Coherent s) {name : Name} {q : QueueId}
    (ho : AList.lookup name s.data.output = some q) (hq : s.data.queues q = some []) (name' : Name) :
    (s.data.deleteQueue q).queued name' = s.data.queued name' := by
  by_cases hne : name' = name
  · subst hne
    rw [queued_of_lookup ho hq]
    simp [VideoQueue.queued, VideoQueue.deleteQueue, ho]
  · exact hc.queued_update ho (s.data.deleteQueue q) rfl rfl hne

theorem queued_eraseOutput {s : State} (hc : Coherent s) {i : Tid} {name : Name} {info : Option InfoId}
    (hpc : s.pc i = .removeErase name info) (name' : Name) :
    (s.data.eraseOutput name).queued name' = s.data.queued name' := by
  simp only [VideoQueue.queued, VideoQueue.eraseOutput, UnorderedMap.lookup_erase']
  by_cases hne : name' = name
  · subst hne
    cases ho : AList.lookup name' s.data.output with
    | none => simp
    | some q => simp [hc.gone i name' info q hpc ho]
  · simp [hne]

/-- A thread inside `_thread_info_mutex` that is in no call of `insert_event` or `remove_event` sees whole entries. -/
theorem queue_of_entry {s : State} (hl : Locked s) (hc : Coherent s) {i : Tid} {name : Name}
    (hi : (s.pc i).holdsThreadInfo = true) (hsp : (s.pc i).splits name = false) (hdel : (s.pc i).deletes name = false)
    (hm : name ∈ s.data.threadInfo) :
    ∃ q l, AList.lookup name s.data.output = some q ∧ s.data.queues q = some l := by
  have halone : ∀ j, (s.pc j).holdsThreadInfo = true → j = i := fun j hj => hl.threadInfo.unique hj hi
  have hmo : name ∈ s.data.output := by
    rcases hc.known name hm with ho | ⟨j, hj⟩
    · exact ho
    · have hji : j = i := halone j (Pc.holdsThreadInfo_of_splits hj)
      rw [hji, hsp] at hj
      cases hj
  obtain ⟨q, ho⟩ := Option.isSome_iff_exists.mp (AList.lookup_isSome.mpr hmo)
  rcases hc.live name q ho with hq | ⟨j, hj⟩
  · obtain ⟨l, hq⟩ := Option.ne_none_iff_exists'.mp hq
    exact ⟨q, l, ho, hq⟩
  · have hji : j = i := halone j (Pc.holdsThreadInfo_of_deletes hj)
    rw [hji, hdel] at hj
    cases hj

/-! ## One step -/

section

variable {s s' : State} {i : Tid} {a : Act} {name : Name} {q : QueueId} {b : BufferRef}

theorem drained_of_outside (hl : Locked s) (hi : (s.pc i).holdsThreadInfo = true) (hdr : (s.pc i).drained name = 0) :
    s.drained name = 0 := (drained_of_holder hl hi name).trans hdr

/-- A thread deletes the frame in its hand. -/
theorem transfer_release (hl : Locked s) (h : Step s i a (s.pc i) s') (hhand : (s.pc i).hand = [b.addr])
    (hhand' : (s'.pc i).hand = []) (hdr : ∀ name, (s.pc i).drained name = 0 ∧ (s'.pc i).drained name = 0)
    (hdata : s'.data = s.data.deleteBuffer b) : Transfer s.held s.data.nextAddr s'.held s'.data.nextAddr := by
  refine .move (.hand i) .deleted b.addr (by simp) (by rw [hdata]; rfl) (by simp [held, hhand, hhand']) ?_
    fun p hp hp' => ?_
  · simp only [held, hdata]
    exact List.perm_append_singleton _ _
  · cases p with
    | hand j => exact h.hand_of_ne fun hj => hp (by rw [hj])
    | output name => exact h.held_output hl (hdr name) (by rw [hdata]; rfl)
    | deleted => exact absurd rfl hp'
    | input => simp only [held, hdata]; rfl

/-- Line 110 deletes the frame at the front of the queue, which is not taken out of it yet. -/
theorem transfer_removeDelete {info : Option InfoId} {rest : List BufferRef} (hl : Locked s) (hc : Coherent s)
    (hpc : s.pc i = .removeDelete name q info) (hq : s.data.queues q = some (b :: rest))
    (h : Step s i a (s.pc i) ((s.setData (s.data.deleteBuffer b)).goto i (.removePop name q info))) :
    Transfer s.held s.data.nextAddr ((s.setData (s.data.deleteBuffer b)).goto i (.removePop name q info)).held
      s.data.nextAddr := by
  have hf := hc.fact i
  rw [hpc] at hf
  have hqueued : s.data.queued name = b :: rest := queued_of_lookup hf.1 hq
  have hdr : ∀ n, s.drained n = 0 := fun n => drained_of_outside hl (i := i) (by rw [hpc]; rfl) (by rw [hpc]; rfl)
  have hdr' : ∀ n, ((s.setData (s.data.deleteBuffer b)).goto i (.removePop name q info)).drained n =
      if name = n then 1 else 0 := by
    intro n
    rw [drained_of_holder (step_locked hl h) (i := i) (by simp [Pc.holdsThreadInfo])]
    simp [Pc.drained]
  refine .move (.output name) .deleted b.addr (by simp) rfl ?_ (List.perm_append_singleton _ _) fun p hp hp' => ?_
  · have hqueued' : (s.data.deleteBuffer b).queued name = b :: rest := hqueued
    simp [held, hqueued, hqueued', hdr, hdr']
  · cases p with
    | input => rfl
    | hand j => exact h.hand_same (by simp [hpc, Pc.hand]) j
    | output name' =>
      have hne : name ≠ name' := fun he => hp (by rw [he])
      simp only [held, hdr', if_neg hne, hdr]
      rfl
    | deleted => exact absurd rfl hp'

/-- Line 112 takes the frame out that line 110 has deleted. -/
theorem held_removePop {info : Option InfoId} {rest : List BufferRef} (hl : Locked s) (hc : Coherent s)
    (hpc : s.pc i = .removePop name q info) (hq : s.data.queues q = some (b :: rest))
    (h : Step s i a (s.pc i) ((s.setData (s.data.popFront q rest)).goto i (.removeDrain name (some q) info)))
    (p : Place) :
    ((s.setData (s.data.popFront q rest)).goto i (.removeDrain name (some q) info)).held p = s.held p := by
  have hf := hc.fact i
  rw [hpc] at hf
  have hqueued : s.data.queued name = b :: rest := queued_of_lookup hf.1 hq
  have hqueued' : (s.data.popFront q rest).queued name = rest :=
    queued_of_lookup hf.1 (by simp [VideoQueue.popFront])
  have hdr : ∀ n, s.drained n = if name = n then 1 else 0 := by
    intro n
    rw [drained_of_holder hl (i := i) (by rw [hpc]; rfl), hpc]
    rfl
  have hdr' : ∀ n, ((s.setData (s.data.popFront q rest)).goto i (.removeDrain name (some q) info)).drained n = 0 :=
    fun n => drained_of_outside (step_locked hl h) (i := i) (by simp [Pc.holdsThreadInfo]) (by simp [Pc.drained])
  cases p with
  | input => rfl
  | hand j => exact h.hand_same (by simp [hpc, Pc.hand]) j
  | output name' =>
    by_cases hne : name = name'
    · subst hne
      simp [held, hqueued, hqueued', hdr, hdr']
    · have hother : (s.data.popFront q rest).queued name' = s.data.queued name' :=
        hc.queued_update hf.1 (s.data.popFront q rest) rfl rfl (Ne.symm hne)
      simp [held, hother, hdr, hdr', hne]
  | deleted => rfl

/-- Line 184 takes the frame that line 183 has looked at, which nobody has drained in between. -/
theorem transfer_popPop {info : InfoId} {c : BufferRef} {rest : List BufferRef} (hl : Locked s) (hc : Coherent s)
    (hs : HeadKnown s) (hok : Exclusive s (i, a)) (hpc : s.pc i = .popPop name info b)
    (ho : AList.lookup name s.data.output = some q) (hq : s.data.queues q = some (c :: rest)) (h : Step s i a (s.pc i)
      ((((s.setData (s.data.popFront q rest)).setInfo info none).note (.popped name b)).goto i (.hold b))) :
    Transfer s.held s.data.nextAddr
      ((((s.setData (s.data.popFront q rest)).setInfo info none).note (.popped name b)).goto i (.hold b)).held
      s.data.nextAddr := by
  obtain ⟨q', rest', ho', hq'⟩ := hs i name info b hpc
  rw [ho, Option.some.injEq] at ho'
  subst ho'
  rw [hq, Option.some.injEq, List.cons.injEq] at hq'
  obtain ⟨rfl, rfl⟩ := hq'
  -- `remove_event` is not between lines 110 and 112 of this name
  have hdr : s.drained name = 0 := drained_eq_zero fun j => by
    by_cases hj : j = i
    · rw [hj, hpc]; rfl
    · exact Pc.drained_of_takes ((hok name).1 (by simp [hpc, Pc.takes]) j hj)
  have hdr' := (h.drained_same hl name (by rw [hpc]; rfl) (by simp [Pc.drained])).trans hdr
  have hqueued' : (s.data.popFront q rest).queued name = rest := queued_of_lookup ho (by simp [VideoQueue.popFront])
  refine .move (.output name) (.hand i) c.addr (by simp) rfl ?_ ?_ fun p hp hp' => ?_
  · simp only [held, hdr, hdr', queued_of_lookup ho hq]
    simp [hqueued']
  · simp [held, hpc, Pc.hand]
  · cases p with
    | output name' =>
      exact h.held_output hl (by simp [hpc, Pc.drained])
        (hc.queued_update ho (s.data.popFront q rest) rfl rfl fun he => hp (by rw [he]))
    | hand j => exact h.hand_of_ne fun hj => hp' (by rw [hj])
    | _ => rfl

/-- Lines 225 to 235 allocate a copy in the queue of the entry. -/
theorem transfer_distCopy {info : InfoId} {t : Int} {rest : List (Name × InfoId)} {v : VideoQueue} (hl : Locked s)
    (hc : Coherent s) (hpc : s.pc i = .distCopy b t name info rest)
    (hlk : AList.lookup name s.data.threadInfo = some info) (hcp : s.data.copyTo b t name = .done v ())
    (h : Step s i a (s.pc i)
      ((((s.notifyAll info).setData v).setInfo info none).goto i (.distVisit b t (some (name, info)) rest))) :
    Transfer s.held s.data.nextAddr
      ((((s.notifyAll info).setData v).setInfo info none).goto i (.distVisit b t (some (name, info)) rest)).held
      v.nextAddr := by
  obtain ⟨q, l, ho, hq⟩ := queue_of_entry hl hc (by rw [hpc]; rfl) (by rw [hpc]; rfl) (by rw [hpc]; rfl)
    (UnorderedMap.mem_of_lookup hlk)
  rcases VideoQueue.copyTo_done hcp with ⟨hn, -⟩ | ⟨q', l', ho', hq', rfl⟩
  · rw [ho] at hn; cases hn
  · rw [ho, Option.some.injEq] at ho'
    subst ho'
    rw [hq, Option.some.injEq] at hq'
    subst hq'
    refine .alloc (.output name) rfl ?_ fun p hp => ?_
    · have hnew : (s.data.copied b t q l).queued name = l ++ [⟨s.data.nextAddr, b.val.copyAt t⟩] :=
        queued_of_lookup ho (by simp [VideoQueue.copied])
      have hdr : s.drained name = 0 := drained_of_outside hl (i := i) (by rw [hpc]; rfl) (by rw [hpc]; rfl)
      have hdr' := (h.drained_same hl name (by rw [hpc]; rfl) (by simp [Pc.drained])).trans hdr
      simp only [held, hdr, hdr', goto_data, setInfo_data, setData_data, queued_of_lookup ho hq, hnew, List.drop_zero,
        List.map_append]
      exact List.perm_append_singleton _ _
    · cases p with
      | output name' =>
        exact h.held_output hl (by simp [hpc, Pc.drained])
          (hc.queued_update ho (s.data.copied b t q l) rfl rfl fun he => hp (by rw [he]))
      | hand j =>
        by_cases hj : j = i
        · subst hj
          simp [held, hpc, Pc.hand]
        · exact h.hand_of_ne hj
      | _ => rfl

end

theorem step_transfer {s s' : State} {i : Tid} {a : Act} (hl : Locked s) (hc : Coherent s) (hs : HeadKnown s)
    (hok : Exclusive s (i, a)) (h : Step s i a (s.pc i) s') :
    Transfer s.held s.data.nextAddr s'.held s'.data.nextAddr := by
  have h0 := h
  generalize hpc : s.pc i = p at h
  cases h
  case callPush b =>
    refine .alloc (.hand i) rfl (by simp [held, hpc, Pc.hand]) fun p hp => ?_
    cases p with
    | hand j => exact h0.hand_of_ne fun hj => hp (by rw [hj])
    | output name => exact h0.held_output hl (by simp [hpc, Pc.drained]) rfl
    | _ => rfl
  case callInsert =>
    exact .same rfl (held_same hl h0 (by simp [hpc, Pc.hand]) (by simp [hpc, Pc.drained]) rfl
      (fun _ => rfl) rfl)
  case move p' hm =>
    refine .same rfl (held_same hl h0 (by simp [hpc, hm.hand]) (fun name => ?_) rfl (fun _ => rfl) rfl)
    rw [hpc, goto_pc, Function.update_self]
    exact hm.drained name
  case lockInput p' hfree hm =>
    exact .same rfl (held_same hl h0 (by cases hm <;> simp [hpc, Pc.hand])
      (by cases hm <;> simp [hpc, Pc.drained]) rfl (fun _ => rfl) rfl)
  case lockThreadInfo p' hfree hm =>
    exact .same rfl (held_same hl h0 (by cases hm <;> simp [hpc, Pc.hand])
      (by cases hm <;> simp [hpc, Pc.drained]) rfl (fun _ => rfl) rfl)
  case lockInfo p' t hfree hm =>
    exact .same rfl (held_same hl h0 (by cases hm <;> simp [hpc, Pc.hand])
      (by cases hm <;> simp [hpc, Pc.drained]) rfl (fun _ => rfl) rfl)
  case fail f hm => exact .same rfl fun p => by cases p <;> rfl
  case pushInput b waiter hn =>
    refine .move (.hand i) .input b.addr (by simp) rfl ?_ ?_ fun p hp hp' => ?_
    · simp [held, hpc, Pc.hand]
    · simp only [held, goto_data, note_data, setInput_data, setData_data, VideoQueue.push, List.map_append,
        List.map_cons, List.map_nil]
      exact List.perm_append_singleton _ _
    · cases p with
      | input => exact absurd rfl hp'
      | hand j => exact h0.hand_of_ne fun hj => hp (by rw [hj])
      | output name => exact h0.held_output hl (by simp [hpc, Pc.drained]) rfl
      | _ => rfl
  case insertOutput name =>
    exact .same rfl (held_same hl h0 (by simp [hpc, Pc.hand]) (by simp [hpc, Pc.drained]) rfl
      (queued_enterOutput hc name) rfl)
  case removeDelete name q info b rest hq => exact transfer_removeDelete hl hc hpc hq h0
  case removePop name q info b rest hq => exact .same rfl (held_removePop hl hc hpc hq h0)
  case deleteQueue name q info hq =>
    have hf := hc.fact i
    rw [hpc] at hf
    exact .same rfl (held_same hl h0 (by simp [hpc, Pc.hand]) (by simp [hpc, Pc.drained]) rfl
      (queued_deleteQueue hc hf.1 hq) rfl)
  case removeErase name info =>
    exact .same rfl (held_same hl h0 (by simp [hpc, Pc.hand]) (by simp [hpc, Pc.drained]) rfl
      (queued_eraseOutput hc hpc) rfl)
  case popPop name info b q c rest ho hq => exact transfer_popPop hl hc hs hok hpc ho hq h0
  case release b =>
    exact transfer_release hl h0 (by simp [hpc, Pc.hand]) (by simp [Pc.hand]) (by simp [hpc, Pc.drained]) rfl
  case distTake b t v hi =>
    obtain ⟨hin, hv⟩ := VideoQueue.takeInput_eq hi
    have hna : v.nextAddr = s.data.nextAddr := by rw [hv]
    refine .move .input (.hand i) b.addr (by simp) hna ?_ ?_ fun p hp hp' => ?_
    · simp [held, hin]
    · simp [held, hpc, Pc.hand]
    · cases p with
      | input => exact absurd rfl hp
      | hand j => exact h0.hand_of_ne fun hj => hp' (by rw [hj])
      | output name =>
        refine h0.held_output hl (by simp [hpc, Pc.drained]) ?_
        rw [goto_data, setData_data, hv]
        rfl
      | deleted =>
        simp only [held, goto_data, setData_data]
        rw [hv]
  case distCopy b t name info rest v hlk hcp => exact transfer_distCopy hl hc hpc hlk hcp h0
  case distDelete b =>
    exact transfer_release hl h0 (by simp [hpc, Pc.hand]) (by simp [Pc.hand]) (by simp [hpc, Pc.drained]) rfl
  all_goals exact .same rfl (held_same hl h0 (by simp [hpc, Pc.hand]) (by simp [hpc, Pc.drained]) rfl (fun _ => rfl) rfl)

/-! ## Whole runs -/

theorem census_init (F : Int) : Census (init F).held (init F).data.nextAddr := by
  have hempty : ∀ p, (init F).held p = [] := by
    rintro (- | j | name | -)
    · rfl
    · simp only [held]
      rcases init_pc F j with hj | hj <;> rw [hj] <;> rfl
    · simp [held, init, VideoQueue.new, VideoQueue.queued]
    · rfl
  refine ⟨fun p => by simp [hempty], fun p p' a ha => by simp [hempty] at ha, fun a => ?_⟩
  constructor
  · intro ha
    exact absurd ha (Nat.not_lt_zero a)
  · rintro ⟨p, hp⟩
    rw [hempty] at hp
    cases hp

/-- The checks of `Exclusive` at the place of the thread, where the threads from `9` on are idle. -/
def exclusive (s : State) : Tid × Act → Bool
  | (i, _) => decide (i < 9) && match s.pc i with
    | .popPop n _ _ | .removePop n _ _ => noOther 9 s i (Pc.takes n)
    | .popEmpty n _ _ | .popFront n _ => noOther 9 s i (Pc.deletes n)
    | _ => true

/-- Thread `8` pushes a frame. -/
def pushing (b : VideoBuffer) : List (Tid × Act) := [(8, .call (.push b)), (8, .run), (8, .notify none)]

def pushingRun : List (Tid × Act) := pushing sampleFrame

/-- Thread `0` passes the frame on to `cam`, at the time `t`. -/
def passing (t : Int) : List (Tid × Act) :=
  [(0, .run), (0, .run), (0, .clock t), (0, .iterate [(['c', 'a', 'm'], 0)]), (0, .run), (0, .run), (0, .run),
    (0, .run), (0, .run), (0, .run)]

def passingRun : List (Tid × Act) := passing 5

/-- Thread `7` takes a frame. -/
def poppingRun : List (Tid × Act) := (7, .call (.pop ['c', 'a', 'm'])) :: List.replicate 10 (7, .run)

/-- Thread `6` registers `cam`, and one frame goes through. -/
def oneFrameRun : List (Tid × Act) := waitingRun.take 4 ++ pushingRun ++ passingRun

/-- The frame after `sampleFrame`. -/
def nextFrame : VideoBuffer := ⟨⟨0, 1, 1⟩, 0, [8, 9], 2, rfl⟩

/-- Two frames go through, a second apart. -/
def twoFramesRun : List (Tid × Act) := oneFrameRun ++ pushing nextFrame ++ passing 6

end State

end RpiCam
