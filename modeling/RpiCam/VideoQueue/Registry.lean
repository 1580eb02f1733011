import RpiCam.VideoQueue.Calls

/-!
# Registry consistency

`_thread_info` and `_output` are meant to have the same keys. `remove_event` erases a name from both, but the stop path
of `pop` (line 178) erases it from `_thread_info` only, and a later `insert_event` keeps the queue it finds.

* `sameKeys_step_iff` : one call keeps the keys equal exactly when it is not a `pop` that takes the stop path;
* `FreshSince σ name` : the queue of `name` holds no frame older than `σ`; every call keeps it (`step_freshSince`);
* `registry_consistent` : in runs without a stopping `pop` the keys are equal, a registered name starts with an empty
  queue, and no frame older than the registration is popped after it;
* `stale_queue` : one stopping `pop` breaks each of the three.
-/

namespace RpiCam

open Transition

namespace VideoQueue

/-- `_thread_info` and `_output` have the same keys. -/
def SameKeys (v : VideoQueue) : Prop := ∀ name : Name, name ∈ v.threadInfo ↔ name ∈ v.output

/-- The call is not a `pop` of a registered event that was told to stop. -/
def NoStop (v : VideoQueue) (c : Call) : Prop :=
  ∀ name info, c = .pop name → AList.lookup name v.threadInfo = some info → (v.infos info).isRun = true

theorem SameKeys.registered {v : VideoQueue} (h : SameKeys v) (name : Name) (info : InfoId) :
    SameKeys (v.registered name info) := by
  intro k
  simp only [VideoQueue.registered, enterInfo, enterOutput]
  rw [UnorderedMap.mem_emplace, UnorderedMap.mem_emplace, h k]

/-- **One call keeps the keys equal unless it is a stopping `pop`.** -/
theorem sameKeys_step_iff {v w : VideoQueue} {c : Call} (h : SameKeys v) (hstep : v.step c = some w) :
    SameKeys w ↔ NoStop v c := by
  obtain ⟨r, he⟩ := step_eq_some hstep
  cases c with
  | newThreadInfo fps isRun =>
    cases he
    exact ⟨fun _ _ _ hc => (by cases hc), fun _ => h⟩
  | insertEvent name info =>
    refine ⟨fun _ _ _ hc => (by cases hc), fun _ => ?_⟩
    simp only [exec] at he
    split_ifs at he with hlt
    obtain ⟨n, hd, -⟩ := mapRet_eq_done he
    rcases insertEvent_done hd with ⟨-, rfl, -⟩ | ⟨-, -, rfl, -⟩
    · exact h
    · exact h.registered name info
  | removeEvent name =>
    refine ⟨fun _ _ _ hc => (by cases hc), fun _ k => ?_⟩
    obtain ⟨n, hd, -⟩ := mapRet_eq_done he
    obtain ⟨hti, hout, -⟩ := removeEvent_done hd
    rw [hti, hout, AList.mem_erase, AList.mem_erase, h k]
  | push b =>
    cases he
    exact ⟨fun _ _ _ hc => (by cases hc), fun _ => h⟩
  | distributeBuffer t order =>
    refine ⟨fun _ _ _ hc => (by cases hc), fun _ k => ?_⟩
    simp only [exec] at he
    split_ifs at he with ho
    obtain ⟨n, hd, -⟩ := mapRet_eq_done he
    obtain ⟨b, u, u', hi, hx, rfl⟩ := distributeBuffer_done hd
    obtain ⟨-, hu⟩ := takeInput_eq hi
    simp only [deleteBuffer, hx.threadInfo, hx.output]
    rw [hu]
    exact h k
  | pop name =>
    obtain ⟨ret, hd, -⟩ := mapRet_eq_done he
    rcases pop_done hd with ⟨rfl, -, hnone⟩ | ⟨info, hti, hout, hrun, rfl, -⟩ |
      ⟨info, q, b, rest, hti, -, hrun, -, rfl, -⟩
    · refine ⟨fun _ k info hc hk => ?_, fun _ => h⟩
      cases hc
      rcases hnone with hn | hn
      · rw [hn] at hk; cases hk
      · exact absurd ((h name).mp (UnorderedMap.mem_of_lookup hk)) (AList.lookup_eq_none.mp hn)
    · constructor
      · intro hs
        have hmem : name ∈ (v.eraseThreadInfo name).threadInfo := (hs name).mpr (AList.lookup_isSome.mp hout)
        exact absurd rfl (AList.mem_erase.mp hmem).1
      · intro hok
        rw [hok name info rfl hti] at hrun
        cases hrun
    · refine ⟨fun _ k info' hc hk => ?_, fun _ => h⟩
      cases hc
      rw [hti] at hk
      cases hk
      exact hrun

/-! ## Frames older than a registration -/

/-- The queue of `name` holds no frame allocated before `σ`, and `σ` is in the past. -/
def FreshSince (σ : Addr) (name : Name) (v : VideoQueue) : Prop :=
  σ ≤ v.nextAddr ∧ ∀ q l, AList.lookup name v.output = some q → v.queues q = some l → ∀ b ∈ l, σ ≤ b.addr

theorem FreshSince.extends {σ : Addr} {name : Name} {v w : VideoQueue} (h : FreshSince σ name v)
    (hx : Extends v w) : FreshSince σ name w := by
  refine ⟨Nat.le_trans h.1 hx.nextAddr, fun q l ho hq b hb => ?_⟩
  rw [hx.output] at ho
  rcases hx.queues q with he | ⟨l₀, new, hl₀, hw, hnew⟩
  · exact h.2 q l ho (he ▸ hq) b hb
  · rw [hw, Option.some.injEq] at hq
    subst hq
    rcases List.mem_append.mp hb with hb | hb
    · exact h.2 q l₀ ho hl₀ b hb
    · exact Nat.le_trans h.1 (hnew b hb)

theorem step_freshSince {σ : Addr} {name : Name} {v w : VideoQueue} {c : Call} (h : FreshSince σ name v)
    (hstep : v.step c = some w) : FreshSince σ name w := by
  obtain ⟨r, he⟩ := step_eq_some hstep
  cases c with
  | newThreadInfo fps isRun => cases he; exact h
  | insertEvent k info =>
    simp only [exec] at he
    split_ifs at he with hlt
    obtain ⟨n, hd, -⟩ := mapRet_eq_done he
    rcases insertEvent_done hd with ⟨-, rfl, -⟩ | ⟨-, -, rfl, -⟩
    · exact h
    · refine ⟨h.1, fun q l ho hq b hb => ?_⟩
      simp only [VideoQueue.registered, enterInfo, enterOutput] at ho hq
      -- the queue is the new one, which is empty, or one that was there
      by_cases hqn : q = v.nextQueue
      · subst hqn
        rw [Function.update_self, Option.some.injEq] at hq
        subst hq
        cases hb
      · rw [Function.update_of_ne hqn] at hq
        rw [UnorderedMap.lookup_emplace] at ho
        split_ifs at ho with hk
        · cases ho; exact absurd rfl hqn
        · exact h.2 q l ho hq b hb
  | removeEvent k =>
    obtain ⟨n, hd, -⟩ := mapRet_eq_done he
    obtain ⟨-, hout, hna, -, -, -, hqs⟩ := removeEvent_done hd
    refine ⟨hna ▸ h.1, fun q l ho hq b hb => ?_⟩
    rw [hout, UnorderedMap.lookup_erase'] at ho
    split_ifs at ho with hk
    rcases hqs q with he | he
    · exact h.2 q l ho (he ▸ hq) b hb
    · rw [he] at hq; cases hq
  | push b =>
    cases he
    exact ⟨Nat.le_succ_of_le h.1, h.2⟩
  | distributeBuffer t order =>
    simp only [exec] at he
    split_ifs at he with ho
    obtain ⟨n, hd, -⟩ := mapRet_eq_done he
    obtain ⟨b, u, u', hi, hx, rfl⟩ := distributeBuffer_done hd
    obtain ⟨-, hu⟩ := takeInput_eq hi
    have hfu : FreshSince σ name u := by rw [hu]; exact h
    exact (hfu.extends hx : FreshSince σ name u')
  | pop k =>
    obtain ⟨ret, hd, -⟩ := mapRet_eq_done he
    rcases pop_done hd with ⟨rfl, -⟩ | ⟨info, -, -, -, rfl, -⟩ | ⟨info, q₀, b₀, rest, -, -, -, hq₀, rfl, -⟩
    · exact h
    · exact h
    · refine ⟨h.1, fun q l ho hq b hb => ?_⟩
      simp only [popFront] at ho hq
      by_cases hqq : q = q₀
      · subst hqq
        rw [Function.update_self, Option.some.injEq] at hq
        subst hq
        exact h.2 q _ ho hq₀ b (List.mem_cons_of_mem _ hb)
      · rw [Function.update_of_ne hqq] at hq
        exact h.2 q l ho hq b hb

/-- A frame that `pop` returns is not older than what the queue is fresh since. -/
theorem FreshSince.pop {σ : Addr} {name : Name} {v w : VideoQueue} {b : BufferRef} (h : FreshSince σ name v)
    (hp : v.pop name = .done w (some b)) : σ ≤ b.addr := by
  rcases pop_done hp with ⟨-, hr, -⟩ | ⟨info, -, -, -, -, hr⟩ | ⟨info, q, b', rest, -, ho, -, hq, -, hr⟩
  · cases hr
  · cases hr
  · cases hr
    exact h.2 q _ ho hq b (List.mem_cons_self ..)

def QueueEmpty (v : VideoQueue) (name : Name) : Prop :=
  ∃ q, AList.lookup name v.output = some q ∧ v.queues q = some []

theorem queueEmpty_registered {v : VideoQueue} {name : Name} {info : InfoId} (h : SameKeys v)
    (hnone : AList.lookup name v.threadInfo = none) : QueueEmpty (v.registered name info) name := by
  have ho : AList.lookup name v.output = none :=
    AList.lookup_eq_none.mpr fun hm => AList.lookup_eq_none.mp hnone ((h name).mpr hm)
  refine ⟨v.nextQueue, ?_, ?_⟩
  · simp only [VideoQueue.registered, enterInfo, enterOutput]
    rw [UnorderedMap.lookup_emplace, if_pos ⟨rfl, ho⟩]
  · simp [VideoQueue.registered, enterInfo, enterOutput]

/-- **Registry consistency.** In every run in which no `pop` takes the stop path the two maps have the same keys, and
after a registration that returns 0 the queue of the name is empty and every frame popped from it later, in any
continuation of the run, was allocated after the registration. -/
theorem registry_consistent {F : Int} {v : VideoQueue} (h : Reach (· = new F) step NoStop v) :
    SameKeys v ∧ ∀ name info w, v.insertEvent name info = .done w 0 → QueueEmpty w name ∧
      ∀ u u' b, Reach (· = w) step (fun _ _ => True) u → u.pop name = .done u' (some b) → v.nextAddr ≤ b.addr := by
  have hkeys : SameKeys v := by
    refine Reach.invariant SameKeys ?_ (fun s c s' hs hok hst => (sameKeys_step_iff hs hst).mpr hok) h
    rintro s rfl name
    simp [new]
  refine ⟨hkeys, fun name info w hw => ?_⟩
  rcases insertEvent_done hw with ⟨-, -, hr⟩ | ⟨hnone, -, rfl, -⟩
  · cases hr
  · have hempty : QueueEmpty (v.registered name info) name := queueEmpty_registered hkeys hnone
    refine ⟨hempty, fun u u' b hu hp => ?_⟩
    obtain ⟨q, ho, hq⟩ := hempty
    suffices hf : FreshSince v.nextAddr name u from hf.pop hp
    refine Reach.invariant (FreshSince v.nextAddr name) ?_ (fun s c s' hs _ hst => step_freshSince hs hst) hu
    rintro s rfl
    refine ⟨le_refl _, fun q' l ho' hq' c hc => ?_⟩
    rw [ho, Option.some.injEq] at ho'
    subst ho'
    rw [hq, Option.some.injEq] at hq'
    subst hq'
    cases hc

def noStop (v : VideoQueue) : Call → Bool
  | .pop name =>
    match AList.lookup name v.threadInfo with
    | some info => (v.infos info).isRun
    | none => true
  | _ => true

theorem noStop_sound (v : VideoQueue) (c : Call) (h : noStop v c = true) : NoStop v c := by
  rintro name info rfl hl
  simpa only [noStop, hl] using h

def camFrame (info : InfoId) : List Call := [.push sampleFrame, .distributeBuffer 5 [(['c', 'a', 'm'], info)]]

/-- The event is registered, one of two frames is popped, and the event is removed. -/
def earlierCalls : List Call :=
  [.newThreadInfo 30 true, .insertEvent ['c', 'a', 'm'] 0] ++ camFrame 0 ++ camFrame 0 ++
    [.pop ['c', 'a', 'm'], .removeEvent ['c', 'a', 'm'], .newThreadInfo 30 true]

theorem registry_consistent_cam : ∃ v w u w', run (checked noStop step) (new 30) earlierCalls = some v ∧
    v.nextAddr = 4 ∧ SameKeys v ∧ v.insertEvent ['c', 'a', 'm'] 1 = .done w 0 ∧ QueueEmpty w ['c', 'a', 'm'] ∧
    run step w (camFrame 1) = some u ∧ u.pop ['c', 'a', 'm'] = .done w' (some ⟨5, sampleFrame.copyAt 5⟩) ∧
    v.nextAddr ≤ 5 := by
  have hrun : run (checked noStop step) (new 30) earlierCalls = some _ := rfl
  obtain ⟨hkeys, hreg⟩ := registry_consistent (.of_checked noStop noStop_sound (.init rfl) hrun)
  obtain ⟨hempty, hfresh⟩ := hreg ['c', 'a', 'm'] 1 _ rfl
  exact ⟨_, _, _, _, hrun, rfl, hkeys, rfl, hempty, rfl, rfl,
    hfresh _ _ _ (.of_run (.init rfl) (rfl : run step _ (camFrame 1) = some _)) rfl⟩

/-- The calls of a disabled event that is started again: its first `pop` finds it stopped. -/
def staleCalls : List Call :=
  [.newThreadInfo 30 false, .insertEvent ['c', 'a', 'm'] 0, .push sampleFrame,
    .distributeBuffer 5 [(['c', 'a', 'm'], 0)], .pop ['c', 'a', 'm'], .newThreadInfo 30 true]

/-- **The stop path leaves the queue behind.** The keys differ, the next registration of the name returns 0 over the
old queue, and the first frame popped was distributed before it. -/
theorem stale_queue : ∃ v u u' b, run step (new 30) staleCalls = some v ∧ ¬ SameKeys v ∧
    v.insertEvent ['c', 'a', 'm'] 1 = .done u 0 ∧ ¬ QueueEmpty u ['c', 'a', 'm'] ∧
    u.pop ['c', 'a', 'm'] = .done u' (some b) ∧ b.addr < v.nextAddr := by
  refine ⟨_, _, _, _, rfl, fun h => ?_, rfl, ?_, rfl, by decide⟩
  · have := h ['c', 'a', 'm']
    revert this
    decide
  · rintro ⟨q, ho, hq⟩
    cases ho
    cases hq

end VideoQueue

end RpiCam
