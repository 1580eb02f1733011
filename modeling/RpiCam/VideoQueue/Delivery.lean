import RpiCam.Lib.Channel
import RpiCam.VideoQueue.Callers
import RpiCam.VideoQueue.Passes
import RpiCam.VideoQueue.Ownership

/-!
# Exact delivery

Under the discipline `Delivers e`, the queue of `e` is a first-in first-out channel of what the passes select for it.

* `Before`, `After` : what holds before the first registration of `e`, and after it;
* `channel` : the channel of `e`; its items are the contents of the frames, without the timestamp;
* `channel_step` : every step of the machine is a step of the channel;
* `exact_delivery` : the frames popped from `e`, those in its queue and the one on its way are, in push order, the
  frames whose pass came after the registration with a frame number divisible by `F / f`.
-/

namespace RpiCam

open Transition

/-- What a frame and its copies have in common. -/
abbrev Payload := VideoMeta × List UInt8 × Nat

namespace State

/-- The channel of `e`, where `post` happened since its registration. -/
def channel (e : Name) (d : Int) (post : List Event) (s : State) : Channel Payload where
  taken := (poppedOf e s.log).map fun b => b.val.payload
  queued := (s.data.queued e).map fun b => b.val.payload
  pending := (s.pendingOf e d).map fun b => b.val.payload
  due := (selected d post).map fun b => b.val.payload

/-- The name was never registered. -/
structure Before (e : Name) (s : State) : Prop where
  info : e ∉ s.data.threadInfo
  output : e ∉ s.data.output
  noInsert : ∀ j, s.pc j ≠ .insertOutput e
  popped : poppedOf e s.log = []
  atStart : ∀ j, (s.pc j).inPop e = true → s.pc j = .popFindInfo e

/-- The name was registered with `t`, the rate `f` and `_is_run`, and `post` happened since. -/
structure After (e : Name) (t : InfoId) (f : Int) (post : List Event) (s : State) : Prop where
  range : 1 ≤ f ∧ f ≤ s.data.deviceFps
  entry : AList.lookup e s.data.threadInfo = some t
  info : s.data.infos t = ⟨true, s.data.deviceFps / f⟩
  noErase : ∀ j info, s.pc j ≠ .popErase e info
  head : ∀ j info b, s.pc j = .popPop e info b → ∃ rest, s.data.queued e = b :: rest
  visiting : ∀ j, ((s.pc j).entries.map Prod.fst).Nodup ∧ ∀ u, (e, u) ∈ (s.pc j).entries → u = t
  dueNow : ∀ j, (s.pc j).atEntry e = true → s.data.deviceFps / f ∣ s.data.currentFrameNo
  exact : (channel e (s.data.deviceFps / f) post s).Exact

/-! ## What changes the parts of the channel -/

/-- The steps that change the queue of `e`. -/
theorem Step.queued_cases {s s' : State} {i : Tid} {a : Act} {e : Name} (hc : Coherent s) (ha : Alone e s)
    (h : Step s i a (s.pc i) s') :
    s'.data.queued e = s.data.queued e ∨
    (∃ b t info rest, s.pc i = .distCopy b t e info rest ∧
      s'.data.queued e = s.data.queued e ++ [⟨s.data.nextAddr, b.val.copyAt t⟩]) ∨
    (∃ info b c rest, s.pc i = .popPop e info b ∧ s.data.queued e = c :: rest ∧ s'.data.queued e = rest) := by
  cases ho : AList.lookup e s.data.output with
  | none =>
    left
    rcases h.output_cases with ⟨he, -⟩ | ⟨n, -, -, hd⟩ | ⟨n, info, -, -, hd⟩
    · simp [VideoQueue.queued, he, ho]
    · rw [hd]
      exact queued_enterOutput hc n e
    · simp only [VideoQueue.queued, hd, VideoQueue.eraseOutput, UnorderedMap.lookup_erase', ho]
      split_ifs <;> rfl
  | some q =>
    have hq : s.data.queues q ≠ none := by
      rcases hc.live e q ho with hq | ⟨j, hj⟩
      · exact hq
      · have hr := ha.removes j
        cases hp : s.pc j <;> rw [hp] at hj hr <;> simp_all [Pc.deletes, Pc.removes]
    have ho' := h.output_lookup hc ho hq
    have hqueued : ∀ l, s.data.queues q = some l → s.data.queued e = l := fun l => queued_of_lookup ho
    have hqueued' : ∀ l, s'.data.queues q = some l → s'.data.queued e = l := fun l => queued_of_lookup ho'
    rcases h.queue (hc.queueFresh e q ho) with he | ⟨hpc, hoi, hl, he⟩ | ⟨hpc, -, -⟩ | ⟨hpc, -, -⟩ | ⟨hpc, hoi, hl, he⟩
    · left
      simp [VideoQueue.queued, ho, ho', he]
    · have hn := hc.inj _ _ q hoi ho
      subst hn
      exact Or.inr (Or.inl ⟨_, _, _, _, hpc, by rw [hqueued _ hl, hqueued' _ he]⟩)
    · have hf := hc.fact i
      rw [hpc] at hf
      have hr := ha.removes i
      rw [hpc, hc.inj _ _ q hf.1 ho] at hr
      simp [Pc.removes] at hr
    · have hf := hc.fact i
      rw [hpc] at hf
      have hr := ha.removes i
      rw [hpc, hc.inj _ _ q hf.1 ho] at hr
      simp [Pc.removes] at hr
    · have hn := hc.inj _ _ q hoi ho
      subst hn
      exact Or.inr (Or.inr ⟨_, _, _, _, hpc, hqueued _ hl, hqueued' _ he⟩)

/-! ## Before the registration -/

theorem Step.enterInfo_eq {s s' : State} {i : Tid} {a : Act} (h : Step s i a (s.pc i) s') {n : Name} {u : InfoId}
    (hpc : s.pc i = .insertInfo n u) (hpc' : s'.pc i = .insertOutput n) :
    AList.lookup n s.data.threadInfo = none ∧ s'.data = s.data.enterInfo n u ∧
      s'.log = s.log ++ [.registered n u (s.data.infos u).fps (s.data.infos u).isRun] := by
  rw [hpc] at h
  rcases step_insertInfo_inv h with ⟨f, rfl⟩ | ⟨-, rfl⟩ | ⟨hl, rfl⟩
  · rw [fail_pc, hpc] at hpc'
    cases hpc'
  · simp at hpc'
  · exact ⟨hl, rfl, rfl⟩

theorem Step.popped_cases {s s' : State} {i : Tid} {a : Act} (h : Step s i a (s.pc i) s') (e : Name) :
    poppedOf e s'.log = poppedOf e s.log ∨
      ∃ info b, s.pc i = .popPop e info b ∧ poppedOf e s'.log = poppedOf e s.log ++ [b] := by
  generalize hpc : s.pc i = p at h ⊢
  cases h
  case popPop name info b q c rest ho hq =>
    by_cases hn : name = e
    · subst hn
      exact Or.inr ⟨info, b, rfl, by simp [poppedOf]⟩
    · exact Or.inl (by simp [poppedOf, hn])
  all_goals exact Or.inl (by simp [poppedOf])

/-- A thread in `pop` of a name that is not registered gets no further than line 157. -/
theorem Step.atStart_self {s s' : State} {i : Tid} {a : Act} {e : Name} (h : Step s i a (s.pc i) s')
    (hs : Before e s) (hp : (s'.pc i).inPop e = true) : s'.pc i = .popFindInfo e := by
  rcases h.inPop_self hp with hold | ⟨-, hpc'⟩
  · have hpc := hs.atStart i hold
    rw [hpc] at h
    cases h with
    | move hm =>
      cases hm with
      | popUnknown hl => simp [Pc.inPop] at hp
      | popFindInfo hl => exact absurd (UnorderedMap.mem_of_lookup hl) hs.info
    | lockInput hm => cases hm
    | lockThreadInfo hm => cases hm
    | lockInfo hm => cases hm
    | fail hm => cases hm
  · exact hpc'

theorem step_before {s s' : State} {i : Tid} {a : Act} {e : Name} (hs : Before e s) (h : Step s i a (s.pc i) s')
    (hnot : ∀ t f r, .registered e t f r ∉ s'.log) : Before e s' := by
  have hinfo : e ∉ s'.data.threadInfo := by
    rcases h.threadInfo_cases with ht | ⟨n, u, hpc, hpc', -⟩ | ⟨n, -, -, hd⟩
    · exact ht ▸ hs.info
    · obtain ⟨-, hd, hlog⟩ := h.enterInfo_eq hpc hpc'
      rw [hd]
      intro hm
      rcases (UnorderedMap.mem_emplace ..).mp hm with rfl | hm
      · exact hnot u (s.data.infos u).fps (s.data.infos u).isRun (by simp [hlog])
      · exact hs.info hm
    · rw [hd]
      exact fun hm => hs.info (AList.mem_erase.mp hm).2
  refine ⟨hinfo, ?_, fun j hpc' => ?_, ?_, fun j hp => ?_⟩
  · rcases h.output_cases with ⟨ho, -⟩ | ⟨n, hpc, -, hd⟩ | ⟨n, t, -, -, hd⟩
    · exact ho ▸ hs.output
    · rw [hd]
      intro hm
      rcases (UnorderedMap.mem_emplace ..).mp hm with rfl | hm
      · exact hs.noInsert i hpc
      · exact hs.output hm
    · rw [hd]
      exact fun hm => hs.output (AList.mem_erase.mp hm).2
  · by_cases hj : j = i
    · subst hj
      exact hinfo (h.arrives (Or.inr hpc'))
    · exact hs.noInsert j ((h.pc_of_ne hj rfl).mp hpc')
  · rcases h.popped_cases e with he | ⟨info, b, hpc, -⟩
    · exact he.trans hs.popped
    · exact absurd (hs.atStart i (by simp [hpc, Pc.inPop])) (by simp [hpc])
  · by_cases hj : j = i
    · subst hj
      exact h.atStart_self hs hp
    · rw [← Pc.inPop_plain, h.plain_of_ne hj, Pc.inPop_plain] at hp
      exact (h.pc_of_ne hj rfl).mpr (hs.atStart j hp)

/-! ## The registration -/

theorem step_registered {s s' : State} {i : Tid} {a : Act} {e : Name} {u : InfoId} (hl : Locked s)
    (hF : 0 ≤ s.data.deviceFps) (hown : OwnInfos s) (hs : Before e s) (h : Step s i a (s.pc i) s')
    (hpc : s.pc i = .insertInfo e u) (hpc' : s'.pc i = .insertOutput e) (hrun : (s.data.infos u).isRun = true) :
    After e u (s.data.infos u).fps [] s' := by
  have hl' := step_locked hl h
  obtain ⟨hnone, hd, hlog⟩ := h.enterInfo_eq hpc hpc'
  have hin : (s'.pc i).holdsThreadInfo = true := by rw [hpc']; rfl
  -- the thread is inside the mutex, so no pass is under way
  have hpass : ∀ j, (s'.pc j).entries = [] := by
    intro j
    by_contra hj
    rw [hl'.threadInfo.unique (Pc.holdsThreadInfo_of_entries hj) hin, hpc'] at hj
    exact hj rfl
  have hpop : ∀ j p, p.waits = false → p.inPop e = true → p ≠ .popFindInfo e → s'.pc j ≠ p := by
    intro j p hw hp hne hj
    by_cases hji : j = i
    · rw [← hj, hji, hpc'] at hp
      cases hp
    · have hj' := (h.pc_of_ne hji hw).mp hj
      exact hne (hj'.symm.trans (hs.atStart j (by rw [hj']; exact hp)))
  refine ⟨?_, ?_, ?_, fun j info => hpop j _ rfl (by simp [Pc.inPop]) (by simp),
    fun j info b hj => absurd hj (hpop j _ rfl (by simp [Pc.inPop]) (by simp)),
    fun j => by rw [hpass j]; simp, fun j hj => ?_, ?_⟩
  · rw [h.deviceFps]
    exact hown.request i u (by rw [hpc]; rfl)
  · simp [hd, VideoQueue.enterInfo, UnorderedMap.lookup_emplace, hnone]
  · rw [h.deviceFps, hd]
    simp only [VideoQueue.enterInfo, Function.update_self]
    rw [hrun, Int.tdiv_eq_ediv_of_nonneg hF]
  · have := hpass j
    cases hp : s'.pc j <;> rw [hp] at hj this <;> first | cases hj | cases this
  · have hq : s'.data.queued e = [] := by
      rw [hd]
      simp [VideoQueue.queued, VideoQueue.enterInfo, AList.lookup_eq_none.mpr hs.output]
    have hpopped : poppedOf e s'.log = [] := by
      rw [hlog]
      simpa [poppedOf] using hs.popped
    simp [Channel.Exact, channel, hq, hpopped, pendingOf_of_outside hl' hin e _ (hpass i), selected, passesOf]

/-! ## After the registration -/

theorem After.entry_step {s s' : State} {i : Tid} {a : Act} {e : Name} {t : InfoId} {f : Int} {post : List Event}
    (hs : After e t f post s) (hc : Coherent s) (hown : OwnInfos s) (ha : Alone e s) (h : Step s i a (s.pc i) s') :
    AList.lookup e s'.data.threadInfo = some t ∧ s'.data.infos t = ⟨true, s'.data.deviceFps / f⟩ := by
  have hr := ha.removes i
  refine ⟨h.lookup_kept hs.entry ?_, ?_⟩
  · cases he : (s.pc i).erasesInfo e with
    | false => rfl
    | true =>
      cases hp : s.pc i <;> rw [hp] at he hr <;> simp only [Pc.erasesInfo, beq_iff_eq, Bool.false_eq_true] at he
      · simp [Pc.removes, he] at hr
      · exact absurd hp (he ▸ hs.noErase i _)
  · rw [h.deviceFps, ← hs.info]
    rcases h.infos_cases (hc.infoFresh e t hs.entry) with he | ⟨n, hpc, -⟩ | ⟨n, hpc, hk, -⟩
    · exact he
    · exact absurd hs.entry (hown.unregistered i t e (by rw [hpc]; rfl))
    · rw [hpc, hown.inj n e t hk hs.entry] at hr
      simp [Pc.removes] at hr

/-- The event runs, so its consumer does not take the stop path. -/
theorem After.noErase_step {s s' : State} {i : Tid} {a : Act} {e : Name} {t : InfoId} {f : Int} {post : List Event}
    (hs : After e t f post s) (h : Step s i a (s.pc i) s') (j : Tid) (info : InfoId) : s'.pc j ≠ .popErase e info := by
  intro hpc'
  by_cases hj : j = i
  · subst hj
    generalize hpc : s.pc j = p at h
    cases h
    case move p' hm =>
      simp only [goto_pc, Function.update_self] at hpc'
      cases hm <;> cases hpc'
      case popStops t' hr hl =>
        rw [hs.entry, Option.some.injEq] at hl
        rw [← hl, hs.info] at hr
        cases hr
    case fail f hm => exact hs.noErase j info hpc'
    case lockInput p' hfree hm => cases hm <;> simp at hpc'
    case lockThreadInfo p' hfree hm => cases hm <;> simp at hpc'
    case lockInfo p' t hfree hm => cases hm <;> simp at hpc'
    all_goals simp at hpc'
  · exact hs.noErase j info ((h.pc_of_ne hj rfl).mp hpc')

theorem After.head_step {s s' : State} {i : Tid} {a : Act} {e : Name} {t : InfoId} {f : Int} {post : List Event}
    (hs : After e t f post s) (hc : Coherent s) (ha : Alone e s) (h : Step s i a (s.pc i) s') (j : Tid)
    (info : InfoId) (b : BufferRef) (hpc' : s'.pc j = .popPop e info b) : ∃ rest, s'.data.queued e = b :: rest := by
  by_cases hj : j = i
  · subst hj
    generalize hpc : s.pc j = p at h
    cases h
    case move p' hm =>
      simp only [goto_pc, Function.update_self] at hpc'
      cases hm <;> cases hpc'
      case popFront q rest ho hq => exact ⟨rest, queued_of_lookup ho hq⟩
    case fail f hm => exact hs.head j info b hpc'
    case lockInput p' hfree hm => cases hm <;> simp at hpc'
    case lockThreadInfo p' hfree hm => cases hm <;> simp at hpc'
    case lockInfo p' t hfree hm => cases hm <;> simp at hpc'
    all_goals simp at hpc'
  · have hpc := (h.pc_of_ne hj rfl).mp hpc'
    obtain ⟨rest, hq⟩ := hs.head j info b hpc
    rcases h.queued_cases hc ha with he | ⟨b', t', u, r, -, he⟩ | ⟨u, b', c, r, hpi, -⟩
    · exact ⟨rest, he.trans hq⟩
    · exact ⟨rest ++ [⟨s.data.nextAddr, b'.val.copyAt t'⟩], by rw [he, hq]; rfl⟩
    · exact absurd (ha.single j i (by simp [hpc, Pc.inPop]) (by simp [hpi, Pc.inPop])) hj

theorem After.visitingEntry {s : State} {e : Name} {t : InfoId} {f : Int} {post : List Event}
    (hs : After e t f post s) : Visiting e t (s.data.deviceFps / f) s where
  entry := hs.entry
  divisor := by rw [hs.info]
  nonzero := by
    have hf : 0 < f := hs.range.1
    have h : 1 ≤ s.data.deviceFps / f := (Int.le_ediv_iff_mul_le hf).mpr (by rw [Int.one_mul]; exact hs.range.2)
    omega
  order := hs.visiting
  dueNow := hs.dueNow

/-! ## The machine simulates the channel -/

theorem selected_append (d : Int) (p q : List Event) : selected d (p ++ q) = selected d p ++ selected d q := by
  simp [selected, passesOf]

theorem selected_of_noPass {d : Int} {evs : List Event} (h : passesOf evs = []) : selected d evs = [] := by
  simp [selected, h]

/-- A step that does not pop from `e`: the channel moves with its pending frame. -/
theorem After.channel_quiet {s s' : State} {i : Tid} {a : Act} {e : Name} {t : InfoId} {f : Int}
    {post evs : List Event} (hs : After e t f post s) (hl : Locked s) (hc : Coherent s) (ha : Alone e s)
    (h : Step s i a (s.pc i) s') (hlog : s'.log = s.log ++ evs) (hpop : ∀ info b, s.pc i ≠ .popPop e info b) :
    Channel.Step (channel e (s.data.deviceFps / f) post s) (channel e (s.data.deviceFps / f) (post ++ evs) s') := by
  have hpopped : poppedOf e s'.log = poppedOf e s.log := by
    rcases h.popped_cases e with he | ⟨info, b, hpc, -⟩
    · exact he
    · exact absurd hpc (hpop info b)
  cases hs.visitingEntry.pending_step hl hc h hlog with
  | @select b hp hev hp' hdata =>
    have hsel := selected_passed (s.data.deviceFps / f) [] b s.data.currentFrameNo
    rw [List.nil_append, ← hev] at hsel
    simp only [channel, selected_append, hp, hp', hdata, hpopped, hsel]
    by_cases hd : s.data.deviceFps / f ∣ s.data.currentFrameNo
    · simpa [hd, selected, passesOf] using Channel.Step.announce _ _ _ b.val.payload
    · simpa [hd, selected, passesOf] using Channel.Step.stay _
  | @copy b t' hp hev hp' hq =>
    simp only [channel, hev, List.append_nil, hp, hp', hq, hpopped]
    simpa using Channel.Step.queue _ ((s.data.queued e).map fun b => b.val.payload) _ b.val.payload
  | stay hp hpass hcopy =>
    have hq : s'.data.queued e = s.data.queued e := by
      rcases h.queued_cases hc ha with he | ⟨b, t', info, rest, hpc, -⟩ | ⟨info, b, c, rest, hpc, -⟩
      · exact he
      · rw [hcopy _ _ _ _ hpc]
      · exact absurd hpc (hpop info b)
    simp only [channel, selected_append, selected_of_noPass hpass, List.append_nil, hp, hq, hpopped]
    exact .stay _

theorem After.channel_pop {s : State} {i : Tid} {a : Act} {e : Name} {t info : InfoId} {f : Int} {post : List Event}
    {b c : BufferRef} {q : QueueId} {rest : List BufferRef} (hs : After e t f post s) (hl : Locked s)
    (h : Step s i a (s.pc i) ((((s.setData (s.data.popFront q rest)).setInfo info none).note (.popped e b)).goto i
      (.hold b))) (hpc : s.pc i = .popPop e info b)
    (ho : AList.lookup e s.data.output = some q) (hq : s.data.queues q = some (c :: rest)) :
    Channel.Step (channel e (s.data.deviceFps / f) post s) (channel e (s.data.deviceFps / f) (post ++ [.popped e b])
      ((((s.setData (s.data.popFront q rest)).setInfo info none).note (.popped e b)).goto i (.hold b))) := by
  obtain ⟨r, hr⟩ := hs.head i info b hpc
  have hq1 : s.data.queued e = c :: rest := queued_of_lookup ho hq
  rw [hq1, List.cons.injEq] at hr
  obtain ⟨rfl, rfl⟩ := hr
  have hq2 : (s.data.popFront q rest).queued e = rest := queued_of_lookup ho (by simp [VideoQueue.popFront])
  have hp := h.pending_same hl e (s.data.deviceFps / f) (by rw [hpc]; rfl) (by simp [Pc.entries])
  have hpop : poppedOf e (s.log ++ [.popped e c]) = poppedOf e s.log ++ [c] := by simp [poppedOf]
  have hsel : selected (s.data.deviceFps / f) (post ++ [.popped e c]) = selected (s.data.deviceFps / f) post := by
    simp [selected, passesOf]
  simp only [channel, hsel, hp, hq1, hq2, goto_log, setInfo_log, setData_log, note_log, goto_data, note_data,
    setInfo_data, setData_data, hpop]
  simpa using Channel.Step.take ((poppedOf e s.log).map fun b => b.val.payload)
    (rest.map fun b => b.val.payload) _ _ c.val.payload

theorem After.channel_step {s s' : State} {i : Tid} {a : Act} {e : Name} {t : InfoId} {f : Int} {post evs : List Event}
    (hs : After e t f post s) (hl : Locked s) (hc : Coherent s) (ha : Alone e s) (h : Step s i a (s.pc i) s')
    (hlog : s'.log = s.log ++ evs) :
    Channel.Step (channel e (s.data.deviceFps / f) post s) (channel e (s.data.deviceFps / f) (post ++ evs) s') := by
  by_cases hpop : ∃ info b, s.pc i = .popPop e info b
  · obtain ⟨info, b, hpc⟩ := hpop
    have h0 := h
    rw [hpc] at h
    cases h with
    | popPop ho hq =>
      rw [List.append_cancel_left hlog.symm]
      exact hs.channel_pop hl h0 hpc ho hq
    | fail hm =>
      rw [List.self_eq_append_right.mp hlog, List.append_nil]
      exact .stay _
    | move hm => cases hm
    | lockInput hm => cases hm
    | lockThreadInfo hm => cases hm
    | lockInfo hm => cases hm
  · exact hs.channel_quiet hl hc ha h hlog fun info b hpc => hpop ⟨info, b, hpc⟩

theorem step_after {s s' : State} {i : Tid} {a : Act} {e : Name} {t : InfoId} {f : Int} {post evs : List Event}
    (hs : After e t f post s) (hl : Locked s) (hc : Coherent s) (hown : OwnInfos s) (ha : Alone e s)
    (h : Step s i a (s.pc i) s') (hlog : s'.log = s.log ++ evs) : After e t f (post ++ evs) s' := by
  obtain ⟨hentry, hinfo⟩ := hs.entry_step hc hown ha h
  refine ⟨?_, hentry, hinfo, hs.noErase_step h, hs.head_step hc ha h, hs.visitingEntry.order_step h, ?_, ?_⟩
  · rw [h.deviceFps]
    exact hs.range
  · rw [h.deviceFps]
    exact hs.visitingEntry.dueNow_step hl h
  · rw [h.deviceFps]
    exact (hs.channel_step hl hc ha h hlog).exact hs.exact

/-! ## Runs -/

/-- The first registration of `e` was with `t`, the rate `f` and `_is_run`, and `post` happened since. -/
def FirstRegistered (e : Name) (t : InfoId) (f : Int) (post log : List Event) : Prop :=
  ∃ pre, log = pre ++ .registered e t f true :: post ∧ ∀ u g r, .registered e u g r ∉ pre

/-- What holds of `e` before its first registration, and after one that runs. -/
structure Delivery (e : Name) (s : State) : Prop where
  before : (∀ t f r, .registered e t f r ∉ s.log) → Before e s
  after : ∀ t f post, FirstRegistered e t f post s.log → After e t f post s

theorem Step.logs_registered {s s' : State} {i : Tid} {a : Act} (h : Step s i a (s.pc i) s') {evs : List Event}
    (hlog : s'.log = s.log ++ evs) {e : Name} {t : InfoId} {f : Int} {r : Bool} (hev : .registered e t f r ∈ evs) :
    s.pc i = .insertInfo e t ∧ s'.pc i = .insertOutput e ∧ evs = [.registered e t f r] ∧ f = (s.data.infos t).fps ∧
      r = (s.data.infos t).isRun := by
  generalize hpc : s.pc i = p at h ⊢
  cases h
  case insertInfo name info hl hf =>
    rw [← List.append_cancel_left hlog, List.mem_singleton, Event.registered.injEq] at hev
    obtain ⟨rfl, rfl, rfl, rfl⟩ := hev
    exact ⟨rfl, by simp, (List.append_cancel_left hlog).symm, rfl, rfl⟩
  case pushInput => rw [← List.append_cancel_left hlog] at hev; simp at hev
  case removeInfo => rw [← List.append_cancel_left hlog] at hev; simp at hev
  case popPop => rw [← List.append_cancel_left hlog] at hev; simp at hev
  case distIterate => rw [← List.append_cancel_left hlog] at hev; simp at hev
  all_goals
    rw [List.self_eq_append_right.mp hlog] at hev
    cases hev

/-- After a step, the first registration is the one from before, or the thread has just made it. -/
theorem Step.firstRegistered {s s' : State} {i : Tid} {a : Act} (h : Step s i a (s.pc i) s') {e : Name} {t : InfoId}
    {f : Int} {post : List Event} (hr : FirstRegistered e t f post s'.log) :
    (∃ post' evs, FirstRegistered e t f post' s.log ∧ s'.log = s.log ++ evs ∧ post = post' ++ evs) ∨
      ((∀ u g r, .registered e u g r ∉ s.log) ∧ s.pc i = .insertInfo e t ∧ s'.pc i = .insertOutput e ∧ post = [] ∧
        f = (s.data.infos t).fps ∧ (s.data.infos t).isRun = true) := by
  obtain ⟨evs, hlog⟩ := h.log
  obtain ⟨pre, heq, hpre⟩ := hr
  rw [hlog] at heq
  rcases List.append_eq_append_iff.mp heq with ⟨pre', hp, he⟩ | ⟨post', hp, he⟩
  · obtain ⟨hpc, hpc', hev, hf, hrun⟩ := h.logs_registered hlog (t := t) (f := f) (e := e) (r := true) (by simp [he])
    rw [hev] at he
    have hpost : post = [] := by cases pre' <;> simp_all
    exact Or.inr ⟨fun u g r hm => hpre u g r (by rw [hp]; exact List.mem_append_left _ hm), hpc, hpc', hpost, hf,
      hrun.symm⟩
  · cases post' with
    | nil =>
      rw [List.append_nil] at hp
      rw [List.nil_append] at he
      obtain ⟨hpc, hpc', hev, hf, hrun⟩ :=
        h.logs_registered hlog (t := t) (f := f) (e := e) (r := true) (by simp [← he])
      rw [hev, List.cons.injEq] at he
      exact Or.inr ⟨hp ▸ hpre, hpc, hpc', he.2, hf, hrun.symm⟩
    | cons x post' =>
      rw [List.cons_append, List.cons.injEq] at he
      obtain ⟨rfl, rfl⟩ := he
      exact Or.inl ⟨post', evs, ⟨pre, hp, hpre⟩, hlog, rfl⟩

theorem step_delivery {s s' : State} {i : Tid} {a : Act} {e : Name} (hs : Delivery e s) (hl : Locked s)
    (hc : Coherent s) (hown : OwnInfos s) (ha : Alone e s) (hF : 0 ≤ s.data.deviceFps)
    (h : Step s i a (s.pc i) s') : Delivery e s' where
  before hnot := by
    obtain ⟨evs, hlog⟩ := h.log
    refine step_before (hs.before fun t f r hm => hnot t f r ?_) h hnot
    rw [hlog]
    exact List.mem_append_left _ hm
  after t f post hr := by
    rcases h.firstRegistered hr with ⟨post', evs, hr', hlog, rfl⟩ | ⟨hnot, hpc, hpc', rfl, rfl, hrun⟩
    · exact step_after (hs.after t f post' hr') hl hc hown ha h hlog
    · exact step_registered hl hF hown (hs.before hnot) h hpc hpc' hrun

theorem delivery_init (e : Name) (F : Int) : Delivery e (init F) where
  before _ := by
    refine ⟨by simp [init, VideoQueue.new], by simp [init, VideoQueue.new], fun j hj => ?_, rfl, fun j hj => ?_⟩
    · rcases init_pc F j with h | h <;> rw [h] at hj <;> cases hj
    · rcases init_pc F j with h | h <;> rw [h] at hj <;> cases hj
  after t f post hr := by
    obtain ⟨pre, h, -⟩ := hr
    simp [init] at h

theorem reach_delivery {F : Int} (hF : 1 ≤ F) {e : Name} {s : State} (h : Reach (· = init F) step (Delivers e) s) :
    (OwnInfos s ∧ Alone e s ∧ s.data.deviceFps = F) ∧ Delivery e s := by
  refine Reach.invariant_of (fun s => (OwnInfos s ∧ Alone e s ∧ s.data.deviceFps = F) ∧ Delivery e s)
    (fun s hr => reach_coherent hr) ?_ (fun s ⟨i, a⟩ s' hk hs hok hst => ?_) h
  · rintro s rfl
    exact ⟨⟨ownInfos_init F, alone_init e F, rfl⟩, delivery_init e F⟩
  · obtain ⟨hl, hc⟩ := hk
    obtain ⟨⟨hown, ha, hdev⟩, hd⟩ := hs
    have h := step_sound hst
    exact ⟨⟨step_ownInfos hc hown hok h, step_alone ha hok h, h.deviceFps.trans hdev⟩,
      step_delivery hd hl hc hown ha (by rw [hdev]; omega) h⟩

/-- What was popped, what is queued and what is on its way, in this order, are copies of what was selected. -/
theorem delivered_eq {F : Int} (hF : 1 ≤ F) {e : Name} {s : State} (h : Reach (· = init F) step (Delivers e) s)
    {t : InfoId} {f : Int} {post : List Event} (hr : FirstRegistered e t f post s.log) :
    (poppedOf e s.log ++ s.data.queued e ++ s.pendingOf e (F / f)).map (fun b => b.val.payload) =
      (selected (F / f) post).map (fun b => b.val.payload) := by
  obtain ⟨⟨-, -, hdev⟩, hd⟩ := reach_delivery hF h
  have hexact := (hd.after t f post hr).exact
  rw [hdev] at hexact
  rw [List.map_append, List.map_append]
  exact hexact

/-- **Exact delivery.** What was popped from `e` and what is in its queue, followed by the frame a pass under way has
selected, are copies of the frames selected since the registration, in order and each once; between passes nothing is
under way; and the passes go through the pushed frames in push order. -/
theorem exact_delivery {F : Int} (hF : 1 ≤ F) {e : Name} {s : State} (h : Reach (· = init F) step (Delivers e) s)
    {t : InfoId} {f : Int} {post : List Event} (hr : FirstRegistered e t f post s.log) :
    (1 ≤ f ∧ f ≤ F) ∧
    (poppedOf e s.log ++ s.data.queued e ++ s.pendingOf e (F / f)).map (fun b => b.val.payload) =
      (selected (F / f) post).map (fun b => b.val.payload) ∧
    ((∀ j, (s.pc j).entries = []) → s.pendingOf e (F / f) = []) ∧
    (passesOf s.log).map Prod.fst ++ s.taken ++ s.data.input = pushesOf s.log := by
  obtain ⟨⟨-, -, hdev⟩, hd⟩ := reach_delivery hF h
  have ha := hd.after t f post hr
  have hrange := ha.range
  rw [hdev] at hrange
  refine ⟨hrange, delivered_eq hF h hr, fun hnone => ?_, push_order h⟩
  cases hm : s.threadInfoMutex with
  | none => rw [pendingOf, hm, atHolder_none]
  | some i => rw [pendingOf, hm, atHolder_some, Pc.pending_of_entries (hnone i)]

/-- No call but pushes and registrations at a rate the device has. -/
def registering (s : State) : Tid × Act → Bool
  | (_, .call (.insert _ fps _)) => decide (1 ≤ fps ∧ fps ≤ s.data.deviceFps)
  | (_, .call (.push _)) => true
  | (_, .call _) => false
  | _ => true

theorem delivers_of_registering (e : Name) (s : State) (ia : Tid × Act) (h : registering s ia = true) :
    Delivers e s ia := by
  obtain ⟨i, a⟩ := ia
  cases a with
  | call r =>
    cases r with
    | push b => simp [Delivers]
    | insert n fps r => simpa [Delivers, registering] using h
    | insertAgain n t => cases h
    | remove n => cases h
    | pop n => cases h
  | _ => simp [Delivers]

theorem exact_delivery_two : ∃ s,
    run (checked (consumes 7 ['c', 'a', 'm']) step) (init 30) (twoFramesRun ++ poppingRun) = some s ∧
    FirstRegistered ['c', 'a', 'm'] 0 30 (s.log.drop 1) s.log ∧
    (poppedOf ['c', 'a', 'm'] s.log).map (fun b => b.val.payload) = [sampleFrame.payload] ∧
    (s.data.queued ['c', 'a', 'm']).map (fun b => b.val.payload) = [nextFrame.payload] ∧
    (poppedOf ['c', 'a', 'm'] s.log ++ s.data.queued ['c', 'a', 'm'] ++ s.pendingOf ['c', 'a', 'm'] (30 / 30)).map
      (fun b => b.val.payload) = (selected (30 / 30) (s.log.drop 1)).map (fun b => b.val.payload) := by
  have hrun : run (checked (consumes 7 ['c', 'a', 'm']) step) (init 30) (twoFramesRun ++ poppingRun) = some _ := rfl
  have hreach := (reach_consumes (.of_checked _ (consumes_sound 7 ['c', 'a', 'm']) (.init rfl) hrun)).1
  exact ⟨_, hrun, ⟨[], rfl, by simp⟩, rfl, rfl, (exact_delivery (by decide) hreach ⟨[], rfl, by simp⟩).2.1⟩

end State

end RpiCam
