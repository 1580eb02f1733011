import RpiCam.VideoQueue.History
import RpiCam.VideoQueue.Ownership

/-!
# Passes

A pass of a distributor goes through the registered events in some order and copies its frame for those whose divisor
divides the number of the frame.

* `entries`, `pendingOf` : what a pass has still to visit, and the frame that it has still to copy for a name;
* `selected` : the frames that a divisor selects from the passes;
* `Visiting e t d` : `e` stays registered with `t`, whose divisor is `d`;
* `pending_step` : then a step selects a frame, copies the frame that was selected, or leaves it.
-/

namespace RpiCam

open Transition

namespace Pc

def entries : Pc → List (Name × InfoId)
  | distVisit _ _ _ rest => rest
  | distDue _ _ name info rest | distEntry _ _ name info rest | distCopy _ _ name info rest => (name, info) :: rest
  | _ => []

def frame : Pc → List BufferRef
  | distVisit b _ _ _ | distDue b _ _ _ _ | distEntry b _ _ _ _ | distCopy b _ _ _ _ => [b]
  | _ => []

/-- At an entry that takes the frame. -/
def atEntry (name : Name) : Pc → Bool
  | distEntry _ _ n _ _ | distCopy _ _ n _ _ => n == name
  | _ => false

/-- The frame, if the pass has still to copy it for the name. -/
def pending (name : Name) (due : Bool) (p : Pc) : List BufferRef :=
  if due = true ∧ name ∈ p.entries.map Prod.fst then p.frame else []

theorem entries_plain (p : Pc) : p.plain.entries = p.entries := by cases p <;> rfl

theorem atEntry_plain (name : Name) (p : Pc) : p.plain.atEntry name = p.atEntry name := by cases p <;> rfl

theorem pending_plain (name : Name) (due : Bool) (p : Pc) : p.plain.pending name due = p.pending name due := by
  cases p <;> rfl

theorem pending_of_entries {name : Name} {due : Bool} {p : Pc} (h : p.entries = []) : p.pending name due = [] := by
  simp [pending, h]

theorem pending_cons {e name : Name} (hn : e ≠ name) (due : Bool) {info : InfoId} {p p' : Pc}
    (he : p.entries = (name, info) :: p'.entries) (hf : p'.frame = p.frame) :
    p'.pending e due = p.pending e due := by
  have hmem : e ∈ p.entries.map Prod.fst ↔ e ∈ p'.entries.map Prod.fst := by
    rw [he, List.map_cons, List.mem_cons]
    exact or_iff_right hn
  exact if_congr (and_congr_right fun _ => hmem.symm) hf rfl

theorem holdsInput_of_entries {p : Pc} (h : p.entries ≠ []) : p.holdsInput = true := by
  cases p <;> first | rfl | exact absurd rfl h

theorem holdsThreadInfo_of_entries {p : Pc} (h : p.entries ≠ []) : p.holdsThreadInfo = true := by
  cases p <;> first | rfl | exact absurd rfl h

end Pc

namespace State

/-- The frame that a pass has selected for the name and not yet copied. -/
def pendingOf (e : Name) (d : Int) (s : State) : List BufferRef :=
  atHolder s.threadInfoMutex fun i => (s.pc i).pending e (decide (d ∣ s.data.currentFrameNo))

/-- The passes in `post` whose frame number `d` divides. -/
def selected (d : Int) (post : List Event) : List BufferRef :=
  ((passesOf post).filter fun p => decide (d ∣ p.2)).map Prod.fst

/-! ## Where the pending frame changes -/

/-- The frame number changes at line 210 only. -/
theorem Step.frameNo {s s' : State} {i : Tid} {a : Act} (h : Step s i a (s.pc i) s') :
    s'.data.currentFrameNo = s.data.currentFrameNo ∨ s.pc i = .distTake := by
  generalize hpc : s.pc i = p at h ⊢
  cases h
  case distTake => exact Or.inr rfl
  case distCopy b t name info rest v hl hc => exact Or.inl (VideoQueue.copyTo_extends hc).currentFrameNo
  all_goals exact Or.inl rfl

/-- While a thread is in a pass, no other thread changes the frame number. -/
theorem Step.frameNo_of_pass {s s' : State} {i : Tid} {a : Act} (hl : Locked s) (h : Step s i a (s.pc i) s') {j : Tid}
    (hj : (s.pc j).entries ≠ []) : s'.data.currentFrameNo = s.data.currentFrameNo := by
  rcases h.frameNo with he | hpc
  · exact he
  · have hji : j = i := hl.input.unique (Pc.holdsInput_of_entries hj) (by rw [hpc]; rfl)
    rw [hji, hpc] at hj
    exact absurd rfl hj

theorem Step.pending_same {s s' : State} {i : Tid} {a : Act} (hl : Locked s) (h : Step s i a (s.pc i) s') (e : Name)
    (d : Int) (hi : (s.pc i).entries = []) (hi' : (s'.pc i).entries = []) : s'.pendingOf e d = s.pendingOf e d := by
  refine hl.threadInfo.atHolder_turn h.turn_threadInfo (Pc.pending_of_entries hi) (Pc.pending_of_entries hi')
    fun j hj _ => ?_
  rw [← Pc.pending_plain, h.plain_of_ne hj, Pc.pending_plain]
  by_cases hje : (s.pc j).entries = []
  · rw [Pc.pending_of_entries hje, Pc.pending_of_entries hje]
  · rw [h.frameNo_of_pass hl hje]

theorem pendingOf_holder {s : State} (hl : Locked s) {i : Tid} (hi : (s.pc i).holdsThreadInfo = true) (e : Name)
    (d : Int) : s.pendingOf e d = (s.pc i).pending e (decide (d ∣ s.data.currentFrameNo)) := by
  rw [pendingOf, (hl.threadInfo i).mpr hi, atHolder_some]

theorem pendingOf_same_holder {s s' : State} {i : Tid} {p p' : Pc} {e : Name} {d : Int}
    (hm : s.threadInfoMutex = some i) (hm' : s'.threadInfoMutex = some i)
    (hf : s'.data.currentFrameNo = s.data.currentFrameNo) (hp : s.pc i = p) (hp' : s'.pc i = p')
    (h : ∀ due : Bool, due = decide (d ∣ s.data.currentFrameNo) → p'.pending e due = p.pending e due) :
    s'.pendingOf e d = s.pendingOf e d := by
  rw [pendingOf, pendingOf, hm, hm', atHolder_some, atHolder_some, hp, hp', hf]
  exact h _ rfl

theorem pendingOf_of_outside {s : State} (hl : Locked s) {i : Tid} (hi : (s.pc i).holdsThreadInfo = true) (e : Name)
    (d : Int) (he : (s.pc i).entries = []) : s.pendingOf e d = [] := by
  rw [pendingOf_holder hl hi, Pc.pending_of_entries he]

/-- What a step adds to the log. -/
theorem Step.log {s s' : State} {i : Tid} {a : Act} (h : Step s i a (s.pc i) s') : ∃ evs, s'.log = s.log ++ evs := by
  generalize s.pc i = p at h
  cases h
  case pushInput b waiter hn => exact ⟨[.pushed b], by simp⟩
  case insertInfo name info hl hf =>
    exact ⟨[.registered name info (s.data.infos info).fps (s.data.infos info).isRun], by simp⟩
  case removeInfo name info => exact ⟨[.removed name info], by simp⟩
  case popPop name info b q c rest ho hq => exact ⟨[.popped name b], by simp⟩
  case distIterate b t order hfree ho => exact ⟨[.passed b s.data.currentFrameNo], by simp⟩
  all_goals exact ⟨[], by simp⟩

theorem selected_passed (d : Int) (post : List Event) (b : BufferRef) (n : Int) :
    selected d (post ++ [.passed b n]) = selected d post ++ if d ∣ n then [b] else [] := by
  simp only [selected, passesOf, List.filterMap_append, List.filter_append, List.map_append]
  by_cases h : d ∣ n <;> simp [h]

/-! ## A registered event -/

/-- `e` is registered with `t`, whose divisor is `d`; each pass has it once at most, and is at its entry only with a
frame that it takes. -/
structure Visiting (e : Name) (t : InfoId) (d : Int) (s : State) : Prop where
  entry : AList.lookup e s.data.threadInfo = some t
  divisor : (s.data.infos t).fps = d
  nonzero : d ≠ 0
  order : ∀ j, ((s.pc j).entries.map Prod.fst).Nodup ∧ ∀ u, (e, u) ∈ (s.pc j).entries → u = t
  dueNow : ∀ j, (s.pc j).atEntry e = true → d ∣ s.data.currentFrameNo

/-- What a step does to the pending frame. -/
inductive PendingStep (e : Name) (d : Int) (s s' : State) (i : Tid) (evs : List Event) : Prop
  /-- The pass has no frame for `e` yet and may select one. -/
  | select {b : BufferRef} : s.pendingOf e d = [] → evs = [.passed b s.data.currentFrameNo] →
      s'.pendingOf e d = selected d evs → s'.data = s.data → PendingStep e d s s' i evs
  /-- The frame is copied to the queue of `e`. -/
  | copy {b : BufferRef} {t : Int} : s.pendingOf e d = [b] → evs = [] → s'.pendingOf e d = [] →
      s'.data.queued e = s.data.queued e ++ [⟨s.data.nextAddr, b.val.copyAt t⟩] → PendingStep e d s s' i evs
  | stay : s'.pendingOf e d = s.pendingOf e d → passesOf evs = [] →
      (∀ b t info rest, s.pc i = .distCopy b t e info rest → s'.data = s.data) → PendingStep e d s s' i evs

theorem Step.pending_outside {s s' : State} {i : Tid} {a : Act} {evs : List Event} (hl : Locked s)
    (h : Step s i a (s.pc i) s') (e : Name) (d : Int) (hi : (s.pc i).entries = []) (hi' : (s'.pc i).entries = [])
    (hpass : passesOf evs = []) : PendingStep e d s s' i evs := by
  refine .stay (h.pending_same hl e d hi hi') hpass fun b t info rest hpc => ?_
  rw [hpc] at hi
  cases hi

namespace Visiting

variable {s s' : State} {i : Tid} {a : Act} {e : Name} {t : InfoId} {d : Int}

theorem order_step (hs : Visiting e t d s) (h : Step s i a (s.pc i) s') (j : Tid) :
    ((s'.pc j).entries.map Prod.fst).Nodup ∧ ∀ u, (e, u) ∈ (s'.pc j).entries → u = t := by
  by_cases hj : j = i
  · subst hj
    have hv := hs.order j
    generalize hpc : s.pc j = p at h hv
    cases h
    case move p' hm =>
      simp only [goto_pc, Function.update_self]
      cases hm <;> simp only [Pc.entries, List.map_nil, List.nodup_nil, List.not_mem_nil, false_implies,
        implies_true, and_self] at hv ⊢
      case distErased => exact ⟨(List.nodup_cons.mp hv.1).2, fun u hu => hv.2 u (List.mem_cons_of_mem _ hu)⟩
      case distReach => exact hv
      case distSkip => exact ⟨(List.nodup_cons.mp hv.1).2, fun u hu => hv.2 u (List.mem_cons_of_mem _ hu)⟩
      case distDue => exact hv
    case lockInfo p' u hfree hm =>
      simp only [goto_pc, Function.update_self]
      cases hm
      · simp [Pc.entries]
      · simp [Pc.entries]
      · exact hv
    case fail f hm => rw [fail_pc, hpc]; exact hv
    case distIterate b t' order hfree ho =>
      simp only [goto_pc, Function.update_self]
      refine ⟨ho.nodup, fun u hu => ?_⟩
      have hu' := (ho.mem e u).mp hu
      rw [hs.entry, Option.some.injEq] at hu'
      exact hu'.symm
    case distCopy b t' n info rest v hl hc =>
      simp only [goto_pc, Function.update_self]
      exact ⟨(List.nodup_cons.mp hv.1).2, fun u hu => hv.2 u (List.mem_cons_of_mem _ hu)⟩
    case lockInput p' hfree hm => cases hm <;> simp [Pc.entries]
    case lockThreadInfo p' hfree hm => cases hm <;> simp [Pc.entries]
    all_goals simp [Pc.entries]
  · rw [← Pc.entries_plain, h.plain_of_ne hj, Pc.entries_plain]
    exact hs.order j

/-- Line 219 on the entry of `e` asks whether its divisor divides the frame number. -/
theorem due (hs : Visiting e t d s) : s.data.due t = some (decide (d ∣ s.data.currentFrameNo)) := by
  rw [VideoQueue.due, hs.divisor, if_neg hs.nonzero]
  congr 1
  rw [Bool.eq_iff_iff, beq_iff_eq, decide_eq_true_eq, Int.dvd_iff_tmod_eq_zero]

theorem dueNow_step (hs : Visiting e t d s) (hl : Locked s) (h : Step s i a (s.pc i) s') (j : Tid)
    (hat : (s'.pc j).atEntry e = true) : d ∣ s'.data.currentFrameNo := by
  by_cases hj : j = i
  · subst hj
    have hd := hs.dueNow j
    generalize hpc : s.pc j = p at h hd
    cases h
    case move p' hm =>
      simp only [goto_pc, Function.update_self] at hat
      cases hm <;> simp only [Pc.atEntry, beq_iff_eq, Bool.false_eq_true] at hat
      case distDue b t' n info rest hl' hdue =>
        subst hat
        rw [hs.entry, Option.some.injEq] at hl'
        rw [← hl', hs.due, Option.some.injEq] at hdue
        exact of_decide_eq_true hdue
    case lockInfo p' u hfree hm =>
      simp only [goto_pc, Function.update_self] at hat
      cases hm
      · cases hat
      · cases hat
      · exact hd hat
    case fail f hm => rw [fail_pc, hpc] at hat; exact hd hat
    case lockInput p' hfree hm => cases hm <;> simp [Pc.atEntry] at hat
    case lockThreadInfo p' hfree hm => cases hm <;> simp [Pc.atEntry] at hat
    all_goals simp [Pc.atEntry] at hat
  · rw [← Pc.atEntry_plain, h.plain_of_ne hj, Pc.atEntry_plain] at hat
    rw [h.frameNo_of_pass hl (j := j) ?_]
    · exact hs.dueNow j hat
    · intro he
      cases hp : s.pc j <;> rw [hp] at hat he <;> first | cases hat | cases he

/-- The registration of `e` stays where its entry does, and nobody registers its `ThreadInfo` again. -/
theorem step (hs : Visiting e t d s) (hl : Locked s) (hc : Coherent s) (h : Step s i a (s.pc i) s')
    (hentry : AList.lookup e s'.data.threadInfo = some t)
    (hown : ∀ n, s.pc i = .insertInfo n t → AList.lookup n s.data.threadInfo ≠ none) : Visiting e t d s' where
  entry := hentry
  divisor := by
    rcases h.infos_cases (hc.infoFresh e t hs.entry) with he | ⟨n, hpc, hn, -⟩ | ⟨n, -, -, he⟩
    · rw [he]
      exact hs.divisor
    · exact absurd hn (hown n hpc)
    · rw [he]
      exact hs.divisor
  nonzero := hs.nonzero
  order := hs.order_step h
  dueNow := hs.dueNow_step hl h

theorem pending_iterate {b : BufferRef} {t' : Int} {order : List (Name × InfoId)} (hs : Visiting e t d s)
    (hfree : s.threadInfoMutex = none) (ho : UnorderedMap.IterationOrder s.data.threadInfo order) :
    PendingStep e d s (((s.setThreadInfo (some i)).note (.passed b s.data.currentFrameNo)).goto i
      (.distVisit b t' none order)) i [.passed b s.data.currentFrameNo] := by
  have hmem : e ∈ order.map Prod.fst := List.mem_map.mpr ⟨(e, t), (ho.mem e t).mpr hs.entry, rfl⟩
  have hp : s.pendingOf e d = [] := by rw [pendingOf, hfree, atHolder_none]
  refine .select (b := b) hp rfl ?_ rfl
  have hsel := selected_passed d [] b s.data.currentFrameNo
  rw [List.nil_append] at hsel
  rw [hsel]
  simp [pendingOf, Pc.pending, Pc.entries, Pc.frame, hmem, selected, passesOf]

/-- Lines 224 to 239 at the entry of `e` queue the frame. -/
theorem pending_copy {b : BufferRef} {t' : Int} {info : InfoId} {rest : List (Name × InfoId)} {v : VideoQueue}
    (hs : Visiting e t d s) (hl : Locked s) (hc : Coherent s) (hpc : s.pc i = .distCopy b t' e info rest)
    (hm : AList.lookup e s.data.threadInfo = some info) (hcp : s.data.copyTo b t' e = .done v ()) :
    PendingStep e d s ((((s.notifyAll info).setData v).setInfo info none).goto i
      (.distVisit b t' (some (e, info)) rest)) i [] := by
  obtain ⟨q, l, ho, hq⟩ := queue_of_entry hl hc (by rw [hpc]; rfl) (by rw [hpc]; rfl) (by rw [hpc]; rfl)
    (UnorderedMap.mem_of_lookup hm)
  rcases VideoQueue.copyTo_done hcp with ⟨hn, -⟩ | ⟨q', l', ho', hq', rfl⟩
  · rw [ho] at hn; cases hn
  rw [ho, Option.some.injEq] at ho'
  subst ho'
  rw [hq, Option.some.injEq] at hq'
  subst hq'
  have hv := (hs.order i).1
  rw [hpc] at hv
  have hrest : e ∉ rest.map Prod.fst := (List.nodup_cons.mp hv).1
  have hdue := hs.dueNow i (by simp [hpc, Pc.atEntry])
  have hp : s.pendingOf e d = [b] := by
    rw [pendingOf_holder hl (i := i) (by rw [hpc]; rfl), hpc]
    simp [Pc.pending, Pc.entries, Pc.frame, hdue]
  have hmutex : s.threadInfoMutex = some i := (hl.threadInfo i).mpr (by simp [hpc, Pc.holdsThreadInfo])
  have hp' : ((((s.notifyAll info).setData (s.data.copied b t' q l)).setInfo info none).goto i
      (.distVisit b t' (some (e, info)) rest)).pendingOf e d = [] := by
    simp [pendingOf, hmutex, Pc.pending, Pc.entries, hrest]
  have hq1 : s.data.queued e = l := queued_of_lookup ho hq
  have hq2 : (s.data.copied b t' q l).queued e = l ++ [⟨s.data.nextAddr, b.val.copyAt t'⟩] :=
    queued_of_lookup ho (by simp [VideoQueue.copied])
  refine .copy (t := t') hp rfl hp' ?_
  rw [hq1]
  exact hq2

/-- **What a step does to the pending frame** of a registered event. -/
theorem pending_step {evs : List Event} (hs : Visiting e t d s) (hl : Locked s) (hc : Coherent s)
    (h : Step s i a (s.pc i) s') (hlog : s'.log = s.log ++ evs) : PendingStep e d s s' i evs := by
  have h0 := h
  generalize hpc : s.pc i = p at h
  cases h
  case distIterate b t' order hfree ho =>
    rw [List.append_cancel_left hlog.symm]
    exact hs.pending_iterate hfree ho
  case distCopy b t' name info rest v hm hcp =>
    by_cases hn : name = e
    · subst hn
      rw [List.self_eq_append_right.mp hlog]
      exact hs.pending_copy hl hc hpc hm hcp
    · have hmutex : s.threadInfoMutex = some i := (hl.threadInfo i).mpr (by simp [hpc, Pc.holdsThreadInfo])
      rw [List.self_eq_append_right.mp hlog]
      exact .stay (pendingOf_same_holder hmutex hmutex (VideoQueue.copyTo_extends hcp).currentFrameNo hpc
        (Function.update_self ..) fun due _ => Pc.pending_cons (Ne.symm hn) due rfl rfl) rfl (by simp [hpc, hn])
  case move p' hm =>
    rw [List.self_eq_append_right.mp hlog]
    refine .stay ?_ rfl fun _ _ _ _ _ => rfl
    have hmutex : p.holdsThreadInfo = true → s.threadInfoMutex = some i := by
      intro hp
      exact (hl.threadInfo i).mpr (by simpa only [hpc] using hp)
    cases hm
    case distErased b t' left n info rest hne =>
      -- an entry that is gone is not the one of `e`
      have hn : e ≠ n := by
        rintro rfl
        have hv := (hs.order i).2 info (by rw [hpc]; exact List.mem_cons_self ..)
        exact hne (hv ▸ hs.entry)
      exact pendingOf_same_holder (hmutex rfl) (hmutex rfl) rfl hpc (Function.update_self ..)
        fun due _ => Pc.pending_cons hn due rfl rfl
    case distReach b t' left n info rest hk =>
      exact pendingOf_same_holder (hmutex rfl) (hmutex rfl) rfl hpc (Function.update_self ..) fun due _ => rfl
    case distSkip b t' n info rest hk hd =>
      refine pendingOf_same_holder (hmutex rfl) (hmutex rfl) rfl hpc (Function.update_self ..)
        fun due hdue => ?_
      by_cases hn : e = n
      · -- the entry of `e` is skipped because the frame is not selected
        subst hn
        rw [hs.entry, Option.some.injEq] at hk
        rw [← hk, hs.due, Option.some.injEq, ← hdue] at hd
        simp [Pc.pending, hd]
      · exact Pc.pending_cons hn due rfl rfl
    case distDue b t' n info rest hk hd =>
      exact pendingOf_same_holder (hmutex rfl) (hmutex rfl) rfl hpc (Function.update_self ..)
        fun due _ => rfl
    all_goals exact h0.pending_same hl e d (by rw [hpc]; rfl) (by simp [Pc.entries])
  case lockInfo p' u hfree hm =>
    rw [List.self_eq_append_right.mp hlog]
    refine .stay ?_ rfl fun _ _ _ _ _ => rfl
    cases hm
    case dist b t' n rest hk =>
      have hmutex : s.threadInfoMutex = some i := (hl.threadInfo i).mpr (by simp [hpc, Pc.holdsThreadInfo])
      exact pendingOf_same_holder hmutex hmutex rfl hpc (Function.update_self ..) fun due _ => rfl
    all_goals exact h0.pending_same hl e d (by rw [hpc]; rfl) (by simp [Pc.entries])
  case lockInput p' hfree hm =>
    rw [List.self_eq_append_right.mp hlog]
    exact h0.pending_outside hl e d (by cases hm <;> rw [hpc] <;> rfl) (by cases hm <;> simp [Pc.entries]) rfl
  case lockThreadInfo p' hfree hm =>
    rw [List.self_eq_append_right.mp hlog]
    exact h0.pending_outside hl e d (by cases hm <;> rw [hpc] <;> rfl) (by cases hm <;> simp [Pc.entries]) rfl
  case fail g hm =>
    rw [List.self_eq_append_right.mp hlog]
    exact .stay rfl rfl fun _ _ _ _ _ => rfl
  case distEnd b t' =>
    rw [List.self_eq_append_right.mp hlog]
    exact h0.pending_outside hl e d (by rw [hpc]; rfl) (by simp [Pc.entries]) rfl
  all_goals
    refine h0.pending_outside hl e d (by rw [hpc]; rfl) (by simp [Pc.entries]) ?_
    first
    | rw [List.self_eq_append_right.mp hlog]; rfl
    | rw [List.append_cancel_left hlog.symm]; rfl

end Visiting

end State

end RpiCam
