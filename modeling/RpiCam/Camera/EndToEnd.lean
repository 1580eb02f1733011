import Mathlib.Data.List.GetD
import RpiCam.Camera.Loop
import RpiCam.VideoQueue.Numbers

/-!
# From the device to the consumer

The camera thread together with the queue that it pushes into, and the other threads of the queue.

* `Capture` : both, where line 234 calls `push` and goes on when it returns;
* `Handed` : the pushed frames are the frames of the camera, but for the one whose `push` is under way;
* `nothing_lost` : what the device filled is passed on, in the queue, or still on the way, in order;
* `end_to_end` : a consumer gets what the device filled since it was registered, in order, each once and whole, but for
  what its rate leaves out.
-/

namespace RpiCam

open Transition

/-! ## Numbered lists -/

/-- A part of a list is what its numbers name. -/
theorem slice_eq_range' {α β : Type} {g : α → β} {before part : List β} {l : List α} (a : α)
    (h : before ++ part <+: l.map g) :
    part = (List.range' before.length part.length).map fun k => g (l.getD k a) := by
  have hlen := h.length_le
  rw [List.length_append, List.length_map] at hlen
  apply List.ext_getElem
  · rw [List.length_map, List.length_range']
  · intro k hk _
    have hlt : before.length + k < (before ++ part).length := by
      rw [List.length_append]
      omega
    have hget := h.getElem hlt
    rw [List.getElem_append_right (Nat.le_add_right ..), List.getElem_map] at hget
    rw [List.getElem_map, List.getElem_range', Nat.one_mul, List.getD_eq_getElem _ _ (by omega), ← hget]
    congr 1
    omega

theorem pick_numbered {β γ δ : Type} {l : List (β × γ)} {r : List Nat} {h : β → δ} {c : Nat → δ} {g : Nat → γ}
    {q : γ → Bool} (hfst : l.map (fun x => h x.1) = r.map c) (hsnd : l.map Prod.snd = r.map g) :
    (l.filter fun x => q x.2).map (fun x => h x.1) = (r.filter fun k => q (g k)).map c := by
  have hpairs : l.map (fun x => (h x.1, x.2)) = r.map fun k => (c k, g k) := by
    rw [← List.zip_map', ← List.zip_map', hfst]
    exact congrArg _ hsnd
  have hfilter := congrArg (fun m => (m.filter fun y => q y.2).map Prod.fst) hpairs
  simp only [List.filter_map, List.map_map] at hfilter
  exact hfilter

/-! ## Calls of `push` -/

/-- The frame of the `push` that the thread is in. -/
def Pc.inPush : Pc → Option BufferRef
  | pushLock b | pushInput b => some b
  | _ => none

theorem Pc.inPush_plain (p : Pc) : p.plain.inPush = p.inPush := by cases p <;> rfl

namespace State

theorem Moves.inPush {s : State} {a : Act} {p p' : Pc} (h : Moves s a p p') : p.inPush = none ∧ p'.inPush = none := by
  cases h <;> exact ⟨rfl, rfl⟩

theorem Step.inPush_of_ne {s s' : State} {i : Tid} {a : Act} (h : Step s i a (s.pc i) s') {j : Tid} (hj : j ≠ i) :
    (s'.pc j).inPush = (s.pc j).inPush := by
  rw [← Pc.inPush_plain, h.plain_of_ne hj, Pc.inPush_plain]

/-- A thread begins a `push`, ends it, or is as before. -/
theorem Step.inPush_cases {s s' : State} {i : Tid} {a : Act} (h : Step s i a (s.pc i) s') :
    ((s'.pc i).inPush = (s.pc i).inPush ∧ pushesOf s'.log = pushesOf s.log) ∨
    (∃ b, a = .call (.push b) ∧ (s'.pc i).inPush = some ⟨s.data.nextAddr, b⟩ ∧ pushesOf s'.log = pushesOf s.log) ∨
    (∃ b, (s.pc i).inPush = some b ∧ (s'.pc i).inPush = none ∧ pushesOf s'.log = pushesOf s.log ++ [b]) := by
  generalize hpc : s.pc i = p at h ⊢
  cases h
  case callPush b => exact Or.inr (Or.inl ⟨b, rfl, by simp [Pc.inPush], rfl⟩)
  case pushInput b waiter hn => exact Or.inr (Or.inr ⟨b, rfl, by simp [Pc.inPush], by simp [pushesOf]⟩)
  case move p' hm =>
    left
    rw [goto_pc, Function.update_self, hm.inPush.1, hm.inPush.2]
    exact ⟨rfl, rfl⟩
  case lockInput p' hfree hm => cases hm <;> exact Or.inl ⟨by simp [Pc.inPush], rfl⟩
  case lockThreadInfo p' hfree hm => cases hm <;> exact Or.inl ⟨by simp [Pc.inPush], rfl⟩
  case lockInfo p' info hfree hm => cases hm <;> exact Or.inl ⟨by simp [Pc.inPush], rfl⟩
  case fail f hm => exact Or.inl ⟨by rw [fail_pc, hpc], rfl⟩
  all_goals exact Or.inl ⟨by simp [Pc.inPush], by simp [pushesOf]⟩

theorem push_called {s s' : State} {i : Tid} {b : VideoBuffer} (h : step s (i, .call (.push b)) = some s') :
    (s'.pc i).inPush = some ⟨s.data.nextAddr, b⟩ ∧ s'.log = s.log := by
  have hstep := step_sound h
  rw [idle_of_call h] at hstep
  cases hstep with
  | callPush => exact ⟨by simp [Pc.inPush], rfl⟩
  | move hm => cases hm
  | lockInput hm => cases hm
  | lockThreadInfo hm => cases hm
  | lockInfo hm => cases hm
  | fail hm => cases hm

end State

/-! ## The frame at line 234 -/

/-- The frame that the thread of the camera is about to push, or is pushing. -/
def CameraPc.frame : CameraPc → Option VideoBuffer
  | push _ frame => some frame
  | _ => none

namespace Camera

theorem setsUp_frame {p : CameraPc} (h : setsUp p = true) : p.frame = none := by
  cases p <;> first | rfl | cases h

theorem Goes.frame {p q : CameraPc} (h : Goes p q) : q.frame = none := by cases h <;> rfl

/-- While line 234 runs only the device goes on. -/
theorem step_at_push {c c' : Camera} {a : CameraAct} {frame : VideoBuffer} (hpc : c.pc.frame = some frame)
    (ha : a ≠ .pushed) (h : c.step a = some c') : c'.frames = c.frames ∧ c'.pc = c.pc := by
  cases hp : c.pc <;> rw [hp] at hpc <;> simp only [CameraPc.frame, reduceCtorEq] at hpc
  cases a <;> simp only [step, hp, stepThread, reduceCtorEq] at h
  case write i bytes =>
    split_ifs at h
    cases h
    exact ⟨rfl, rfl⟩
  case finish i n =>
    split_ifs at h
    cases h
    exact ⟨rfl, rfl⟩
  case pushed => exact absurd rfl ha

theorem Rule.frame_cases {c c' : Camera} (h : Rule c c') (hpc : c.pc.frame = none) :
    (c'.frames = c.frames ∧ c'.pc.frame = none) ∨ ∃ f, c'.pc.frame = some f ∧ c'.frames = c.frames ++ [f] := by
  cases h
  case setUp fd count mapped p hs hq hm =>
    left
    rcases hq with hq | rfl
    · exact ⟨rfl, setsUp_frame hq⟩
    · exact ⟨rfl, rfl⟩
  case goes p hg =>
    exact Or.inl ⟨rfl, hg.frame⟩
  case copy index n frame hc hmeta hbuf => exact Or.inr ⟨frame, rfl, rfl⟩
  case write i bytes halive hs hi hb => exact Or.inl ⟨rfl, hpc⟩
  case finish i n halive hs hi hn => exact Or.inl ⟨rfl, hpc⟩
  all_goals exact Or.inl ⟨rfl, rfl⟩

theorem step_pushed {c c' : Camera} (h : c.step .pushed = some c') : c'.frames = c.frames ∧ c'.pc.frame = none := by
  simp only [step] at h
  cases hp : c.pc <;> rw [hp] at h <;> cases h
  exact ⟨rfl, rfl⟩

end Camera

/-! ## The system -/

/-- The thread of the camera. -/
def cameraTid : Tid := 8

/-- The camera and the queue. `calling`: line 234 has called `push`, and goes on when it has returned. -/
structure Capture where
  camera : Camera
  queue : State
  calling : Bool

/-- A step of the camera thread or of the device, line 234 calls, another thread of the queue goes on or the called
`push` does, or line 234 gets back. -/
inductive CaptureAct
  | camera (a : CameraAct)
  | call
  | queue (i : Tid) (a : Act)
  | returned
  deriving DecidableEq

namespace Capture

def init (metadata : VideoMeta) (memory : Nat → List UInt8) (F : Int) : Capture :=
  ⟨.start metadata memory, .init F, false⟩

/-- Only the camera thread pushes, and it is in the queue only while it calls. -/
def allowed (calling : Bool) (i : Tid) : Act → Bool
  | .call (.push _) => false
  | .call _ => i ≠ cameraTid
  | _ => i ≠ cameraTid ∨ calling

variable (s : Capture)

/-- Line 234. -/
def callPush : CameraPc → Option Capture
  | .push _ frame =>
    if s.calling then none
    else (s.queue.step (cameraTid, .call (.push frame))).map fun queue => { s with queue, calling := true }
  | _ => none

def stepAlive : CaptureAct → Option Capture
  | .camera a => if a = .pushed then none else (s.camera.step a).map fun camera => { s with camera }
  | .call => s.callPush s.camera.pc
  | .queue i a => if allowed s.calling i a then (s.queue.step (i, a)).map fun queue => { s with queue } else none
  | .returned =>
    if s.calling ∧ s.queue.pc cameraTid = .idle then
      (s.camera.step .pushed).map fun camera => { s with camera, calling := false }
    else none

/-- A process that has crashed is gone. -/
def step (s : Capture) (a : CaptureAct) : Option Capture :=
  if s.queue.fault = none ∧ s.camera.alive then s.stepAlive a else none

variable {s}

inductive Rule (s : Capture) : CaptureAct → Capture → Prop
  | camera {a c'} : a ≠ .pushed → s.camera.step a = some c' → Rule s (.camera a) { s with camera := c' }
  | call {index frame q'} : s.camera.pc = .push index frame → s.calling = false →
      s.queue.step (cameraTid, .call (.push frame)) = some q' → Rule s .call { s with queue := q', calling := true }
  | queue {i a q'} : (∀ b, a ≠ .call (.push b)) → s.queue.step (i, a) = some q' →
      Rule s (.queue i a) { s with queue := q' }
  | returned {c'} : s.calling = true → s.queue.pc cameraTid = .idle → s.camera.step .pushed = some c' →
      Rule s .returned { s with camera := c', calling := false }

theorem callPush_rule {s' : Capture} {p : CameraPc} (hpc : s.camera.pc = p) (h : s.callPush p = some s') :
    Rule s .call s' := by
  cases p <;> simp only [callPush, reduceCtorEq] at h
  case push index frame =>
    split_ifs at h with hcalling
    obtain ⟨q', hq, rfl⟩ := Option.map_eq_some_iff.mp h
    exact .call hpc (Bool.eq_false_of_not_eq_true hcalling) hq

theorem step_rule {s' : Capture} {a : CaptureAct} (h : s.step a = some s') : Rule s a s' := by
  unfold step at h
  rw [Option.ite_none_right_eq_some] at h
  obtain ⟨-, h⟩ := h
  cases a <;> simp only [stepAlive] at h
  case camera a =>
    split_ifs at h with ha
    obtain ⟨c', hc, rfl⟩ := Option.map_eq_some_iff.mp h
    exact .camera ha hc
  case call => exact callPush_rule rfl h
  case queue i a =>
    split_ifs at h with hallowed
    obtain ⟨q', hq, rfl⟩ := Option.map_eq_some_iff.mp h
    refine .queue ?_ hq
    rintro b rfl
    cases hallowed
  case returned =>
    split_ifs at h with hback
    obtain ⟨c', hc, rfl⟩ := Option.map_eq_some_iff.mp h
    exact .returned hback.1 hback.2 hc

/-! ## The hand-over -/

/-- The frame that line 234 has not handed over yet. -/
def underway (s : Capture) : List VideoBuffer :=
  match s.camera.pc.frame with
  | some frame => if s.calling then ((s.queue.pc cameraTid).inPush.map fun b => b.val).toList else [frame]
  | none => []

/-- What was pushed are the frames of the camera, but for the one that is under way. -/
structure Handed (s : Capture) : Prop where
  others : ∀ j, j ≠ cameraTid → (s.queue.pc j).inPush = none
  own : (s.queue.pc cameraTid).inPush ≠ none → s.calling = true
  calling : s.calling = true → s.camera.pc.frame ≠ none
  frames : (pushesOf s.queue.log).map (fun b => b.val) ++ s.underway = s.camera.frames

theorem Handed.idle (h : Handed s) (hf : s.camera.pc.frame = none) : s.calling = false ∧ s.underway = [] := by
  refine ⟨?_, ?_⟩
  · cases hc : s.calling with
    | false => rfl
    | true => exact absurd hf (h.calling hc)
  · unfold underway
    rw [hf]

theorem handed_camera (h : Handed s) {a : CameraAct} {c' : Camera} (ha : a ≠ .pushed)
    (hst : s.camera.step a = some c') : Handed { s with camera := c' } := by
  cases hf : s.camera.pc.frame with
  | some frame =>
    obtain ⟨hfr, hpc⟩ := Camera.step_at_push hf ha hst
    refine ⟨h.others, h.own, ?_, ?_⟩
    · intro hc
      rw [hpc]
      exact h.calling hc
    · have hu : Capture.underway { s with camera := c' } = s.underway := by
        unfold underway
        rw [hpc]
      rw [hu, hfr]
      exact h.frames
  | none =>
    obtain ⟨hcalling, hu⟩ := h.idle hf
    have hfr := h.frames
    rw [hu, List.append_nil] at hfr
    rcases (Camera.step_rule hst).frame_cases hf with ⟨hsame, hf'⟩ | ⟨f, hf', hnew⟩
    · refine ⟨h.others, h.own, ?_, ?_⟩
      · intro hc
        exact absurd hf (h.calling hc)
      · unfold underway
        rw [hf', List.append_nil, hsame]
        exact hfr
    · refine ⟨h.others, h.own, ?_, ?_⟩
      · intro hc
        exact absurd hf (h.calling hc)
      · unfold underway
        rw [hf', hcalling, hnew, hfr]
        rfl

theorem handed_call (h : Handed s) {index : Nat} {frame : VideoBuffer} {q' : State}
    (hpc : s.camera.pc = .push index frame) (hcalling : s.calling = false)
    (hst : s.queue.step (cameraTid, .call (.push frame)) = some q') :
    Handed { s with queue := q', calling := true } := by
  have hstep := State.step_sound hst
  have hidle := State.idle_of_call hst
  have hf : s.camera.pc.frame = some frame := by
    rw [hpc]
    rfl
  refine ⟨?_, fun _ => rfl, ?_, ?_⟩
  · intro j hj
    rw [hstep.inPush_of_ne hj]
    exact h.others j hj
  · intro _
    rw [hf]
    nofun
  · have hfr := h.frames
    unfold underway at hfr ⊢
    rw [hf] at hfr ⊢
    rw [hcalling] at hfr
    obtain ⟨hin, hlog⟩ := State.push_called hst
    simp only [hin, hlog]
    exact hfr

theorem handed_queue (h : Handed s) {i : Tid} {a : Act} {q' : State} (ha : ∀ b, a ≠ .call (.push b))
    (hst : s.queue.step (i, a) = some q') : Handed { s with queue := q' } := by
  have hstep := State.step_sound hst
  have hfr := h.frames
  rcases hstep.inPush_cases with ⟨hin, hlog⟩ | ⟨b, hb, -⟩ | ⟨b, hin, hin', hlog⟩
  · -- nothing is pushed
    have hall : ∀ j, (q'.pc j).inPush = (s.queue.pc j).inPush := by
      intro j
      by_cases hj : j = i
      · rw [hj, hin]
      · exact hstep.inPush_of_ne hj
    refine ⟨?_, ?_, h.calling, ?_⟩
    · intro j hj
      rw [hall]
      exact h.others j hj
    · rw [hall]
      exact h.own
    · unfold underway at hfr ⊢
      simp only [hall, hlog]
      exact hfr
  · exact absurd hb (ha b)
  · -- the `push` of the camera ends
    have hi : i = cameraTid := by
      by_contra hne
      rw [h.others i hne] at hin
      cases hin
    subst hi
    have hcalling : s.calling = true := by
      apply h.own
      rw [hin]
      nofun
    obtain ⟨frame, hf⟩ := Option.ne_none_iff_exists'.mp (h.calling hcalling)
    refine ⟨?_, ?_, h.calling, ?_⟩
    · intro j hj
      rw [hstep.inPush_of_ne hj]
      exact h.others j hj
    · intro hne
      exact absurd hin' hne
    · unfold underway at hfr ⊢
      simp only [hf, hcalling, if_true, hin] at hfr
      simp only [hf, hcalling, if_true, hin', hlog, List.map_append, Option.map_none, Option.toList_none,
        List.append_nil]
      exact hfr

theorem handed_returned (h : Handed s) {c' : Camera} (hcalling : s.calling = true)
    (hpc : s.queue.pc cameraTid = .idle) (hst : s.camera.step .pushed = some c') :
    Handed { s with camera := c', calling := false } := by
  have hin : (s.queue.pc cameraTid).inPush = none := by
    rw [hpc]
    rfl
  obtain ⟨frame, hf⟩ := Option.ne_none_iff_exists'.mp (h.calling hcalling)
  obtain ⟨hsame, hf'⟩ := Camera.step_pushed hst
  have hfr := h.frames
  refine ⟨h.others, fun hne => absurd hin hne, nofun, ?_⟩
  unfold underway at hfr ⊢
  simp only [hf, hcalling, if_true, hin, Option.map_none, Option.toList_none, List.append_nil] at hfr
  simp only [hf', hsame, List.append_nil]
  exact hfr

theorem handed_step {s' : Capture} {a : CaptureAct} (h : Handed s) (hr : Rule s a s') : Handed s' := by
  cases hr with
  | camera ha hst => exact handed_camera h ha hst
  | call hpc hcalling hst => exact handed_call h hpc hcalling hst
  | queue ha hst => exact handed_queue h ha hst
  | returned hcalling hpc hst => exact handed_returned h hcalling hpc hst

theorem handed_init (m : VideoMeta) (memory : Nat → List UInt8) (F : Int) : Handed (init m memory F) where
  others j _ := by rcases State.init_pc F j with h | h <;> simp only [init, h] <;> rfl
  own h := absurd rfl h
  calling h := by cases h
  frames := rfl

/-! ## Runs -/

def Starts (F : Int) (s : Capture) : Prop := ∃ m memory, s = init m memory F

theorem reach_handed {F : Int} {ok : Capture → CaptureAct → Prop} (h : Reach (Starts F) step ok s) : Handed s := by
  refine h.invariant Handed ?_ ?_
  · rintro s ⟨m, memory, rfl⟩
    exact handed_init m memory F
  · intro s a s' hs _ hst
    exact handed_step hs (step_rule hst)

theorem reach_camera {F : Int} {ok : Capture → CaptureAct → Prop} (h : Reach (Starts F) step ok s) :
    Reach Camera.Starts Camera.step (fun _ _ => True) s.camera := by
  induction h with
  | init hs =>
    obtain ⟨m, memory, rfl⟩ := hs
    exact .init ⟨m, memory, rfl⟩
  | next a _ _ hst ih =>
    cases step_rule hst with
    | camera _ hc => exact .next _ ih trivial hc
    | call _ _ _ => exact ih
    | queue _ _ => exact ih
    | returned _ _ hc => exact .next _ ih trivial hc

theorem reach_queue {F : Int} {ok : Capture → CaptureAct → Prop} (okq : State → Tid × Act → Prop)
    (hqueue : ∀ s i a, ok s (.queue i a) → okq s.queue (i, a))
    (hpush : ∀ q b, okq q (cameraTid, .call (.push b))) (h : Reach (Starts F) step ok s) :
    Reach (· = .init F) State.step okq s.queue := by
  induction h with
  | init hs =>
    obtain ⟨m, memory, rfl⟩ := hs
    exact .init rfl
  | @next s s' a _ hok hst ih =>
    cases step_rule hst with
    | camera _ _ => exact ih
    | call _ _ hq => exact .next _ ih (hpush _ _) hq
    | queue _ hq => exact .next _ ih (hqueue s _ _ hok) hq
    | returned _ _ _ => exact ih

/-- **Nothing is lost on the way.** The contents of the frames that were passed on, of the one a distributor has taken,
of those in the queue and of the one that is being pushed, and then those that are still the camera's, are what the
device has filled, in this order. -/
theorem nothing_lost {F : Int} (h : Reach (Starts F) step (fun _ _ => True) s) :
    (passesOf s.queue.log).map (fun p => p.1.val.buffer) ++ s.queue.taken.map (fun b => b.val.buffer) ++
      s.queue.data.input.map (fun b => b.val.buffer) ++ s.underway.map (fun f => f.buffer) ++
      s.camera.inHand ++ s.camera.buffers.delivered firstBytes ++ s.camera.unread = s.camera.filled := by
  have hexact := (Camera.reach_sound (reach_camera h)).exact.eq
  have hpush : (passesOf s.queue.log).map Prod.fst ++ s.queue.taken ++ s.queue.data.input = pushesOf s.queue.log :=
    State.push_order (reach_queue (fun _ _ => True) (fun _ _ _ _ => trivial) (fun _ _ => trivial) h)
  have hframes := (reach_handed h).frames
  rw [← hpush] at hframes
  rw [← hframes] at hexact
  rw [← hexact]
  simp only [List.map_append, List.map_map]
  rfl

/-- The event is registered, the camera makes a frame and pushes it, and it is passed on. -/
def deliveringRun : List CaptureAct :=
  (State.waitingRun.take 4).map (fun ia => .queue ia.1 ia.2) ++ Camera.oneFrame.map .camera ++
    [.call, .queue 8 .run, .queue 8 (.notify none), .returned] ++
    State.passingRun.map (fun ia => .queue ia.1 ia.2)

def captureStart : Capture := init ⟨0, 640, 480⟩ (fun _ => [0, 0, 0]) (30 : Nat)

theorem nothing_lost_frame : ∃ s, run step captureStart deliveringRun = some s ∧
    (passesOf s.queue.log).map (fun p => p.1.val.buffer) = [[7, 8]] ∧
    (passesOf s.queue.log).map (fun p => p.1.val.buffer) ++ s.queue.taken.map (fun b => b.val.buffer) ++
      s.queue.data.input.map (fun b => b.val.buffer) ++ s.underway.map (fun f => f.buffer) ++
      s.camera.inHand ++ s.camera.buffers.delivered firstBytes ++ s.camera.unread = s.camera.filled :=
  ⟨_, rfl, rfl, nothing_lost (.of_run (.init ⟨_, _, rfl⟩) (rfl : run step captureStart deliveringRun = some _))⟩

/-- The discipline of the callers, for the event `e`. -/
def Delivers (e : Name) (s : Capture) : CaptureAct → Prop
  | .queue i a => State.Delivers e s.queue (i, a)
  | _ => True

/-- What a frame of these bytes has for a payload. -/
def shows (m : VideoMeta) (bytes : List UInt8) : Payload := (m, bytes, bytes.length)

theorem payload_eq_shows {m : VideoMeta} {f : VideoBuffer} (h : f.metadata = m) : f.payload = shows m f.buffer := by
  unfold VideoBuffer.payload shows
  rw [h, f.size_eq]

/-- The frames that were passed on show what the device filled first. -/
theorem passes_shown {F : Int} {ok : Capture → CaptureAct → Prop} (h : Reach (Starts F) step ok s) :
    (passesOf s.queue.log).map (fun p => p.1.val.payload) <+: s.camera.filled.map (shows s.camera.metadata) := by
  have hsound := Camera.reach_sound (reach_camera h)
  have hpush : (passesOf s.queue.log).map Prod.fst ++ s.queue.taken ++ s.queue.data.input = pushesOf s.queue.log :=
    State.push_order (reach_queue (fun _ _ => True) (fun _ _ _ _ => trivial) (fun _ _ => trivial) h)
  have hframes : s.camera.frames.map VideoBuffer.payload =
      (s.camera.frames.map fun f => f.buffer).map (shows s.camera.metadata) := by
    rw [List.map_map]
    exact List.map_congr_left fun f hf => payload_eq_shows (hsound.stamped f hf)
  have hpre : (s.camera.frames.map fun f => f.buffer) <+: s.camera.filled := by
    rw [← hsound.exact.eq, List.append_assoc, List.append_assoc]
    exact List.prefix_append ..
  refine List.IsPrefix.trans ?_ (hpre.map _)
  rw [← hframes, ← (reach_handed h).frames, ← hpush]
  simp only [List.map_append, List.map_map, List.append_assoc]
  exact List.prefix_append ..

/-- **From the device to the consumer.** The event `e` was registered, at the rate `f`, when `p` frames had been passed
on, and `n` were passed on since. Then what its consumer has got, what is in its queue and what is on its way to it are,
in this order, the contents number `p` to `p + n - 1` that the device filled, but for those that the rate leaves out. -/
theorem end_to_end {F : Nat} (hF : 1 ≤ F) {e : Name} (h : Reach (Starts F) step (Delivers e) s) {t : InfoId} {f : Int}
    {pre post : List Event} (hlog : s.queue.log = pre ++ .registered e t f true :: post)
    (hfirst : ∀ u g r, .registered e u g r ∉ pre) :
    (passesOf pre).length + (passesOf post).length ≤ s.camera.filled.length ∧
    (poppedOf e s.queue.log ++ s.queue.data.queued e ++ s.queue.pendingOf e (F / f)).map (fun b => b.val.payload) =
      ((List.range' (passesOf pre).length (passesOf post).length).filter fun k =>
        decide ((F / f : Int) ∣ frameNo F k)).map fun k =>
          shows s.camera.metadata (s.camera.filled.getD k []) := by
  have hqueue : Reach (· = .init F) State.step (State.Delivers e) s.queue :=
    reach_queue (State.Delivers e) (fun _ _ _ hok => hok) (fun q b => by simp [State.Delivers]) h
  have hpasses : passesOf s.queue.log = passesOf pre ++ passesOf post := by
    rw [hlog]
    simp [passesOf]
  have hnumbers : (passesOf post).map Prod.snd =
      (List.range' (passesOf pre).length (passesOf post).length).map (frameNo F) := by
    have hsplit : s.queue.log = pre ++ [.registered e t f true] ++ post ++ [] := by
      rw [hlog]
      simp
    have hwindow := (State.numbered hF hqueue).window hsplit
    simpa [passesOf] using hwindow
  have hshown := passes_shown h
  rw [hpasses, List.map_append] at hshown
  have hpayloads := slice_eq_range' [] hshown
  rw [List.length_map, List.length_map] at hpayloads
  rw [State.delivered_eq (by omega) hqueue ⟨pre, hlog, hfirst⟩, State.selected, List.map_map]
  refine ⟨?_, pick_numbered (h := fun b : BufferRef => b.val.payload) (q := fun n => decide ((F / f : Int) ∣ n))
    hpayloads hnumbers⟩
  have hlen := hshown.length_le
  rwa [List.length_append, List.length_map, List.length_map, List.length_map] at hlen

def delivers (s : Capture) : CaptureAct → Bool
  | .queue i a => State.registering s.queue (i, a)
  | _ => true

theorem delivers_sound (e : Name) (s : Capture) (a : CaptureAct) (h : delivers s a = true) : Delivers e s a := by
  cases a with
  | queue i a => exact State.delivers_of_registering e s.queue (i, a) h
  | _ => trivial

theorem end_to_end_frame : ∃ s, run (checked delivers step) captureStart deliveringRun = some s ∧
    (s.queue.data.queued ['c', 'a', 'm']).map (fun b => b.val.buffer) = [[7, 8]] ∧
    (poppedOf ['c', 'a', 'm'] s.queue.log ++ s.queue.data.queued ['c', 'a', 'm'] ++
      s.queue.pendingOf ['c', 'a', 'm'] ((30 : Nat) / 30)).map (fun b => b.val.payload) =
        ((List.range' 0 1).filter fun k => decide (((30 : Nat) / 30 : Int) ∣ frameNo 30 k)).map fun k =>
          shows s.camera.metadata (s.camera.filled.getD k []) :=
  ⟨_, rfl, rfl, (end_to_end (by decide) (.of_checked delivers (delivers_sound _) (.init ⟨_, _, rfl⟩)
    (rfl : run (checked delivers step) captureStart deliveringRun = some _))
    (rfl : _ = [] ++ Event.registered _ _ _ true :: _) (by simp)).2⟩

end Capture

end RpiCam
