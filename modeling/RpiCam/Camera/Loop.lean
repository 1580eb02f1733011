import RpiCam.Camera.Buffers

/-!
# What the camera loop makes of the device

The results about every run of the camera thread, whatever the device answers and fills.

* `Sound`, `reach_sound` : the invariants together;
* `one_place` : after `init` every buffer is in exactly one place, and none is where `init` failed;
* `frames_exact` : the frames are what the device filled, in order, each once and whole;
* `copy_safe` : line 195 copies from a buffer that is mapped as far as it copies and not the device's, and fails only
  where `mmap` did;
* `dry` : after a failed `init`, or when every buffer was refused, no frame comes any more.
-/

namespace RpiCam

open Transition

namespace Camera

variable {c c' : Camera}

def Stamped (c : Camera) : Prop := ∀ f ∈ c.frames, f.metadata = c.metadata

theorem stamped_step (h : Stamped c) (hr : Rule c c') : Stamped c' := by
  cases hr
  case copy index n frame hpc hmeta hbuf =>
    intro f hf
    rcases List.mem_append.mp hf with hf | hf
    · exact h f hf
    · rw [List.mem_singleton.mp hf]
      exact hmeta
  all_goals exact h

structure Sound (c : Camera) : Prop where
  progress : Progress c
  placed : Placed c
  sized : Sized c
  exact : Exact c
  stamped : Stamped c
  crashed : ∀ i n, c.pc = .crashed i n → c.mapped i = none

theorem crashed_step (hs : Sound c) (hr : Rule c c') {i n : Nat} (hpc' : c'.pc = .crashed i n) :
    c'.mapped i = none := by
  cases hr
  case setUp fd count mapped p h hq hm =>
    obtain rfl : p = .crashed i n := hpc'
    rcases hq with hq | hq <;> cases hq
  case goes p hg =>
    obtain rfl : p = .crashed i n := hpc'
    generalize c.pc = q at hg
    cases hg
  case crash index m hpc hbad =>
    cases hpc'
    exact crash_unmapped hs.progress hs.placed hs.sized hpc hbad
  case write j bytes halive h hi hb => exact hs.crashed i n hpc'
  case finish j m halive h hi hn => exact hs.crashed i n hpc'
  all_goals cases hpc'

theorem sound_step (hs : Sound c) (hr : Rule c c') : Sound c' where
  progress := progress_step hs.progress hr
  placed := placed_step hs.progress hs.placed hr
  sized := sized_step hs.placed hs.sized hr
  exact := exact_step hs.placed hs.exact hr
  stamped := stamped_step hs.stamped hr
  crashed _ _ := crashed_step hs hr

theorem sound_start (m : VideoMeta) (memory : Nat → List UInt8) : Sound (start m memory) where
  progress := progress_start m memory
  placed := placed_start m memory
  sized := ⟨nofun, nofun, nofun⟩
  exact := exact_start m memory
  stamped := nofun
  crashed := nofun

def Starts (c : Camera) : Prop := ∃ m memory, c = start m memory

theorem reach_sound (h : Reach Starts step (fun _ _ => True) c) : Sound c := by
  refine h.invariant Sound ?_ ?_
  · rintro c ⟨m, memory, rfl⟩
    exact sound_start m memory
  · intro c a c' hs _ hst
    exact sound_step hs (step_rule hst)

/-! ## The results -/

/-- **Every buffer is in one place.** After `init` returned 0 each of the 8 buffers is exactly once the device's, the
thread's, refused or dropped; where `init` failed none is anywhere, and there are no others. -/
theorem one_place (h : Reach Starts step (fun _ _ => True) c) :
    (c.initRet = some 0 → ∀ i, i < nCamBuf → c.places.count i = 1) ∧
    (∀ r, c.initRet = some r → r ≠ 0 → c.places = []) ∧
    ∀ i, nCamBuf ≤ i → i ∉ c.places := by
  have hs := reach_sound h
  have hplaced : c.places.Perm (List.range c.tried) := hs.placed
  refine ⟨?_, ?_, ?_⟩
  · intro hret i hi
    rw [hplaced.count_eq, hs.progress.done hret]
    exact List.count_eq_one_of_mem List.nodup_range (List.mem_range.mpr hi)
  · intro r hret hr
    rw [hs.progress.failed r hret hr] at hplaced
    exact hplaced.eq_nil
  · intro i hi hmem
    exact absurd (hs.placed.lt hs.progress hmem) (Nat.not_lt.mpr hi)

/-- `init` and one frame. -/
def oneFrame : List CameraAct :=
  [.opened true, .ioctl true, .ioctl true, .ioctl true, .granted 8] ++ List.replicate 8 (.queried true) ++
    List.replicate 9 (.ioctl true) ++ [.write 0 [7, 8, 9], .finish 0 2, .selected 1, .ioctl true, .clock 5]

def oneFrameStart : Camera := start ⟨0, 640, 480⟩ fun _ => [0, 0, 0]

theorem one_place_frame : ∃ c, run step oneFrameStart oneFrame = some c ∧ c.initRet = some 0 ∧ c.pc.hand = [0] ∧
    c.places.count 0 = 1 :=
  ⟨_, rfl, rfl, rfl, (one_place (.of_run (.init ⟨_, _, rfl⟩) (rfl : run step oneFrameStart oneFrame = some _))).1 rfl 0
    (by decide)⟩

/-- **The frames are what the device filled.** The contents of the frames, of the buffer in the hand of the thread, of
the filled buffers and of those that were dropped unread are what the device has filled, in this order, each once and
whole. Something is dropped only where the stream was turned off, at the end. Each frame is described by the
configuration. -/
theorem frames_exact (h : Reach Starts step (fun _ _ => True) c) :
    c.frames.map (fun f => f.buffer) ++ c.inHand ++ c.buffers.delivered firstBytes ++ c.unread = c.filled ∧
    (c.unread ≠ [] → c.streaming = false ∧ c.pc = .returned 0) ∧
    ∀ f ∈ c.frames, f.metadata = c.metadata := by
  have hs := reach_sound h
  refine ⟨hs.exact.eq, ?_, hs.stamped⟩
  intro hu
  rcases hs.exact.quiet with hnil | hoff
  · exact absurd hnil hu
  · exact hoff

theorem frames_exact_frame : ∃ c, run step oneFrameStart oneFrame = some c ∧
    c.frames.map (fun f => f.buffer) = [[7, 8]] ∧
    c.frames.map (fun f => f.buffer) ++ c.inHand ++ c.buffers.delivered firstBytes ++ c.unread = c.filled :=
  ⟨_, rfl, rfl, (frames_exact (.of_run (.init ⟨_, _, rfl⟩)
    (rfl : run step oneFrameStart oneFrame = some _))).1⟩

/-- **The copy of a frame is safe.** When line 195 copies `n` bytes of the buffer `i`, the buffer is one of the 8, has
these bytes, and is mapped from end to end, if at all; the device will not write into it. It goes wrong only for a
buffer that `mmap` did not map, which `init` does not look at. -/
theorem copy_safe (h : Reach Starts step (fun _ _ => True) c) :
    (∀ i n, c.pc = .copy i n → i < nCamBuf ∧ n ≤ (c.buffers.memory i).length ∧
      (∀ length, c.mapped i = some length → n ≤ length ∧ length = (c.buffers.memory i).length) ∧
      (∀ bytes, c.step (.write i bytes) = none) ∧
      ∀ t, (∃ f, (c.copyFrame i n t).pc = .push i f) ↔ c.mapped i ≠ none) ∧
    ∀ i n, c.pc = .crashed i n → c.mapped i = none := by
  have hs := reach_sound h
  refine ⟨?_, hs.crashed⟩
  intro i n hpc
  have hhand : i ∈ c.pc.hand := by
    rw [hpc]
    exact List.mem_singleton_self i
  have hlt : i < nCamBuf :=
    hs.placed.lt hs.progress (List.mem_append_left _ (List.mem_append_left _ (List.mem_append_right _ hhand)))
  have hn := hs.sized.taken i n hpc
  have hmapped : ∀ length, c.mapped i = some length → n ≤ length ∧ length = (c.buffers.memory i).length := by
    intro length hm
    have hlength := hs.sized.mapped i length hm
    exact ⟨hlength ▸ hn, hlength.symm⟩
  refine ⟨hlt, hn, hmapped, ?_, ?_⟩
  · intro bytes
    have hi : i ∉ c.buffers.queued := fun hi => hs.placed.hand hhand (List.mem_append_left _ hi)
    simp only [step, hi, false_and, and_false, if_false]
  · intro t
    unfold copyFrame
    constructor
    · rintro ⟨f, hf⟩
      split_ifs at hf with hgood
      · obtain ⟨-, length, hm, -⟩ := hgood
        rw [Option.mem_def.mp hm]
        exact Option.some_ne_none length
      · cases hf
    · intro hm
      obtain ⟨length, hlength⟩ := Option.ne_none_iff_exists'.mp hm
      obtain ⟨hle, heq⟩ := hmapped length hlength
      rw [dif_pos ⟨hlt, length, hlength, hle, heq.le⟩]
      exact ⟨_, rfl⟩

theorem copy_safe_frame : ∃ c, run step oneFrameStart oneFrame.dropLast = some c ∧ c.pc = .copy 0 2 ∧
    c.mapped 0 = some 3 ∧ 2 ≤ 3 ∧ 3 = (c.buffers.memory 0).length :=
  ⟨_, rfl, rfl, rfl, ((copy_safe (.of_run (.init ⟨_, _, rfl⟩)
    (rfl : run step oneFrameStart oneFrame.dropLast = some _))).1 0 2 rfl).2.2.1 3 rfl⟩

/-! ## When no frame comes any more -/

/-- No buffer is the device's or the thread's, and `init` will queue none. -/
structure Dry (c : Camera) : Prop where
  started : started c.pc = true
  owned : c.buffers.owned = []
  hand : c.pc.hand = []

theorem Dry.queued (h : Dry c) (i : Nat) : i ∉ c.buffers.queued := by
  intro hi
  have ho : i ∈ c.buffers.owned := List.mem_append_left _ hi
  rw [h.owned] at ho
  cases ho

theorem dry_step (h : Dry c) (hr : Rule c c') : Dry c' ∧ c'.frames = c.frames ∧ c'.filled = c.filled := by
  have hset : setsUp c.pc ≠ true := by
    have := h.started
    intro hs
    cases hp : c.pc <;> rw [hp] at hs this <;> cases hs <;> cases this
  have hqueue : ∀ i, c.pc ≠ .queue i := by
    intro i hpc
    have := h.started
    rw [hpc] at this
    cases this
  have hnone : ∀ i, c.pc.hand ≠ [i] := by
    intro i hi
    have := h.hand
    rw [hi] at this
    cases this
  cases hr
  case setUp fd count mapped p hs hq hm => exact absurd hs hset
  case initFails count ret hs hret => exact absurd hs hset
  case initQueued i hpc hi hlt => exact absurd hpc (hqueue i)
  case lastQueued i hpc hi hge => exact absurd hpc (hqueue i)
  case initRefused i hpc hlt => exact absurd hpc (hqueue i)
  case lastRefused i hpc hge => exact absurd hpc (hqueue i)
  case streamOn hpc => exact ⟨⟨rfl, h.owned, rfl⟩, rfl, rfl⟩
  case goes p hg => exact ⟨⟨hg.started, h.owned, hg.hand.trans h.hand⟩, rfl, rfl⟩
  case take index n rest hpc hd =>
    have ho : index ∈ c.buffers.owned := List.mem_append_right _ (by rw [hd]; exact List.mem_cons_self)
    rw [h.owned] at ho
    cases ho
  case copy index n frame hpc hmeta hbuf => exact absurd (by rw [hpc]; rfl) (hnone index)
  case crash index n hpc hbad => exact absurd (by rw [hpc]; rfl) (hnone index)
  case requeued index hpc => exact absurd (by rw [hpc]; rfl) (hnone index)
  case requeueRefused index hpc => exact absurd (by rw [hpc]; rfl) (hnone index)
  case turnedOff hpc => exact ⟨⟨rfl, rfl, rfl⟩, rfl, rfl⟩
  case write i bytes halive hs hi hb => exact absurd hi (h.queued i)
  case finish i n halive hs hi hn => exact absurd hi (h.queued i)

theorem dry_run (h : Dry c) {as : List CameraAct} (hrun : run step c as = some c') :
    c'.frames = c.frames ∧ c'.filled = c.filled := by
  refine (run_invariant (fun d => Dry d ∧ d.frames = c.frames ∧ d.filled = c.filled) ?_ ⟨h, rfl, rfl⟩ hrun).2
  rintro d a d' ⟨hd, hfr, hfi⟩ hst
  obtain ⟨hd', hfr', hfi'⟩ := dry_step hd (step_rule hst)
  exact ⟨hd', hfr'.trans hfr, hfi'.trans hfi⟩

theorem Progress.started (h : Progress c) {r : Int} (hr : c.initRet = some r) : started c.pc = true := by
  have hreturned : c.initRet ≠ none := by rw [hr]; exact nofun
  have hsetUp : ¬ setsUp c.pc = true := fun hs => hreturned (h.setUp hs).2
  cases hp : c.pc with
  | queue i => exact absurd (h.queue i hp).2.2 hreturned
  | _ => simp_all [Camera.started]

/-- **A dry camera stays dry.** After an `init` that failed, which `main` does not look at, and after every buffer was
refused by `VIDIOC_QBUF`, the device fills nothing and no frame is made, however long the thread runs. -/
theorem dry (h : Reach Starts step (fun _ _ => True) c) {r : Int} (hr : c.initRet = some r)
    (hdry : r ≠ 0 ∨ c.lost.length = nCamBuf) {as : List CameraAct} (hrun : run step c as = some c') :
    c'.frames = c.frames ∧ c'.filled = c.filled := by
  have hs := reach_sound h
  have hstarted := hs.progress.started hr
  have hlen : c.places.length = c.tried := by rw [hs.placed.length_eq, List.length_range]
  have hle := hs.progress.le
  simp only [places, List.length_append] at hlen
  refine dry_run ⟨hstarted, ?_, ?_⟩ hrun <;>
    refine List.eq_nil_of_length_eq_zero ?_ <;>
    rcases hdry with h0 | hlost
  · rw [hs.progress.failed r hr h0] at hlen
    omega
  · omega
  · rw [hs.progress.failed r hr h0] at hlen
    omega
  · omega

/-- Every buffer is refused. -/
def refusedRun : List CameraAct :=
  [.opened true, .ioctl true, .ioctl true, .ioctl true, .granted 8] ++ List.replicate 8 (.queried true) ++
    List.replicate 8 (.ioctl false)

/-- The stream goes on, and nothing is there to take. -/
def dryRun : List CameraAct := [.ioctl true, .selected (-1), .ioctl false, .ioctl true]

theorem dry_refused :
    (∃ c c', run step oneFrameStart [.opened false] = some c ∧ c.initRet = some 1 ∧
      run step c [.ioctl false] = some c' ∧ c'.frames = c.frames) ∧
    ∃ c c', run step oneFrameStart refusedRun = some c ∧ c.initRet = some 0 ∧
      run step c dryRun = some c' ∧ c'.pc = .returned 0 ∧ c'.frames = c.frames ∧ c'.filled = c.filled := by
  constructor
  · refine ⟨_, _, rfl, rfl, rfl, ?_⟩
    exact (dry (.of_run (.init ⟨_, _, rfl⟩) (rfl : run step oneFrameStart [.opened false] = some _)) rfl
      (Or.inl (by decide)) (rfl : run step (oneFrameStart.initReturns 1) [.ioctl false] = some _)).1
  · obtain ⟨c, hc⟩ : ∃ c, run step oneFrameStart refusedRun = some c ∧ c.initRet = some 0 ∧ c.lost.length = 8 :=
      ⟨_, rfl, rfl, rfl⟩
    obtain ⟨c', hc'⟩ : ∃ c', run step oneFrameStart (refusedRun ++ dryRun) = some c' ∧ c'.pc = .returned 0 :=
      ⟨_, rfl, rfl⟩
    have hrun : run step c dryRun = some c' := by
      have happ := run_append step oneFrameStart refusedRun dryRun
      rwa [hc.1, Option.bind_some, hc'.1, eq_comm] at happ
    exact ⟨c, c', hc.1, hc.2.1, hrun, hc'.2,
      dry (.of_run (.init ⟨_, _, rfl⟩) hc.1) hc.2.1 (Or.inr hc.2.2) hrun⟩

end Camera

end RpiCam
