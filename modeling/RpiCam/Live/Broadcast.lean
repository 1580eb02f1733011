import RpiCam.Camera.EndToEnd
import RpiCam.Live.Clock

/-!
# From the device to the multicast

One thread of GStreamer calls `play_need_data`, once for each frame it pops. A frame whose buffer is not allocated, not
mapped or not taken by the pipeline is dropped, and `frame_cnt` stays.

* `broadcast` : the buffers that are pushed, for the frames and how the calls on them go;
* `broadcast_eq` : a frame that is dropped leaves no trace;
* `live_broadcast` : so the multicast shows what the device filled, in order and each once at most, at even distances.
-/

namespace RpiCam

open Transition

def GstCalls.ok (g : GstCalls) : Bool := g.allocated && g.mapped && g.pushed

/-- The buffers that the calls of `play_need_data` push, from `frame_cnt`. -/
def broadcast (frameCnt : Int) : List (BufferRef × GstCalls) → List GstBuffer
  | [] => []
  | (b, g) :: calls =>
    let r := playNeedData frameCnt g (some b)
    r.2.toList ++ broadcast r.1 calls

theorem playNeedData_of_ok (frameCnt : Int) {g : GstCalls} (b : BufferRef) (h : g.ok = true) :
    playNeedData frameCnt g (some b) = (wrapInt (frameCnt + 1), some (stamped frameCnt b)) := by
  simp only [GstCalls.ok, Bool.and_eq_true] at h
  simp [playNeedData, h]

theorem playNeedData_of_not_ok (frameCnt : Int) {g : GstCalls} (b : BufferRef) (h : g.ok = false) :
    playNeedData frameCnt g (some b) = (frameCnt, none) := by
  have hdrop : (!g.allocated || !g.mapped || !g.pushed) = true := by
    rw [GstCalls.ok] at h
    rw [← Bool.not_and, ← Bool.not_and, h]
    rfl
  rw [playNeedData, if_pos hdrop]

/-- The frames that are not dropped. -/
def kept (calls : List (BufferRef × GstCalls)) : List BufferRef := (calls.filter fun x => x.2.ok).map Prod.fst

/-- **A dropped frame leaves no trace.** The buffers are those of a stream of the frames that are kept. -/
theorem broadcast_eq (frameCnt : Int) (calls : List (BufferRef × GstCalls)) :
    broadcast frameCnt calls = playStream frameCnt (kept calls) := by
  induction calls generalizing frameCnt with
  | nil => rfl
  | cons x calls ih =>
    obtain ⟨b, g⟩ := x
    cases hg : g.ok with
    | true =>
      have hkept : kept ((b, g) :: calls) = b :: kept calls := by simp [kept, hg]
      rw [broadcast, playNeedData_of_ok frameCnt b hg, hkept, playStream_cons, ← ih]
      rfl
    | false =>
      have hkept : kept ((b, g) :: calls) = kept calls := by simp [kept, hg]
      rw [broadcast, playNeedData_of_not_ok frameCnt b hg, hkept, ← ih]
      rfl

theorem map_fst_zip_sublist {α β : Type} (as : List α) (bs : List β) : ((as.zip bs).map Prod.fst).Sublist as := by
  induction as generalizing bs with
  | nil => exact List.Sublist.refl _
  | cons a as ih =>
    cases bs with
    | nil => exact List.nil_sublist _
    | cons b bs => exact (ih bs).cons_cons a

theorem kept_zip_sublist (bs : List BufferRef) (calls : List GstCalls) : (kept (bs.zip calls)).Sublist bs :=
  (List.filter_sublist.map _).trans (map_fst_zip_sublist bs calls)

theorem stamped_data {b : BufferRef} (h : b.val.buffer.length < 2 ^ 32) (frameCnt : Int) :
    (stamped frameCnt b).data = b.val.buffer := by
  rw [stamped, ← b.val.size_eq, Nat.mod_eq_of_lt h, List.take_length]

theorem playStream_data {bs : List BufferRef} (h : ∀ b ∈ bs, b.val.buffer.length < 2 ^ 32) (frameCnt : Int) :
    (playStream frameCnt bs).map GstBuffer.data = bs.map fun b => b.val.buffer := by
  induction bs generalizing frameCnt with
  | nil => rfl
  | cons b bs ih =>
    rw [playStream_cons, List.map_cons, List.map_cons, stamped_data (h b List.mem_cons_self),
      ih fun c hc => h c (List.mem_cons_of_mem _ hc)]

namespace Capture

variable {s : Capture}

/-- One thread of GStreamer takes the frames of `live`. -/
def Streams (tid : Tid) (s : Capture) : CaptureAct → Prop
  | .queue i a => State.Consumes tid liveName s.queue (i, a)
  | _ => True

/-- What the consumer of a running event has got is from the device, in order and each once. -/
theorem popped_sublist {F : Int} (hF : 1 ≤ F) {tid : Tid} (h : Reach (Starts F) step (Streams tid) s) {t : InfoId}
    {f : Int} {post : List Event} (hr : State.FirstRegistered liveName t f post s.queue.log) :
    ((poppedOf liveName s.queue.log).map fun b => b.val.buffer).Sublist s.camera.filled := by
  have hqueue : Reach (· = .init F) State.step (State.Consumes tid liveName) s.queue :=
    reach_queue (State.Consumes tid liveName) (fun _ _ _ hok => hok) (fun q b => by simp [State.Consumes]) h
  have hdelivered := State.delivered_eq hF (State.reach_consumes hqueue).1 hr
  rw [List.append_assoc, List.map_append] at hdelivered
  have hpopped : (poppedOf liveName s.queue.log).map (fun b => b.val.payload) <+:
      (State.selected (F / f) post).map (fun b => b.val.payload) := ⟨_, hdelivered⟩
  have hselected : ((State.selected (F / f) post).map fun b => b.val.payload).Sublist
      ((passesOf s.queue.log).map fun p => p.1.val.payload) := by
    obtain ⟨pre, hlog, -⟩ := hr
    have hpasses : (passesOf post).Sublist (passesOf s.queue.log) := by
      rw [hlog]
      exact ((List.sublist_cons_self _ post).trans (List.sublist_append_right pre _)).filterMap _
    rw [State.selected, List.map_map]
    exact (List.filter_sublist.trans hpasses).map _
  have hshown := (hpopped.sublist.trans hselected).trans (passes_shown h).sublist
  have hbytes := hshown.map fun p : Payload => p.2.1
  rw [List.map_map, List.map_map] at hbytes
  simpa [Function.comp_def, VideoBuffer.payload, shows] using hbytes

/-- **From the device to the multicast.** Whatever calls of GStreamer fail, what is multicast are the frames that were
popped and not dropped, whole; they are a part of what the device filled, in order and each once; and buffer `n` has the
stamp `n * frame_duration`, so a dropped frame leaves no gap. The sizes of frames are 32-bit numbers of the device. -/
theorem live_broadcast {F : Int} (hF : 1 ≤ F) {tid : Tid} (h : Reach (Starts F) step (Streams tid) s) {t : InfoId}
    {f : Int} {post : List Event} (hr : State.FirstRegistered liveName t f post s.queue.log)
    (hsize : ∀ bytes ∈ s.camera.filled, bytes.length < 2 ^ 32) (calls : List GstCalls) :
    (broadcast 0 ((poppedOf liveName s.queue.log).zip calls)).map GstBuffer.data =
        (kept ((poppedOf liveName s.queue.log).zip calls)).map (fun b => b.val.buffer) ∧
      ((broadcast 0 ((poppedOf liveName s.queue.log).zip calls)).map GstBuffer.data).Sublist s.camera.filled ∧
      ∀ n g, (broadcast 0 ((poppedOf liveName s.queue.log).zip calls))[n]? = some g → n < 2 ^ 31 →
        g.pts = n * frameDuration := by
  have hkept := (kept_zip_sublist (poppedOf liveName s.queue.log) calls).map fun b => b.val.buffer
  have hsub := hkept.trans (popped_sublist hF h hr)
  rw [broadcast_eq]
  have hbytes : ∀ b ∈ kept ((poppedOf liveName s.queue.log).zip calls), b.val.buffer.length < 2 ^ 32 :=
    fun b hb => hsize _ (hsub.subset (List.mem_map_of_mem hb))
  have hdata := playStream_data hbytes 0
  refine ⟨hdata, ?_, ?_⟩
  · rw [hdata]
    exact hsub
  · intro n g hg hn
    rw [(playStream_pts hg).2, timestamp_of_lt hn]

/-- `live` is registered, the camera makes a frame and pushes it, it is passed on, and thread `7` pops it. -/
def liveRun : List CaptureAct :=
  ([(6, .call (.insert liveName 30 true)), (6, .run), (6, .run), (6, .run)].map fun ia => .queue ia.1 ia.2) ++
    Camera.oneFrame.map .camera ++ [.call, .queue 8 .run, .queue 8 (.notify none), .returned] ++
    ([(0, .run), (0, .run), (0, .clock 5), (0, .iterate [(liveName, 0)])].map fun ia => .queue ia.1 ia.2) ++
    List.replicate 6 (.queue 0 .run) ++ .queue 7 (.call (.pop liveName)) :: List.replicate 10 (.queue 7 .run)

def streams (tid : Tid) (s : Capture) : CaptureAct → Bool
  | .queue i a => State.consumes tid liveName s.queue (i, a)
  | _ => true

theorem streams_sound (tid : Tid) (s : Capture) (a : CaptureAct) (h : streams tid s a = true) : Streams tid s a := by
  cases a with
  | queue i a => exact State.consumes_sound tid liveName _ _ h
  | _ => trivial

theorem live_broadcast_frame : ∃ s, run (checked (streams 7) step) captureStart liveRun = some s ∧
    (broadcast 0 ((poppedOf liveName s.queue.log).zip [⟨true, true, true⟩])).map GstBuffer.data = [[7, 8]] ∧
    ((broadcast 0 ((poppedOf liveName s.queue.log).zip [⟨true, true, true⟩])).map GstBuffer.data).Sublist
      s.camera.filled := by
  have hrun : run (checked (streams 7) step) captureStart liveRun = some _ := rfl
  have hreach : Reach (Starts (30 : Nat)) step (Streams 7) _ :=
    .of_checked (streams 7) (streams_sound 7) (.init ⟨_, _, rfl⟩) hrun
  exact ⟨_, hrun, rfl, (live_broadcast (by decide) hreach ⟨[], rfl, by simp⟩ (by decide) [⟨true, true, true⟩]).2.1⟩

end Capture

end RpiCam
