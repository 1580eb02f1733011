import RpiCam.Http.Handler
import RpiCam.Video.Pipeline

/-!
# The clip of an event

`event_accept` has `process_video` join the segments of an event, answers, and starts a thread that sends the file to the
server half a second later.

* `ReachedEos` : the pipeline has come to the end of the stream;
* `Finished` : the clip of the event is there;
* `OnlyFinished` : the request is acknowledged with a finished clip only, and else refused;
* `onlyFinished_iff` : exactly where a pipeline that is started ends well, and nothing throws or waits.

`process_video` returns 0 after any message, and `get_video` looks at the path alone.
-/

namespace RpiCam.Http

open Video (BusMessage busLoop selected processVideo eventFile Readable)

/-! ## The end of the pipeline -/

/-- The bus has given the end of the stream, and no error before. -/
def ReachedEos (bus : List (Option BusMessage)) : Prop :=
  ∃ before after, bus = before ++ some .eos :: after ∧ some .error ∉ before

theorem ReachedEos.busLoop {bus : List (Option BusMessage)} (h : ReachedEos bus) : busLoop bus = true := by
  obtain ⟨before, after, rfl, -⟩ := h
  induction before with
  | nil => rfl
  | cons m before ih =>
    cases m with
    | none => exact ih
    | some m => rfl

/-- The clip of the event is there: its pipeline was started and has come to its end, and has left the file. `there`
tells the files after it. -/
def Finished (w : Surroundings) (event : EventInfo) (there : List Char → Bool) : Prop :=
  w.fileLock ≠ .kept ∧ ∃ concat, selected w.config event.timeStamp w.dir = .ok concat ∧ concat ≠ [] ∧
    w.gst.parses (Video.pipeline w.config event.id concat) = true ∧ w.gst.plays = true ∧ ReachedEos w.gst.bus ∧
    there (eventFile w.config event.id) = true

/-- A request is acknowledged, and its clip sent, with a finished clip only; else it gets an error, and nothing is sent. -/
structure OnlyFinished (w : Surroundings) (headers : List (List Char × List Char)) (there : List Char → Bool) : Prop where
  acknowledged : ∀ answer, eventAccept w headers = .ok answer → answer.reply.status = 200 ∨ answer.sent ≠ none →
    Finished w (eventInfo ⟨0, []⟩ headers) there
  refused : ¬ Finished w (eventInfo ⟨0, []⟩ headers) there →
    ∃ answer, eventAccept w headers = .ok answer ∧ 400 ≤ answer.reply.status ∧ answer.sent = none

/-- The header lacks the id or the time; or the lock is not kept, the directory can be read, and a pipeline that is started
comes to its end and leaves the file. -/
def EndsWell (w : Surroundings) (event : EventInfo) (there : List Char → Bool) : Prop :=
  event.id = [] ∨ event.timeStamp = 0 ∨
    (w.fileLock ≠ .kept ∧ Readable w.dir ∧
      ∀ concat, selected w.config event.timeStamp w.dir = .ok concat → concat ≠ [] →
        w.gst.parses (Video.pipeline w.config event.id concat) = true → w.gst.plays = true →
        ReachedEos w.gst.bus ∧ there (eventFile w.config event.id) = true)

/-! ## The request -/

variable {w : Surroundings} {headers : List (List Char × List Char)} {there : List Char → Bool}

/-- What `process_video` comes to for an event. -/
def clip (w : Surroundings) (event : EventInfo) : Video.Outcome :=
  (processVideo w.config w.fileLock event.timeStamp event.id w.dir w.gst).2

theorem eventAccept_eq (hid : (eventInfo ⟨0, []⟩ headers).id ≠ []) (htime : (eventInfo ⟨0, []⟩ headers).timeStamp ≠ 0) :
    eventAccept w headers =
      match clip w (eventInfo ⟨0, []⟩ headers) with
      | .blocked | .running => .error .waits
      | .threw _ => .error .threw
      | .returned ret =>
        if ret ≠ 0 then .ok ⟨⟨500, "Internal Server Error"⟩, none⟩
        else .ok ⟨⟨200, "success"⟩,
          some (eventFile w.config (eventInfo ⟨0, []⟩ headers).id, (eventInfo ⟨0, []⟩ headers).id)⟩ := by
  unfold eventAccept eventVideo clip
  dsimp only
  rw [if_neg hid, if_neg htime]
  generalize (processVideo w.config w.fileLock (eventInfo ⟨0, []⟩ headers).timeStamp (eventInfo ⟨0, []⟩ headers).id w.dir
    w.gst).2 = outcome
  cases outcome with
  | returned ret => simp only [Video.getVideo_eq, if_true]
  | _ => rfl

theorem returned_of_eventAccept (hid : (eventInfo ⟨0, []⟩ headers).id ≠ [])
    (htime : (eventInfo ⟨0, []⟩ headers).timeStamp ≠ 0) {answer : EventAnswer} (ha : eventAccept w headers = .ok answer) :
    ∃ ret, clip w (eventInfo ⟨0, []⟩ headers) = .returned ret := by
  rw [eventAccept_eq hid htime] at ha
  split at ha
  · cases ha
  · cases ha
  · cases ha
  · exact ⟨_, ‹_›⟩

variable {event : EventInfo}

theorem Finished.zero (h : Finished w event there) : clip w event = .returned 0 := by
  obtain ⟨hlock, concat, hsel, hne, hparses, hplays, heos, -⟩ := h
  exact (Video.processVideo_zero_iff ..).mpr ⟨hlock, concat, hsel, hne, hparses, hplays, heos.busLoop⟩

theorem EndsWell.returned (h : EndsWell w event there) (hid : event.id ≠ []) (htime : event.timeStamp ≠ 0) :
    ∃ ret, clip w event = .returned ret := by
  obtain ⟨hlock, hreadable, hend⟩ := (h.resolve_left hid).resolve_left htime
  apply (Video.processVideo_returned_iff ..).mpr
  refine ⟨hlock, hreadable, ?_⟩
  intro concat hsel hne hparses hplays
  exact (hend concat hsel hne hparses hplays).1.busLoop

theorem EndsWell.finished (h : EndsWell w event there) (hid : event.id ≠ []) (htime : event.timeStamp ≠ 0)
    (hzero : clip w event = .returned 0) : Finished w event there := by
  obtain ⟨hlock, -, hend⟩ := (h.resolve_left hid).resolve_left htime
  obtain ⟨-, concat, hsel, hne, hparses, hplays, -⟩ := (Video.processVideo_zero_iff ..).mp hzero
  exact ⟨hlock, concat, hsel, hne, hparses, hplays, hend concat hsel hne hparses hplays⟩

theorem onlyFinished_of_error {reply : Reply} (ha : eventAccept w headers = .ok ⟨reply, none⟩)
    (hstatus : 400 ≤ reply.status) : OnlyFinished w headers there := by
  constructor
  · intro answer ha' hor
    rw [ha] at ha'
    cases ha'
    obtain h200 | hsent := hor
    · dsimp only at h200
      omega
    · exact absurd rfl hsent
  · intro _
    exact ⟨_, ha, hstatus, rfl⟩

theorem onlyFinished_of_missing
    (h : (eventInfo ⟨0, []⟩ headers).id = [] ∨ (eventInfo ⟨0, []⟩ headers).timeStamp = 0) :
    OnlyFinished w headers there := by
  by_cases hid : (eventInfo ⟨0, []⟩ headers).id = []
  · have ha : eventAccept w headers = .ok ⟨⟨400, "id is emtpy"⟩, none⟩ := if_pos hid
    apply onlyFinished_of_error ha
    show 400 ≤ 400
    omega
  · have ha : eventAccept w headers = .ok ⟨⟨400, "time is empty"⟩, none⟩ := by
      unfold eventAccept
      dsimp only
      rw [if_neg hid, if_pos (h.resolve_left hid)]
    apply onlyFinished_of_error ha
    show 400 ≤ 400
    omega

/-- What `process_video` has to come to for a request that is acknowledged with a finished clip only. -/
theorem OnlyFinished.endsWell (h : OnlyFinished w headers there) (hid : (eventInfo ⟨0, []⟩ headers).id ≠ [])
    (htime : (eventInfo ⟨0, []⟩ headers).timeStamp ≠ 0) : EndsWell w (eventInfo ⟨0, []⟩ headers) there := by
  have hreturned : ∃ ret, clip w (eventInfo ⟨0, []⟩ headers) = .returned ret := by
    by_cases hf : Finished w (eventInfo ⟨0, []⟩ headers) there
    · exact ⟨0, hf.zero⟩
    · obtain ⟨answer, ha, -⟩ := h.refused hf
      exact returned_of_eventAccept hid htime ha
  obtain ⟨hlock, hreadable, hbus⟩ := (Video.processVideo_returned_iff ..).mp hreturned
  refine .inr (.inr ⟨hlock, hreadable, ?_⟩)
  intro concat hsel hne hparses hplays
  have hzero : clip w (eventInfo ⟨0, []⟩ headers) = .returned 0 := by
    apply (Video.processVideo_zero_iff ..).mpr
    exact ⟨hlock, concat, hsel, hne, hparses, hplays, hbus concat hsel hne hparses hplays⟩
  have hanswer := eventAccept_eq (w := w) hid htime
  rw [hzero] at hanswer
  obtain ⟨-, concat', -, -, -, -, heos, hthere⟩ := h.acknowledged _ hanswer (.inl rfl)
  exact ⟨heos, hthere⟩

/-- **The clip of an event**: a request is acknowledged with a finished clip only, exactly where it ends well. -/
theorem onlyFinished_iff (w : Surroundings) (headers : List (List Char × List Char)) (there : List Char → Bool) :
    OnlyFinished w headers there ↔ EndsWell w (eventInfo ⟨0, []⟩ headers) there := by
  by_cases hid : (eventInfo ⟨0, []⟩ headers).id = []
  · exact ⟨fun _ => .inl hid, fun _ => onlyFinished_of_missing (.inl hid)⟩
  by_cases htime : (eventInfo ⟨0, []⟩ headers).timeStamp = 0
  · exact ⟨fun _ => .inr (.inl htime), fun _ => onlyFinished_of_missing (.inr htime)⟩
  refine ⟨fun h => h.endsWell hid htime, fun h => ?_⟩
  obtain ⟨ret, hret⟩ := h.returned hid htime
  have hanswer := eventAccept_eq (w := w) hid htime
  rw [hret] at hanswer
  by_cases h0 : ret = 0
  · subst h0
    have hf := h.finished hid htime hret
    exact ⟨fun _ _ _ => hf, fun hn => absurd hf hn⟩
  · simp only [if_pos h0] at hanswer
    apply onlyFinished_of_error hanswer
    show 400 ≤ 500
    omega

/-- A directory with one segment, and a pipeline that fails: its first message is `ERROR`. -/
def failedClip : Surroundings where
  resources := ⟨true, true⟩
  config := Video.readmeConfig
  fileLock := .free
  dir := [.entry "100.mp4".toList true]
  gst := ⟨fun _ => true, true, [none, some .error]⟩

/-- **An event that is acknowledged without a clip**: the pipeline has failed, the answer is 200, and a file that is not
there is sent. -/
theorem failed_clip : ∃ headers, ¬ OnlyFinished failedClip headers fun _ => false := by
  refine ⟨[("transactionid".toList, "a".toList), ("eventtime".toList, "100".toList)], fun h => ?_⟩
  have ha : eventAccept failedClip [("transactionid".toList, "a".toList), ("eventtime".toList, "100".toList)] =
      .ok ⟨⟨200, "success"⟩, some ("video/event/a.mp4".toList, "a".toList)⟩ := by rfl
  obtain ⟨-, -, -, -, -, -, -, hthere⟩ := h.acknowledged _ ha (.inl rfl)
  cases hthere

end RpiCam.Http
