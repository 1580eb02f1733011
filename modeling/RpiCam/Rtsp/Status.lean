import RpiCam.Rtsp.Phases
import RpiCam.Rtsp.Session

/-!
# The status of a response

A handler reports its outcome by a number: 0 is a success, `describe_request` gives 2 where it has a description that it
could not keep, and the failures are 1 or -1. The session answers 200 to `SETUP`, `PLAY`, `PAUSE` and `TEARDOWN` whatever
they report.

* `Handled.Truthful` : the status says what the handler reported, and a description is not empty;
* `Reported` : the reports whose response does;
* `Handler.Reports` : what a handler needs for such a report, method by method;
* `truthful_iff` : the responses of a connection are truthful exactly where the handlers have this.
-/

namespace RpiCam.Rtsp

open Transition
open Video (busLoop)

/-- The handler was called and reported a success. -/
def Handled.succeeded (h : Handled) : Prop :=
  ∃ ret out, h.answer = some (.returned ret out) ∧ (ret = 0 ∨ (ret = 2 ∧ h.request.method = some .describe))

/-- What the status and the body of a response are to say. -/
structure Handled.Truthful (h : Handled) : Prop where
  ok : ∀ res ∈ h.responses, h.request.method ≠ some .options → res.status = 200 → h.succeeded
  sdp : ∀ res ∈ h.responses, h.request.method = some .describe → res.status = 200 → res.body ≠ []
  error : ∀ res ∈ h.responses, h.request.method ≠ some .options → ¬ h.succeeded → 400 ≤ res.status

/-- The reports that the response to a method reflects. -/
def Reported (hydra : Hydra) (ret : Int) (out : List Char) : Method → Prop
  | .options => True
  | .describe => ((ret = 0 ∨ ret = 2) ∧ out ≠ []) ∨ ret = 1 ∨ (ret ≠ 0 ∧ ret ≠ 2 ∧ 400 ≤ hydra.freshStatus)
  | .setup | .play | .pause | .teardown => ret = 0

/-- A pipeline whose state changes, if `_rtp_info` is there. -/
def FileHandler.Changes (h : FileHandler) (w : Surroundings) : Prop :=
  ∀ info, h.rtpInfo = some info → setState info.pipeline w.stateChange ≠ .failure

/-- What a handler needs for such a report. Where it does not return, there is no response.

A live handler needs a description that is not empty; where its elements are not linked, the status is that of a new
response. A file handler needs a description that is not empty, a setup that starts its pipeline, and afterwards a
pipeline whose state changes. -/
def Handler.Reports (hydra : Hydra) (w : Surroundings) (path : List Char) : Handler → Method → Prop
  | _, .options => True
  | .live, .describe =>
    w.multicast.sdpStr = [] →
      if w.links then busLoop w.bus → w.asText (sdpMessage (some w.multicast.ipAddr) w.codecInfo) ≠ []
      else 400 ≤ hydra.freshStatus
  | .live, _ => True
  | .file _, .describe =>
    match w.sdpFiles (FileHandler.sdpPath path) with
    | some sdp => sdp ≠ []
    | none => (w.pipeline && w.elements) → busLoop w.bus → w.asText (sdpMessage none w.codecInfo) ≠ []
  | .file _, .setup => (w.pipeline && w.elements) ∧ (w.sockets → w.stateChange ≠ .failure)
  | .file h, .play | .file h, .pause | .file h, .teardown => h.Changes w

/-- The handler of a request, if one is called, has what it needs. -/
def Reports (hydra : Hydra) (c : Connection) (i : Input) : Prop :=
  ∀ m remote c' call h, i.request.method = some m → c.2.opened c.1 i.request.target = some c' →
    i.remote = some remote → c'.2.callOf remote i.request m = some call → c'.2.handler = some h →
    h.Reports hydra i.surroundings c'.2.filePath m

/-! ## The reports of the handlers -/

variable {hydra : Hydra} {w : Surroundings}

theorem reports_live_describe (path : List Char) :
    Handler.live.Reports hydra w path .describe ↔
      ∀ ret out, (makeSdp w.multicast w).2 = .returned ret out → Reported hydra ret out .describe := by
  unfold makeSdp Handler.Reports
  by_cases hs : w.multicast.sdpStr = []
  · cases hl : w.links with
    | false => simp [hs, Reported]
    | true => cases hb : busLoop w.bus <;> simp [hs, Reported]
  · simp [hs, Reported]

theorem reports_file_describe (h : FileHandler) (path : List Char) :
    (Handler.file h).Reports hydra w path .describe ↔
      ∀ ret out, (FileHandler.describeRequest path w).2 = .returned ret out → Reported hydra ret out .describe := by
  unfold FileHandler.describeRequest Handler.Reports
  cases hf : w.sdpFiles (FileHandler.sdpPath path) with
  | some sdp => simp [Reported]
  | none =>
    rw [← Bool.not_and]
    cases hm : w.pipeline && w.elements with
    | false => simp [Reported]
    | true =>
      cases hb : busLoop w.bus with
      | false => simp
      | true => cases ho : w.sdpOut <;> simp [Reported]

theorem reports_file_setup (h : FileHandler) (path : List Char) :
    (Handler.file h).Reports hydra w path .setup ↔
      ∀ ret out, (h.setupRequest w).2 = .returned ret out → Reported hydra ret out .setup := by
  unfold Handler.Reports
  cases hm : w.pipeline && w.elements with
  | false =>
    rw [FileHandler.setupRequest_unmade h hm]
    simp [Reported]
  | true =>
    cases hs : w.sockets with
    | false =>
      rw [FileHandler.setupRequest_threw h hm hs]
      simp
    | true =>
      by_cases hc : w.stateChange = .failure
      · rw [FileHandler.setupRequest_refused h hm hs hc]
        simp [Reported, hc]
      · rw [FileHandler.setupRequest_started h hm hs hc]
        simp [Reported, hc]

theorem changes_of_none {h : FileHandler} (hi : h.rtpInfo = none) : h.Changes w := by
  intro info hs
  rw [hi] at hs
  cases hs

theorem changes_of_some {h : FileHandler} {info : RtpSessionInfoGst} (hi : h.rtpInfo = some info) :
    h.Changes w ↔ setState info.pipeline w.stateChange ≠ .failure := by
  unfold FileHandler.Changes
  rw [hi]
  simp

theorem reports_file_play (h : FileHandler) :
    h.Changes w ↔ ∀ ret out, (h.playRequest w).2 = .returned ret out → Reported hydra ret out .play := by
  unfold FileHandler.playRequest
  cases hi : h.rtpInfo with
  | none => simp [changes_of_none hi]
  | some info =>
    rw [changes_of_some hi]
    by_cases hc : setState info.pipeline w.stateChange = .failure
    · simp [hc, Reported]
    · have hplay : ∀ info' ret out, (h.playInfo info').2 = .returned ret out → ret = 0 := by
        intro info' ret out hr
        unfold FileHandler.playInfo at hr
        split at hr
        · cases hr
        · cases hr
          rfl
      refine iff_of_true hc ?_
      intro ret out hr
      simp only [if_neg hc] at hr
      split_ifs at hr
      · split at hr
        · cases hr
        · exact hplay _ ret out hr
      · exact hplay _ ret out hr

theorem reports_file_pause (h : FileHandler) :
    h.Changes w ↔ ∀ ret out, (h.pauseRequest w).2 = .returned ret out → Reported hydra ret out .pause := by
  unfold FileHandler.pauseRequest
  cases hi : h.rtpInfo with
  | none => simp [changes_of_none hi]
  | some info =>
    rw [changes_of_some hi]
    by_cases hc : setState info.pipeline w.stateChange = .failure <;> simp [hc, Reported]

theorem reports_file_teardown (h : FileHandler) :
    h.Changes w ↔ ∀ ret out, (h.teardownRequest w).2 = .returned ret out → Reported hydra ret out .teardown := by
  unfold FileHandler.teardownRequest
  cases hi : h.rtpInfo with
  | none => simp [changes_of_none hi]
  | some info =>
    rw [changes_of_some hi]
    by_cases hc : setState info.pipeline w.stateChange = .failure
    · simp [hc, Reported]
    · refine iff_of_true hc ?_
      intro ret out hr
      simp only [if_neg hc] at hr
      split at hr
      · cases hr
      · split_ifs at hr
        cases hr
        rfl

/-- **What a handler needs is what makes its report one that the response reflects.** -/
theorem reports_iff {s : Session} {remote : List Char} {request : Request} {m : Method} {call : Call}
    (hc : s.callOf remote request m = some call) (h : Handler) :
    h.Reports hydra w s.filePath m ↔ ∀ ret out, (h.call w call).2 = .returned ret out → Reported hydra ret out m := by
  cases m with
  | options =>
    unfold Handler.Reports Reported
    simp
  | setup =>
    simp only [Session.callOf, Option.map_eq_some_iff] at hc
    obtain ⟨ports, -, rfl⟩ := hc
    cases h with
    | file h => exact reports_file_setup h s.filePath
    | live => simp [Handler.Reports, Handler.call, liveCall, Reported]
  | describe =>
    cases hc
    cases h with
    | file h => exact reports_file_describe h s.filePath
    | live => exact reports_live_describe s.filePath
  | play =>
    cases hc
    cases h with
    | file h => exact reports_file_play h
    | live => simp [Handler.Reports, Handler.call, liveCall, Reported]
  | pause =>
    cases hc
    cases h with
    | file h => exact reports_file_pause h
    | live => simp [Handler.Reports, Handler.call, liveCall, Reported]
  | teardown =>
    cases hc
    cases h with
    | file h => exact reports_file_teardown h
    | live => simp [Handler.Reports, Handler.call, liveCall, Reported]

/-! ## The responses -/

theorem truthful_respond_iff (s : Session) {request : Request} {m : Method} (hm : request.method = some m) (ret : Int)
    (out : List Char) (result : ReadEnd) :
    (Handled.mk request (some (.returned ret out)) [s.respond hydra request ret out m] result).Truthful ↔
      Reported hydra ret out m := by
  -- the clauses about the one response
  have hclauses : (Handled.mk request (some (.returned ret out)) [s.respond hydra request ret out m] result).Truthful ↔
      (m ≠ .options → (s.respond hydra request ret out m).status = 200 → ret = 0 ∨ (ret = 2 ∧ m = .describe)) ∧
      (m = .describe → (s.respond hydra request ret out m).status = 200 →
        (s.respond hydra request ret out m).body ≠ []) ∧
      (m ≠ .options → ¬ (ret = 0 ∨ (ret = 2 ∧ m = .describe)) → 400 ≤ (s.respond hydra request ret out m).status) := by
    have hsucc : (Handled.mk request (some (.returned ret out)) [s.respond hydra request ret out m] result).succeeded ↔
        (ret = 0 ∨ (ret = 2 ∧ m = .describe)) := by
      simp [Handled.succeeded, hm, Option.some.injEq]
    constructor
    · intro h
      simpa [hsucc, hm] using And.intro (h.ok _ (List.mem_singleton.mpr rfl))
        (And.intro (h.sdp _ (List.mem_singleton.mpr rfl)) (h.error _ (List.mem_singleton.mpr rfl)))
    · rintro ⟨h1, h2, h3⟩
      refine ⟨?_, ?_, ?_⟩
      · simpa [hsucc, hm] using h1
      · simpa [hsucc, hm] using h2
      · simpa [hsucc, hm] using h3
  rw [hclauses]
  cases m with
  | options => simp [Reported]
  | describe =>
    by_cases h0 : ret = 0
    · simp [Reported, Session.respond, Session.describeResponse, h0]
    · by_cases h1 : ret = 1
      · simp [Reported, Session.respond, Session.describeResponse, h1]
      · by_cases h2 : ret = 2
        · simp [Reported, Session.respond, Session.describeResponse, h2]
        · simp only [Reported, Session.respond, h0, h1, h2, if_false, Session.freshResponse]
          simp
          omega
  | setup => simp [Reported, Session.respond]
  | play => simp [Reported, Session.respond]
  | pause => simp [Reported, Session.respond]
  | teardown => simp [Reported, Session.respond]

theorem truthful_of_no_response {h : Handled} (hr : h.responses = []) : h.Truthful := by
  refine ⟨?_, ?_, ?_⟩ <;> intro res hres <;> rw [hr] at hres <;> cases hres

/-- **The response to one request is truthful exactly where the handler has what it needs.** -/
theorem handled_truthful_iff (hydra : Hydra) (c : Connection) (i : Input) :
    (handled hydra c i).Truthful ↔ Reports hydra c i := by
  by_cases hne : (read hydra c.1 c.2 i).responses = []
  · refine iff_of_true (truthful_of_no_response hne) ?_
    intro m remote c' call h hm ho hr hc hh
    rw [reports_iff hc]
    intro ret out hret
    have hread := read_of_call hydra ho hm hr hc
    have hcall : c'.2.call i.surroundings call = ({ c'.2 with handler := some (h.call i.surroundings call).1 },
        .returned ret out) := by
      unfold Session.call
      simp only [hh, hret]
    rw [hcall] at hread
    rw [hread] at hne
    cases hne
  · obtain ⟨m, remote, c', call, ret, out, hm, ho, hr, hc, hret⟩ := read_responses hne
    obtain ⟨h, hh, hret'⟩ : ∃ h, c'.2.handler = some h ∧ (h.call i.surroundings call).2 = .returned ret out := by
      unfold Session.call at hret
      cases hh : c'.2.handler with
      | none =>
        rw [hh] at hret
        cases hret
      | some h =>
        rw [hh] at hret
        exact ⟨h, rfl, hret⟩
    have hread := read_of_call hydra ho hm hr hc
    have hcall : c'.2.call i.surroundings call = ({ c'.2 with handler := some (h.call i.surroundings call).1 },
        .returned ret out) := by
      unfold Session.call
      simp only [hh, hret']
    rw [hcall] at hread
    unfold handled
    rw [hread]
    dsimp only
    rw [truthful_respond_iff _ hm]
    constructor
    · intro hrep m' remote' c'' call' h' hm' ho' hr' hc' hh'
      obtain rfl : m = m' := Option.some.inj (hm.symm.trans hm')
      obtain rfl : c' = c'' := Option.some.inj (ho.symm.trans ho')
      obtain rfl : h = h' := Option.some.inj (hh.symm.trans hh')
      rw [reports_iff hc]
      intro ret' out' hret''
      rw [hret'] at hret''
      cases hret''
      exact hrep
    · intro hrep
      exact (reports_iff hc h).mp (hrep m remote c' call h hm ho hr hc hh) ret out hret'

/-- **The responses of a connection are truthful exactly where every handler has what it needs.** -/
theorem truthful_iff (hydra : Hydra) (table : PathTable) (s : Session) (inputs : List Input) :
    (∀ h ∈ run hydra table s inputs, h.Truthful) ↔
      Along (Connection.next hydra) (Reports hydra) (table, s) inputs :=
  forall_mem_run_iff (handled_truthful_iff hydra) (table, s) inputs

/-- A `SETUP` for a recorded file, in a process that can make no elements. -/
def setupInput : Input where
  request := ⟨some .setup, "rtsp://cam/film".toList, "1".toList, "RTP/AVP;unicast;client_port=5000-5001".toList, []⟩
  surroundings := { Surroundings.able with elements := false }
  remote := some "10.0.0.2".toList
  unset := 0

/-- **A setup that failed** is answered 200. -/
theorem untruthful_setup :
    ¬ ∀ h ∈ run beast (AList.insert "/film".toList "film.mp4".toList ∅) (.new []) [setupInput], h.Truthful := by
  intro h
  have herr := (h _ (List.mem_cons_self ..)).error _ (List.mem_singleton.mpr rfl) (by decide) ?_
  · exact absurd herr (by decide)
  · rintro ⟨ret, out, ha, hr⟩
    cases ha
    rcases hr with hr | hr
    · cases hr
    · cases hr.1

end RpiCam.Rtsp
