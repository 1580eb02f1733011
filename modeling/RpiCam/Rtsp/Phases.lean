import RpiCam.Lib.Transition
import RpiCam.Rtsp.Handler

/-!
# The phases of a file session

`setup_request` makes `_rtp_info` and `teardown_request` deletes it; a setup whose elements are not made deletes it too.
The methods in between follow the pointer.

* `FileHandler.step` : a request that is answered;
* `Phase`, `Phase.step` : what a session has, by the requests alone;
* `FileHandler.Whole` : between two requests `_rtp_info` is null or complete;
* `setup_step`, `play_step` and their siblings : what an answered request leaves;
* `map_phase_step` : the handler simulates the phases;
* `no_null_dereference_iff` : no null pointer is followed exactly where no request comes in the phase `unset`.
-/

namespace RpiCam.Rtsp

open Transition
open Video (busLoop)

/-- A request, and what it meets. -/
abbrev FileRequest := Call × Surroundings

/-- A request that is answered. -/
def FileHandler.step (h : FileHandler) (r : FileRequest) : Option FileHandler :=
  match h.call r.2 r.1 with
  | (h', .returned _ _) => some h'
  | (_, .failed _) => none

/-- What the requests have left of a session. -/
inductive Phase
  /-- No `_rtp_info`. -/
  | unset
  /-- `_rtp_info` is there, but the pipeline of the last setup did not start and is gone. -/
  | halted
  /-- The pipeline is there, and its first packet has been seen or not. -/
  | ready (seen : Bool)
  deriving DecidableEq, Repr

/-- The methods that follow `_rtp_info` without a setup of their own. -/
def Call.usesInfo : Call → Bool
  | .play _ | .pause _ | .teardown => true
  | _ => false

/-- `describe_request` comes to an end. -/
def describes (path : List Char) (w : Surroundings) : Bool :=
  (w.sdpFiles (FileHandler.sdpPath path)).isSome || !(w.pipeline && w.elements) || busLoop w.bus

/-- A request, by what it meets. -/
def Phase.step (p : Phase) (r : FileRequest) : Option Phase :=
  match r.1 with
  | .option => some p
  | .describe path => if describes path r.2 then some p else none
  | .setup _ _ _ =>
    if !(r.2.pipeline && r.2.elements) then some .unset
    else if !r.2.sockets then none
    else if r.2.stateChange = .failure then some .halted
    else some (.ready false)
  | .play _ =>
    match p with
    | .unset => none
    | .halted => some .halted
    | .ready seen =>
      if r.2.stateChange = .failure then some (.ready seen)
      else if seen || r.2.firstSample.isSome then some (.ready true)
      else none
  | .pause _ => if p = .unset then none else some p
  | .teardown =>
    match p with
    | .unset => none
    | .halted => some .halted
    | .ready seen =>
      if r.2.stateChange = .failure then some (.ready seen)
      else if r.2.sockets then some .unset
      else none

/-- The session follows no pointer in the phase `unset`. -/
def InOrder (requests : List FileRequest) : Prop :=
  Along Phase.step (fun p r => r.1.usesInfo → p ≠ .unset) .unset requests

namespace FileHandler

variable {h h' : FileHandler} {w : Surroundings}

/-- The phase that a handler is in. -/
def phase (h : FileHandler) : Phase :=
  match h.rtpInfo with
  | none => .unset
  | some info => if info.pipeline.isSome then .ready (!info.first) else .halted

/-- `_rtp_info` is null, or all its pointers but that of the pipeline are set. -/
def Whole (h : FileHandler) : Prop :=
  ∀ info, h.rtpInfo = some info → ∃ s, info.sessionInfo = some s ∧ s.rtpSocket = true ∧ s.rtcpSocket = true

theorem whole_new : new.Whole := nofun

/-! ## The exits of `setup_request` -/

/-- The references after the first lines of `setup_request`. -/
def cleared (h : FileHandler) : Ledger := h.deleteRtpInfo.pipelines

theorem setupRequest_unmade (h : FileHandler) (hm : (w.pipeline && w.elements) = false) :
    h.setupRequest w =
      (⟨none, if w.pipeline then h.cleared.create.release h.cleared.created else h.cleared⟩, .returned 1 []) := by
  unfold setupRequest
  rw [← Bool.not_and, hm]
  cases w.pipeline <;> rfl

theorem setupRequest_threw (h : FileHandler) (hm : (w.pipeline && w.elements) = true) (hs : w.sockets = false) :
    (h.setupRequest w).2 = .failed .threw := by
  unfold setupRequest
  rw [← Bool.not_and, hm, hs]
  rfl

theorem setupRequest_refused (h : FileHandler) (hm : (w.pipeline && w.elements) = true) (hs : w.sockets = true)
    (hw : w.stateChange = .failure) :
    h.setupRequest w = (⟨some ⟨some ⟨true, true, 0, 0⟩, none, true⟩, h.cleared.create.release h.cleared.created⟩,
      .returned 1 (serverPort w.localPort)) := by
  have hp : w.pipeline = true := (Bool.and_eq_true_iff.mp hm).1
  unfold setupRequest
  rw [← Bool.not_and, hm, hs, hp, hw]
  rfl

theorem setupRequest_started (h : FileHandler) (hm : (w.pipeline && w.elements) = true) (hs : w.sockets = true)
    (hw : w.stateChange ≠ .failure) :
    h.setupRequest w = (⟨some ⟨some ⟨true, true, 0, 0⟩, some h.cleared.created, true⟩, h.cleared.create⟩,
      .returned 0 (serverPort w.localPort)) := by
  have hp : w.pipeline = true := (Bool.and_eq_true_iff.mp hm).1
  unfold setupRequest
  rw [← Bool.not_and, hm, hs, hp]
  simp [setState, newPipeline, hw, cleared]

/-! ## One request -/

/-- Without `_rtp_info` the pointer is followed all the same. -/
theorem call_of_none {call : Call} (hc : call.usesInfo = true) (hi : h.rtpInfo = none) :
    h.call w call = (h, .failed .nullDereference) := by
  cases call with
  | play time => simp only [FileHandler.call, playRequest, hi]
  | pause time => simp only [FileHandler.call, pauseRequest, hi]
  | teardown => simp only [FileHandler.call, teardownRequest, hi]
  | option => cases hc
  | describe path => cases hc
  | setup path addr port => cases hc

theorem playInfo_of_some {info : RtpSessionInfoGst} {s : RtpSessionInfo} (hs : info.sessionInfo = some s) :
    h.playInfo info = ({ h with rtpInfo := some info }, .returned 0 (rtpInfoText s)) := by
  unfold playInfo
  rw [hs]

theorem playRequest_of_some {info : RtpSessionInfoGst} {s : RtpSessionInfo} (hi : h.rtpInfo = some info)
    (hs : info.sessionInfo = some s) :
    h.playRequest w =
      if setState info.pipeline w.stateChange = .failure then (h, .returned 1 [])
      else if info.first then
        match w.firstSample with
        | none => (h, .failed .waits)
        | some sample =>
          ({ h with rtpInfo := some (firstPacket info sample) },
            .returned 0 (rtpInfoText { s with initSeq := sample.1, initRtptime := sample.2 }))
      else ({ h with rtpInfo := some info }, .returned 0 (rtpInfoText s)) := by
  unfold playRequest
  rw [hi]
  have hp : ∀ sample, (firstPacket info sample).sessionInfo =
      some { s with initSeq := sample.1, initRtptime := sample.2 } := by
    intro sample
    unfold firstPacket
    rw [hs]
    rfl
  cases w.firstSample with
  | none => simp only [playInfo_of_some hs]
  | some sample => simp only [playInfo_of_some hs, playInfo_of_some (hp sample)]

theorem teardownRequest_of_some {info : RtpSessionInfoGst} {s : RtpSessionInfo} (hi : h.rtpInfo = some info)
    (hs : info.sessionInfo = some s) (h1 : s.rtpSocket = true) (h2 : s.rtcpSocket = true) :
    h.teardownRequest w =
      if setState info.pipeline w.stateChange = .failure then (h, .returned 1 [])
      else if !w.sockets then (h, .failed .threw)
      else ({ ((h.unref info.pipeline).deleteInfo info) with rtpInfo := none }, .returned 0 []) := by
  unfold teardownRequest
  rw [hi]
  simp only [hs, h1, h2]
  rfl

theorem pauseRequest_fst (h : FileHandler) (w : Surroundings) : (h.pauseRequest w).1 = h := by
  unfold pauseRequest
  split
  · rfl
  · split_ifs <;> rfl

theorem call_of_other {call : Call} (hc : call.usesInfo = false) :
    (h.call w call).2 ≠ .failed .nullDereference := by
  cases call with
  | option => simp [FileHandler.call, optionRequest]
  | describe path =>
    unfold FileHandler.call describeRequest
    dsimp only
    split
    · simp
    · split_ifs
      · simp
      · simp
      · cases w.sdpOut <;> simp
  | setup path addr port =>
    unfold FileHandler.call setupRequest
    dsimp only
    split_ifs <;> simp
  | play time => cases hc
  | pause time => cases hc
  | teardown => cases hc

theorem call_of_whole {info : RtpSessionInfoGst} (hw : h.Whole) (hi : h.rtpInfo = some info) {call : Call}
    (hc : call.usesInfo = true) : (h.call w call).2 ≠ .failed .nullDereference := by
  obtain ⟨s, hs, h1, h2⟩ := hw info hi
  cases call with
  | play time =>
    rw [FileHandler.call, playRequest_of_some hi hs]
    split_ifs
    · simp
    · cases w.firstSample <;> simp
    · simp
  | pause time =>
    unfold FileHandler.call pauseRequest
    simp only [hi]
    split_ifs <;> simp
  | teardown =>
    rw [FileHandler.call, teardownRequest_of_some hi hs h1 h2]
    split_ifs <;> simp
  | option => cases hc
  | describe path => cases hc
  | setup path addr port => cases hc

/-- **A whole handler follows a null pointer only where it has no `_rtp_info`.** -/
theorem call_nullDereference_iff (hw : h.Whole) (call : Call) :
    (h.call w call).2 = .failed .nullDereference ↔ call.usesInfo = true ∧ h.rtpInfo = none := by
  cases hc : call.usesInfo with
  | false => simp [call_of_other hc]
  | true =>
    cases hi : h.rtpInfo with
    | none => simp [call_of_none hc hi]
    | some info => simp [call_of_whole hw hi hc]

theorem phase_eq_unset_iff (h : FileHandler) : h.phase = .unset ↔ h.rtpInfo = none := by
  unfold phase
  cases h.rtpInfo with
  | none => simp
  | some info =>
    dsimp only
    split_ifs <;> simp

/-! ## The phases of a run -/

theorem step_of_returned {r : FileRequest} {ret : Int} {out : List Char}
    (hr : h.call r.2 r.1 = (h', .returned ret out)) : h.step r = some h' := by
  unfold step
  rw [hr]

theorem step_of_failed {r : FileRequest} {fault : Fault} (hr : (h.call r.2 r.1).2 = .failed fault) :
    h.step r = none := by
  unfold step
  split
  · rename_i h' ret out he
    rw [he] at hr
    cases hr
  · rfl

theorem step_eq_some {r : FileRequest} (hs : h.step r = some h') :
    ∃ ret out, h.call r.2 r.1 = (h', .returned ret out) := by
  unfold step at hs
  split at hs
  · rename_i h'' ret out hr
    cases hs
    exact ⟨ret, out, hr⟩
  · cases hs

theorem describe_step (h : FileHandler) (path : List Char) (w : Surroundings) :
    h.step (.describe path, w) = if describes path w then some h else none := by
  cases hf : w.sdpFiles (sdpPath path) with
  | some sdp => simp [step, FileHandler.call, describeRequest, describes, hf]
  | none =>
    cases hm : w.pipeline && w.elements with
    | false =>
      have hm' : (!w.pipeline || !w.elements) = true := by rw [← Bool.not_and, hm]; rfl
      simp [step, FileHandler.call, describeRequest, describes, hf, hm, hm']
    | true =>
      have hm' : (!w.pipeline || !w.elements) = false := by rw [← Bool.not_and, hm]; rfl
      cases hb : busLoop w.bus with
      | false => simp [step, FileHandler.call, describeRequest, describes, hf, hm, hm', hb]
      | true => cases ho : w.sdpOut <;> simp [step, FileHandler.call, describeRequest, describes, hf, hm', hb, ho]

theorem setup_step (h : FileHandler) (w : Surroundings) (path addr port : List Char) :
    h.step (.setup path addr port, w) =
      if !(w.pipeline && w.elements) then
        some ⟨none, if w.pipeline then h.cleared.create.release h.cleared.created else h.cleared⟩
      else if !w.sockets then none
      else if w.stateChange = .failure then
        some ⟨some ⟨some ⟨true, true, 0, 0⟩, none, true⟩, h.cleared.create.release h.cleared.created⟩
      else some ⟨some ⟨some ⟨true, true, 0, 0⟩, some h.cleared.created, true⟩, h.cleared.create⟩ := by
  cases hm : w.pipeline && w.elements with
  | false => exact step_of_returned (setupRequest_unmade h hm)
  | true =>
    cases hs : w.sockets with
    | false => exact step_of_failed (setupRequest_threw h hm hs)
    | true =>
      by_cases hc : w.stateChange = .failure
      · rw [if_neg (by decide), if_neg (by decide), if_pos hc]
        exact step_of_returned (setupRequest_refused h hm hs hc)
      · rw [if_neg (by decide), if_neg (by decide), if_neg hc]
        exact step_of_returned (setupRequest_started h hm hs hc)

/-- What an answered `PLAY` leaves: at most the numbers of the first packet are new. -/
theorem play_step {time : List Char} (hw : h.Whole) (hs : h.step (.play time, w) = some h') :
    h' = h ∨ ∃ info info', h.rtpInfo = some info ∧ h' = { h with rtpInfo := some info' } ∧
      info'.pipeline = info.pipeline ∧
        ∃ s, info'.sessionInfo = some s ∧ s.rtpSocket = true ∧ s.rtcpSocket = true := by
  obtain ⟨ret, out, hr⟩ := step_eq_some hs
  cases hi : h.rtpInfo with
  | none =>
    rw [call_of_none rfl hi] at hr
    cases hr
  | some info =>
    obtain ⟨s, hsi, h1, h2⟩ := hw info hi
    rw [FileHandler.call, playRequest_of_some hi hsi] at hr
    split_ifs at hr
    · cases hr
      exact Or.inl rfl
    · cases hf : w.firstSample with
      | none =>
        rw [hf] at hr
        cases hr
      | some sample =>
        rw [hf] at hr
        cases hr
        refine Or.inr ⟨info, firstPacket info sample, rfl, rfl, rfl,
          { s with initSeq := sample.1, initRtptime := sample.2 }, ?_, h1, h2⟩
        unfold firstPacket
        rw [hsi]
        rfl
    · cases hr
      exact Or.inr ⟨info, info, rfl, rfl, rfl, s, hsi, h1, h2⟩

theorem pause_step {time : List Char} (hs : h.step (.pause time, w) = some h') : h' = h := by
  obtain ⟨ret, out, hr⟩ := step_eq_some hs
  exact (congrArg Prod.fst hr).symm.trans (pauseRequest_fst h w)

/-- What an answered `TEARDOWN` leaves: the handler as it is, or nothing of the session. -/
theorem teardown_step (hw : h.Whole) (hs : h.step (.teardown, w) = some h') :
    ∃ info, h.rtpInfo = some info ∧
      ((h' = h ∧ (info.pipeline = none ∨ w.stateChange = .failure)) ∨
        ∃ p, info.pipeline = some p ∧ w.stateChange ≠ .failure ∧ h' = ⟨none, (h.pipelines.release p).release p⟩) := by
  obtain ⟨ret, out, hr⟩ := step_eq_some hs
  cases hi : h.rtpInfo with
  | none =>
    rw [call_of_none rfl hi] at hr
    cases hr
  | some info =>
    refine ⟨info, rfl, ?_⟩
    obtain ⟨s, hsi, h1, h2⟩ := hw info hi
    rw [FileHandler.call, teardownRequest_of_some hi hsi h1 h2] at hr
    cases hp : info.pipeline with
    | none =>
      rw [hp] at hr
      cases hr
      exact Or.inl ⟨rfl, Or.inl rfl⟩
    | some p =>
      have hstate : setState info.pipeline w.stateChange = w.stateChange := by
        rw [hp]
        rfl
      rw [hstate] at hr
      split_ifs at hr with hc
      · cases hr
        exact Or.inl ⟨rfl, Or.inr hc⟩
      · cases hr
      · cases hr
        refine Or.inr ⟨p, rfl, hc, ?_⟩
        simp only [hp, unref, deleteInfo]

theorem whole_step {r : FileRequest} (hw : h.Whole) (hs : h.step r = some h') : h'.Whole := by
  obtain ⟨call, w⟩ := r
  cases call with
  | option =>
    cases hs
    exact hw
  | describe path =>
    rw [describe_step] at hs
    split_ifs at hs
    cases hs
    exact hw
  | setup path addr port =>
    rw [setup_step] at hs
    split_ifs at hs <;> cases hs
    · exact nofun
    · exact nofun
    · rintro _ ⟨⟩
      exact ⟨_, rfl, rfl, rfl⟩
    · rintro _ ⟨⟩
      exact ⟨_, rfl, rfl, rfl⟩
  | play time =>
    obtain rfl | ⟨info, info', -, rfl, -, hwhole⟩ := play_step hw hs
    · exact hw
    · rintro _ ⟨⟩
      exact hwhole
  | pause time =>
    rw [pause_step hs]
    exact hw
  | teardown =>
    obtain ⟨info, -, ⟨rfl, -⟩ | ⟨p, -, -, rfl⟩⟩ := teardown_step hw hs
    · exact hw
    · exact nofun

theorem phase_of_some {info : RtpSessionInfoGst} (hi : h.rtpInfo = some info) :
    h.phase = if info.pipeline.isSome then .ready (!info.first) else .halted := by
  unfold phase
  rw [hi]

/-- **The handler simulates the phases.** -/
theorem map_phase_step (hw : h.Whole) (r : FileRequest) : (h.step r).map phase = Phase.step h.phase r := by
  obtain ⟨call, w⟩ := r
  cases call with
  | option => rfl
  | describe path =>
    rw [describe_step]
    simp only [Phase.step]
    split_ifs <;> rfl
  | setup path addr port =>
    rw [setup_step]
    simp only [Phase.step]
    split_ifs <;> rfl
  | play time =>
    cases hi : h.rtpInfo with
    | none =>
      rw [(phase_eq_unset_iff h).mpr hi, step_of_failed (congrArg Prod.snd (call_of_none rfl hi))]
      rfl
    | some info =>
      obtain ⟨s, hsi, h1, h2⟩ := hw info hi
      rw [phase_of_some hi]
      simp only [step, FileHandler.call, playRequest_of_some hi hsi, Phase.step, setState]
      cases hp : info.pipeline with
      | none => simp [phase_of_some hi, hp]
      | some p =>
        by_cases hc : w.stateChange = .failure
        · simp [hc, phase_of_some hi, hp]
        · cases hfirst : info.first with
          | false => simp [hc, phase_of_some (h := { h with rtpInfo := some info }) rfl, hp, hfirst]
          | true =>
            cases hf : w.firstSample with
            | none => simp [hc]
            | some sample => simp [hc, phase, firstPacket, hp]
  | pause time =>
    cases hi : h.rtpInfo with
    | none =>
      rw [(phase_eq_unset_iff h).mpr hi, step_of_failed (congrArg Prod.snd (call_of_none rfl hi))]
      rfl
    | some info =>
      have hs : h.step (.pause time, w) = some h := by
        simp only [step, FileHandler.call, pauseRequest, hi]
        split_ifs <;> rfl
      have hp : h.phase ≠ .unset := by
        rw [ne_eq, phase_eq_unset_iff, hi]
        simp
      rw [hs]
      simp only [Option.map_some, Phase.step, if_neg hp]
  | teardown =>
    cases hi : h.rtpInfo with
    | none =>
      rw [(phase_eq_unset_iff h).mpr hi, step_of_failed (congrArg Prod.snd (call_of_none rfl hi))]
      rfl
    | some info =>
      obtain ⟨s, hsi, h1, h2⟩ := hw info hi
      rw [phase_of_some hi]
      simp only [step, FileHandler.call, teardownRequest_of_some hi hsi h1 h2, Phase.step, setState]
      cases hp : info.pipeline with
      | none => simp [phase_of_some hi, hp]
      | some p =>
        by_cases hc : w.stateChange = .failure
        · simp [hc, phase_of_some hi, hp]
        · cases hs : w.sockets <;> simp [hc, phase]

end FileHandler

/-- No method follows a null pointer. -/
def NoNullDereference (requests : List FileRequest) : Prop :=
  Along FileHandler.step (fun h r => (h.call r.2 r.1).2 ≠ .failed .nullDereference) .new requests

/-- **A file session follows no null pointer exactly where its requests are in order**: no `PLAY`, `PAUSE` or `TEARDOWN`
comes before a setup has made its elements, or after a teardown that succeeded or a setup that made none. -/
theorem no_null_dereference_iff (requests : List FileRequest) : NoNullDereference requests ↔ InOrder requests := by
  have hpoint : ∀ (h : FileHandler) (r : FileRequest), h.Whole →
      (((h.call r.2 r.1).2 ≠ .failed .nullDereference) ↔ (r.1.usesInfo → h.phase ≠ .unset)) := by
    intro h r hw
    rw [ne_eq, FileHandler.call_nullDereference_iff hw, not_and, ne_eq, FileHandler.phase_eq_unset_iff]
  have hwhole : ∀ h r h', FileHandler.Whole h → FileHandler.step h r = some h' → h'.Whole :=
    fun h r h' hw hs => FileHandler.whole_step hw hs
  unfold NoNullDereference InOrder
  rw [along_congr FileHandler.Whole hpoint (fun h r h' hw _ => hwhole h r h' hw) FileHandler.whole_new]
  exact along_map (q := fun p r => r.1.usesInfo → p ≠ .unset) FileHandler.phase FileHandler.Whole
    (fun h r hw => FileHandler.map_phase_step hw r) hwhole FileHandler.whole_new requests

/-- **`PLAY` as the first request** follows a null pointer. -/
theorem play_first : ¬ NoNullDereference [(.play [], .able)] := by
  intro h
  exact h.1 rfl

end RpiCam.Rtsp
