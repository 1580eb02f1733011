import RpiCam.Rtsp.Phases

/-!
# Waiting for the first packet

After `setup_request` three threads share `_rtp_info` and the pipeline: that of the session in `play_request`, the one that
streams and calls `rtp_appsink_new_sample_callback`, and the one that reads the bus.

* `PlayAt`, `CallbackAt`, `BusAt` : where they are;
* `Playing`, `Playing.step` : a step of one of them, or of the pipeline;
* `Playing.Stuck` : the pipeline has ended, no packet will come, and `play_request` waits for one;
* `play_not_stuck` : not where the packets stop only after one that was read; `stuck_iff`, `stuck_forever` : else;
* `returned_playRequest` : what `play_request` returns is what `FileHandler.playRequest` returns.

Each step takes effect at once for the other threads, more than a plain `bool` promises.
-/

namespace RpiCam.Rtsp

open Transition
open Video (BusMessage)

/-! ## The threads -/

/-- The thread of the session. -/
inductive PlayAt
  | outside
  /-- In `gst_element_set_state`. -/
  | starting
  /-- In the loop of line 17. -/
  | waiting
  /-- After the loop. -/
  | leaving
  /-- `seq=` is written. -/
  | numbered (seq : UInt16)
  | returned (r : Result)
  deriving DecidableEq

inductive PlayAct
  | call
  /-- `gst_element_set_state` returns. -/
  | setState (change : StateChange)
  /-- The condition of the loop is read once. -/
  | readFirst
  | readSeq
  | readRtptime

/-- `play_request`, line by line. -/
def PlayAt.next (info : RtpSessionInfoGst) : PlayAt → PlayAct → Option PlayAt
  | .outside, .call | .returned _, .call => some .starting
  | .starting, .setState change =>
    if Rtsp.setState info.pipeline change = .failure then some (.returned (.returned 1 [])) else some .waiting
  | .waiting, .readFirst => if info.first then some .waiting else some .leaving
  | .leaving, .readSeq =>
    match info.sessionInfo with
    | none => some (.returned (.failed .nullDereference))
    | some s => some (.numbered s.initSeq)
  | .numbered seq, .readRtptime =>
    match info.sessionInfo with
    | none => some (.returned (.failed .nullDereference))
    | some s => some (.returned (.returned 0 (FileHandler.rtpInfoText { s with initSeq := seq })))
  | _, _ => none

/-- The thread that streams, in `rtp_appsink_new_sample_callback`. -/
inductive CallbackAt
  | outside
  /-- It has a sample. -/
  | pulled
  /-- It has read the number and the time of the packet. -/
  | mapped (seq : UInt16) (time : UInt32)
  /-- `init_seq` is assigned. -/
  | numbered (time : UInt32)
  /-- `init_rtptime` is assigned. -/
  | timed
  /-- At line 291. -/
  | sending
  deriving DecidableEq

inductive CallbackAct
  /-- A sample has arrived, and `gst_app_sink_pull_sample` gives it or not. -/
  | newSample (pulled : Bool)
  /-- `first` is read, and `gst_rtp_buffer_map` gives a packet or not. -/
  | readFirst (rtp : Option (UInt16 × UInt32))
  | storeSeq
  | storeRtptime
  | clearFirst
  | send

/-- The thread that reads the bus. -/
inductive BusAt
  /-- In `gst_element_get_state`. -/
  | asking
  | popping
  | ended
  deriving DecidableEq

inductive BusAct
  | getState (change : StateChange)
  | pop

/-- The loop of `bus_thread`, and what it leaves on the bus. -/
def BusAt.next : List BusMessage → BusAt → BusAct → Option (BusAt × List BusMessage)
  | bus, .asking, .getState change => if change = .failure then some (.ended, bus) else some (.popping, bus)
  | [], .popping, .pop => some (.asking, [])
  | _ :: bus, .popping, .pop => some (.ended, bus)
  | _, _, _ => none

/-- What the pipeline does by itself. -/
inductive PipelineAct
  /-- `qtdemux` has a new pad: its type, if it has one, whether the queue has a sink, and whether they link. -/
  | padAdded (type : Option (List Char)) (sinkPad links : Bool)
  | post (m : BusMessage)
  /-- No sample arrives any more. -/
  | stop

inductive PlayingAct
  | session (a : PlayAct)
  | callback (a : CallbackAct)
  | bus (a : BusAct)
  | pipeline (a : PipelineAct)

/-- The pipeline of a session with its threads. `sample` is the first packet that was read. -/
structure Playing where
  info : RtpSessionInfoGst
  session : PlayAt
  callback : CallbackAt
  busThread : BusAt
  bus : List BusMessage
  linked : Bool
  ended : Bool
  stopped : Bool
  sample : Option (UInt16 × UInt32)

namespace Playing

def callbackStep (v : Playing) : CallbackAct → Option Playing
  | .newSample pulled =>
    if v.callback = .outside ∧ v.linked = true ∧ v.stopped = false then
      some { v with callback := if pulled then .pulled else .outside }
    else none
  | .readFirst rtp =>
    if v.callback = .pulled then
      if v.info.first then
        match rtp with
        | none => some { v with callback := .outside }
        | some packet => some { v with callback := .mapped packet.1 packet.2, sample := some packet }
      else some { v with callback := .sending }
    else none
  | .storeSeq =>
    match v.callback with
    | .mapped seq time =>
      some { v with
        info := { v.info with sessionInfo := v.info.sessionInfo.map fun s => { s with initSeq := seq } }
        callback := .numbered time }
    | _ => none
  | .storeRtptime =>
    match v.callback with
    | .numbered time =>
      some { v with
        info := { v.info with sessionInfo := v.info.sessionInfo.map fun s => { s with initRtptime := time } }
        callback := .timed }
    | _ => none
  | .clearFirst =>
    if v.callback = .timed then some { v with info := { v.info with first := false }, callback := .sending } else none
  | .send => if v.callback = .sending then some { v with callback := .outside } else none

/-- `setup_demux_pad_added`: whether the pad is linked to the queue. -/
def padLinked (type : Option (List Char)) (sinkPad links : Bool) : Bool :=
  match type with
  | none => false
  | some type => "video/x-h264".toList.isPrefixOf type && sinkPad && links

/-- The pipeline itself. -/
def pipelineStep (v : Playing) : PipelineAct → Option Playing
  | .padAdded type sinkPad links => some { v with linked := v.linked || padLinked type sinkPad links }
  | .post m => some { v with bus := v.bus ++ [m], ended := true }
  | .stop => if v.callback = .outside then some { v with stopped := true } else none

def step (v : Playing) : PlayingAct → Option Playing
  | .session a => (v.session.next v.info a).map fun session => { v with session }
  | .callback a => v.callbackStep a
  | .bus a => (v.busThread.next v.bus a).map fun b => { v with busThread := b.1, bus := b.2 }
  | .pipeline a => v.pipelineStep a

/-- What a `SETUP` that returns 0 leaves. -/
def Start (v : Playing) : Prop :=
  ∃ (h : FileHandler) (w : Surroundings) (out : List Char), (h.setupRequest w).2 = .returned 0 out ∧
    (h.setupRequest w).1.rtpInfo = some v.info ∧
    v = ⟨v.info, .outside, .outside, .asking, [], false, false, false, none⟩

/-- The pipeline has ended, no sample will arrive, and `play_request` waits. -/
def Stuck (v : Playing) : Prop :=
  v.ended = true ∧ v.stopped = true ∧ v.session = .waiting ∧ v.info.first = true

/-- The packets stop after one that was read. -/
def AfterPacket (v : Playing) (a : PlayingAct) : Prop := a = .pipeline .stop → v.sample.isSome = true

/-! ## The numbers of the first packet -/

/-- `_rtp_info` and the first packet, as far as the callback has come. -/
def Numbered (v : Playing) : Prop :=
  ∃ s, v.info.sessionInfo = some s ∧
    match v.callback with
    | .mapped seq time => v.info.first = true ∧ v.sample = some (seq, time)
    | .numbered time => v.info.first = true ∧ v.sample = some (s.initSeq, time)
    | .timed => v.info.first = true ∧ v.sample = some (s.initSeq, s.initRtptime)
    | _ => v.sample = if v.info.first then none else some (s.initSeq, s.initRtptime)

/-- A step of the callback leaves the pipeline alone, and one from outside has a sample to begin with. -/
theorem callbackStep_frame {v v' : Playing} {a : CallbackAct} (h : v.callbackStep a = some v') :
    v'.linked = v.linked ∧ v'.ended = v.ended ∧ v'.stopped = v.stopped ∧
      (v.callback = .outside → v.linked = true ∧ v.stopped = false) := by
  unfold Playing.callbackStep at h
  cases a with
  | newSample pulled =>
    dsimp only at h
    split_ifs at h with hc
    all_goals
      cases h
      exact ⟨rfl, rfl, rfl, fun _ => hc.2⟩
  | readFirst rtp =>
    dsimp only at h
    split_ifs at h with hc hf
    · cases rtp <;> cases h <;> exact ⟨rfl, rfl, rfl, fun ho => nomatch hc.symm.trans ho⟩
    · cases h
      exact ⟨rfl, rfl, rfl, fun ho => nomatch hc.symm.trans ho⟩
  | storeSeq | storeRtptime =>
    dsimp only at h
    split at h
    · rename_i hc
      cases h
      exact ⟨rfl, rfl, rfl, fun ho => nomatch hc.symm.trans ho⟩
    · cases h
  | clearFirst | send =>
    dsimp only at h
    split_ifs at h with hc
    cases h
    exact ⟨rfl, rfl, rfl, fun ho => nomatch hc.symm.trans ho⟩

/-- What a step of the callback does: it goes on from `Numbered`, for good once `first` is cleared. -/
theorem Numbered.callbackStep {v v' : Playing} {a : CallbackAct} (hv : v.Numbered) (h : v.callbackStep a = some v') :
    v'.Numbered ∧ v'.session = v.session ∧ (v.info.first = false → v'.info = v.info) ∧
      ∀ n, v.sample = some n → v'.sample = some n := by
  obtain ⟨s, hs, hv⟩ := hv
  unfold Playing.callbackStep at h
  cases a with
  | newSample pulled =>
    dsimp only at h
    split_ifs at h with hc hp
    all_goals
      cases h
      rw [hc.1] at hv
      exact ⟨⟨s, hs, hv⟩, rfl, fun _ => rfl, fun _ hn => hn⟩
  | readFirst rtp =>
    dsimp only at h
    split_ifs at h with hc hf
    · rw [hc] at hv
      have hnone : v.sample = none := by simpa [hf] using hv
      cases rtp with
      | none =>
        cases h
        exact ⟨⟨s, hs, hv⟩, rfl, fun _ => rfl, fun _ hn => hn⟩
      | some packet =>
        cases h
        refine ⟨⟨s, hs, hf, rfl⟩, rfl, fun _ => rfl, ?_⟩
        intro n hn
        rw [hnone] at hn
        cases hn
    · cases h
      rw [hc] at hv
      exact ⟨⟨s, hs, hv⟩, rfl, fun _ => rfl, fun _ hn => hn⟩
  | storeSeq =>
    cases hc : v.callback with
    | mapped seq time =>
      simp only [hc] at h hv
      cases h
      refine ⟨⟨{ s with initSeq := seq }, ?_, hv⟩, rfl, fun hf => ?_, fun _ hn => hn⟩
      · show v.info.sessionInfo.map _ = _
        rw [hs]
        rfl
      · exact absurd (hv.1.symm.trans hf) (by decide)
    | _ =>
      simp only [hc] at h
      cases h
  | storeRtptime =>
    cases hc : v.callback with
    | numbered time =>
      simp only [hc] at h hv
      cases h
      refine ⟨⟨{ s with initRtptime := time }, ?_, hv⟩, rfl, fun hf => ?_, fun _ hn => hn⟩
      · show v.info.sessionInfo.map _ = _
        rw [hs]
        rfl
      · exact absurd (hv.1.symm.trans hf) (by decide)
    | _ =>
      simp only [hc] at h
      cases h
  | clearFirst =>
    dsimp only at h
    split_ifs at h with hc
    cases h
    rw [hc] at hv
    refine ⟨⟨s, hs, hv.2⟩, rfl, fun hf => ?_, fun _ hn => hn⟩
    exact absurd (hv.1.symm.trans hf) (by decide)
  | send =>
    dsimp only at h
    split_ifs at h with hc
    cases h
    rw [hc] at hv
    exact ⟨⟨s, hs, hv⟩, rfl, fun _ => rfl, fun _ hn => hn⟩

end Playing

/-- `play_request` has read what the callback has written. -/
def PlayAt.Fits (info : RtpSessionInfoGst) (sample : Option (UInt16 × UInt32)) : PlayAt → Prop
  | .leaving => info.first = false
  | .numbered seq => info.first = false ∧ ∃ time, sample = some (seq, time)
  | .returned r => r = .returned 1 [] ∨
    ∃ n, sample = some n ∧ r = .returned 0 (FileHandler.rtpInfoText ⟨true, true, n.1, n.2⟩)
  | _ => True

theorem PlayAt.Fits.mono {info info' : RtpSessionInfoGst} {sample sample' : Option (UInt16 × UInt32)} {p : PlayAt}
    (hp : p.Fits info sample) (hi : info.first = false → info' = info)
    (hs : ∀ n, sample = some n → sample' = some n) : p.Fits info' sample' := by
  cases p with
  | leaving =>
    show info'.first = false
    rw [hi hp]
    exact hp
  | numbered seq =>
    obtain ⟨hf, time, ht⟩ := hp
    refine ⟨?_, time, hs _ ht⟩
    rw [hi hf]
    exact hf
  | returned r =>
    apply hp.imp_right
    rintro ⟨n, hn, hr⟩
    exact ⟨n, hs n hn, hr⟩
  | _ => trivial

namespace Playing

theorem step_session {v v' : Playing} {a : PlayAct} (h : v.step (.session a) = some v') :
    ∃ p, v.session.next v.info a = some p ∧ v' = { v with session := p } := by
  unfold Playing.step at h
  rw [Option.map_eq_some_iff] at h
  obtain ⟨p, hp, rfl⟩ := h
  exact ⟨p, hp, rfl⟩

theorem step_bus {v v' : Playing} {a : BusAct} (h : v.step (.bus a) = some v') :
    ∃ b : BusAt × List BusMessage, v' = { v with busThread := b.1, bus := b.2 } := by
  unfold Playing.step at h
  rw [Option.map_eq_some_iff] at h
  obtain ⟨b, -, rfl⟩ := h
  exact ⟨b, rfl⟩

/-- A step of `play_request`, after the callback has cleared `first` or before. -/
theorem Numbered.next {v : Playing} {a : PlayAct} {p : PlayAt} (hv : v.Numbered) (hp : v.session.Fits v.info v.sample)
    (h : v.session.next v.info a = some p) : p.Fits v.info v.sample := by
  obtain ⟨s, hs, hv⟩ := hv
  have hcleared : v.info.first = false → v.sample = some (s.initSeq, s.initRtptime) := by
    intro hf
    cases hc : v.callback with
    | mapped _ _ | numbered _ | timed =>
      rw [hc] at hv
      exact absurd (hv.1.symm.trans hf) (by decide)
    | _ => simpa [hc, hf] using hv
  unfold PlayAt.next at h
  split at h
  · cases h
    trivial
  · cases h
    trivial
  · split_ifs at h
    · cases h
      exact .inl rfl
    · cases h
      trivial
  · split_ifs at h with hf
    · cases h
      trivial
    · cases h
      exact eq_false_of_ne_true hf
  · rename_i he
    rw [he] at hp
    rw [hs] at h
    cases h
    exact ⟨hp, _, hcleared hp⟩
  · rename_i seq he
    rw [he] at hp
    obtain ⟨hf, time, ht⟩ := hp
    rw [hs] at h
    cases h
    refine .inr ⟨_, ht, ?_⟩
    rw [hcleared hf] at ht
    cases ht
    rfl
  · cases h

/-- What holds in every state: the numbers fit, and no callback runs before a pad is linked, nor after the end of the
samples. -/
structure Sound (v : Playing) : Prop where
  numbered : v.Numbered
  fits : v.session.Fits v.info v.sample
  unlinked : v.linked = false → v.sample = none ∧ v.callback = .outside
  stopped : v.stopped = true → v.callback = .outside

theorem setupRequest_returned {h : FileHandler} {w : Surroundings} {out : List Char}
    (hr : (h.setupRequest w).2 = .returned 0 out) :
    ∃ p, (h.setupRequest w).1.rtpInfo = some ⟨some ⟨true, true, 0, 0⟩, some p, true⟩ := by
  cases hm : w.pipeline && w.elements with
  | false =>
    rw [FileHandler.setupRequest_unmade h hm] at hr
    cases hr
  | true =>
    cases hs : w.sockets with
    | false =>
      rw [FileHandler.setupRequest_threw h hm hs] at hr
      cases hr
    | true =>
      by_cases hw : w.stateChange = .failure
      · rw [FileHandler.setupRequest_refused h hm hs hw] at hr
        cases hr
      · rw [FileHandler.setupRequest_started h hm hs hw]
        exact ⟨_, rfl⟩

theorem Start.info {v : Playing} (hv : v.Start) : ∃ p, v.info = ⟨some ⟨true, true, 0, 0⟩, some p, true⟩ := by
  obtain ⟨h, w, out, hr, hi, -⟩ := hv
  obtain ⟨p, hp⟩ := setupRequest_returned hr
  exact ⟨p, Option.some.inj (hi.symm.trans hp)⟩

theorem Start.sound {v : Playing} (hv : v.Start) : v.Sound := by
  obtain ⟨p, hi⟩ := hv.info
  obtain ⟨h, w, out, -, -, he⟩ := hv
  rw [hi] at he
  subst he
  exact ⟨⟨_, rfl, rfl⟩, trivial, fun _ => ⟨rfl, rfl⟩, fun h => nomatch h⟩

/-- **One step.** -/
theorem Sound.step {v v' : Playing} {a : PlayingAct} (hv : v.Sound) (h : v.step a = some v') : v'.Sound := by
  cases a with
  | session a =>
    obtain ⟨p, hp, rfl⟩ := step_session h
    exact ⟨hv.numbered, hv.numbered.next hv.fits hp, hv.unlinked, hv.stopped⟩
  | callback a =>
    obtain ⟨hn, hsession, hinfo, hsample⟩ := hv.numbered.callbackStep h
    obtain ⟨hlinked, -, hstopped, hout⟩ := callbackStep_frame h
    refine ⟨hn, hsession ▸ hv.fits.mono hinfo hsample, ?_, ?_⟩
    · intro hl
      rw [hlinked] at hl
      have := (hout (hv.unlinked hl).2).1
      rw [hl] at this
      cases this
    · intro hs
      rw [hstopped] at hs
      have := (hout (hv.stopped hs)).2
      rw [hs] at this
      cases this
  | bus a =>
    obtain ⟨b, rfl⟩ := step_bus h
    exact ⟨hv.numbered, hv.fits, hv.unlinked, hv.stopped⟩
  | pipeline a =>
    cases a with
    | padAdded type sinkPad links =>
      cases h
      refine ⟨hv.numbered, hv.fits, ?_, hv.stopped⟩
      intro hl
      exact hv.unlinked (Bool.or_eq_false_iff.mp hl).1
    | post m =>
      cases h
      exact ⟨hv.numbered, hv.fits, hv.unlinked, hv.stopped⟩
    | stop =>
      simp only [Playing.step, pipelineStep] at h
      split_ifs at h with hc
      cases h
      exact ⟨hv.numbered, hv.fits, hv.unlinked, fun _ => hc⟩

theorem sound {ok : Playing → PlayingAct → Prop} {v : Playing} (h : Reach Start step ok v) : v.Sound :=
  h.invariant Sound (fun _ => Start.sound) fun _ _ _ hv _ hst => hv.step hst

/-! ## What a call returns -/

/-- **The three threads and `FileHandler.playRequest`**: what a `PLAY` returns in any interleaving, it also returns from
the handler that `setup_request` has left. -/
theorem returned_playRequest {v : Playing} {r : Result} (hv : Reach Start step (fun _ _ => True) v)
    (hr : v.session = .returned r) {h : FileHandler} {w : Surroundings} {out : List Char}
    (hs : (h.setupRequest w).2 = .returned 0 out) : ∃ w', ((h.setupRequest w).1.playRequest w').2 = r := by
  obtain ⟨p, hp⟩ := setupRequest_returned hs
  have hfits := (sound hv).fits
  rw [hr] at hfits
  obtain rfl | ⟨n, -, rfl⟩ := hfits
  · refine ⟨{ Surroundings.able with stateChange := .failure }, ?_⟩
    simp [FileHandler.playRequest, hp, setState]
  · refine ⟨{ Surroundings.able with firstSample := some n }, ?_⟩
    simp [FileHandler.playRequest, hp, setState, Surroundings.able, FileHandler.firstPacket, FileHandler.playInfo]

theorem unlinked_first {v : Playing} (hv : Reach Start step (fun _ _ => True) v) (hl : v.linked = false) :
    v.info.first = true := by
  obtain ⟨hsample, hcallback⟩ := (sound hv).unlinked hl
  obtain ⟨s, -, hn⟩ := (sound hv).numbered
  rw [hcallback] at hn
  by_contra hf
  rw [hsample, if_neg hf] at hn
  cases hn

/-! ## The end of the samples -/

theorem stuck_forever {v v' : Playing} {a : PlayingAct} (hv : v.Sound) (hs : v.Stuck) (h : v.step a = some v') :
    v'.Stuck := by
  obtain ⟨hended, hstopped, hsession, hfirst⟩ := hs
  cases a with
  | session a =>
    simp only [Playing.step, hsession] at h
    cases a with
    | readFirst =>
      simp only [PlayAt.next, hfirst] at h
      cases h
      exact ⟨hended, hstopped, rfl, hfirst⟩
    | _ => cases h
  | callback a =>
    have hout := ((callbackStep_frame h).2.2.2 (hv.stopped hstopped)).2
    rw [hstopped] at hout
    cases hout
  | bus a =>
    obtain ⟨b, rfl⟩ := step_bus h
    exact ⟨hended, hstopped, hsession, hfirst⟩
  | pipeline a =>
    cases a with
    | padAdded | post =>
      cases h
      first
      | exact ⟨hended, hstopped, hsession, hfirst⟩
      | exact ⟨rfl, hstopped, hsession, hfirst⟩
    | stop =>
      simp only [Playing.step, pipelineStep, hv.stopped hstopped, if_true] at h
      cases h
      exact ⟨hended, rfl, hsession, hfirst⟩

/-- Where the samples have ended, what is stuck is a call that waits without a packet. -/
theorem stuck_iff {v : Playing} (hv : v.Sound) :
    v.Stuck ↔ v.ended = true ∧ v.stopped = true ∧ v.session = .waiting ∧ v.sample = none := by
  unfold Stuck
  apply and_congr_right
  intro _
  apply and_congr_right
  intro hstopped
  apply and_congr_right
  intro _
  obtain ⟨s, -, hn⟩ := hv.numbered
  rw [hv.stopped hstopped] at hn
  rw [hn]
  cases v.info.first <;> simp

/-- Once the samples have ended, a packet was read. -/
def Sampled (v : Playing) : Prop := v.stopped = true → v.sample.isSome = true

theorem Sampled.step {v v' : Playing} {a : PlayingAct} (hs : v.Sampled) (hv : v.Sound) (hok : AfterPacket v a)
    (h : v.step a = some v') : v'.Sampled := by
  cases a with
  | session a =>
    obtain ⟨p, -, rfl⟩ := step_session h
    exact hs
  | callback a =>
    intro hstopped
    rw [(callbackStep_frame h).2.2.1] at hstopped
    obtain ⟨n, hn⟩ := Option.isSome_iff_exists.mp (hs hstopped)
    rw [(hv.numbered.callbackStep h).2.2.2 n hn]
    rfl
  | bus a =>
    obtain ⟨b, rfl⟩ := step_bus h
    exact hs
  | pipeline a =>
    cases a with
    | padAdded | post =>
      cases h
      exact hs
    | stop =>
      simp only [Playing.step, pipelineStep] at h
      split_ifs at h
      cases h
      exact fun _ => hok rfl

theorem sampled {v : Playing} (h : Reach Start step AfterPacket v) : v.Sampled := by
  apply h.invariant_of Sampled (fun _ => sound) _ fun _ _ _ hv hs hok hst => hs.step hv hok hst
  rintro v ⟨h, w, out, -, -, he⟩ hstopped
  rw [he] at hstopped
  cases hstopped

/-- **A packet before the end**: where samples stop only after a packet was read, no call waits for one in vain. -/
theorem play_not_stuck {v : Playing} (h : Reach Start step AfterPacket v) : ¬ v.Stuck := by
  rw [stuck_iff (sound h)]
  rintro ⟨-, hstopped, -, hnone⟩
  have hsample := sampled h hstopped
  rw [hnone] at hsample
  cases hsample

/-- What a `SETUP` with everything able leaves. -/
def fresh : Playing :=
  ⟨⟨some ⟨true, true, 0, 0⟩, some 0, true⟩, .outside, .outside, .asking, [], false, false, false, none⟩

theorem start_fresh : fresh.Start := ⟨.new, .able, _, rfl, rfl, rfl⟩

def afterPacket (v : Playing) : PlayingAct → Bool
  | .pipeline .stop => v.sample.isSome
  | _ => true

/-- A stream that ends after one packet. -/
def onePacket : List PlayingAct :=
  [.session .call, .session (.setState .async), .pipeline (.padAdded (some "video/x-h264".toList) true true),
    .callback (.newSample true), .callback (.readFirst (some (7, 9))), .callback .storeSeq, .callback .storeRtptime,
    .session .readFirst, .callback .clearFirst, .callback .send, .pipeline .stop, .pipeline (.post .eos),
    .session .readFirst, .session .readSeq, .session .readRtptime]

theorem play_not_stuck_onePacket : ∃ v : Playing, v.session = .returned (.returned 0 "seq=7;rtptime=9".toList) ∧
    v.ended = true ∧ v.stopped = true ∧ ¬ v.Stuck := by
  have hcheck : ∀ v a, afterPacket v a = true → AfterPacket v a := by
    rintro v a h rfl
    exact h
  obtain ⟨v, hrun⟩ : ∃ v, run (checked afterPacket step) fresh onePacket = some v := ⟨_, rfl⟩
  have hv := hrun
  cases hv
  exact ⟨_, by decide, rfl, rfl, play_not_stuck (.of_checked afterPacket hcheck (.init start_fresh) hrun)⟩

/-- **A pipeline that ends without a packet**: the end of the stream is posted, and `play_request` waits. -/
theorem play_stuck : ¬ ∀ v, Reach Start step (fun _ _ => True) v → ¬ v.Stuck := by
  intro h
  have hrun : run step fresh [.session .call, .session (.setState .async), .pipeline .stop, .pipeline (.post .eos)] =
      some { fresh with session := .waiting, stopped := true, ended := true, bus := [.eos] } := rfl
  exact h _ (.of_run (.init start_fresh) hrun) ⟨rfl, rfl, rfl, rfl⟩

end Playing

end RpiCam.Rtsp
