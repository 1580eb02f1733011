import RpiCam.Event.System
import RpiCam.Rtsp.Handler

/-!
# The description of the live stream

`make_sdp` runs a pipeline until its bus has a message. The samples on the way leave their caps in `_codec_info`, and
whichever message it was, the call builds a description of what is there and keeps it in `_sdp_str`.

* `newSample` : the callback of the samples, which asks for the end of the stream once `H264CodecInfo.filled`;
* `LiveStream.step` : the calls, one after the other, with what happens in the pipeline of each;
* `Step` : what a step does, `step_sound`;
* `return_makeSdp` : each return is one of `makeSdp`;
* `Whole`, `Retries` : a kept description is the text of a whole one, and a call whose pipeline ended before that failed;
* `sdp_complete_iff` : both hold in every state of a run exactly where no pipeline ends early (`Ready`);
* `cached_error` : a pipeline that fails at once.
-/

namespace RpiCam.Rtsp

open Transition
open Video (BusMessage)

/-! ## The samples -/

/-- A value in a `GstStructure`. -/
inductive CapsValue
  | string (s : List Char)
  | int (n : Int32)
  | uint (n : UInt32)
  | other

/-- The structure of the caps of a sample, by its fields. -/
abbrev Caps := String → Option CapsValue

namespace Caps

variable (caps : Caps) (field : String)

def hasField : Bool := (caps field).isSome

def getString : Option (List Char) :=
  match caps field with
  | some (.string s) => some s
  | _ => none

def getInt : Option Int32 :=
  match caps field with
  | some (.int n) => some n
  | _ => none

def getUint : Option UInt32 :=
  match caps field with
  | some (.uint n) => some n
  | _ => none

end Caps

inductive FlowReturn
  | ok
  | eos
  | error
  deriving DecidableEq, Repr

/-- Nothing was filled in. -/
def H264CodecInfo.new : H264CodecInfo := ⟨[], [], [], [], 0, 0, []⟩

/-- The flag of lines 297 to 301, negated. -/
def H264CodecInfo.filled (c : H264CodecInfo) : Bool :=
  !(c.encodingName.isEmpty || c.clockRate == 0 || c.framerate.isEmpty || c.packetizationMode.isEmpty ||
    c.profileLevel.isEmpty || c.spropParam.isEmpty || c.ssrc == 0)

/-- Lines 216 to 293: what is there with its type is taken over. The profile is that of the frame rate. -/
def H264CodecInfo.read (c : H264CodecInfo) (caps : Caps) : H264CodecInfo where
  encodingName := (caps.getString "encoding-name").getD c.encodingName
  spropParam := (caps.getString "sprop-parameter-sets").getD c.spropParam
  clockRate := ((caps.getInt "clock-rate").map Int32.toUInt32).getD c.clockRate
  ssrc := (caps.getUint "ssrc").getD c.ssrc
  framerate := (caps.getString "a-framerate").getD c.framerate
  profileLevel :=
    if caps.hasField "profile-level-id" then (caps.getString "a-framerate").getD c.profileLevel else c.profileLevel
  packetizationMode := (caps.getString "packetization-mode").getD c.packetizationMode

/-- `multicast_sdp_new_sample_callback`, where a sample can be pulled or not. -/
def newSample (c : H264CodecInfo) : Option Caps → H264CodecInfo × FlowReturn
  | none => (c, .error)
  | some caps => (c.read caps, if (c.read caps).filled then .eos else .ok)

/-! ## The calls -/

inductive LivePhase
  /-- None is made. -/
  | idle
  /-- It waits for the bus. -/
  | waiting
  /-- A message has come, and the pipeline is still up. -/
  | ended
  deriving DecidableEq

/-- A return, for the record. -/
structure Return where
  ret : Int
  /-- A pipeline ended, or was not linked, when `_codec_info` was not filled. -/
  early : Bool
  /-- `_sdp_str` then. -/
  sdpStr : List Char
  queue : VideoQueue

/-- The stream of the process, the queue it takes frames from, and the call that is made. -/
structure LiveStream where
  multicast : MulticastStreamV4L2
  codecInfo : H264CodecInfo
  queue : VideoQueue
  phase : LivePhase
  /-- What `_sdp_str` was built from, for the record. -/
  built : Option H264CodecInfo
  returns : List Return

inductive LiveAct
  /-- `make_sdp`, whose elements can be linked or not. -/
  | call (links : Bool)
  | sample (sample : Option Caps)
  /-- What the bus gives. -/
  | message (message : Option BusMessage)
  /-- Lines 119 to 186. -/
  | build
  /-- Frames come and go, and other consumers. -/
  | others (queue : VideoQueue)

/-- The consumer of `make_sdp` is in neither map. -/
def Unregistered (v : VideoQueue) : Prop :=
  AList.lookup sdpName v.threadInfo = none ∧ AList.lookup sdpName v.output = none

/-- The consumer of `make_sdp` is where it was. -/
def SameSdp (v w : VideoQueue) : Prop :=
  AList.lookup sdpName w.threadInfo = AList.lookup sdpName v.threadInfo ∧
    AList.lookup sdpName w.output = AList.lookup sdpName v.output

instance (v w : VideoQueue) : Decidable (SameSdp v w) := inferInstanceAs (Decidable (_ ∧ _))

namespace LiveStream

def init (ipAddr : List Char) (port deviceFps : Int) : LiveStream :=
  ⟨⟨[], ipAddr, port⟩, .new, .new deviceFps, .idle, none, []⟩

/-- The call returns, with `_sdp_str` and the queue of `s`. -/
def answer (s : LiveStream) (ret : Int) (early : Bool) : LiveStream :=
  { s with phase := .idle, returns := s.returns ++ [⟨ret, early, s.multicast.sdpStr, s.queue⟩] }

/-- Lines 123 to 183. -/
def describe (asText : SdpMessage → List Char) (s : LiveStream) : LiveStream :=
  { s with
    multicast := { s.multicast with sdpStr := asText (sdpMessage (some s.multicast.ipAddr) s.codecInfo) }
    built := some s.codecInfo }

/-- One step. Nothing is left where the queue does what is undefined. -/
def step (asText : SdpMessage → List Char) (s : LiveStream) (a : LiveAct) : Option LiveStream :=
  match a, s.phase with
  | .call links, .idle =>
    if s.multicast.sdpStr ≠ [] then some (s.answer 0 false)
    else if links then
      match (s.queue.newThreadInfo 30 true).insertEvent sdpName s.queue.nextInfo with
      | .done v _ => some { s with queue := v, phase := .waiting }
      | _ => none
    else some (s.answer (-1) true)
  | .sample _, .idle => none
  | .sample sample, _ => some { s with codecInfo := (newSample s.codecInfo sample).1 }
  | .message none, .waiting => some s
  | .message (some _), .waiting => some { s with phase := .ended }
  | .build, .ended =>
    match s.queue.removeEvent sdpName with
    | .done v _ => some ((describe asText { s with queue := v }).answer 0 !s.codecInfo.filled)
    | _ => none
  | .others v, _ => if SameSdp s.queue v then some { s with queue := v } else none
  | _, _ => none

inductive Step (asText : SdpMessage → List Char) (s : LiveStream) : LiveAct → LiveStream → Prop
  | kept {links} : s.phase = .idle → s.multicast.sdpStr ≠ [] → Step asText s (.call links) (s.answer 0 false)
  | unlinked : s.phase = .idle → s.multicast.sdpStr = [] → Step asText s (.call false) (s.answer (-1) true)
  | started {v r} : s.multicast.sdpStr = [] →
      (s.queue.newThreadInfo 30 true).insertEvent sdpName s.queue.nextInfo = .done v r →
      Step asText s (.call true) { s with queue := v, phase := .waiting }
  | sample {x} : s.phase ≠ .idle → Step asText s (.sample x) { s with codecInfo := (newSample s.codecInfo x).1 }
  | silent : s.phase = .waiting → Step asText s (.message none) s
  | ended {m} : s.phase = .waiting → Step asText s (.message (some m)) { s with phase := .ended }
  | built {v r} : s.phase = .ended → s.queue.removeEvent sdpName = .done v r →
      Step asText s .build ((describe asText { s with queue := v }).answer 0 !s.codecInfo.filled)
  | others {v} : SameSdp s.queue v → Step asText s (.others v) { s with queue := v }

variable {asText : SdpMessage → List Char} {s s' : LiveStream} {a : LiveAct}

theorem step_sound (h : step asText s a = some s') : Step asText s a s' := by
  unfold step at h
  split at h
  · rename_i links hp
    split_ifs at h with h1 h2
    · cases h
      exact .kept hp h1
    · rw [not_not] at h1
      rw [h2]
      split at h
      · cases h
        exact .started h1 (by assumption)
      · cases h
    · cases h
      rw [not_not] at h1
      rw [Bool.eq_false_iff.mpr h2]
      exact .unlinked hp h1
  · cases h
  · rename_i hp
    cases h
    exact .sample fun hidle => hp hidle
  · rename_i hp
    cases h
    exact .silent hp
  · rename_i hp
    cases h
    exact .ended hp
  · rename_i hp
    split at h
    · cases h
      exact .built hp (by assumption)
    · cases h
  · split_ifs at h with hv
    cases h
    exact .others hv
  · cases h

/-- The next call can begin, or the one that waits will build a description. -/
structure Sound (s : LiveStream) : Prop where
  idle : s.phase = .idle → Unregistered s.queue
  waits : s.phase ≠ .idle → s.multicast.sdpStr = []

theorem sound_init (ipAddr : List Char) (port deviceFps : Int) : Sound (init ipAddr port deviceFps) :=
  ⟨fun _ => ⟨rfl, rfl⟩, fun h => absurd rfl h⟩

theorem unregistered_of_removed {v w : VideoQueue} {r : Int} (h : v.removeEvent sdpName = .done w r) :
    Unregistered w := by
  obtain ⟨hinfo, hout, -⟩ := VideoQueue.removeEvent_done h
  refine ⟨?_, ?_⟩
  · rw [hinfo, UnorderedMap.lookup_erase', if_pos rfl]
  · rw [hout, UnorderedMap.lookup_erase', if_pos rfl]

theorem unregistered_of_same {v w : VideoQueue} (h : SameSdp v w) (hv : Unregistered v) : Unregistered w :=
  ⟨h.1.trans hv.1, h.2.trans hv.2⟩

theorem sound_step (hs : Sound s) (h : Step asText s a s') : Sound s' := by
  cases h with
  | kept hp hsdp => exact ⟨fun _ => hs.idle hp, fun hn => absurd rfl hn⟩
  | unlinked hp hsdp => exact ⟨fun _ => hs.idle hp, fun hn => absurd rfl hn⟩
  | started hsdp hv => exact ⟨nofun, fun _ => hsdp⟩
  | sample hp => exact ⟨fun hidle => absurd hidle hp, hs.waits⟩
  | silent hp => exact hs
  | ended hp => exact ⟨nofun, fun _ => hs.waits (by rw [hp]; exact nofun)⟩
  | built hp hv => exact ⟨fun _ => unregistered_of_removed hv, fun hn => absurd rfl hn⟩
  | others hv => exact ⟨fun hp => unregistered_of_same hv (hs.idle hp), hs.waits⟩

/-- **Each return is one of `makeSdp`**, for surroundings with what the samples have left and a message on the bus. -/
theorem return_makeSdp (hs : Sound s) (h : Step asText s a s') : s'.returns = s.returns ∨
    ∃ r w, s'.returns = s.returns ++ [r] ∧ w.asText = asText ∧ w.codecInfo = s.codecInfo ∧
      makeSdp s.multicast w = (s'.multicast, .returned r.ret r.sdpStr) := by
  set w : Surroundings := { Surroundings.able with asText := asText, codecInfo := s.codecInfo } with hw
  cases h with
  | kept hp hsdp =>
    refine Or.inr ⟨_, w, rfl, rfl, rfl, ?_⟩
    exact if_pos hsdp
  | unlinked hp hsdp =>
    refine Or.inr ⟨_, { w with links := false }, rfl, rfl, rfl, ?_⟩
    show (if s.multicast.sdpStr ≠ [] then _ else _) = (s.multicast, Result.returned (-1) s.multicast.sdpStr)
    rw [if_neg (not_not.mpr hsdp), hsdp]
    rfl
  | built hp hv =>
    refine Or.inr ⟨_, w, rfl, rfl, rfl, ?_⟩
    have hsdp : s.multicast.sdpStr = [] := hs.waits (by rw [hp]; exact nofun)
    exact if_neg (not_not.mpr hsdp)
  | _ => exact Or.inl rfl

/-! ## Whole descriptions -/

/-- What `_sdp_str` was built from was filled, and it is the text of a description with both attributes. -/
def Whole (asText : SdpMessage → List Char) (s : LiveStream) : Prop :=
  s.multicast.sdpStr ≠ [] → ∃ c, s.built = some c ∧ c.filled = true ∧
    s.multicast.sdpStr = asText (sdpMessage (some s.multicast.ipAddr) c) ∧
      ("fmtp", c.fmtp) ∈ (sdpMessage (some s.multicast.ipAddr) c).attributes ∧
      ("rtpmap", c.rtpmap) ∈ (sdpMessage (some s.multicast.ipAddr) c).attributes

/-- A call whose pipeline ended early failed, kept nothing, and left no consumer. -/
def Retries (s : LiveStream) : Prop :=
  ∀ r ∈ s.returns, r.early = true → r.ret ≠ 0 ∧ r.sdpStr = [] ∧ Unregistered r.queue

/-- Where a description is built, the samples have filled in the seven fields, and the encoding is H.264. -/
def Ready (asText : SdpMessage → List Char) (s : LiveStream) (a : LiveAct) : Prop :=
  a = .build → (step asText s .build).isSome → s.codecInfo.filled = true ∧ s.codecInfo.encodingName = "H264".toList

theorem attributes_iff (connection : Option (List Char)) (c : H264CodecInfo) :
    (("fmtp", c.fmtp) ∈ (sdpMessage connection c).attributes ∧
      ("rtpmap", c.rtpmap) ∈ (sdpMessage connection c).attributes) ↔ c.encodingName = "H264".toList := by
  unfold sdpMessage
  split_ifs with h
  · exact iff_of_true ⟨by simp, by simp⟩ h
  · refine iff_of_false ?_ h
    rintro ⟨hfmtp, -⟩
    rw [List.mem_singleton, Prod.mk.injEq] at hfmtp
    exact absurd hfmtp.1 (by decide)

theorem kept_step (hs : Sound s) (hP : Whole asText s ∧ Retries s) (h : Step asText s a s') (ha : a ≠ .build) :
    Whole asText s' ∧ Retries s' := by
  have hmore : ∀ r : Return, (r.early = true → r.ret ≠ 0 ∧ r.sdpStr = [] ∧ Unregistered r.queue) →
      ∀ r' ∈ s.returns ++ [r], r'.early = true → r'.ret ≠ 0 ∧ r'.sdpStr = [] ∧ Unregistered r'.queue := by
    intro r hr r' hr' hearly
    rcases List.mem_append.mp hr' with hr' | hr'
    · exact hP.2 r' hr' hearly
    · rw [List.mem_singleton.mp hr'] at hearly ⊢
      exact hr hearly
  cases h with
  | kept hp hsdp => exact ⟨hP.1, hmore _ nofun⟩
  | unlinked hp hsdp => exact ⟨hP.1, hmore _ fun _ => ⟨Int.negSucc_ne_zero 0, hsdp, hs.idle hp⟩⟩
  | built hp hv => exact absurd rfl ha
  | _ => exact hP

theorem built_iff (hText : ∀ msg, asText msg ≠ []) (hP : Whole asText s ∧ Retries s) (h : step asText s .build = some s') :
    (Whole asText s' ∧ Retries s') ↔ Ready asText s .build := by
  have hready : Ready asText s .build ↔ s.codecInfo.filled = true ∧ s.codecInfo.encodingName = "H264".toList := by
    constructor
    · intro hr
      exact hr rfl (by rw [h]; rfl)
    · exact fun hr _ _ => hr
  rw [hready]
  have hstep := step_sound h
  cases hstep with
  | @built v r hp hv =>
    constructor
    · rintro ⟨hwhole, hretries⟩
      obtain ⟨c, hc, hfilled, -, hattr⟩ := hwhole (hText _)
      cases hc
      exact ⟨hfilled, (attributes_iff _ _).mp hattr⟩
    · rintro ⟨hfilled, hname⟩
      refine ⟨fun _ => ⟨s.codecInfo, rfl, hfilled, rfl, (attributes_iff _ _).mpr hname⟩, ?_⟩
      intro r' hr' hearly
      rcases List.mem_append.mp hr' with hr' | hr'
      · exact hP.2 r' hr' hearly
      · rw [List.mem_singleton.mp hr', hfilled] at hearly
        cases hearly

/-- **The description that is kept is a whole one**, and a call whose pipeline ends early fails and leaves nothing, in
every state of a run exactly where every pipeline that ends has filled in the seven fields of an H.264 stream. -/
theorem sdp_complete_iff (asText : SdpMessage → List Char) (hText : ∀ msg, asText msg ≠ []) (ipAddr : List Char)
    (port deviceFps : Int) (acts : List LiveAct) :
    Always (step asText) (fun s => Whole asText s ∧ Retries s) (init ipAddr port deviceFps) acts ↔
      Along (step asText) (Ready asText) (init ipAddr port deviceFps) acts := by
  refine always_iff_along Sound ?_ ?_ (sound_init ipAddr port deviceFps) ⟨fun h => absurd rfl h, nofun⟩ acts
  · intro s a s' hs hP h
    refine ⟨sound_step hs (step_sound h), ?_⟩
    by_cases ha : a = .build
    · subst ha
      exact built_iff hText hP h
    · exact iff_of_true (kept_step hs hP (step_sound h) ha) fun he => absurd he ha
  · intro s a hnone ha hsome
    rw [← ha, hnone] at hsome
    cases hsome

def payCaps : Caps := fun field =>
  match field with
  | "encoding-name" => some (.string "H264".toList)
  | "sprop-parameter-sets" => some (.string "Z0LA,aM4G".toList)
  | "clock-rate" => some (.int 90000)
  | "ssrc" => some (.uint 7)
  | "a-framerate" => some (.string ['3', '0'])
  | "profile-level-id" => some (.string ['4', '2'])
  | "packetization-mode" => some (.string ['1'])
  | _ => none

/-- The line of an attribute. -/
def attributeLine (a : String × List Char) : List Char :=
  "a=".toList ++ a.1.toList ++ (if a.2.isEmpty then [] else ':' :: a.2) ++ "\r\n".toList

/-- `gst_sdp_message_as_text`, on a device at 10.0.0.1 and for a multicast address. -/
def sdpText (msg : SdpMessage) : List Char :=
  "v=0\r\no=- 1700000000 0 IN IP4 10.0.0.1\r\ns=Hydra RTSP Session\r\n".toList ++
    (match msg.connection with
    | none => []
    | some address => "c=IN IP4 ".toList ++ address ++ "/32\r\n".toList) ++
    "t=0 0\r\nm=video 0 RTP/AVP".toList ++ msg.formats.flatMap (fun format => ' ' :: format) ++ "\r\n".toList ++
    msg.attributes.flatMap attributeLine

/-- A sample, the end of the stream, and a second call. -/
def fullRun : List LiveAct :=
  [.call true, .message none, .sample (some payCaps), .message (some .eos), .build, .call true]

def ready (s : LiveStream) : LiveAct → Bool
  | .build => s.codecInfo.filled && s.codecInfo.encodingName = "H264".toList
  | _ => true

theorem ready_sound (s : LiveStream) (a : LiveAct) (h : ready s a = true) : Ready asText s a := by
  rintro rfl -
  simpa [ready] using h

def fullSdp : List Char :=
  ("v=0\r\no=- 1700000000 0 IN IP4 10.0.0.1\r\ns=Hydra RTSP Session\r\nc=IN IP4 239.255.1.1/32\r\nt=0 0\r\n" ++
    "m=video 0 RTP/AVP 96\r\na=fmtp:96 packetization-mode=1;sprop-parameter-sets=Z0LA,aM4G;profile-level-id=30\r\n" ++
    "a=rtpmap:96 H264/90000\r\na=framerate:30\r\n").toList

theorem sdp_complete_full :
    (∃ s, Transition.run (step sdpText) (init "239.255.1.1".toList 5004 30) fullRun = some s ∧
      s.returns.map Return.ret = [0, 0] ∧ s.multicast.sdpStr = fullSdp) ∧
    Always (step sdpText) (fun s => Whole sdpText s ∧ Retries s) (init "239.255.1.1".toList 5004 30) fullRun := by
  have hrun : ∃ s, Transition.run (checked ready (step sdpText)) (init "239.255.1.1".toList 5004 30) fullRun =
      some s ∧ s.returns.map Return.ret = [0, 0] ∧ s.multicast.sdpStr = fullSdp := ⟨_, rfl, rfl, by decide +kernel⟩
  obtain ⟨s, hs, hret, hsdp⟩ := hrun
  obtain ⟨hs', halong⟩ := along_of_checked ready ready_sound hs
  refine ⟨⟨s, hs', hret, hsdp⟩, ?_⟩
  apply (sdp_complete_iff sdpText (fun _ => List.cons_ne_nil _ _) "239.255.1.1".toList 5004 30 fullRun).mpr
  exact halong

/-- **A pipeline that fails at once.** The description has no attribute of the stream, the call answers 0, and every
later one gives the same. -/
theorem cached_error : ¬ Always (step sdpText) (fun s => Whole sdpText s ∧ Retries s)
    (init "239.255.1.1".toList 5004 30) [.call true, .message (some .error), .build] := by
  intro h
  have hwhole := (h _ (List.prefix_refl _) _ rfl).1
  obtain ⟨c, hc, hfilled, -⟩ := hwhole (List.cons_ne_nil _ _)
  cases hc
  exact absurd hfilled (by decide)

end LiveStream

end RpiCam.Rtsp
