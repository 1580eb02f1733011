import RpiCam.Rtsp.MakeSdp

/-!
# What a description takes from the caps

Two callbacks read the same seven fields of the caps of a sample: `new_sample_callback` for a file, and
`multicast_sdp_new_sample_callback` for the live stream, which is `newSample`.

* `Caps.take`, `newSampleCallback` : one field, and the callback of a file, field by field;
* `newSampleCallback_fst` : it reads what `newSample` reads;
* `lastOf` : the last value that a sequence of samples has, `foldl_lastOf`;
* `fileInfo`, `liveInfo`, `described` : the two after a sequence, and what it says;
* `fileInfo_eq_liveInfo`, `liveInfo_eq` : the two agree, and all but the profile is what the sequence says;
* `SdpLaw`, `sdp_law_iff` : what a sequence is to leave, and the sequences that do.
-/

namespace RpiCam.Rtsp

/-! ## The callback of a file -/

/-- The lines of one field: `field` is asked for, and `source` is read. -/
def Caps.take {β : Type} (caps : Caps) (field : String) (get : Caps → String → Option β) (source : String)
    (assign : H264CodecInfo → β → H264CodecInfo) (c : H264CodecInfo) : H264CodecInfo :=
  if caps.hasField field then
    match get caps source with
    | some value => assign c value
    | none => c
  else c

/-- `gst_structure_get_int` with `static_cast<uint32_t>`. -/
def Caps.getIntAsUint (caps : Caps) (field : String) : Option UInt32 := (caps.getInt field).map Int32.toUInt32

/-- Lines 228 to 306 of `new_sample_callback`. -/
def H264CodecInfo.readFile (c : H264CodecInfo) (caps : Caps) : H264CodecInfo :=
  c |> caps.take "encoding-name" Caps.getString "encoding-name" (fun c s => { c with encodingName := s })
    |> caps.take "sprop-parameter-sets" Caps.getString "sprop-parameter-sets" (fun c s => { c with spropParam := s })
    |> caps.take "clock-rate" Caps.getIntAsUint "clock-rate" (fun c n => { c with clockRate := n })
    |> caps.take "ssrc" Caps.getUint "ssrc" (fun c n => { c with ssrc := n })
    |> caps.take "a-framerate" Caps.getString "a-framerate" (fun c s => { c with framerate := s })
    -- the field that is asked for is not the one that is read
    |> caps.take "profile-level-id" Caps.getString "a-framerate" (fun c s => { c with profileLevel := s })
    |> caps.take "packetization-mode" Caps.getString "packetization-mode" (fun c s => { c with packetizationMode := s })

/-- `new_sample_callback`, which never asks for the end of the stream. -/
def newSampleCallback (c : H264CodecInfo) : Option Caps → H264CodecInfo × FlowReturn
  | none => (c, .error)
  | some caps => (c.readFile caps, .ok)

theorem take_eq {β : Type} (caps : Caps) (field : String) (get : Caps → String → Option β) (source : String)
    {assign : H264CodecInfo → β → H264CodecInfo} {read : H264CodecInfo → β} (h : ∀ c, assign c (read c) = c)
    (c : H264CodecInfo) :
    caps.take field get source assign c =
      assign c (if caps.hasField field then (get caps source).getD (read c) else read c) := by
  unfold Caps.take
  split_ifs
  · cases get caps source with
    | none => exact (h c).symm
    | some v => rfl
  · exact (h c).symm

theorem getD_of_hasField {β : Type} {get : Caps → String → Option β} {caps : Caps} {field : String}
    (hget : caps field = none → get caps field = none) (v : β) :
    (if caps.hasField field then (get caps field).getD v else v) = (get caps field).getD v := by
  unfold Caps.hasField
  cases hf : caps field with
  | none =>
    rw [hget hf]
    rfl
  | some w => rfl

theorem getString_of_none {caps : Caps} {field : String} (h : caps field = none) : caps.getString field = none := by
  simp only [Caps.getString, h]

theorem getIntAsUint_of_none {caps : Caps} {field : String} (h : caps field = none) :
    caps.getIntAsUint field = none := by
  simp only [Caps.getIntAsUint, Caps.getInt, h, Option.map_none]

theorem getUint_of_none {caps : Caps} {field : String} (h : caps field = none) : caps.getUint field = none := by
  simp only [Caps.getUint, h]

/-- **The callback of a file reads what that of the live stream reads.** -/
theorem readFile_eq (c : H264CodecInfo) (caps : Caps) : c.readFile caps = c.read caps := by
  unfold H264CodecInfo.readFile
  rw [take_eq caps "encoding-name" Caps.getString _ fun c => (rfl : { c with encodingName := c.encodingName } = c),
    take_eq caps "sprop-parameter-sets" Caps.getString _ fun c => (rfl : { c with spropParam := c.spropParam } = c),
    take_eq caps "clock-rate" Caps.getIntAsUint _ fun c => (rfl : { c with clockRate := c.clockRate } = c),
    take_eq caps "ssrc" Caps.getUint _ fun c => (rfl : { c with ssrc := c.ssrc } = c),
    take_eq caps "a-framerate" Caps.getString _ fun c => (rfl : { c with framerate := c.framerate } = c),
    take_eq caps "profile-level-id" Caps.getString _ fun c => (rfl : { c with profileLevel := c.profileLevel } = c),
    take_eq caps "packetization-mode" Caps.getString _ fun c => (rfl : { c with packetizationMode := c.packetizationMode } = c)]
  simp only [getD_of_hasField getString_of_none, getD_of_hasField getIntAsUint_of_none, getD_of_hasField getUint_of_none]
  rfl

/-- The two callbacks leave the same fields; they differ in the end of the stream. -/
theorem newSampleCallback_fst (c : H264CodecInfo) (sample : Option Caps) :
    (newSampleCallback c sample).1 = (newSample c sample).1 := by
  cases sample with
  | none => rfl
  | some caps => exact readFile_eq c caps

/-! ## A sequence of samples -/

/-- The last value that a sample has, if one does. -/
def lastOf {β : Type} (get : Caps → Option β) (samples : List (Option Caps)) : Option β :=
  (samples.filterMap fun sample => sample.bind get).getLast?

/-- `_codec_info` of a file after the samples. -/
def fileInfo (c : H264CodecInfo) (samples : List (Option Caps)) : H264CodecInfo :=
  samples.foldl (fun c sample => (newSampleCallback c sample).1) c

/-- `_codec_info` of the live stream after the samples. -/
def liveInfo (c : H264CodecInfo) (samples : List (Option Caps)) : H264CodecInfo :=
  samples.foldl (fun c sample => (newSample c sample).1) c

/-- What the samples say: of each field the last value that is there. -/
def described (c : H264CodecInfo) (samples : List (Option Caps)) : H264CodecInfo where
  encodingName := (lastOf (·.getString "encoding-name") samples).getD c.encodingName
  spropParam := (lastOf (·.getString "sprop-parameter-sets") samples).getD c.spropParam
  framerate := (lastOf (·.getString "a-framerate") samples).getD c.framerate
  profileLevel := (lastOf (·.getString "profile-level-id") samples).getD c.profileLevel
  clockRate := (lastOf (·.getIntAsUint "clock-rate") samples).getD c.clockRate
  ssrc := (lastOf (·.getUint "ssrc") samples).getD c.ssrc
  packetizationMode := (lastOf (·.getString "packetization-mode") samples).getD c.packetizationMode

/-- The frame rate, where a sample has a profile. -/
def crossed (caps : Caps) : Option (List Char) :=
  if caps.hasField "profile-level-id" then caps.getString "a-framerate" else none

theorem lastOf_cons {β : Type} (get : Caps → Option β) (sample : Option Caps) (samples : List (Option Caps)) :
    lastOf get (sample :: samples) = (lastOf get samples).or (sample.bind get) := by
  unfold lastOf
  have hcons : (sample :: samples).filterMap (fun sample => sample.bind get) =
      (sample.bind get).toList ++ samples.filterMap fun sample => sample.bind get := by
    rw [List.filterMap_cons]
    cases sample.bind get <;> rfl
  rw [hcons, List.getLast?_append]
  cases sample.bind get <;> rfl

/-- A field that each sample overwrites with a value of its own holds the last of these. -/
theorem foldl_lastOf {β : Type} (read : H264CodecInfo → β) (get : Caps → Option β)
    (h : ∀ c caps, read (c.read caps) = (get caps).getD (read c)) (samples : List (Option Caps)) (c : H264CodecInfo) :
    read (liveInfo c samples) = (lastOf get samples).getD (read c) := by
  induction samples generalizing c with
  | nil => rfl
  | cons sample samples ih =>
    have hstep : read (newSample c sample).1 = (sample.bind get).getD (read c) := by
      cases sample with
      | none => rfl
      | some caps => exact h c caps
    show read (liveInfo (newSample c sample).1 samples) = _
    rw [ih, lastOf_cons, hstep]
    cases lastOf get samples <;> rfl

/-- The profile is the frame rate of the samples that have one. -/
theorem read_profileLevel (c : H264CodecInfo) (caps : Caps) :
    (c.read caps).profileLevel = (crossed caps).getD c.profileLevel := by
  unfold H264CodecInfo.read crossed
  dsimp only
  split_ifs <;> rfl

/-- **The two copies agree**, field by field, after every sequence. -/
theorem fileInfo_eq_liveInfo (c : H264CodecInfo) (samples : List (Option Caps)) :
    fileInfo c samples = liveInfo c samples := by
  unfold fileInfo liveInfo
  congr 1
  funext c sample
  exact newSampleCallback_fst c sample

/-- **Every field but the profile is as the samples say**; the profile is the last frame rate beside one. -/
theorem liveInfo_eq (c : H264CodecInfo) (samples : List (Option Caps)) :
    liveInfo c samples =
      { described c samples with profileLevel := (lastOf crossed samples).getD c.profileLevel } := by
  have hname := foldl_lastOf H264CodecInfo.encodingName (·.getString "encoding-name") (fun _ _ => rfl) samples c
  have hsprop := foldl_lastOf H264CodecInfo.spropParam (·.getString "sprop-parameter-sets") (fun _ _ => rfl) samples c
  have hrate := foldl_lastOf H264CodecInfo.framerate (·.getString "a-framerate") (fun _ _ => rfl) samples c
  have hprofile := foldl_lastOf H264CodecInfo.profileLevel crossed read_profileLevel samples c
  have hclock := foldl_lastOf H264CodecInfo.clockRate (·.getIntAsUint "clock-rate") (fun _ _ => rfl) samples c
  have hssrc := foldl_lastOf H264CodecInfo.ssrc (·.getUint "ssrc") (fun _ _ => rfl) samples c
  have hmode := foldl_lastOf H264CodecInfo.packetizationMode (·.getString "packetization-mode") (fun _ _ => rfl) samples c
  unfold described
  rw [← hname, ← hsprop, ← hrate, ← hprofile, ← hclock, ← hssrc, ← hmode]

/-! ## The law -/

/-- What the samples are to leave in both copies: the last value of each field, and so in the lines of the description. -/
structure SdpLaw (c : H264CodecInfo) (samples : List (Option Caps)) : Prop where
  file : fileInfo c samples = described c samples
  live : liveInfo c samples = described c samples
  agree : fileInfo c samples = liveInfo c samples
  message : ∀ connection,
    sdpMessage connection (fileInfo c samples) = sdpMessage connection (described c samples) ∧
      sdpMessage connection (liveInfo c samples) = sdpMessage connection (described c samples)

/-- **The samples leave what they say exactly where the frame rate beside a profile is the profile**: the last frame rate
of the samples that have a profile, and the last profile, are the same. -/
theorem sdp_law_iff (c : H264CodecInfo) (samples : List (Option Caps)) :
    SdpLaw c samples ↔
      (lastOf crossed samples).getD c.profileLevel =
        (lastOf (·.getString "profile-level-id") samples).getD c.profileLevel := by
  constructor
  · intro h
    have hprofile := congrArg H264CodecInfo.profileLevel h.live
    rw [liveInfo_eq] at hprofile
    exact hprofile
  · intro h
    have hlive : liveInfo c samples = described c samples := by
      rw [liveInfo_eq, h]
      rfl
    have hfile : fileInfo c samples = described c samples := (fileInfo_eq_liveInfo c samples).trans hlive
    exact ⟨hfile, hlive, fileInfo_eq_liveInfo c samples, fun connection => ⟨by rw [hfile], by rw [hlive]⟩⟩

/-- The profile of `payCaps` is 42, and its frame rate 30. -/
theorem crossed_profile : ¬ SdpLaw .new [some LiveStream.payCaps] ∧
    (described .new [some LiveStream.payCaps]).profileLevel = ['4', '2'] ∧
    (fileInfo .new [some LiveStream.payCaps]).profileLevel = ['3', '0'] ∧
    (liveInfo .new [some LiveStream.payCaps]).profileLevel = ['3', '0'] := by
  have hsaid : (described .new [some LiveStream.payCaps]).profileLevel = ['4', '2'] := by decide
  have hleft : (liveInfo .new [some LiveStream.payCaps]).profileLevel = ['3', '0'] := by decide
  refine ⟨fun h => ?_, hsaid, (congrArg _ (fileInfo_eq_liveInfo _ _)).trans hleft, hleft⟩
  rw [h.live, hsaid] at hleft
  exact absurd hleft (by decide)

end RpiCam.Rtsp
