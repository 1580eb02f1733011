import RpiCam.Lib.Ledger
import RpiCam.Video.Handler

/-!
# What serves an RTSP session

`RTSPSessionHandlerGstFile` sends a recorded file, with pipelines of its own, and `RTSPSessionHandlerGstLive` sends what
the one `MulticastStreamV4L2` of the process knows. A session calls one method for each request it understands.

* `Surroundings` : what GStreamer, the files and the sockets answer to a call;
* `FileHandler` : the pointers of a file handler, and the references of the pipelines that `setup_request` makes;
* `FileHandler.setupRequest` and its siblings : the methods, with each pointer they follow;
* `makeSdp` : the description of the live stream;
* `Handler.call` : the virtual call.

A null pointer that is followed ends the call with the fault `nullDereference`, and what `play_request` waits for may
never come. A call that does not return ends the session.
-/

namespace RpiCam.Rtsp

open Video (BusMessage busLoop)

/-! ## What a call meets -/

inductive StateChange
  | failure
  | success
  | async
  | noPreroll
  deriving DecidableEq, Repr

structure H264CodecInfo where
  encodingName : List Char
  spropParam : List Char
  framerate : List Char
  profileLevel : List Char
  clockRate : UInt32
  ssrc : UInt32
  packetizationMode : List Char

/-- A number as `std::to_string` writes it. -/
def toStdString (n : Nat) : List Char := Nat.toDigits 10 n

/-- The session description that `gst_sdp_message_as_text` gets: the address of a multicast stream, and its one `m=`
section, with the formats and the `a=` lines in their order. -/
structure SdpMessage where
  connection : Option (List Char)
  formats : List (List Char)
  attributes : List (String × List Char)

def H264CodecInfo.fmtp (c : H264CodecInfo) : List Char :=
  "96 packetization-mode=".toList ++ c.packetizationMode ++ ";sprop-parameter-sets=".toList ++ c.spropParam ++
    ";profile-level-id=".toList ++ c.profileLevel

def H264CodecInfo.rtpmap (c : H264CodecInfo) : List Char :=
  "96 ".toList ++ c.encodingName ++ "/".toList ++ toStdString c.clockRate.toNat

/-- Lines 133 to 186 of `describe_request`, and 123 to 179 of `make_sdp`. -/
def sdpMessage (connection : Option (List Char)) (c : H264CodecInfo) : SdpMessage :=
  if c.encodingName = "H264".toList then
    ⟨connection, ["96".toList], [("fmtp", c.fmtp), ("rtpmap", c.rtpmap), ("framerate", c.framerate)]⟩
  else ⟨connection, [], [("framerate", c.framerate)]⟩

/-- `MulticastStreamV4L2`, as far as a session sees it. -/
structure MulticastStreamV4L2 where
  sdpStr : List Char
  ipAddr : List Char
  port : Int

/-- The files that hold a session description, by their paths. -/
abbrev SdpFiles := List Char → Option (List Char)

/-- What one call of a handler meets. -/
structure Surroundings where
  /-- `gst_pipeline_new` makes a pipeline. -/
  pipeline : Bool
  /-- Every other element is made. -/
  elements : Bool
  /-- `gst_element_link_many` links them. -/
  links : Bool
  /-- What the state change that is asked for comes to. -/
  stateChange : StateChange
  /-- What the bus gives, time after time. -/
  bus : List (Option BusMessage)
  /-- What the samples of the pipeline have left by then. -/
  codecInfo : H264CodecInfo
  /-- `gst_sdp_message_as_text`, which also knows the time and the address of the device. -/
  asText : SdpMessage → List Char
  /-- The number and the time of the first packet that reaches the sink, if one does. -/
  firstSample : Option (UInt16 × UInt32)
  /-- The calls on the sockets succeed. -/
  sockets : Bool
  /-- The port that `bind` has chosen. -/
  localPort : UInt16
  sdpFiles : SdpFiles
  /-- How many bytes the file of a new description takes; `none` where it does not open. -/
  sdpOut : Option Nat
  multicast : MulticastStreamV4L2

/-- Everything GStreamer can do, it does. -/
def Surroundings.able : Surroundings where
  pipeline := true
  elements := true
  links := true
  stateChange := .success
  bus := [some .eos]
  codecInfo := ⟨"H264".toList, [], [], [], 90000, 0, []⟩
  asText _ := "v=0".toList
  firstSample := some (1, 2)
  sockets := true
  localPort := 5000
  sdpFiles _ := none
  sdpOut := some 3
  multicast := ⟨[], [], 0⟩

/-- What ends a call other than a return. -/
inductive Fault
  /-- An exception, which nothing catches. -/
  | threw
  | nullDereference
  /-- It waits, for a message or for a packet, and none comes. -/
  | waits
  deriving DecidableEq, Repr

/-- What a method comes to: its value, and the string that it gives back. -/
inductive Result
  | returned (ret : Int) (out : List Char)
  | failed (fault : Fault)
  deriving DecidableEq, Repr

/-- `gst_element_set_state`, which refuses a null pointer. -/
def setState (element : Option Nat) (change : StateChange) : StateChange :=
  if element.isSome then change else .failure

/-! ## The file handler -/

/-- `RTPSessionInfo`: whether its sockets are there, and the numbers of the first packet. -/
structure RtpSessionInfo where
  rtpSocket : Bool
  rtcpSocket : Bool
  initSeq : UInt16
  initRtptime : UInt32

/-- `RTPSessionInfoGst`; its pipeline is known by its number. -/
structure RtpSessionInfoGst where
  sessionInfo : Option RtpSessionInfo
  pipeline : Option Nat
  first : Bool

/-- `_rtp_info`, and the references of the pipelines that `setup_request` has made. -/
structure FileHandler where
  rtpInfo : Option RtpSessionInfoGst
  pipelines : Ledger

namespace FileHandler

def new : FileHandler := ⟨none, .empty⟩

/-- `gst_object_unref`; a null pointer is refused. -/
def unref (h : FileHandler) : Option Nat → FileHandler
  | none => h
  | some p => { h with pipelines := h.pipelines.release p }

/-- `delete` of an `RTPSessionInfoGst`: its destructor. -/
def deleteInfo (h : FileHandler) (info : RtpSessionInfoGst) : FileHandler := h.unref info.pipeline

/-- Lines 36 to 38 of `setup_request`, and the first of the destructor. -/
def deleteRtpInfo (h : FileHandler) : FileHandler :=
  match h.rtpInfo with
  | none => h
  | some info => h.deleteInfo info

/-- Line 45. -/
def newPipeline (h : FileHandler) (made : Bool) : FileHandler × Option Nat :=
  if made then ({ h with pipelines := h.pipelines.create }, some h.pipelines.created) else (h, none)

/-- The `Transport` parameter with the ports of the server. -/
def serverPort (port : UInt16) : List Char :=
  "server_port=".toList ++ toStdString port.toNat ++ "-".toList ++ toStdString (port.toNat + 1)

def optionRequest : Result := .returned 0 "DESCRIBE, OPTIONS, SETUP, PLAY, TEARDOWN, PAUSE".toList

/-- Line 23 of `describe_request`. -/
def sdpPath (path : List Char) : List Char := (path.takeWhile fun c => c ≠ '.') ++ ".sdp".toList

/-- `describe_request`, and the files after it. -/
def describeRequest (path : List Char) (w : Surroundings) : SdpFiles × Result :=
  match w.sdpFiles (sdpPath path) with
  | some sdp => (w.sdpFiles, .returned 0 sdp)
  | none =>
    if !w.pipeline || !w.elements then (w.sdpFiles, .returned 1 [])
    else if !busLoop w.bus then (w.sdpFiles, .failed .waits)
    else
      let sdp := w.asText (sdpMessage none w.codecInfo)
      match w.sdpOut with
      | none => (w.sdpFiles, .returned 2 sdp)
      | some n => (Function.update w.sdpFiles (sdpPath path) (some (sdp.take n)), .returned 0 sdp)

def setupRequest (h : FileHandler) (w : Surroundings) : FileHandler × Result :=
  let h := h.deleteRtpInfo
  let made := h.newPipeline w.pipeline
  let info : RtpSessionInfoGst := ⟨some ⟨false, false, 0, 0⟩, none, true⟩
  if !w.pipeline || !w.elements then
    ({ ((made.1.unref made.2).deleteInfo info) with rtpInfo := none }, .returned 1 [])
  else if !w.sockets then
    ({ made.1 with rtpInfo := some { info with sessionInfo := some ⟨true, false, 0, 0⟩ } }, .failed .threw)
  else
    let info : RtpSessionInfoGst := { info with sessionInfo := some ⟨true, true, 0, 0⟩ }
    if setState made.2 w.stateChange = .failure then
      ({ made.1.unref made.2 with rtpInfo := some info }, .returned 1 (serverPort w.localPort))
    else ({ made.1 with rtpInfo := some { info with pipeline := made.2 } }, .returned 0 (serverPort w.localPort))

/-- Lines 19 to 25 of `play_request`. -/
def rtpInfoText (s : RtpSessionInfo) : List Char :=
  "seq=".toList ++ toStdString s.initSeq.toNat ++ ";rtptime=".toList ++ toStdString s.initRtptime.toNat

/-- What `rtp_appsink_new_sample_callback` makes of the first packet. -/
def firstPacket (info : RtpSessionInfoGst) (sample : UInt16 × UInt32) : RtpSessionInfoGst :=
  { info with
    sessionInfo := info.sessionInfo.map fun s => { s with initSeq := sample.1, initRtptime := sample.2 }
    first := false }

/-- Lines 17 to 25 of `play_request`, where `first` is false. -/
def playInfo (h : FileHandler) (info : RtpSessionInfoGst) : FileHandler × Result :=
  match info.sessionInfo with
  | none => (h, .failed .nullDereference)
  | some s => ({ h with rtpInfo := some info }, .returned 0 (rtpInfoText s))

def playRequest (h : FileHandler) (w : Surroundings) : FileHandler × Result :=
  match h.rtpInfo with
  | none => (h, .failed .nullDereference)
  | some info =>
    if setState info.pipeline w.stateChange = .failure then (h, .returned 1 [])
    else if info.first then
      match w.firstSample with
      | none => (h, .failed .waits)
      | some sample => h.playInfo (firstPacket info sample)
    else h.playInfo info

def pauseRequest (h : FileHandler) (w : Surroundings) : FileHandler × Result :=
  match h.rtpInfo with
  | none => (h, .failed .nullDereference)
  | some info =>
    if setState info.pipeline w.stateChange = .failure then (h, .returned 1 []) else (h, .returned 0 [])

def teardownRequest (h : FileHandler) (w : Surroundings) : FileHandler × Result :=
  match h.rtpInfo with
  | none => (h, .failed .nullDereference)
  | some info =>
    if setState info.pipeline w.stateChange = .failure then (h, .returned 1 [])
    else
      match info.sessionInfo with
      | none => (h, .failed .nullDereference)
      | some s =>
        if !s.rtpSocket || !s.rtcpSocket then (h, .failed .nullDereference)
        else if !w.sockets then (h, .failed .threw)
        else ({ ((h.unref info.pipeline).deleteInfo info) with rtpInfo := none }, .returned 0 [])

/-- The destructor, with the session. -/
def destroy (h : FileHandler) : FileHandler := { h.deleteRtpInfo with rtpInfo := none }

end FileHandler

/-! ## The live handler -/

/-- `make_sdp`, and the stream after it. -/
def makeSdp (m : MulticastStreamV4L2) (w : Surroundings) : MulticastStreamV4L2 × Result :=
  if m.sdpStr ≠ [] then (m, .returned 0 m.sdpStr)
  else if !w.links then (m, .returned (-1) [])
  else if !busLoop w.bus then (m, .failed .waits)
  else
    let sdp := w.asText (sdpMessage (some m.ipAddr) w.codecInfo)
    ({ m with sdpStr := sdp }, .returned 0 sdp)

/-- `std::to_string` of an `int`. -/
def intToStdString (n : Int) : List Char := (if n < 0 then "-".toList else []) ++ toStdString n.natAbs

/-- The `Transport` parameters of the live stream. -/
def multicastTransport (m : MulticastStreamV4L2) : List Char :=
  "destination=".toList ++ m.ipAddr ++ ";port=".toList ++ intToStdString m.port ++ ";ttl=32".toList

/-! ## The virtual call -/

/-- The methods of `RTSPSessionHandler` that a session calls, with their arguments. -/
inductive Call
  | option
  | describe (path : List Char)
  | setup (path clientAddr clientPort : List Char)
  | play (time : List Char)
  | pause (time : List Char)
  | teardown
  deriving DecidableEq

def FileHandler.call (h : FileHandler) (w : Surroundings) : Call → FileHandler × Result
  | .option => (h, optionRequest)
  | .describe path => (h, (describeRequest path w).2)
  | .setup _ _ _ => h.setupRequest w
  | .play _ => h.playRequest w
  | .pause _ => h.pauseRequest w
  | .teardown => h.teardownRequest w

def liveCall (w : Surroundings) : Call → Result
  | .option => .returned 0 "DESCRIBE, OPTIONS, SETUP, PLAY, TEARDOWN, PAUSE".toList
  | .describe _ => (makeSdp w.multicast w).2
  | .setup _ _ _ => .returned 0 (multicastTransport w.multicast)
  | .play _ | .pause _ | .teardown => .returned 0 []

inductive Handler
  | file (h : FileHandler)
  | live

def Handler.call (w : Surroundings) (call : Call) : Handler → Handler × Result
  | .file h => (.file (h.call w call).1, (h.call w call).2)
  | .live => (.live, liveCall w call)

end RpiCam.Rtsp
