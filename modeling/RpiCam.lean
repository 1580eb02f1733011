import RpiCam.Lib.Transition
import RpiCam.Lib.Channel
import RpiCam.Config.ProgramConfig
import RpiCam.VideoQueue.Registry
import RpiCam.VideoQueue.Solo
import RpiCam.VideoQueue.LockOrder
import RpiCam.VideoQueue.Wakeup
import RpiCam.VideoQueue.Release
import RpiCam.VideoQueue.Delivery
import RpiCam.Event.Decimation
import RpiCam.Event.Launch
import RpiCam.Live.Clock
import RpiCam.VideoQueue.Rate
import RpiCam.Event.Lifetime
import RpiCam.Event.Start
import RpiCam.Event.Consumers
import RpiCam.Video.Retention
import RpiCam.Video.Clip
import RpiCam.Video.Streamer
import RpiCam.Video.FileLock
import RpiCam.Http.Install
import RpiCam.Http.Pieces
import RpiCam.Http.Handler
import RpiCam.Http.Slots
import RpiCam.Http.Registration
import RpiCam.Http.Confinement
import RpiCam.Http.Concurrent
import RpiCam.Http.Bookkeeping
import RpiCam.Http.EventClip
import RpiCam.Lib.StdString
import RpiCam.Rtsp.Handler
import RpiCam.Rtsp.References
import RpiCam.Rtsp.Status
import RpiCam.Rtsp.PathTable
import RpiCam.Rtsp.Play
import RpiCam.Rtsp.MakeSdp
import RpiCam.Rtsp.SdpCache
import RpiCam.Rtsp.Target
import RpiCam.Rtsp.Transport
import RpiCam.Rtsp.Caps
import RpiCam.Http.EventHeaders
import RpiCam.Http.ProgramName
import RpiCam.Http.Response
import RpiCam.Video.Removal
import RpiCam.Camera.EndToEnd
import RpiCam.Video.Ages
import RpiCam.Rtsp.Routing
import RpiCam.VideoQueue.Stamps
import RpiCam.Event.Reports
import RpiCam.Live.Broadcast
import RpiCam.VideoQueue.Reclaim
import RpiCam.VideoQueue.Draining
import RpiCam.VideoQueue.Endings
