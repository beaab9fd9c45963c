import OmarchyConnect.Protocol.RoundTrip
import OmarchyConnect.Library.Segments
import OmarchyConnect.Library.Incremental
import OmarchyConnect.Host.NalChunks
import OmarchyConnect.Host.NalAccessUnits
import OmarchyConnect.Library.Files
import OmarchyConnect.Library.Runs
import OmarchyConnect.Protocol.File
import OmarchyConnect.Protocol.ReceiverIntegrity
import OmarchyConnect.Client.Transfers
import OmarchyConnect.System.Ends
import OmarchyConnect.System.DeadSlots
import OmarchyConnect.System.SilentFailures
import OmarchyConnect.Host.Authenticate
import OmarchyConnect.Host.Throttle
import OmarchyConnect.Host.Session
import OmarchyConnect.Host.SessionEnd
import OmarchyConnect.Client.Authenticate
import OmarchyConnect.System.Handshakes
import OmarchyConnect.System.HandshakeSteps
import OmarchyConnect.System.MutualAuth
import OmarchyConnect.System.Exchange
import OmarchyConnect.System.Lanes
import OmarchyConnect.System.LaneSteps
import OmarchyConnect.System.EndToEnd
import OmarchyConnect.Protocol.Canonical
import OmarchyConnect.Protocol.ConfirmedSend
import OmarchyConnect.Protocol.Framing
import OmarchyConnect.Host.FrameInbox
import OmarchyConnect.Host.InboxTurns
import OmarchyConnect.Host.Capture
import OmarchyConnect.Host.InboxWakeup
import OmarchyConnect.Host.Channels
import OmarchyConnect.Host.Announcements
import OmarchyConnect.Host.ChannelSteps
import OmarchyConnect.Host.WireOrder
import OmarchyConnect.Host.PointerFollows
import OmarchyConnect.Protocol.Pacing
import OmarchyConnect.System.Pacing
import OmarchyConnect.System.Link
import OmarchyConnect.System.LinkSteps
import OmarchyConnect.Host.Settings
import OmarchyConnect.Host.SettingsRuns
import OmarchyConnect.Host.SettingsJson
import OmarchyConnect.Protocol.SendWindow
import OmarchyConnect.Protocol.LostChunks
import OmarchyConnect.System.FailedCalls
import OmarchyConnect.System.PartialFiles
import OmarchyConnect.Host.NalHeld
import OmarchyConnect.Protocol.LongStrings
import OmarchyConnect.Host.Yuv
import OmarchyConnect.Host.YuvPictures
import OmarchyConnect.Host.FrameBlocks
import OmarchyConnect.Host.PixelOrigins
import OmarchyConnect.Host.PinRoutes
import OmarchyConnect.Host.PlanarFrames
import OmarchyConnect.Host.PointerPlaces
import OmarchyConnect.Protocol.FileNames
import OmarchyConnect.Host.EncodeCalls
import OmarchyConnect.Host.EncoderSizes
import OmarchyConnect.Host.FrameClock
import OmarchyConnect.Client.DesktopLayout
import OmarchyConnect.Library.LossyText
import OmarchyConnect.Host.StderrLog
import OmarchyConnect.Host.Screencopy
import OmarchyConnect.Host.CaptureRounds
import OmarchyConnect.Host.ProbeRounds
import OmarchyConnect.Client.ApplyInput
import OmarchyConnect.Library.Strokes
import OmarchyConnect.Client.StuckKeys
import OmarchyConnect.Client.SentStrokes
import OmarchyConnect.Library.Rows
import OmarchyConnect.Host.FlipRows
import OmarchyConnect.Host.GrabbedPictures
import OmarchyConnect.Library.Published
import OmarchyConnect.Host.LiveState
import OmarchyConnect.Host.LiveStateJson
import OmarchyConnect.Host.Serving
import OmarchyConnect.Host.PublishedStatus
import OmarchyConnect.Host.Disconnects
import OmarchyConnect.Host.ShownLock
import OmarchyConnect.Client.Pictures
import OmarchyConnect.Client.PictureRuns
import OmarchyConnect.Client.SessionLoop
import OmarchyConnect.Client.SessionRuns
import OmarchyConnect.System.HostToWindow
import OmarchyConnect.Host.EncoderBackends
import OmarchyConnect.Host.EncoderRuns
import OmarchyConnect.Host.SyntheticDesktop
import OmarchyConnect.Host.SyntheticPictures
import OmarchyConnect.Host.DemoRuns
