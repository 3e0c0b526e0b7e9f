import Farland.Channels.Drdynvc.Agreement
import Farland.Codec.Clear.RoundTrip
import Farland.Codec.Rfx.Upgrade
import Farland.Daemon.Lifetime
import Farland.Daemon.SeatLogins
import Farland.Daemon.Takeover
import Farland.Daemon.NewConnections
import Farland.Daemon.Reattach
import Farland.Broker.Connections
import Farland.Broker.Prompts
import Farland.Clipboard.Staging
import Farland.Clipboard.Pastes
import Farland.Auth.ServerMic
import Farland.Server.QualityController
import Farland.Server.CursorEncoder
import Farland.Channels.Rdpei.Server
import Farland.Clipboard.Answers
import Farland.Clipboard.Files
import Farland.Channels.ClipboardFormats
import Farland.Channels.Cliprdr.Requests
import Farland.Channels.Rdpgfx.Stream
import Farland.Server.BitmapPath
import Farland.Codec.Zgfx.Reference
import Farland.Server.FrameScheduler
import Farland.Server.Camera
import Farland.Server.PrivsepCodec
import Farland.Server.BrokerCodec
import Farland.Server.AudioPlayback
import Farland.Server.DisplayThreads
import Farland.Server.PreAuthCuts
import Farland.Server.LayoutPlacing
import Farland.Server.ScrollExact
import Farland.Codec.Clear.Containment
import Farland.Channels.Cliprdr.RoundTrip
import Farland.Channels.Rdpei.RoundTrip
import Farland.Channels.Rdpgfx.RoundTrip
import Farland.Proto.Input
import Farland.Proto.PointerRoundTrip
import Farland.Channels.Drdynvc.Transport
import Farland.Codec.Zgfx.Message
import Farland.Codec.Yuv444Views
import Farland.Daemon.CredentialFile
import Farland.Base.BerRoundTrip
import Farland.Video.VaapiEncoder
