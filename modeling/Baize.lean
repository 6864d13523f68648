import Baize.Net.BufferRoom
import Baize.Net.TcpListener
import Baize.Net.EchoConnection
import Baize.Crypto.Bitwise
import Baize.Crypto.TlsStream
import Baize.Util.SplitLoop
import Baize.Http.RoundTrip
import Baize.Http.RequestLine
import Baize.Http.Failure
import Baize.Http.HeaderOrder
import Baize.Http.FileReader
import Baize.Rtcp.Reads
import Baize.Rtp.Acceptance
import Baize.Time.Rearm
import Baize.Time.Integrity
import Baize.Time.Drain
import Baize.Log.Stop
import Baize.Log.Rotation
import Baize.Log.Line
import Baize.Log.DumpHex
import Baize.Log.FormatTime
import Baize.Log.Files
import Baize.Threads.Thread
import Baize.Dtls.Retransmission
import Baize.Runtime.WorkConserving
import Baize.Runtime.Submission
import Baize.Runtime.Routine
import Baize.Runtime.Names
import Baize.Runtime.Turns
import Baize.Runtime.Armed
import Baize.Webrtc.Delivery
import Baize.Webrtc.Attention
import Baize.Webrtc.BindingResponse
import Baize.Webrtc.PictureLoss
import Baize.Webrtc.Signalling
import Baize.Webrtc.SendMessages
import Baize.Webrtc.PacketBuffers
import Baize.Webrtc.Endpoints
import Baize.Webrtc.Loopback
import Baize.Webrtc.SignalClient
import Baize.Webrtc.LocalSdp
import Baize.Transfer.Delivery
