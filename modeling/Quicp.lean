import Quicp.Connection.Admission
import Quicp.Connection.PreOpen
import Quicp.Connection.Producers
import Quicp.FakeTcp.Acknowledgment
import Quicp.FakeTcp.Cookie
import Quicp.FakeTcp.Mtu
import Quicp.FakeTcp.Peers
import Quicp.FakeTcp.RingReceive
import Quicp.FakeTcp.RouteTable
import Quicp.FakeTcp.Sequence
import Quicp.Fec.CodingWindow
import Quicp.Fec.Reduction
import Quicp.Fec.Saturation
import Quicp.Fec.WindowRun
import Quicp.Flow.AckWire
import Quicp.Flow.CreditAgreement
import Quicp.Flow.Fallback
import Quicp.Flow.Finish
import Quicp.Flow.Flush
import Quicp.Flow.FlushSound
import Quicp.Flow.OptionalDatagrams
import Quicp.Flow.PayloadSize
import Quicp.Flow.PollReceive
import Quicp.Flow.Progress
import Quicp.Flow.Stranded
import Quicp.Flow.WriteHandle
import Quicp.Host.Carrier
import Quicp.Host.Runtime
import Quicp.Host.Timers
import Quicp.NoSecurity
import Quicp.PathManager
import Quicp.Recovery.AckCapacity
import Quicp.Recovery.ReplayRun
import Quicp.Session.ReplayAdmission
import Quicp.Wire.ControlRead
import Quicp.Wire.DatagramCodec
