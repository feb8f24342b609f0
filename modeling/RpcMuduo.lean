import RpcMuduo.StreamDecoder
import RpcMuduo.OutgoingStream
import RpcMuduo.ProtobufCodecLite
import RpcMuduo.CodecStream
import RpcMuduo.CodecRoundTrip
import RpcMuduo.Endpoint
import RpcMuduo.Bag
import RpcMuduo.CallLedger
import RpcMuduo.CallOwnership
import RpcMuduo.ServerReplies
import RpcMuduo.QpsTest
import RpcMuduo.RpcConnection
import RpcMuduo.CallCorrelation
import RpcMuduo.FailedCall
import RpcMuduo.RpcServer
import RpcMuduo.ConnectionIsolation
import RpcMuduo.TcpServer
import RpcMuduo.ConnectionSetup
import RpcMuduo.SortedSet
import RpcMuduo.TimerQueue
import RpcMuduo.TimerOwnership
import RpcMuduo.TimerCancel
import RpcMuduo.StaleTimerId
import RpcMuduo.TimerArming
import RpcMuduo.ClosedConnection
import RpcMuduo.WriteInterest
import RpcMuduo.ConcurrentSends
import RpcMuduo.SharedLoop
import RpcMuduo.FunctorLifetime
import RpcMuduo.EventLoop
import RpcMuduo.EventLoopQuit
import RpcMuduo.EventLoopThread
import RpcMuduo.EventLoopThreadEnd
import RpcMuduo.SizeLimit
import RpcMuduo.CodecChunks
import RpcMuduo.ConnectionTable
import RpcMuduo.ConnectionRelease
import RpcMuduo.CorruptedFrame
import RpcMuduo.FrameGrammar
import RpcMuduo.DecodeBounds
import RpcMuduo.ByteQueue
import RpcMuduo.BlockingQueue
import RpcMuduo.FrameEncoding
import RpcMuduo.EventDispatch
import RpcMuduo.FunctorOrder
import RpcMuduo.Connector
import RpcMuduo.EstablishedSockets
import RpcMuduo.TimerExpiry
import RpcMuduo.Readers
import RpcMuduo.Varint
import RpcMuduo.WireFormat
import RpcMuduo.ProtobufWire
import RpcMuduo.RpcMetaPb
import RpcMuduo.RpcMetaRoundTrip
import RpcMuduo.RpcFrames
import RpcMuduo.Simulation
import RpcMuduo.RpcOverTcp
import RpcMuduo.RpcTransport
import RpcMuduo.RpcRefinement
import RpcMuduo.RpcDelivery
import RpcMuduo.InputBound
import RpcMuduo.RoundRobin
import RpcMuduo.ThreadPool
import RpcMuduo.TimerDeletion
import RpcMuduo.WriteCompletion
import RpcMuduo.EchoPb
import RpcMuduo.EchoService
