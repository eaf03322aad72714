import ObsAgent.BitString
import ObsAgent.PrefixCode
import ObsAgent.FiniteMap
import ObsAgent.Trim
import ObsAgent.Common
import ObsAgent.Huffman
import ObsAgent.HuffmanInverse
import ObsAgent.Hpack
import ObsAgent.Rfc7541
import ObsAgent.HpackWire
import ObsAgent.HpackSync
import ObsAgent.HpackRoundTrip
import ObsAgent.Frame
import ObsAgent.Conn
import ObsAgent.Demux
import ObsAgent.Chunking
import ObsAgent.FailClosed
import ObsAgent.Registry
import ObsAgent.Truncation
import ObsAgent.LastWrite
import ObsAgent.PushEffect
import ObsAgent.Pairing
import ObsAgent.Correlate
import ObsAgent.Reassemble
import ObsAgent.Ingest
import ObsAgent.HeaderCapture
import ObsAgent.SockMeta
import ObsAgent.PeerCache
import ObsAgent.Capture
import ObsAgent.TlsMaps
import ObsAgent.TlsBinding
import ObsAgent.Agent
import ObsAgent.InflightRace
import ObsAgent.Machine
import ObsAgent.Socket
import ObsAgent.Interference
import ObsAgent.Bounds
import ObsAgent.Opaque
import ObsAgent.DataStreams
import ObsAgent.Payloads
import ObsAgent.Sticky
import ObsAgent.Eviction
import ObsAgent.CappedStore
import ObsAgent.Metrics
import ObsAgent.Trace
import ObsAgent.Export
import ObsAgent.Handshakes
import ObsAgent.Publish
import ObsAgent.SinkTotals
import ObsAgent.SpanStatus
import ObsAgent.Routes
import ObsAgent.Interim
import ObsAgent.Sampling
import ObsAgent.TlsConsistency
import ObsAgent.TimedQueue
import ObsAgent.DualPlane
import ObsAgent.JoinHistory
import ObsAgent.Ranking
import ObsAgent.ProfileJoin
import ObsAgent.CommFilter
import ObsAgent.CaptureGate
import ObsAgent.Paging
import ObsAgent.KubeIndex
import ObsAgent.KubeRefresh
import ObsAgent.HpackInt
import ObsAgent.LittleEndian
import ObsAgent.RingRecord
import ObsAgent.Disclosure
import ObsAgent.Unmark
import ObsAgent.WordMix
import ObsAgent.SpanIds
import ObsAgent.Redact
import ObsAgent.RedactLines
import ObsAgent.Cgroup
import ObsAgent.Stash
import ObsAgent.Probes
import ObsAgent.TlsRuns
import ObsAgent.CallPairing
import ObsAgent.Agreement
import ObsAgent.Isolation
import ObsAgent.HandshakeTiming
import ObsAgent.RingRoundTrip
import ObsAgent.GateRace
import ObsAgent.JsonText
import ObsAgent.OtlpTraces
import ObsAgent.RollingWindow
import ObsAgent.Windows
import ObsAgent.OtlpMetrics
import ObsAgent.Exporter
import ObsAgent.AutoSample
import ObsAgent.EventLoop
import ObsAgent.LoopFilter
import ObsAgent.Provenance
