import BrowsercoreHttp2.Library.Table
import BrowsercoreHttp2.Hpack.HuffmanTable
import BrowsercoreHttp2.Library.Bits
import BrowsercoreHttp2.Library.PrefixCode
import BrowsercoreHttp2.Hpack.Error
import BrowsercoreHttp2.Hpack.Integer
import BrowsercoreHttp2.Hpack.Strings
import BrowsercoreHttp2.Hpack.Decoder
import BrowsercoreHttp2.Hpack.Encoder
import BrowsercoreHttp2.Hpack.Helpers
import BrowsercoreHttp2.Frame
import BrowsercoreHttp2.Stream.Manager
import BrowsercoreHttp2.Stream.Changes
import BrowsercoreHttp2.Stream.UnknownFrames
import BrowsercoreHttp2.Stream.HeaderBlocks
import BrowsercoreHttp2.Stream.Response
import BrowsercoreHttp2.Library.Credit
import BrowsercoreHttp2.Stream.FlowControl
import BrowsercoreHttp2.Hpack.HuffmanRoundTrip
import BrowsercoreHttp2.Library.Framing
import BrowsercoreHttp2.Library.History
import BrowsercoreHttp2.ReadLoop
import BrowsercoreHttp2.Hpack.Representation
import BrowsercoreHttp2.Stream.HpackContext
import BrowsercoreHttp2.Hpack.Peer
import BrowsercoreHttp2.Stream.Status
import BrowsercoreHttp2.Connection
import BrowsercoreHttp2.Connection.Slots
import BrowsercoreHttp2.Connection.Unsent
import BrowsercoreHttp2.Hpack.BlockRoundTrip
import BrowsercoreHttp2.Library.SendBuffer
import BrowsercoreHttp2.Stream.SendQueue
import BrowsercoreHttp2.Library.Runs
import BrowsercoreHttp2.Stream.ReceiveCredit
import BrowsercoreHttp2.Stream.Departures
import BrowsercoreHttp2.Stream.Noninterference
import BrowsercoreHttp2.Connection.Steps
import BrowsercoreHttp2.Connection.Calls
import BrowsercoreHttp2.Connection.ActiveStreams
import BrowsercoreHttp2.Connection.Waiters
import BrowsercoreHttp2.Connection.Shutdown
import BrowsercoreHttp2.Connection.Settlement
import BrowsercoreHttp2.Javascript.Bitwise
import BrowsercoreHttp2.Library.BigEndian
import BrowsercoreHttp2.Serializer
import BrowsercoreHttp2.Stream.HeaderSections
import BrowsercoreHttp2.Stream.Goaway
import BrowsercoreHttp2.Stream.ServerPush
import BrowsercoreHttp2.Stream.Lifecycle
import BrowsercoreHttp2.Connection.Pings
import BrowsercoreHttp2.Connection.Asks
import BrowsercoreHttp2.Connection.EndStream
import BrowsercoreHttp2.Connection.StreamStates
import BrowsercoreHttp2.Connection.Keeps
import BrowsercoreHttp2.Connection.SettingsAcks
import BrowsercoreHttp2.Hpack.DecoderTable
import BrowsercoreHttp2.Hpack.ReferenceTable
import BrowsercoreHttp2.Hpack.LocalLimit
import BrowsercoreHttp2.Stream.WindowCaps
import BrowsercoreHttp2.Hpack.HuffmanPadding
import BrowsercoreHttp2.Stream.ClientIds
import BrowsercoreHttp2.FrameLengths
import BrowsercoreHttp2.Stream.PushPromiseLayout
import BrowsercoreHttp2.Stream.BodyAssembly
import BrowsercoreHttp2.Stream.Enrolled
import BrowsercoreHttp2.Stream.RegistrationOrder
import BrowsercoreHttp2.Stream.Handles
import BrowsercoreHttp2.Stream.ReceiveWindows
import BrowsercoreHttp2.Stream.CloseReasons
import BrowsercoreHttp2.Hpack.PrefixIntegers
import BrowsercoreHttp2.Hpack.TableAccounting
import BrowsercoreHttp2.Hpack.IndexedFields
import BrowsercoreHttp2.Hpack.BlockAppend
import BrowsercoreHttp2.Library.Arrangement
import BrowsercoreHttp2.Connection.RequestHeaders
import BrowsercoreHttp2.SettingsOrder
import BrowsercoreHttp2.InternalEmitter
import BrowsercoreHttp2.InternalEmitter.Delivery
import BrowsercoreHttp2.Connection.Outbound
import BrowsercoreHttp2.Connection.RequestFrames
import BrowsercoreHttp2.Connection.Replies
import BrowsercoreHttp2.Connection.Wire
import BrowsercoreHttp2.Connection.Written
import BrowsercoreHttp2.CanonicalFrames
import BrowsercoreHttp2.Connection.RequestBlocks
import BrowsercoreHttp2.Connection.Quiet
import BrowsercoreHttp2.Connection.Listening
import BrowsercoreHttp2.Stream.Completion
import BrowsercoreHttp2.Connection.Answers
import BrowsercoreHttp2.Connection.CallAccounts
import BrowsercoreHttp2.Connection.Footprint
