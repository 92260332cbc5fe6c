import LibWebsocket.Lib.Fallible
import LibWebsocket.Lib.Byte
import LibWebsocket.Lib.ByteOrder
import LibWebsocket.Lib.Mask
import LibWebsocket.Lib.Consumer
import LibWebsocket.Lib.Search
import LibWebsocket.Lib.CString
import LibWebsocket.Lib.Replace
import LibWebsocket.Lib.Quad
import LibWebsocket.Lib.Run
import LibWebsocket.Lib.TimingWheel
import LibWebsocket.Rfc6455.Wire
import LibWebsocket.Rfc6455.Fragments
import LibWebsocket.Websocket.Basic
import LibWebsocket.Websocket.Parse
import LibWebsocket.Websocket.Deliver
import LibWebsocket.Websocket.Machine
import LibWebsocket.Websocket.Readers
import LibWebsocket.Websocket.Refine
import LibWebsocket.Websocket.Invariant
import LibWebsocket.Websocket.Iterations
import LibWebsocket.Websocket.Abort
import LibWebsocket.Websocket.Frame
import LibWebsocket.Websocket.Stream
import LibWebsocket.Websocket.Decode
import LibWebsocket.Websocket.Reassembly
import LibWebsocket.Websocket.Interleave
import LibWebsocket.Websocket.Chunk
import LibWebsocket.Websocket.Fragmentation
import LibWebsocket.Websocket.Close
import LibWebsocket.Websocket.Pack
import LibWebsocket.Websocket.Encode
import LibWebsocket.Websocket.Loopback
import LibWebsocket.Websocket.PackChunk
import LibWebsocket.Http.Parse
import LibWebsocket.Http.Lines
import LibWebsocket.Http.BlankLine
import LibWebsocket.Http.ClientIp
import LibWebsocket.Http.Forwarded
import LibWebsocket.Websocket.Handshake
import LibWebsocket.Websocket.Upgrade
import LibWebsocket.Websocket.Refusal
import LibWebsocket.Websocket.ClientAddress
import LibWebsocket.Url.Codec
import LibWebsocket.Url.Pieces
import LibWebsocket.Url.Passes
import LibWebsocket.Url.Layers
import LibWebsocket.Url.Macro
import LibWebsocket.Html.Codec
import LibWebsocket.ApiServer.HttpMessage
import LibWebsocket.ApiServer.Serving
import LibWebsocket.ApiServer.Entry
import LibWebsocket.ApiServer.Exclusion
import LibWebsocket.ApiServer.Wheel
import LibWebsocket.ApiServer.Workers
import LibWebsocket.ApiServer.Query
import LibWebsocket.ApiServer.QueryTokens
import LibWebsocket.ApiServer.Amount
import LibWebsocket.ApiServer.Order
import LibWebsocket.ApiServer.OrderAuth
import LibWebsocket.Protobuf.Codec
import LibWebsocket.Tcp.Io
import LibWebsocket.Tcp.Connection
import LibWebsocket.Tcp.Frame
import LibWebsocket.Tcp.CloseOnce
import LibWebsocket.Tcp.Plaintext
import LibWebsocket.Tcp.Healthy
import LibWebsocket.Tcp.Integrity
import LibWebsocket.Tcp.HalfClose
import LibWebsocket.Tcp.Trigger
import LibWebsocket.Tcp.Connector
import LibWebsocket.Crypto.Cipher
import LibWebsocket.Crypto.Modes
import LibWebsocket.Crypto.Base64
import LibWebsocket.Crypto.AesEcb
import LibWebsocket.Crypto.ClearPadding
import LibWebsocket.ApiServer.Envelope
import LibWebsocket.Lib.Numeral
import LibWebsocket.Tcp.Server
import LibWebsocket.Tcp.Stages
import LibWebsocket.Tcp.Teardown
import LibWebsocket.Loop.Tasks
import LibWebsocket.Loop.Timers
import LibWebsocket.Loop.TimerRuns
import LibWebsocket.Rpc.Channel
import LibWebsocket.Rpc.Wire
import LibWebsocket.Net.Buffer
import LibWebsocket.Net.Pollers
import LibWebsocket.Crypto.Md5
import LibWebsocket.Crypto.Sha1
import LibWebsocket.Base.BlockingQueue
import LibWebsocket.Base.ThreadPool
import LibWebsocket.Base.LogStream
