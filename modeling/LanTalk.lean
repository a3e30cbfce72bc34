import LanTalk.Lib.Reader
import LanTalk.Lib.Bytes
import LanTalk.Network.ProtocolProofs
import LanTalk.Network.Stream
import LanTalk.Lib.Quoted
import LanTalk.Chat.Message
import LanTalk.Chat.Payload
import LanTalk.Chat.Gate
import LanTalk.Chat.Adversary
import LanTalk.Chat.Wiring
import LanTalk.Chat.Closed
import LanTalk.Chat.Agreement
import LanTalk.Chat.Outgoing
import LanTalk.Chat.Pairing
import LanTalk.Chat.Independence
import LanTalk.Chat.Lifecycle
import LanTalk.Chat.Senders
import LanTalk.Chat.Balance
import LanTalk.Chat.Progress
import LanTalk.Lib.Lines
import LanTalk.Config.SetKey
import LanTalk.Discovery.LanDiscovery
import LanTalk.Network.Reset
import LanTalk.Network.RateLimit
import LanTalk.Network.RecvLoop
import LanTalk.Network.SendAll
import LanTalk.Network.Sending
import LanTalk.Chat.MessageQueue
import LanTalk.Chat.Reconnect
import LanTalk.Lib.Json
import LanTalk.Chat.JsonPayloads
import LanTalk.Security.Authentication
import LanTalk.Security.Pending
import LanTalk.Security.Decoders
import LanTalk.Lib.Keyed
import LanTalk.Cli.CommandParser
import LanTalk.Lib.Decimal
import LanTalk.Config.Numbers
import LanTalk.Discovery.Scan
import LanTalk.Discovery.Bounds
import LanTalk.Chat.Malformed
import LanTalk.Chat.Drain
import LanTalk.Chat.Display
import LanTalk.Config.BadLines
import LanTalk.Config.LineEndings
import LanTalk.Lib.Utf8
import LanTalk.Discovery.Names
import LanTalk.Security.Uuid
import LanTalk.Config.GetKey
import LanTalk.Cli.Switches
import LanTalk.Chat.ByteLink
import LanTalk.Chat.Delivery
import LanTalk.Cli.Program
import LanTalk.Lib.Condition
import LanTalk.Chat.QueueWaits
import LanTalk.Config.CutShort
import LanTalk.Lib.Owner
import LanTalk.Network.Sockets
import LanTalk.Network.TcpServer
import LanTalk.Cli.Connect
import LanTalk.Cli.Console
