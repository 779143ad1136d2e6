import AsioStudy.Http.Escapes
import AsioStudy.Http.UrlEncoding
import AsioStudy.Http.ContentType
import AsioStudy.Http.FileContent
import AsioStudy.Http.ReplyDecoder
import AsioStudy.Http.RequestText
import AsioStudy.Http.VersionArithmetic
import AsioStudy.Http.Folding
import AsioStudy.Http.Server1Shutdown
import AsioStudy.Http.Segmentation
import AsioStudy.Http.Server4Accepting
import AsioStudy.Http.Server2
import AsioStudy.Http.HeaderAccess
import AsioStudy.Chat.Framing
import AsioStudy.Chat.Server
import AsioStudy.Chat.Client
import AsioStudy.Chat.WellFormed
import AsioStudy.Chat.InputLines
import AsioStudy.Chat.Logging
import AsioStudy.Socks.Relay
import AsioStudy.Socks.SslProxy
import AsioStudy.Socks.Socks4
import AsioStudy.Socks.SuccessReply
import AsioStudy.Socks.ResponseRelay
import AsioStudy.Socks.HostExtraction
import AsioStudy.Ssl.Echo
import AsioStudy.Daytime.Server
import AsioStudy.Http.Server3
import AsioStudy.Socks.Conversation
import AsioStudy.Tutorial.Printer
import AsioStudy.Http.Delivery
import AsioStudy.Asio.WaitableTimerRuns
