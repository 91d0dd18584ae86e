import NgxMapping.Lib.Bytes
import NgxMapping.Lib.UMap
import NgxMapping.HttpRequest
import NgxMapping.QueryRoundTrip
import NgxMapping.CookieHeader
import NgxMapping.Helper
import NgxMapping.HttpResponse
import NgxMapping.PartnerTable
import NgxMapping.LogRecord
import NgxMapping.MappingModel
import NgxMapping.MappingSpec
import NgxMapping.Answer
import NgxMapping.PartnerLookups
import NgxMapping.Attribution
import NgxMapping.ScyllaMessage
import NgxMapping.CookieText
import NgxMapping.Lib.Run
import NgxMapping.ResponseSplitting
import NgxMapping.Browser
import NgxMapping.BrowserSession
import NgxMapping.Selection
import NgxMapping.Throttle
import NgxMapping.Identity
import NgxMapping.MobileTraffic
import NgxMapping.RedirectChain
import NgxMapping.LogDecode
import NgxMapping.Scylla
import NgxMapping.Import
import NgxMapping.LogGrep
import NgxMapping.RedirectTarget
import NgxMapping.PartnerSync
import NgxMapping.Workers
import NgxMapping.Lib.Replay
import NgxMapping.Records
import NgxMapping.RedisImport
import NgxMapping.Lib.Calendar
import NgxMapping.MonthStamp
import NgxMapping.Ku6
import NgxMapping.TwoEntries
import NgxMapping.Cql
import NgxMapping.Lib.Substitute
import NgxMapping.UrlExpand
import NgxMapping.RedirectAnswer
import NgxMapping.UrlClass
import NgxMapping.SendHeaders
import NgxMapping.CopyHeaders
import NgxMapping.HourFile
import NgxMapping.Base62
import NgxMapping.Base64
import NgxMapping.PercentDecode
import NgxMapping.CleanCutoff
import NgxMapping.Uninitialised
import NgxMapping.AsyncLog
import NgxMapping.ImportRun
import NgxMapping.HeaderLine
import NgxMapping.HeaderRead
import NgxMapping.HeaderWire
import NgxMapping.Retention
import NgxMapping.Server
import NgxMapping.ThreadPool
import NgxMapping.ClusterImport
import NgxMapping.Lib.DotSegments
import NgxMapping.UriPath
import NgxMapping.RequestLine
import NgxMapping.RequestRead
