import SjmbSlack.Library.Machine
import SjmbSlack.Harvest.Links
import SjmbSlack.Slackbot.Storage
import SjmbSlack.Limits.CacheHistory
import SjmbSlack.UrlFilter.Accepted
import SjmbSlack.Library.Mpsc
import SjmbSlack.Library.SortedMap
import SjmbSlack.UserSession.StoreProgress
import SjmbSlack.UserSession.Receipts
import SjmbSlack.UserSession.RetryAfter
import SjmbSlack.Slackbot.WorkerCorrect
import SjmbSlack.SocketMode.Admission
import SjmbSlack.UserSession.StateSize
import SjmbSlack.UserSession.Capacity
import SjmbSlack.UserSession.SaveRuns
import SjmbSlack.UserSession.Gateway
import SjmbSlack.UserSession.Discovery
import SjmbSlack.UserSession.RecoverChannel
import SjmbSlack.UserSession.CoverageRuns
import SjmbSlack.UserSession.Prune
import SjmbSlack.SocketMode.HealthRuns
import SjmbSlack.SocketMode.Accounting
import SjmbSlack.UserSession.ReconnectRuns
import SjmbSlack.UserSession.Scope
import SjmbSlack.UserSession.SessionStore
import SjmbSlack.Slackbot.LookupRuns
import SjmbSlack.UserSession.Timeouts
import SjmbSlack.UserSession.AccountTurns
