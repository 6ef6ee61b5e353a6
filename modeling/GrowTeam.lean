import GrowTeam.Runner.RemoteRecovery
import GrowTeam.Server.Consent
import GrowTeam.Server.Versions
import GrowTeam.Server.Fleet
import GrowTeam.Server.Resumption
import GrowTeam.Server.Fences
import GrowTeam.Context.Disclosure
import GrowTeam.Agents.Pairings
import GrowTeam.Agents.Credentials
import GrowTeam.Sharing.Unshare
import GrowTeam.Runner.Integrity
import GrowTeam.Runtime.Handover
import GrowTeam.Runtime.Lanes
import GrowTeam.Runtime.Verified
import GrowTeam.Runtime.Answered
import GrowTeam.Runtime.Prepared
import GrowTeam.Protocol.Resuming
import GrowTeam.Protocol.Scopes
import GrowTeam.Tasks.Numbers
import GrowTeam.Artifacts.Limits
import GrowTeam.Dispatch.Receipts
import GrowTeam.Tornado.FlagEvents
import GrowTeam.Tornado.Missed
import GrowTeam.Narrow.Limited
import GrowTeam.SoftDeactivation.Invisible
import GrowTeam.Chat.MoveAccess
import GrowTeam.Groups.Subgroups
import GrowTeam.RateLimiter.Remaining
import GrowTeam.MessageFlags.Changes
import GrowTeam.Unsubscribing.Unread
import GrowTeam.MessageList.Newest
import GrowTeam.UnreadIndexes.Runs
import GrowTeam.Runner.Redaction
import GrowTeam.Runtime.InOrder
import GrowTeam.Runner.Secrets
import GrowTeam.TeamTools.Atomic
import GrowTeam.Analytics.Recovery
import GrowTeam.SendKeys.Once
import GrowTeam.Links.Understood
import GrowTeam.MissedEmails
import GrowTeam.Retention.Restored
import GrowTeam.Tasks.Updates
