import Ploykit.Quota.Check
import Ploykit.Quota.Periodic
import Ploykit.Billing.Marks
import Ploykit.Billing.Channels
import Ploykit.Billing.Payments
import Ploykit.Billing.Entitlement
import Ploykit.Authorization.CatalogHash
import Ploykit.Webhooks.AutoDisable
import Ploykit.Webhooks.Rotation
import Ploykit.Workspace.Privileges
import Ploykit.Webhooks.Rounds
import Ploykit.Workspace.ShareLinks
import Ploykit.Authz.Displayed
import Ploykit.Authz.Revocation
import Ploykit.Identity.Newest
import Ploykit.Identity.Enrollments
import Ploykit.Billing.Plans
import Ploykit.Billing.ActiveSet
import Ploykit.Renderx.Capacity
import Ploykit.Renderx.Invalidation
import Ploykit.Renderx.Prerender
import Ploykit.Renderx.Sitemap
import Ploykit.Wsx.Callbacks
import Ploykit.Accounts.Expiry
import Ploykit.Accounts.Passwords
import Ploykit.Accounts.Hijacking
import Ploykit.Accounts.Deletion
import Ploykit.Accounts.Signup
import Ploykit.Billing.Periods
import Ploykit.Identity.Attempts
import Ploykit.Billing.Preview
import Ploykit.Billing.SavedFields
import Ploykit.Authz.Scope
import Ploykit.Webhooks.Attempts
import Ploykit.Workspace.Invitations
import Ploykit.Client.OneSocket
import Ploykit.Renderx.Hydration
import Ploykit.Logring.Windows
import Ploykit.Logring.Derived
import Ploykit.Pgmigrate.Inverse
import Ploykit.Renderx.ShellMeta
import Ploykit.Renderx.HeadReading
import Ploykit.Billing.Registered
import Ploykit.Pgpart.Retention
import Ploykit.Webx.MemoryLimiter
import Ploykit.Redactx.Sanitize
import Ploykit.Webx.Timeout
import Ploykit.Webx.ClientIP
import Ploykit.Accounts.Tokens
import Ploykit.Pg.Breaker
import Ploykit.Webx.Precompressed
import Ploykit.Renderx.Dependencies
import Ploykit.Metrics.Snapshot
import Ploykit.Renderx.Preloads
import Ploykit.Webx.Pagination
import Ploykit.Webx.Svix
import Ploykit.Identity.ProfilePatch
import Ploykit.Notify.Dedup
import Ploykit.Renderx.SearchParams
import Ploykit.Settings.NormalForm
import Ploykit.Relayx.Relay
