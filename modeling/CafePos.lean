import CafePos.Interleaving.Program
import CafePos.Interleaving.Session
import CafePos.Interleaving.World
import CafePos.Interleaving.RelyGuarantee
import CafePos.Interleaving.Alone
import CafePos.Interleaving.Atomic
import CafePos.Interleaving.Table
import CafePos.Interleaving.Rows
import CafePos.Gateway
import CafePos.Schema
import CafePos.Database
import CafePos.Pricing
import CafePos.Operations
import CafePos.OrderState
import CafePos.Evolution
import CafePos.Idempotency
import CafePos.Orders
import CafePos.Payments
import CafePos.Closing
import CafePos.Webhooks
import CafePos.System
import CafePos.Ledger
import CafePos.Settlement
import CafePos.Logic
import CafePos.Transactions
import CafePos.OrderDoors
import CafePos.ClosingDoors
import CafePos.WebhookDoors
import CafePos.PaymentDoors
import CafePos.Soundness
import CafePos.PaymentSteps
import CafePos.Money
import CafePos.History
import CafePos.QueueNumbers
import CafePos.Capture
import CafePos.KeySteps
import CafePos.OrderKeys
import CafePos.PaymentKeys
import CafePos.Convergence
import CafePos.LivePayments
import CafePos.DeadIntents
import CafePos.Fingerprints
import CafePos.Secrets
import CafePos.Lookups
import CafePos.KioskScope
import CafePos.Reporting
import CafePos.SalesViews
import CafePos.ZReports
import CafePos.Batches
import CafePos.Auth
import CafePos.Rotation
import CafePos.FamilyDeath
import CafePos.Devices
import CafePos.DeviceLifecycle
import CafePos.DeviceRevocation
import CafePos.Text.Digits
import CafePos.Text.Base64
import CafePos.Text.Calendar
import CafePos.JsonText
import CafePos.Relational.Keyset
import CafePos.OrderList
import CafePos.Pagination
import CafePos.PricingRules
import CafePos.Lockout
import CafePos.LockoutBound
import CafePos.Users
import CafePos.LastAdmin
import CafePos.OptionGroups
import CafePos.Attachments
import CafePos.Revocation
import CafePos.DenyList
import CafePos.Sockets
import CafePos.MenuCache
import CafePos.MenuCoherence
import CafePos.MenuFreshness
import CafePos.Vat
import CafePos.Relational.Rearrange
import CafePos.TappingOrder
import CafePos.MoneyRange
import CafePos.EventReplay
import CafePos.EventDecisions
import CafePos.Interleaving.Undisturbed
import CafePos.Unhindered
import CafePos.SameDayRefunds
import CafePos.PayableOrders
import CafePos.InboxSweep
import CafePos.Interleaving.Trail
import CafePos.Decisive
import CafePos.Replays
import CafePos.ActivePayments
import CafePos.SearchTerms
import CafePos.Cursors
import CafePos.Relational.Tally
import CafePos.Relational.Sorting
import CafePos.TopItems
import CafePos.Rerolls
import CafePos.Renames
import CafePos.Throttle
import CafePos.Text.Decimal
import CafePos.Canonical
import CafePos.RequestHash
import CafePos.Text.Dates
import CafePos.BusinessDays
import CafePos.NightlyTargets
import CafePos.Corrections
import CafePos.Stories
import CafePos.Screens
import CafePos.NightlyRollups
import CafePos.Interleaving.Restricted
import CafePos.OrderRows
import CafePos.OrderWriters
import CafePos.OrderCoupling
import CafePos.Interleaving.Waiting
import CafePos.LockOrder
import CafePos.Deadlocks
import CafePos.Reconciliation
import CafePos.ExpirySweep
import CafePos.ItemImages
import CafePos.UndisturbedSweep
import CafePos.FrontDoor
import CafePos.Authority
import CafePos.Books
import CafePos.Bookkeeping
import CafePos.RetentionJobs
import CafePos.RetentionRuns
import CafePos.RetentionCatchUp
import CafePos.ErrorDetail
import CafePos.KillChannel
import CafePos.Snapshots
import CafePos.Boards
import CafePos.MenuPrices
