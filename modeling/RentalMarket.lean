import RentalMarket.Booking.Acceptance
import RentalMarket.Booking.Reserved
import RentalMarket.Booking.Deadlines
import RentalMarket.Booking.Billing
import RentalMarket.Booking.Desk
import RentalMarket.Booking.Terms
import RentalMarket.Booking.OwnerCalendar
import RentalMarket.Pricing.MarginRule
import RentalMarket.Booking.Constraints
import RentalMarket.Lib.Civil
import RentalMarket.Lib.DateText
import RentalMarket.Pricing.Contracts
import RentalMarket.Payments.Reconciliation
import RentalMarket.Identity.DualControl
import RentalMarket.Identity.LastAdministrator
import RentalMarket.Identity.Tombstone
import RentalMarket.Identity.Erasure
import RentalMarket.Identity.Guard
import RentalMarket.Identity.Acknowledgement
import RentalMarket.Lib.Interleaving
import RentalMarket.Catalogue.Completeness
import RentalMarket.Catalogue.FuzzOffset
import RentalMarket.Catalogue.Reconfiguration
import RentalMarket.Catalogue.Search
import RentalMarket.Catalogue.SearchPages
import RentalMarket.FeatureFlags.Flags
import RentalMarket.FeatureFlags.KillSwitch
import RentalMarket.Lib.Json
import RentalMarket.Release.Plan
import RentalMarket.Release.Deploy
import RentalMarket.Release.Rollback
import RentalMarket.Release.Pruning
import RentalMarket.Catalogue.StoredAnswers
import RentalMarket.Pricing.OptimalQuote
import RentalMarket.Pricing.TieBreak
import RentalMarket.Pricing.DailyPrice
import RentalMarket.Lib.Binary
import RentalMarket.Core.Doubles
import RentalMarket.Pricing.FeeRounding
import RentalMarket.Payments.Conservation
import RentalMarket.Lib.Threshold
import RentalMarket.Pricing.BreakEven
import RentalMarket.Booking.WireDates
import RentalMarket.Booking.ExpirySweep
import RentalMarket.Lib.Backlog
import RentalMarket.Booking.Pending
import RentalMarket.Booking.Resume
import RentalMarket.Lib.SortedBy
import RentalMarket.Catalogue.ListingMedia
import RentalMarket.Catalogue.PhotographErasure
import RentalMarket.Catalogue.Photographs
import RentalMarket.Catalogue.PhotographOrder
import RentalMarket.Lib.BoundedRead
import RentalMarket.Audit.Trail
import RentalMarket.Audit.Activity
import RentalMarket.Lib.FixedWindow
import RentalMarket.RateLimiting.Limiter
import RentalMarket.RateLimiting.Window
import RentalMarket.Lib.Traversal
import RentalMarket.Observability.Redaction
import RentalMarket.Observability.Noninterference
import RentalMarket.Observability.Sharing
import RentalMarket.Lib.NumberText
import RentalMarket.Lib.JsonText
import RentalMarket.Audit.StateDigest
import RentalMarket.Catalogue.CategoryDigest
import RentalMarket.Pricing.DamageExcess
import RentalMarket.Lib.Apportion
import RentalMarket.Core.Allocation
import RentalMarket.Lib.Numeral
import RentalMarket.Core.MajorUnits
import RentalMarket.Catalogue.DecimalText
import RentalMarket.Core.RentalDays
import RentalMarket.Catalogue.Transport
import RentalMarket.Catalogue.Requirements
import RentalMarket.Web.ClientIp
import RentalMarket.Lib.Inevitable
import RentalMarket.Runtime.Shutdown
import RentalMarket.Runtime.Budget
import RentalMarket.Runtime.Worker
import RentalMarket.Runtime.Worker
import RentalMarket.Lib.Percent
import RentalMarket.Lib.ReadNumber
import RentalMarket.Core.Postcode
import RentalMarket.Catalogue.SearchQuery
import RentalMarket.Catalogue.SearchUrl
import RentalMarket.Observability.Scans
import RentalMarket.Lib.Ascii
import RentalMarket.Lib.Pieces
import RentalMarket.Observability.Credentials
import RentalMarket.Observability.Coverage
import RentalMarket.Observability.Tokens
import RentalMarket.Observability.Settled
import RentalMarket.Config.Urls
import RentalMarket.Observability.Passwords
import RentalMarket.Core.Phone
import RentalMarket.Core.PostcodeFormats
import RentalMarket.Lib.Lines
import RentalMarket.Lib.Replacement
import RentalMarket.Release.EnvFile
import RentalMarket.Release.EnvLines
import RentalMarket.Release.EnvRecords
import RentalMarket.Lib.Words
import RentalMarket.Licences.Classify
import RentalMarket.Licences.Evaluate
import RentalMarket.Licences.Expression
import RentalMarket.Licences.Verdicts
import RentalMarket.Licences.HalfRead
import RentalMarket.Licences.Assess
import RentalMarket.Payments.Calls
import RentalMarket.Booking.Secured
import RentalMarket.Encryption.Columns
import RentalMarket.Catalogue.Takedown
import RentalMarket.Catalogue.EstateErasure
import RentalMarket.Web.TermsForms
import RentalMarket.Web.PageTurning
import RentalMarket.Payments.LedgerRaces
import RentalMarket.Identity.SignInHistory
