import Paybook.CommandLine
import Paybook.Entry.Json
import Paybook.Locks.Table
import Paybook.Main
import Paybook.Proofs.Text.Trimming
import Paybook.Proofs.Entry.WellFormed
import Paybook.Proofs.Program.Upholds
import Paybook.Proofs.Entry.Exact
import Paybook.Proofs.Store.Writes
import Paybook.Proofs.Store.OrderSafety
import Paybook.Proofs.Store.Worth
import Paybook.Proofs.Store.Refunds
import Paybook.Proofs.Program.Secures
import Paybook.Proofs.Program.Steps
import Paybook.Proofs.Service.Wallet
import Paybook.Proofs.Service.Payment
import Paybook.Proofs.Service.Ledger
import Paybook.Proofs.Service.Crowd
import Paybook.Proofs.Program.Yields
import Paybook.Proofs.Service.Conservation
import Paybook.Proofs.Service.Atomicity
import Paybook.Proofs.Service.Outcomes
import Paybook.Proofs.Service.Legs
import Paybook.Proofs.Service.DailyLimits
import Paybook.Proofs.Service.Frame
import Paybook.Proofs.Store.Sharing
import Paybook.Proofs.Service.Exactness
import Paybook.Proofs.Decimal.Range
import Paybook.Proofs.Entry.Range
import Paybook.Proofs.Service.Range
import Paybook.Proofs.Service.Upholding
import Paybook.Proofs.Service.WellKept
import Paybook.Proofs.Entry.Summary
import Paybook.Proofs.Service.Refunds
import Paybook.Proofs.Locks.Exclusion
import Paybook.Proofs.Locks.Progress
import Paybook.Proofs.Program.Acquires
import Paybook.Proofs.Service.Deadlock
import Paybook.Proofs.Decimal.Printed
import Paybook.Proofs.Entry.Json
import Paybook.Proofs.Entry.Renaming
import Paybook.Proofs.Program.Demands
import Paybook.Proofs.Service.Bookings
import Paybook.Proofs.Service.Locality
import Paybook.Proofs.Service.Paying
import Paybook.Proofs.Service.Refunding
import Paybook.Proofs.Text.Digits
import Paybook.Proofs.Time.Civil
import Paybook.Proofs.Time.Written
import Paybook.Proofs.Json.Strings
import Paybook.Proofs.Json.Records
import Paybook.Proofs.Service.Views
import Paybook.Proofs.Service.Commuting
import Paybook.Proofs.Service.Settling
import Paybook.Proofs.Service.Funding
import Paybook.Proofs.Service.Counting
import Paybook.Proofs.Service.Reporting
import Paybook.Proofs.Service.Holdings
import Paybook.Proofs.Decimal.Normal
import Paybook.Proofs.Session.Report
import Paybook.Proofs.Session.Columns
import Paybook.Proofs.Service.Listing
import Paybook.Proofs.Session.Rows
import Paybook.Proofs.Binary64.Rounding
import Paybook.Proofs.Binary64.Shortest
import Paybook.Proofs.Binary64.Decimals
import Paybook.Proofs.Session.Amounts
import Paybook.Proofs.Service.Tiling
import Paybook.Proofs.Entry.SuccessRate
import Paybook.Proofs.Text.Variants
import Paybook.Proofs.Settings.Payable
import Paybook.Proofs.Session.Written
import Paybook.Proofs.Service.Masking
import Paybook.Proofs.Time.Midnight
