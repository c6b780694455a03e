import Accounts.Backend.Tables
import Accounts.Session.Basic
import Accounts.Settings.Assembly
import Accounts.Time.Rfc3339.Lemmas
import Accounts.Proofs.Directory.Alone
import Accounts.Proofs.Program.Precondition
import Accounts.Proofs.Directory.SaveOutcome
import Accounts.Proofs.Json.Written
import Accounts.Proofs.User.RoundTrip
import Accounts.Proofs.Directory.Atomicity
import Accounts.Proofs.Directory.Conduct
import Accounts.Proofs.Directory.CrashSafety
import Accounts.Proofs.Directory.Race
import Accounts.Proofs.Directory.TornWrites
import Accounts.Proofs.Directory.Visitors
import Accounts.Proofs.Directory.SoleWrite
import Accounts.Proofs.Service.Course
import Accounts.Proofs.Service.Changes
import Accounts.Proofs.Service.LostUpdate
import Accounts.Proofs.Backend.Layout
import Accounts.Proofs.Backend.Leases
import Accounts.Proofs.Backend.Agreement
import Accounts.Proofs.Service.Requests
import Accounts.Proofs.Session.Interchange
import Accounts.Proofs.Directory.Linearizable
import Accounts.Proofs.Service.Alone
import Accounts.Proofs.Service.Effect
import Accounts.Proofs.Service.Deeds
import Accounts.Proofs.Service.AccountsKept
import Accounts.Proofs.Service.TokenLedger
import Accounts.Proofs.Service.TokenLife
import Accounts.Proofs.Service.Redemption
import Accounts.Proofs.Directory.Records
import Accounts.Proofs.Directory.RefusedSave
import Accounts.Proofs.Service.Frame
import Accounts.Proofs.Event.Reading
import Accounts.Proofs.Service.History
import Accounts.Proofs.Backend.Server
import Accounts.Proofs.Backend.Custody
import Accounts.Proofs.Backend.Revocation
import Accounts.Proofs.Directory.Search
import Accounts.Proofs.Service.Login
import Accounts.Proofs.Service.Visits
import Accounts.Proofs.Service.Rehash
import Accounts.Proofs.Service.TokenIssue
import Accounts.Proofs.Text.Literal
import Accounts.Proofs.Settings.Language
import Accounts.Proofs.Hasher.Phc
import Accounts.Proofs.Hasher.Migration
import Accounts.Proofs.Service.Arguments
import Accounts.Proofs.Event.FanOut
