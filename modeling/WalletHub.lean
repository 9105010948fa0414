import WalletHub.Json.Descriptions
import WalletHub.Json.Views
import WalletHub.LiveHub
import WalletHub.Hub
import WalletHub.Reaction.Manager
import WalletHub.Listener.Room
import WalletHub.Engine
import WalletHub.Json.Callbacks
import WalletHub.Json.Events
import WalletHub.Query.Client
import WalletHub.Proofs.Change.Wallet
import WalletHub.Proofs.Change.Manager
import WalletHub.Proofs.Fault
import WalletHub.Proofs.Change.Tree
import WalletHub.Proofs.Handling
import WalletHub.Proofs.Numbers
import WalletHub.Proofs.Run
import WalletHub.Proofs.Change.Place
import WalletHub.Proofs.Replay.Echo
import WalletHub.Proofs.Replay
import WalletHub.Proofs.Discard
import WalletHub.Proofs.Change.Stages
import WalletHub.Proofs.Course
import WalletHub.Proofs.Brackets
import WalletHub.Proofs.Normal
import WalletHub.Proofs.Primary
import WalletHub.Proofs.Desk
import WalletHub.Proofs.Answers
import WalletHub.Proofs.House
import WalletHub.Proofs.Hall
import WalletHub.Proofs.Delivery
import WalletHub.Proofs.Waiting
import WalletHub.Proofs.Live
import WalletHub.Proofs.Live.House
import WalletHub.Proofs.Live.Desk
import WalletHub.Proofs.Redelivery
import WalletHub.Proofs.Handover
import WalletHub.Proofs.Refusal
import WalletHub.Proofs.Teardown
import WalletHub.Proofs.Cleanup
import WalletHub.Proofs.Live.Shutdown
import WalletHub.Proofs.Locality
import WalletHub.Proofs.Index
import WalletHub.Proofs.Frozen
import WalletHub.Proofs.Independence
import WalletHub.Proofs.Backpressure
import WalletHub.Proofs.Conduct
import WalletHub.Proofs.Modes
import WalletHub.Proofs.Sync
import WalletHub.Proofs.Accounting
import WalletHub.Proofs.Json.Layout
import WalletHub.Proofs.Json.Forms
import WalletHub.Proofs.Json.RoundTrip
import WalletHub.Proofs.Heights
import WalletHub.Proofs.Asking
import WalletHub.Proofs.Submission
import WalletHub.Proofs.Founding
import WalletHub.Proofs.Routing
import WalletHub.Proofs.Reports
import WalletHub.Proofs.Drafts
import WalletHub.Proofs.Holdings
import WalletHub.Proofs.Currencies
import WalletHub.Proofs.Hearing
import WalletHub.Proofs.Caches
import WalletHub.Proofs.Numerals
import WalletHub.Proofs.Amounts
import WalletHub.Proofs.RawForms
import WalletHub.Proofs.Fees
import WalletHub.Proofs.Catalog
import WalletHub.Proofs.Audience
import WalletHub.Proofs.Addresses
