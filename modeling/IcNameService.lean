import IcNameService.Core.OrdMap
import IcNameService.Core.Saturating
import IcNameService.Core.Machine
import IcNameService.Core.Keyed
import IcNameService.Core.Walk
import IcNameService.Core.Lines
import IcNameService.Core.Scans
import IcNameService.Core.Since
import IcNameService.Core.Utf8
import IcNameService.Core.Casing
import IcNameService.Core.Json
import IcNameService.Core.Simulation
import IcNameService.Core.Markup
import IcNameService.External.Principal
import IcNameService.External.IcAuction
import IcNameService.External.Certification
import IcNameService.External.Env
import IcNameService.External.Reference
import IcNameService.External.Unicode
import IcNameService.External.Forecast
import IcNameService.Canister.Names
import IcNameService.Canister.Store
import IcNameService.Canister.Harberger
import IcNameService.Canister.Certify
import IcNameService.Canister.Directory
import IcNameService.Canister.Commit
import IcNameService.Canister.Lifecycle
import IcNameService.Canister.Auction
import IcNameService.Canister.Endpoints
import IcNameService.Canister.Messages
import IcNameService.Canister.Effects
import IcNameService.Canister.Settings
import IcNameService.Canister.Shape
import IcNameService.Canister.Resolve
import IcNameService.Canister.Gateway
import IcNameService.Canister.Query
import IcNameService.Canister.Verifier
import IcNameService.System.World
import IcNameService.System.Histories
import IcNameService.Naming.Handles
import IcNameService.Naming.Kinds
import IcNameService.Naming.Routes
import IcNameService.Books.Value
import IcNameService.Books.Closing
import IcNameService.Books.Messages
import IcNameService.Books.Account
import IcNameService.Books.Treasury
import IcNameService.Books.Ledger
import IcNameService.Market.Vacant
import IcNameService.Market.UnderAuction
import IcNameService.Market.Payments
import IcNameService.Market.Rates
import IcNameService.Market.Handover
import IcNameService.Market.Visible
import IcNameService.Resolution.Mirror
import IcNameService.Resolution.Follow
import IcNameService.Resolution.Bounded
import IcNameService.Resolution.Honest
import IcNameService.Resolution.Sound
import IcNameService.Resolution.Canonical
import IcNameService.Provenance.Upheld
import IcNameService.Provenance.Authentic
import IcNameService.Directory.Texts
import IcNameService.Directory.Index
import IcNameService.Directory.Search
import IcNameService.System.Upgrades
import IcNameService.Market.Terms
import IcNameService.Market.Settling
import IcNameService.System.Undo
import IcNameService.System.Refusals
import IcNameService.Market.Holding
import IcNameService.Market.Tending
import IcNameService.Market.Credit
import IcNameService.Naming.TextKeys
import IcNameService.Directory.Queries
import IcNameService.Directory.Finding
import IcNameService.Canister.Administration
import IcNameService.Canister.Views
import IcNameService.Canister.Render
import IcNameService.Registry.Abstract
import IcNameService.Registry.Accepted
import IcNameService.Registry.Refinement
import IcNameService.Registry.Latest
import IcNameService.Serving.Reading
import IcNameService.Serving.Answers
import IcNameService.Serving.Page
import IcNameService.Market.Deeds
import IcNameService.Market.Conveyance
import IcNameService.Market.Tenure
import IcNameService.Core.StableSort
import IcNameService.Serving.Counts
import IcNameService.Serving.Expiring
import IcNameService.Core.Journal
import IcNameService.Parties.Holdings
import IcNameService.Parties.Closing
import IcNameService.Parties.Transfers
import IcNameService.Parties.Statement
import IcNameService.Canister.Memory
import IcNameService.System.Restarts
import IcNameService.Registry.Listing
import IcNameService.Market.Pledges
import IcNameService.Parties.Exit
