import ImportRank.Number.Decimal
import ImportRank.Text.Blank
import ImportRank.Text.Quoted
import ImportRank.Text.Utf8
import ImportRank.Path
import ImportRank.Rank.Solver
import ImportRank.Order.DependencyOrder
import ImportRank.Report.Selection
import ImportRank.Report.Table
import ImportRank.Ignore.Rules
import ImportRank.Files.Tree
import ImportRank.Source.Search
import ImportRank.Run
import ImportRank.Main
import ImportRank.Import.Extraction
import ImportRank.Proofs.Order.Visit
import ImportRank.Proofs.Order.Precedence
import ImportRank.Proofs.Rank.Advance
import ImportRank.Proofs.Rank.Linking
import ImportRank.Proofs.Rank.Flow
import ImportRank.Proofs.Rank.LinkedNetwork
import ImportRank.Proofs.Rank.Convergence
import ImportRank.Proofs.Rank.Stationary
import ImportRank.Proofs.Import.Targets
import ImportRank.Proofs.Run.Discovery
import ImportRank.Proofs.Rank.Conservation
import ImportRank.Proofs.Run.Gathering
import ImportRank.Proofs.Run.Conservation
import ImportRank.Proofs.Order.Grade
import ImportRank.Proofs.Order.Recursion
import ImportRank.Proofs.Rank.KeyedWeights
import ImportRank.Proofs.Rank.Received
import ImportRank.Proofs.Rank.Relinking
import ImportRank.Proofs.Rank.History
import ImportRank.Proofs.Rank.LineCounts
import ImportRank.Proofs.Rank.Arrangement
import ImportRank.Proofs.Order.Doubles
import ImportRank.Proofs.Source.Counting
import ImportRank.Proofs.Run.Ranking
import ImportRank.Proofs.Run.Tally
import ImportRank.Proofs.Rank.Dependents
import ImportRank.Proofs.Path.Normal
import ImportRank.Proofs.Files.Absolute
import ImportRank.Proofs.Source.Arrival
import ImportRank.Proofs.Source.Pool
import ImportRank.Proofs.Run.Building
import ImportRank.Proofs.Rank.Accounting
import ImportRank.Proofs.Order.Blocks
import ImportRank.Proofs.Order.Components
import ImportRank.Proofs.Rank.Imported
import ImportRank.Proofs.Order.InPlace
import ImportRank.Proofs.Order.Immaterial
import ImportRank.Proofs.Import.Scripts
import ImportRank.Proofs.Import.Relative
import ImportRank.Proofs.Import.Modules
import ImportRank.Proofs.Import.Wildcard
import ImportRank.Proofs.Import.Route
import ImportRank.Proofs.Source.Eligible
import ImportRank.Proofs.Source.Printed
import ImportRank.Proofs.Run.Failure
import ImportRank.Proofs.Run.FoundFiles
import ImportRank.Proofs.Source.Refusal
import ImportRank.Proofs.Source.Roots
import ImportRank.Proofs.Files.Place
import ImportRank.Proofs.Rank.Imports
import ImportRank.Proofs.Rank.Ceiling
import ImportRank.Proofs.Text.Terminators
import ImportRank.Proofs.Import.Indented.Reading
import ImportRank.Proofs.Import.Script.Reading
import ImportRank.Proofs.Report.Alignment
import ImportRank.Proofs.Source.OneLanguage
import ImportRank.Proofs.Run.Reporting
