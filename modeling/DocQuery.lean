import DocQuery.Double.Nearest
import DocQuery.Json.Place
import DocQuery.Json.Reading
import DocQuery.Json.Reordered
import DocQuery.Json.Spelling
import DocQuery.Json.Tree
import DocQuery.Options.Written
import DocQuery.Query.Account
import DocQuery.Query.Levels
import DocQuery.Query.Matching
import DocQuery.Query.Meaning
import DocQuery.Query.Parts
import DocQuery.Query.Place
import DocQuery.Query.Reach
import DocQuery.Query.Rearranged
import DocQuery.Query.Survey
import DocQuery.Query.WellFormed
import DocQuery.Query.Wrapped
import DocQuery.Text.Enclosed
import DocQuery.Value.Assembled
import DocQuery.Value.Canonical
import DocQuery.Value.Chain
import DocQuery.Value.Clean
import DocQuery.Value.Exact
import DocQuery.Value.Literal
import DocQuery.Value.Strings
import DocQuery.Value.Zeros
import DocQuery.Proofs.Accounting
import DocQuery.Proofs.Agreement
import DocQuery.Proofs.Budget
import DocQuery.Proofs.ByteOrder
import DocQuery.Proofs.Construction
import DocQuery.Proofs.Deciding
import DocQuery.Proofs.Disclosure
import DocQuery.Proofs.Duality
import DocQuery.Proofs.Equality
import DocQuery.Proofs.ExactOrder
import DocQuery.Proofs.Grammar
import DocQuery.Proofs.Itemized
import DocQuery.Proofs.Keys
import DocQuery.Proofs.Leaves
import DocQuery.Proofs.LiteralPlaces
import DocQuery.Proofs.Lockstep
import DocQuery.Proofs.Marks
import DocQuery.Proofs.Meaning
import DocQuery.Proofs.Membership
import DocQuery.Proofs.Monotone
import DocQuery.Proofs.Nearest
import DocQuery.Proofs.Negation
import DocQuery.Proofs.NotANumber
import DocQuery.Proofs.NumberKinds
import DocQuery.Proofs.Numerals
import DocQuery.Proofs.OrderTests
import DocQuery.Proofs.Parts
import DocQuery.Proofs.Paths
import DocQuery.Proofs.Places
import DocQuery.Proofs.Quotation
import DocQuery.Proofs.Reordering
import DocQuery.Proofs.RoundTrip
import DocQuery.Proofs.Rounding
import DocQuery.Proofs.Selection
import DocQuery.Proofs.Settings
import DocQuery.Proofs.Spelling
import DocQuery.Proofs.Survey
import DocQuery.Proofs.Threshold
import DocQuery.Proofs.Tokens
import DocQuery.Proofs.Trees
import DocQuery.Proofs.Visibility
import DocQuery.Proofs.WellFormed
import DocQuery.Proofs.WholeDocument
import DocQuery.Proofs.WholeNumbers
import DocQuery.Proofs.Wrapping
import DocQuery.Proofs.Zeros
import DocQuery.Query.Rules
import DocQuery.Proofs.Operands
import DocQuery.Proofs.Rules
