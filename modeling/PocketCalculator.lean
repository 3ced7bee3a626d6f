import PocketCalculator.Main
import PocketCalculator.Proofs.Calculator.Chain
import PocketCalculator.Proofs.Calculator.Constant
import PocketCalculator.Proofs.Calculator.Meaning
import PocketCalculator.Proofs.Grammar.Value
import PocketCalculator.Proofs.Calculator.Replay
import PocketCalculator.Proofs.Expression.Lexemes
import PocketCalculator.Proofs.Grammar.Adjacent
import PocketCalculator.Proofs.Expression.Allowed
import PocketCalculator.Proofs.Expression.Transparent
import PocketCalculator.Proofs.Calculator.Invariant
import PocketCalculator.Proofs.Grammar.Faults
import PocketCalculator.Proofs.Expression.Products
import PocketCalculator.Proofs.Expression.Beginnings
import PocketCalculator.Proofs.Expression.Entries
import PocketCalculator.Proofs.Calculator.Missing
import PocketCalculator.Proofs.Grammar.Breaking
import PocketCalculator.Proofs.Expression.Kinds
import PocketCalculator.Proofs.Expression.Seams
import PocketCalculator.Proofs.Expression.Neighbours
import PocketCalculator.Proofs.Expression.Vocabulary
import PocketCalculator.Proofs.Expression.Settled
import PocketCalculator.Proofs.Expression.Runs
import PocketCalculator.Proofs.Expression.Parentheses
import PocketCalculator.Proofs.Calculator.Opened
import PocketCalculator.Proofs.Calculator.Pending
import PocketCalculator.Proofs.Calculator.Factor
import PocketCalculator.Proofs.Calculator.Closed
import PocketCalculator.Proofs.Number.Bits
import PocketCalculator.Proofs.Number.Nearest
import PocketCalculator.Proofs.Number.Rounded
import PocketCalculator.Proofs.Number.Sum
import PocketCalculator.Proofs.Number.Shortest
import PocketCalculator.Proofs.Number.Written
import PocketCalculator.Proofs.Number.Display
import PocketCalculator.Proofs.Calculator.Finished
import PocketCalculator.Proofs.Calculator.Recent
import PocketCalculator.Proofs.Calculator.Recovered
import PocketCalculator.Proofs.Calculator.Memory
import PocketCalculator.Proofs.Key.Spelling
import PocketCalculator.Proofs.Session.Scripts
import PocketCalculator.Proofs.Session.Steps
import PocketCalculator.Proofs.Session.Independence
import PocketCalculator.Proofs.Calculator.Copied
import PocketCalculator.Proofs.Number.Room
import PocketCalculator.Proofs.Calculator.Spaces
import PocketCalculator.Proofs.Panel.Width
import PocketCalculator.Proofs.Grammar.Balance
import PocketCalculator.Proofs.Number.Denoted
import PocketCalculator.Proofs.Number.Precision
import PocketCalculator.Proofs.Number.Tidy
import PocketCalculator.Proofs.Calculator.Edited
import PocketCalculator.Proofs.Number.Reread
import PocketCalculator.Proofs.Calculator.Undone
import PocketCalculator.Proofs.Calculator.Untouched
import PocketCalculator.Proofs.Expression.Rendered
import PocketCalculator.Proofs.Grammar.Joined
import PocketCalculator.Proofs.Grammar.Cursor
import PocketCalculator.Proofs.Calculator.Layout
