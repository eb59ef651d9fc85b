import SealedLedger.Ledger.Shared
import SealedLedger.Main
import SealedLedger.Proofs.Canonical.Strings
import SealedLedger.Proofs.Text.Utf8
import SealedLedger.Proofs.Decimal.Digits
import SealedLedger.Proofs.Binary64.Arithmetic
import SealedLedger.Proofs.Canonical.Equivalence
import SealedLedger.Proofs.Calendar
import SealedLedger.Proofs.Canonical.Stability
import SealedLedger.Proofs.Canonical.Decoded
import SealedLedger.Proofs.Ledger.Chain
import SealedLedger.Proofs.Ledger.Commitment
import SealedLedger.Proofs.Ledger.Growth
import SealedLedger.Proofs.Ledger.Tamper
import SealedLedger.Proofs.Ledger.Stored
import SealedLedger.Proofs.Cli.Saving
import SealedLedger.Proofs.Cli.Kept
import SealedLedger.Proofs.Ledger.Break
import SealedLedger.Proofs.Ledger.Extension
import SealedLedger.Proofs.Ledger.Hashed
import SealedLedger.Proofs.Ledger.Marks
import SealedLedger.Proofs.Ledger.Sharing
import SealedLedger.Proofs.Cli.Extending
import SealedLedger.Proofs.Suite.Accepted
import SealedLedger.Proofs.Suite.Stored
import SealedLedger.Proofs.Suite.Regenerated
import SealedLedger.Proofs.Cli.Suites
import SealedLedger.Proofs.Documents
import SealedLedger.Proofs.Decimal.Whole
import SealedLedger.Proofs.Canonical.Integers
import SealedLedger.Json.Data
import SealedLedger.Proofs.Json.Strict
import SealedLedger.Proofs.Json.SortedMap
import SealedLedger.Proofs.Json.Data
import SealedLedger.Proofs.Ledger.Edit
import SealedLedger.Proofs.Canonical.Order
import SealedLedger.Proofs.Binary64.Nearest
import SealedLedger.Proofs.Decimal.Closest
import SealedLedger.Proofs.Decimal.Reading
import SealedLedger.Proofs.Canonical.Shortest
import SealedLedger.Proofs.Yaml.Word
import SealedLedger.Proofs.Yaml.Numbers
import SealedLedger.Proofs.Formats
import SealedLedger.Proofs.Suite.Generated
import SealedLedger.Proofs.Timestamp.Naming
import SealedLedger.Proofs.Ledger.Foreign
import SealedLedger.Proofs.Json.Skipped
import SealedLedger.Proofs.Suite.Outline
import SealedLedger.Proofs.Cli.Rewriting
import SealedLedger.Proofs.ClockSetting
import SealedLedger.Proofs.Timestamp.Leap
import SealedLedger.Proofs.Digest.Accepted
import SealedLedger.Proofs.Canonical.Units
import SealedLedger.Proofs.Canonical.Quotes
import SealedLedger.Proofs.Json.Compact
import SealedLedger.Proofs.Json.Layouts
