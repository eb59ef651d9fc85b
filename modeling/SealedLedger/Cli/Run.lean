import SealedLedger.Cli.Arguments
import SealedLedger.Cli.Ledger
import SealedLedger.Cli.Validate
import SealedLedger.Cli.Vectors

/-!
# Running commands

## Main definitions

* `Cli.Command.run` — a command run in a session.
* `Cli.Command.paths` — the files that a command may read or write.
-/

namespace SealedLedger

namespace Cli

/-- Runs a command in a session. -/
def Command.run (env : Environment) (s : Session) : Command → Outcome × Session
  | .validate path json printCanonical => Cli.validate s path json printCanonical
  | .verifyVectors paths => Cli.verifyVectors s true paths
  | .generateVectors path => Cli.generateVectors s path
  | .simulate payload recordType target => Cli.simulate env s payload recordType target
  | .append ledger payload recordType => Cli.append env s ledger payload recordType
  | .verifyLedger path audit => Cli.verifyLedger s path audit

/-- The files that a command may read or write. -/
def Command.paths : Command → List String
  | .validate path _ _ => [path]
  | .verifyVectors paths => paths
  | .generateVectors path => [path]
  | .simulate payload _ target => payload.toList ++ target.toList
  | .append ledger payload _ => [ledger, payload]
  | .verifyLedger path _ => [path]

end Cli

end SealedLedger
