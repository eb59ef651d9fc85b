import SealedLedger.Ledger.Basic
import SealedLedger.Text.Printable
import SealedLedger.Timestamp.Internet

/-!
# Clock settings

The environment may fix the clock, so that a run gives the same ledger each time, and may insist
that it is fixed.

## Main definitions

* `ClockSetting.ofEnvironment?` — the setting of an environment.
* `ClockSetting.clock` — the clock of a setting.
-/

namespace SealedLedger

/-- A time to fix the clock at, and whether the clock must be fixed. -/
structure ClockSetting where
  fixed : Option Timestamp
  strict : Bool
  deriving DecidableEq

/-- What is wrong with the environment. -/
inductive ClockSettingError where
  | invalid (raw : String)
  | missing
  deriving DecidableEq

/-- The wording of an error. -/
def ClockSettingError.message : ClockSettingError → String
  | .invalid raw => "PAYGOD_CLOCK is not a valid RFC 3339 timestamp: " ++ raw
  | .missing => "PAYGOD_STRICT=1 requires PAYGOD_CLOCK to be set"

namespace ClockSetting

/-- A text without the white space at its ends. -/
def trimmed (s : String) : String :=
  String.ofList (Printable.trim s.toList)

/-- The time that a setting names, if it names one. A blank setting is none. -/
def time? : Option String → Except ClockSettingError (Option Timestamp)
  | none => .ok none
  | some raw =>
    if trimmed raw = "" then .ok none
    else
      match Timestamp.ofInternet? (trimmed raw) with
      | .ok t => .ok (some t)
      | .error _ => .error (.invalid raw)

/-- The setting of the two environment variables, the clock and its strictness. -/
def ofEnvironment? (clock strictness : Option String) : Except ClockSettingError ClockSetting :=
  let strict := strictness.any fun s => trimmed s == "1"
  match time? clock with
  | .error e => .error e
  | .ok fixed => if strict && fixed.isNone then .error .missing else .ok ⟨fixed, strict⟩

/-- The clock of a setting. -/
def clock (s : ClockSetting) : Clock :=
  match s.fixed with
  | some t => .fixed t
  | none => .system

/-- The setting of an empty environment. -/
def unset : ClockSetting :=
  ⟨none, false⟩

end ClockSetting

end SealedLedger
