import SealedLedger.Canonical

/-!
# Writing JSON

Values as they are stored: members in the order they have, floating-point numbers always with a
fraction or an exponent. The compact layout has no white space, the indented one puts each item on
a line of its own, two spaces deeper than its container.

## Main definitions

* `Json.compact` — the compact text of a value.
* `Json.indented` — the indented text of a value.
-/

namespace SealedLedger

namespace Json

/-- A number as it is stored. -/
def numberText (n : Number) : Except CanonicalError (List Char) :=
  Canonical.numberIn .plain n

/-- The wording of a refusal to store a value. -/
def unwritable : CanonicalError → String
  | .repeatedKey key => "duplicate key " ++ Quoted.string key
  | .notFinite x => "non-finite number " ++ x.nonFiniteName ++ " cannot be serialized"

/-! ### Layout of containers -/

/-- How a container is laid out: what stands before an item at a depth, and after a key. -/
structure Spacing where
  before : Nat → List Char
  afterKey : List Char

/-- No white space. -/
def Spacing.none : Spacing :=
  ⟨fun _ => [], [':']⟩

/-- Each item on a line of its own. -/
def Spacing.lines : Spacing :=
  ⟨fun depth => '\n' :: List.replicate (2 * depth) ' ', [':', ' ']⟩

/-- Items with commas between them, each set off, and the closing bracket set off too; without
items the brackets touch. -/
def container (s : Spacing) (depth : Nat) (opening closing : Char) (items : List (List Char)) :
    List Char :=
  match items with
  | [] => [opening, closing]
  | items =>
    opening :: Canonical.commaSeparated (items.map (s.before (depth + 1) ++ ·)) ++
      s.before depth ++ [closing]

/-! ### Values -/

mutual

/-- The text of a value at a depth. -/
def write (s : Spacing) (depth : Nat) : Value → Except CanonicalError (List Char)
  | .null => .ok ['n', 'u', 'l', 'l']
  | .bool true => .ok ['t', 'r', 'u', 'e']
  | .bool false => .ok ['f', 'a', 'l', 's', 'e']
  | .number n => numberText n
  | .string t => .ok (Canonical.string t)
  | .array items =>
    match writeItems s (depth + 1) items with
    | .ok texts => .ok (container s depth '[' ']' texts)
    | .error e => .error e
  | .object members =>
    match writeMembers s (depth + 1) members with
    | .ok texts => .ok (container s depth '\x7b' '\x7d' texts)
    | .error e => .error e
termination_by structural v => v

/-- The texts of items. -/
def writeItems (s : Spacing) (depth : Nat) : List Value → Except CanonicalError (List (List Char))
  | [] => .ok []
  | v :: vs =>
    match write s depth v with
    | .error e => .error e
    | .ok t =>
      match writeItems s depth vs with
      | .ok ts => .ok (t :: ts)
      | .error e => .error e
termination_by structural vs => vs

/-- The texts of members. -/
def writeMembers (s : Spacing) (depth : Nat) :
    List (String × Value) → Except CanonicalError (List (List Char))
  | [] => .ok []
  | m :: ms =>
    match writeMember s depth m with
    | .error e => .error e
    | .ok t =>
      match writeMembers s depth ms with
      | .ok ts => .ok (t :: ts)
      | .error e => .error e
termination_by structural ms => ms

/-- The text of a member. -/
def writeMember (s : Spacing) (depth : Nat) : String × Value → Except CanonicalError (List Char)
  | (k, v) =>
    match write s depth v with
    | .ok t => .ok (Canonical.string k ++ s.afterKey ++ t)
    | .error e => .error e
termination_by structural m => m

end

/-- The compact text of a value. -/
def compact (v : Value) : Except CanonicalError (List Char) :=
  write .none 0 v

/-- The indented text of a value. -/
def indented (v : Value) : Except CanonicalError (List Char) :=
  write .lines 0 v

end Json

end SealedLedger
