import SealedLedger.Decimal.Digits
import SealedLedger.Text.Hex
import SealedLedger.Text.Quoted
import SealedLedger.Text.Utf8

/-!
# Identifiers

A UUID is a word of 128 bits. It is written as five groups of lower-case hexadecimal digits, and
read in that form, without hyphens, in braces, or as a URN, with digits in either case. A random
identifier is a random word with its version and its variant set.

## Main definitions

* `Uuid` and `Uuid.text`.
* `Uuid.parse?` — reading an identifier.
* `Uuid.diagnose` — what is wrong with a text that is none.
* `Uuid.ofRandom` — the identifier of a random word.
* `Draws` — a supply of random words.
-/

namespace SealedLedger

/-- A word of 128 bits. -/
structure Uuid where
  bits : BitVec 128
  deriving DecidableEq

/-- Why a text is no identifier. -/
inductive UuidError where
  | length (found : Nat)
  | character (found : Char) (index : Nat)
  | groupCount (found : Nat)
  | groupLength (group expected found : Nat)
  deriving DecidableEq

/-- The wording of an error. -/
def UuidError.message : UuidError → String
  | .length n => "UUID parsing failed: invalid length: found " ++ Decimal.shown n
  | .character c i =>
    "UUID parsing failed: invalid character: found \x60" ++ String.ofList [c] ++ "\x60 at " ++
      Decimal.shown i
  | .groupCount n =>
    "UUID parsing failed: invalid group count: expected 5, found " ++ Decimal.shown n
  | .groupLength g e n =>
    "UUID parsing failed: invalid group length in group " ++ Decimal.shown g ++ ": expected " ++
      Decimal.shown e ++ ", found " ++ Decimal.shown n

namespace Uuid

/-! ### Writing -/

/-- The last `width` hexadecimal digits of a number. -/
def hexDigits : Nat → Nat → List Char
  | 0, _ => []
  | width + 1, n => hexDigits width (n / 16) ++ [Hex.digit (n % 16)]

/-- The lengths of the groups of digits. -/
def groups : List Nat := [8, 4, 4, 4, 12]

/-- Characters split into groups with hyphens between them. -/
def hyphenated : List Nat → List Char → List Char
  | [], _ => []
  | [n], cs => cs.take n
  | n :: ns, cs => cs.take n ++ '-' :: hyphenated ns (cs.drop n)

/-- The text of an identifier. -/
def text (u : Uuid) : String :=
  String.ofList (hyphenated groups (hexDigits 32 u.bits.toNat))

/-! ### Reading -/

/-- The values of hexadecimal digits. -/
def digits? (cs : List Char) : Option (List Nat) :=
  cs.mapM Hex.charDigit?

/-- The word of thirty-two digits. -/
def ofDigits? (cs : List Char) : Option Uuid :=
  if cs.length = 32 then
    (digits? cs).map fun ds => ⟨BitVec.ofNat 128 (ds.foldl (fun n d => n * 16 + d) 0)⟩
  else none

/-- The groups of a text between its hyphens. -/
def split : List Char → List (List Char)
  | [] => [[]]
  | c :: cs =>
    if c = '-' then [] :: split cs
    else
      match split cs with
      | [] => [[c]]
      | g :: gs => (c :: g) :: gs

/-- The word of five groups of digits. -/
def ofHyphenated? (cs : List Char) : Option Uuid :=
  let parts := split cs
  if parts.map List.length = groups then ofDigits? parts.flatten else none

/-- How a text is wrapped. -/
inductive Wrapper where
  | bare
  | braces
  | urn
  deriving DecidableEq

/-- The letters in front of an identifier that is a URN. -/
def urnMark : List Char := ['u', 'r', 'n', ':', 'u', 'u', 'i', 'd', ':']

/-- The text inside its wrapper. -/
def unwrap (cs : List Char) : Wrapper × List Char :=
  if cs.take 1 = ['\x7b'] ∧ cs.getLast? = some '\x7d' then
    (.braces, (cs.drop 1).dropLast)
  else if (cs.take 9).map Char.toLower = urnMark then (.urn, cs.drop 9)
  else (.bare, cs)

/-- The first character that is neither a digit nor a hyphen, with the byte it starts at. -/
def stray? : Nat → List Char → Option (Char × Nat)
  | _, [] => none
  | i, c :: cs =>
    if c = '-' ∨ (Hex.charDigit? c).isSome then stray? (i + (Utf8.encodeChar c).length) cs
    else some (c, i)

/-- The first group whose length is not the expected one. -/
def wrongGroup? : Nat → List Nat → List Nat → Option (Nat × Nat × Nat)
  | i, e :: es, n :: ns => if e = n then wrongGroup? (i + 1) es ns else some (i, e, n)
  | _, _, _ => none

/-- What is judged in a text that is no identifier. -/
structure Candidate where
  /-- The characters that should be digits and hyphens. -/
  inner : List Char
  /-- The byte at which they start to be counted. -/
  start : Nat
  /-- The digits must stand in groups. -/
  grouped : Bool

/-- What is judged in a text of some bytes. The length alone tells that a text is meant as digits
without hyphens or as groups without a wrapper, and what it wraps is judged by itself when the
groups in their wrapper have this length. Anything else is judged by how it is wrapped. -/
def candidate (length : Nat) (cs : List Char) : Candidate :=
  if length = 32 then ⟨cs, 0, false⟩
  else if length = 36 then ⟨cs, 0, true⟩
  else
    match unwrap cs with
    | (.bare, inner) => ⟨inner, 0, false⟩
    | (.braces, inner) => ⟨inner, if length = 38 then 0 else 1, true⟩
    | (.urn, inner) => ⟨inner, if length = 45 then 0 else 9, true⟩

/-- What is wrong with a text that is no identifier. The last group is taken to reach from its place
to the end of the text. -/
def diagnose (cs : List Char) : UuidError :=
  let length := (Utf8.encode cs).length
  if length = 0 ∨ 45 < length then .length length
  else
    let c := candidate length cs
    match stray? c.start c.inner with
    | some (ch, i) => .character ch i
    | none =>
      let parts := split c.inner
      if parts.length = 1 ∧ !c.grouped then .length length
      else if parts.length ≠ 5 then .groupCount parts.length
      else
        match wrongGroup? 0 (groups.take 4) (parts.map List.length) with
        | some (g, e, n) => .groupLength g e n
        | none => .groupLength 4 12 (length - 24)

/-- The identifier of a text. -/
def parse? (s : String) : Except UuidError Uuid :=
  let cs := s.toList
  let (wrapper, inner) := unwrap cs
  let found := match wrapper with
    | .bare => ofDigits? inner <|> ofHyphenated? inner
    | .braces => ofHyphenated? inner
    | .urn => ofHyphenated? inner
  match found with
  | some u => .ok u
  | none => .error (diagnose cs)

/-! ### Random identifiers -/

/-- A random word with its version and its variant set. -/
def ofRandom (word : BitVec 128) : Uuid :=
  ⟨(word &&& ~~~(0xF000#128 <<< 64 ||| 0xC000000000000000#128)) |||
    (0x4000#128 <<< 64 ||| 0x8000000000000000#128)⟩

end Uuid

/-- A supply of random words, and how many of them have been drawn. -/
structure Draws where
  word : Nat → BitVec 128
  used : Nat

/-- The next random identifier and the supply after it. -/
def Draws.next (d : Draws) : Uuid × Draws :=
  (.ofRandom (d.word d.used), ⟨d.word, d.used + 1⟩)

end SealedLedger
