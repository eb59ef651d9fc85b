import SealedLedger.Yaml.BlockScalar
import SealedLedger.Yaml.PlainScalar
import SealedLedger.Yaml.Property
import SealedLedger.Yaml.QuotedScalar

/-!
# Tokens of a YAML text

A YAML text becomes a list of tokens in which indentation is made explicit: a block collection
starts and ends with a token of its own. A simple key shows only at the colon after it, so the place
of each node that may turn out to be one is remembered, and the key token is put there afterwards.

## Main definitions

* `Yaml.Token`, `Yaml.Lexeme` — a token, and where it starts.
* `Yaml.Scan` — a position with the open blocks and brackets around it and the tokens before it.
* `Yaml.Tokens.ofText` — the tokens of a text, and what is wrong after them.
-/

namespace SealedLedger

namespace Yaml

/-- A token. -/
inductive Token where
  | directive (d : Directive)
  | documentStart
  | documentEnd
  | blockSequenceStart
  | blockMappingStart
  | blockEnd
  | blockEntry
  | flowSequenceStart
  | flowSequenceEnd
  | flowMappingStart
  | flowMappingEnd
  | flowEntry
  | key
  | value
  | alias (name : List Char)
  | anchor (name : List Char)
  | tag (t : Tag)
  | scalar (plain : Bool) (text : List Char)
  | streamEnd
  deriving DecidableEq

/-- A token and the place where it starts. -/
structure Lexeme where
  token : Token
  mark : Mark
  deriving DecidableEq

/-- The place of a node that may turn out to be a simple key: whether it must be one, how many
tokens stand before it, the number of bytes before it, and its place. -/
structure KeyPlace where
  required : Bool
  token : Nat
  index : Nat
  mark : Mark

/-- A required key turns out to be none at a position. -/
def KeyPlace.fault (k : KeyPlace) (c : Cursor) : Fault :=
  c.fault .keyWithoutColon .simpleKey k.mark

/-- The state of reading tokens: the position, the tokens so far, the indentation of the open
blocks, whether a simple key may start here, and the possible simple key at the present level of
brackets and at the levels around it. -/
structure Scan where
  cursor : Cursor
  tokens : List Lexeme
  indent : Int
  outer : List Int
  keyAllowed : Bool
  keyPlace : Option KeyPlace
  levels : List (Option KeyPlace)

namespace Scan

/-- The state at the start of a text. -/
def start (text : List Char) : Scan :=
  ⟨.start text, [], -1, [], true, none, []⟩

/-- The position is inside brackets. -/
def flow (s : Scan) : Bool :=
  !s.levels.isEmpty

/-- A token that starts at a place added at the end. -/
def push (s : Scan) (m : Mark) (t : Token) : Scan :=
  { s with tokens := s.tokens ++ [⟨t, m⟩] }

/-- A token added at the end that starts at the present position. -/
def pushHere (s : Scan) (t : Token) : Scan :=
  s.push s.cursor.mark t

/-- A token put in front of those from a given number on. -/
def insert (s : Scan) (n : Nat) (m : Mark) (t : Token) : Scan :=
  { s with tokens := s.tokens.take n ++ ⟨t, m⟩ :: s.tokens.drop n }

/-- The state some characters further on. -/
def advance (s : Scan) (n : Nat) : Scan :=
  { s with cursor := s.cursor.advance n }

/-! ### Blocks -/

/-- Opens a block at the column of a place, unless one is open there; its token is put in front of
those from a given number on. -/
def openBlock (s : Scan) (m : Mark) (n : Nat) (t : Token) : Scan :=
  if s.flow || m.column ≤ s.indent then s
  else { s.insert n m t with indent := m.column, outer := s.indent :: s.outer }

/-- `closeBlocks` for the given blocks around the innermost one. -/
def closeBlocksFrom (column : Int) (s : Scan) : List Int → Scan
  | [] => s
  | i :: outer =>
    if column < s.indent then
      closeBlocksFrom column { s.pushHere .blockEnd with indent := i, outer := outer } outer
    else s

/-- Closes all blocks that are indented further than a column. -/
def closeBlocks (s : Scan) (column : Int) : Scan :=
  if s.flow then s else closeBlocksFrom column s s.outer

/-! ### Simple keys -/

/-- The possible simple keys, at all levels. -/
def keyPlaces (s : Scan) : List KeyPlace :=
  (s.keyPlace :: s.levels).filterMap id

/-- A possible simple key is over: its line has ended or it is too long. -/
def isStale (c : Cursor) (k : KeyPlace) : Bool :=
  k.mark.line < c.line || k.index + 1024 < c.index

/-- Drops possible simple keys that are over, unless one of them was required. -/
def dropStale (s : Scan) : Except Fault Scan :=
  match s.keyPlaces.find? fun k => k.required && isStale s.cursor k with
  | some k => .error (k.fault s.cursor)
  | none =>
    let keep : Option KeyPlace → Option KeyPlace := fun k => k.filter (!isStale s.cursor ·)
    .ok { s with keyPlace := keep s.keyPlace, levels := s.levels.map keep }

/-- Gives up the possible simple key, unless it was required. -/
def dropKey (s : Scan) : Except Fault Scan :=
  match s.keyPlace.filter (·.required) with
  | some k => .error (k.fault s.cursor)
  | none => .ok { s with keyPlace := none }

/-- Remembers the present place as that of a possible simple key, where one may start. -/
def saveKey (s : Scan) : Except Fault Scan :=
  if s.keyAllowed then do
    let c := s.cursor
    let k : KeyPlace := ⟨!s.flow && s.indent == c.column, s.tokens.length, c.index, c.mark⟩
    let s ← s.dropKey
    return { s with keyPlace := some k }
  else .ok s

/-- The number of tokens in front of which no token can be put any more. -/
def settled (s : Scan) : Nat :=
  s.keyPlaces.foldl (fun n k => min n k.token) s.tokens.length

/-- Says whether a simple key may start next. -/
def allowKey (s : Scan) (allowed : Bool) : Scan :=
  { s with keyAllowed := allowed }

/-! ### Between tokens -/

/-- `toToken` with an allowance of lines. -/
def toTokenWithin : Nat → Scan → Scan
  | 0, s => s
  | fuel + 1, s =>
    let c := s.cursor
    let c := if c.column = 0 && c.stands '\ufeff' then c.advance 1 else c
    let c := c.skip fun ch => ch == ' ' || (ch == '\t' && (s.flow || !s.keyAllowed))
    let c := if c.stands '#' then c.skip fun ch => !isBreak ch else c
    if c.head?.any isBreak then
      toTokenWithin fuel { s with cursor := c.nextLine.2, keyAllowed := s.keyAllowed || !s.flow }
    else { s with cursor := c }

/-- The state at the next token, past white space, comments and line breaks. A line break lets a
simple key start, outside brackets. -/
def toToken (s : Scan) : Scan :=
  toTokenWithin (s.cursor.rest.length + 1) s

/-! ### Single tokens -/

/-- The end of the text, on a line of its own. -/
def streamEnd (s : Scan) : Except Fault Scan := do
  let s ← ({ s with cursor := s.cursor.afterLastLine }.closeBlocks (-1)).dropKey
  return s.pushHere .streamEnd

/-- A directive. -/
def directiveToken (s : Scan) : Except Fault Scan := do
  let s ← (s.closeBlocks (-1)).dropKey
  let (d, c) ← directive s.cursor
  return { (s.pushHere (.directive d)).allowKey false with cursor := c }

/-- A document indicator. -/
def documentToken (s : Scan) (t : Token) : Except Fault Scan := do
  let s ← (s.closeBlocks (-1)).dropKey
  return ((s.allowKey false).pushHere t).advance 3

/-- An opening bracket. -/
def openFlow (s : Scan) (t : Token) : Except Fault Scan := do
  let s ← s.saveKey
  let s := { s with levels := s.keyPlace :: s.levels, keyPlace := none }
  return ((s.allowKey true).pushHere t).advance 1

/-- A closing bracket. -/
def closeFlow (s : Scan) (t : Token) : Except Fault Scan := do
  let s ← s.dropKey
  let s := match s.levels with
    | [] => s
    | k :: levels => { s with keyPlace := k, levels := levels }
  return ((s.allowKey false).pushHere t).advance 1

/-- A comma between brackets. -/
def flowEntryToken (s : Scan) : Except Fault Scan := do
  let s ← s.dropKey
  return ((s.allowKey true).pushHere .flowEntry).advance 1

/-- Opens a block at the present column, where a block may start. -/
def openBlockHere (s : Scan) (p : Problem) (t : Token) : Except Fault Scan :=
  if s.flow then .ok s
  else if s.keyAllowed then .ok (s.openBlock s.cursor.mark s.tokens.length t)
  else .error ⟨p, s.cursor.mark, none⟩

/-- A hyphen in front of an item. -/
def blockEntryToken (s : Scan) : Except Fault Scan := do
  let s ← s.openBlockHere .entryOutOfPlace .blockSequenceStart
  let s ← s.dropKey
  return ((s.allowKey true).pushHere .blockEntry).advance 1

/-- A question mark in front of a key. -/
def keyToken (s : Scan) : Except Fault Scan := do
  let s ← s.openBlockHere .keyOutOfPlace .blockMappingStart
  let s ← s.dropKey
  return ((s.allowKey !s.flow).pushHere .key).advance 1

/-- A colon in front of a value. If a possible simple key stands before it, it is one. -/
def valueToken (s : Scan) : Except Fault Scan :=
  match s.keyPlace with
  | some k =>
    let s := (s.insert k.token k.mark .key).openBlock k.mark k.token .blockMappingStart
    .ok (({ s with keyPlace := none }.allowKey false).pushHere .value |>.advance 1)
  | none => do
    let s ← s.openBlockHere .valueOutOfPlace .blockMappingStart
    return ((s.allowKey !s.flow).pushHere .value).advance 1

/-- An alias. -/
def aliasToken (s : Scan) : Except Fault Scan := do
  let s ← s.saveKey
  let (name, c) ← anchorName .alias s.cursor
  return { (s.pushHere (.alias name)).allowKey false with cursor := c }

/-- An anchor. -/
def anchorToken (s : Scan) : Except Fault Scan := do
  let s ← s.saveKey
  let (name, c) ← anchorName .anchor s.cursor
  return { (s.pushHere (.anchor name)).allowKey false with cursor := c }

/-- A tag. -/
def tagToken (s : Scan) : Except Fault Scan := do
  let s ← s.saveKey
  let (t, c) ← tagProperty s.flow s.cursor
  return { (s.pushHere (.tag t)).allowKey false with cursor := c }

/-- A block scalar. -/
def blockScalarToken (s : Scan) (literal : Bool) : Except Fault Scan := do
  let s ← s.dropKey
  let (text, c) ← blockScalar literal s.indent s.cursor
  return { (s.pushHere (.scalar false text)).allowKey true with cursor := c }

/-- A quoted scalar. -/
def quotedScalarToken (s : Scan) (q : Quote) : Except Fault Scan := do
  let s ← s.saveKey
  let (text, c) ← quotedScalar q s.cursor
  return { (s.pushHere (.scalar false text)).allowKey false with cursor := c }

/-- A plain scalar. If it ends after a line break, a simple key may follow. -/
def plainScalarToken (s : Scan) : Except Fault Scan := do
  let s ← s.saveKey
  let (text, broken, c) ← plainScalar s.flow (s.indent + 1).toNat s.cursor
  return { (s.pushHere (.scalar true text)).allowKey broken with cursor := c }

/-- A plain scalar may start with this character, when it is followed by that one. -/
def startsPlain (flow : Bool) (c : Char) (next : Option Char) : Bool :=
  (!isGap (some c) && !"-?:,[]\x7b\x7d#&*!|>'\"%@\x60".toList.contains c) ||
    (c == '-' && !next.any isBlank) || (!flow && (c == '?' || c == ':') && !isGap next)

/-- The token at a position that starts with a character. -/
def tokenAt (s : Scan) (ch : Char) : Except Fault Scan :=
  let c := s.cursor
  let flow := s.flow
  let apart := isGap (c.ahead? 1)
  if c.column = 0 && ch == '%' then s.directiveToken
  else if c.indicates '-' then s.documentToken .documentStart
  else if c.indicates '.' then s.documentToken .documentEnd
  else if ch = '[' then s.openFlow .flowSequenceStart
  else if ch = '\x7b' then s.openFlow .flowMappingStart
  else if ch = ']' then s.closeFlow .flowSequenceEnd
  else if ch = '\x7d' then s.closeFlow .flowMappingEnd
  else if ch = ',' then s.flowEntryToken
  else if ch == '-' && apart then s.blockEntryToken
  else if ch == '?' && (flow || apart) then s.keyToken
  else if ch == ':' && (flow || apart) then s.valueToken
  else if ch = '*' then s.aliasToken
  else if ch = '&' then s.anchorToken
  else if ch = '!' then s.tagToken
  else if ch == '|' && !flow then s.blockScalarToken true
  else if ch == '>' && !flow then s.blockScalarToken false
  else if ch = '\'' then s.quotedScalarToken .single
  else if ch = '"' then s.quotedScalarToken .double
  else if startsPlain flow ch (c.ahead? 1) then s.plainScalarToken
  else .error (c.fault .notAToken .token c.mark)

/-- The state after one more token, and after the blocks that end in front of it. -/
def step (s : Scan) : Except Fault Scan := do
  let s ← s.toToken.dropStale
  let s := s.closeBlocks s.cursor.column
  let s ← match s.cursor.head? with
    | none => s.streamEnd
    | some ch => s.tokenAt ch
  s.dropStale

/-- The end of the text has been read. -/
def ended (s : Scan) : Bool :=
  s.tokens.getLast?.any (·.token == .streamEnd)

end Scan

/-! ### Whole texts -/

/-- Tokens, and what is reported where more of them are asked for. -/
structure Tokens where
  lexemes : List Lexeme
  stop : Error

namespace Tokens

/-- The tokens from a state on, with an allowance of tokens. After a fault only those are given that
were settled before it. -/
def finishWithin : Nat → Scan → Tokens
  | 0, s => ⟨s.tokens, .endOfText⟩
  | fuel + 1, s =>
    match s.step with
    | .error f => ⟨s.tokens.take s.settled, .malformed f⟩
    | .ok next => if next.ended then ⟨next.tokens, .endOfText⟩ else finishWithin fuel next

/-- The tokens of a text. Its characters are checked before anything else. -/
def ofText (text : List Char) : Tokens :=
  if text.all allowed then finishWithin (text.length + 1) (.start text)
  else ⟨[], .control (Utf8.encode (text.takeWhile allowed)).length⟩

end Tokens

end Yaml

end SealedLedger
