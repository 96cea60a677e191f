/-
# Writing YAML

A map in block form, keys in their order.

| value | written |
| --- | --- |
| map in a map | on the lines below its key, two blanks further in |
| list in a map | on the lines below its key, as far in as the key |
| list or map in a list | behind the hyphen |
| empty list, empty map | `[]` and a pair of braces, behind the key |
| set | a map of its members to null, with its tag |
| scalar | behind the key, in its style |

A line that is longer than eighty characters ends at the next blank of a plain or quoted text. A key
that is long, empty or of several lines stands behind a question mark, its value below it behind a
colon.
-/

import PageComposer.Text.Quoted
import PageComposer.Yaml.Style

namespace PageComposer
namespace Yaml

/-- Where writing stands. -/
structure Pen where
  /-- What is written, the last character first. -/
  done : List Char := []
  column : Nat := 0
  /-- Whether a blank or nothing stands before. -/
  isSpaced : Bool := true
  /-- Whether only blanks and signs of structure stand before on the line. -/
  isIndenting : Bool := true
  deriving Repr, DecidableEq, Inhabited

/-- The length after which a line ends. -/
def fullLine : Nat := 80

namespace Pen

/-- Characters without a line feed, written as they are. -/
def put (p : Pen) (cs : List Char) : Pen :=
  { p with done := cs.reverse ++ p.done, column := p.column + cs.length }

/-- A sign, after a blank if `apart`. -/
def sign (p : Pen) (text : String) (apart : Bool) (spaced indenting : Bool := false) : Pen :=
  let cs := if p.isSpaced || !apart then text.toList else ' ' :: text.toList
  { p.put cs with isSpaced := spaced, isIndenting := p.isIndenting && indenting }

/-- The end of a line. -/
def breakLine (p : Pen) : Pen :=
  { done := '\n' :: p.done }

/-- The column `n`, on a new line if something stands there already. -/
def indent (p : Pen) (n : Nat) : Pen :=
  let p :=
    if !p.isIndenting || p.column > n || (p.column == n && !p.isSpaced) then p.breakLine else p
  if p.column < n then { p.put (List.replicate (n - p.column) ' ') with isSpaced := true } else p

/-- The pen inside a text. -/
def inText (p : Pen) : Pen := { p with isSpaced := false, isIndenting := false }

/-- One blank inside a text, which may become the end of a line. -/
def gap (p : Pen) (n : Nat) (splits : Bool) (blanks : List Char) : Pen :=
  if blanks.length == 1 && p.column > fullLine && splits then p.indent n else p.put blanks

end Pen

/-- A text of runs: blanks, line feeds, others. -/
def runs : List Char → List (List Char)
  | [] => []
  | c :: rest =>
    match runs rest with
    | (d :: run) :: more =>
      if (c == ' ') == (d == ' ') && (c == '\n') == (d == '\n') then (c :: d :: run) :: more
      else [c] :: (d :: run) :: more
    | more => [c] :: more

/-- A plain text. -/
def writePlain (p : Pen) (n : Nat) (splits : Bool) (cs : List Char) : Pen :=
  if cs.isEmpty then p
  else
    let p := if p.isSpaced then p else p.put [' ']
    (runs cs).foldl (fun p run =>
      if run.head? == some ' ' then (p.gap n splits run).inText else p.put run) p.inText

/-- The runs of a text between single quotes; `first` tells whether the text begins here. -/
def writeSingleRuns (n : Nat) (splits : Bool) : Bool → Pen → List (List Char) → Pen
  | _, p, [] => p
  | first, p, run :: rest =>
    let p := match run.head? with
      | some ' ' => p.gap n (splits && !first && !rest.isEmpty) run
      | some '\n' => (run.foldl (fun p _ => p.breakLine) p.breakLine).indent n
      | _ => p.put (run.flatMap fun c => if c == '\'' then [c, c] else [c])
    writeSingleRuns n splits false p rest

/-- A text between single quotes. -/
def writeSingle (p : Pen) (n : Nat) (splits : Bool) (cs : List Char) : Pen :=
  (writeSingleRuns n splits true (p.sign "'" true) (runs cs)).sign "'" false

/-- Characters with an escape of one letter. -/
def letterEscapes : List (Char × Char) :=
  [('\x00', '0'), ('\x07', 'a'), ('\x08', 'b'), ('\t', 't'), ('\n', 'n'), ('\x0b', 'v'),
    ('\x0c', 'f'), ('\r', 'r'), ('\x1b', 'e'), ('"', '"'), ('\\', '\\'), ('\x85', 'N'),
    ('\xa0', '_'), ('\u2028', 'L'), ('\u2029', 'P')]

/-- Hexadecimal digits in capitals. -/
def capitalDigits (width n : Nat) : List Char := (Text.hexDigits width n).map Char.toUpper

/-- A character between double quotes, if it cannot stand for itself. -/
def escape? (c : Char) : Option (List Char) :=
  match letterEscapes.lookup c with
  | some d => some ['\\', d]
  | none =>
    if isShown c then none
    else if c.toNat ≤ 0xff then some ('\\' :: 'x' :: capitalDigits 2 c.toNat)
    else if c.toNat ≤ 0xffff then some ('\\' :: 'u' :: capitalDigits 4 c.toNat)
    else some ('\\' :: 'U' :: capitalDigits 8 c.toNat)

/-- The end of a line inside double quotes; a blank that follows is escaped. -/
def foldDouble (p : Pen) (n : Nat) (next : Option Char) : Pen :=
  let p := ((p.put ['\\']).indent n).inText
  if next == some ' ' then p.put ['\\'] else p

/-- The characters of a text between double quotes. `held` are those not written yet, the last one
first; `first` tells whether the text begins here. -/
def writeDoubleFrom (n : Nat) (splits : Bool) :
    Bool → Pen → List Char → List Char → Pen
  | _, p, held, [] => p.put held.reverse
  | first, p, held, c :: rest =>
    let mayFold := splits && !first && !rest.isEmpty
    match escape? c with
    | some e =>
      let p := (p.put held.reverse).put e
      let p := if mayFold && p.column > fullLine + 1 then foldDouble p n rest.head? else p
      writeDoubleFrom n splits false p [] rest
    | none =>
      if mayFold && (c == ' ' || held.isEmpty) && p.column + held.length > fullLine then
        writeDoubleFrom n splits false (foldDouble (p.put held.reverse) n (some c)) [c] rest
      else writeDoubleFrom n splits false p (c :: held) rest

/-- A text between double quotes. -/
def writeDouble (p : Pen) (n : Nat) (splits : Bool) (cs : List Char) : Pen :=
  (writeDoubleFrom n splits true (p.sign "\"" true) [] cs).sign "\"" false

/-- A text of lines, each ended by a line feed, as it is. -/
def writeLiteral (p : Pen) (n : Nat) (cs : List Char) : Pen :=
  (runs cs).foldl (fun p run => if run.head? == some '\n' then p.breakLine else (p.indent n).put run)
    (p.sign "|" true).breakLine

/-- A scalar; `beside` tells whether it is a key on one line with its value. -/
def writeScalar (p : Pen) (n : Nat) (beside : Bool) (s : Scalar) : Pen :=
  let style := s.style beside
  let p := if s.needsTag style then p.sign s.tag true else p
  match style with
  | .plain => writePlain p n (!beside) s.text
  | .single => writeSingle p n (!beside) s.text
  | .double => writeDouble p n (!beside) s.text
  | .literal => writeLiteral p n s.text

/-- A pair of brackets with nothing inside. -/
def writeEmpty (p : Pen) (opening closing : String) : Pen :=
  (p.sign opening true true).sign closing false

/-- How far in the items of a list stand: as far as the key where the list is the value of one on the
same line. -/
def itemIndent (p : Pen) (n : Nat) (inMap : Bool) : Nat :=
  if inMap && !p.isIndenting then n else n + 2

/-- A key at `n`, up to the colon. -/
def writeKey (p : Pen) (n : Nat) (k : Value) : Pen :=
  let s := Scalar.ofKey k
  let p := p.indent n
  if s.isShortKey then (writeScalar p (n + 2) true s).sign ":" false
  else
    let p := writeScalar (p.sign "?" true false true) (n + 2) false s
    (p.indent n).sign ":" true false true

/-- What stands before an item of a list at `n`. -/
def writeHyphen (p : Pen) (n : Nat) : Pen := (p.indent n).sign "-" true false true

/-- A scalar at `n`; nothing for a value that is none. -/
def writeValue (p : Pen) (n : Nat) (v : Value) : Pen :=
  match Scalar.ofValue? v with
  | some s => writeScalar p (n + 2) false s
  | none => p

mutual

/-- A value where `n` is how far in the value around it stands; `inMap` tells whether that is a
map. -/
def writeNode (p : Pen) (n : Nat) (inMap : Bool) : Value → Pen
  | .list [] => writeEmpty p "[" "]"
  | .list items => writeItems p (itemIndent p n inMap) items
  | .map [] => writeEmpty p Value.braceOpen Value.braceClose
  | .map entries => writeEntries p (n + 2) entries
  | .set [] => writeEmpty (p.sign "!!set" true) Value.braceOpen Value.braceClose
  | .set items =>
    items.foldl (fun p k => writeValue (writeKey p (n + 2) k) (n + 2) .null) (p.sign "!!set" true)
  | .pair a b =>
    let m := itemIndent p n inMap
    writeNode (writeHyphen (writeNode (writeHyphen p m) m false a) m) m false b
  | v => writeValue p n v

/-- The items of a list at `n`. -/
def writeItems (p : Pen) (n : Nat) : List Value → Pen
  | [] => p
  | v :: rest => writeItems (writeNode (writeHyphen p n) n false v) n rest

/-- The entries of a map at `n`. -/
def writeEntries (p : Pen) (n : Nat) : List (Value × Value) → Pen
  | [] => p
  | (k, v) :: rest => writeEntries (writeNode (writeKey p n k) n true v) n rest

end

/-- A map as the text of a document. -/
def write (entries : Entries) : String :=
  let p :=
    match entries with
    | [] => writeEmpty {} Value.braceOpen Value.braceClose
    | es => writeEntries {} 0 es
  String.ofList ((p.indent 0).done.reverse)

end Yaml
end PageComposer
