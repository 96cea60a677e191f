/-
# Arguments of a command line

A grammar has flags and one place for values.

| argument | is |
| --- | --- |
| `--` | the end of the flags; all further ones are values |
| empty, `-`, without a hyphen before | a value |
| a flag, or the beginning of only one long flag | that flag; behind `=` is what it takes |
| `-ab` where `-a` is a flag | `-a` with `b`, or both `-a` and `-b` where `-a` takes nothing |
| a negative number, or with a blank inside | a value |
| any other with a hyphen before | unknown |

Values in a row that the place takes go there; all other values are unknown. Flags take effect in
their order, and the first that stops reading does.
-/

import PageComposer.Decimal.Numeral
import PageComposer.Text.Quoted

namespace PageComposer
namespace CommandLine

/-- What a flag does. -/
inductive Role where
  | help
  | version
  /-- It is there or not, perhaps several times. -/
  | mark
  | text
  | integer
  deriving Repr, DecidableEq, Inhabited

/-- A flag. -/
structure Flag where
  names : List String
  role : Role
  help : String
  deriving Repr, DecidableEq, Inhabited

/-- Whether a flag takes a value. -/
def Flag.takesValue (f : Flag) : Bool := f.role == .text || f.role == .integer

/-- The name that a flag goes by: its first long one. -/
def Flag.key (f : Flag) : String :=
  (f.names.find? fun n => n.startsWith "--").getD (f.names.headD "")

/-- All names of a flag. -/
def Flag.title (f : Flag) : String := "/".intercalate f.names

/-- How many values a place takes. -/
inductive Count where
  | one
  | atMostOne
  | any
  /-- The name of a command and all that follows. -/
  | command
  deriving Repr, DecidableEq, Inhabited

/-- The arguments of a command. -/
structure Grammar where
  program : String
  flags : List Flag
  /-- The name of the place for values. -/
  place : String
  count : Count
  help : String
  deriving Repr, DecidableEq, Inhabited

/-- Why reading stops. -/
inductive Halt where
  | help
  | version
  | misuse (message : String)
  deriving Repr, DecidableEq, Inhabited

/-- What a flag was given. -/
inductive Given where
  | nothing
  | text (s : String)
  | number (n : Int)
  deriving Repr, DecidableEq, Inhabited

/-- What was read. -/
structure Arguments where
  /-- The flags by their keys, the last one first. -/
  flags : List (String × Given) := []
  values : List String := []
  unknown : List String := []
  deriving Repr, DecidableEq, Inhabited

namespace Arguments

/-- How often a flag is there. -/
def times (a : Arguments) (key : String) : Nat := a.flags.countP fun f => f.1 == key

/-- Whether a flag is there. -/
def has (a : Arguments) (key : String) : Bool := a.times key != 0

/-- The text that a flag was given last. -/
def text? (a : Arguments) (key : String) : Option String :=
  match a.flags.lookup key with
  | some (.text s) => some s
  | _ => none

/-- The number that a flag was given last. -/
def number? (a : Arguments) (key : String) : Option Int :=
  match a.flags.lookup key with
  | some (.number n) => some n
  | _ => none

end Arguments

/-- One argument by itself. -/
inductive Token where
  | dashes
  | value (s : String)
  /-- A flag under one of its names, with what is written to it. -/
  | flag (f : Flag) (name : String) (written : Option String)
  | unknown (s : String)
  deriving Repr, DecidableEq, Inhabited

/-- A text before and behind its first equals sign. -/
def splitEquals (s : String) : String × Option String :=
  let cs := s.toList
  let name := cs.takeWhile (· != '=')
  (String.ofList name,
    match cs.drop name.length with
    | [] => none
    | _ :: rest => some (String.ofList rest))

/-- Whether a text behind a hyphen is a number. -/
def isNegativeNumber (s : String) : Bool :=
  match s.toList with
  | '-' :: rest =>
    let rest := if rest.getLast? == some '\n' then rest.dropLast else rest
    match rest.dropWhile Text.isDigit with
    | [] => !rest.isEmpty
    | '.' :: digits => !digits.isEmpty && digits.all Text.isDigit
    | _ => false
  | _ => false

namespace Grammar

/-- The names of the flags with their flags. -/
def named (g : Grammar) : List (String × Flag) :=
  g.flags.flatMap fun f => f.names.map fun n => (n, f)

/-- The flags that an argument may mean, in part. -/
def candidates (g : Grammar) (s : String) : List (String × Flag × Option String) :=
  if s.startsWith "--" then
    let (name, written) := splitEquals s
    g.named.filterMap fun (n, f) => if n.startsWith name then some (n, f, written) else none
  else
    let short := String.ofList (s.toList.take 2)
    g.named.filterMap fun (n, f) =>
      if n == short then some (n, f, some (String.ofList (s.toList.drop 2)))
      else if n.startsWith s then some (n, f, none) else none

/-- What an argument before the end of the flags is. -/
def classify (g : Grammar) (s : String) : Except Halt Token :=
  if s.length < 2 || !s.startsWith "-" then .ok (.value s)
  else
    match g.named.lookup s with
    | some f => .ok (.flag f s none)
    | none =>
      let (name, written) := splitEquals s
      match written, g.named.lookup name with
      | some w, some f => .ok (.flag f name (some w))
      | _, _ =>
        match g.candidates s with
        | [(n, f, w)] => .ok (.flag f n w)
        | [] => .ok (if isNegativeNumber s || Text.holds s ' ' then .value s else .unknown s)
        | several =>
          .error (.misuse
            ("ambiguous option: " ++ s ++ " could match " ++ ", ".intercalate (several.map (·.1))))

/-- What the arguments are. -/
def tokens (g : Grammar) : List String → Except Halt (List Token)
  | [] => .ok []
  | "--" :: rest => .ok (.dashes :: rest.map .value)
  | s :: rest => do
    let t ← g.classify s
    let ts ← g.tokens rest
    return t :: ts

/-- A misuse of a flag or place. -/
def wrong (title what : String) : Halt := .misuse s!"argument {title}: {what}"

/-- A misuse of a flag that takes nothing. -/
def spare (f : Flag) (written : String) : Halt :=
  wrong f.title ("ignored explicit argument " ++ Text.quoted written)

/-- The flags in one argument, each with what is written to it. The last may still want a value.
`cs` are the characters behind the first flag. -/
def cluster (g : Grammar) (f : Flag) : List Char → Except Halt (List (Flag × Option String))
  | [] => .ok [(f, none)]
  | c :: rest =>
    if f.takesValue then .ok [(f, some (String.ofList (c :: rest)))]
    else
      match g.named.lookup (String.ofList ['-', c]) with
      | some next => do
        let more ← g.cluster next rest
        return (f, none) :: more
      | none => .error (spare f (String.ofList (c :: rest)))

/-- The flags in one argument, each with what is written to it. -/
def spread (g : Grammar) (f : Flag) (name : String) :
    Option String → Except Halt (List (Flag × Option String))
  | none => .ok [(f, none)]
  | some w =>
    if f.takesValue then .ok [(f, some w)]
    else if name.startsWith "--" || w == "" then .error (spare f w)
    else g.cluster f w.toList

/-- What was read, with one more flag. -/
def apply (a : Arguments) (f : Flag) (written : Option String) : Except Halt Arguments :=
  let add (x : Given) : Arguments := { a with flags := (f.key, x) :: a.flags }
  match f.role with
  | .help => .error .help
  | .version => .error .version
  | .mark => .ok (add .nothing)
  | .text => .ok (add (.text (written.getD "")))
  | .integer =>
    let s := written.getD ""
    match Decimal.readInt s with
    | .ok n => .ok (add (.number n))
    | .error _ => .error (wrong f.title ("invalid int value: " ++ Text.quoted s))

/-- What was read, with the flags of one argument. -/
def applyAll (a : Arguments) : List (Flag × Option String) → Except Halt Arguments
  | [] => .ok a
  | (f, w) :: rest => do applyAll (← apply a f w) rest

/-- What was read, with the flags of one argument, and what is left. The last of them takes the next
argument if it wants a value. -/
def takeFlags (a : Arguments) (fs : List (Flag × Option String)) (rest : List Token) :
    Except Halt (Arguments × List Token) :=
  match fs.getLast? with
  | some (f, none) =>
    if f.takesValue then
      match rest with
      | .value v :: rest => do return (← applyAll a (fs.dropLast ++ [(f, some v)]), rest)
      | _ => .error (wrong f.title "expected one argument")
    else do return (← applyAll a fs, rest)
  | _ => do return (← applyAll a fs, rest)

/-- The text of a token. -/
def raw : Token → String
  | .dashes => "--"
  | .value s => s
  | .flag _ name w => name ++ w.getD ""
  | .unknown s => s

/-- Whether a token is a value. -/
def isValue : Token → Bool
  | .value _ => true
  | _ => false

/-- Whether a token is a value or the end of the flags. -/
def isPlain : Token → Bool
  | .value _ | .dashes => true
  | _ => false

/-- How many tokens the place takes from the first ones, if they are enough. -/
def taken? (count : Count) (ts : List Token) : Option Nat :=
  let lead := (ts.takeWhile (· == .dashes)).length
  let rest := ts.drop lead
  let one (rest : List Token) : Nat := lead + 1 + (rest.takeWhile (· == .dashes)).length
  match count, rest with
  | .one, .value _ :: rest => some (one rest)
  | .one, _ => none
  | .atMostOne, .value _ :: rest => some (one rest)
  | .atMostOne, _ => some lead
  | .any, _ => some (ts.takeWhile isPlain).length
  | .command, .value _ :: _ => some ts.length
  | .command, _ => none

/-- The values among tokens that the place takes: those of a command as they are, the others without
the end of the flags. -/
def valuesOf (count : Count) (ts : List Token) (texts : List String) : List String :=
  if count == .command then texts.take ts.length else (texts.take ts.length).erase "--"

/-- The remaining arguments, as tokens and as they were written. `waiting` tells whether the place
has not taken its values yet. Every round takes an argument, so `fuel` above their number is
enough. -/
def readFrom (g : Grammar) :
    Nat → Bool → Arguments → List Token → List String → Except Halt (Bool × Arguments)
  | 0, waiting, a, _, _ => .ok (waiting, a)
  | fuel + 1, waiting, a, ts, texts =>
    match ts with
    | .flag f name w :: rest => do
      let fs ← g.spread f name w
      let (a, left) ← takeFlags a fs rest
      g.readFrom fuel waiting a left (texts.drop (ts.length - left.length))
    | .unknown s :: rest =>
      g.readFrom fuel waiting { a with unknown := a.unknown ++ [s] } rest (texts.drop 1)
    | ts =>
      let row := (ts.takeWhile isPlain).length
      let isLast := row == ts.length
      match if waiting then taken? g.count ts else none with
      | some n =>
        if n == 0 && !isLast then
          g.readFrom fuel waiting { a with unknown := a.unknown ++ texts.take row } (ts.drop row)
            (texts.drop row)
        else
          let a := { a with values := valuesOf g.count (ts.take n) texts }
          if isLast || n == ts.length then
            .ok (false, { a with unknown := a.unknown ++ texts.drop n })
          else g.readFrom fuel false a (ts.drop n) (texts.drop n)
      | none =>
        let a := { a with unknown := a.unknown ++ texts.take row }
        if isLast then .ok (waiting, a)
        else g.readFrom fuel waiting a (ts.drop row) (texts.drop row)

/-- What arguments say. -/
def read (g : Grammar) (args : List String) : Except Halt Arguments := do
  let ts ← g.tokens args
  let (waiting, a) ← g.readFrom (args.length + 1) true {} ts args
  if waiting && g.count == .one then
    throw (.misuse ("the following arguments are required: " ++ g.place))
  return a

end Grammar
end CommandLine
end PageComposer
