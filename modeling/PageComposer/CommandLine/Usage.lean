/-
# Usage and help

| part | holds |
| --- | --- |
| usage | the program, its flags between brackets, its place; broken between these where it is too long |
| help | usage, description, then sections of entries |
| entry | a title two blanks in and a text in a column of its own, on the next line if the title is long |

Lines have up to 78 characters.
-/

import PageComposer.CommandLine.Grammar

namespace PageComposer
namespace CommandLine

/-- The length of a line. -/
def lineWidth : Nat := 78

/-- Blanks. -/
def blanks (n : Nat) : String := String.ofList (List.replicate n ' ')

/-- Words on lines of at most `width` characters after `indent`; `first` are the characters that
stand on the first line already. A word that is too long has a line of its own. -/
def fill (width indent : Nat) (first : Nat) (words : List String) : List String :=
  go [] first words
where
  /-- The same, with the words of the current line in reverse and its length with a blank behind. -/
  go (line : List String) (used : Nat) : List String → List String
    | [] => if line.isEmpty then [] else [" ".intercalate line.reverse]
    | w :: rest =>
      if used + w.length > width && !line.isEmpty then
        " ".intercalate line.reverse :: go [w] (indent + w.length + 1) rest
      else go (w :: line) (used + w.length + 1) rest

/-- The name of what a flag takes. -/
def Flag.placeholder (f : Flag) : String :=
  String.ofList ((f.key.toList.drop 2).map fun c => if c == '-' then '_' else c.toUpper)

/-- A name of a flag with what it takes. -/
def Flag.written (f : Flag) (name : String) : String :=
  if f.takesValue then name ++ " " ++ f.placeholder else name

/-- The place for values in a usage. -/
def Grammar.placeUsage (g : Grammar) : String :=
  match g.count with
  | .one => g.place
  | .atMostOne => "[" ++ g.place ++ "]"
  | .any => "[" ++ g.place ++ " ...]"
  | .command => g.place ++ " ..."

/-- The usage of a program, with a line feed behind it. -/
def Grammar.usage (g : Grammar) : String :=
  let flags := g.flags.map fun f => "[" ++ f.written (f.names.headD "") ++ "]"
  let start := "usage: "
  let whole := " ".intercalate ([g.program] ++ flags ++ [g.placeUsage])
  if start.length + whole.length ≤ lineWidth then start ++ whole ++ "\n"
  else
    let indent := start.length + g.program.length + 1
    let lines := fill lineWidth indent start.length (g.program :: flags) ++
      fill lineWidth indent indent [g.placeUsage]
    start ++ ("\n" ++ blanks indent).intercalate lines ++ "\n"

/-- An entry of a section of help: how far in it stands, its title and its text. -/
structure HelpEntry where
  indent : Nat := 2
  title : String
  text : String
  deriving Repr, DecidableEq, Inhabited

/-- The column of the texts of entries. -/
def textColumn (entries : List HelpEntry) : Nat :=
  min 24 ((entries.map fun e => e.indent + e.title.length + 2).foldl max 0)

/-- An entry with its text from `column` on. -/
def HelpEntry.lines (e : HelpEntry) (column : Nat) : String :=
  let title := blanks e.indent ++ e.title
  if e.text == "" then title ++ "\n"
  else
    let text := ("\n" ++ blanks column).intercalate
      (fill (lineWidth - column) 0 0 (e.text.splitOn " "))
    if title.length + 2 ≤ column then title ++ blanks (column - title.length) ++ text ++ "\n"
    else title ++ "\n" ++ blanks column ++ text ++ "\n"

/-- A flag as an entry. -/
def Flag.entry (f : Flag) : HelpEntry :=
  { title := ", ".intercalate (f.names.map f.written), text := f.help }

/-- A section of help; an empty one is left out. -/
def helpSection (title : String) (column : Nat) (entries : List HelpEntry) : String :=
  if entries.isEmpty then ""
  else "\n" ++ title ++ ":\n" ++ String.join (entries.map fun e => e.lines column)

/-- The help of a command. -/
def Grammar.commandHelp (g : Grammar) : String :=
  let place : List HelpEntry := [{ title := g.place, text := g.help }]
  let flags := g.flags.map Flag.entry
  let column := textColumn (place ++ flags)
  g.usage ++ helpSection "positional arguments" column place ++ helpSection "options" column flags

/-- The help of a program with commands, given by their names and summaries. -/
def Grammar.programHelp (g : Grammar) (description : String) (commands : List (String × String)) :
    String :=
  let flags := g.flags.map Flag.entry
  let place : List HelpEntry := [{ title := g.place, text := "" }]
  let summaries : List HelpEntry := commands.map fun c => { indent := 4, title := c.1, text := c.2 }
  let column := textColumn (flags ++ place ++ summaries)
  g.usage ++ "\n" ++ description ++ "\n" ++ helpSection "options" column flags ++
    helpSection "commands" column
      ([{ title := g.help ++ "\n", text := "" }] ++ place ++ summaries)

end CommandLine
end PageComposer
