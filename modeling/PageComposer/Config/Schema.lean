/-
# The schema of the settings

A schema is a record of named schemas or a leaf. Checking a value gives complaints, each with the path
of keys to the value that it is about.

| schema | complaints |
| --- | --- |
| record | no map; unknown keys, if it is closed; those about its fields |
| leaf | none of the allowed kinds; a limit that is not kept |

A limit is about values of one kind and ignores all others, but for `oneOf`, which only the listed
texts keep.
-/

import PageComposer.Value.Display

namespace PageComposer
namespace Config

/-- The kinds of value that a schema tells apart. -/
inductive Kind where
  | map
  | text
  | bool
  | int
  | null
  deriving Repr, DecidableEq, Inhabited

/-- The name of a kind. -/
def Kind.name : Kind → String
  | .map => "object"
  | .text => "string"
  | .bool => "boolean"
  | .int => "integer"
  | .null => "null"

/-- Whether a value is of a kind; a decimal with an integral value is an integer. -/
def Kind.holds : Kind → Value → Bool
  | .map, .map _ => true
  | .text, .text _ => true
  | .bool, .bool _ => true
  | .int, .int _ => true
  | .int, .float x => x.toInt?.isSome
  | .null, .null => true
  | _, _ => false

/-- A limit on values. -/
inductive Limit where
  | nonEmpty
  | atLeast (n : Int)
  | oneOf (texts : List String)
  deriving Repr, DecidableEq, Inhabited

/-- Whether a value keeps a limit. -/
def Limit.holds : Limit → Value → Bool
  | .nonEmpty, .text s => !s.isEmpty
  | .nonEmpty, _ => true
  | .atLeast n, .int m => n ≤ m
  | .atLeast n, .float x => !x.isBelow n
  | .atLeast _, _ => true
  | .oneOf texts, .text s => texts.contains s
  | .oneOf _, _ => false

/-- The complaint about a value that does not keep a limit. -/
def Limit.complaint (l : Limit) (v : Value) : String :=
  match l with
  | .nonEmpty => v.display ++ " should be non-empty"
  | .atLeast n => s!"{v.display} is less than the minimum of {n}"
  | .oneOf texts => v.display ++ " is not one of " ++ (Value.list (texts.map .text)).display

/-- What values are to be like. -/
inductive Schema where
  | leaf (kinds : List Kind) (limits : List Limit)
  | record (closed : Bool) (fields : List (String × Schema))
  deriving Repr, Inhabited

/-- What is wrong with a value inside the settings. -/
structure Complaint where
  path : List String
  text : String
  deriving Repr, DecidableEq, Inhabited

namespace Complaint

/-- The complaint about a value one level further up. -/
def below (key : String) (c : Complaint) : Complaint := { c with path := key :: c.path }

/-- A complaint after the path that it is about. -/
def line (c : Complaint) : String :=
  (if c.path.isEmpty then "<root>" else ".".intercalate c.path) ++ ": " ++ c.text

/-- The order of paths: key by key, a path before its extensions. -/
def pathLe : List String → List String → Bool
  | [], _ => true
  | _ :: _, [] => false
  | a :: as, b :: bs => if a == b then pathLe as bs else a < b

/-- Complaints in the order of their paths. -/
def sorted (cs : List Complaint) : List Complaint := cs.mergeSort fun a b => pathLe a.path b.path

end Complaint

namespace Schema

/-- The complaint about a value that is of none of some kinds. -/
def kindComplaint (kinds : List Kind) (v : Value) : List Complaint :=
  if kinds.any fun k => k.holds v then []
  else
    [⟨[], v.display ++ " is not of type " ++
      ", ".intercalate (kinds.map fun k => Text.quoted k.name)⟩]

/-- The complaint about keys that are not among the known ones. -/
def extraComplaint (known : List String) (es : Entries) : List Complaint :=
  let extra := (Entries.keys es).filter fun k =>
    match k with
    | .text s => !known.contains s
    | _ => true
  if extra.isEmpty then []
  else
    let shown := (extra.mergeSort fun a b => a.plain ≤ b.plain).map Value.display
    let verb := if extra.length == 1 then "was" else "were"
    [⟨[], "Additional properties are not allowed (" ++ ", ".intercalate shown ++
      s!" {verb} unexpected)"⟩]

mutual

/-- The complaints about a value. -/
def check (s : Schema) (v : Value) : List Complaint :=
  match s with
  | .leaf kinds limits =>
    kindComplaint kinds v ++
      (limits.filter fun l => !l.holds v).map fun l => ⟨[], l.complaint v⟩
  | .record closed fields =>
    match v with
    | .map es =>
      (if closed then extraComplaint (fields.map (·.1)) es else []) ++ checkFields fields es
    | v => kindComplaint [.map] v

/-- The complaints about the fields of a map that are there. -/
def checkFields (fields : List (String × Schema)) (es : Entries) : List Complaint :=
  match fields with
  | [] => []
  | (name, s) :: rest =>
    (match Entries.at? es name with
     | some v => (check s v).map (Complaint.below name)
     | none => []) ++ checkFields rest es

end

/-- A text that is not empty. -/
def someText : Schema := .leaf [.text] [.nonEmpty]

/-- The schema of the settings. -/
def settings : Schema :=
  .record false
    [("composition", .record true
      [("root", someText), ("pages_dir", someText), ("out_dir", someText),
        ("empty_out_dir", .leaf [.bool] []), ("encoding", someText),
        ("max_depth", .leaf [.int] [.atLeast 1])]),
     ("logging", .record true
      [("level", .leaf [.text] [.oneOf ["DEBUG", "INFO", "WARNING", "ERROR", "CRITICAL",
          "debug", "info", "warning", "error", "critical"]]),
        ("file", .leaf [.text, .null] [])])]

end Schema

/-- What is wrong with settings, in one line; nothing if they are fine. -/
def complaints (v : Value) : Option String :=
  match Complaint.sorted (Schema.settings.check v) with
  | [] => none
  | cs => some ("; ".intercalate (cs.map Complaint.line))

end Config
end PageComposer
