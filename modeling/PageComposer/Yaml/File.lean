/-
# YAML files

| file | strict reading | lenient reading |
| --- | --- | --- |
| missing | fault | default |
| cannot be opened, or is no YAML | fault | default |
| is no UTF-8, or holds a scalar that makes no value, or a node in itself | fault | fault |
| no document, or null | default | default |

Files are decoded in pieces, and the place of a fault is counted from where its piece begins. All pieces are decoded
before the text is read, so a fault of the bytes counts before one of the text.
-/

import PageComposer.Files.Tree
import PageComposer.Yaml.Build

namespace PageComposer
namespace Yaml

/-- Why a file gives no value. -/
inductive LoadFault where
  /-- Whether the file exists cannot be told. -/
  | unreachable (fault : FileFault)
  | missing (path : Path)
  | unreadable (fault : ReadFault)
  | content (fault : Fault)
  deriving Repr, DecidableEq, Inhabited

/-- The words for a fault. -/
def LoadFault.message : LoadFault → String
  | .unreachable f => f.message
  | .missing path => "File not found: " ++ path.text
  | .unreadable f => f.message
  | .content f => f.message

/-- Whether lenient reading passes over a fault. -/
def LoadFault.isForgiven : LoadFault → Bool
  | .missing _ => true
  | .unreadable (.file _) => true
  | .content f => f.isSyntactic
  | _ => false

/-- The number of bytes in a piece. -/
def pieceSize : Nat := 8192

/-- How many bytes of a character of UTF-8 stand before the place `n`, if one goes on over it. -/
def bytesBefore (bs : List UInt8) (n : Nat) : Nat :=
  let goesOn (b : UInt8) := Text.isContinuation b.toNat
  if (bs.drop n).head?.any goesOn then
    ((bs.take n).reverse.takeWhile goesOn).length + 1
  else 0

/-- A fault with its place counted from where its piece begins. A character that is not whole at the
end of a piece goes into the next one, and the end of the file is a piece of its own. -/
def inPieces (bs : List UInt8) : Text.DecodeFault → Text.DecodeFault
  | .bytes codec bad start reason =>
    let found := if reason == "invalid start byte" then start else start + bad.length
    let piece := found / pieceSize * pieceSize
    .bytes codec bad
      (if found ≥ bs.length || start < piece then 0 else start - piece + bytesBefore bs piece) reason
  | f => f

/-- The text of a file that is read in pieces. -/
def readPieces (w : FileTree) (p : Path) : Except ReadFault (List Char) :=
  match w.openFile p with
  | .error f => .error (.file f)
  | .ok file =>
    match Text.decode .utf8 file.data with
    | .ok cs => .ok (Text.unixLines cs)
    | .error f => .error (.decode (inPieces file.data f))

/-- The value of a file. -/
def load (w : FileTree) (p : Path) : Except LoadFault Value :=
  match w.hasEntry p with
  | .error f => .error (.unreachable f)
  | .ok false => .error (.missing p)
  | .ok true =>
    match readPieces w p with
    | .error f => .error (.unreadable f)
    | .ok cs =>
      match read cs with
      | .ok v => .ok v
      | .error f => .error (.content f)

/-- A value, or `default` in the place of null. -/
def orDefault (default : Value) : Value → Value
  | .null => default
  | v => v

/-- The value of a file, or `default` if it holds none; unless reading is strict, also if the file
cannot be read. -/
def loadOr (w : FileTree) (p : Path) (default : Value) (strict : Bool) : Except LoadFault Value :=
  match load w p with
  | .ok v => .ok (orDefault default v)
  | .error f => if f.isForgiven && !strict then .ok default else .error f

end Yaml
end PageComposer
