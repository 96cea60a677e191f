/-
# Text encodings

| encoding | bytes |
| --- | --- |
| `utf8`, `utf8Signed` | UTF-8; the second with the mark `EF BB BF` before it, which is optional when reading |
| `ascii`, `latin1` | one byte a character, up to U+007F and U+00FF |
| `windows1252` | one byte a character, with five gaps |
| `utf16` | two bytes a unit after a byte order mark, which reading requires |
| `utf16Little`, `utf16Big` | the same without a mark |

Reading stops at the first place that is no text and says which bytes, where, and why. Writing never
fails: what an encoding cannot hold is written as a decimal character reference.

An encoding is known by many names. Case does not matter, and every run of characters other than
letters, digits and points counts as one underscore.
-/

import PageComposer.Text.Class
import PageComposer.Text.Windows

namespace PageComposer
namespace Text

/-- A text encoding. -/
inductive Encoding where
  | utf8
  | utf8Signed
  | ascii
  | latin1
  | windows1252
  | utf16
  | utf16Little
  | utf16Big
  deriving Repr, DecidableEq, Inhabited

namespace Encoding

/-- The names of the encodings in their plain form. -/
def names : List (String × Encoding) :=
  [("utf_8", .utf8), ("cp65001", .utf8), ("u8", .utf8), ("utf", .utf8), ("utf8", .utf8),
   ("utf8_ucs2", .utf8), ("utf8_ucs4", .utf8), ("utf_8_sig", .utf8Signed),
   ("ascii", .ascii), ("646", .ascii), ("ansi_x3.4_1968", .ascii), ("ansi_x3.4_1986", .ascii),
   ("ansi_x3_4_1968", .ascii), ("cp367", .ascii), ("csascii", .ascii), ("ibm367", .ascii),
   ("iso646_us", .ascii), ("iso_646.irv_1991", .ascii), ("iso_ir_6", .ascii), ("us", .ascii),
   ("us_ascii", .ascii), ("latin_1", .latin1), ("8859", .latin1), ("cp819", .latin1),
   ("csisolatin1", .latin1), ("ibm819", .latin1), ("iso8859", .latin1), ("iso8859_1", .latin1),
   ("iso_8859_1", .latin1), ("iso_8859_1_1987", .latin1), ("iso_ir_100", .latin1),
   ("l1", .latin1), ("latin", .latin1), ("latin1", .latin1), ("cp1252", .windows1252),
   ("1252", .windows1252), ("windows_1252", .windows1252), ("utf_16", .utf16), ("u16", .utf16),
   ("utf16", .utf16), ("utf_16_le", .utf16Little), ("unicodelittleunmarked", .utf16Little),
   ("utf_16le", .utf16Little), ("utf_16_be", .utf16Big), ("unicodebigunmarked", .utf16Big),
   ("utf_16be", .utf16Big)]

/-- The plain form of a name: small letters, one underscore for every run of other characters
between them. `gap` tells whether such a run came last. -/
def plainNameFrom (gap : Bool) : List Char → List Char
  | [] => []
  | c :: rest =>
    if isAsciiAlnum c || c == '.' then
      (if gap then ['_'] else []) ++ c.toLower :: plainNameFrom false rest
    else plainNameFrom true rest

/-- The plain form of a name. -/
def plainName (s : String) : String :=
  String.ofList (plainNameFrom false (s.toList.dropWhile fun c => !(isAsciiAlnum c || c == '.')))

/-- The encoding of a name. -/
def ofName? (s : String) : Option Encoding :=
  let name := plainName s
  match names.lookup name with
  | some e => some e
  | none => names.lookup (name.map fun c => if c == '.' then '_' else c)

end Encoding

/-- Why bytes are no text. -/
inductive DecodeFault where
  /-- The bytes from `start` on are none in the encoding. -/
  | bytes (codec : String) (bad : List UInt8) (start : Nat) (reason : String)
  /-- There is no byte order mark. -/
  | noByteOrder
  deriving Repr, DecidableEq, Inhabited

/-- The words for a fault. -/
def DecodeFault.message : DecodeFault → String
  | .noByteOrder => "UTF-16 stream does not start with BOM"
  | .bytes codec [b] start reason =>
    s!"'{codec}' codec can't decode byte 0x{String.ofList (twoDigits b)} in position {start}: " ++
      reason
  | .bytes codec bad start reason =>
    s!"'{codec}' codec can't decode bytes in position {start}-{start + bad.length - 1}: " ++ reason
where
  /-- A byte in hexadecimal. -/
  twoDigits (b : UInt8) : List Char :=
    let ds := Nat.toDigits 16 b.toNat
    if ds.length < 2 then '0' :: ds else ds

/-- A byte that goes on a sequence of UTF-8. -/
def isContinuation (b : Nat) : Bool := 0x80 ≤ b && b < 0xc0

/-- The bytes that may come second after a lead byte of three or four. -/
def secondRange (lead : Nat) : Nat × Nat :=
  if lead == 0xe0 then (0xa0, 0xbf)
  else if lead == 0xed then (0x80, 0x9f)
  else if lead == 0xf0 then (0x90, 0xbf)
  else if lead == 0xf4 then (0x80, 0x8f)
  else (0x80, 0xbf)

/-- What the beginning of some bytes is: a character with its length, or the number of bad bytes and
what is wrong with them. -/
inductive Sequence where
  | char (point length : Nat)
  | invalid (length : Nat) (reason : String)
  /-- The bytes end before the character does. -/
  | unfinished (length : Nat)
  deriving Repr, Inhabited

/-- The sequence of UTF-8 that begins with `lead`. -/
def utf8Sequence (lead : Nat) (rest : List UInt8) : Sequence :=
  let goesOn := "invalid continuation byte"
  if lead < 0x80 then .char lead 1
  else if lead < 0xc2 || lead > 0xf4 then .invalid 1 "invalid start byte"
  else if lead < 0xe0 then
    match rest with
    | [] => .unfinished 1
    | b :: _ =>
      if isContinuation b.toNat then .char ((lead - 0xc0) * 64 + (b.toNat - 0x80)) 2
      else .invalid 1 goesOn
  else
    let (low, high) := secondRange lead
    match rest with
    | [] => .unfinished 1
    | b :: rest =>
      if b.toNat < low || b.toNat > high then .invalid 1 goesOn
      else
        match rest with
        | [] => .unfinished 2
        | c :: rest =>
          if !isContinuation c.toNat then .invalid 2 goesOn
          else if lead < 0xf0 then
            .char (((lead - 0xe0) * 64 + (b.toNat - 0x80)) * 64 + (c.toNat - 0x80)) 3
          else
            match rest with
            | [] => .unfinished 3
            | d :: _ =>
              if !isContinuation d.toNat then .invalid 3 goesOn
              else
                .char ((((lead - 0xf0) * 64 + (b.toNat - 0x80)) * 64 + (c.toNat - 0x80)) * 64 +
                  (d.toNat - 0x80)) 4

/-- The characters of bytes in UTF-8, put before `done` in reverse; `at` counts the bytes before.
Every round takes a byte, so `fuel` above their number is enough. -/
def utf8From (fuel at_ : Nat) (done : List Char) (bs : List UInt8) :
    Except DecodeFault (List Char) :=
  match fuel, bs with
  | 0, _ => .ok done.reverse
  | _ + 1, [] => .ok done.reverse
  | fuel + 1, b :: rest =>
    match utf8Sequence b.toNat rest with
    | .char point n =>
      utf8From fuel (at_ + n) (Char.ofNat point :: done) (rest.drop (n - 1))
    | .invalid n reason => .error (.bytes "utf-8" ((b :: rest).take n) at_ reason)
    | .unfinished n => .error (.bytes "utf-8" ((b :: rest).take n) at_ "unexpected end of data")

/-- The characters of bytes in UTF-8. -/
def utf8Chars (bs : List UInt8) : Except DecodeFault (List Char) :=
  utf8From (bs.length + 1) 0 [] bs

/-- A unit of two bytes. -/
def unitOf (big : Bool) (a b : UInt8) : Nat :=
  if big then a.toNat * 256 + b.toNat else b.toNat * 256 + a.toNat

/-- The characters of bytes in UTF-16, put before `done` in reverse. -/
def utf16From (big : Bool) (fuel at_ : Nat) (done : List Char) (bs : List UInt8) :
    Except DecodeFault (List Char) :=
  let codec := if big then "utf-16-be" else "utf-16-le"
  match fuel, bs with
  | 0, _ => .ok done.reverse
  | _ + 1, [] => .ok done.reverse
  | _ + 1, [a] => .error (.bytes codec [a] at_ "truncated data")
  | fuel + 1, a :: b :: rest =>
    let n := unitOf big a b
    if n < 0xd800 || n > 0xdfff then
      utf16From big fuel (at_ + 2) (Char.ofNat n :: done) rest
    else if n ≥ 0xdc00 then .error (.bytes codec [a, b] at_ "illegal encoding")
    else
      match rest with
      | c :: d :: rest =>
        let m := unitOf big c d
        if 0xdc00 ≤ m && m ≤ 0xdfff then
          utf16From big fuel (at_ + 4)
            (Char.ofNat (0x10000 + (n - 0xd800) * 0x400 + (m - 0xdc00)) :: done) rest
        else .error (.bytes codec [a, b] at_ "illegal UTF-16 surrogate")
      | rest => .error (.bytes codec (a :: b :: rest) at_ "unexpected end of data")

/-- The characters of bytes in UTF-16. -/
def utf16Chars (big : Bool) (at_ : Nat) (bs : List UInt8) : Except DecodeFault (List Char) :=
  utf16From big (bs.length + 1) at_ [] bs

/-- The characters of bytes of which each stands for one. -/
def byteChars (codec reason : String) (point? : Nat → Option Nat) (bs : List UInt8) :
    Except DecodeFault (List Char) :=
  match bs.findIdx? fun b => (point? b.toNat).isNone with
  | some i => .error (.bytes codec ((bs.drop i).take 1) i reason)
  | none => .ok (bs.map fun b => Char.ofNat ((point? b.toNat).getD 0))

/-- The code point of a byte in windows-1252. -/
def windowsPoint? (n : Nat) : Option Nat :=
  if 0x80 ≤ n && n ≤ 0x9f then windowsControl? n else some n

/-- The mark of signed UTF-8. -/
def utf8Mark : List UInt8 := [0xef, 0xbb, 0xbf]

/-- The characters of bytes in an encoding. -/
def decode (e : Encoding) (bs : List UInt8) : Except DecodeFault (List Char) :=
  match e with
  | .utf8 => utf8Chars bs
  | .utf8Signed =>
    if bs.length < 3 && bs.isPrefixOf utf8Mark then .ok []
    else if utf8Mark.isPrefixOf bs then utf8Chars (bs.drop 3)
    else utf8Chars bs
  | .ascii =>
    byteChars "ascii" "ordinal not in range(128)" (fun n => if n < 128 then some n else none) bs
  | .latin1 => .ok (bs.map fun b => Char.ofNat b.toNat)
  | .windows1252 => byteChars "charmap" "character maps to <undefined>" windowsPoint? bs
  | .utf16 =>
    match bs with
    | 0xff :: 0xfe :: rest => utf16Chars false 2 rest
    | 0xfe :: 0xff :: rest => utf16Chars true 2 rest
    | [] => .ok []
    | _ => do
      let _ ← utf16Chars false 0 bs
      .error .noByteOrder
  | .utf16Little => utf16Chars false 0 bs
  | .utf16Big => utf16Chars true 0 bs

/-- Carriage returns, with or without a line feed behind, as line feeds. -/
def unixLines (cs : List Char) : List Char :=
  go [] cs
where
  /-- The same, put before `done` in reverse. -/
  go (done : List Char) : List Char → List Char
    | [] => done.reverse
    | '\r' :: '\n' :: rest => go ('\n' :: done) rest
    | '\r' :: rest => go ('\n' :: done) rest
    | c :: rest => go (c :: done) rest

/-- The bytes of a character in UTF-8. -/
def utf8Bytes (c : Char) : List UInt8 :=
  let n := c.toNat
  if n < 0x80 then [n.toUInt8]
  else if n < 0x800 then [(0xc0 + n / 64).toUInt8, (0x80 + n % 64).toUInt8]
  else if n < 0x10000 then
    [(0xe0 + n / 4096).toUInt8, (0x80 + n / 64 % 64).toUInt8, (0x80 + n % 64).toUInt8]
  else
    [(0xf0 + n / 262144).toUInt8, (0x80 + n / 4096 % 64).toUInt8, (0x80 + n / 64 % 64).toUInt8,
      (0x80 + n % 64).toUInt8]

/-- The two bytes of a unit. -/
def unitBytes (big : Bool) (n : Nat) : List UInt8 :=
  if big then [(n / 256).toUInt8, (n % 256).toUInt8] else [(n % 256).toUInt8, (n / 256).toUInt8]

/-- The bytes of a character in UTF-16. -/
def utf16Bytes (big : Bool) (c : Char) : List UInt8 :=
  let n := c.toNat
  if n < 0x10000 then unitBytes big n
  else
    unitBytes big (0xd800 + (n - 0x10000) / 0x400) ++ unitBytes big (0xdc00 + (n - 0x10000) % 0x400)

/-- The byte of a character in an encoding with one byte a character. -/
def singleByte? (e : Encoding) (c : Char) : Option UInt8 :=
  let n := c.toNat
  match e with
  | .ascii => if n < 128 then some n.toUInt8 else none
  | .latin1 => if n < 256 then some n.toUInt8 else none
  | .windows1252 =>
    if n < 0x80 || (0xa0 ≤ n && n < 256) then some n.toUInt8
    else (windowsByte? n).map (·.toUInt8)
  | _ => none

/-- A decimal character reference. -/
def decimalReference (c : Char) : List Char :=
  '&' :: '#' :: (Nat.toDigits 10 c.toNat ++ [';'])

/-- The bytes of a character; one that the encoding lacks becomes a reference. -/
def charBytes (e : Encoding) (c : Char) : List UInt8 :=
  match e with
  | .utf8 | .utf8Signed => utf8Bytes c
  | .utf16 | .utf16Little => utf16Bytes false c
  | .utf16Big => utf16Bytes true c
  | e =>
    match singleByte? e c with
    | some b => [b]
    | none => (decimalReference c).map fun d => d.toNat.toUInt8

/-- What an encoding writes before everything else. -/
def mark : Encoding → List UInt8
  | .utf8Signed => utf8Mark
  | .utf16 => [0xff, 0xfe]
  | _ => []

/-- The bytes of a text. -/
def encode (e : Encoding) (s : String) : List UInt8 :=
  mark e ++ s.toList.flatMap (charBytes e)

end Text
end PageComposer
