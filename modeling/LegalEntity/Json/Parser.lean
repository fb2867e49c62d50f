import LegalEntity.Json.Document
import LegalEntity.Text.Utf8
/-!
Reading JSON documents from bytes. The grammar is strict: no byte order mark, no comments, no
comma before a closing bracket, nothing after the document but blanks.
-/

namespace LegalEntity.Json.Parser

open Decimal (Literal)

abbrev Bytes := List UInt8

def isSpace (b : UInt8) : Bool := b == 0x20 || b == 0x0A || b == 0x0D || b == 0x09

def skipSpace (s : Bytes) : Bytes := s.dropWhile isSpace

inductive Piece
  | byte (b : UInt8)
  | unit (n : Nat)
  deriving DecidableEq

def hexDigit? (b : UInt8) : Option Nat :=
  let n := b.toNat
  if 0x30 ≤ n && n ≤ 0x39 then some (n - 0x30)
  else if 0x41 ≤ n && n ≤ 0x46 then some (n - 0x37)
  else if 0x61 ≤ n && n ≤ 0x66 then some (n - 0x57)
  else none

def unit? (a b c d : UInt8) : Option Nat := do
  return 4096 * (← hexDigit? a) + 256 * (← hexDigit? b) + 16 * (← hexDigit? c) + (← hexDigit? d)

def escaped? (b : UInt8) : Option UInt8 :=
  if b == 0x22 || b == 0x5C || b == 0x2F then some b
  else if b == 0x62 then some 0x08
  else if b == 0x66 then some 0x0C
  else if b == 0x6E then some 0x0A
  else if b == 0x72 then some 0x0D
  else if b == 0x74 then some 0x09
  else none

def pieces? : Bytes → Option (List Piece × Bytes)
  | [] => none
  | 0x22 :: rest => some ([], rest)
  | 0x5C :: 0x75 :: a :: b :: c :: d :: rest => do
    let n ← unit? a b c d
    let (ps, rest) ← pieces? rest
    return (.unit n :: ps, rest)
  | 0x5C :: e :: rest => do
    let b ← escaped? e
    let (ps, rest) ← pieces? rest
    return (.byte b :: ps, rest)
  | b :: rest =>
    if b < 0x20 || b == 0x5C then none
    else do
      let (ps, rest) ← pieces? rest
      return (.byte b :: ps, rest)

def pieceBytes? : List Piece → Option Bytes
  | [] => some []
  | .byte b :: ps => do return b :: (← pieceBytes? ps)
  | .unit n :: ps =>
    if n < 0xD800 || 0xDFFF < n then do
      return String.utf8EncodeChar (Char.ofNat n) ++ (← pieceBytes? ps)
    else if n < 0xDC00 then
      match ps with
      | .unit m :: ps =>
        if 0xDC00 ≤ m && m ≤ 0xDFFF then do
          let c := Char.ofNat (0x10000 + 0x400 * (n - 0xD800) + (m - 0xDC00))
          return String.utf8EncodeChar c ++ (← pieceBytes? ps)
        else none
      | _ => none
    else none

def string? (s : Bytes) : Option (Option String × Bytes) := do
  let (ps, rest) ← pieces? s
  return ((pieceBytes? ps).bind Text.ofUtf8?, rest)

def isDigit (b : UInt8) : Bool := 0x30 ≤ b && b ≤ 0x39

def digits (s : Bytes) : List Nat × Bytes :=
  ((s.takeWhile isDigit).map (·.toNat - 0x30), s.dropWhile isDigit)

def digits? (s : Bytes) : Option (List Nat × Bytes) :=
  match digits s with
  | ([], _) => none
  | r => some r

def whole? (s : Bytes) : Option (List Nat × Bytes) :=
  match digits s with
  | ([], _) => none
  | (0 :: _ :: _, _) => none
  | r => some r

def fraction? : Bytes → Option (List Nat × Bytes)
  | 0x2E :: rest => digits? rest
  | s => some ([], s)

def exponent? : Bytes → Option (Option (Bool × List Nat) × Bytes)
  | b :: s =>
    if b == 0x65 || b == 0x45 then
      let (negative, s) := match s with
        | 0x2B :: rest => (false, rest)
        | 0x2D :: rest => (true, rest)
        | _ => (false, s)
      (digits? s).map fun (ds, rest) => (some (negative, ds), rest)
    else some (none, b :: s)
  | [] => some (none, [])

def literal? (s : Bytes) : Option (Literal × Bytes) := do
  let (negative, s) := match s with
    | 0x2D :: rest => (true, rest)
    | _ => (false, s)
  let (whole, s) ← whole? s
  let (fraction, s) ← fraction? s
  let (exponent, s) ← exponent? s
  return ({ negative, whole, fraction, exponent }, s)

def after? : Bytes → Bytes → Option Bytes
  | [], s => some s
  | w :: ws, b :: s => if w == b then after? ws s else none
  | _, [] => none

def word? (w : String) (s : Bytes) : Option Bytes := after? (Text.utf8 w) s

mutual

/-- A document at the front. Each call gives up one unit of fuel; the number of bytes is enough. -/
def document? : Nat → Bytes → Option (Document × Bytes)
  | 0, _ => none
  | fuel + 1, s =>
    match skipSpace s with
    | 0x22 :: rest => (string? rest).map fun (t, rest) => (.string t, rest)
    | 0x5B :: rest =>
      match skipSpace rest with
      | 0x5D :: rest => some (.array [], rest)
      | rest => do
        let (items, rest) ← items? fuel rest
        return (.array items, rest)
    | 0x7B :: rest =>
      match skipSpace rest with
      | 0x7D :: rest => some (.object [], rest)
      | rest => do
        let (members, rest) ← members? fuel rest
        return (.object members, rest)
    | 0x6E :: rest => (word? "ull" rest).map fun rest => (.null, rest)
    | 0x74 :: rest => (word? "rue" rest).map fun rest => (.bool true, rest)
    | 0x66 :: rest => (word? "alse" rest).map fun rest => (.bool false, rest)
    | s => (literal? s).map fun (l, rest) => (.number l.number?, rest)

def items? : Nat → Bytes → Option (List Document × Bytes)
  | 0, _ => none
  | fuel + 1, s => do
    let (d, s) ← document? fuel s
    match skipSpace s with
    | 0x2C :: rest => do
      let (ds, rest) ← items? fuel rest
      return (d :: ds, rest)
    | 0x5D :: rest => return ([d], rest)
    | _ => none

def members? : Nat → Bytes → Option (List (Option String × Document) × Bytes)
  | 0, _ => none
  | fuel + 1, s =>
    match skipSpace s with
    | 0x22 :: rest => do
      let (name, s) ← string? rest
      match skipSpace s with
      | 0x3A :: rest => do
        let (d, s) ← document? fuel rest
        match skipSpace s with
        | 0x2C :: rest => do
          let (ms, rest) ← members? fuel rest
          return ((name, d) :: ms, rest)
        | 0x7D :: rest => return ([(name, d)], rest)
        | _ => none
      | _ => none
    | _ => none

end

end Parser

def parse? (s : List UInt8) : Option Document :=
  match Parser.document? (2 * s.length + 2) s with
  | some (d, rest) => if (Parser.skipSpace rest).isEmpty then some d else none
  | none => none

def parseText? (s : String) : Option Document := parse? (Text.utf8 s)

end LegalEntity.Json
