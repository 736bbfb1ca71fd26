/-!
Base64 with the alphabet `A–Z a–z 0–9 + /` and with padding. Only the canonical text of some
octets is read: padding is complete, nothing follows it, and the bits that the last symbol has
beyond the last octet are zero.

`decode` gives the first fault that it meets, in the order in which a reader goes that takes
blocks of eight symbols and looks at the end of the text last.
-/

namespace Dataflow.Base64

def alphabet : List Char :=
  "ABCDEFGHIJKLMNOPQRSTUVWXYZabcdefghijklmnopqrstuvwxyz0123456789+/".toList

/-- The sextet that an octet of text stands for. -/
def sextet? (b : UInt8) : Option Nat := alphabet.idxOf? (Char.ofNat b.toNat)

/-- The octet `=`. -/
def pad : UInt8 := 61

/-! ### Writing -/

inductive Fault where
  | invalidByte (byte : UInt8) (offset : Nat)
  /-- One symbol is left over, which is less than an octet. -/
  | lonelySymbol
  | padding
  | lastSymbol (byte : UInt8) (offset : Nat)
deriving DecidableEq

def Fault.message : Fault → String
  | invalidByte b i => s!"Invalid byte {b}, offset {i}."
  | lonelySymbol => "Encoded text cannot have a 6-bit remainder."
  | padding => "Invalid padding"
  | lastSymbol b i => s!"Invalid last symbol {b}, offset {i}."

/-- A text of one more than a multiple of four octets is not the text of anything. -/
def lengthFault? (text : List UInt8) : Option Fault :=
  if text.length % 4 ≠ 1 then none
  else
    match text.getLast? with
    | none => none
    | some b =>
      if b ≠ pad ∧ sextet? b = none then some (.invalidByte b (text.length - 1))
      else some .lonelySymbol

/-- How many octets stand before the last block, which is never empty unless the text is. -/
def bodyLength (n : Nat) : Nat := if n % 8 = 0 then n - 8 else n - n % 8

/-- The first octet of the body that is no symbol. -/
def bodyFault? (body : List UInt8) : Option Fault :=
  body.zipIdx.findSome? fun (b, i) => if sextet? b = none then some (.invalidByte b i) else none

/-- The first fault in the last block, which begins at `start`. Padding may begin after two or
three symbols of a group, and goes on to the end; `padded` is where it began. -/
def blockFault? (start : Nat) : Nat → Option Nat → List UInt8 → Option Fault
  | _, _, [] => none
  | i, padded, b :: rest =>
    if b = pad then
      if i % 4 < 2 then some (.invalidByte pad (start + padded.getD i))
      else blockFault? start (i + 1) (some (padded.getD i)) rest
    else
      match padded with
      | some first => some (.invalidByte pad (start + first))
      | none =>
        if sextet? b = none then some (.invalidByte b (start + i))
        else blockFault? start (i + 1) none rest

/-- The symbols before the padding. -/
def symbols (text : List UInt8) : List UInt8 := text.takeWhile (· ≠ pad)

/-- The last of a number of symbols may have bits that belong to no octet. -/
def spareFault? (symbols : List UInt8) : Option Fault :=
  let modulus := match symbols.length % 4 with
    | 2 => 16
    | 3 => 4
    | _ => 1
  match symbols.getLast? with
  | none => none
  | some b =>
    if (sextet? b).getD 0 % modulus = 0 then none
    else some (.lastSymbol b (symbols.length - 1))

def fault? (text : List UInt8) : Option Fault :=
  let start := bodyLength text.length
  (lengthFault? text).or <|
  (bodyFault? (text.take start)).or <|
  (blockFault? start 0 none (text.drop start)).or <|
  if text.length % 4 ≠ 0 then some .padding else spareFault? (symbols text)

/-- Four sextets make three octets; a group of three makes two, one of two makes one. -/
def octets : List Nat → List UInt8
  | a :: b :: c :: d :: rest =>
    (a * 4 + b / 16).toUInt8 :: (b % 16 * 16 + c / 4).toUInt8 :: (c % 4 * 64 + d).toUInt8 ::
      octets rest
  | [a, b, c] => [(a * 4 + b / 16).toUInt8, (b % 16 * 16 + c / 4).toUInt8]
  | [a, b] => [(a * 4 + b / 16).toUInt8]
  | _ => []

def decode (text : List UInt8) : Except Fault (List UInt8) :=
  match fault? text with
  | some fault => .error fault
  | none => .ok (octets ((symbols text).filterMap sextet?))

end Dataflow.Base64
