/-!
# Reading UTF-8

`Utf8.decode` reads bytes as text, or tells where and how they fail to be UTF-8.

A character is a lead byte with zero to three bytes after it.  The lead byte
fixes how many and from which range each is; only the first of them ever has a
narrower range than `80` to `BF`, which is what rules out overlong forms,
surrogates and numbers past the last character.
-/

namespace Lox.Utf8

/-- The first character that cannot be read. -/
structure Fault where
  /-- The number of bytes before it. -/
  index : Nat
  /-- The number of its bytes that could belong to a character, or to its lead
  byte alone if that is no lead byte.  There is none if the bytes end too early. -/
  length : Option Nat
deriving DecidableEq

/-- The report of a fault. -/
def Fault.message (fault : Fault) : String :=
  match fault.length with
  | some length => s!"invalid utf-8 sequence of {length} bytes from index {fault.index}"
  | none => s!"incomplete utf-8 byte sequence from index {fault.index}"

/-- The smallest and the largest byte of a range. -/
abbrev Range : Type := UInt8 × UInt8

/-- The range of most bytes after a lead byte. -/
def anyTail : Range := (0x80, 0xBF)

/-- The ranges of the bytes that follow a lead byte. -/
def tails? (lead : UInt8) : Option (List Range) :=
  if lead < 0x80 then some []
  else if lead < 0xC2 then none
  else if lead < 0xE0 then some [anyTail]
  else if lead == 0xE0 then some [(0xA0, 0xBF), anyTail]
  else if lead == 0xED then some [(0x80, 0x9F), anyTail]
  else if lead < 0xF0 then some [anyTail, anyTail]
  else if lead == 0xF0 then some [(0x90, 0xBF), anyTail, anyTail]
  else if lead < 0xF4 then some [anyTail, anyTail, anyTail]
  else if lead == 0xF4 then some [(0x80, 0x8F), anyTail, anyTail]
  else none

/-- The first fault of bytes that begin at `index`, where `pending` are the ranges
of bytes still missing from the character that began at `start`. -/
def faultFrom? (start index : Nat) (pending : List Range) : List UInt8 → Option Fault
  | [] => if pending.isEmpty then none else some ⟨start, none⟩
  | byte :: rest =>
      match pending with
      | [] =>
          match tails? byte with
          | none => some ⟨index, some 1⟩
          | some tails => faultFrom? index (index + 1) tails rest
      | (low, high) :: tails =>
          if low ≤ byte && byte ≤ high then faultFrom? start (index + 1) tails rest
          else some ⟨start, some (index - start)⟩

/-- The first fault of some bytes. -/
def fault? (bytes : List UInt8) : Option Fault := faultFrom? 0 0 [] bytes

/-- The text that the bytes stand for. -/
def decode (bytes : ByteArray) : Except Fault String :=
  match String.fromUTF8? bytes with
  | some text => .ok text
  | none => .error ((fault? bytes.toList).getD ⟨bytes.size, none⟩)

end Lox.Utf8
