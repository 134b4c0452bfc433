set_option autoImplicit false

namespace ScriptCpp

instance (priority := 2000) Bytes.decidableEq : DecidableEq ByteArray :=
  ByteArray.instDecidableEq

namespace Bytes

def replacement : Char := '�'

structure Pending where
  bits : Nat
  later : Nat
  -- What the next byte may be.
  low : Nat
  high : Nat

-- The bounds on the second byte keep out long forms, surrogates and what lies above all characters.
def lead? (b : Nat) : Option Pending :=
  if 0xc2 ≤ b && b ≤ 0xdf then some ⟨b - 0xc0, 0, 0x80, 0xbf⟩
  else if b = 0xe0 then some ⟨0, 1, 0xa0, 0xbf⟩
  else if b = 0xed then some ⟨0xd, 1, 0x80, 0x9f⟩
  else if 0xe1 ≤ b && b ≤ 0xef then some ⟨b - 0xe0, 1, 0x80, 0xbf⟩
  else if b = 0xf0 then some ⟨0, 2, 0x90, 0xbf⟩
  else if 0xf1 ≤ b && b ≤ 0xf3 then some ⟨b - 0xf0, 2, 0x80, 0xbf⟩
  else if b = 0xf4 then some ⟨4, 2, 0x80, 0x8f⟩
  else none

def first (b : Nat) : List Char × Option Pending :=
  if b < 0x80 then ([Char.ofNat b], none)
  else
    match lead? b with
    | some p => ([], some p)
    | none => ([replacement], none)

/-- A byte within a character. One that does not fit stands at the start of something new. -/
def Pending.next (p : Pending) (b : Nat) : List Char × Option Pending :=
  if p.low ≤ b && b ≤ p.high then
    let bits := p.bits * 64 + (b - 0x80)
    match p.later with
    | 0 => ([Char.ofNat bits], none)
    | later + 1 => ([], some ⟨bits, later, 0x80, 0xbf⟩)
  else
    let (chars, pending) := first b
    (replacement :: chars, pending)

def decode : Option Pending → List UInt8 → List Char
  | none, [] => []
  | some _, [] => [replacement]
  | none, b :: rest =>
      let (chars, pending) := first b.toNat
      chars ++ decode pending rest
  | some p, b :: rest =>
      let (chars, pending) := p.next b.toNat
      chars ++ decode pending rest

def text (bytes : ByteArray) : String :=
  match String.fromUTF8? bytes with
  | some text => text
  | none => String.ofList (decode none bytes.data.toList)

/-- Bytes as a text with one character for each. -/
def spread (bytes : ByteArray) : String :=
  String.ofList (bytes.data.toList.map fun b => Char.ofNat b.toNat)

def gather (text : String) : ByteArray :=
  ⟨(text.toList.map fun c => UInt8.ofNat c.toNat).toArray⟩

end Bytes

end ScriptCpp
