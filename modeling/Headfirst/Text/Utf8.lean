import Headfirst.Text.Basic

namespace Headfirst.Text.Utf8

/-! Reading UTF-8, strictly: a text is well formed or its first fault is known. -/

inductive Reason where
  | start
  | continuation
  | truncated
deriving DecidableEq, Repr

/-- The bytes at fault: where they start, how many they are, and the first of them. -/
structure Fault where
  position : Nat
  length : Nat
  byte : UInt8
  reason : Reason
deriving DecidableEq, Repr

def Reason.text : Reason → String
  | start => "invalid start byte"
  | continuation => "invalid continuation byte"
  | truncated => "unexpected end of data"

def Fault.text (fault : Fault) : String :=
  let bytes :=
    if fault.length = 1 then
      s!"byte 0x{String.ofList (hex 2 fault.byte.toNat)} in position {fault.position}"
    else s!"bytes in position {fault.position}-{fault.position + fault.length - 1}"
  s!"'utf-8' codec can't decode {bytes}: {fault.reason.text}"

/-- What the first byte of a sequence announces: how many bytes follow it, between which
bounds the first of them lies, and the bits it contributes. -/
structure Lead where
  following : Nat
  lower : UInt8
  upper : UInt8
  bits : Nat

/-- The bounds exclude overlong forms, surrogates, and codes above U+10FFFF. -/
def lead? (byte : UInt8) : Option Lead :=
  if byte < 0x80 then some ⟨0, 0x80, 0xBF, byte.toNat⟩
  else if byte < 0xC2 then none
  else if byte < 0xE0 then some ⟨1, 0x80, 0xBF, byte.toNat - 0xC0⟩
  else if byte < 0xF0 then
    some ⟨2, if byte = 0xE0 then 0xA0 else 0x80, if byte = 0xED then 0x9F else 0xBF,
      byte.toNat - 0xE0⟩
  else if byte < 0xF5 then
    some ⟨3, if byte = 0xF0 then 0x90 else 0x80, if byte = 0xF4 then 0x8F else 0xBF,
      byte.toNat - 0xF0⟩
  else none

/-- The code that a lead byte's bits and the bytes after it make up, with what is left;
or the reason why they make up none, with the number of good bytes before it. -/
def complete (lower upper : UInt8) (bits : Nat) :
    (following : Nat) → List UInt8 → Except (Reason × Nat) (Nat × List UInt8)
  | 0, bytes => .ok (bits, bytes)
  | _ + 1, [] => .error (.truncated, 0)
  | following + 1, byte :: bytes =>
      if lower ≤ byte ∧ byte ≤ upper then
        match complete 0x80 0xBF (bits * 0x40 + (byte.toNat - 0x80)) following bytes with
        | .ok result => .ok result
        | .error (reason, good) => .error (reason, good + 1)
      else .error (.continuation, 0)

theorem length_complete {lower upper : UInt8} {bits following : Nat} {bytes rest : List UInt8}
    {code : Nat} (completed : complete lower upper bits following bytes = .ok (code, rest)) :
    rest.length ≤ bytes.length := by
  fun_induction complete lower upper bits following bytes with
  | case1 =>
      cases completed
      simp
  | case2 => contradiction
  | case3 lower upper bits following byte bytes inside result found ih =>
      cases completed
      have := ih found
      simp only [List.length_cons]
      omega
  | case4 => contradiction
  | case5 => contradiction

/-- Decodes bytes of which the first one has the given position. -/
def decodeFrom (position : Nat) : List UInt8 → Except Fault (List Char)
  | [] => .ok []
  | byte :: bytes =>
      match lead? byte with
      | none => .error ⟨position, 1, byte, .start⟩
      | some lead =>
          match _completed : complete lead.lower lead.upper lead.bits lead.following bytes with
          | .error (reason, good) => .error ⟨position, good + 1, byte, reason⟩
          | .ok (code, rest) =>
              match decodeFrom (position + lead.following + 1) rest with
              | .error fault => .error fault
              | .ok chars => .ok (Char.ofNat code :: chars)
termination_by bytes => bytes.length
decreasing_by
  have := length_complete _completed
  simp only [List.length_cons]
  omega

def decode (bytes : List UInt8) : Except Fault (List Char) :=
  decodeFrom 0 bytes

end Headfirst.Text.Utf8
