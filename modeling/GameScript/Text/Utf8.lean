/-! UTF-8 text from bytes that may be malformed. -/

namespace GameScript.Text

def replacement : Char := '\ufffd'

def continuation? (byte : UInt8) : Option Nat :=
  if 0x80 ≤ byte && byte < 0xC0 then some (byte.toNat - 0x80) else none

/-- The character that starts with the byte `lead`, and how many bytes of `rest` belong to it.
Overlong forms, surrogates and code points above U+10FFFF are refused. -/
def leadingChar? (lead : UInt8) (rest : List UInt8) : Option (Char × Nat) :=
  if lead < 0x80 then some (Char.ofNat lead.toNat, 0)
  else if 0xC2 ≤ lead && lead < 0xE0 then
    match rest with
    | second :: _ => do
        let b ← continuation? second
        some (Char.ofNat ((lead.toNat - 0xC0) * 64 + b), 1)
    | _ => none
  else if 0xE0 ≤ lead && lead < 0xF0 then
    match rest with
    | second :: third :: _ => do
        let b ← continuation? second
        let c ← continuation? third
        let code := ((lead.toNat - 0xE0) * 64 + b) * 64 + c
        if code < 0x800 || (0xD800 ≤ code && code < 0xE000) then none
        else some (Char.ofNat code, 2)
    | _ => none
  else if 0xF0 ≤ lead && lead < 0xF5 then
    match rest with
    | second :: third :: fourth :: _ => do
        let b ← continuation? second
        let c ← continuation? third
        let d ← continuation? fourth
        let code := (((lead.toNat - 0xF0) * 64 + b) * 64 + c) * 64 + d
        if code < 0x10000 || 0x10FFFF < code then none
        else some (Char.ofNat code, 3)
    | _ => none
  else none

def decodeFrom : (pending : Nat) → List UInt8 → List Char
  | _, [] => []
  | pending + 1, _ :: rest => decodeFrom pending rest
  | 0, lead :: rest =>
      match leadingChar? lead rest with
      | some (c, pending) => c :: decodeFrom pending rest
      | none => replacement :: decodeFrom 0 rest

/-- The characters of a byte sequence; each byte that is out of place becomes one replacement
character. -/
def decodeUtf8 (bytes : List UInt8) : List Char :=
  decodeFrom 0 bytes

def charOfCode (code : Int) : Char :=
  if h : code.toNat.isValidChar ∧ 0 ≤ code then Char.ofNatAux code.toNat h.1 else replacement

end GameScript.Text
