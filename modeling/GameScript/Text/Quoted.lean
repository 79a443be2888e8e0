import GameScript.Text.Printable

/-! Quoted text, as messages show it: printable characters stand for themselves. -/

namespace GameScript.Text

def paddedHex (width code : Nat) : String :=
  let digits := Nat.toDigits 16 code
  String.ofList (List.replicate (width - digits.length) '0' ++ digits)

def controlLetter? (c : Char) : Option Char :=
  match c.toNat with
  | 7 => some 'a'
  | 8 => some 'b'
  | 9 => some 't'
  | 10 => some 'n'
  | 11 => some 'v'
  | 12 => some 'f'
  | 13 => some 'r'
  | _ => none

/-- One character inside quotes. Control characters are written by letter or by code point. -/
def quotedChar (c : Char) : String :=
  if c = '"' || c = '\\' then String.ofList ['\\', c]
  else if isPrintable c then String.singleton c
  else
    match controlLetter? c with
    | some letter => String.ofList ['\\', letter]
    | none =>
        if c.toNat < 0x80 then "\\x" ++ paddedHex 2 c.toNat
        else if c.toNat < 0x10000 then "\\u" ++ paddedHex 4 c.toNat
        else "\\U" ++ paddedHex 8 c.toNat

def quoted (text : String) : String :=
  "\"" ++ String.join (text.toList.map quotedChar) ++ "\""

end GameScript.Text
