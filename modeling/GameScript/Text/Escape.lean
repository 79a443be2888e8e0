/-! Escapes inside string and char literals. -/

namespace GameScript.Text

def escapeValue? : Char → Option Char
  | 'n' => some '\n'
  | 't' => some '\t'
  | 'r' => some '\r'
  | '0' => some '\x00'
  | '\\' => some '\\'
  | '\'' => some '\''
  | '"' => some '"'
  | _ => none

def escapeChar (quote c : Char) : List Char :=
  match c with
  | '\n' => ['\\', 'n']
  | '\t' => ['\\', 't']
  | '\r' => ['\\', 'r']
  | '\x00' => ['\\', '0']
  | '\\' => ['\\', '\\']
  | c => if c = quote then ['\\', c] else [c]

def escape (quote : Char) (text : String) : String :=
  String.ofList (text.toList.flatMap (escapeChar quote))

def enquote (quote : Char) (text : String) : String :=
  String.singleton quote ++ escape quote text ++ String.singleton quote

/-- Decodes the escapes of a body. An unknown escape and a final backslash stay as written. -/
def unescapeChars : List Char → List Char
  | [] => []
  | ['\\'] => ['\\']
  | '\\' :: letter :: rest =>
      match escapeValue? letter with
      | some c => c :: unescapeChars rest
      | none => '\\' :: letter :: unescapeChars rest
  | c :: rest => c :: unescapeChars rest

def unescape (body : String) : String :=
  String.ofList (unescapeChars body.toList)

def charValue? (body : String) : Option Char :=
  match body.toList with
  | [c] => if c = '\\' then none else some c
  | ['\\', letter] => escapeValue? letter
  | _ => none

end GameScript.Text
