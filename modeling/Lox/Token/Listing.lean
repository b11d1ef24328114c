/-
**Tokens in a listing.**

* `Token.listed` — a token as a line of text: its name, its lexeme and its literal.
* `Token.json` — a token as a line of JSON.
* `jsonString` — a text as a JSON string: quotes, backslashes and control characters are escaped,
  and every other character stands for itself.
-/

import Lox.Number
import Lox.Token

namespace Lox

/-- A control character by its code, in four hexadecimal digits. -/
def codeEscape (c : Char) : List Char :=
  let digits := Nat.toDigits 16 c.toNat
  '\\' :: 'u' :: List.replicate (4 - digits.length) '0' ++ digits

/-- A character within a JSON string. -/
def jsonChar (c : Char) : List Char :=
  match c with
  | '"' => ['\\', '"']
  | '\\' => ['\\', '\\']
  | '\x08' => ['\\', 'b']
  | '\x0c' => ['\\', 'f']
  | '\n' => ['\\', 'n']
  | '\r' => ['\\', 'r']
  | '\t' => ['\\', 't']
  | c => if c.toNat < 32 then codeEscape c else [c]

/-- A text as a JSON string. -/
def jsonString (text : String) : String :=
  String.ofList ('"' :: text.toList.flatMap jsonChar ++ ['"'])

/-- A JSON object from its keys, which need no escape, and the JSON of their values. -/
def jsonObject (fields : List (String × String)) : String :=
  "\x7b" ++ ",".intercalate (fields.map fun (key, value) => "\"" ++ key ++ "\":" ++ value) ++ "\x7d"

/-- The literal of a kind in a listing, `null` where there is none. -/
def Kind.literal : Kind → String
  | .string contents => contents
  | .number value => Number.inToken value
  | _ => "null"

/-- A kind in JSON: its name, together with the literal where there is one. -/
def Kind.json : Kind → String
  | .string contents => jsonObject [("STRING", jsonString contents)]
  | .number value => jsonObject [("NUMBER", Number.inJson value)]
  | kind => jsonString kind.name

namespace Token

/-- A token as a line of a listing. -/
def listed (token : Token) : String :=
  token.kind.name ++ " " ++ token.lexeme ++ " " ++ token.kind.literal

/-- A token as a line of JSON. -/
def json (token : Token) : String :=
  jsonObject [("token_type", token.kind.json), ("lexeme", jsonString token.lexeme),
    ("line", toString token.line)]

end Token

end Lox
