import WalletHub.Json.Number

/-!
# From JSON tokens to text

Two layouts of the same tokens: `compact` puts nothing between them, `pretty` a line for every
item and member with two blanks for every open container. Strings escape the quotation mark, the
backslash and the control characters, and nothing else.
-/
namespace WalletHub.Json

/-- The four hexadecimal digits of a code unit. -/
def unitDigits (n : Nat) : List Char :=
  [Nat.digitChar (n / 4096 % 16), Nat.digitChar (n / 256 % 16), Nat.digitChar (n / 16 % 16),
   Nat.digitChar (n % 16)]

/-- A character inside a string. -/
def escape (c : Char) : List Char :=
  match c with
  | '"' => ['\\', '"']
  | '\\' => ['\\', '\\']
  | '\x08' => ['\\', 'b']
  | '\x0c' => ['\\', 'f']
  | '\n' => ['\\', 'n']
  | '\r' => ['\\', 'r']
  | '\t' => ['\\', 't']
  | c => if c.toNat < 0x20 then '\\' :: 'u' :: unitDigits c.toNat else [c]

/-- A string between quotation marks. -/
def quoted (s : String) : List Char := '"' :: (s.toList.flatMap escape ++ ['"'])

/-- The characters of a token. -/
def Token.chars : Token → List Char
  | .openArr => ['[']
  | .closeArr => [']']
  | .openObj => ['\x7b']
  | .closeObj => ['\x7d']
  | .comma => [',']
  | .colon => [':']
  | .atom .null => "null".toList
  | .atom (.bool true) => "true".toList
  | .atom (.bool false) => "false".toList
  | .atom (.num n) => n.chars
  | .atom _ => []
  | .text (some s) => quoted s
  | .text none => "\"\\ud800\"".toList

/-- The value on one line without blanks. -/
def compact (v : Json) : String := String.ofList (v.tokens.flatMap Token.chars)

/-- A new line with two blanks for every open container. -/
def newline (depth : Nat) : List Char := '\n' :: List.replicate (2 * depth) ' '

/-- The number of open containers after a token. -/
def depthAfter (depth : Nat) : Token → Nat
  | .openArr | .openObj => depth + 1
  | .closeArr | .closeObj => depth - 1
  | _ => depth

/-- What stands between a token and the next one, `depth` containers being open after the first. -/
def gap (depth : Nat) : Token → Token → List Char
  | .openArr, .closeArr | .openObj, .closeObj => []
  | .openArr, _ | .openObj, _ | .comma, _ => newline depth
  | .colon, _ => [' ']
  | _, .closeArr | _, .closeObj => newline (depth - 1)
  | _, _ => []

/-- The characters of a row of tokens, one line for each item. -/
def spread (depth : Nat) : List Token → List Char
  | [] => []
  | [t] => t.chars
  | t :: u :: rest =>
    let d := depthAfter depth t
    t.chars ++ gap d t u ++ spread d (u :: rest)

/-- The value over several lines. -/
def pretty (v : Json) : String := String.ofList (spread 0 v.tokens)

end WalletHub.Json
