import WalletHub.Json.Number

/-!
# From JSON text to tokens

A machine that takes one character at a time. Inside a string it collects pieces: characters, and
the halves of surrogate pairs that escapes can name; two matching halves join to one character.
-/
namespace WalletHub.Json

/-- A part of a string: a character, or a code unit that is half of one. -/
inductive Piece where
  | char (c : Char)
  | half (unit : Nat)
  deriving DecidableEq, Repr

/-- The characters of a row of pieces; none if a half has no partner. -/
def joinPieces : List Piece → Option (List Char)
  | [] => some []
  | .char c :: rest => (joinPieces rest).map (c :: ·)
  | .half hi :: .half lo :: rest =>
    if hi < 0xDC00 ∧ 0xDC00 ≤ lo then
      (joinPieces rest).map (Char.ofNat (0x10000 + (hi - 0xD800) * 0x400 + (lo - 0xDC00)) :: ·)
    else none
  | .half _ :: _ => none

/-- The piece an escape with this code unit stands for. -/
def Piece.ofUnit (unit : Nat) : Piece :=
  if 0xD800 ≤ unit ∧ unit < 0xE000 then .half unit else .char (Char.ofNat unit)

/-- The character a one-letter escape stands for. -/
def escaped? : Char → Option Char
  | '"' => some '"'
  | '\\' => some '\\'
  | '/' => some '/'
  | 'b' => some '\x08'
  | 'f' => some '\x0c'
  | 'n' => some '\n'
  | 'r' => some '\r'
  | 't' => some '\t'
  | _ => none

/-- Where the machine stands; collected parts are last first. -/
inductive Lexing.Mode where
  | idle
  | text (pieces : List Piece)
  | escape (pieces : List Piece)
  | unicode (pieces : List Piece) (left value : Nat)
  | word (letters : List Char)
  | number (cs : List Char)

/-- The state of the machine: its mode, and the tokens so far, last first. -/
structure Lexing where
  mode : Lexing.Mode
  out : List Token

namespace Lexing

def start : Lexing := ⟨.idle, []⟩

/-- Blanks between tokens. -/
def isBlank (c : Char) : Bool := c == ' ' || c == '\n' || c == '\t' || c == '\r'

/-- Characters that a number can hold. -/
def inNumber (c : Char) : Bool := c.isDigit || c == '-' || c == '+' || c == '.' || c == 'e' || c == 'E'

/-- The token of a word. -/
def wordToken? (letters : List Char) : Option Token :=
  if letters = "true".toList then some (.atom (.bool true))
  else if letters = "false".toList then some (.atom (.bool false))
  else if letters = "null".toList then some (.atom .null)
  else none

/-- The token that a character is by itself. -/
def mark? : Char → Option Token
  | '[' => some .openArr
  | ']' => some .closeArr
  | '\x7b' => some .openObj
  | '\x7d' => some .closeObj
  | ',' => some .comma
  | ':' => some .colon
  | _ => none

/-- A character between tokens. -/
def idleStep (out : List Token) (c : Char) : Option Lexing :=
  if isBlank c then some ⟨.idle, out⟩
  else if c = '"' then some ⟨.text [], out⟩
  else if c = '-' ∨ c.isDigit then some ⟨.number [c], out⟩
  else
    match mark? c with
    | some t => some ⟨.idle, t :: out⟩
    | none => if c.isLower then some ⟨.word [c], out⟩ else none

/-- Completes a word or a number. -/
def flush (l : Lexing) : Option (List Token) :=
  match l.mode with
  | .idle => some l.out
  | .word letters => (wordToken? letters.reverse).map (· :: l.out)
  | .number cs => (Number.parse? cs.reverse).map fun n => .atom (.num n) :: l.out
  | _ => none

/-- The state after one more character. -/
def step (l : Lexing) (c : Char) : Option Lexing :=
  match l.mode with
  | .idle => idleStep l.out c
  | .text ps =>
    if c = '"' then some ⟨.idle, .text ((joinPieces ps.reverse).map String.ofList) :: l.out⟩
    else if c = '\\' then some ⟨.escape ps, l.out⟩
    else if c.toNat < 0x20 then none
    else some ⟨.text (.char c :: ps), l.out⟩
  | .escape ps =>
    if c = 'u' then some ⟨.unicode ps 4 0, l.out⟩
    else (escaped? c).map fun e => ⟨.text (.char e :: ps), l.out⟩
  | .unicode ps left value =>
    (Text.hexDigit? c).map fun d =>
      if left ≤ 1 then ⟨.text (Piece.ofUnit (16 * value + d) :: ps), l.out⟩
      else ⟨.unicode ps (left - 1) (16 * value + d), l.out⟩
  | .word letters =>
    if c.isLower then some ⟨.word (c :: letters), l.out⟩ else l.flush.bind (idleStep · c)
  | .number cs =>
    if inNumber c then some ⟨.number (c :: cs), l.out⟩ else l.flush.bind (idleStep · c)

/-- The state after a row of characters. -/
def run (l : Lexing) : List Char → Option Lexing
  | [] => some l
  | c :: cs => (l.step c).bind (run · cs)

end Lexing

/-- The tokens of a text. -/
def lex? (cs : List Char) : Option (List Token) :=
  ((Lexing.start.run cs).bind Lexing.flush).map List.reverse

/-- The value a text denotes, with nothing but blanks around it. -/
def parse? (s : String) : Option Json := (lex? s.toList).bind ofTokens?

end WalletHub.Json
