/-!
JSON values with ordered members, and their two texts: `compact` has no blanks between tokens, and
`pretty` puts each element and member on a line of its own, two spaces deeper than what holds it.
-/
namespace PrefixCalls

inductive Json where
  | text (value : String)
  | count (value : Nat)
  | array (elements : List Json)
  | object (members : List (String × Json))
  deriving Repr

namespace Json

/-- A character inside a string literal. Quotes, backslashes and the characters below the space are
    escaped, with the short form where there is one; everything else stands for itself. -/
def escape (c : Char) : List Char :=
  if c = '"' then ['\\', '"']
  else if c = '\\' then ['\\', '\\']
  else if c = '\x08' then ['\\', 'b']
  else if c = '\x0c' then ['\\', 'f']
  else if c = '\n' then ['\\', 'n']
  else if c = '\r' then ['\\', 'r']
  else if c = '\t' then ['\\', 't']
  else if c.toNat < 0x20 then
    ['\\', 'u', '0', '0', Nat.digitChar (c.toNat / 16), Nat.digitChar (c.toNat % 16)]
  else [c]

def quote (s : String) : String := "\"" ++ String.ofList (s.toList.flatMap escape) ++ "\""

mutual

def compact : Json → String
  | text s => quote s
  | count n => toString n
  | array vs => "[" ++ ",".intercalate (compactElements vs) ++ "]"
  | object ms => "\x7b" ++ ",".intercalate (compactMembers ms) ++ "\x7d"

def compactElements : List Json → List String
  | [] => []
  | v :: vs => compact v :: compactElements vs

def compactMembers : List (String × Json) → List String
  | [] => []
  | (k, v) :: ms => (quote k ++ ":" ++ compact v) :: compactMembers ms

end

def newline (depth : Nat) : String := "\n" ++ String.ofList (List.replicate (2 * depth) ' ')

def block (left right : String) (depth : Nat) (items : List String) : String :=
  match items with
  | [] => left ++ right
  | items =>
    left ++ newline (depth + 1) ++ ("," ++ newline (depth + 1)).intercalate items
      ++ newline depth ++ right

mutual

def prettyAt (depth : Nat) : Json → String
  | text s => quote s
  | count n => toString n
  | array vs => block "[" "]" depth (prettyElements (depth + 1) vs)
  | object ms => block "\x7b" "\x7d" depth (prettyMembers (depth + 1) ms)

def prettyElements (depth : Nat) : List Json → List String
  | [] => []
  | v :: vs => prettyAt depth v :: prettyElements depth vs

def prettyMembers (depth : Nat) : List (String × Json) → List String
  | [] => []
  | (k, v) :: ms => (quote k ++ ": " ++ prettyAt depth v) :: prettyMembers depth ms

end

def pretty : Json → String := prettyAt 0

end Json

end PrefixCalls
