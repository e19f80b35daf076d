import PrefixCalls.Json.Basic

/-!
A reader of JSON texts. It goes over the characters once and keeps what is open around the place
where it is: arrays with the elements read so far, and objects with the members read so far and the
key of the next. Blanks may stand between any two tokens, strings may use every escape of the format,
and all six kinds of values are read. Texts that are not JSON are refused.
-/
namespace PrefixCalls.Json

/-- A number as it is spelled. The digits of the fraction are kept, zeros at the end included. -/
structure Numeral where
  negative : Bool
  whole : Nat
  fraction : List Char
  exponent : Int
  deriving DecidableEq, Repr

inductive Value where
  | null
  | boolean (value : Bool)
  | number (value : Numeral)
  | text (value : String)
  | array (elements : List Value)
  | object (members : List (String × Value))
  deriving Repr

namespace Reader

def isBlank (c : Char) : Bool := c == ' ' || c == '\t' || c == '\n' || c == '\r'

def isWordChar (c : Char) : Bool := c.isAlphanum || c == '+' || c == '-' || c == '.'

def digits? (cs : List Char) : Option Nat :=
  if cs ≠ [] ∧ cs.all Char.isDigit then some (Nat.ofDigitChars 10 cs 0) else none

/-- A number has no zero in front of other digits. -/
def whole? : List Char → Option Nat
  | '0' :: _ :: _ => none
  | cs => digits? cs

def fraction? : List Char → Option (List Char × List Char)
  | '.' :: cs =>
    let digits := cs.takeWhile Char.isDigit
    if digits = [] then none else some (digits, cs.dropWhile Char.isDigit)
  | cs => some ([], cs)

def integer? : List Char → Option Int
  | '-' :: cs => (digits? cs).map fun n => -(n : Int)
  | '+' :: cs => (digits? cs).map Int.ofNat
  | cs => (digits? cs).map Int.ofNat

def exponent? : List Char → Option Int
  | [] => some 0
  | c :: cs => if c = 'e' ∨ c = 'E' then integer? cs else none

def unsigned? (negative : Bool) (cs : List Char) : Option Numeral :=
  (whole? (cs.takeWhile Char.isDigit)).bind fun whole =>
    (fraction? (cs.dropWhile Char.isDigit)).bind fun (fraction, cs) =>
      (exponent? cs).map fun exponent => ⟨negative, whole, fraction, exponent⟩

def numeral? : List Char → Option Numeral
  | '-' :: cs => unsigned? true cs
  | cs => unsigned? false cs

def ofWord? (word : List Char) : Option Value :=
  if word = "null".toList then some .null
  else if word = "true".toList then some (.boolean true)
  else if word = "false".toList then some (.boolean false)
  else (numeral? word).map .number

def unescape? : Char → Option Char
  | '"' => some '"'
  | '\\' => some '\\'
  | '/' => some '/'
  | 'b' => some '\x08'
  | 'f' => some '\x0c'
  | 'n' => some '\n'
  | 'r' => some '\r'
  | 't' => some '\t'
  | _ => none

def hexDigit? (c : Char) : Option Nat :=
  if c.isDigit then some (c.toNat - '0'.toNat)
  else if 'a' ≤ c ∧ c ≤ 'f' then some (c.toNat - 'a'.toNat + 10)
  else if 'A' ≤ c ∧ c ≤ 'F' then some (c.toNat - 'A'.toNat + 10)
  else none

/-- Where the reader is between the quotes of a string. Behind an escaped first half of a pair there
    has to be an escaped second half. -/
inductive Phase where
  | plain
  | escape
  | unit (half : Option Nat) (digits : List Nat)
  | half (first : Nat)
  | halfEscape (first : Nat)
  deriving DecidableEq, Repr

structure Literal where
  chars : List Char
  phase : Phase
  deriving DecidableEq, Repr

namespace Literal

def start : Literal := ⟨[], .plain⟩

def goTo (l : Literal) (phase : Phase) : Literal := ⟨l.chars, phase⟩

def put (l : Literal) (c : Char) : Literal := ⟨l.chars ++ [c], .plain⟩

def isFirstHalf (unit : Nat) : Bool := 0xD800 ≤ unit && unit < 0xDC00

def isSecondHalf (unit : Nat) : Bool := 0xDC00 ≤ unit && unit < 0xE000

/-- An escaped code unit is a character of its own, or one half of a pair that is a character. -/
def putUnit (l : Literal) (half : Option Nat) (unit : Nat) : Option Literal :=
  match half with
  | none =>
    if isFirstHalf unit then some (l.goTo (.half unit))
    else if isSecondHalf unit then none
    else some (l.put (Char.ofNat unit))
  | some first =>
    if isSecondHalf unit then
      some (l.put (Char.ofNat (0x10000 + (first - 0xD800) * 0x400 + (unit - 0xDC00))))
    else none

def step (l : Literal) (c : Char) : Option Literal :=
  match l.phase with
  | .plain =>
    if c = '\\' then some (l.goTo .escape)
    else if c.toNat < 0x20 then none
    else some (l.put c)
  | .escape => if c = 'u' then some (l.goTo (.unit none [])) else (unescape? c).map l.put
  | .unit half [x, y, z] =>
    (hexDigit? c).bind fun d => l.putUnit half (((x * 16 + y) * 16 + z) * 16 + d)
  | .unit half digits => (hexDigit? c).map fun d => l.goTo (.unit half (digits ++ [d]))
  | .half first => if c = '\\' then some (l.goTo (.halfEscape first)) else none
  | .halfEscape first => if c = 'u' then some (l.goTo (.unit (some first) [])) else none

end Literal

/-- Something open around a value: an array with the elements in front of the value, or an object with
    the members in front of it and its key. -/
inductive Frame where
  | element (before : List Value)
  | member (before : List (String × Value)) (key : String)
  deriving Repr

inductive Role where
  | value (outer : List Frame)
  | key (before : List (String × Value)) (outer : List Frame)
  deriving Repr

/-- Where the reader is: a value has to come, or a key, or a colon; a string or a word is being read;
    or a value has just ended. -/
inductive State where
  | value (outer : List Frame)
  | key (before : List (String × Value)) (outer : List Frame)
  | colon (before : List (String × Value)) (key : String) (outer : List Frame)
  | literal (role : Role) (literal : Literal)
  | word (outer : List Frame) (chars : List Char)
  | done (outer : List Frame) (value : Value)
  deriving Repr

def Role.fill (s : String) : Role → State
  | value outer => .done outer (.text s)
  | key before outer => .colon before s outer

def after (v : Value) (c : Char) : List Frame → Option State
  | .element before :: outer =>
    if isBlank c then some (.done (.element before :: outer) v)
    else if c = ',' then some (.value (.element (before ++ [v]) :: outer))
    else if c = ']' then some (.done outer (.array (before ++ [v])))
    else none
  | .member before key :: outer =>
    if isBlank c then some (.done (.member before key :: outer) v)
    else if c = ',' then some (.key (before ++ [(key, v)]) outer)
    else if c = '\x7d' then some (.done outer (.object (before ++ [(key, v)])))
    else none
  | [] => if isBlank c then some (.done [] v) else none

/-- A closing bracket where a value could come ends an array without elements. -/
def closeEmpty : List Frame → Option State
  | .element [] :: outer => some (.done outer (.array []))
  | _ => none

def step (st : State) (c : Char) : Option State :=
  match st with
  | .value outer =>
    if isBlank c then some (.value outer)
    else if c = '"' then some (.literal (.value outer) .start)
    else if c = '[' then some (.value (.element [] :: outer))
    else if c = '\x7b' then some (.key [] outer)
    else if c = ']' then closeEmpty outer
    else if isWordChar c then some (.word outer [c])
    else none
  | .key before outer =>
    if isBlank c then some (.key before outer)
    else if c = '"' then some (.literal (.key before outer) .start)
    else if c = '\x7d' ∧ before.isEmpty then some (.done outer (.object []))
    else none
  | .colon before key outer =>
    if isBlank c then some (.colon before key outer)
    else if c = ':' then some (.value (.member before key :: outer))
    else none
  | .literal role l =>
    if l.phase = .plain ∧ c = '"' then some (role.fill (String.ofList l.chars))
    else (l.step c).map (.literal role)
  | .word outer chars =>
    if isWordChar c then some (.word outer (chars ++ [c]))
    else (ofWord? chars).bind fun v => after v c outer
  | .done outer v => after v c outer

def State.value? : State → Option Value
  | .done [] v => some v
  | .word [] chars => ofWord? chars
  | _ => none

def run (st : State) : List Char → Option State
  | [] => some st
  | c :: cs => (step st c).bind fun next => run next cs

theorem run_append (st : State) (cs ds : List Char) :
    run st (cs ++ ds) = (run st cs).bind fun next => run next ds := by
  induction cs generalizing st with
  | nil => rfl
  | cons c cs ih =>
    rw [List.cons_append, run, run, Option.bind_assoc]
    simp only [ih]

end Reader

def read? (text : String) : Option Value :=
  (Reader.run (.value []) text.toList).bind Reader.State.value?

end PrefixCalls.Json
