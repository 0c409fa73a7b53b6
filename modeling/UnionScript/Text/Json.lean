import UnionScript.Text.Quoted
/-!
# Json — the parts of JSON that options are written in

Options are read by readers that take what they expect off the front of a text and refuse everything else: a string, a
truth value, a natural number, and lists of one kind of item between brackets.  No reader takes a value of unknown kind,
so none has to call itself.  Strings are strict: no control characters, no escapes but those of the format, and a
surrogate only as half of a pair.
-/
namespace UnionScript
namespace Text
namespace Json

/-! ## Writing -/

def writeChar (c : Char) : String :=
  match c with
  | '"' => "\\\""
  | '\\' => "\\\\"
  | '\x08' => "\\b"
  | '\x0c' => "\\f"
  | '\n' => "\\n"
  | '\r' => "\\r"
  | '\t' => "\\t"
  | c =>
    if c.toNat < 0x10 then "\\u000" ++ hexDigits c.toNat
    else if c.toNat < 0x20 then "\\u00" ++ hexDigits c.toNat
    else c.toString

def writeString (s : String) : String :=
  "\"" ++ String.join (s.toList.map writeChar) ++ "\""

def writeArray (items : List String) : String :=
  "[" ++ ",".intercalate items ++ "]"

def writeObject (fields : List (String × String)) : String :=
  "\x7b" ++ ",".intercalate (fields.map fun field => writeString field.1 ++ ":" ++ field.2) ++ "\x7d"

/-! ## Reading -/

/-- A reader answers what it took off the front of a text and what is left, or refuses. -/
abbrev Reader (α : Type) := List Char → Option (α × List Char)

def isBlank (c : Char) : Bool := c == ' ' || c == '\n' || c == '\t' || c == '\r'

def skipBlanks (cs : List Char) : List Char := cs.dropWhile isBlank

def sign (expected : Char) : Reader Unit := fun cs =>
  match skipBlanks cs with
  | c :: rest => if c = expected then some ((), rest) else none
  | [] => none

def word (expected : String) : Reader Unit := fun cs =>
  let text := skipBlanks cs
  if text.take expected.length = expected.toList then some ((), text.drop expected.length) else none

def boolean : Reader Bool := fun cs =>
  match word "true" cs with
  | some (_, rest) => some (true, rest)
  | none => (word "false" cs).map fun taken => (false, taken.2)

def digitValue (c : Char) : Nat := c.toNat - '0'.toNat

def digitsValue (ds : List Char) : Nat := ds.foldl (fun n d => n * 10 + digitValue d) 0

/-- Takes a natural number below a bound, written without sign, fraction, exponent and needless zeros. -/
def natural (bound : Nat) : Reader Nat := fun cs =>
  let text := skipBlanks cs
  let ds := text.takeWhile Char.isDigit
  if ds.isEmpty || (ds.head? == some '0' && ds.length != 1) || bound ≤ digitsValue ds then none
  else some (digitsValue ds, text.dropWhile Char.isDigit)

def hexValue? (c : Char) : Option Nat :=
  if c.isDigit then some (digitValue c)
  else if 'a' ≤ c ∧ c ≤ 'f' then some (c.toNat - 'a'.toNat + 10)
  else if 'A' ≤ c ∧ c ≤ 'F' then some (c.toNat - 'A'.toNat + 10)
  else none

def unitValue? (a b c d : Char) : Option Nat := do
  return (((← hexValue? a) * 16 + (← hexValue? b)) * 16 + (← hexValue? c)) * 16 + (← hexValue? d)

/-- Whether a unit is the first half of a pair. -/
def isHighUnit (n : Nat) : Bool := 0xD800 ≤ n && n < 0xDC00

def isLowUnit (n : Nat) : Bool := 0xDC00 ≤ n && n < 0xE000

def escaped? : Char → Option Char
  | '"' => some '"'
  | '\\' => some '\\'
  | '/' => some '/'
  | 'b' => some '\x08'
  | 'f' => some '\x0c'
  | 'n' => some '\n'
  | 'r' => some '\r'
  | 't' => some '\t'
  | _ => none

def consTaken (c : Char) (taken : List Char × List Char) : List Char × List Char := (c :: taken.1, taken.2)

/-- Takes the characters of a string up to its closing quote, which is taken as well. -/
def stringBody : Reader (List Char)
  | '"' :: rest => some ([], rest)
  | '\\' :: 'u' :: a :: b :: c :: d :: rest =>
    match unitValue? a b c d with
    | none => none
    | some unit =>
      if isLowUnit unit then none
      else if isHighUnit unit then
        match rest with
        | '\\' :: 'u' :: e :: f :: g :: h :: rest' =>
          match unitValue? e f g h with
          | none => none
          | some low =>
            if isLowUnit low then
              (stringBody rest').map (consTaken (Char.ofNat (0x10000 + (unit - 0xD800) * 0x400 + (low - 0xDC00))))
            else none
        | _ => none
      else (stringBody rest).map (consTaken (Char.ofNat unit))
  | '\\' :: letter :: rest =>
    match escaped? letter with
    | none => none
    | some c => (stringBody rest).map (consTaken c)
  | ['\\'] => none
  | c :: rest => if c.toNat < 0x20 then none else (stringBody rest).map (consTaken c)
  | [] => none

def string : Reader String := fun cs =>
  match sign '"' cs with
  | none => none
  | some (_, rest) => (stringBody rest).map fun taken => (String.ofList taken.1, taken.2)

/-- Takes items with commas between them up to a closing sign, which is taken as well.  The first item is taken
already. -/
def itemsBehind {α : Type} (close : Char) (item : Reader α) (items : List α) (cs : List Char) :
    Option (List α × List Char) :=
  match sign close cs with
  | some (_, rest) => some (items, rest)
  | none =>
    match (sign ',' cs).bind fun taken => item taken.2 with
    | none => none
    | some (a, rest) => if rest.length < cs.length then itemsBehind close item (items ++ [a]) rest else none
termination_by cs.length

def items {α : Type} (opening close : Char) (item : Reader α) : Reader (List α) := fun cs =>
  match sign opening cs with
  | none => none
  | some (_, rest) =>
    match sign close rest with
    | some (_, rest') => some ([], rest')
    | none => (item rest).bind fun taken => itemsBehind close item [taken.1] taken.2

/-- Takes a name, a colon and a value whose reader the name chooses. -/
def field {α : Type} (value : String → Reader α) : Reader α := fun cs => do
  let (name, rest) ← string cs
  let (_, rest) ← sign ':' rest
  value name rest

def isDone (cs : List Char) : Bool := (skipBlanks cs).isEmpty

end Json
end Text
end UnionScript
