import UnionScript.Text.Character
import UnionScript.Text.Unseen
/-!
# Quoted — a text between double quotes, as token listings and file messages show it

The quoted form makes line ends and other invisible characters readable on one line: a backslash and the double quote
are written behind a backslash, line feed, carriage return, tab and the zero character by their letters, and any other
character that does not show itself by its number in braces.
-/
namespace UnionScript
namespace Text

def hexDigits (n : Nat) : String :=
  String.ofList (Nat.toDigits 16 n)

def isUnseen (c : Char) : Bool :=
  if c.toNat < 0x80 then c.toNat < 0x20 || c.toNat == 0x7F else inRanges unseenRanges c

def quotedChar (c : Char) : String :=
  match c with
  | '\\' => "\\\\"
  | '"' => "\\\""
  | '\n' => "\\n"
  | '\r' => "\\r"
  | '\t' => "\\t"
  | '\x00' => "\\0"
  | c => if isUnseen c then "\\u\x7b" ++ hexDigits c.toNat ++ "\x7d" else c.toString

def quoted (s : String) : String :=
  "\"" ++ String.join (s.toList.map quotedChar) ++ "\""

end Text
end UnionScript
