import UnionScript.Token
import UnionScript.Token.Numeral
/-!
# Lexeme — a program text cut into runs of characters

Reading a text begins by cutting it, without regard to places: every character falls into exactly one lexeme, and a
lexeme is a token, a blank between tokens, or a character that belongs to no token.  `ofText` cuts one step after the
other; each step takes at least one character and loses none (`sound_cut`), so the lexemes laid end to end are the text
again (`runs_ofTextFrom`).

The only memory between steps is the stack of open brackets: `]]` closes two brackets at once exactly when the innermost
open one was opened by `[[`.
-/
namespace UnionScript

/-! ## Lexemes -/

/-- What a run of characters is to the reader of the text. -/
inductive LexemeRole where
  | blank
  | stray
  | token (kind : TokenKind)
  deriving Repr, DecidableEq

/-- A run of characters and what it is. -/
structure Lexeme where
  role : LexemeRole
  run : List Char
  deriving Repr, DecidableEq

/-- How a bracket was opened. -/
inductive Bracket where
  | single
  | double
  deriving Repr, DecidableEq

/-- One step of cutting: the lexemes taken off the front, the text that is left, and the brackets open there. -/
structure Cut where
  lexemes : List Lexeme
  rest : List Char
  brackets : List Bracket

namespace Lexeme

/-! ## Words -/

/-- How many of the characters continue a word.  A dot does unless another dot follows, because two dots are a sign of
their own. -/
def wordLength : List Char → Nat
  | [] => 0
  | c :: cs => if Text.isWordPart c || (c == '.' && cs.head? != some '.') then wordLength cs + 1 else 0

def wordLiteral? : String → Option TokenKind
  | "true" | "false" | "TRUE" | "FALSE" => some .boolean
  | "NULL" => some .null
  | "NA" => some .na
  | "NA_character_" => some .naCharacter
  | "NA_integer_" => some .naInteger
  | "NA_real_" => some .naReal
  | "NA_complex_" => some .naComplex
  | "Inf" => some .inf
  | "NaN" => some .nan
  | _ => none

/-- The kind of a word: keyword, literal or identifier. -/
def wordKind (word : String) : TokenKind :=
  match Keyword.ofSpelling? word with
  | some k => .keyword k
  | none => (wordLiteral? word).getD .identifier

/-! ## Signs -/

/-- The sign that starts with a character, given the text behind it, and how many more characters it has. -/
def sign? (c : Char) (cs : List Char) : Option (TokenKind × Nat) :=
  let second := cs.head?
  match c with
  | '<' => some (if second = some '-' then (.leftAssign, 1) else if second = some '=' then (.lessEqual, 1)
      else (.less, 0))
  | '>' => some (if second = some '=' then (.greaterEqual, 1) else (.greater, 0))
  | '=' => some (if second = some '=' then (.doubleEqual, 1) else if second = some '>' then (.fatArrow, 1)
      else (.equal, 0))
  | '!' => some (if second = some '=' then (.bangEqual, 1) else (.bang, 0))
  | '+' => some (if second = some '=' then (.plusEqual, 1) else (.plus, 0))
  | '-' => some (if second = some '=' then (.minusEqual, 1) else (.minus, 0))
  | '&' => some (if second = some '&' then (.andAnd, 1) else (.and, 0))
  | '|' => some (if second = some '>' then (.pipe, 1) else if second = some '|' then (.orOr, 1) else (.or, 0))
  | ':' => some (if second = some ':' then (if cs.tail.head? = some ':' then (.internalAccess, 2)
      else (.namespaceAccess, 1)) else (.colon, 0))
  | '(' => some (.leftParen, 0)
  | ')' => some (.rightParen, 0)
  | '{' => some (.leftBrace, 0)
  | '}' => some (.rightBrace, 0)
  | ',' => some (.comma, 0)
  | ';' => some (.semicolon, 0)
  | '*' => some (.star, 0)
  | '/' => some (.slash, 0)
  | '^' => some (.caret, 0)
  | '$' => some (.dollar, 0)
  | '@' => some (.atSign, 0)
  | '~' => some (.tilde, 0)
  | '?' => some (.question, 0)
  | '\n' => some (.newline, 0)
  | _ => none

/-! ## Quoted text -/

/-- How many characters stand before the closing quote; a backslash takes the next character with it. -/
def stringLength (quote : Char) : List Char → Nat
  | [] => 0
  | ['\\'] => 1
  | '\\' :: _ :: cs => stringLength quote cs + 2
  | c :: cs => if c == quote then 0 else stringLength quote cs + 1

/-- How many characters stand before the next `mark` on the same line, if there is one. -/
def lengthTo? (mark : Char) : List Char → Option Nat
  | [] => none
  | c :: cs => if c = '\n' then none else if c = mark then some 0 else (lengthTo? mark cs).map (· + 1)

/-! ## One step

Every step takes the first character and some more; strings apart, what it takes is a single lexeme.
-/

/-- The step that takes a character and `more` characters behind it as one lexeme. -/
def front (brackets : List Bracket) (role : LexemeRole) (c : Char) (cs : List Char) (more : Nat) : Cut :=
  ⟨[⟨role, c :: cs.take more⟩], cs.drop more, brackets⟩

/-- The step that takes a string: the opening quote, the content, and the closing quote if the string has one. -/
def cutString (brackets : List Bracket) (quote : Char) (cs : List Char) : Cut :=
  let n := stringLength quote cs
  let opened : List Lexeme := [⟨.token .quote, [quote]⟩, ⟨.token .string, cs.take n⟩]
  match cs.drop n with
  | [] => ⟨opened, [], brackets⟩
  | c :: rest => ⟨opened ++ [⟨.token .quote, [c]⟩], rest, brackets⟩

/-- The step that takes a name between backticks, which ends on the line where it starts. -/
def cutBacktick (brackets : List Bracket) (cs : List Char) : Cut :=
  match lengthTo? '\x60' cs with
  | some n => front brackets (.token .identifier) '\x60' cs (n + 1)
  | none => front brackets .stray '\x60' cs 0

def cutNumber (brackets : List Bracket) (c : Char) (cs : List Char) : Cut :=
  let piece := Numeral.cutNumeral (c :: cs)
  front brackets (.token (if piece.isFloat then .float else .integer)) c cs (piece.run.length - 1)

def cutWord (brackets : List Bracket) (c : Char) (cs : List Char) : Cut :=
  let n := wordLength cs
  front brackets (.token (wordKind (String.ofList (c :: cs.take n)))) c cs n

/-- The step on a text that starts with a dot: a fraction, a word, or a sign of dots. -/
def cutDot (brackets : List Bracket) (cs : List Char) : Cut :=
  match cs with
  | [] => front brackets .stray '.' cs 0
  | d :: rest =>
    if d.isDigit then front brackets (.token .float) '.' cs (Numeral.cutDigits cs).1.length
    else if Text.isWordStart d then cutWord brackets '.' cs
    else if d = '.' then
      if rest.head? = some '.' then front brackets (.token .ellipsis) '.' cs 2
      else front brackets (.token .dotDot) '.' cs 1
    else front brackets .stray '.' cs 0

/-- The step on a text that starts with a percent sign: the remainder sign, the pipe, or a user operator. -/
def cutPercent (brackets : List Bracket) (cs : List Char) : Cut :=
  if cs.head? = some '%' then front brackets (.token .modulo) '%' cs 1
  else if cs.head? = some '>' ∧ cs.tail.head? = some '%' then front brackets (.token .magrittrPipe) '%' cs 2
  else match lengthTo? '%' cs with
    | some n => front brackets (.token .percentOperator) '%' cs (n + 1)
    | none => front brackets .stray '%' cs 0

/-- The step that takes an opening bracket, or the two brackets in front of the name of a list type. -/
def cutOpen (brackets : List Bracket) (cs : List Char) : Cut :=
  if cs.head? = some '[' then front (.double :: brackets) (.token .doubleLeftBracket) '[' cs 1
  else if cs.head? = some ']' then front brackets (.token .listMark) '[' cs 1
  else front (.single :: brackets) (.token .leftBracket) '[' cs 0

/-- The step that takes one closing bracket, or two where `[[` is the innermost open bracket. -/
def cutClose (brackets : List Bracket) (cs : List Char) : Cut :=
  if brackets.head? = some .double ∧ cs.head? = some ']' then
    front brackets.tail (.token .doubleRightBracket) ']' cs 1
  else front brackets.tail (.token .rightBracket) ']' cs 0

def cutComment (brackets : List Bracket) (cs : List Char) : Cut :=
  front brackets (.token (if cs.head? = some '\'' then .roxygenComment else .comment)) '#' cs
    (cs.takeWhile (· != '\n')).length

def cutSign (brackets : List Bracket) (c : Char) (cs : List Char) : Cut :=
  match sign? c cs with
  | some (kind, more) => front brackets (.token kind) c cs more
  | none => front brackets (if c = ' ' ∨ c = '\t' ∨ c = '\r' then .blank else .stray) c cs 0

/-- The first step on the text of a character and what follows it. -/
def cut (brackets : List Bracket) (c : Char) (cs : List Char) : Cut :=
  if c = '"' ∨ c = '\'' then cutString brackets c cs
  else if c = '\x60' then cutBacktick brackets cs
  else if c.isDigit then cutNumber brackets c cs
  else if c = '.' then cutDot brackets cs
  else if Text.isWordStart c then cutWord brackets c cs
  else if c = '%' then cutPercent brackets cs
  else if c = '[' then cutOpen brackets cs
  else if c = ']' then cutClose brackets cs
  else if c = '#' then cutComment brackets cs
  else cutSign brackets c cs

/-- What holds of every kind of step holds of the first step. -/
@[elab_as_elim]
theorem cut_cases {motive : Cut → Prop} (brackets : List Bracket) (c : Char) (cs : List Char)
    (string : c = '"' ∨ c = '\'' → motive (cutString brackets c cs))
    (backtick : c = '\x60' → motive (cutBacktick brackets cs))
    (number : c.isDigit = true → motive (cutNumber brackets c cs))
    (dot : c = '.' → motive (cutDot brackets cs))
    (word : Text.isWordStart c = true → motive (cutWord brackets c cs))
    (percent : c = '%' → motive (cutPercent brackets cs))
    (opening : c = '[' → motive (cutOpen brackets cs))
    (closing : c = ']' → motive (cutClose brackets cs))
    (comment : c = '#' → motive (cutComment brackets cs))
    (sign : motive (cutSign brackets c cs)) : motive (cut brackets c cs) :=
  iteInduction string fun _ => iteInduction backtick fun _ => iteInduction number fun _ => iteInduction dot fun _ =>
    iteInduction word fun _ => iteInduction percent fun _ => iteInduction opening fun _ => iteInduction closing fun _ =>
      iteInduction comment fun _ => sign

/-! ## What a step keeps -/

def runs (lexemes : List Lexeme) : List Char :=
  lexemes.flatMap Lexeme.run

/-- A step takes at least one character and loses none. -/
structure Sound (step : Cut) (c : Char) (cs : List Char) : Prop where
  runs_append : runs step.lexemes ++ step.rest = c :: cs
  rest_le : step.rest.length ≤ cs.length

theorem sound_front (brackets : List Bracket) (role : LexemeRole) (c : Char) (cs : List Char) (more : Nat) :
    Sound (front brackets role c cs more) c cs :=
  ⟨by simp [front, runs], by simp [front]⟩

theorem sound_cutString (brackets : List Bracket) (quote : Char) (cs : List Char) :
    Sound (cutString brackets quote cs) quote cs := by
  have hsplit := List.take_append_drop (stringLength quote cs) cs
  unfold cutString
  dsimp only
  split
  · rename_i h
    rw [h, List.append_nil] at hsplit
    exact ⟨by simp [runs, hsplit], by simp⟩
  · rename_i c rest h
    have hlen := congrArg List.length h
    rw [List.length_drop, List.length_cons] at hlen
    rw [h] at hsplit
    exact ⟨by simp [runs, hsplit], by simp; omega⟩

theorem sound_cut (brackets : List Bracket) (c : Char) (cs : List Char) : Sound (cut brackets c cs) c cs := by
  refine cut_cases brackets c cs (fun _ => sound_cutString brackets c cs) ?_ (fun _ => sound_front ..) ?_
    (fun _ => sound_front ..) ?_ ?_ ?_ ?_ ?_
  · rintro rfl; unfold cutBacktick; split <;> exact sound_front ..
  · rintro rfl; unfold cutDot cutWord; repeat' split
    all_goals exact sound_front ..
  · rintro rfl; unfold cutPercent; repeat' split
    all_goals exact sound_front ..
  · rintro rfl; unfold cutOpen; repeat' split
    all_goals exact sound_front ..
  · rintro rfl; unfold cutClose; split <;> exact sound_front ..
  · rintro rfl; exact sound_front ..
  · unfold cutSign; split <;> exact sound_front ..

/-! ## The whole text -/

/-- The lexemes of a text in which some brackets are already open. -/
def ofTextFrom (brackets : List Bracket) (text : List Char) : List Lexeme :=
  match text with
  | [] => []
  | c :: cs =>
    let step := cut brackets c cs
    step.lexemes ++ ofTextFrom step.brackets step.rest
termination_by text.length
decreasing_by exact Nat.lt_succ_of_le (sound_cut brackets c cs).rest_le

def ofText (text : String) : List Lexeme :=
  ofTextFrom [] text.toList

theorem ofTextFrom_nil (brackets : List Bracket) : ofTextFrom brackets [] = [] := by
  rw [ofTextFrom]

theorem ofTextFrom_cons (brackets : List Bracket) (c : Char) (cs : List Char) :
    ofTextFrom brackets (c :: cs) =
      (cut brackets c cs).lexemes ++ ofTextFrom (cut brackets c cs).brackets (cut brackets c cs).rest := by
  rw [ofTextFrom]

/-- The lexemes of a text, laid end to end, are the text. -/
theorem runs_ofTextFrom (brackets : List Bracket) (text : List Char) : runs (ofTextFrom brackets text) = text := by
  fun_induction ofTextFrom brackets text with
  | case1 => rfl
  | case2 brackets c cs step ih =>
    rw [runs, List.flatMap_append, ← runs, ← runs, ih]
    exact (sound_cut brackets c cs).runs_append

end Lexeme
end UnionScript
