import UnionScript.Proofs.Copying
import UnionScript.Proofs.Printing
import UnionScript.Grammar.Level
/-!
# Writing — the texts of plain values

A plain value is written as words that can be told from it (`Expression.words`), if it holds names, numbers and user
operators that can be written down again.  Strings are put between double quotes, whatever they were read from: the text
of a value says its words exactly if every string in it may stand there (`Expression.isQuotable`), and otherwise another
string is seen in the place of one of them (`Prints`).
-/
namespace UnionScript

open Lexeme

/-! ## Quoted strings -/

namespace Lexeme

/-- Whether a text may stand between double quotes: it holds none that is not escaped, and no escape at its end. -/
def isQuotable : List Char → Bool
  | [] => true
  | ['\\'] => false
  | '\\' :: _ :: cs => isQuotable cs
  | c :: cs => c != '"' && isQuotable cs

/-- **A text between double quotes is the content of a string exactly if it may stand there.** -/
theorem stringLength_eq_iff (cs rest : List Char) :
    stringLength '"' (cs ++ '"' :: rest) = cs.length ↔ isQuotable cs = true := by
  fun_induction isQuotable cs with
  | case1 => simp [stringLength]
  | case2 => simp [stringLength]
  | case3 d cs ih => simpa [stringLength] using ih
  | case4 c cs hend hescape ih =>
    have hc : c ≠ '\\' := by
      rintro rfl
      cases cs with
      | nil => exact hend rfl rfl
      | cons d ds => exact hescape d ds rfl rfl
    have hstep : stringLength '"' (c :: (cs ++ '"' :: rest)) =
        if c == '"' then 0 else stringLength '"' (cs ++ '"' :: rest) + 1 := by
      rw [stringLength]
      · exact fun h _ => hc h
      · exact fun _ _ h _ => hc h
    by_cases hquote : c = '"'
    · subst hquote
      simp [hstep]
    · simp [hstep, hquote, ih]

theorem stringLength_le (quote : Char) (cs : List Char) : stringLength quote cs ≤ cs.length := by
  fun_induction stringLength quote cs with
  | case1 => exact Nat.le_refl 0
  | case2 => exact Nat.le_refl 1
  | case3 _ cs ih => exact Nat.add_le_add_right ih 2
  | case4 => exact Nat.zero_le _
  | case5 c cs _ _ _ ih => exact Nat.succ_le_succ ih

/-! ## Printing -/

/-- Lexemes in which the words of a text are seen, up to another string in the place of one of theirs. -/
def Breaks (found : List (LexemeRole × String)) (words : List Word) : Prop :=
  ∃ before lost after other more, words = before ++ (.string, lost) :: after ∧ other ≠ lost ∧
    found = (before ++ [(.string, other)]).map sight ++ more

/-- A text of which some words are seen, and nothing else, in front of texts of a kind; or, where it is not as it should
be, another string in the place of one of theirs. -/
def Prints (front : List Char → Prop) (good : Bool) (text : List Char) (words : List Word) : Prop :=
  ∀ brackets rest, front rest →
    (good = true → seen (ofTextFrom brackets (text ++ rest)) = words.map sight ++ seen (ofTextFrom brackets rest)) ∧
      (good = false → Breaks (seen (ofTextFrom brackets (text ++ rest))) words)

theorem Spells.prints {text : List Char} {words : List Word} (h : Spells text words) :
    Prints Delimits true text words :=
  fun brackets rest hrest => ⟨fun _ => h brackets rest hrest, fun e => absurd e.symm Bool.false_ne_true⟩

theorem Marks.prints {text : List Char} {words : List Word} (h : Marks text words) {front : List Char → Prop} :
    Prints front true text words :=
  fun brackets rest _ => ⟨fun _ => h brackets rest, fun e => absurd e.symm Bool.false_ne_true⟩

/-- What is printed one behind the other is as it should be if both are. -/
theorem Prints.append {front front' : List Char → Prop} {good good' : Bool} {text text' : List Char}
    {words words' : List Word} (h : Prints front good text words) (h' : Prints front' good' text' words')
    (hfront : ∀ rest, front' rest → front (text' ++ rest)) :
    Prints front' (good && good') (text ++ text') (words ++ words') := by
  intro brackets rest hrest
  obtain ⟨hgood, hbad⟩ := h brackets (text' ++ rest) (hfront rest hrest)
  obtain ⟨hgood', hbad'⟩ := h' brackets rest hrest
  rw [List.append_assoc, List.map_append]
  cases good with
  | false =>
    refine ⟨nofun, fun _ => ?_⟩
    obtain ⟨before, lost, after, other, more, rfl, hne, hfound⟩ := hbad rfl
    exact ⟨before, lost, after ++ words', other, more, by rw [List.append_assoc, List.cons_append], hne, hfound⟩
  | true =>
    rw [hgood rfl]
    refine ⟨fun e => by rw [hgood' e, List.append_assoc], fun e => ?_⟩
    obtain ⟨before, lost, after, other, more, rfl, hne, hfound⟩ := hbad' e
    refine ⟨words ++ before, lost, after, other, more, by rw [List.append_assoc], hne, ?_⟩
    simp only [hfound, List.map_append, List.append_assoc]

/-- **A string is printed as it should be exactly if it may stand between double quotes.** -/
theorem prints_string (content : String) (front : List Char → Prop) :
    Prints front (isQuotable content.toList) ("\"" ++ content ++ "\"").toList
      [(.quote, "\""), (.string, content), (.quote, "\"")] := by
  intro brackets rest _
  let cs := content.toList
  have htext : ("\"" ++ content ++ "\"").toList ++ rest = '"' :: (cs ++ '"' :: rest) := by
    simp [cs]
  have hcut : cut brackets '"' (cs ++ '"' :: rest) = cutString brackets '"' (cs ++ '"' :: rest) := rfl
  have hwords : [((.quote, "\"") : Word), (.string, content), (.quote, "\"")].map sight =
      [(.token .quote, "\""), (.token .string, String.ofList cs), (.token .quote, "\"")] := by
    rw [String.ofList_toList]
    rfl
  rw [htext, seen_cons, hcut]
  refine ⟨fun hquotable => ?_, fun hbad => ?_⟩
  · have hstep : cutString brackets '"' (cs ++ '"' :: rest) =
        ⟨[⟨.token .quote, ['"']⟩, ⟨.token .string, cs⟩, ⟨.token .quote, ['"']⟩], rest, brackets⟩ := by
      unfold cutString
      dsimp only
      rw [(stringLength_eq_iff cs rest).2 hquotable, List.take_left, List.drop_left]
      rfl
    rw [hstep, hwords]
    rfl
  · let n := stringLength '"' (cs ++ '"' :: rest)
    let other := String.ofList ((cs ++ '"' :: rest).take n)
    have hne : other ≠ content := by
      intro heq
      have htake : (cs ++ '"' :: rest).take n = cs := by
        rw [← String.toList_ofList (l := (cs ++ '"' :: rest).take n)]
        exact congrArg String.toList heq
      have hlength : n = cs.length := by
        rw [← congrArg List.length htake, List.length_take_of_le (stringLength_le _ _)]
      exact absurd (((stringLength_eq_iff cs rest).1 hlength).symm.trans hbad) nofun
    have hseen : ∃ more, seen (cutString brackets '"' (cs ++ '"' :: rest)).lexemes =
        [(.token .quote, "\""), (.token .string, other)] ++ more := by
      unfold cutString
      dsimp only
      split
      · exact ⟨[], rfl⟩
      · exact ⟨_, rfl⟩
    obtain ⟨more, hmore⟩ := hseen
    rw [hmore]
    exact ⟨[(.quote, "\"")], content, [(.quote, "\"")], other, _, rfl, hne, List.append_assoc _ _ _⟩

/-! ### Signs -/

/-- A text that goes on with no sign in front of it. -/
def Opens (rest : List Char) : Prop := ∃ c cs, rest = c :: cs ∧ c ≠ ':' ∧ c ≠ '='

theorem Opens.append {cs : List Char} (rest : List Char) : Opens cs → Opens (cs ++ rest)
  | ⟨c, ds, hcs, hc⟩ => ⟨c, ds ++ rest, by rw [hcs, List.cons_append], hc⟩

/-- A sign of one character that a sign of two starts with stands alone in front of what does not go on with it. -/
theorem prints_sign {c : Char} {kind : TokenKind} {sign : String} (hsign : sign.toList = [c])
    (hword : ∀ ls, seen (⟨.token kind, [c]⟩ :: ls) = (.token kind, sign) :: seen ls)
    (hcut : ∀ brackets cs, cut brackets c cs = cutSign brackets c cs)
    (h : ∀ d cs, d ≠ ':' → d ≠ '=' → sign? c (d :: cs) = some (kind, 0)) :
    Prints Opens true sign.toList [(kind, sign)] := by
  refine fun brackets rest hrest => ⟨fun _ => ?_, fun e => absurd e.symm Bool.false_ne_true⟩
  obtain ⟨d, cs, rfl, hcolon, hequal⟩ := hrest
  rw [hsign, List.singleton_append, seen_cons, hcut, cutSign, h d cs hcolon hequal, ← seen_append]
  exact hword _

/-- A sign with blanks around it. -/
theorem marks_apart {kind : TokenKind} {sign : String} (h : ∀ brackets rest,
    seen (ofTextFrom brackets (sign.toList ++ ' ' :: rest)) = (.token kind, sign) :: seen (ofTextFrom brackets (' ' :: rest))) :
    Marks (" " ++ sign ++ " ").toList [(kind, sign)] := by
  intro brackets rest
  have htext : (" " ++ sign ++ " ").toList ++ rest = ' ' :: (sign.toList ++ ' ' :: rest) := by simp
  have hblank : seen (ofTextFrom brackets (' ' :: (sign.toList ++ ' ' :: rest))) =
      seen (ofTextFrom brackets (sign.toList ++ ' ' :: rest)) := marks_blank brackets _
  rw [htext, hblank, h]
  exact congrArg (_ :: ·) (marks_blank brackets rest)

end Lexeme

/-! ## Operators -/

/-- The kind of token that an operator in front of an operand is. -/
def UnaryOperator.kind : UnaryOperator → TokenKind
  | negative => .minus
  | positive => .plus
  | not => .bang
  | formula => .tilde

/-- The kind of token that an operator between operands is. -/
def BinaryOperator.kind : BinaryOperator → TokenKind
  | add => .plus
  | subtract => .minus
  | multiply => .star
  | divide => .slash
  | power => .caret
  | modulo => .modulo
  | custom _ => .percentOperator
  | equal => .doubleEqual
  | notEqual => .bangEqual
  | less => .less
  | lessEqual => .lessEqual
  | greater => .greater
  | greaterEqual => .greaterEqual
  | and => .and
  | andAnd => .andAnd
  | or => .or
  | orOr => .orOr
  | range => .dotDot
  | pipe => .pipe
  | magrittrPipe => .magrittrPipe
  | dollar => .dollar
  | slot => .atSign
  | namespaceAccess => .namespaceAccess
  | internalAccess => .internalAccess
  | formula => .tilde
  | assign => .equal
  | leftAssign => .leftAssign
  | increment => .plusEqual
  | decrement => .minusEqual

theorem UnaryOperator.prints (operator : UnaryOperator) :
    Prints Opens true operator.sign.toList [(operator.kind, operator.sign)] := by
  have hnext {d : Char} (hd : d ≠ '=') : ¬some d = some '=' := fun e => hd (Option.some.inj e)
  cases operator with
  | negative => exact prints_sign rfl (fun _ => rfl) (fun _ _ => rfl) fun _ _ _ hd => congrArg some (if_neg (hnext hd))
  | positive => exact prints_sign rfl (fun _ => rfl) (fun _ _ => rfl) fun _ _ _ hd => congrArg some (if_neg (hnext hd))
  | not => exact prints_sign rfl (fun _ => rfl) (fun _ _ => rfl) fun _ _ _ hd => congrArg some (if_neg (hnext hd))
  | formula => exact prints_sign rfl (fun _ => rfl) (fun _ _ => rfl) fun _ _ _ _ => rfl

/-- An operator that can be written down again: any but a user operator can. -/
def BinaryOperator.Writable : BinaryOperator → Prop
  | custom sign => IsWord .percentOperator sign
  | _ => True

theorem BinaryOperator.prints_apart {operator : BinaryOperator} (hapart : operator.isAccess = false)
    (h : ∀ brackets rest, seen (ofTextFrom brackets (operator.sign.toList ++ ' ' :: rest)) =
      (.token operator.kind, operator.sign) :: seen (ofTextFrom brackets (' ' :: rest))) :
    Prints Opens true operator.infixed.toList [(operator.kind, operator.sign)] := by
  rw [infixed, hapart]
  exact (marks_apart h).prints

theorem BinaryOperator.prints_infixed {operator : BinaryOperator} (h : operator.Writable) :
    Prints Opens true operator.infixed.toList [(operator.kind, operator.sign)] := by
  cases operator with
  | custom sign =>
    have htext : (BinaryOperator.custom sign).infixed.toList = [' '] ++ (sign.toList ++ [' ']) := by
      show (" " ++ sign ++ " ").toList = _
      simp
    have hblank : Prints Opens true [' '] [] := marks_blank.prints
    have hfirst : Prints (fun _ => True) true [' '] [] := marks_blank.prints
    rw [htext]
    exact hfirst.append (h.spells.prints.append hblank fun rest _ => delimits_cons (by decide) rest) fun _ _ => trivial
  | dollar => exact (show Marks ['$'] [(.dollar, "$")] from fun brackets rest => seen_cons brackets _ _).prints
  | slot => exact (show Marks ['@'] [(.atSign, "@")] from fun brackets rest => seen_cons brackets _ _).prints
  | namespaceAccess =>
    refine fun brackets rest hrest => ⟨fun _ => ?_, fun e => absurd e.symm Bool.false_ne_true⟩
    obtain ⟨c, cs, rfl, hc, -⟩ := hrest
    have hsign : sign? ':' (':' :: c :: cs) = some (.namespaceAccess, 1) :=
      congrArg some (if_neg fun e => hc (Option.some.inj e))
    have hcut : cut brackets ':' (':' :: c :: cs) = front brackets (.token .namespaceAccess) ':' (':' :: c :: cs) 1 := by
      show cutSign brackets ':' (':' :: c :: cs) = _
      rw [cutSign, hsign]
    show seen (ofTextFrom brackets (':' :: ':' :: c :: cs)) = _
    rw [seen_cons, hcut]
    rfl
  | internalAccess =>
    exact (show Marks [':', ':', ':'] [(.internalAccess, ":::")] from fun brackets rest => seen_cons brackets _ _).prints
  | _ => exact prints_apart rfl fun brackets _ => seen_cons brackets _ _

/-! ## Literals -/

/-- The kind of token that a constant is. -/
def Constant.kind : Constant → TokenKind
  | na => .na
  | naCharacter => .naCharacter
  | naInteger => .naInteger
  | naReal => .naReal
  | naComplex => .naComplex
  | inf => .inf
  | nan => .nan
  | ellipsis => .ellipsis

namespace Literal

/-- The words of a literal; a string is between double quotes. -/
def words : Literal → List Word
  | integer text => [(.integer, text)]
  | float text => [(.float, text)]
  | string content => [(.quote, "\""), (.string, content), (.quote, "\"")]
  | boolean true => [(.boolean, "TRUE")]
  | boolean false => [(.boolean, "FALSE")]
  | null => [(.null, "NULL")]
  | constant c => [(c.kind, c.spelling)]

/-- A literal that can be written down again, strings apart: if it is a number, then by its digits. -/
def Writable : Literal → Prop
  | integer text => IsWord .integer text ∧ Numeral.isNumeral text = true
  | float text => IsWord .float text ∧ Numeral.isNumeral text = true
  | _ => True

/-- Whether a literal may be written between double quotes if it is a string. -/
def isQuotable : Literal → Bool
  | string content => Lexeme.isQuotable content.toList
  | _ => true

end Literal

theorem Lexeme.spells_word {word : String} {c : Char} {cs : List Char} (hword : word.toList = c :: cs)
    (hlength : cs.take (wordLength cs) = cs) (hcut : ∀ brackets rest, cut brackets c rest = cutWord brackets c rest)
    (hkind : wordKind word ≠ .comment ∧ wordKind word ≠ .roxygenComment) :
    Spells word.toList [(wordKind word, word)] := by
  have hofList : String.ofList (c :: cs) = word := by rw [← hword, String.ofList_toList]
  intro brackets rest hrest
  have hagain := cutWord_again hrest brackets c cs
  rw [hlength, hofList] at hagain
  rw [hword, List.cons_append, seen_cons, hcut, hagain, front, List.take_left, List.drop_left, seen_token,
    text_token hkind.1 hkind.2, hofList]
  rfl

theorem Literal.prints {value : Literal} (h : value.Writable) :
    Prints Delimits value.isQuotable value.render.toList value.words := by
  cases value with
  | integer text => exact h.1.spells.prints
  | float text => exact h.1.spells.prints
  | string content => exact prints_string content Delimits
  | boolean value =>
    cases value with
    | true => exact (spells_word rfl (by decide) (fun _ _ => rfl) (by decide)).prints
    | false => exact (spells_word rfl (by decide) (fun _ _ => rfl) (by decide)).prints
  | null => exact (spells_word rfl (by decide) (fun _ _ => rfl) (by decide)).prints
  | constant c =>
    cases c with
    | ellipsis =>
      exact (show Marks ['.', '.', '.'] [(.ellipsis, "...")] from fun brackets rest => seen_cons brackets _ _).prints
    | _ => exact (spells_word rfl (by decide) (fun _ _ => rfl) (by decide)).prints

theorem Literal.opens {value : Literal} (h : value.Writable) : Opens value.render.toList := by
  have hsign {text : String} {c : Char} {cs : List Char} (htext : text.toList = c :: cs) (hc : c ≠ ':' ∧ c ≠ '=') :
      Opens text.toList := ⟨c, cs, htext, hc⟩
  cases value with
  | integer text => exact h.1.first
  | float text => exact h.1.first
  | string content =>
    show Opens ("\"" ++ content ++ "\"").toList
    rw [String.toList_append, String.toList_append]
    exact ⟨'"', _, rfl, by decide⟩
  | boolean value => cases value <;> exact hsign rfl (by decide)
  | null => exact hsign rfl (by decide)
  | constant c => cases c <;> exact hsign rfl (by decide)

/-- An identifier does not start like a sign of equality. -/
theorem Lexeme.IsName.opens {name : String} (h : IsName name) : Opens name.toList := by
  obtain ⟨c, cs, hname, hcolon⟩ := h.first
  refine ⟨c, cs, hname, hcolon, ?_⟩
  rintro rfl
  have hseen := h.spells [] [] delimits_nil
  rw [hname, List.append_nil, seen_cons] at hseen
  obtain ⟨⟨kind, more⟩, hsign⟩ : ∃ sign, sign? '=' cs = some sign := ⟨_, rfl⟩
  have hstep : cut [] '=' cs = front [] (.token kind) '=' cs more := by
    show cutSign [] '=' cs = _
    rw [cutSign, hsign]
  rw [hstep, front, seen_token] at hseen
  exact (sign?_ne hsign).1 (LexemeRole.token.inj (congrArg Prod.fst (List.cons.inj hseen).1))

/-! ## Values -/

/-- The words in front of the value of an argument. -/
def nameWords : Option (String × Span) → List Word
  | some (name, _) => [(.identifier, name), (.equal, "=")]
  | none => []

mutual

/-- The words of a plain value. -/
def Expression.words : Expression → List Word
  | .identifier _ name => [(.identifier, name)]
  | .literal _ value => value.words
  | .vector _ elements =>
    (.leftParen, "(") :: (List.intercalate [(.comma, ",")] (wordsOfAll elements) ++ [(.rightParen, ")")])
  | .unary _ operator operand => (operator.kind, operator.sign) :: operand.words
  | .binary _ operator left right => left.words ++ (operator.kind, operator.sign) :: right.words
  | .call _ callee arguments => callee.words ++
    (.leftParen, "(") :: (List.intercalate [(.comma, ",")] (wordsOfArguments arguments) ++ [(.rightParen, ")")])
  | _ => []

def wordsOfAll : List Expression → List (List Word)
  | [] => []
  | e :: rest => e.words :: wordsOfAll rest

def wordsOfArguments : List Argument → List (List Word)
  | [] => []
  | ⟨name, value⟩ :: rest => (nameWords name ++ value.words) :: wordsOfArguments rest

end

mutual

/-- Whether every string in a plain value may stand between double quotes. -/
def Expression.isQuotable : Expression → Bool
  | .literal _ value => value.isQuotable
  | .vector _ elements => quotableAll elements
  | .unary _ _ operand => operand.isQuotable
  | .binary _ _ left right => left.isQuotable && right.isQuotable
  | .call _ callee arguments => callee.isQuotable && quotableArguments arguments
  | _ => true

def quotableAll : List Expression → Bool
  | [] => true
  | e :: rest => e.isQuotable && quotableAll rest

def quotableArguments : List Argument → Bool
  | [] => true
  | ⟨_, value⟩ :: rest => value.isQuotable && quotableArguments rest

end

/-- Whether an expression is what may stand behind an access operator. -/
def Expression.IsTarget : Expression → Prop
  | .identifier _ name => IsName name
  | .literal _ (.string _) => True
  | _ => False

/-- Whether an expression that is read at a floor ends in front of what follows it. -/
def Level.Stops (floor : Level) (next : Option Continuation) : Prop := ∀ c ∈ next, c.level.isTighter floor = false

mutual

/-- Whether a plain value is grouped the way its words are read at a floor, with some room for what it holds, where a
continuation or none follows; what it is made of can be written down again, strings apart. -/
def Expression.Grouped : Expression → Nat → Level → Option Continuation → Prop
  | .identifier _ name, _, _, _ => IsName name
  | .literal _ value, _, _, _ => value.Writable
  | .vector _ elements, room, _, _ => GroupedAll elements room
  | .unary _ _ operand, room, _, next => ∃ r, room = r + 1 ∧ operand.Grouped r .unary next ∧ Level.unary.Stops next
  | .binary _ operator left right, room, floor, next =>
    operator.isAssignment = false ∧ operator.Writable ∧ operator.level.isTighter floor = true ∧
      left.Grouped room floor (some (.operator operator)) ∧
      (operator.isAccess = true ∧ right.IsTarget ∨ operator.isAccess = false ∧ ∃ r, room = r + 1 ∧
        right.Grouped r operator.level.rightFloor next ∧ operator.level.rightFloor.Stops next)
  | .call _ callee arguments, room, floor, _ =>
    Continuation.call.level.isTighter floor = true ∧ callee.Grouped room floor (some .call) ∧
      GroupedArguments arguments room
  | _, _, _, _ => False

def GroupedAll : List Expression → Nat → Prop
  | [], _ => True
  | e :: rest, room => (∃ r, room = r + 1 ∧ e.Grouped r .lowest none) ∧ GroupedAll rest room

def GroupedArguments : List Argument → Nat → Prop
  | [], _ => True
  | ⟨name, value⟩ :: rest, room =>
    (∀ n ∈ name, IsName n.1) ∧ (∃ r, room = r + 1 ∧ value.Grouped r .lowest none) ∧ GroupedArguments rest room

end

/-! ### Elements and arguments -/

/-- An element or the value of an argument: a value of its own, one level deeper. -/
def Expression.StandsAlone (e : Expression) (room : Nat) : Prop := ∃ r, room = r + 1 ∧ e.Grouped r .lowest none

/-- The words of an argument. -/
def Argument.words (a : Argument) : List Word := nameWords a.name ++ a.value.words

/-- An argument whose name can be written down again, as can its value. -/
def Argument.StandsAlone (a : Argument) (room : Nat) : Prop :=
  (∀ n ∈ a.name, IsName n.1) ∧ a.value.StandsAlone room

theorem wordsOfAll_eq (es : List Expression) : wordsOfAll es = es.map Expression.words := by
  induction es with
  | nil => rfl
  | cons e es ih => exact congrArg (e.words :: ·) ih

theorem wordsOfArguments_eq (as : List Argument) : wordsOfArguments as = as.map Argument.words := by
  induction as with
  | nil => rfl
  | cons a as ih =>
    obtain ⟨name, value⟩ := a
    exact congrArg (Argument.words ⟨name, value⟩ :: ·) ih

theorem groupedAll_iff {room : Nat} {es : List Expression} : GroupedAll es room ↔ ∀ e ∈ es, e.StandsAlone room := by
  induction es with
  | nil => exact iff_of_true trivial (List.forall_mem_nil _)
  | cons e es ih =>
    rw [List.forall_mem_cons, ← ih]
    exact Iff.rfl

theorem groupedArguments_iff {room : Nat} {as : List Argument} :
    GroupedArguments as room ↔ ∀ a ∈ as, a.StandsAlone room := by
  induction as with
  | nil => exact iff_of_true trivial (List.forall_mem_nil _)
  | cons a as ih =>
    obtain ⟨name, value⟩ := a
    rw [List.forall_mem_cons, ← ih]
    exact and_assoc.symm

theorem plainAll_iff {es : List Expression} : plainAll es = true ↔ ∀ e ∈ es, e.isPlain = true := by
  induction es with
  | nil => exact iff_of_true rfl (List.forall_mem_nil _)
  | cons e es ih =>
    rw [List.forall_mem_cons, ← ih]
    exact Bool.and_eq_true_iff

theorem plainArguments_iff {as : List Argument} : plainArguments as = true ↔ ∀ a ∈ as, a.value.isPlain = true := by
  induction as with
  | nil => exact iff_of_true rfl (List.forall_mem_nil _)
  | cons a as ih =>
    obtain ⟨name, value⟩ := a
    rw [List.forall_mem_cons, ← ih]
    exact Bool.and_eq_true_iff

/-! ### Their texts -/

theorem Expression.IsTarget.grouped {e : Expression} (h : e.IsTarget) (room : Nat) (floor : Level)
    (next : Option Continuation) : e.Grouped room floor next := by
  match e, h with
  | .identifier _ name, h => exact h
  | .literal _ (.string _), _ => exact trivial

theorem opens_cons {text : String} {c : Char} (hc : c ≠ ':' ∧ c ≠ '=') {cs : List Char} (htext : text.toList = c :: cs)
    (more : String) : Opens (text ++ more).toList := by
  rw [String.toList_append, htext]
  exact ⟨c, cs ++ more.toList, rfl, hc⟩

/-- The text of a plain value starts like no rest of a sign. -/
theorem Expression.Grouped.opens : ∀ {e : Expression} {room : Nat} {floor : Level} {next : Option Continuation},
    e.Grouped room floor next → Opens e.render.toList
  | .identifier _ name, _, _, _, h => IsName.opens h
  | .literal _ value, _, _, _, h => Literal.opens h
  | .vector _ elements, _, _, _, _ => by
    rw [Expression.render, String.append_assoc]
    exact opens_cons (by decide) rfl _
  | .unary _ operator operand, _, _, _, _ => by
    rw [Expression.render]
    cases operator <;> exact opens_cons (by decide) rfl _
  | .binary _ operator left right, _, _, _, h => by
    rw [Expression.render, String.append_assoc, String.toList_append]
    exact (Expression.Grouped.opens h.2.2.2.1).append _
  | .call _ callee arguments, _, _, _, h => by
    rw [Expression.render, String.append_assoc, String.append_assoc, String.toList_append]
    exact (Expression.Grouped.opens h.2.1).append _
  | .conditional .., _, _, _, h | .forLoop .., _, _, _, h | .whileLoop .., _, _, _, h | .repeatLoop .., _, _, _, h
  | .function .., _, _, _, h | .index .., _, _, _, h => False.elim h

theorem BinaryOperator.delimits_infixed (operator : BinaryOperator) (rest : List Char) :
    Delimits (operator.infixed.toList ++ rest) := by
  cases haccess : operator.isAccess with
  | false =>
    rw [infixed, haccess, if_neg Bool.false_ne_true, String.append_assoc, String.toList_append, List.append_assoc]
    exact delimits_cons (by decide) _
  | true =>
    cases operator with
    | dollar | slot | namespaceAccess | internalAccess => exact delimits_cons (by decide) _
    | _ => exact nomatch haccess

theorem marks_leftParen : Marks "(".toList [(.leftParen, "(")] := fun brackets _ => seen_cons brackets _ _

theorem marks_rightParen : Marks ")".toList [(.rightParen, ")")] := fun brackets _ => seen_cons brackets _ _

theorem marks_between : Marks ", ".toList [(.comma, ",")] := marks_comma.behind marks_blank

/-- What is printed between parentheses. -/
theorem prints_parenthesized {good : Bool} {text : String} {words : List Word}
    (h : Prints Delimits good text.toList words) :
    Prints Delimits good ("(" ++ text ++ ")").toList ((.leftParen, "(") :: (words ++ [(.rightParen, ")")])) := by
  have hclose : Prints Delimits true ")".toList [(.rightParen, ")")] := marks_rightParen.prints
  have hopen : Prints (fun _ => True) true "(".toList [(.leftParen, "(")] := marks_leftParen.prints
  have hall := hopen.append (h.append hclose fun rest _ => delimits_cons (by decide) rest) fun _ _ => trivial
  rw [Bool.and_true, Bool.true_and] at hall
  rwa [String.toList_append, String.toList_append, List.append_assoc]

/-- What is printed with a comma in front of it. -/
theorem prints_listed {good good' : Bool} {text more : String} {words others : List Word}
    (h : Prints Delimits good text.toList words) (h' : Prints Delimits good' more.toList others) :
    Prints Delimits (good && good') (text ++ ", " ++ more).toList (words ++ ((.comma, ",") :: others)) := by
  have hcomma : Prints (fun _ => True) true ", ".toList [(.comma, ",")] := marks_between.prints
  have hmore := hcomma.append h' fun _ _ => trivial
  rw [Bool.true_and] at hmore
  rw [String.append_assoc, String.toList_append, String.toList_append]
  refine h.append hmore fun rest _ => ?_
  rw [List.append_assoc]
  exact delimits_cons (by decide) _

theorem prints_nothing : Prints Delimits true [] [] := spells_nil.prints

/-- The name of an argument is printed in front of its value. -/
theorem prints_named {good : Bool} {name : Option (String × Span)} (hname : ∀ n ∈ name, IsName n.1) {text : String}
    {words : List Word} (h : Prints Delimits good text.toList words) :
    Prints Delimits good (renderName name ++ text).toList (nameWords name ++ words) := by
  cases name with
  | none =>
    rw [renderName, String.empty_append]
    exact h
  | some named =>
    have hequal : Marks (" " ++ "=" ++ " ").toList [(.equal, "=")] := marks_apart fun brackets _ => seen_cons brackets _ _
    have hsign : Prints (fun _ => True) true " = ".toList [(.equal, "=")] := hequal.prints
    have hall := (hname named rfl).spells.prints.append (hsign.append h fun _ _ => trivial) fun rest _ =>
      delimits_cons (by decide) _
    rw [Bool.true_and, Bool.true_and] at hall
    rw [renderName, String.append_assoc, String.toList_append, String.toList_append]
    exact hall

mutual

/-- **A plain value is printed as its words**, exactly if every string in it may stand between double quotes. -/
theorem Expression.Grouped.prints : ∀ {e : Expression} {room : Nat} {floor : Level} {next : Option Continuation},
    e.Grouped room floor next → Prints Delimits e.isQuotable e.render.toList e.words
  | .identifier _ _, _, _, _, h => h.spells.prints
  | .literal _ _, _, _, _, h => Literal.prints h
  | .vector _ elements, _, _, _, h => by
    rw [Expression.isQuotable, Expression.render, Expression.words]
    have helements : GroupedAll elements _ := h
    exact prints_parenthesized (printsAll helements)
  | .unary _ operator operand, _, _, _, h => by
    obtain ⟨_, -, hoperand, -⟩ := h
    have hall := operator.prints.append hoperand.prints fun rest _ => hoperand.opens.append rest
    rw [Bool.true_and] at hall
    rw [Expression.isQuotable, Expression.render, Expression.words, String.toList_append]
    exact hall
  | .binary _ operator left right, _, _, _, h => by
    obtain ⟨-, hwritable, -, hleft, hright⟩ := h
    obtain ⟨_, _, _, hright⟩ : ∃ room floor next, right.Grouped room floor next := by
      rcases hright with ⟨-, htarget⟩ | ⟨-, _, -, hright, -⟩
      · exact ⟨0, .lowest, none, htarget.grouped 0 .lowest none⟩
      · exact ⟨_, _, _, hright⟩
    have hbehind := (BinaryOperator.prints_infixed hwritable).append hright.prints fun rest _ => hright.opens.append rest
    have hall := hleft.prints.append hbehind fun rest _ => by
      rw [List.append_assoc]
      exact operator.delimits_infixed _
    rw [Bool.true_and] at hall
    rw [Expression.isQuotable, Expression.render, Expression.words, String.append_assoc, String.toList_append,
      String.toList_append]
    exact hall
  | .call _ callee arguments, _, _, _, h => by
    obtain ⟨-, hcallee, harguments⟩ := h
    have hbehind := prints_parenthesized (printsArguments harguments)
    rw [Expression.isQuotable, Expression.render, Expression.words, String.append_assoc, String.append_assoc,
      String.toList_append, ← String.append_assoc]
    refine hcallee.prints.append hbehind fun rest _ => ?_
    rw [String.append_assoc, String.toList_append, List.append_assoc]
    exact delimits_cons (by decide) _
  | .conditional .., _, _, _, h | .forLoop .., _, _, _, h | .whileLoop .., _, _, _, h | .repeatLoop .., _, _, _, h
  | .function .., _, _, _, h | .index .., _, _, _, h => False.elim h

theorem printsAll : ∀ {es : List Expression} {room : Nat}, GroupedAll es room →
    Prints Delimits (quotableAll es) (renderAll es).toList (List.intercalate [(.comma, ",")] (wordsOfAll es))
  | [], _, _ => prints_nothing
  | [e], _, h => by
    obtain ⟨⟨_, -, he⟩, -⟩ := h
    rw [quotableAll, quotableAll, Bool.and_true, wordsOfAll, wordsOfAll, List.intercalate_singleton]
    exact he.prints
  | e :: e' :: es, _, h => by
    obtain ⟨⟨_, -, he⟩, hrest⟩ := h
    exact prints_listed he.prints (printsAll hrest)

theorem printsArguments : ∀ {as : List Argument} {room : Nat}, GroupedArguments as room →
    Prints Delimits (quotableArguments as) (renderArguments as).toList
      (List.intercalate [(.comma, ",")] (wordsOfArguments as))
  | [], _, _ => prints_nothing
  | [⟨name, value⟩], _, h => by
    obtain ⟨hname, ⟨_, -, hvalue⟩, -⟩ := h
    rw [quotableArguments, quotableArguments, Bool.and_true, wordsOfArguments, wordsOfArguments,
      List.intercalate_singleton]
    exact prints_named hname hvalue.prints
  | ⟨name, value⟩ :: ⟨_, _⟩ :: as, _, h => by
    obtain ⟨hname, ⟨_, -, hvalue⟩, hrest⟩ := h
    exact prints_listed (prints_named hname hvalue.prints) (printsArguments hrest)

end

/-! ## Decorators -/

/-- The words of a decorator, without the line end behind it. -/
def Decorator.words (d : Decorator) : List Word :=
  [(.atSign, "@"), (.identifier, d.kind.word)] ++
    (if d.arguments.isEmpty then []
      else (.leftParen, "(") :: (List.intercalate [(.comma, ",")] (wordsOfArguments d.arguments) ++ [(.rightParen, ")")]))

theorem DecoratorKind.spells_word (kind : DecoratorKind) : Spells kind.word.toList [(.identifier, kind.word)] := by
  cases kind <;> exact Lexeme.spells_word rfl (by decide) (fun _ _ => rfl) (by decide)

/-- **A decorator is printed as its words** on a line of its own. -/
theorem Decorator.prints {d : Decorator} {room : Nat} (h : GroupedArguments d.arguments room) :
    Prints (fun _ => True) (quotableArguments d.arguments) (TypeEntry.decoratorLine d).toList
      (d.words ++ [(.newline, "\n")]) := by
  have hat : Prints (fun _ => True) true "@".toList [(.atSign, "@")] :=
    (show Marks ['@'] [(.atSign, "@")] from fun brackets rest => seen_cons brackets _ _).prints
  have hline : Prints (fun _ => True) true "\n".toList [(.newline, "\n")] := marks_newline.prints
  have hkind : Prints Delimits true d.kind.word.toList [(.identifier, d.kind.word)] := d.kind.spells_word.prints
  have hend (rest : List Char) : Delimits ("\n".toList ++ rest) := delimits_cons (by decide) _
  have harguments : Prints Delimits (quotableArguments d.arguments)
      (if d.arguments.isEmpty then "" else "(" ++ renderArguments d.arguments ++ ")").toList
      (if d.arguments.isEmpty then [] else
        (.leftParen, "(") :: (List.intercalate [(.comma, ",")] (wordsOfArguments d.arguments) ++ [(.rightParen, ")")])) := by
    split
    · rename_i hempty
      rw [List.isEmpty_iff.1 hempty]
      exact prints_nothing
    · exact prints_parenthesized (printsArguments h)
  have hhead := hkind.append (harguments.append hline fun rest _ => hend rest) fun rest _ => by
    split
    · exact hend rest
    · simp only [String.toList_append, List.append_assoc]
      exact delimits_cons (by decide) _
  have hall := hat.append hhead fun _ _ => trivial
  simp only [Bool.true_and, Bool.and_true] at hall
  unfold TypeEntry.decoratorLine words
  simp only [String.toList_append, List.append_assoc] at hall ⊢
  exact hall

end UnionScript
