import Mathlib
import UnionScript.Proofs.Climbing
import UnionScript.Proofs.Spacing
/-!
# Applications — what is called and indexed, written without a space

Names are called, indexed, and indexed for one element, with arguments that are such applications again, in any nesting.
Their text holds no space, so closing brackets stand in runs, and a run can be cut in many ways: two brackets are one
sign exactly if `[[` is the innermost bracket that is open.  The text of an application leaves the brackets as they were
(`Application.spells`), whatever is open around it, so every bracket is cut as the one that closes its own opening.  The
words are then read back as the application (`Application.rereads`), if there is room for its arguments.
-/
namespace UnionScript

open Lexeme

/-! ## Forms -/

/-- How something is applied to arguments: it is called, indexed, or indexed for one element. -/
inductive ApplicationForm where
  | call
  | index
  | element
  deriving Repr, DecidableEq

namespace ApplicationForm

def opening : ApplicationForm → Word
  | call => (.leftParen, "(")
  | index => (.leftBracket, "[")
  | element => (.doubleLeftBracket, "[[")

def closing : ApplicationForm → Word
  | call => (.rightParen, ")")
  | index => (.rightBracket, "]")
  | element => (.doubleRightBracket, "]]")

/-- The brackets that are open behind the opening. -/
def push (brackets : List Bracket) : ApplicationForm → List Bracket
  | call => brackets
  | index => .single :: brackets
  | element => .double :: brackets

def continuation : ApplicationForm → Continuation
  | call => .call
  | index => .index false
  | element => .index true

def expression (form : ApplicationForm) (span : Span) (target : Expression) (arguments : List Argument) : Expression :=
  match form with
  | call => .call span target arguments
  | index => .index span target arguments false
  | element => .index span target arguments true

/-- What is missed where neither a comma nor the closing follows an argument. -/
def missed : ApplicationForm → String
  | call => "`,` or `)` in argument list"
  | index => "`,` or `]` in index"
  | element => "`,` or `]]` in index"

/-- The form that a kind of token opens. -/
def opened? : TokenKind → Option ApplicationForm
  | .leftParen => some call
  | .leftBracket => some index
  | .doubleLeftBracket => some element
  | _ => none

/-- The form that a kind of token closes. -/
def closed? : TokenKind → Option ApplicationForm
  | .rightParen => some call
  | .rightBracket => some index
  | .doubleRightBracket => some element
  | _ => none

/-- The forms that are open behind some tokens; none if one of them is closed by what closes another. -/
def openBehind (forms : List ApplicationForm) : List TokenKind → Option (List ApplicationForm)
  | [] => some forms
  | kind :: rest => match opened? kind, closed? kind with
    | some form, _ => openBehind (form :: forms) rest
    | none, some form => if forms.head? = some form then openBehind forms.tail rest else none
    | none, none => openBehind forms rest

end ApplicationForm

/-! ## Trees -/

mutual

/-- A name, or an application to arguments. -/
inductive Application where
  | name (name : String)
  | apply (form : ApplicationForm) (target : Application) (arguments : Applications)

/-- The arguments of an application, of which there is one at least. -/
inductive Applications where
  | one (a : Application)
  | more (a : Application) (rest : Applications)

end

def Applications.toList : Applications → List Application
  | one a => [a]
  | more a rest => a :: rest.toList

mutual

/-- The text of an application, without a space. -/
def Application.text : Application → List Char
  | .name name => name.toList
  | .apply form target arguments =>
    target.text ++ (form.opening.2.toList ++ (arguments.text ++ form.closing.2.toList))

def Applications.text : Applications → List Char
  | .one a => a.text
  | .more a rest => a.text ++ (',' :: rest.text)

end

mutual

def Application.words : Application → List Word
  | .name name => [(.identifier, name)]
  | .apply form target arguments => target.words ++ (form.opening :: (arguments.words ++ [form.closing]))

def Applications.words : Applications → List Word
  | .one a => a.words
  | .more a rest => a.words ++ (.comma, ",") :: rest.words

end

mutual

/-- The names in an application. -/
def Application.names : Application → List String
  | .name name => [name]
  | .apply _ target arguments => target.names ++ arguments.names

def Applications.names : Applications → List String
  | .one a => a.names
  | .more a rest => a.names ++ rest.names

end

mutual

/-- How many expressions are read inside each other where an application is read. -/
def Application.depth : Application → Nat
  | .name _ => 1
  | .apply _ target arguments => max target.depth (arguments.depth + 1)

def Applications.depth : Applications → Nat
  | .one a => a.depth
  | .more a rest => max a.depth rest.depth

end

mutual

/-- The expression that an application stands for, at no place. -/
def Application.expression : Application → Expression
  | .name name => .identifier .nowhere name
  | .apply form target arguments => form.expression .nowhere target.expression arguments.arguments

def Applications.arguments : Applications → List Argument
  | .one a => [⟨none, a.expression⟩]
  | .more a rest => ⟨none, a.expression⟩ :: rest.arguments

end

namespace Applications

theorem exists_toList : ∀ as : Applications, ∃ a rest, as.toList = a :: rest
  | one a => ⟨a, [], rfl⟩
  | more a rest => ⟨a, rest.toList, rfl⟩

theorem words_eq : ∀ as : Applications, as.words = List.intercalate [(.comma, ",")] (as.toList.map Application.words)
  | one _ => (List.intercalate_singleton ..).symm
  | more _ rest => by
    obtain ⟨b, bs, hrest⟩ := rest.exists_toList
    rw [words, words_eq rest, toList, hrest, List.map_cons, List.map_cons, List.map_cons, List.intercalate_cons_cons,
      List.append_assoc]
    rfl

theorem arguments_eq : ∀ as : Applications, as.arguments = as.toList.map fun a => ⟨none, a.expression⟩
  | one a => rfl
  | more a rest => by rw [arguments, arguments_eq rest, toList, List.map_cons]

end Applications

namespace Application

theorem depth_pos : ∀ a : Application, 0 < a.depth
  | name _ => Nat.one_pos
  | apply _ target _ => Nat.lt_of_lt_of_le target.depth_pos (Nat.le_max_left ..)

/-- Every application begins with a name. -/
theorem exists_words : ∀ a : Application, ∃ n ws, a.words = (.identifier, n) :: ws
  | name n => ⟨n, [], rfl⟩
  | apply form target arguments => by
    obtain ⟨n, ws, h⟩ := target.exists_words
    exact ⟨n, ws ++ (form.opening :: (arguments.words ++ [form.closing])), by rw [words, h, List.cons_append]⟩

end Application

/-! ## Cutting -/

namespace ApplicationForm

variable {brackets : List Bracket} {c : Char} {cs rest : List Char}

/-- An opening in front of anything but a bracket is cut as what it is. -/
theorem seen_opening (form : ApplicationForm) (hc : c ≠ '[' ∧ c ≠ ']') :
    seen (ofTextFrom brackets (form.opening.2.toList ++ c :: cs)) =
      sight form.opening :: seen (ofTextFrom (form.push brackets) (c :: cs)) := by
  cases form with
  | call => exact seen_cons brackets '(' (c :: cs)
  | index =>
    have hcut : cut brackets '[' (c :: cs) = front (.single :: brackets) (.token .leftBracket) '[' (c :: cs) 0 := by
      have hdouble : ¬(c :: cs).head? = some '[' := fun e => hc.1 (Option.some.inj e)
      have hlist : ¬(c :: cs).head? = some ']' := fun e => hc.2 (Option.some.inj e)
      show cutOpen brackets (c :: cs) = _
      rw [cutOpen, if_neg hdouble, if_neg hlist]
    show seen (ofTextFrom brackets ('[' :: c :: cs)) = _
    rw [seen_cons, hcut]
    rfl
  | element => exact seen_cons brackets '[' ('[' :: c :: cs)

/-- A closing is cut as what it is where its opening is the innermost one, whatever follows. -/
theorem seen_closing (form : ApplicationForm) :
    seen (ofTextFrom (form.push brackets) (form.closing.2.toList ++ rest)) =
      sight form.closing :: seen (ofTextFrom brackets rest) := by
  cases form with
  | call => exact seen_cons brackets ')' rest
  | index => exact seen_cons (.single :: brackets) ']' rest
  | element => exact seen_cons (.double :: brackets) ']' (']' :: rest)

theorem delimits_opening (form : ApplicationForm) (rest : List Char) : Delimits (form.opening.2.toList ++ rest) := by
  cases form <;> exact delimits_cons (by decide) _

theorem delimits_closing (form : ApplicationForm) (rest : List Char) : Delimits (form.closing.2.toList ++ rest) := by
  cases form <;> exact delimits_cons (by decide) _

end ApplicationForm

/-! ### Names -/

section Names

variable {file name : String}

/-- A text that is read alone as an identifier can be written anywhere. -/
theorem Word.IsSingle.isName (h : Word.IsSingle file (.identifier, name)) : IsName name := by
  have htokens : (SourceFile.tokens ⟨file, name⟩).map Token.word = [(.identifier, name)] := by
    have hread := h.tokens
    rw [SourceFile.tokenize, List.map_append] at hread
    exact List.append_inj_left' hread rfl
  obtain ⟨t, ht, hword⟩ := List.map_eq_singleton_iff.1 htokens
  obtain ⟨hkind, htext⟩ := of_word hword
  have hname := SourceFile.isName (ht ▸ List.mem_singleton_self t) hkind
  rwa [htext] at hname

/-- It does not begin with a bracket. -/
theorem Word.IsSingle.first (h : Word.IsSingle file (.identifier, name)) :
    ∃ c cs, name.toList = c :: cs ∧ c ≠ '[' ∧ c ≠ ']' := by
  obtain ⟨c, cs, htext, hcut⟩ := cut_of_isSingle h
  refine ⟨c, cs, htext, ?_, ?_⟩
  · rintro rfl
    have hopen : (cutOpen [] cs).lexemes = [⟨.token .identifier, '[' :: cs⟩] := hcut
    unfold cutOpen at hopen
    split at hopen
    · exact nomatch (front_eq_iff.1 hopen).1
    · split at hopen <;> exact nomatch (front_eq_iff.1 hopen).1
  · rintro rfl
    have hclose : (cutClose [] cs).lexemes = [⟨.token .identifier, ']' :: cs⟩] := hcut
    exact nomatch (front_eq_iff.1 hclose).1

theorem Application.text_begins : ∀ {a : Application}, (∀ n ∈ a.names, Word.IsSingle file (.identifier, n)) →
    ∃ c cs, a.text = c :: cs ∧ c ≠ '[' ∧ c ≠ ']'
  | .name n, h => (h n (List.mem_singleton_self n)).first
  | .apply form target arguments, h => by
    obtain ⟨c, cs, htext, hc⟩ := target.text_begins fun n hn => h n (List.mem_append_left _ hn)
    exact ⟨c, _, by rw [Application.text, htext, List.cons_append], hc⟩

theorem Applications.text_begins {as : Applications} (h : ∀ n ∈ as.names, Word.IsSingle file (.identifier, n)) :
    ∃ c cs, as.text = c :: cs ∧ c ≠ '[' ∧ c ≠ ']' := by
  cases as with
  | one a => exact Application.text_begins h
  | more a rest =>
    obtain ⟨c, cs, htext, hc⟩ := Application.text_begins fun n hn => h n (List.mem_append_left _ hn)
    exact ⟨c, _, by rw [Applications.text, htext, List.cons_append], hc⟩

mutual

/-- **The text of an application is seen as its words, whatever brackets are open**, and leaves them open. -/
theorem Application.spells : ∀ {a : Application}, (∀ n ∈ a.names, Word.IsSingle file (.identifier, n)) →
    Spells a.text a.words
  | .name n, h => (h n (List.mem_singleton_self n)).isName.spells
  | .apply form target arguments, h => by
    have htarget := target.spells fun n hn => h n (List.mem_append_left _ hn)
    have harguments := arguments.spells fun n hn => h n (List.mem_append_right _ hn)
    obtain ⟨c, cs, htext, hc⟩ := Applications.text_begins fun n hn => h n (List.mem_append_right _ hn)
    intro brackets rest hrest
    have hopened : seen (ofTextFrom brackets (form.opening.2.toList ++ (arguments.text ++ (form.closing.2.toList ++ rest)))) =
        sight form.opening ::
          seen (ofTextFrom (form.push brackets) (arguments.text ++ (form.closing.2.toList ++ rest))) := by
      rw [htext, List.cons_append]
      exact form.seen_opening hc
    rw [Application.text, List.append_assoc, List.append_assoc, List.append_assoc,
      htarget brackets _ (form.delimits_opening _), hopened, harguments _ _ (form.delimits_closing rest),
      form.seen_closing, Application.words, List.map_append, List.append_assoc, List.map_cons, List.map_append]
    simp only [List.map_cons, List.map_nil, List.cons_append, List.append_assoc, List.nil_append]

theorem Applications.spells : ∀ {as : Applications}, (∀ n ∈ as.names, Word.IsSingle file (.identifier, n)) →
    Spells as.text as.words
  | .one a, h => a.spells h
  | .more a rest, h => by
    have hfirst := a.spells fun n hn => h n (List.mem_append_left _ hn)
    have hrest := rest.spells fun n hn => h n (List.mem_append_right _ hn)
    exact hfirst.append (marks_comma.append hrest) fun more _ => delimits_cons (by decide) _

end

end Names

/-! ## Reading -/

namespace Parse

open Steps

variable {s : ParseState} {deeper : Deeper} {opened close : Token}

theorem follows_opening {form : ApplicationForm} (h : opened.word = form.opening) (ts : List Token) :
    Follows (some form.continuation) (s.before (opened :: ts)) := by
  have hkind := (of_word h).1
  cases form <;> refine ⟨?_, ?_, ?_⟩ <;> rw [ParseState.peek_before_cons] <;> simp [Continuation.of?, hkind,
    ApplicationForm.opening, ApplicationForm.continuation]

theorem continuationOf_form (form : ApplicationForm) (left : Expression) :
    continuationOf deeper left form.continuation = (do
      let _ ← advance
      let (as, close) ← arguments deeper form.closing.1 form.missed
      return form.expression (left.span.union close.span) left as) := by
  cases form <;> rfl

theorem expression_same {form : ApplicationForm} {span span' : Span} {target target' : Expression}
    {as as' : List Argument} (htarget : target.Same target') (has : SameArguments as as') :
    (form.expression span target as).Same (form.expression span' target' as') := by
  cases form with
  | call => exact .call trivial htarget has
  | index => exact .index false trivial htarget has
  | element => exact .index true trivial htarget has

/-- An application goes on like a value, and not like the name of an argument. -/
theorem beginsValue_application : ∀ a : Application, BeginsValue a.words
  | .name n => beginsValue_name n
  | .apply form target _ => by
    refine (beginsValue_application target).append ?_
    rintro _ ⟨⟩
    cases form <;> decide

mutual

/-- **An application is read back from its words** where there is room for its arguments, in front of anything. -/
theorem rereads_application : ∀ {a : Application} {room : Nat} {next : Option Continuation}, a.depth ≤ room + 1 →
    Rereads (deeperAt room) .lowest next a.words a.expression.Same
  | .name n, _, _, _ => by
    refine rereads_firstPart fun ts s hts _ => ?_
    obtain ⟨t, rfl, ht⟩ := List.map_eq_singleton_iff.1 hts
    obtain ⟨hkind, rfl⟩ := of_word ht
    exact ⟨_, .identifier _ trivial, firstPart_identifier hkind⟩
  | .apply form target arguments, room, next, h => by
    obtain ⟨htarget, harguments⟩ := Nat.max_le.1 h
    intro ts s hts hs
    obtain ⟨us, vs, rfl, hus, hvs⟩ := List.map_eq_append_iff.1 hts
    obtain ⟨opened, vs, rfl, hopened, hvs⟩ := List.map_eq_cons_iff.1 hvs
    obtain ⟨inner, vs, rfl, hinner, hvs⟩ := List.map_eq_append_iff.1 hvs
    obtain ⟨close, rfl, hclose⟩ := List.map_eq_singleton_iff.1 hvs
    let behind := s.before (opened :: (inner ++ [close]))
    obtain ⟨target', htarget', hread⟩ := rereads_application htarget us behind hus (follows_opening hopened _)
    rw [Applications.words_eq] at hinner
    have hcloses : form.closing.1.closesItems = true := by cases form <;> rfl
    obtain ⟨arguments', harguments', hdelimited⟩ := delimited_before (s := s) form.missed (of_word hclose).1 hcloses
      (takes_applications (Nat.le_of_succ_le_succ harguments)) hinner
    have hform : continuationOf (deeperAt room) target' form.continuation behind =
        .ok (form.expression (target'.span.union close.span) target' arguments') s := by
      rw [continuationOf_form]
      show (advance >>= _) ((s.before (inner ++ [close])).before [opened]) = _
      rw [bind_ok (advance_before _), ParseState.before_append]
      show (delimited _ _ _ >>= _) _ = _
      rw [bind_ok hdelimited]
      rfl
    have hsame : SameArguments arguments.arguments arguments' := by
      rw [Applications.arguments_eq]
      exact sameArguments (List.forall₂_map_left_iff.2 harguments')
    refine ⟨form.expression (target'.span.union close.span) target' arguments', expression_same htarget' hsame, ?_⟩
    have hnext : Continuation.of? behind.peek = some form.continuation := (follows_opening hopened _).continuation
    have htight : form.continuation.level.isTighter .lowest = true := by cases form <;> rfl
    rw [ParseState.before_append, hread]
    exact continued_again hnext htight hform (by simp [behind]; omega)

theorem takes_applications : ∀ {as : Applications} {room : Nat}, as.depth ≤ room → ∀ a ∈ as.toList, Begins a.words ∧
    TakesItem (argument (deeperAt room)) a.words (Argument.Same ⟨none, a.expression⟩)
  | .one a, room, h => List.forall_mem_singleton.2 (takes_application h)
  | .more a rest, room, h => by
    obtain ⟨hfirst, hrest⟩ := Nat.max_le.1 h
    exact List.forall_mem_cons.2 ⟨takes_application hfirst, takes_applications hrest⟩

theorem takes_application : ∀ {a : Application} {room : Nat}, a.depth ≤ room → Begins a.words ∧
    TakesItem (argument (deeperAt room)) a.words (Argument.Same ⟨none, a.expression⟩)
  | a, 0, h => absurd a.depth_pos (Nat.not_lt_of_le h)
  | a, room + 1, h => by
    have hbegins := beginsValue_application a
    refine ⟨hbegins.begins, fun ts s hts hs => ?_⟩
    obtain ⟨⟨_, value⟩, ⟨rfl, hsame⟩, hread⟩ := takesItem_unnamed hbegins (takesItem_value (rereads_application h)) ts s hts hs
    exact ⟨⟨none, value⟩, ⟨.none, hsame⟩, hread⟩

end

end Parse

/-! ## Brackets -/

namespace ApplicationForm

theorem openBehind_opening (form : ApplicationForm) (forms : List ApplicationForm) (rest : List TokenKind) :
    openBehind forms (form.opening.1 :: rest) = openBehind (form :: forms) rest := by
  cases form <;> rfl

theorem openBehind_closing (form : ApplicationForm) (forms : List ApplicationForm) (rest : List TokenKind) :
    openBehind (form :: forms) (form.closing.1 :: rest) = openBehind forms rest := by
  cases form <;> rfl

end ApplicationForm

mutual

/-- **In the words of an application every opening is closed by the closing of its own form.** -/
theorem Application.openBehind_words : ∀ (a : Application) (forms : List ApplicationForm) (rest : List Word),
    ApplicationForm.openBehind forms ((a.words ++ rest).map Prod.fst) = ApplicationForm.openBehind forms (rest.map Prod.fst)
  | .name _, _, _ => rfl
  | .apply form target arguments, forms, rest => by
    rw [Application.words, List.append_assoc, target.openBehind_words, List.cons_append, List.append_assoc, List.map_cons,
      form.openBehind_opening, arguments.openBehind_words, List.singleton_append, List.map_cons, form.openBehind_closing]

theorem Applications.openBehind_words : ∀ (as : Applications) (forms : List ApplicationForm) (rest : List Word),
    ApplicationForm.openBehind forms ((as.words ++ rest).map Prod.fst) = ApplicationForm.openBehind forms (rest.map Prod.fst)
  | .one a, forms, rest => a.openBehind_words forms rest
  | .more a more, forms, rest => by
    rw [Applications.words, List.append_assoc, a.openBehind_words, List.cons_append]
    exact more.openBehind_words forms rest

end

/-! ## Texts -/

namespace Application

open Parse

variable {limit : Nat} {a : Application}

/-- The words of an application are a program of the application alone, with line ends or nothing behind them. -/
theorem ofTokens_words (hlimit : a.depth ≤ limit) {ts ends : List Token} (hts : ts.map Token.word = a.words)
    (hproper : ∀ t ∈ ts, t.kind ≠ .eof) (hends : ∀ t ∈ ends, isSeparator t = true ∨ t.kind = .eof) :
    ∃ e, a.expression.Same e ∧ ParsedProgram.ofTokens (ts ++ ends) limit = ⟨⟨[.expression e]⟩, []⟩ := by
  obtain ⟨room, rfl⟩ : ∃ room, limit = room + 1 := ⟨limit - 1, by have := a.depth_pos; omega⟩
  refine ParsedProgram.ofTokens_expression ?_ hproper hends fun s hs => ?_
  · obtain ⟨n, ws, hwords⟩ := a.exists_words
    obtain ⟨t, rest, rfl, ht, -⟩ := List.map_eq_cons_iff.1 (hts.trans hwords)
    exact ⟨t, rest, rfl, by rw [(of_word ht).1]; rfl⟩
  · have hfollows : Follows none s := by
      refine ⟨continuation_of_ends hs, ?_, ?_⟩ <;> intro hkind <;> rw [hkind] at hs <;> cases hs
    have hrereads : Rereads (deeperAt room) .lowest none a.words a.expression.Same := rereads_application hlimit
    exact hrereads.inside nofun hts hfollows

/-- **An application is read back from its text.**  Names that are called, indexed and indexed for one element, with one
argument or more that are such applications again, are written without a space.  The text is read as the words of the
application, no character is left over, and every bracket and parenthesis is closed by the closing of its own form.  They
are read without an error, under any limit that the application does not exceed, as a program of the application alone,
as it was but for places. -/
theorem read_text (file name : String) (a : Application) (limit : Nat)
    (hnames : ∀ n ∈ a.names, Word.IsSingle file (.identifier, n)) (hlimit : a.depth ≤ limit) :
    let stream := TokenStream.scan [⟨name, String.ofList a.text⟩]
    stream.strays = [] ∧ stream.tokens.map Token.word = a.words ++ [(.newline, "\n"), (.eof, "")] ∧
      ApplicationForm.openBehind [] (stream.tokens.map Token.kind) = some [] ∧
      ∃ e, a.expression.Same e ∧ ParsedProgram.ofTokens stream.tokens limit = ⟨⟨[.expression e]⟩, []⟩ := by
  intro stream
  let source : SourceFile := ⟨name, String.ofList a.text⟩
  have hspells : Spells source.text.toList a.words := by
    rw [show source.text.toList = a.text from String.toList_ofList]
    exact spells hnames
  obtain ⟨htokens, hstrays⟩ := SourceFile.of_spells hspells
  let ends : List Token := [source.lineEnd, TokenStream.endOf [source]]
  have hstream : stream.tokens = source.tokens ++ ends := by
    show [source].flatMap (fun source => source.tokens ++ [source.lineEnd]) ++ [_] = _
    rw [List.flatMap_singleton, List.append_assoc]
    rfl
  have hends : ∀ t ∈ ends, isSeparator t = true ∨ t.kind = .eof :=
    List.forall_mem_cons.2 ⟨.inl rfl, List.forall_mem_singleton.2 (.inr rfl)⟩
  have hwords : stream.tokens.map Token.word = a.words ++ [(.newline, "\n"), (.eof, "")] := by
    rw [hstream, List.map_append, htokens]
    rfl
  have hkinds : stream.tokens.map Token.kind = (stream.tokens.map Token.word).map Prod.fst := by
    rw [List.map_map]
    rfl
  refine ⟨(List.append_nil _).trans hstrays, hwords, ?_, ?_⟩
  · rw [hkinds, hwords, a.openBehind_words]
    rfl
  · rw [hstream]
    exact ofTokens_words hlimit htokens (fun _ => SourceFile.kind_ne_eof) hends

/-- A run of three brackets, where the outer ones are to be closed one by one and where they are not. -/
theorem read_text_brackets :
    let x : Application := .name "x"
    let y : Application := .name "y"
    let z : Application := .name "z"
    let inner : Application := .apply .element y (.one (.apply .index z (.one x)))
    let a : Application := .apply .index (.apply .call x (.more (.apply .index x (.one (.apply .element y (.one z))))
      (.one inner))) (.one z)
    let stream := TokenStream.scan [⟨"m.vp", String.ofList a.text⟩]
    (String.ofList a.text = "x(x[y[[z]]],y[[z[x]]])[z]" ∧ a.depth = 4 ∧
      ∀ n ∈ a.names, Word.IsSingle "w.vp" (.identifier, n)) ∧
    stream.strays = [] ∧ stream.tokens.map Token.word = a.words ++ [(.newline, "\n"), (.eof, "")] ∧
      ApplicationForm.openBehind [] (stream.tokens.map Token.kind) = some [] ∧
      ∃ e, a.expression.Same e ∧ ParsedProgram.ofTokens stream.tokens 4 = ⟨⟨[.expression e]⟩, []⟩ := by
  intro x y z inner a stream
  have hx : Word.IsSingle "w.vp" (.identifier, "x") := ⟨by decide, by cbv, by cbv⟩
  have hy : Word.IsSingle "w.vp" (.identifier, "y") := ⟨by decide, by cbv, by cbv⟩
  have hz : Word.IsSingle "w.vp" (.identifier, "z") := ⟨by decide, by cbv, by cbv⟩
  have hnames : ∀ n ∈ a.names, Word.IsSingle "w.vp" (.identifier, n) := by
    show ∀ n ∈ ["x", "x", "y", "z", "y", "z", "x", "z"], Word.IsSingle "w.vp" (.identifier, n)
    simp only [List.forall_mem_cons, List.not_mem_nil, false_implies, implies_true, and_true]
    exact ⟨hx, hx, hy, hz, hy, hz, hx, hz⟩
  exact ⟨⟨rfl, rfl, hnames⟩, read_text "w.vp" "m.vp" a 4 hnames (Nat.le_refl 4)⟩

end Application
end UnionScript
