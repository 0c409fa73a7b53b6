import UnionScript.Proofs.Runs
import UnionScript.Proofs.Writing
/-!
# Grouping — plain values are grouped the way their words are read

A plain value that is read is grouped the way its words are read at the same place, and with the same room for what it
holds: this is shown form by form, from the tokens that a reader takes and from the token it stops in front of.  Blanks,
line ends and quotes are the only things in which its words differ from those tokens, so the strings are the same
(`Says`).
-/
namespace UnionScript

open Lexeme

/-! ## Words and tokens -/

/-- The strings among some words. -/
def quoted (words : List Word) : List String := words.filterMap fun w => if w.1 = .string then some w.2 else none

theorem quoted_append (ws us : List Word) : quoted (ws ++ us) = quoted ws ++ quoted us := List.filterMap_append

theorem quoted_cons_of_ne {w : Word} (h : w.1 ≠ .string) (ws : List Word) : quoted (w :: ws) = quoted ws :=
  List.filterMap_cons_none (if_neg h)

theorem quoted_cons_of_eq {w : Word} (h : w.1 = .string) (ws : List Word) : quoted (w :: ws) = w.2 :: quoted ws :=
  List.filterMap_cons_some (if_pos h)

theorem quoted_eq_nil {ws : List Word} (h : ∀ w ∈ ws, w.1 ≠ .string) : quoted ws = [] :=
  List.filterMap_eq_nil_iff.2 fun w hw => if_neg (h w hw)

/-- Tokens say what some words say: strings apart, in so far as they can be written down again. -/
structure Says (used : List Token) (words : List Word) (good : Prop) : Prop where
  good : (∀ t ∈ used, t.IsCopied) → good
  strings : quoted (used.map Token.word) = quoted words

namespace Says

variable {used more : List Token} {words others : List Word} {good good' : Prop}

theorem nil : Says [] [] True := ⟨fun _ => trivial, rfl⟩

theorem single {t : Token} {w : Word} (ht : t.kind ≠ .string) (hw : w.1 ≠ .string) (h : t.IsCopied → good) :
    Says [t] [w] good :=
  ⟨fun hall => h (hall t List.mem_cons_self), by
    rw [List.map_singleton, quoted_cons_of_ne ht, quoted_cons_of_ne hw]⟩

theorem imp (h : Says used words good) (himp : good → good') : Says used words good' :=
  ⟨fun hall => himp (h.good hall), h.strings⟩

theorem append (h : Says used words good) (h' : Says more others good') :
    Says (used ++ more) (words ++ others) (good ∧ good') where
  good hall := by
    obtain ⟨hused, hmore⟩ := List.forall_mem_append.1 hall
    exact ⟨h.good hused, h'.good hmore⟩
  strings := by rw [List.map_append, quoted_append, quoted_append, h.strings, h'.strings]

/-- Words with the same strings are said as well. -/
theorem reword (h : Says used words good) (hsame : quoted words = quoted others) : Says used others good :=
  ⟨h.good, h.strings.trans hsame⟩

/-- Tokens that are no strings say nothing more. -/
theorem skip {gap : List Token} (h : Says used words good) (hgap : ∀ t ∈ gap, t.kind ≠ .string) :
    Says (used ++ gap) words good where
  good hall := h.good (List.forall_mem_append.1 hall).1
  strings := by
    have hnone : quoted (gap.map Token.word) = [] := quoted_eq_nil (List.forall_mem_map.2 hgap)
    rw [List.map_append, quoted_append, hnone, List.append_nil, h.strings]

end Says

theorem quoted_intercalate {between : List Word} (h : ∀ w ∈ between, w.1 ≠ .string) : ∀ wordss : List (List Word),
    quoted (between.intercalate wordss) = quoted wordss.flatten
  | [] => rfl
  | [words] => by rw [List.intercalate_singleton, List.flatten_singleton]
  | words :: others :: rest => by
    rw [List.intercalate_cons_cons, List.flatten_cons, quoted_append, quoted_append, quoted_append,
      quoted_eq_nil h, List.append_nil, quoted_intercalate h (others :: rest)]

/-- What stands between parentheses, with commas between its parts. -/
theorem Says.parenthesized {used : List Token} {opened close : Token} {wordss : List (List Word)} {good : Prop}
    (h : Says used wordss.flatten good) (hopen : opened.kind = .leftParen) (hclose : close.kind = .rightParen) :
    Says (opened :: (used ++ [close]))
      ((.leftParen, "(") :: (List.intercalate [(.comma, ",")] wordss ++ [(.rightParen, ")")])) good where
  good hall := h.good (List.forall_mem_append.1 (List.forall_mem_cons.1 hall).2).1
  strings := by
    have hcomma : ∀ w ∈ [((.comma, ",") : Word)], w.1 ≠ .string := by decide
    have hopen : opened.word.1 ≠ .string := by rw [Token.word, hopen]; nofun
    have hclose : close.word.1 ≠ .string := by rw [Token.word, hclose]; nofun
    rw [List.map_cons, quoted_cons_of_ne hopen, quoted_cons_of_ne (by decide), List.map_append, quoted_append,
      quoted_append, quoted_intercalate hcomma, h.strings, List.map_singleton, quoted_cons_of_ne hclose,
      quoted_cons_of_ne (by decide)]

/-! ## Levels -/

theorem Level.stops_lowest {next : Option Continuation} (h : Level.lowest.Stops next) : next = none := by
  cases next with
  | none => rfl
  | some c =>
    refine absurd (h c rfl) ?_
    rw [Bool.not_eq_false]
    cases c with
    | operator operator => cases operator <;> rfl
    | _ => rfl

theorem BinaryOperator.kind_ne_string (operator : BinaryOperator) : operator.kind ≠ .string := by
  cases operator <;> nofun

theorem UnaryOperator.kind_ne_string (operator : UnaryOperator) : operator.kind ≠ .string := by
  cases operator <;> nofun

theorem Token.ne_string_of_binaryOperator? {t : Token} {operator : BinaryOperator}
    (h : t.binaryOperator? = some operator) : t.kind ≠ .string := by
  intro hkind
  rw [Token.binaryOperator?, hkind] at h
  cases h

/-- The operator that a token is can be written down again if the token can. -/
theorem Token.IsCopied.writable {t : Token} (ht : t.IsCopied) {operator : BinaryOperator}
    (h : t.binaryOperator? = some operator) : operator.Writable := by
  unfold Token.binaryOperator? at h
  split at h <;> cases h <;> try exact trivial
  rename_i hkind
  have hword := ht.word (by rw [hkind]; rfl)
  rwa [hkind] at hword

theorem Continuation.of?_operator {t : Token} {operator : BinaryOperator}
    (h : Continuation.of? t = some (.operator operator)) : t.binaryOperator? = some operator := by
  unfold Continuation.of? at h
  split at h
  · cases h
  · cases h
  · cases h
  · obtain ⟨o, ho, heq⟩ := Option.map_eq_some_iff.1 h
    cases heq
    exact ho

theorem Continuation.of?_call {t : Token} (h : Continuation.of? t = some .call) : t.kind = .leftParen := by
  unfold Continuation.of? at h
  split at h
  · assumption
  · cases h
  · cases h
  · obtain ⟨o, -, heq⟩ := Option.map_eq_some_iff.1 h
    cases heq

/-! ## Forms that are no plain values -/

namespace Parse

open Steps

section Forms

variable {deeper : Deeper}

theorem answers_arrowFunctionBehind_isPlain (opened : Token) :
    Answers (arrowFunctionBehind deeper opened) fun e => e.isPlain = false :=
  answers_next fun _ => answers_next fun _ => answers_next fun _ => answers_next fun _ => answers_next fun _ =>
    answers_ite (answers_next fun _ => answers_pure rfl) (answers_next fun _ => answers_pure rfl)

theorem answers_functionBehind_isPlain (func : Token) (decorators : List Decorator) :
    Answers (functionBehind deeper func decorators) fun e => e.isPlain = false := by
  refine answers_next fun receiver => ?_
  have hrest (name : Option Token) : Answers (signed deeper func decorators receiver name) fun e => e.isPlain = false :=
    answers_next fun _ => answers_next fun _ => answers_next fun _ => answers_next fun _ => answers_next fun _ =>
      answers_pure rfl
  refine answers_next fun _ => answers_ite ?_ (answers_ite ?_ ?_)
  · exact answers_next fun name => hrest (some name)
  · exact answers_next fun name => hrest name
  · exact hrest none

theorem answers_conditionalBehind_isPlain (opened : Token) :
    Answers (conditionalBehind deeper opened) fun e => e.isPlain = false := by
  refine answers_next fun first => answers_rounds (fun _ => True) (fun more _ => ?_) trivial
  refine answers_next fun _ => answers_ite ?_ (answers_pure rfl)
  refine answers_next fun _ => answers_next fun _ => answers_next fun _ => answers_next fun _ => answers_ite ?_ ?_
  · exact answers_next fun _ => answers_next fun _ => answers_pure trivial
  · exact answers_next fun _ => answers_pure rfl

theorem answers_forBehind_isPlain (opened : Token) : Answers (forBehind deeper opened) fun e => e.isPlain = false :=
  answers_next fun _ => answers_next fun _ => answers_next fun _ => answers_next fun _ => answers_next fun _ =>
    answers_next fun _ => answers_next fun _ => answers_next fun _ => answers_next fun _ => answers_pure rfl

theorem answers_whileBehind_isPlain (opened : Token) : Answers (whileBehind deeper opened) fun e => e.isPlain = false :=
  answers_next fun _ => answers_next fun _ => answers_next fun _ => answers_next fun _ => answers_next fun _ =>
    answers_next fun _ => answers_next fun _ => answers_pure rfl

theorem answers_repeatBehind_isPlain (opened : Token) :
    Answers (repeatBehind deeper opened) fun e => e.isPlain = false :=
  answers_next fun _ => answers_pure rfl

end Forms

/-! ## Readers of plain values -/

/-- A reader whose answers are no plain values says nothing about them. -/
theorem spends_unplain {s : ParseState} {before : List Token} {p : Parse Expression}
    {holds : List Token → Expression → ParseState → Prop} (hp : Orderly p) (h : Answers p fun e => e.isPlain = false) :
    SpendsTo s before p fun used e t => e.isPlain = true → holds used e t := by
  intro heof e t hok
  obtain ⟨used, hused⟩ := (hp.ok hok).rest
  exact ⟨hp.eof_kind hok heof, used, hused.symm, fun hplain => absurd ((h s e t hok).symm.trans hplain) Bool.false_ne_true⟩

/-- A literal that is a word of its own is one word, and no string. -/
theorem wordLiteral?_words {t : Token} {value : Literal} (h : wordLiteral? t = some value) :
    t.kind ≠ .eof ∧ t.kind ≠ .string ∧ ∃ w : Word, value.words = [w] ∧ w.1 ≠ .string ∧ value.Writable := by
  unfold wordLiteral? at h
  split at h <;> cases h <;> rename_i hkind <;> rw [hkind] <;> refine ⟨nofun, nofun, ?_⟩
  · cases t.text == "true" || t.text == "TRUE" <;> exact ⟨_, rfl, nofun, trivial⟩
  all_goals exact ⟨_, rfl, nofun, trivial⟩

/-- A plain value that stands in front of a token. -/
def SaysValue (room : Nat) (floor : Level) (used : List Token) (e : Expression) (s : ParseState) : Prop :=
  e.isPlain = true → Says used e.words (e.Grouped room floor (Continuation.of? s.peek))

/-- The readers for what an expression holds read plain values that are grouped, one level deeper. -/
structure Groups (room : Nat) (deeper : Deeper) : Prop where
  orderly : Deeper.Has (fun {_} p => Orderly p) deeper
  expression (floor : Level) (s : ParseState) : SpendsTo s [] (deeper.expression floor) fun used e t =>
    e.isPlain = true → Says used e.words (∃ r, room = r + 1 ∧ e.Grouped r floor (Continuation.of? t.peek) ∧
      floor.Stops (Continuation.of? t.peek))

variable {deeper : Deeper} {s : ParseState} {opened : Token} {room : Nat}

theorem spends_stringBehind_words (hopened : opened.kind ≠ .string) :
    Spends s [opened] (stringBehind opened) fun used e => Says used e.words e.IsTarget := by
  refine spends_expect (by decide) _ fun s content hcontent => spends_look (spends_ite (fun hclose => ?_) (spends_throw _))
  have hclose : s.peek.kind = .quote := eq_of_beq hclose
  refine spends_advance (by rw [hclose]; decide) fun t => spends_pure ⟨fun _ => trivial, ?_⟩
  have hstring : content.word.1 = .string := hcontent
  have hlast : s.peek.word.1 ≠ .string := by
    show s.peek.kind ≠ .string
    rw [hclose]
    decide
  show quoted [opened.word, content.word, s.peek.word] = [content.text]
  rw [quoted_cons_of_ne hopened, quoted_cons_of_eq hstring, quoted_cons_of_ne hlast]
  rfl

theorem spends_number_words {t : Token} (value : String → Literal) (ht : t.kind ≠ .string)
    (hvalue : (value t.text).words = [t.word])
    (hwritable : t.IsCopied → Numeral.isNumeral t.text = true → (value t.text).Writable) :
    Spends s [t] (number t value) fun used e => Says used e.words (∀ room floor next, e.Grouped room floor next) := by
  refine spends_ite (fun hnumeral => spends_pure ?_) (spends_throw _)
  show Says [t] (value t.text).words _
  rw [hvalue]
  exact .single ht ht fun hcopied _ _ _ => hwritable hcopied hnumeral

theorem spends_accessTarget_words (s : ParseState) :
    Spends s [] accessTarget fun used e => Says used e.words e.IsTarget := by
  refine spends_look ?_
  split
  · rename_i hkind
    have hkind' : s.peek.kind ≠ .string := by rw [hkind]; decide
    exact spends_advance (by rw [hkind]; decide) fun t => spends_pure (.single hkind' nofun fun h => h.name hkind)
  · rename_i hkind
    exact spends_advance (by rw [hkind]; decide) fun t => spends_stringBehind_words (by rw [hkind]; decide)
  · exact spends_expected _

/-! ### Elements and arguments -/

/-- What is said of items one by one is said of all of them. -/
theorem accumulates_words {α : Type} (plain : α → Bool) (words : α → List Word) (good : α → Prop) :
    Accumulates (fun used a => plain a = true → Says used (words a) (good a)) fun used as =>
      (∀ a ∈ as, plain a = true) → Says used (as.map words).flatten (∀ a ∈ as, good a) where
  nil _ := Says.nil.imp fun _ => nofun
  skip hgap htaken hall := (htaken hall).skip fun t ht => by rcases hgap t ht with e | e <;> rw [e] <;> decide
  more {all used taken a} htaken ha hall := by
    obtain ⟨hbefore, hlast⟩ := List.forall_mem_append.1 hall
    rw [List.map_append, List.flatten_append, List.map_singleton, List.flatten_singleton]
    refine ((htaken hbefore).append (ha (hlast a List.mem_cons_self))).imp fun h => ?_
    exact List.forall_mem_append.2 ⟨h.1, List.forall_mem_singleton.2 h.2⟩

variable (hd : Groups room deeper)

include hd

theorem spends_anyExpression_words (s : ParseState) : Spends s [] (anyExpression deeper) fun used e =>
    e.isPlain = true → Says used e.words (e.StandsAlone room) := by
  intro heof e t hread
  obtain ⟨heof', used, hused, he⟩ := hd.expression .lowest s heof e t hread
  refine ⟨heof', used, hused, fun hplain => (he hplain).imp ?_⟩
  rintro ⟨r, hroom, hgrouped, hstops⟩
  rw [Level.stops_lowest hstops] at hgrouped
  exact ⟨r, hroom, hgrouped⟩

theorem spends_vectorBehind_words (hopened : opened.kind = .leftParen) :
    Spends s [opened] (vectorBehind deeper opened) fun used e =>
      e.isPlain = true → Says used e.words (∀ floor next, e.Grouped room floor next) := by
  refine spends_part _ (spends_delimited (accumulates_words Expression.isPlain Expression.words
    fun e => e.StandsAlone room) (spends_anyExpression_words hd) (by decide)) ?_
  rintro t _ ⟨elements, close⟩ ⟨inner, rfl, hclose, hinner⟩
  refine spends_pure fun hplain => ?_
  have hsays := (hinner (plainAll_iff.1 hplain)).parenthesized hopened hclose
  rw [← wordsOfAll_eq] at hsays
  exact hsays.imp fun h _ _ => groupedAll_iff.2 h

theorem spends_argument_words (s : ParseState) : Spends s [] (argument deeper) fun used a =>
    a.value.isPlain = true → Says used a.words (a.StandsAlone room) := by
  refine spends_look (spends_look (spends_ite (fun hnamed => ?_) ?_))
  · obtain ⟨hname, hequal⟩ := Bool.and_eq_true_iff.1 hnamed
    have hname : s.peek.kind = .identifier := eq_of_beq hname
    have hequal : s.advance.peek.kind = .equal := eq_of_beq hequal
    refine spends_next (by rw [hname]; decide) (spends_next (by rw [hequal]; decide) (spends_skipNewlines
      fun t gap hgap => spends_part _ (spends_anyExpression_words hd) fun u used e he => spends_pure fun hplain => ?_))
    have hfirst : Says [s.peek] [(.identifier, s.peek.text)] (IsName s.peek.text) :=
      .single (by rw [hname]; decide) nofun fun h => h.name hname
    have hsecond : Says [s.advance.peek] [(.equal, "=")] True :=
      .single (by rw [hequal]; decide) (by decide) fun _ => trivial
    have hgap : ∀ t ∈ gap, t.kind ≠ .string := fun t ht => by rw [hgap t ht]; decide
    refine (((hfirst.append hsecond).skip hgap).append (he hplain)).imp fun h => ⟨?_, h.2⟩
    rintro _ ⟨⟩
    exact h.1.1
  · exact spends_part _ (spends_anyExpression_words hd) fun u used e he => spends_pure fun hplain =>
      (he hplain).imp fun h => ⟨nofun, h⟩

theorem spends_arguments_words (what : String) (s : ParseState) : Spends s [] (arguments deeper .rightParen what)
    fun used taken => ∃ inner, used = inner ++ [taken.2] ∧ taken.2.kind = .rightParen ∧
      (plainArguments taken.1 = true →
        Says inner (taken.1.map Argument.words).flatten (GroupedArguments taken.1 room)) := by
  simp only [plainArguments_iff, groupedArguments_iff]
  exact spends_delimited (accumulates_words (fun a : Argument => a.value.isPlain) Argument.words
    fun a => a.StandsAlone room) (spends_argument_words hd) (by decide) s

/-! ### Expressions -/

theorem spends_unaryBehind_words {operator : UnaryOperator} (hopened : opened.kind ≠ .string) :
    SpendsTo s [opened] (unaryBehind deeper opened operator) fun used e t =>
      e.isPlain = true → Says used e.words (∀ floor, e.Grouped room floor (Continuation.of? t.peek)) := by
  refine spends_skipNewlines fun t gap hgap => spends_part _ (hd.expression .unary) fun t used e he =>
    spendsTo_pure fun hplain => ?_
  have hfirst : Says [opened] [(operator.kind, operator.sign)] True :=
    .single hopened operator.kind_ne_string fun _ => trivial
  have hgap : ∀ t ∈ gap, t.kind ≠ .string := fun t ht => by rw [hgap t ht]; decide
  exact ((hfirst.skip hgap).append (he hplain)).imp fun h _ => h.2

theorem spends_firstPart_words (s : ParseState) : SpendsTo s [] (firstPart deeper) fun used e t =>
    e.isPlain = true → Says used e.words (∀ floor, e.Grouped room floor (Continuation.of? t.peek)) := by
  refine spends_look ?_
  -- The first token is taken in every form; it is neither the end of file nor the content of a string.
  have htake {kind : TokenKind} {p : Parse Expression} (hkind : s.peek.kind = kind) (heof : kind ≠ .eof)
      (h : ∀ t, SpendsTo t [s.peek] p fun used e t =>
        e.isPlain = true → Says used e.words (∀ floor, e.Grouped room floor (Continuation.of? t.peek))) :
      SpendsTo s [] (advance >>= fun _ => p) fun used e t =>
        e.isPlain = true → Says used e.words (∀ floor, e.Grouped room floor (Continuation.of? t.peek)) :=
    spends_advance (hkind ▸ heof) h
  split
  · rename_i hkind
    exact htake hkind (by decide) fun t => spendsTo_pure fun _ =>
      .single (by rw [hkind]; decide) nofun fun h _ => h.name hkind
  · rename_i hkind
    have hword : [((.integer, s.peek.text) : Word)] = [s.peek.word] := by rw [Token.word, hkind]
    have hnumber (t : ParseState) := spends_number_words (s := t) .integer (by rw [hkind]; decide) hword
      fun h hnumeral => ⟨hkind ▸ h.word (by rw [hkind]; rfl), hnumeral⟩
    exact htake hkind (by decide) fun t => spends_imp (hnumber t) fun _ _ _ he _ => he.imp fun h _ => h _ _ _
  · rename_i hkind
    have hword : [((.float, s.peek.text) : Word)] = [s.peek.word] := by rw [Token.word, hkind]
    have hnumber (t : ParseState) := spends_number_words (s := t) .float (by rw [hkind]; decide) hword
      fun h hnumeral => ⟨hkind ▸ h.word (by rw [hkind]; rfl), hnumeral⟩
    exact htake hkind (by decide) fun t => spends_imp (hnumber t) fun _ _ _ he _ => he.imp fun h _ => h _ _ _
  · rename_i hkind
    exact htake hkind (by decide) fun t => spends_imp (spends_stringBehind_words (by rw [hkind]; decide))
      fun _ _ _ he _ => he.imp fun h _ => h.grouped _ _ _
  · rename_i hkind
    refine htake hkind (by decide) fun t => spends_look (spends_ite (fun _ => ?_) ?_)
    · exact spends_unplain (orderly_closed.arrowFunctionBehind hd.orderly _) (answers_arrowFunctionBehind_isPlain _)
    · exact spends_imp (spends_vectorBehind_words hd hkind) fun _ _ _ he hplain => (he hplain).imp fun h _ => h _ _
  · rename_i hkind
    exact htake hkind (by decide) fun t => spends_unplain (orderly_closed.functionBehind hd.orderly _ _)
      (answers_functionBehind_isPlain _ _)
  · rename_i hkind
    exact htake hkind (by decide) fun t => spends_unplain (orderly_closed.conditionalBehind hd.orderly _)
      (answers_conditionalBehind_isPlain _)
  · rename_i hkind
    exact htake hkind (by decide) fun t => spends_unplain (orderly_closed.forBehind hd.orderly _)
      (answers_forBehind_isPlain _)
  · rename_i hkind
    exact htake hkind (by decide) fun t => spends_unplain (orderly_closed.whileBehind hd.orderly _)
      (answers_whileBehind_isPlain _)
  · rename_i hkind
    exact htake hkind (by decide) fun t => spends_unplain (orderly_closed.repeatBehind hd.orderly _)
      (answers_repeatBehind_isPlain _)
  · split
    · rename_i value hvalue
      obtain ⟨heof, hstring, w, hwords, hw, hwritable⟩ := wordLiteral?_words hvalue
      refine htake rfl heof fun t => spendsTo_pure fun _ => ?_
      show Says [s.peek] value.words _
      rw [hwords]
      exact .single hstring hw fun _ _ => hwritable
    · rename_i operator _ hoperator
      have hkinds : s.peek.kind ≠ .eof ∧ s.peek.kind ≠ .string := by
        constructor <;> intro hkind <;> simp [Token.unaryOperator?, hkind] at hoperator
      exact htake rfl hkinds.1 fun t => spends_unaryBehind_words hd hkinds.2
    · rintro _ _ _ ⟨⟩

variable {before : List Token} {left : Expression} {floor : Level}

theorem spends_operatorBehind_words {operator : BinaryOperator} (hoperator : s.peek.binaryOperator? = some operator)
    (htight : operator.level.isTighter floor = true)
    (hleft : left.isPlain = true → Says before left.words (left.Grouped room floor (some (.operator operator)))) :
    SpendsTo s before (operatorBehind deeper left operator) (SaysValue room floor) := by
  have hstring := Token.ne_string_of_binaryOperator? hoperator
  have heof : s.peek.kind ≠ .eof := by
    intro hkind
    simp [Token.binaryOperator?, hkind] at hoperator
  have hsign : Says [s.peek] [(operator.kind, operator.sign)] operator.Writable :=
    .single hstring operator.kind_ne_string fun h => h.writable hoperator
  -- A value is plain if both operands are, and if it is no assignment.
  have hplain {right : Expression} {span : Span} (h : (Expression.binary span operator left right).isPlain = true) :
      operator.isAssignment = false ∧ left.isPlain = true ∧ right.isPlain = true := by
    simpa [Expression.isPlain, and_assoc] using h
  refine spends_advance heof fun t => ?_
  by_cases haccess : operator.isAccess = true
  · rw [if_pos haccess]
    refine spends_part _ spends_accessTarget_words fun t used right hright => spendsTo_pure fun h => ?_
    obtain ⟨hassignment, hleftPlain, -⟩ := hplain h
    rw [List.append_assoc]
    refine ((hleft hleftPlain).append (hsign.append hright)).imp ?_
    rintro ⟨hgrouped, hwritable, htarget⟩
    exact ⟨hassignment, hwritable, htight, hgrouped, .inl ⟨haccess, htarget⟩⟩
  · rw [if_neg haccess]
    refine spends_skipNewlines fun t gap hgap => spends_part _ (hd.expression _) fun t used right hright =>
      spendsTo_pure fun h => ?_
    obtain ⟨hassignment, hleftPlain, hrightPlain⟩ := hplain h
    have hgap : ∀ t ∈ gap, t.kind ≠ .string := fun t ht => by rw [hgap t ht]; decide
    rw [List.append_assoc before, List.append_assoc before]
    refine ((hleft hleftPlain).append ((hsign.skip hgap).append (hright hrightPlain))).imp ?_
    rintro ⟨hgrouped, hwritable, hoperand⟩
    exact ⟨hassignment, hwritable, htight, hgrouped, .inr ⟨Bool.eq_false_iff.2 haccess, hoperand⟩⟩

theorem spends_callBehind_words (hopened : s.peek.kind = .leftParen)
    (htight : Continuation.call.level.isTighter floor = true)
    (hleft : left.isPlain = true → Says before left.words (left.Grouped room floor (some .call))) :
    SpendsTo s before (callBehind deeper left) (SaysValue room floor) := by
  refine spends_advance (by rw [hopened]; decide) fun t => spends_part _ (spends_arguments_words hd _) ?_
  rintro t _ ⟨as, close⟩ ⟨inner, rfl, hclose, has⟩
  refine spendsTo_pure fun hplain => ?_
  obtain ⟨hleftPlain, hasPlain⟩ := Bool.and_eq_true_iff.1 hplain
  have harguments := (has hasPlain).parenthesized hopened hclose
  rw [← wordsOfArguments_eq] at harguments
  rw [List.append_assoc]
  exact ((hleft hleftPlain).append harguments).imp fun h => ⟨htight, h⟩

theorem spends_continuationOf_words {c : Continuation} (hc : Continuation.of? s.peek = some c)
    (htight : c.level.isTighter floor = true)
    (hleft : left.isPlain = true → Says before left.words (left.Grouped room floor (some c))) :
    SpendsTo s before (continuationOf deeper left c) (SaysValue room floor) := by
  cases c with
  | operator operator => exact spends_operatorBehind_words hd (Continuation.of?_operator hc) htight hleft
  | call => exact spends_callBehind_words hd (Continuation.of?_call hc) htight hleft
  | index double =>
    have hindex : Answers (indexBehind deeper left double) fun e => e.isPlain = false :=
      answers_next fun _ => answers_ite (answers_next fun _ => answers_pure rfl) (answers_next fun _ => answers_pure rfl)
    exact spends_unplain (orderly_closed.indexBehind hd.orderly _ _) hindex

theorem spends_expressionBody_words (floor : Level) (s : ParseState) :
    SpendsTo s [] (expressionBody deeper floor) fun used e t => e.isPlain = true →
      Says used e.words (e.Grouped room floor (Continuation.of? t.peek) ∧ floor.Stops (Continuation.of? t.peek)) := by
  refine spends_part _ (spends_firstPart_words hd) fun s used first hfirst => spendsTo_rounds (SaysValue room floor)
    (fun s used left hleft => ?_) fun hplain => (hfirst hplain).imp fun h => h floor
  refine spends_look ?_
  split
  · rename_i c hc
    unfold SaysValue at hleft
    rw [hc] at hleft
    split
    · rename_i htight
      exact spends_bind _ (spends_continuationOf_words hd hc htight hleft) fun t all e _ he => spendsTo_pure he
    · rename_i htight
      refine spendsTo_pure fun hplain => ?_
      rw [hc]
      refine (hleft hplain).imp fun h => ⟨h, ?_⟩
      rintro _ ⟨⟩
      exact Bool.eq_false_iff.2 htight
  · rename_i hc
    refine spendsTo_pure fun hplain => (hleft hplain).imp fun h => ⟨h, ?_⟩
    rw [hc]
    exact nofun

/-! ### Decorators -/

theorem spends_decorator_words (s : ParseState) (hs : s.peek.kind = .atSign) : Spends s [] (decorator deeper)
    fun used d => TypeEntry.isWritable d = true → Says used d.words (GroupedArguments d.arguments room) := by
  refine spends_advance (by rw [hs]; decide) fun t => spends_expect (by decide) _ fun t name hname => ?_
  have hat : Says [s.peek] [(.atSign, "@")] True := .single (by rw [hs]; decide) nofun fun _ => trivial
  have hhead (kind : DecoratorKind) : Says ([s.peek] ++ [name]) [(.atSign, "@"), (.identifier, kind.word)] True :=
    (hat.append (.single (w := (.identifier, kind.word)) (by rw [hname]; decide) nofun fun _ => trivial)).imp And.left
  have hbreaks {gap : List Token} (hgap : ∀ t ∈ gap, t.kind = .newline) : ∀ t ∈ gap, t.kind ≠ .string :=
    fun t ht => by rw [hgap t ht]; decide
  dsimp only
  split
  · exact spends_throw _
  · rename_i kind _
    refine spends_accept (by decide) (fun t opened hopened => ?_) ?_
    · refine spends_part _ (spends_arguments_words hd _) ?_
      rintro t _ ⟨as, close⟩ ⟨inner, rfl, hclose, has⟩
      refine spends_skipNewlines fun t gap hgap => spends_pure fun hplain => ?_
      refine Says.skip ?_ (hbreaks hgap)
      have harguments := (has hplain).parenthesized hopened hclose
      rw [← wordsOfArguments_eq] at harguments
      have hall := ((hhead kind).append harguments).imp And.right
      rw [List.append_assoc, List.append_assoc]
      refine hall.reword ?_
      cases as <;> rfl
    · exact spends_skipNewlines fun t gap hgap => spends_pure fun _ => ((hhead kind).imp fun _ => trivial).skip (hbreaks hgap)

omit hd

/-- **The induction over the room that is left.** -/
theorem groups_deeperAt : ∀ room : Nat, Groups room (deeperAt room)
  | 0 => by
    refine ⟨orderly_closed.deeperAt 0, fun floor s => ?_⟩
    rintro _ _ _ ⟨⟩
  | room + 1 => by
    refine ⟨orderly_closed.deeperAt (room + 1), fun floor s => ?_⟩
    have hread := spends_nested (fun _ _ _ h => h) (spends_expressionBody_words (groups_deeperAt room) floor) s
    exact spends_imp hread fun _ _ _ h hplain => (h hplain).imp fun hgrouped => ⟨room, rfl, hgrouped⟩

end Parse
end UnionScript
