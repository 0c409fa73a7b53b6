import UnionScript.Proofs.Grouping
import UnionScript.Proofs.Rereading
import UnionScript.Proofs.Sources
/-!
# Decorations — decorators are read back from their lines

A decorator that was read is written on a line of its own, with those of its arguments that are plain values.  The line
is read as the same decorator exactly if every string in it may stand between double quotes
(`Decorator.isReread_iff`): then it says the words of the decorator, and otherwise another string stands in it in the
place of one of these, and no reader takes it for what it is not.
-/
namespace UnionScript

open Lexeme

/-! ## Decorators at other places -/

/-- The same decorator at another place. -/
structure Decorator.Same (d d' : Decorator) : Prop where
  kind : d'.kind = d.kind
  arguments : SameArguments d.arguments d'.arguments

section Twins

variable {same : Span → Span → Prop} {b b' : List Statement}

mutual

/-- The words of a plain value do not depend on its place. -/
theorem words_of_twins : ∀ {e e' : Expression} {n : Nat}, e.isPlain = true → Twin.OfExpression same b b' n e e' →
    e'.isPlain = true ∧ e'.words = e.words
  | .identifier .., _, _, _, .identifier .. => ⟨rfl, rfl⟩
  | .literal .., _, _, _, .literal .. => ⟨rfl, rfl⟩
  | .vector _ elements, _, _, hplain, .vector _ h => by
    obtain ⟨hplain', hwords⟩ := words_of_elements (show plainAll elements = true from hplain) h
    exact ⟨hplain', by rw [Expression.words, Expression.words, hwords]⟩
  | .unary _ _ operand, _, _, hplain, .unary _ _ h => by
    obtain ⟨hplain', hwords⟩ := words_of_twins (e := operand) hplain h
    exact ⟨hplain', by rw [Expression.words, Expression.words, hwords]⟩
  | .binary _ _ _ _, _, _, hplain, .binary _ _ hleft hright => by
    obtain ⟨hplain, hright'⟩ := Bool.and_eq_true_iff.1 hplain
    obtain ⟨hassignment, hleft'⟩ := Bool.and_eq_true_iff.1 hplain
    obtain ⟨hplainLeft, hwordsLeft⟩ := words_of_twins hleft' hleft
    obtain ⟨hplainRight, hwordsRight⟩ := words_of_twins hright' hright
    refine ⟨?_, by rw [Expression.words, Expression.words, hwordsLeft, hwordsRight]⟩
    rw [Expression.isPlain, hassignment, hplainLeft, hplainRight]
    rfl
  | .call _ _ arguments, _, _, hplain, .call _ h has => by
    obtain ⟨hcallee, harguments⟩ := Bool.and_eq_true_iff.1 hplain
    obtain ⟨hplainCallee, hwordsCallee⟩ := words_of_twins hcallee h
    obtain ⟨hplainArguments, hwordsArguments⟩ :=
      words_of_arguments (show plainArguments arguments = true from harguments) has
    refine ⟨?_, by rw [Expression.words, Expression.words, hwordsCallee, hwordsArguments]⟩
    rw [Expression.isPlain, hplainCallee, hplainArguments]
    rfl

theorem words_of_elements : ∀ {es es' : List Expression} {n : Nat}, plainAll es = true →
    Twin.OfElements same b b' n es es' → plainAll es' = true ∧ wordsOfAll es' = wordsOfAll es
  | [], _, _, _, .nil => ⟨rfl, rfl⟩
  | _ :: es, _, _, hplain, .cons h hrest => by
    obtain ⟨hfirst, hmore⟩ := Bool.and_eq_true_iff.1 hplain
    obtain ⟨hplain', hwords⟩ := words_of_twins hfirst h
    obtain ⟨hplainRest, hwordsRest⟩ := words_of_elements (show plainAll es = true from hmore) hrest
    refine ⟨?_, by rw [wordsOfAll, wordsOfAll, hwords, hwordsRest]⟩
    rw [plainAll, hplain', hplainRest]
    rfl

theorem words_of_arguments : ∀ {as as' : List Argument} {n : Nat}, plainArguments as = true →
    Twin.OfArguments same b b' n as as' → plainArguments as' = true ∧ wordsOfArguments as' = wordsOfArguments as
  | [], _, _, _, .nil => ⟨rfl, rfl⟩
  | _ :: as, _, _, hplain, .cons hname h hrest => by
    obtain ⟨hfirst, hmore⟩ := Bool.and_eq_true_iff.1 hplain
    obtain ⟨hplain', hwords⟩ := words_of_twins hfirst h
    obtain ⟨hplainRest, hwordsRest⟩ := words_of_arguments (show plainArguments as = true from hmore) hrest
    have hnames : ∀ {name name'}, NameTwins same name name' → nameWords name' = nameWords name := by
      rintro _ _ (⟨hname, -⟩ | -)
      · rw [nameWords, nameWords, hname]
      · rfl
    refine ⟨?_, by rw [wordsOfArguments, wordsOfArguments, hwords, hwordsRest, hnames hname]⟩
    rw [plainArguments, hplain', hplainRest]
    rfl

end

theorem isEmpty_of_twins {as as' : List Argument} {n : Nat} (h : Twin.OfArguments same b b' n as as') :
    as'.isEmpty = as.isEmpty := by
  cases h <;> rfl

end Twins

/-- So do the words of a decorator with such arguments. -/
theorem Decorator.Same.words {d d' : Decorator} (h : d.Same d') (hplain : TypeEntry.isWritable d = true) :
    TypeEntry.isWritable d' = true ∧ d'.words = d.words := by
  obtain ⟨hplain', hwords⟩ := words_of_arguments hplain h.arguments
  refine ⟨hplain', ?_⟩
  rw [Decorator.words, Decorator.words, h.kind, isEmpty_of_twins h.arguments, hwords]

/-! ## Arguments that were read -/

/-- Whether those arguments of a decorator that are plain values stand alone, with some room for what they hold. -/
def Decorator.StandsAlone (d : Decorator) (room : Nat) : Prop :=
  ∀ a ∈ d.arguments, a.value.isPlain = true → a.StandsAlone room

/-- Some of them make a list of arguments. -/
theorem Decorator.StandsAlone.grouped {d : Decorator} {room : Nat} (h : d.StandsAlone room) {arguments : List Argument}
    (hplain : ∀ a ∈ arguments, a ∈ d.arguments ∧ a.value.isPlain = true) : GroupedArguments arguments room :=
  groupedArguments_iff.2 fun a ha => h a (hplain a ha).1 (hplain a ha).2

namespace Parse

open Steps

variable {deeper : Deeper} {room : Nat}

/-- What is said of those items that are plain, for whatever others there are. -/
theorem accumulates_plain {α : Type} (plain : α → Bool) (words : α → List Word) (good : α → Prop) :
    Accumulates (fun used a => plain a = true → Says used (words a) (good a)) fun used as =>
      (∀ t ∈ used, t.IsCopied) → ∀ a ∈ as, plain a = true → good a where
  nil _ _ ha := absurd ha List.not_mem_nil
  skip _ htaken hall := htaken (List.forall_mem_append.1 hall).1
  more {all used taken a} htaken ha hall := by
    obtain ⟨hbefore, hlast⟩ := List.forall_mem_append.1 hall
    exact List.forall_mem_append.2 ⟨htaken hbefore, List.forall_mem_singleton.2 fun hplain => (ha hplain).good hlast⟩

/-- The plain arguments of a decorator that is read stand alone, if its tokens can be written down again. -/
theorem spends_decorator_plain (hd : Groups room deeper) (s : ParseState) :
    Spends s [] (decorator deeper) fun used d => (∀ t ∈ used, t.IsCopied) → d.StandsAlone room := by
  refine spends_skip orderly_closed.advance fun s gap₁ sign => ?_
  refine spends_skip (orderly_closed.identifier _) fun s gap₂ name => ?_
  dsimp only
  split
  · exact spends_throw _
  · refine spends_skip (orderly_closed.accept _) fun s gap₃ opened => spends_ite (fun _ => ?_) ?_
    · refine spends_part _ (spends_delimited (accumulates_plain (fun a : Argument => a.value.isPlain) Argument.words
        fun a => a.StandsAlone room) (spends_argument_words hd) (by decide)) ?_
      rintro s _ ⟨as, close⟩ ⟨inner, rfl, -, has⟩
      refine spends_skip orderly_closed.skipNewlines fun s gap₄ _ => spends_pure fun hall => has fun t ht => hall t ?_
      simp [ht]
    · refine spends_skip orderly_closed.skipNewlines fun s gap₄ _ => spends_pure fun _ a ha => ?_
      exact absurd ha List.not_mem_nil

/-! ## Reading a decorator back -/

variable {s : ParseState}

theorem skipNewlines_end {breaks : List Token} (h : ∀ b ∈ breaks, b.kind = .newline)
    (hs : ∀ t ∈ s.rest.head?, t.kind ≠ .newline) : skipNewlines (s.before breaks) = .ok () s := by
  cases hrest : s.rest with
  | nil =>
    have hall : ∀ b ∈ (s.before breaks).rest, (b.kind == .newline) = true := by
      rw [ParseState.rest_before, hrest, List.append_nil]
      exact fun b hb => beq_iff_eq.2 (h b hb)
    unfold skipNewlines
    rw [List.dropWhile_eq_nil_iff.2 hall, ← hrest]
    rfl
  | cons t rest => exact skipNewlines_before h hrest (hs t (by rw [hrest]; rfl))

/-- Takes what stands behind the name of a decorator. -/
def decoratorBehind (deeper : Deeper) (kind : DecoratorKind) (span : Span) : Parse Decorator := do
  if ← accept .leftParen then
    let listed ← arguments deeper .rightParen "`,` or `)` in decorator"
    skipNewlines
    return { kind, arguments := listed.1, span := span.union listed.2.span }
  else
    skipNewlines
    return { kind, arguments := [], span }

theorem decorator_named {sign name : Token} {kind : DecoratorKind} (hname : name.kind = .identifier)
    (hkind : DecoratorKind.ofWord? name.text = some kind) (deeper : Deeper) :
    decorator deeper ((s.before [name]).before [sign]) =
      decoratorBehind deeper kind (sign.span.union name.span) s := by
  unfold decorator
  rw [bind_ok (advance_before _), bind_ok (identifier_before hname _)]
  dsimp only
  rw [hkind]
  rfl

theorem decoratorBehind_none {kind : DecoratorKind} {span : Span} {s' : ParseState} (hnone : s'.peek.kind ≠ .leftParen)
    (hskip : skipNewlines s' = .ok () s) : decoratorBehind deeper kind span s' = .ok ⟨kind, [], span⟩ s := by
  show (accept .leftParen >>= _) s' = _
  rw [bind_ok (accept_none hnone)]
  show (skipNewlines >>= _) s' = _
  rw [bind_ok hskip]
  rfl

theorem decoratorBehind_arguments {kind : DecoratorKind} {span : Span} {behind : ParseState}
    (hskip : skipNewlines behind = .ok () s) {as : List Argument} (h : GroupedArguments as room) {ts : List Token}
    (hts : ts.map Token.word =
      (.leftParen, "(") :: (List.intercalate [(.comma, ",")] (wordsOfArguments as) ++ [(.rightParen, ")")])) :
    ∃ as' span', SameArguments as as' ∧
      decoratorBehind (deeperAt room) kind span (behind.before ts) = .ok ⟨kind, as', span'⟩ s := by
  obtain ⟨opened, ts, rfl, hopened, hts⟩ := List.map_eq_cons_iff.1 hts
  obtain ⟨inner, ts, rfl, hinner, hts⟩ := List.map_eq_append_iff.1 hts
  obtain ⟨close, rfl, hclose⟩ := List.map_eq_singleton_iff.1 hts
  rw [wordsOfArguments_eq] at hinner
  obtain ⟨as', hsame, hdelimited⟩ := delimited_before (s := behind) "`,` or `)` in decorator"
    (of_word hclose).1 rfl (takes_arguments h) hinner
  refine ⟨as', span.union close.span, sameArguments hsame, ?_⟩
  show (accept .leftParen >>= _) ((behind.before (inner ++ [close])).before [opened]) = _
  rw [bind_ok (accept_before (of_word hopened).1), ParseState.before_append]
  show (delimited .rightParen _ _ >>= _) _ = _
  rw [bind_ok hdelimited]
  show (skipNewlines >>= _) behind = _
  rw [bind_ok hskip]
  rfl

/-- **A decorator is read back from its words**, with line ends behind them. -/
theorem decorator_before {d : Decorator} (h : GroupedArguments d.arguments room) {ts breaks : List Token} {line : Token}
    (hts : ts.map Token.word = d.words) (hbreaks : ∀ b ∈ line :: breaks, b.kind = .newline)
    (hs : ∀ t ∈ s.rest.head?, t.kind ≠ .newline) :
    ∃ d', d.Same d' ∧ decorator (deeperAt room) (s.before (ts ++ line :: breaks)) = .ok d' s := by
  obtain ⟨sign, ts, rfl, -, hts⟩ := List.map_eq_cons_iff.1 hts
  obtain ⟨name, ts, rfl, hname, hts⟩ := List.map_eq_cons_iff.1 hts
  obtain ⟨hname, htext⟩ := of_word hname
  have hkind : DecoratorKind.ofWord? name.text = some d.kind := by
    rw [htext]
    cases d.kind <;> rfl
  let behind := s.before (line :: breaks)
  have hskip : skipNewlines behind = .ok () s := skipNewlines_end hbreaks hs
  have hstate : s.before (sign :: name :: ts ++ line :: breaks) = ((behind.before ts).before [name]).before [sign] := by
    simp [behind, ParseState.before]
  rw [hstate, decorator_named hname hkind]
  split at hts
  · rename_i hempty
    rw [List.map_eq_nil_iff.1 hts]
    have hnone : behind.peek.kind ≠ .leftParen := by
      rw [ParseState.peek_before_cons, hbreaks line List.mem_cons_self]
      decide
    have hsame : SameArguments d.arguments [] := by
      rw [List.isEmpty_iff.1 hempty]
      exact .nil
    exact ⟨⟨d.kind, [], _⟩, ⟨rfl, hsame⟩, decoratorBehind_none hnone hskip⟩
  · obtain ⟨as, span, hsame, hread⟩ := decoratorBehind_arguments hskip h hts
    exact ⟨⟨d.kind, as, span⟩, ⟨rfl, hsame⟩, hread⟩

end Parse

/-! ## Lines of decorators -/

/-- Some words that are seen of a text are its first tokens. -/
theorem Lexeme.exists_tokens (file : String) : ∀ {ls : List Lexeme} {words : List Word}
    {more : List (LexemeRole × String)} (p : Position), seen ls = words.map sight ++ more →
    ∃ ts us, (layOut p ls).filterMap (token? file) = ts ++ us ∧ ts.map Token.word = words
  | _, [], _, _, _ => ⟨[], _, rfl, rfl⟩
  | [], _ :: _, _, _, h => nomatch h
  | ⟨.blank, run⟩ :: ls, w :: words, _, p, h => exists_tokens file (p.after run) (show seen ls = _ from h)
  | ⟨.stray, _⟩ :: _, _ :: _, _, _, h => nomatch (List.cons.inj h).1
  | ⟨.token kind, run⟩ :: ls, w :: words, _, p, h => by
    rw [seen_token] at h
    obtain ⟨hw, h⟩ := List.cons.inj h
    obtain ⟨ts, us, htokens, hts⟩ := exists_tokens file (p.after run) h
    obtain ⟨hkind, htext⟩ := Prod.mk.inj hw
    let t : Token := ⟨kind, Lexeme.text ⟨.token kind, run⟩, file, p⟩
    have hword : t.word = w := Prod.ext (LexemeRole.token.inj hkind) htext
    exact ⟨t :: ts, us, congrArg (t :: ·) htokens, by rw [List.map_cons, hword, hts]⟩

/-- The tokens of a file can be written down again. -/
theorem SourceFile.isCopied_line {source : SourceFile} : ∀ t ∈ source.line, t.IsCopied :=
  List.forall_mem_append.2 ⟨fun _ => isCopied, List.forall_mem_singleton.2 ⟨nofun, nofun⟩⟩

theorem isCopied_ofSources (sources : List SourceFile) : ∀ t ∈ (ParseState.ofSources sources).rest, t.IsCopied := by
  intro t ht
  obtain ⟨source, -, ht⟩ := List.mem_flatMap.1 ht
  exact source.isCopied_line t ht

namespace Decorator

/-- A file that holds the line of a decorator and nothing else. -/
def lineFile (d : Decorator) (file : String) : SourceFile := ⟨file, TypeEntry.decoratorLine d⟩

/-- Whether the line of a decorator is read as the same decorator, with some room for what it holds: no character is
left over, no token is left behind it, and no error is recorded. -/
def IsReread (d : Decorator) (room : Nat) : Prop :=
  ∀ file, (d.lineFile file).strays = [] ∧ ∃ d' s, d.Same d' ∧ s.rest = [] ∧ s.errors = [] ∧
    Parse.decorator (Parse.deeperAt room) (.ofSources [d.lineFile file]) = .ok d' s

variable {d : Decorator} {room : Nat}

/-- A line whose strings may stand between double quotes says the words of the decorator. -/
theorem marks_line (h : GroupedArguments d.arguments room) (hquotable : quotableArguments d.arguments = true) :
    Marks (TypeEntry.decoratorLine d).toList (d.words ++ [(.newline, "\n")]) :=
  fun brackets rest => (d.prints h brackets rest trivial).1 hquotable

theorem isReread_of_quotable (h : GroupedArguments d.arguments room)
    (hquotable : quotableArguments d.arguments = true) : d.IsReread room := by
  intro file
  have hspells : Spells (d.lineFile file).text.toList (d.words ++ [(.newline, "\n")]) := (marks_line h hquotable).spells
  obtain ⟨htokens, hstrays⟩ := SourceFile.of_spells hspells
  obtain ⟨ts, lines, hline, hts, hlines⟩ := List.map_eq_append_iff.1 htokens
  obtain ⟨line, rfl, hword⟩ := List.map_eq_singleton_iff.1 hlines
  let last : ParseState := { rest := [], eof := TokenStream.endOf [d.lineFile file] }
  have hbreaks : ∀ b ∈ [line, (d.lineFile file).lineEnd], b.kind = .newline :=
    List.forall_mem_cons.2 ⟨(of_word hword).1, List.forall_mem_singleton.2 rfl⟩
  obtain ⟨d', hsame, hread⟩ := Parse.decorator_before (s := last) h hts hbreaks nofun
  have hstate : ParseState.ofSources [d.lineFile file] = last.before (ts ++ [line, (d.lineFile file).lineEnd]) := by
    rw [ofSources_singleton, SourceFile.line, hline, List.append_assoc]
    rfl
  exact ⟨hstrays, d', last, hsame, rfl, rfl, hstate ▸ hread⟩

/-- In another line another string stands in the place of one of its own. -/
theorem quotable_of_isReread (h : GroupedArguments d.arguments room) (hplain : TypeEntry.isWritable d = true)
    (hreread : d.IsReread room) : quotableArguments d.arguments = true := by
  by_contra hnot
  obtain ⟨-, d', s, hsame, -, -, hread⟩ := hreread ""
  have hprints := (d.prints h [] [] trivial).2 (Bool.eq_false_iff.2 hnot)
  rw [List.append_nil] at hprints
  obtain ⟨before, lost, after, other, more, hwords, hne, hseen⟩ := hprints
  obtain ⟨ts, us, htokens, hts⟩ := exists_tokens "" .start hseen
  have hrest : (ParseState.ofSources [d.lineFile ""]).rest = ts ++ (us ++ [(d.lineFile "").lineEnd]) := by
    rw [rest_ofSources_singleton, ← List.append_assoc, ← htokens]
    rfl
  -- The line starts with the sign of a decorator, whatever its strings are.
  have hsign : (ParseState.ofSources [d.lineFile ""]).peek.kind = .atSign := by
    cases before with
    | nil => exact nomatch (List.cons.inj hwords).1
    | cons w before =>
      obtain ⟨rfl, -⟩ := List.cons.inj hwords
      obtain ⟨t, rest, rfl, ht, -⟩ := List.map_eq_cons_iff.1 hts
      rw [Parse.peek_of_head? (t := t) (by rw [hrest]; rfl)]
      exact (of_word ht).1
  obtain ⟨-, used, hused, hreadWords⟩ := Parse.spends_decorator_words (Parse.groups_deeperAt room) _ hsign
    (eof_ofSources _) d' s hread
  obtain ⟨hplain', hsameWords⟩ := hsame.words hplain
  -- What was read says the words of the decorator, so the strings among the tokens taken are its own.
  have hstrings : quoted (used.map Token.word) = quoted d.words := by
    rw [← hsameWords]
    exact (hreadWords hplain').strings
  have hown : quoted d.words = quoted before ++ lost :: quoted after := by
    have hline : quoted (d.words ++ [(.newline, "\n")]) = quoted d.words := by
      rw [quoted_append]
      exact List.append_nil _
    rw [← hline, hwords, quoted_append, quoted_cons_of_eq rfl]
  -- Up to the lost one the tokens of the line have the same strings, and in its place they have the other one.
  have hall := congrArg (fun ts => quoted (ts.map Token.word)) (hrest.symm.trans hused)
  simp only [List.map_append, quoted_append, hstrings, hown, hts, quoted_cons_of_eq, List.append_assoc,
    List.cons_append] at hall
  exact hne (List.cons.inj (List.append_cancel_left hall)).1

/-- **A decorator with plain arguments is read back from its line exactly if every string in it may stand between double
quotes.** -/
theorem isReread_iff (h : GroupedArguments d.arguments room) (hplain : TypeEntry.isWritable d = true) :
    d.IsReread room ↔ quotableArguments d.arguments = true :=
  ⟨quotable_of_isReread h hplain, isReread_of_quotable h⟩

end Decorator

namespace Parse

variable {room : Nat} {s t : ParseState} {d : Decorator}

/-- **The plain arguments of a decorator that is read stand alone.** -/
theorem standsAlone_of_decorator (h : decorator (deeperAt room) s = .ok d t) (heof : s.eof.kind = .eof)
    (hcopied : ∀ t ∈ s.rest, t.IsCopied) : d.StandsAlone room := by
  obtain ⟨-, used, hused, hd⟩ := spends_decorator_plain (groups_deeperAt room) s heof d t h
  exact hd fun u hu => hcopied u (hused ▸ List.mem_append_left _ hu)

end Parse

end UnionScript
