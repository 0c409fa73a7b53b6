import UnionScript.Grammar.Nesting
import UnionScript.Proofs.TypeGrammar
import UnionScript.Proofs.Twins
import UnionScript.Proofs.Writing
/-!
# Rereading — plain values are read back from their words

Tokens that say the words of a plain value are read as that value, if it is grouped the way its words are read at that
place: reading comes to the point where the value is what has been read, in front of what follows the tokens
(`Expression.Grouped.reread`).  What an expression is continued by is decided in front of every operator, so what is
read is told by the operator that follows, and it is the same as when the value was read first.
-/
namespace UnionScript

open Lexeme

/-! ## Values at other places -/

/-- The same expression at another place. -/
abbrev Expression.Same (e e' : Expression) : Prop := Twin.OfExpression (fun _ _ => True) [] [] 0 e e'

/-- The same argument at another place. -/
structure Argument.Same (a a' : Argument) : Prop where
  name : NameTwins (fun _ _ => True) a.name a'.name
  value : a.value.Same a'.value

/-- The same arguments at other places. -/
abbrev SameArguments (as as' : List Argument) : Prop := Twin.OfArguments (fun _ _ => True) [] [] 0 as as'

theorem sameElements {es es' : List Expression} (h : List.Forall₂ Expression.Same es es') :
    Twin.OfElements (fun _ _ => True) [] [] 0 es es' := by
  induction h with
  | nil => exact .nil
  | cons h _ ih => exact .cons h ih

theorem sameArguments {as as' : List Argument} (h : List.Forall₂ Argument.Same as as') : SameArguments as as' := by
  induction h with
  | nil => exact .nil
  | @cons a a' _ _ h _ ih =>
    obtain ⟨_, _⟩ := a
    obtain ⟨_, _⟩ := a'
    exact .cons h.name h.value ih

/-! ## Words of plain values -/

/-- The kinds of tokens that close a list of items. -/
def TokenKind.closesItems : TokenKind → Bool
  | .rightParen | .rightBracket | .doubleRightBracket => true
  | _ => false

/-- Words that begin with another one than a line end or the end of a list, as an item of a list does. -/
def Begins (words : List Word) : Prop := ∃ w ws, words = w :: ws ∧ w.1 ≠ .newline ∧ w.1.closesItems = false

/-- Words that begin like a value, and so not with a name and the sign of equality behind it. -/
def BeginsValue (words : List Word) : Prop := ∃ w ws, words = w :: ws ∧ w.1 ≠ .newline ∧ w.1.closesItems = false ∧
  (w.1 = .identifier → ∀ u ∈ ws.head?, u.1 ≠ .equal)

theorem BeginsValue.begins {words : List Word} : BeginsValue words → Begins words
  | ⟨w, ws, hwords, hline, hclose, _⟩ => ⟨w, ws, hwords, hline, hclose⟩

theorem Begins.append {words : List Word} (others : List Word) : Begins words → Begins (words ++ others)
  | ⟨w, ws, hwords, hkind⟩ => ⟨w, ws ++ others, by rw [hwords, List.cons_append], hkind⟩

theorem BeginsValue.append {words others : List Word} : BeginsValue words → (∀ u ∈ others.head?, u.1 ≠ .equal) →
    BeginsValue (words ++ others)
  | ⟨w, ws, hwords, hline, hclose, hname⟩, hothers => by
    refine ⟨w, ws ++ others, by rw [hwords, List.cons_append], hline, hclose, fun hkind => ?_⟩
    cases ws with
    | nil => exact hothers
    | cons u ws => exact hname hkind

/-- Tokens that say such words begin with such a token. -/
theorem Begins.exists_cons {words : List Word} (h : Begins words) {ts : List Token} (hts : ts.map Token.word = words) :
    ∃ t rest, ts = t :: rest ∧ t.kind ≠ .newline ∧ t.kind.closesItems = false := by
  obtain ⟨w, ws, rfl, hline, hclose⟩ := h
  obtain ⟨t, rest, rfl, ht, -⟩ := List.map_eq_cons_iff.1 hts
  obtain ⟨hkind, -⟩ := of_word ht
  exact ⟨t, rest, rfl, hkind ▸ hline, hkind ▸ hclose⟩

theorem beginsValue_cons {w : Word} {ws : List Word}
    (h : w.1 ≠ .newline ∧ w.1.closesItems = false ∧ w.1 ≠ .identifier) : BeginsValue (w :: ws) :=
  ⟨w, ws, rfl, h.1, h.2.1, fun e => absurd e h.2.2⟩

theorem beginsValue_name (name : String) : BeginsValue [(.identifier, name)] := by
  refine ⟨_, [], rfl, nofun, rfl, fun _ u hu => ?_⟩
  exact absurd hu (Option.not_mem_none u)

theorem begins_intercalate {words : List Word} (h : Begins words) : ∀ more : List (List Word),
    Begins (List.intercalate [(.comma, ",")] (words :: more))
  | [] => by rwa [List.intercalate_singleton]
  | others :: more => by
    rw [List.intercalate_cons_cons, List.append_assoc]
    exact h.append _

theorem Literal.beginsValue (value : Literal) : BeginsValue value.words := by
  cases value with
  | boolean value => cases value <;> exact beginsValue_cons ⟨nofun, rfl, nofun⟩
  | constant value => cases value <;> exact beginsValue_cons ⟨nofun, rfl, nofun⟩
  | _ => exact beginsValue_cons ⟨nofun, rfl, nofun⟩

theorem BinaryOperator.kind_ne_equal {operator : BinaryOperator} (h : operator.isAssignment = false) :
    operator.kind ≠ .equal := by
  intro hkind
  cases operator with
  | assign => cases h
  | _ => cases hkind

theorem Expression.Grouped.beginsValue : ∀ {e : Expression} {room : Nat} {floor : Level} {next : Option Continuation},
    e.Grouped room floor next → BeginsValue e.words
  | .identifier _ name, _, _, _, _ => beginsValue_name name
  | .literal _ value, _, _, _, _ => value.beginsValue
  | .vector _ _, _, _, _, _ => beginsValue_cons (by decide)
  | .unary _ operator _, _, _, _, _ => by
    refine beginsValue_cons ?_
    cases operator <;> decide
  | .binary _ _ _ _, _, _, _, ⟨hassignment, _, _, hleft, _⟩ => by
    refine hleft.beginsValue.append ?_
    rintro _ ⟨⟩
    exact BinaryOperator.kind_ne_equal hassignment
  | .call _ _ _, _, _, _, ⟨_, hcallee, _⟩ => by
    refine hcallee.beginsValue.append ?_
    rintro _ ⟨⟩
    decide
  | .conditional .., _, _, _, h | .forLoop .., _, _, _, h | .whileLoop .., _, _, _, h | .repeatLoop .., _, _, _, h
  | .function .., _, _, _, h | .index .., _, _, _, h => False.elim h

/-! ### Parentheses -/

namespace Parse

theorem closesBeforeArrow_cons (depth : Nat) (t : Token) (rest : List Token) :
    closesBeforeArrow depth (t :: rest) = match t.kind with
      | .leftParen => closesBeforeArrow (depth + 1) rest
      | .rightParen => match depth with
        | 0 => rest.head?.any fun next => next.kind == .colon || next.kind == .fatArrow
        | depth + 1 => closesBeforeArrow depth rest
      | _ => closesBeforeArrow depth rest :=
  closesBeforeArrow.eq_def depth (t :: rest)

/-- Words in which every parenthesis is closed: a look for the one that closes those around them passes over them. -/
def Balances (words : List Word) : Prop := ∀ ts : List Token, ts.map Token.word = words → ∀ depth rest,
  closesBeforeArrow depth (ts ++ rest) = closesBeforeArrow depth rest

theorem balances_nil : Balances [] := by
  intro ts hts depth rest
  rw [List.map_eq_nil_iff.1 hts, List.nil_append]

theorem Balances.append {words others : List Word} (h : Balances words) (h' : Balances others) :
    Balances (words ++ others) := by
  intro ts hts depth rest
  obtain ⟨us, vs, rfl, hus, hvs⟩ := List.map_eq_append_iff.1 hts
  rw [List.append_assoc, h us hus, h' vs hvs]

theorem balances_single {w : Word} (h : w.1 ≠ .leftParen ∧ w.1 ≠ .rightParen) : Balances [w] := by
  intro ts hts depth rest
  obtain ⟨t, rfl, ht⟩ := List.map_eq_singleton_iff.1 hts
  obtain ⟨hkind, -⟩ := of_word ht
  rw [List.singleton_append, closesBeforeArrow_cons]
  split
  · rename_i hopen
    exact absurd (hkind.symm.trans hopen) h.1
  · rename_i hclose
    exact absurd (hkind.symm.trans hclose) h.2
  · rfl

theorem Balances.parenthesized {words : List Word} (h : Balances words) :
    Balances ((.leftParen, "(") :: (words ++ [(.rightParen, ")")])) := by
  intro ts hts depth rest
  obtain ⟨opened, ts, rfl, hopened, hts⟩ := List.map_eq_cons_iff.1 hts
  obtain ⟨us, closes, rfl, hus, hcloses⟩ := List.map_eq_append_iff.1 hts
  obtain ⟨close, rfl, hclose⟩ := List.map_eq_singleton_iff.1 hcloses
  rw [List.cons_append, List.append_assoc, closesBeforeArrow_cons, (of_word hopened).1]
  dsimp only
  rw [h us hus, List.singleton_append, closesBeforeArrow_cons, (of_word hclose).1]

theorem balances_intercalate : ∀ {wordss : List (List Word)}, (∀ words ∈ wordss, Balances words) →
    Balances (List.intercalate [(.comma, ",")] wordss)
  | [], _ => balances_nil
  | [words], h => by
    rw [List.intercalate_singleton]
    exact h words List.mem_cons_self
  | words :: others :: rest, h => by
    obtain ⟨hwords, hrest⟩ := List.forall_mem_cons.1 h
    rw [List.intercalate_cons_cons]
    have hcomma : Balances [(.comma, ",")] := balances_single ⟨nofun, nofun⟩
    exact (hwords.append hcomma).append (balances_intercalate hrest)

theorem balances_literal (value : Literal) : Balances value.words := by
  cases value with
  | string content =>
    have hquote : Balances [(.quote, "\"")] := balances_single ⟨nofun, nofun⟩
    have hcontent : Balances [(.string, content)] := balances_single ⟨nofun, nofun⟩
    exact hquote.append (hcontent.append hquote)
  | boolean value => cases value <;> exact balances_single ⟨nofun, nofun⟩
  | constant value => cases value <;> exact balances_single ⟨nofun, nofun⟩
  | _ => exact balances_single ⟨nofun, nofun⟩

mutual

theorem balances_expression : ∀ e : Expression, Balances e.words
  | .identifier _ _ => balances_single ⟨nofun, nofun⟩
  | .literal _ value => balances_literal value
  | .vector _ elements => (balances_intercalate (balances_elements elements)).parenthesized
  | .unary _ operator operand => by
    have hsign : Balances [(operator.kind, operator.sign)] := balances_single (by cases operator <;> exact ⟨nofun, nofun⟩)
    exact hsign.append (balances_expression operand)
  | .binary _ operator left right => by
    have hsign : Balances [(operator.kind, operator.sign)] := balances_single (by cases operator <;> exact ⟨nofun, nofun⟩)
    exact (balances_expression left).append (hsign.append (balances_expression right))
  | .call _ callee arguments =>
    (balances_expression callee).append (balances_intercalate (balances_arguments arguments)).parenthesized
  | .conditional .. | .forLoop .. | .whileLoop .. | .repeatLoop .. | .function .. | .index .. => balances_nil

theorem balances_elements : ∀ es : List Expression, ∀ words ∈ wordsOfAll es, Balances words
  | [] => nofun
  | e :: es => List.forall_mem_cons.2 ⟨balances_expression e, balances_elements es⟩

theorem balances_arguments : ∀ as : List Argument, ∀ words ∈ wordsOfArguments as, Balances words
  | [] => nofun
  | ⟨none, value⟩ :: as => List.forall_mem_cons.2 ⟨balances_expression value, balances_arguments as⟩
  | ⟨some named, value⟩ :: as => by
    have hname : Balances [(.identifier, named.1)] := balances_single ⟨nofun, nofun⟩
    have hequal : Balances [(.equal, "=")] := balances_single ⟨nofun, nofun⟩
    exact List.forall_mem_cons.2
      ⟨(hname.append hequal).append (balances_expression value), balances_arguments as⟩

end

/-! ## Items -/

open Steps

section Items

variable {α : Type} {s : ParseState}

/-- A reader takes some words off in front of a comma or of the end of a list. -/
def TakesItem (item : Parse α) (words : List Word) (same : α → Prop) : Prop :=
  ∀ (ts : List Token) (s : ParseState), ts.map Token.word = words →
    (s.peek.kind = .comma ∨ s.peek.kind.closesItems = true) → ∃ a, same a ∧ item (s.before ts) = .ok a s

/-- Where the next token is no line end, none is skipped. -/
theorem skipNewlines_none {t : Token} {ts : List Token} (hrest : s.rest = t :: ts) (h : t.kind ≠ .newline) :
    skipNewlines s = .ok () s := by
  have hskip : skipNewlines (s.before []) = .ok () s := skipNewlines_before nofun hrest h
  exact hskip

/-- A round of reading items up to what closes their list. -/
def itemsRound (kind : TokenKind) (what : String) (item : Parse α) (taken : List α) :
    Parse (Round (List α) (List α)) := do
  if ← check kind then
    return .done taken
  else
    let a ← item
    skipNewlines
    if ← accept .comma then
      skipNewlines
      return .again (taken ++ [a])
    else if ← check kind then
      return .done (taken ++ [a])
    else
      expected what

variable {β : Type} {words : β → List Word} {same : β → α → Prop} {item : Parse α} {kind : TokenKind}

/-- A token is not of the kind that closes a list if it closes none. -/
theorem ne_of_closesItems {t : Token} (hkind : kind.closesItems = true) (ht : t.kind.closesItems = false) :
    t.kind ≠ kind := by
  rintro rfl
  exact Bool.false_ne_true (ht.symm.trans hkind)

theorem rounds_items_before (what : String) {close : Token} (hclose : close.kind = kind)
    (hkind : kind.closesItems = true) : ∀ {bs : List β},
    (∀ b ∈ bs, Begins (words b) ∧ TakesItem item (words b) (same b)) → ∀ {ts : List Token} (taken : List α),
    ts.map Token.word = List.intercalate [(.comma, ",")] (bs.map words) →
    ∃ as, List.Forall₂ same bs as ∧
      rounds (itemsRound kind what item) taken ((s.before [close]).before ts) = .ok (taken ++ as) (s.before [close])
  | [], _, ts, taken, hts => by
    rw [List.map_eq_nil_iff.1 hts]
    refine ⟨[], .nil, rounds_done ?_⟩
    show (check kind >>= _) (s.before [close]) = _
    rw [bind_ok (check_next hclose), List.append_nil]
    rfl
  | [b], h, ts, taken, hts => by
    obtain ⟨⟨hbegins, htakes⟩, -⟩ := List.forall_mem_cons.1 h
    rw [List.map_singleton, List.intercalate_singleton] at hts
    obtain ⟨t, rest, rfl, -, ht⟩ := hbegins.exists_cons hts
    obtain ⟨a, ha, hitem⟩ := htakes _ (s.before [close]) hts (.inr (hclose ▸ hkind))
    refine ⟨[a], .cons ha .nil, rounds_done ?_⟩
    have hcomma : (s.before [close]).peek.kind ≠ .comma := by
      rw [ParseState.peek_before_cons, hclose]
      rintro rfl
      cases hkind
    have hskip : skipNewlines (s.before [close]) = .ok () (s.before [close]) := by
      refine skipNewlines_none rfl ?_
      rw [hclose]
      rintro rfl
      cases hkind
    have hnone : check kind ((s.before [close]).before (t :: rest)) = .ok false _ :=
      check_none (ne_of_closesItems hkind ht)
    show (check kind >>= _) _ = _
    rw [bind_ok hnone]
    show (item >>= _) _ = _
    rw [bind_ok hitem, bind_ok hskip, bind_ok (accept_none hcomma)]
    show (check kind >>= _) _ = _
    rw [bind_ok (check_next hclose)]
    rfl
  | b :: c :: bs, h, ts, taken, hts => by
    obtain ⟨⟨hbegins, htakes⟩, hrest⟩ := List.forall_mem_cons.1 h
    rw [List.map_cons, List.map_cons, List.intercalate_cons_cons, ← List.map_cons, List.append_assoc] at hts
    obtain ⟨us, vs, rfl, hus, hvs⟩ := List.map_eq_append_iff.1 hts
    obtain ⟨comma, more, rfl, hcomma, hmore⟩ := List.map_eq_cons_iff.1 hvs
    obtain ⟨hcomma, -⟩ := of_word hcomma
    obtain ⟨t, rest, rfl, -, ht⟩ := hbegins.exists_cons hus
    have hsecond := begins_intercalate (List.forall_mem_cons.1 hrest).1.1 (bs.map words)
    obtain ⟨u, after, rfl, hu, -⟩ := hsecond.exists_cons hmore
    let behind := (s.before [close]).before (u :: after)
    obtain ⟨a, ha, hitem⟩ := htakes _ (behind.before [comma]) hus (.inl hcomma)
    obtain ⟨as, has, hrounds⟩ := rounds_items_before what hclose hkind hrest (taken ++ [a]) hmore
    refine ⟨a :: as, .cons ha has, ?_⟩
    have hnone : check kind ((behind.before [comma]).before (t :: rest)) = .ok false _ :=
      check_none (ne_of_closesItems hkind ht)
    have hround : itemsRound kind what item taken ((behind.before [comma]).before (t :: rest)) =
        .ok (.again (taken ++ [a])) behind := by
      show (check kind >>= _) _ = _
      rw [bind_ok hnone]
      show (item >>= _) _ = _
      rw [bind_ok hitem, bind_ok (skipNewlines_none rfl (by rw [hcomma]; decide)), bind_ok (accept_before hcomma)]
      show (skipNewlines >>= _) _ = _
      rw [bind_ok (skipNewlines_none rfl hu)]
      rfl
    rw [ParseState.before_append, ParseState.before_cons _ comma, rounds_again hround (by simp; omega), hrounds,
      List.append_assoc]
    rfl

/-- **Items are read one by one from their words**, with commas between them and up to what closes their list. -/
theorem delimited_before (what : String) {close : Token} (hclose : close.kind = kind) (hkind : kind.closesItems = true)
    {bs : List β} (h : ∀ b ∈ bs, Begins (words b) ∧ TakesItem item (words b) (same b)) {ts : List Token}
    (hts : ts.map Token.word = List.intercalate [(.comma, ",")] (bs.map words)) :
    ∃ as, List.Forall₂ same bs as ∧
      delimited kind what item ((s.before [close]).before ts) = .ok (as, close) s := by
  obtain ⟨as, has, hrounds⟩ := rounds_items_before (s := s) what hclose hkind h [] hts
  refine ⟨as, has, ?_⟩
  have hskip : skipNewlines ((s.before [close]).before ts) = .ok () ((s.before [close]).before ts) := by
    cases bs with
    | nil =>
      rw [List.map_eq_nil_iff.1 hts]
      refine skipNewlines_none rfl ?_
      rw [hclose]
      rintro rfl
      cases hkind
    | cons b bs =>
      obtain ⟨t, rest, rfl, ht, -⟩ := (begins_intercalate (h b List.mem_cons_self).1 (bs.map words)).exists_cons hts
      exact skipNewlines_none rfl ht
  have hitems : items kind what item ((s.before [close]).before ts) = .ok as (s.before [close]) := by
    show (skipNewlines >>= fun _ => rounds (itemsRound kind what item) []) _ = _
    rw [bind_ok hskip, hrounds, List.nil_append]
  show (items kind what item >>= _) _ = _
  rw [bind_ok hitems]
  rfl

end Items

/-! ## Values -/

section Values

variable {s : ParseState} {deeper : Deeper} {floor : Level}

/-- What follows a value that is read back: the same continuation, and nothing that makes parameters of a vector. -/
structure Follows (next : Option Continuation) (s : ParseState) : Prop where
  continuation : Continuation.of? s.peek = next
  noColon : s.peek.kind ≠ .colon
  noArrow : s.peek.kind ≠ .fatArrow

/-- In a list, what follows an item does not go on with it. -/
theorem follows_item (h : s.peek.kind = .comma ∨ s.peek.kind.closesItems = true) : Follows none s := by
  have hkind : s.peek.kind = .comma ∨ s.peek.kind = .rightParen ∨ s.peek.kind = .rightBracket ∨
      s.peek.kind = .doubleRightBracket := by
    refine h.imp_right fun hclose => ?_
    unfold TokenKind.closesItems at hclose
    split at hclose <;> simp_all
  rcases hkind with hkind | hkind | hkind | hkind <;> refine ⟨?_, ?_, ?_⟩ <;>
    simp [Continuation.of?, Token.binaryOperator?, hkind]

/-- A round of reading what an expression is continued by. -/
def continuedRound (deeper : Deeper) (floor : Level) (left : Expression) : Parse (Round Expression Expression) := do
  match Continuation.of? (← peek) with
  | some continuation =>
    if continuation.level.isTighter floor then return .again (← continuationOf deeper left continuation)
    else return .done left
  | none => return .done left

theorem continued_eq (e : Expression) : continued deeper floor e = rounds (continuedRound deeper floor) e := rfl

/-- An expression ends in front of what does not belong to it. -/
theorem continued_stops (h : floor.Stops (Continuation.of? s.peek)) (e : Expression) :
    continued deeper floor e s = .ok e s := by
  refine rounds_done ?_
  show continuedRound deeper floor e s = _
  rw [continuedRound, bind_ok (show peek s = .ok s.peek s from rfl)]
  cases hc : Continuation.of? s.peek with
  | none => rfl
  | some c =>
    dsimp only
    rw [if_neg (Bool.eq_false_iff.1 (h c hc))]
    rfl

/-- It goes on with what does. -/
theorem continued_again {c : Continuation} (hc : Continuation.of? s.peek = some c) (htight : c.level.isTighter floor = true)
    {left e : Expression} {t : ParseState} (h : continuationOf deeper left c s = .ok e t)
    (hless : t.rest.length < s.rest.length) : continued deeper floor left s = continued deeper floor e t := by
  refine rounds_again ?_ hless
  show continuedRound deeper floor left s = _
  rw [continuedRound, bind_ok (show peek s = .ok s.peek s from rfl), hc]
  dsimp only
  rw [if_pos htight, bind_ok h]
  rfl

/-- Whether some words are read as the first part of an expression, up to what follows them. -/
def Rereads (deeper : Deeper) (floor : Level) (next : Option Continuation) (words : List Word)
    (same : Expression → Prop) : Prop :=
  ∀ (ts : List Token) (s : ParseState), ts.map Token.word = words → Follows next s →
    ∃ e, same e ∧ expressionBody deeper floor (s.before ts) = continued deeper floor e s

/-- An expression that ends in front of what follows it is read back one level deeper. -/
theorem Rereads.inside {room : Nat} {next : Option Continuation} {words : List Word} {same : Expression → Prop}
    (h : Rereads (deeperAt room) floor next words same) (hstops : floor.Stops next) {ts : List Token}
    (hts : ts.map Token.word = words) (hs : Follows next s) :
    ∃ e, same e ∧ (deeperAt (room + 1)).expression floor (s.before ts) = .ok e s := by
  let deep : ParseState := { s with depth := s.depth + 1 }
  obtain ⟨e, he, hread⟩ := h ts deep hts ⟨hs.continuation, hs.noColon, hs.noArrow⟩
  have hdone : continued (deeperAt room) floor e deep = .ok e deep := by
    refine continued_stops ?_ e
    show floor.Stops (Continuation.of? s.peek)
    rwa [hs.continuation]
  refine ⟨e, he, ?_⟩
  have hbody : expressionBody (deeperAt room) floor { s.before ts with depth := (s.before ts).depth + 1 } = .ok e deep :=
    hread.trans hdone
  show nested (expressionBody (deeperAt room) floor) (s.before ts) = _
  rw [nested_ok hbody]
  rfl

/-- What is read as a first part is what has been read. -/
theorem rereads_firstPart {next : Option Continuation} {words : List Word} {same : Expression → Prop}
    (h : ∀ (ts : List Token) (s : ParseState), ts.map Token.word = words → Follows next s →
      ∃ e, same e ∧ firstPart deeper (s.before ts) = .ok e s) : Rereads deeper floor next words same := by
  intro ts s hts hs
  obtain ⟨e, he, hread⟩ := h ts s hts hs
  exact ⟨e, he, bind_ok hread⟩

/-! ### Names and literals -/

theorem firstPart_identifier {t : Token} (ht : t.kind = .identifier) :
    firstPart deeper (s.before [t]) = .ok (.identifier t.span t.text) s := by
  show (peek >>= _) (s.before [t]) = _
  rw [bind_ok (show peek (s.before [t]) = .ok t (s.before [t]) from rfl), ht]
  rfl

theorem firstPart_number {t : Token} {kind : TokenKind} {value : String → Literal} (ht : t.kind = kind)
    (hkind : kind = .integer ∧ value = .integer ∨ kind = .float ∧ value = .float)
    (hnumeral : Numeral.isNumeral t.text = true) :
    firstPart deeper (s.before [t]) = .ok (.literal t.span (value t.text)) s := by
  have hnumber : number t value s = .ok (.literal t.span (value t.text)) s := by
    rw [number, if_pos hnumeral]
    rfl
  show (peek >>= _) (s.before [t]) = _
  rw [bind_ok (show peek (s.before [t]) = .ok t (s.before [t]) from rfl), ht]
  rcases hkind with ⟨rfl, rfl⟩ | ⟨rfl, rfl⟩ <;> exact hnumber

theorem stringBehind_before {opened content close : Token} (hcontent : content.kind = .string)
    (hclose : close.kind = .quote) : stringBehind opened (s.before [content, close]) =
      .ok (.literal (opened.span.union close.span) (.string content.text)) s := by
  unfold stringBehind
  rw [ParseState.before_cons, bind_ok (expect_before hcontent _), bind_ok (check_next hclose), if_pos rfl]
  rfl

theorem firstPart_string {opened content close : Token} (hopened : opened.kind = .quote)
    (hcontent : content.kind = .string) (hclose : close.kind = .quote) :
    firstPart deeper (s.before [opened, content, close]) =
      .ok (.literal (opened.span.union close.span) (.string content.text)) s := by
  let start := s.before [opened, content, close]
  show (peek >>= _) start = _
  rw [bind_ok (show peek start = .ok opened start from rfl), hopened]
  exact stringBehind_before hcontent hclose

theorem firstPart_word {t : Token} {value : Literal} (h : wordLiteral? t = some value) :
    firstPart deeper (s.before [t]) = .ok (.literal t.span value) s := by
  show (peek >>= _) (s.before [t]) = _
  rw [bind_ok (show peek (s.before [t]) = .ok t (s.before [t]) from rfl)]
  have hkind := h
  unfold wordLiteral? at hkind
  split at hkind <;> cases hkind <;> rename_i hkind <;> rw [hkind, h] <;> rfl

theorem rereads_literal {next : Option Continuation} (span : Span) {value : Literal} (h : value.Writable) :
    Rereads deeper floor next value.words (Expression.literal span value).Same := by
  have hsame (span' : Span) : (Expression.literal span value).Same (.literal span' value) := .literal value trivial
  -- A literal that is one word of a kind of its own.
  have hword {w : Word} (h : ∀ t : Token, t.word = w → wordLiteral? t = some value) :
      Rereads deeper floor next [w] (Expression.literal span value).Same := by
    refine rereads_firstPart fun ts s hts _ => ?_
    obtain ⟨t, rfl, ht⟩ := List.map_eq_singleton_iff.1 hts
    exact ⟨_, hsame t.span, firstPart_word (h t ht)⟩
  have hnumber {kind : TokenKind} {make : String → Literal} {text : String}
      (hkind : kind = .integer ∧ make = .integer ∨ kind = .float ∧ make = .float) (hmake : make text = value)
      (hnumeral : Numeral.isNumeral text = true) :
      Rereads deeper floor next [(kind, text)] (Expression.literal span value).Same := by
    refine rereads_firstPart fun ts s hts _ => ?_
    obtain ⟨t, rfl, ht⟩ := List.map_eq_singleton_iff.1 hts
    obtain ⟨htoken, htext⟩ := of_word ht
    have hread : firstPart deeper (s.before [t]) = _ := firstPart_number htoken hkind (htext ▸ hnumeral)
    rw [htext, hmake] at hread
    exact ⟨_, hsame t.span, hread⟩
  cases value with
  | integer text => exact hnumber (.inl ⟨rfl, rfl⟩) rfl h.2
  | float text => exact hnumber (.inr ⟨rfl, rfl⟩) rfl h.2
  | string content =>
    refine rereads_firstPart fun ts s hts _ => ?_
    obtain ⟨opened, ts, rfl, hopened, hts⟩ := List.map_eq_cons_iff.1 hts
    obtain ⟨t, ts, rfl, ht, hts⟩ := List.map_eq_cons_iff.1 hts
    obtain ⟨close, rfl, hclose⟩ := List.map_eq_singleton_iff.1 hts
    obtain ⟨hcontent, rfl⟩ := of_word ht
    exact ⟨_, hsame _, firstPart_string (of_word hopened).1 hcontent (of_word hclose).1⟩
  | boolean value =>
    cases value <;> refine hword fun t ht => ?_ <;> obtain ⟨hkind, htext⟩ := of_word ht <;>
      rw [wordLiteral?, hkind, htext] <;> rfl
  | null =>
    refine hword fun t ht => ?_
    rw [wordLiteral?, (of_word ht).1]
  | constant c =>
    cases c <;> refine hword fun t ht => ?_ <;> rw [wordLiteral?, (of_word ht).1] <;> rfl

/-! ### Operators -/

theorem Continuation.of?_word {t : Token} {operator : BinaryOperator} (h : t.word = (operator.kind, operator.sign)) :
    Continuation.of? t = some (.operator operator) := by
  obtain ⟨hkind, htext⟩ := of_word h
  have hoperator : t.binaryOperator? = some operator := by
    rw [Token.binaryOperator?, hkind, htext]
    cases operator <;> rfl
  unfold Continuation.of?
  rw [hoperator, hkind]
  cases operator <;> rfl

theorem follows_operator {t : Token} {ts : List Token} {operator : BinaryOperator}
    (h : t.word = (operator.kind, operator.sign)) : Follows (some (.operator operator)) (s.before (t :: ts)) := by
  have hkind := (of_word h).1
  refine ⟨Continuation.of?_word h, ?_, ?_⟩ <;> rw [ParseState.peek_before_cons, hkind] <;> cases operator <;> nofun

theorem firstPart_unary {t : Token} {operator : UnaryOperator} (ht : t.kind = operator.kind) (ts : List Token) :
    firstPart deeper (s.before (t :: ts)) = unaryBehind deeper t operator (s.before ts) := by
  have hoperator : t.unaryOperator? = some operator := by
    rw [Token.unaryOperator?, ht]
    cases operator <;> rfl
  have hliteral : wordLiteral? t = none := by
    rw [wordLiteral?, ht]
    cases operator <;> rfl
  show (peek >>= _) _ = _
  rw [bind_ok (show peek (s.before (t :: ts)) = .ok t (s.before (t :: ts)) from rfl), ht, hliteral, hoperator]
  cases operator <;> rfl

theorem accessTarget_before {e : Expression} (h : e.IsTarget) {ts : List Token} (hts : ts.map Token.word = e.words) :
    ∃ e', e.Same e' ∧ accessTarget (s.before ts) = .ok e' s := by
  match e, h with
  | .identifier span name, _ =>
    obtain ⟨t, rfl, ht⟩ := List.map_eq_singleton_iff.1 hts
    obtain ⟨hkind, rfl⟩ := of_word ht
    refine ⟨.identifier t.span t.text, .identifier _ trivial, ?_⟩
    show (peekKind >>= _) _ = _
    rw [bind_ok (show peekKind (s.before [t]) = .ok t.kind (s.before [t]) from rfl), hkind]
    rfl
  | .literal span (.string content), _ =>
    obtain ⟨opened, ts, rfl, hopened, hts⟩ := List.map_eq_cons_iff.1 hts
    obtain ⟨t, ts, rfl, ht, hts⟩ := List.map_eq_cons_iff.1 hts
    obtain ⟨close, rfl, hclose⟩ := List.map_eq_singleton_iff.1 hts
    obtain ⟨hcontent, rfl⟩ := of_word ht
    let start := s.before [opened, t, close]
    refine ⟨.literal (opened.span.union close.span) (.string t.text), .literal _ trivial, ?_⟩
    show (peekKind >>= _) start = _
    rw [bind_ok (show peekKind start = .ok opened.kind start from rfl), (of_word hopened).1]
    exact stringBehind_before hcontent (of_word hclose).1

/-! ### Parentheses -/

theorem follows_call {t : Token} {ts : List Token} (h : t.kind = .leftParen) :
    Follows (some .call) (s.before (t :: ts)) := by
  refine ⟨?_, ?_, ?_⟩ <;> rw [ParseState.peek_before_cons]
  · rw [Continuation.of?, h]
  · rw [h]
    nofun
  · rw [h]
    nofun

/-- Parentheses without a colon or an arrow behind them make a vector. -/
theorem firstPart_vector {next : Option Continuation} {opened close : Token} {inner : List Token}
    (hopened : opened.kind = .leftParen) (hclose : close.kind = .rightParen)
    (hbalances : ∀ rest, closesBeforeArrow 0 (inner ++ rest) = closesBeforeArrow 0 rest) (hs : Follows next s) :
    firstPart deeper (s.before (opened :: (inner ++ [close]))) =
      vectorBehind deeper opened ((s.before [close]).before inner) := by
  let start := s.before (opened :: (inner ++ [close]))
  have hvector : closesBeforeArrow 0 ((s.before [close]).before inner).rest = false := by
    rw [ParseState.rest_before, hbalances, ParseState.rest_before, List.singleton_append, closesBeforeArrow_cons, hclose]
    dsimp only
    cases hrest : s.rest with
    | nil => rfl
    | cons t rest =>
      have ht : s.peek = t := peek_of_head? (by rw [hrest]; rfl)
      have hcolon := hs.noColon
      have harrow := hs.noArrow
      rw [ht] at hcolon harrow
      rw [List.head?_cons, Option.any_some, beq_eq_false_iff_ne.2 hcolon, beq_eq_false_iff_ne.2 harrow]
      rfl
  show (peek >>= _) start = _
  rw [bind_ok (show peek start = .ok opened start from rfl), hopened]
  show (advance >>= _) ((s.before (inner ++ [close])).before [opened]) = _
  rw [bind_ok (advance_before _), ParseState.before_append]
  show (if closesBeforeArrow 0 ((s.before [close]).before inner).rest = true then _ else _ : Parse Expression) _ = _
  rw [hvector]
  rfl

/-! ### Arguments -/

/-- A value in a list is read back in front of what goes on with the list. -/
theorem takesItem_value {room : Nat} {words : List Word} {same : Expression → Prop}
    (h : Rereads (deeperAt room) .lowest none words same) :
    TakesItem (anyExpression (deeperAt (room + 1))) words same :=
  fun _ _ hts hs => h.inside nofun hts (follows_item hs)

/-- So is an argument without a name, -/
theorem takesItem_unnamed {words : List Word} {same : Expression → Prop} (hbegins : BeginsValue words)
    (hvalue : TakesItem (anyExpression deeper) words same) :
    TakesItem (argument deeper) words fun a => a.name = none ∧ same a.value := by
  intro ts s hts hs
  obtain ⟨value, hsame, hread⟩ := hvalue ts s hts hs
  refine ⟨⟨none, value⟩, ⟨rfl, hsame⟩, ?_⟩
  obtain ⟨w, ws, hwords, -, -, hname⟩ := hbegins
  obtain ⟨t, rest, rfl, ht, hrest⟩ := List.map_eq_cons_iff.1 (hts.trans hwords)
  have hunnamed : (t.kind == .identifier && (s.before rest).peek.kind == .equal) = false := by
    rw [Bool.and_eq_false_iff]
    by_cases hkind : t.kind = .identifier
    · refine .inr (beq_eq_false_iff_ne.2 ?_)
      cases rest with
      | nil =>
        intro e
        have hequal : s.peek.kind = .equal := e
        rw [hequal] at hs
        exact hs.elim nofun nofun
      | cons u rest =>
        have hsecond : u.word ∈ ws.head? := by
          rw [← hrest]
          rfl
        exact hname ((of_word ht).1.symm.trans hkind) u.word hsecond
    · exact .inl (beq_eq_false_iff_ne.2 hkind)
  show (check .identifier >>= _) _ = _
  rw [bind_ok (check_before _ _), bind_ok (secondKind_before _ _), hunnamed]
  show (anyExpression deeper >>= _) _ = _
  rw [bind_ok hread]
  rfl

/-- and so is one with a name. -/
theorem takesItem_argument {a : Argument} (hbegins : BeginsValue a.value.words)
    (hvalue : TakesItem (anyExpression deeper) a.value.words a.value.Same) :
    TakesItem (argument deeper) a.words a.Same := by
  obtain ⟨name, value⟩ := a
  intro ts s hts hs
  cases name with
  | none =>
    obtain ⟨⟨_, value'⟩, ⟨rfl, hsame⟩, hread⟩ := takesItem_unnamed hbegins hvalue ts s hts hs
    exact ⟨⟨none, value'⟩, ⟨.none, hsame⟩, hread⟩
  | some named =>
    obtain ⟨n, ts, rfl, hn, hts⟩ := List.map_eq_cons_iff.1 hts
    obtain ⟨equal, ts, rfl, hequal, hts⟩ := List.map_eq_cons_iff.1 hts
    obtain ⟨hkind, htext⟩ := of_word hn
    obtain ⟨value', hsame, hread⟩ := hvalue ts s hts hs
    refine ⟨⟨some (n.text, n.span), value'⟩, ⟨.some ⟨htext.symm, trivial⟩, hsame⟩, ?_⟩
    obtain ⟨t, rest, rfl, ht, -⟩ := hbegins.begins.exists_cons hts
    have hnamed : (n.kind == .identifier && equal.kind == .equal) = true := by
      rw [hkind, (of_word hequal).1]
      rfl
    show (check .identifier >>= _) _ = _
    rw [bind_ok (check_before _ _), bind_ok (secondKind_before _ _), ParseState.peek_before_cons, hnamed, if_pos rfl, ParseState.before_cons, bind_ok (advance_before _),
      ParseState.before_cons, bind_ok (advance_before _), bind_ok (skipNewlines_none rfl ht), bind_ok hread]
    rfl

/-! ### All values -/

mutual

/-- **A plain value is read back from its words.** -/
theorem rereads_expression : ∀ {e : Expression} {room : Nat} {floor : Level} {next : Option Continuation},
    e.Grouped room floor next → Rereads (deeperAt room) floor next e.words e.Same
  | .identifier _ name, _, _, _, _ => by
    refine rereads_firstPart fun ts s hts _ => ?_
    obtain ⟨t, rfl, ht⟩ := List.map_eq_singleton_iff.1 hts
    obtain ⟨hkind, rfl⟩ := of_word ht
    exact ⟨_, .identifier _ trivial, firstPart_identifier hkind⟩
  | .literal span _, _, _, _, h => rereads_literal span h
  | .vector _ elements, room, _, _, h => by
    refine rereads_firstPart fun ts s hts hs => ?_
    obtain ⟨opened, ts, rfl, hopened, hts⟩ := List.map_eq_cons_iff.1 hts
    obtain ⟨inner, ts, rfl, hinner, hts⟩ := List.map_eq_append_iff.1 hts
    obtain ⟨close, rfl, hclose⟩ := List.map_eq_singleton_iff.1 hts
    obtain ⟨hclose, -⟩ := of_word hclose
    have hbalances := balances_intercalate (balances_elements elements) inner hinner 0
    rw [wordsOfAll_eq] at hinner
    obtain ⟨elements', helements, hread⟩ := delimited_before (s := s) "`,` or `)`" hclose rfl
      (takes_elements h) hinner
    refine ⟨.vector (opened.span.union close.span) elements', .vector trivial (sameElements helements), ?_⟩
    rw [firstPart_vector (of_word hopened).1 hclose hbalances hs]
    show (delimited .rightParen _ _ >>= _) _ = _
    rw [bind_ok hread]
    rfl
  | .unary _ operator operand, _, _, _, h => by
    obtain ⟨r, rfl, hoperand, hstops⟩ := h
    refine rereads_firstPart fun ts s hts hs => ?_
    obtain ⟨t, ts, rfl, ht, hts⟩ := List.map_eq_cons_iff.1 hts
    obtain ⟨u, rest, rfl, hu, -⟩ := hoperand.beginsValue.begins.exists_cons hts
    obtain ⟨e, he, hread⟩ := (rereads_expression hoperand).inside hstops hts hs
    refine ⟨.unary (t.span.union e.span) operator e, .unary _ trivial he, ?_⟩
    rw [firstPart_unary (of_word ht).1]
    show (skipNewlines >>= _) _ = _
    rw [bind_ok (skipNewlines_none rfl hu), bind_ok hread]
    rfl
  | .binary _ operator left right, room, floor, next, h => by
    obtain ⟨hassignment, -, htight, hleft, hright⟩ := h
    intro ts s hts hs
    obtain ⟨us, vs, rfl, hus, hvs⟩ := List.map_eq_append_iff.1 hts
    obtain ⟨t, vs, rfl, ht, hvs⟩ := List.map_eq_cons_iff.1 hvs
    obtain ⟨left', hleft', hread⟩ := rereads_expression hleft us (s.before (t :: vs)) hus (follows_operator ht)
    have hoperand : ∃ right', right.Same right' ∧ operatorBehind (deeperAt room) left' operator (s.before (t :: vs)) =
        .ok (.binary (left'.span.union right'.span) operator left' right') s := by
      rcases hright with ⟨haccess, htarget⟩ | ⟨haccess, r, rfl, hright, hstops⟩
      · obtain ⟨right', hright', hread⟩ := accessTarget_before (s := s) htarget hvs
        refine ⟨right', hright', ?_⟩
        rw [operatorBehind, ParseState.before_cons, bind_ok (advance_before _), if_pos haccess, bind_ok hread]
        rfl
      · obtain ⟨u, rest, rfl, hu, -⟩ := hright.beginsValue.begins.exists_cons hvs
        obtain ⟨right', hright', hread⟩ := (rereads_expression hright).inside hstops hvs hs
        refine ⟨right', hright', ?_⟩
        rw [operatorBehind, ParseState.before_cons, bind_ok (advance_before _), if_neg (Bool.eq_false_iff.1 haccess),
          bind_ok (skipNewlines_none rfl hu), bind_ok hread]
        rfl
    obtain ⟨right', hright', hoperator⟩ := hoperand
    refine ⟨.binary (left'.span.union right'.span) operator left' right', .binary operator trivial hleft' hright', ?_⟩
    have hnext : Continuation.of? (s.before (t :: vs)).peek = some (.operator operator) := Continuation.of?_word ht
    rw [ParseState.before_append, hread]
    exact continued_again hnext htight hoperator (by simp)
  | .call _ callee arguments, room, floor, next, h => by
    obtain ⟨htight, hcallee, harguments⟩ := h
    intro ts s hts hs
    obtain ⟨us, vs, rfl, hus, hvs⟩ := List.map_eq_append_iff.1 hts
    obtain ⟨opened, vs, rfl, hopened, hvs⟩ := List.map_eq_cons_iff.1 hvs
    obtain ⟨inner, vs, rfl, hinner, hvs⟩ := List.map_eq_append_iff.1 hvs
    obtain ⟨close, rfl, hclose⟩ := List.map_eq_singleton_iff.1 hvs
    obtain ⟨hopened, -⟩ := of_word hopened
    let behind := s.before (opened :: (inner ++ [close]))
    obtain ⟨callee', hcallee', hread⟩ := rereads_expression hcallee us behind hus (follows_call hopened)
    rw [wordsOfArguments_eq] at hinner
    obtain ⟨arguments', harguments', hdelimited⟩ := delimited_before (s := s) "`,` or `)` in argument list"
      (of_word hclose).1 rfl (takes_arguments harguments) hinner
    have hcall : callBehind (deeperAt room) callee' behind =
        .ok (.call (callee'.span.union close.span) callee' arguments') s := by
      show (advance >>= _) ((s.before (inner ++ [close])).before [opened]) = _
      rw [bind_ok (advance_before _), ParseState.before_append]
      show (delimited .rightParen _ _ >>= _) _ = _
      rw [bind_ok hdelimited]
      rfl
    refine ⟨.call (callee'.span.union close.span) callee' arguments',
      .call trivial hcallee' (sameArguments harguments'), ?_⟩
    have hnext : Continuation.of? behind.peek = some .call := (follows_call hopened).continuation
    rw [ParseState.before_append, hread]
    exact continued_again hnext htight hcall (by simp [behind]; omega)
  | .conditional .., _, _, _, h | .forLoop .., _, _, _, h | .whileLoop .., _, _, _, h | .repeatLoop .., _, _, _, h
  | .function .., _, _, _, h | .index .., _, _, _, h => False.elim h

theorem takes_elements : ∀ {es : List Expression} {room : Nat}, GroupedAll es room →
    ∀ e ∈ es, Begins e.words ∧ TakesItem (anyExpression (deeperAt room)) e.words e.Same
  | [], _, _ => nofun
  | e :: es, _, h => by
    obtain ⟨⟨r, rfl, he⟩, hrest⟩ := h
    exact List.forall_mem_cons.2 ⟨⟨he.beginsValue.begins, takesItem_value (rereads_expression he)⟩, takes_elements hrest⟩

theorem takes_arguments : ∀ {as : List Argument} {room : Nat}, GroupedArguments as room →
    ∀ a ∈ as, Begins a.words ∧ TakesItem (argument (deeperAt room)) a.words a.Same
  | [], _, _ => nofun
  | ⟨name, value⟩ :: as, _, h => by
    obtain ⟨-, ⟨r, rfl, hvalue⟩, hrest⟩ := h
    have hargument := takesItem_argument (a := ⟨name, value⟩) hvalue.beginsValue
      (takesItem_value (rereads_expression hvalue))
    have hbegins : Begins (Argument.words ⟨name, value⟩) := by
      cases name with
      | none => exact hvalue.beginsValue.begins
      | some named => exact ⟨_, _, rfl, nofun, rfl⟩
    exact List.forall_mem_cons.2 ⟨⟨hbegins, hargument⟩, takes_arguments hrest⟩

end

end Values

end Parse
end UnionScript
