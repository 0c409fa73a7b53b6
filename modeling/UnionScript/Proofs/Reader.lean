import UnionScript.Grammar.Nesting
import UnionScript.Proofs.Steps
/-!
# Reader — one induction over the readers of the grammar

Whatever is to be shown of every reader takes a proof for every form of expression and statement, and an induction over
the room that is left for nesting.  Both are made here once, and for two readers at a time: a relation that the primitive
readers bear to themselves, and that passes from parts to what is put together of them (`ReaderRelated`), is one between
the readers with some room and those with more of it (`deeperAt_le`).  A property of readers is such a relation that looks
at one of the two only (`ReaderClosed`).
-/
namespace UnionScript
namespace Parse

/-- What reading a declaration ends with: it fails if a decorator does not fit. -/
def fitting (word : Token) (declaration : TypeDeclaration) : Parse TypeDeclaration :=
  match declaration.misfit? word.span with
  | some error => throw error
  | none => return declaration

/-- What reading a function ends with, behind its receiver and its name. -/
def signed (deeper : Deeper) (func : Token) (decorators : List Decorator) (receiver : Option TypedName)
    (name : Option Token) : Parse Expression := do
  let _ ← expect .leftParen "`(` to start parameter list"
  let ps ← parameters deeper
  let returnTypes ← annotation?
  skipNewlines
  let body ← deeper.block
  return .function (func.span.union body.span)
    { name := name.map Token.text, nameSpan := (name.getD func).span, receiver, parameters := ps, returnTypes, body,
      decorators }

/-- A relation of readers that the primitive ones bear to themselves and that passes from parts to the whole.  A reader
that has no room left bears it to any other. -/
structure ReaderRelated (R : {α : Type} → Parse α → Parse α → Prop) : Prop where
  pure {α : Type} (a : α) : R (pure a : Parse α) (pure a)
  throw {α : Type} (e : ParseError) : R (throw e : Parse α) (throw e)
  bind {α β : Type} {p p' : Parse α} {next next' : α → Parse β} :
    R p p' → (∀ a, R (next a) (next' a)) → R (p >>= next) (p' >>= next')
  peek : R peek peek
  peekKind : R peekKind peekKind
  secondKind : R secondKind secondKind
  lookAhead : R lookAhead lookAhead
  advance : R advance advance
  unexpected {α : Type} : R (unexpected : Parse α) unexpected
  expected {α : Type} (what : String) : R (expected what : Parse α) (expected what)
  check (kind : TokenKind) : R (check kind) (check kind)
  skipNewlines : R skipNewlines skipNewlines
  skipSeparators : R skipSeparators skipSeparators
  skipEntrySeparators : R skipEntrySeparators skipEntrySeparators
  tooDeep {α : Type} (span : Span) (p : Parse α) : R (tooDeep span) p
  nested {α : Type} {p p' : Parse α} : R p p' → R (nested p) (nested p')
  rounds {α β : Type} {round round' : α → Parse (Round α β)} :
    (∀ a, R (round a) (round' a)) → ∀ a, R (rounds round a) (rounds round' a)
  recovering {α : Type} {p p' : Parse α} : R p p' → R (recovering p) (recovering p')

/-- A property of readers that the primitive ones have and that passes from parts to the whole. -/
abbrev ReaderClosed (P : {α : Type} → Parse α → Prop) : Prop := ReaderRelated fun {_} p _ => P p

/-- A relation between two readers each for what an expression or a block holds. -/
structure Deeper.Related (R : {α : Type} → Parse α → Parse α → Prop) (deeper deeper' : Deeper) : Prop where
  expression (floor : Level) : R (deeper.expression floor) (deeper'.expression floor)
  block : R deeper.block deeper'.block

/-- A property of the readers for what an expression or a block holds. -/
abbrev Deeper.Has (P : {α : Type} → Parse α → Prop) (deeper : Deeper) : Prop :=
  Deeper.Related (fun {_} p _ => P p) deeper deeper

namespace ReaderRelated

variable {R : {α : Type} → Parse α → Parse α → Prop} {α : Type}

theorem ite {c : Prop} [Decidable c] {p p' q q' : Parse α} (hp : R p p') (hq : R q q') :
    R (if c then p else q) (if c then p' else q') := by
  by_cases hc : c
  · rw [if_pos hc, if_pos hc]
    exact hp
  · rw [if_neg hc, if_neg hc]
    exact hq

variable (h : ReaderRelated R) {deeper deeper' : Deeper} (hd : Deeper.Related R deeper deeper')

/-! ## Tokens -/

include h

theorem accept (kind : TokenKind) : R (accept kind) (accept kind) :=
  h.bind (h.check _) fun _ => ite (h.bind h.advance fun _ => h.pure _) (h.pure _)

theorem expect (kind : TokenKind) (what : String) : R (expect kind what) (expect kind what) :=
  h.bind (h.check _) fun _ => ite h.advance (h.expected _)

theorem identifier (what : String) : R (identifier what) (identifier what) := h.expect _ _

theorem items (close : TokenKind) (what : String) {item item' : Parse α} (hitem : R item item') :
    R (items close what item) (items close what item') := by
  refine h.bind h.skipNewlines fun _ => h.rounds (fun taken => ?_) _
  refine h.bind (h.check _) fun _ => ite (h.pure _) ?_
  refine h.bind hitem fun _ => h.bind h.skipNewlines fun _ => h.bind (h.accept _) fun _ => ?_
  refine ite (h.bind h.skipNewlines fun _ => h.pure _) (h.bind (h.check _) fun _ => ?_)
  exact ite (h.pure _) (h.expected _)

theorem delimited (close : TokenKind) (what : String) {item item' : Parse α} (hitem : R item item') :
    R (delimited close what item) (delimited close what item') :=
  h.bind (h.items _ _ hitem) fun _ => h.bind h.advance fun _ => h.pure _

/-! ## Annotations -/

theorem alternative : R alternative alternative := by
  refine h.bind (h.accept _) fun _ => h.bind (h.identifier _) fun _ => h.bind (h.accept _) fun _ => ?_
  exact ite (h.bind (h.identifier _) fun _ => h.pure _) (h.pure _)

theorem annotation : R annotation annotation := by
  refine h.bind h.alternative fun _ => h.bind (h.rounds (fun ts => ?_) _) fun _ => h.pure _
  refine h.bind (h.accept _) fun _ => ite ?_ (h.pure _)
  exact h.bind h.skipNewlines fun _ => h.bind h.alternative fun _ => h.pure _

theorem annotation? : R annotation? annotation? :=
  h.bind (h.accept _) fun _ => ite (h.bind h.annotation fun _ => h.pure _) (h.pure _)

theorem annotationOf (name : Token) : R (annotationOf name) (annotationOf name) :=
  h.bind (h.accept _) fun _ => ite (h.bind h.annotation fun _ => h.pure _) (h.throw _)

/-! ## Expressions -/

theorem stringBehind (opened : Token) : R (stringBehind opened) (stringBehind opened) :=
  h.bind (h.expect _ _) fun _ => h.bind (h.check _) fun _ => ite (h.bind h.advance fun _ => h.pure _) (h.throw _)

theorem number (t : Token) (value : String → Literal) : R (number t value) (number t value) :=
  ite (h.pure _) (h.throw _)

theorem accessTarget : R accessTarget accessTarget := by
  refine h.bind h.peekKind fun kind => ?_
  split
  · exact h.bind h.advance fun _ => h.pure _
  · exact h.bind h.advance fun _ => h.stringBehind _
  · exact h.expected _

include hd

omit h in
theorem anyExpression : R (anyExpression deeper) (anyExpression deeper') := hd.expression _

theorem vectorBehind (opened : Token) : R (vectorBehind deeper opened) (vectorBehind deeper' opened) :=
  h.bind (h.delimited _ _ (anyExpression hd)) fun _ => h.pure _

theorem argument : R (argument deeper) (argument deeper') := by
  refine h.bind (h.check _) fun _ => h.bind h.secondKind fun _ => ite ?_ ?_
  · exact h.bind h.advance fun _ => h.bind h.advance fun _ => h.bind h.skipNewlines fun _ =>
      h.bind (anyExpression hd) fun _ => h.pure _
  · exact h.bind (anyExpression hd) fun _ => h.pure _

theorem arguments (close : TokenKind) (what : String) : R (arguments deeper close what) (arguments deeper' close what) :=
  h.delimited _ _ (h.argument hd)

theorem parameter : R (parameter deeper) (parameter deeper') := by
  refine h.bind h.peekKind fun _ => ite ?_ (h.expected _)
  refine h.bind h.advance fun _ => h.bind h.annotation? fun _ => h.bind (h.accept _) fun _ => ite ?_ (h.pure _)
  exact h.bind h.skipNewlines fun _ => h.bind (anyExpression hd) fun _ => h.pure _

theorem parameters : R (parameters deeper) (parameters deeper') :=
  h.bind (h.delimited _ _ (h.parameter hd)) fun _ => h.pure _

/-! ### Functions, branches and loops -/

theorem arrowFunctionBehind (opened : Token) :
    R (arrowFunctionBehind deeper opened) (arrowFunctionBehind deeper' opened) := by
  refine h.bind (h.parameters hd) fun _ => h.bind h.annotation? fun _ => h.bind (h.expect _ _) fun _ =>
    h.bind h.skipNewlines fun _ => h.bind (h.check _) fun _ => ite ?_ ?_
  · exact h.bind hd.block fun _ => h.pure _
  · exact h.bind (anyExpression hd) fun _ => h.pure _

omit hd in
theorem receiver? : R receiver? receiver? := by
  refine h.bind (h.check _) fun _ => h.bind h.lookAhead fun _ => ite ?_ (h.pure _)
  exact h.bind h.advance fun _ => h.bind (h.identifier _) fun _ => h.bind (h.annotationOf _) fun _ =>
    h.bind (h.expect _ _) fun _ => h.pure _

theorem functionBehind (func : Token) (decorators : List Decorator) :
    R (functionBehind deeper func decorators) (functionBehind deeper' func decorators) := by
  have hrest (receiver : Option TypedName) (name : Option Token) :
      R (signed deeper func decorators receiver name) (signed deeper' func decorators receiver name) :=
    h.bind (h.expect _ _) fun _ => h.bind (h.parameters hd) fun _ => h.bind h.annotation? fun _ =>
      h.bind h.skipNewlines fun _ => h.bind hd.block fun _ => h.pure _
  refine h.bind h.receiver? fun receiver => h.bind (h.check _) fun _ => ite ?_ (ite ?_ ?_)
  · exact h.bind h.advance fun name => hrest receiver (some name)
  · exact h.bind (h.expected _) fun name => hrest receiver name
  · exact hrest receiver none

theorem branch (elseSpan ifSpan : Span) : R (branch deeper elseSpan ifSpan) (branch deeper' elseSpan ifSpan) :=
  h.bind (h.expect _ _) fun _ => h.bind h.skipNewlines fun _ => h.bind (anyExpression hd) fun _ =>
    h.bind h.skipNewlines fun _ => h.bind (h.expect _ _) fun _ => h.bind h.skipNewlines fun _ =>
      h.bind hd.block fun _ => h.pure _

theorem conditionalBehind (opened : Token) :
    R (conditionalBehind deeper opened) (conditionalBehind deeper' opened) := by
  refine h.bind (h.branch hd _ _) fun first => h.rounds (fun more => ?_) _
  refine h.bind h.lookAhead fun _ => ite ?_ (h.pure _)
  refine h.bind h.skipNewlines fun _ => h.bind h.advance fun _ => h.bind h.skipNewlines fun _ =>
    h.bind (h.check _) fun _ => ite ?_ ?_
  · exact h.bind h.advance fun _ => h.bind (h.branch hd _ _) fun _ => h.pure _
  · exact h.bind hd.block fun _ => h.pure _

theorem forBehind (opened : Token) : R (forBehind deeper opened) (forBehind deeper' opened) :=
  h.bind (h.expect _ _) fun _ => h.bind (h.expect _ _) fun _ => h.bind (h.identifier _) fun _ =>
    h.bind (h.annotationOf _) fun _ => h.bind (h.expect _ _) fun _ => h.bind (anyExpression hd) fun _ =>
      h.bind (h.expect _ _) fun _ => h.bind h.skipNewlines fun _ => h.bind hd.block fun _ => h.pure _

theorem whileBehind (opened : Token) : R (whileBehind deeper opened) (whileBehind deeper' opened) :=
  h.bind (h.expect _ _) fun _ => h.bind h.skipNewlines fun _ => h.bind (anyExpression hd) fun _ =>
    h.bind h.skipNewlines fun _ => h.bind (h.expect _ _) fun _ => h.bind h.skipNewlines fun _ =>
      h.bind hd.block fun _ => h.pure _

theorem repeatBehind (opened : Token) : R (repeatBehind deeper opened) (repeatBehind deeper' opened) :=
  h.bind hd.block fun _ => h.pure _

/-! ### First parts and continuations -/

theorem unaryBehind (opened : Token) (operator : UnaryOperator) :
    R (unaryBehind deeper opened operator) (unaryBehind deeper' opened operator) :=
  h.bind h.skipNewlines fun _ => h.bind (hd.expression _) fun _ => h.pure _

theorem parenthesized (opened : Token) : R (parenthesized deeper opened) (parenthesized deeper' opened) :=
  h.bind h.lookAhead fun _ => ite (h.arrowFunctionBehind hd _) (h.vectorBehind hd _)

theorem firstPart : R (firstPart deeper) (firstPart deeper') := by
  refine h.bind h.peek fun t => ?_
  split
  · exact h.bind h.advance fun _ => h.pure _
  · exact h.bind h.advance fun _ => h.number _ _
  · exact h.bind h.advance fun _ => h.number _ _
  · exact h.bind h.advance fun _ => h.stringBehind _
  · exact h.bind h.advance fun _ => h.parenthesized hd _
  · exact h.bind h.advance fun _ => h.functionBehind hd _ _
  · exact h.bind h.advance fun _ => h.conditionalBehind hd _
  · exact h.bind h.advance fun _ => h.forBehind hd _
  · exact h.bind h.advance fun _ => h.whileBehind hd _
  · exact h.bind h.advance fun _ => h.repeatBehind hd _
  · split
    · exact h.bind h.advance fun _ => h.pure _
    · exact h.bind h.advance fun _ => h.unaryBehind hd _ _
    · exact h.unexpected

theorem operatorBehind (left : Expression) (operator : BinaryOperator) :
    R (operatorBehind deeper left operator) (operatorBehind deeper' left operator) := by
  refine h.bind h.advance fun _ => ite ?_ ?_
  · exact h.bind h.accessTarget fun _ => h.pure _
  · exact h.bind h.skipNewlines fun _ => h.bind (hd.expression _) fun _ => h.pure _

theorem callBehind (callee : Expression) : R (callBehind deeper callee) (callBehind deeper' callee) :=
  h.bind h.advance fun _ => h.bind (h.arguments hd _ _) fun _ => h.pure _

theorem indexBehind (object : Expression) (double : Bool) :
    R (indexBehind deeper object double) (indexBehind deeper' object double) := by
  refine h.bind h.advance fun _ => ite ?_ ?_
  · exact h.bind (h.arguments hd _ _) fun _ => h.pure _
  · exact h.bind (h.arguments hd _ _) fun _ => h.pure _

theorem continuationOf (left : Expression) : ∀ continuation,
    R (continuationOf deeper left continuation) (continuationOf deeper' left continuation)
  | .operator operator => h.operatorBehind hd left operator
  | .call => h.callBehind hd left
  | .index double => h.indexBehind hd left double

theorem continued (floor : Level) (first : Expression) :
    R (continued deeper floor first) (continued deeper' floor first) := by
  refine h.rounds (fun left => h.bind h.peek fun t => ?_) _
  split
  · exact ite (h.bind (h.continuationOf hd _ _) fun _ => h.pure _) (h.pure _)
  · exact h.pure _

theorem expressionBody (floor : Level) : R (expressionBody deeper floor) (expressionBody deeper' floor) :=
  h.bind (h.firstPart hd) fun _ => h.continued hd _ _

/-! ## Declarations -/

omit hd

theorem entry (types : Union) (attributes : List TypedName) : R (entry types attributes) (entry types attributes) := by
  refine h.bind (h.check _) fun _ => h.bind h.secondKind fun _ => ite ?_ ?_
  · exact h.bind h.advance fun _ => h.bind h.advance fun _ => h.bind h.annotation fun _ => h.pure _
  · exact h.bind h.annotation fun _ => h.pure _

theorem entries : R entries entries := by
  refine h.bind (h.expect _ _) fun _ => h.rounds (fun listed => h.bind h.skipEntrySeparators fun _ => ?_) _
  refine h.bind (h.accept _) fun _ => ite (h.pure _) (h.bind (h.entry _ _) fun _ => h.bind h.peek fun _ => ?_)
  exact ite (h.pure _) (h.expected _)

theorem kindAhead? : R kindAhead? kindAhead? := h.bind h.peek fun _ => h.bind h.secondKind fun _ => h.pure _

theorem fitting (word : Token) (declaration : TypeDeclaration) :
    R (fitting word declaration) (fitting word declaration) := by
  unfold Parse.fitting
  split
  · exact h.throw _
  · exact h.pure _

theorem typeDeclaration (decorators : List Decorator) :
    R (typeDeclaration decorators) (typeDeclaration decorators) := by
  refine h.bind h.advance fun word => h.bind (h.identifier _) fun name => h.bind (h.accept _) fun _ =>
    ite (h.bind h.kindAhead? fun kind => ?_) (h.throw _)
  split
  · exact h.bind h.advance fun _ => h.bind h.entries fun _ => h.fitting _ _
  · exact h.bind h.annotation fun _ => h.fitting _ _

include hd

theorem decorator : R (decorator deeper) (decorator deeper') := by
  refine h.bind h.advance fun _ => h.bind (h.identifier _) fun name => ?_
  dsimp only
  split
  · exact h.throw _
  · refine h.bind (h.accept _) fun _ => ite ?_ (h.bind h.skipNewlines fun _ => h.pure _)
    exact h.bind (h.arguments hd _ _) fun _ => h.bind h.skipNewlines fun _ => h.pure _

theorem declarationBehind (decorators : List Decorator) (last : Decorator) :
    R (declarationBehind deeper decorators last) (declarationBehind deeper' decorators last) := by
  refine h.bind h.peekKind fun kind => ?_
  split
  · exact h.bind (h.typeDeclaration _) fun _ => h.pure _
  · split
    · exact h.throw _
    · exact h.bind h.advance fun _ => h.bind (h.functionBehind hd _ _) fun _ => h.pure _
  · exact h.throw _

theorem decorated : R (decorated deeper) (decorated deeper') := by
  refine h.bind (h.decorator hd) fun first => h.bind (h.rounds (fun taken => ?_) _) fun _ =>
    h.declarationBehind hd _ _
  exact h.bind (h.check _) fun _ => ite (h.bind (h.decorator hd) fun _ => h.pure _) (h.pure _)

/-! ## Statements -/

theorem binding (constant : Bool) : R (binding deeper constant) (binding deeper' constant) := by
  refine h.bind h.advance fun _ => h.bind (h.identifier _) fun _ => h.bind (h.annotationOf _) fun _ =>
    h.bind (h.accept _) fun _ => ite ?_ (ite (h.expected _) (h.pure _))
  exact h.bind h.skipNewlines fun _ => h.bind (anyExpression hd) fun _ => h.pure _

theorem returnStatement : R (returnStatement deeper) (returnStatement deeper') := by
  refine h.bind h.advance fun _ => h.bind h.peekKind fun _ => ite (h.pure _) ?_
  exact h.bind (anyExpression hd) fun _ => h.pure _

theorem deferStatement : R (deferStatement deeper) (deferStatement deeper') :=
  h.bind h.advance fun _ => h.bind (anyExpression hd) fun _ => h.pure _

omit hd in
theorem ended {p p' : Parse Statement} (hp : R p p') : R (ended p) (ended p') :=
  h.bind hp fun _ => h.bind (h.bind h.peekKind fun _ => ite (h.pure _) h.unexpected) fun _ => h.pure _

theorem statement : R (statement deeper) (statement deeper') := by
  refine h.bind h.peekKind fun kind => ?_
  split
  · exact h.ended (h.binding hd _)
  · exact h.ended (h.binding hd _)
  · exact h.ended (h.bind (h.typeDeclaration _) fun _ => h.pure _)
  · exact h.ended (h.returnStatement hd)
  · exact h.ended (h.deferStatement hd)
  · exact h.ended (h.bind h.advance fun _ => h.pure _)
  · exact h.ended (h.bind h.advance fun _ => h.pure _)
  · exact h.bind h.advance fun _ => h.pure _
  · exact h.bind h.advance fun _ => h.pure _
  · exact h.ended (h.decorated hd)
  · exact h.ended (h.bind hd.block fun _ => h.pure _)
  · exact h.ended (h.bind (anyExpression hd) fun _ => h.pure _)

theorem statements (inBlock : Bool) : R (statements deeper inBlock) (statements deeper' inBlock) := by
  refine h.rounds (fun taken => h.bind h.skipSeparators fun _ => h.bind h.peekKind fun _ => ite (h.pure _) ?_) _
  refine h.bind (h.recovering (h.statement hd)) fun found => ?_
  split
  · exact h.pure _
  · exact h.pure _

theorem blockBody (opened : Token) : R (blockBody deeper opened) (blockBody deeper' opened) :=
  h.bind (h.statements hd _) fun _ => h.bind (h.expect _ _) fun _ => h.pure _

/-! ## Nesting -/

omit hd

/-- Where no room is left, what is read in any other room may be different. -/
theorem deeperAt_zero (room : Nat) : Deeper.Related R (deeperAt 0) (deeperAt room) where
  expression floor := show R (Parse.peek >>= fun t => Parse.tooDeep t.span) (Parse.peek >>= fun _ => expressionAt room floor)
    from h.bind h.peek fun _ => h.tooDeep _ _
  block := by
    cases room <;> exact h.bind (h.expect .leftBrace _) fun opened => h.tooDeep opened.span _

/-- **The induction over the room that is left.**  A reader with less room than another one fails for lack of it where
the other one goes on, and nothing else is different. -/
theorem deeperAt_le : ∀ {room room' : Nat}, room ≤ room' → Deeper.Related R (deeperAt room) (deeperAt room')
  | 0, room', _ => h.deeperAt_zero room'
  | _ + 1, _ + 1, hle =>
    have hd := deeperAt_le (Nat.le_of_succ_le_succ hle)
    ⟨fun _ => h.nested (h.expressionBody hd _), h.bind (h.expect _ _) fun _ => h.nested (h.blockBody hd _)⟩

theorem deeperAt (room : Nat) : Deeper.Related R (deeperAt room) (deeperAt room) := h.deeperAt_le (Nat.le_refl room)

end ReaderRelated
end Parse
end UnionScript
