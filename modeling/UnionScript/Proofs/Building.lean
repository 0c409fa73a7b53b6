import UnionScript.Proofs.Declarations
/-!
# Building — one induction over the trees the grammar builds

What every tree read has is shown form by form, and by an induction over the room that is left for nesting.  Both are
made here once: a property of expressions and statements that passes from the parts of each form to the whole
(`TreeProperty.Closed`) is one of every program read (`TreeProperty.Closed.ofTokens`).  The room plays a part in it,
because what stands in parentheses, brackets or braces is read with one level less of it.
-/
namespace UnionScript

/-- Whether an expression is a chain of branches. -/
def Expression.isConditional : Expression → Bool
  | .conditional _ _ _ _ => true
  | _ => false

namespace Parse

/-- A property of the expressions and the statements that are read with so much room. -/
structure TreeProperty where
  expression : Nat → Expression → Prop
  statement : Nat → Statement → Prop

namespace TreeProperty

variable (P : TreeProperty)

/-- An expression that was read with one level less of room. -/
def Sub (room : Nat) (e : Expression) : Prop := ∃ less, room = less + 1 ∧ P.expression less e

/-- A block in braces: its statements were read with one level less of room. -/
def Inner (room : Nat) (b : Block) : Prop := ∃ less, room = less + 1 ∧ ∀ st ∈ b.statements, P.statement less st

/-- What may stand behind an `else`: nothing, a block, or another branch of the chain. -/
def Alternative (room : Nat) : Option Block → Prop
  | none => True
  | some b => P.Inner room b ∨ ∃ e, b.statements = [.expression e] ∧ e.isConditional ∧ P.expression room e

/-- The body of a function: a block, or an expression in its place. -/
def Body (room : Nat) (b : Block) : Prop :=
  P.Inner room b ∨ ∃ e, b.statements = [.expression e] ∧ P.Sub room e

/-- A parameter: its annotation, if it has one, is no empty union. -/
def Takes (room : Nat) (p : Parameter) : Prop :=
  (∀ u ∈ p.types, u.isEmpty = false) ∧ ∀ e ∈ p.default, P.Sub room e

/-- What a function has in front of its body: annotations that are no empty unions, and defaults. -/
structure Signature (room : Nat) (f : FunctionLiteral) : Prop where
  receiver : ∀ r ∈ f.receiver, r.types.isEmpty = false
  parameters : ∀ p ∈ f.parameters, P.Takes room p
  returns : ∀ u ∈ f.returnTypes, u.isEmpty = false

/-- A property that passes from the parts of each form to the whole.  Annotations in them are no empty unions. -/
structure Closed : Prop where
  identifier (room : Nat) (span : Span) (name : String) : P.expression room (.identifier span name)
  literal (room : Nat) (span : Span) (value : Literal) : P.expression room (.literal span value)
  vector {room : Nat} {elements : List Expression} (span : Span) :
    (∀ e ∈ elements, P.Sub room e) → P.expression room (.vector span elements)
  unary {room : Nat} {operand : Expression} (span : Span) (operator : UnaryOperator) :
    P.Sub room operand → P.expression room (.unary span operator operand)
  binary {room : Nat} {operator : BinaryOperator} {left right : Expression} (span : Span) :
    operator.isAccess = false → P.expression room left → P.Sub room right →
      P.expression room (.binary span operator left right)
  access {room : Nat} {operator : BinaryOperator} {left right : Expression} (span : Span) :
    operator.isAccess = true → P.expression room left → P.expression room right →
      P.expression room (.binary span operator left right)
  conditional {room : Nat} {condition : Expression} {consequence : Block} {alternative : Option Block} (span : Span) :
    P.Sub room condition → P.Inner room consequence → P.Alternative room alternative →
      P.expression room (.conditional span condition consequence alternative)
  forLoop {room : Nat} {loopVariable : TypedName} {iterable : Expression} {body : Block} (span : Span) :
    loopVariable.types.isEmpty = false → P.Sub room iterable → P.Inner room body →
      P.expression room (.forLoop span loopVariable iterable body)
  whileLoop {room : Nat} {condition : Expression} {body : Block} (span : Span) :
    P.Sub room condition → P.Inner room body → P.expression room (.whileLoop span condition body)
  repeatLoop {room : Nat} {body : Block} (span : Span) : P.Inner room body → P.expression room (.repeatLoop span body)
  function {room : Nat} {f : FunctionLiteral} (span : Span) :
    P.Signature room f → f.decorators = [] → P.Body room f.body → P.expression room (.function span f)
  call {room : Nat} {callee : Expression} {arguments : List Argument} (span : Span) :
    P.expression room callee → (∀ a ∈ arguments, P.Sub room a.value) → P.expression room (.call span callee arguments)
  index {room : Nat} {object : Expression} {arguments : List Argument} (span : Span) (double : Bool) :
    P.expression room object → (∀ a ∈ arguments, P.Sub room a.value) →
      P.expression room (.index span object arguments double)
  binding {room : Nat} {target : TypedName} {value : Option Expression} (constant : Bool) :
    target.types.isEmpty = false → (∀ e ∈ value, P.Sub room e) → P.statement room (.binding constant target value)
  returning {room : Nat} {value : Option Expression} (span : Span) :
    (∀ e ∈ value, P.Sub room e) → P.statement room (.return value span)
  typeDeclaration (room : Nat) {d : TypeDeclaration} :
    d.types.isEmpty = false → (∀ a ∈ d.attributes, a.types.isEmpty = false) → P.statement room (.typeDeclaration d)
  comment (room : Nat) (text : String) (roxygen : Bool) (span : Span) : P.statement room (.comment text roxygen span)
  defer {room : Nat} {e : Expression} (span : Span) : P.Sub room e → P.statement room (.defer e span)
  jump (room : Nat) (kind : Jump) (span : Span) : P.statement room (.jump kind span)
  block {room : Nat} {b : Block} : P.Inner room b → P.statement room (.block b)
  expressionStatement {room : Nat} {e : Expression} : P.Sub room e → P.statement room (.expression e)
  decorated {room : Nat} {f : FunctionLiteral} (span : Span) :
    P.Signature room f → f.decorators ≠ [] → P.Inner room f.body → P.statement room (.expression (.function span f))

end TreeProperty

/-! ## Parts that are no trees -/

section Parts

variable {α : Type} {holds : α → Prop}

/-- What holds of every item holds of all that are listed. -/
theorem answers_items (close : TokenKind) (what : String) {item : Parse α} (h : Answers item holds) :
    Answers (items close what item) fun taken => ∀ a ∈ taken, holds a := by
  refine answers_next fun _ => answers_rounds (fun taken : List α => ∀ a ∈ taken, holds a) (fun taken htaken => ?_)
    (fun a ha => absurd ha List.not_mem_nil)
  refine answers_next fun _ => answers_ite (answers_pure htaken) ?_
  refine answers_bind holds h fun a ha => answers_next fun _ => answers_next fun _ => ?_
  have hmore : ∀ b ∈ taken ++ [a], holds b := fun b hb =>
    (List.mem_append.1 hb).elim (htaken b) fun hb => (List.mem_singleton.1 hb) ▸ ha
  refine answers_ite (answers_next fun _ => answers_pure hmore) (answers_next fun _ => ?_)
  exact answers_ite (answers_pure hmore) (answers_expected _)

theorem answers_delimited (close : TokenKind) (what : String) {item : Parse α} (h : Answers item holds) :
    Answers (delimited close what item) fun taken => ∀ a ∈ taken.1, holds a :=
  answers_bind _ (answers_items close what h) fun _ htaken => answers_next fun _ => answers_pure htaken

theorem answers_nested {p : Parse α} (h : Answers p holds) : Answers (nested p) holds := by
  intro s a s' hok
  cases hp : p { s with depth := s.depth + 1 } with
  | ok b t =>
    cases (nested_ok hp).symm.trans hok
    exact h _ _ _ hp
  | error e t => exact nomatch (nested_error hp).symm.trans hok

theorem answers_recovering {p : Parse α} (h : Answers p holds) : Answers (recovering p) fun o => ∀ a ∈ o, holds a := by
  intro s o s' hok a ha
  cases hp : p s with
  | ok b t =>
    cases (recovering_ok hp).symm.trans hok
    cases ha
    exact h _ _ _ hp
  | error e t =>
    cases (recovering_error hp).symm.trans hok
    cases ha

/-! ### Annotations -/

theorem isEmpty_ofList {t : TypeName} {ts : List TypeName} (h : t ∈ ts) : (Union.ofList ts).isEmpty = false :=
  List.isEmpty_eq_false_iff.2 (List.ne_nil_of_mem (Union.mem_ofList.2 h))

theorem answers_annotation : Answers annotation fun u => u.isEmpty = false := by
  refine answers_next fun first => answers_bind (fun all => first ∈ all) ?_ fun all hall => answers_pure (isEmpty_ofList hall)
  refine answers_rounds (fun all => first ∈ all) (fun all hall => ?_) List.mem_cons_self
  refine answers_next fun _ => answers_ite ?_ (answers_pure hall)
  exact answers_next fun _ => answers_next fun _ => answers_pure (List.mem_append_left _ hall)

theorem answers_annotation? : Answers annotation? fun found => ∀ u ∈ found, u.isEmpty = false := by
  refine answers_next fun _ => answers_ite ?_ (answers_pure fun u h => absurd h (Option.not_mem_none u))
  refine answers_bind _ answers_annotation fun u hu => answers_pure fun v hv => ?_
  cases hv
  exact hu

theorem answers_annotationOf (name : Token) : Answers (annotationOf name) fun typed => typed.types.isEmpty = false :=
  answers_next fun _ => answers_ite (answers_bind _ answers_annotation fun _ hu => answers_pure hu) (answers_throw _)

/-- What a body lists: attributes whose annotations are no empty unions. -/
def ListsAttributes (listed : Union × List TypedName) : Prop := ∀ a ∈ listed.2, a.types.isEmpty = false

theorem answers_entry (types : Union) {attributes : List TypedName} (h : ListsAttributes (types, attributes)) :
    Answers (entry types attributes) ListsAttributes := by
  refine answers_next fun _ => answers_next fun _ => answers_ite ?_ (answers_next fun _ => answers_pure h)
  refine answers_next fun _ => answers_next fun _ => answers_bind _ answers_annotation fun u hu => answers_pure ?_
  exact fun a ha => (List.mem_append.1 ha).elim (h a) fun ha => (List.mem_singleton.1 ha) ▸ hu

theorem answers_entries : Answers entries ListsAttributes := by
  refine answers_next fun _ => answers_rounds ListsAttributes (fun listed hlisted => ?_)
    (fun a ha => absurd ha List.not_mem_nil)
  refine answers_next fun _ => answers_next fun _ => answers_ite (answers_pure hlisted) ?_
  refine answers_bind _ (answers_entry _ hlisted) fun listed hlisted => answers_next fun _ => ?_
  exact answers_ite (answers_pure hlisted) (answers_expected _)

theorem answers_typeDeclaration_annotated (decorators : List Decorator) : Answers (typeDeclaration decorators) fun d =>
    d.types.isEmpty = false ∧ ∀ a ∈ d.attributes, a.types.isEmpty = false := by
  refine answers_next fun word => answers_next fun name => answers_next fun _ => answers_ite ?_ (answers_throw _)
  refine answers_next fun found => ?_
  cases found with
  | some kind =>
    refine answers_next fun _ => answers_bind _ answers_entries fun listed hlisted =>
      answers_fitting word _ ⟨?_, hlisted⟩
    -- A body without members stands for the type itself.
    show (if listed.1.isEmpty then Union.named name.text else listed.1).isEmpty = false
    split
    · rfl
    · rename_i hsome
      exact Bool.eq_false_iff.2 hsome
  | none =>
    exact answers_bind _ answers_annotation fun u hu =>
      answers_fitting word _ ⟨hu, fun a ha => absurd ha List.not_mem_nil⟩

end Parts

namespace TreeProperty

variable {P : TreeProperty} {room : Nat} {deeper : Deeper}

/-- The readers for what an expression or a block holds answer what was read with one level less of room. -/
structure Reads (P : TreeProperty) (room : Nat) (deeper : Deeper) : Prop where
  expression (floor : Level) : Answers (deeper.expression floor) (P.Sub room)
  block : Answers deeper.block (P.Inner room)

/-! ## Expressions -/

theorem answers_stringBehind (h : P.Closed) (opened : Token) : Answers (stringBehind opened) (P.expression room) :=
  answers_next fun _ => answers_next fun _ =>
    answers_ite (answers_next fun _ => answers_pure (h.literal _ _ _)) (answers_throw _)

theorem answers_number (h : P.Closed) (t : Token) (value : String → Literal) :
    Answers (number t value) (P.expression room) :=
  answers_ite (answers_pure (h.literal _ _ _)) (answers_throw _)

theorem answers_accessTarget (h : P.Closed) : Answers accessTarget (P.expression room) := by
  refine answers_next fun kind => ?_
  split
  · exact answers_next fun _ => answers_pure (h.identifier _ _ _)
  · exact answers_next fun _ => answers_stringBehind h _
  · exact answers_expected _

section Forms

variable (h : P.Closed) (hd : P.Reads room deeper)

include hd

theorem answers_anyExpression : Answers (anyExpression deeper) (P.Sub room) := hd.expression _

theorem answers_argument : Answers (argument deeper) fun a => P.Sub room a.value := by
  refine answers_next fun _ => answers_next fun _ => answers_ite ?_ ?_
  · exact answers_next fun _ => answers_next fun _ => answers_next fun _ =>
      answers_bind _ (answers_anyExpression hd) fun _ he => answers_pure he
  · exact answers_bind _ (answers_anyExpression hd) fun _ he => answers_pure he

theorem answers_arguments (close : TokenKind) (what : String) :
    Answers (arguments deeper close what) fun taken => ∀ a ∈ taken.1, P.Sub room a.value :=
  answers_delimited close what (answers_argument hd)

theorem answers_parameter : Answers (parameter deeper) (P.Takes room) := by
  refine answers_next fun kind => answers_ite ?_ (answers_expected _)
  refine answers_next fun t => answers_bind _ answers_annotation? fun types htypes => answers_next fun _ => ?_
  refine answers_ite ?_ (answers_pure ⟨htypes, fun e he => absurd he (Option.not_mem_none e)⟩)
  refine answers_next fun _ => answers_bind _ (answers_anyExpression hd) fun e he => answers_pure ⟨htypes, ?_⟩
  exact fun e' he' => (Option.mem_some.1 he') ▸ he

theorem answers_parameters : Answers (parameters deeper) fun ps => ∀ p ∈ ps, P.Takes room p :=
  answers_bind _ (answers_delimited .rightParen _ (answers_parameter hd)) fun _ hps => answers_pure hps

/-! ### Functions, branches and loops -/

include h

theorem answers_vectorBehind (opened : Token) : Answers (vectorBehind deeper opened) (P.expression room) :=
  answers_bind _ (answers_delimited .rightParen _ (answers_anyExpression hd)) fun _ helements =>
    answers_pure (h.vector _ helements)

theorem answers_arrowFunctionBehind (opened : Token) :
    Answers (arrowFunctionBehind deeper opened) (P.expression room) := by
  refine answers_bind _ (answers_parameters hd) fun ps hps => answers_bind _ answers_annotation? fun returns hreturns =>
    answers_next fun _ => answers_next fun _ => answers_next fun braces => answers_ite ?_ ?_
  · exact answers_bind _ hd.block fun body hbody =>
      answers_pure (h.function _ ⟨fun r hr => absurd hr (Option.not_mem_none r), hps, hreturns⟩ rfl (.inl hbody))
  · exact answers_bind _ (answers_anyExpression hd) fun e he =>
      answers_pure (h.function _ ⟨fun r hr => absurd hr (Option.not_mem_none r), hps, hreturns⟩ rfl (.inr ⟨e, rfl, he⟩))

omit h hd in
theorem answers_receiver? : Answers receiver? fun receiver => ∀ r ∈ receiver, r.types.isEmpty = false := by
  refine answers_next fun _ => answers_next fun _ => answers_ite ?_ (answers_pure fun r hr => absurd hr (Option.not_mem_none r))
  refine answers_next fun _ => answers_next fun name => answers_bind _ (answers_annotationOf name) fun typed htyped =>
    answers_next fun _ => answers_pure fun r hr => ?_
  exact (Option.mem_some.1 hr) ▸ htyped

omit h in
/-- What is behind the word `func` is a function with the decorators it was given. -/
theorem answers_functionBehind (func : Token) (decorators : List Decorator) :
    Answers (functionBehind deeper func decorators) fun e => ∃ span f, e = .function span f ∧
      f.decorators = decorators ∧ P.Signature room f ∧ P.Inner room f.body := by
  refine answers_bind _ answers_receiver? fun receiver hreceiver => ?_
  have hrest (name : Option Token) : Answers (do
      let _ ← Parse.expect .leftParen "`(` to start parameter list"
      let ps ← Parse.parameters deeper
      let returnTypes ← Parse.annotation?
      Parse.skipNewlines
      let body ← deeper.block
      return Expression.function (func.span.union body.span)
        { name := name.map Token.text, nameSpan := (name.getD func).span, receiver, parameters := ps, returnTypes,
          body, decorators } : Parse Expression) fun e => ∃ span f, e = .function span f ∧
        f.decorators = decorators ∧ P.Signature room f ∧ P.Inner room f.body :=
    answers_next fun _ => answers_bind _ (answers_parameters hd) fun ps hps =>
      answers_bind _ answers_annotation? fun returns hreturns => answers_next fun _ =>
        answers_bind _ hd.block fun body hbody =>
          answers_pure ⟨_, _, rfl, rfl, ⟨hreceiver, hps, hreturns⟩, hbody⟩
  refine answers_next fun _ => answers_ite ?_ (answers_ite ?_ ?_)
  · exact answers_next fun name => hrest (some name)
  · exact answers_next hrest
  · exact hrest none

/-- What each branch of a chain is made of. -/
def Branches (P : TreeProperty) (room : Nat) (b : Branch) : Prop :=
  P.Sub room b.condition ∧ P.Inner room b.consequence

omit h in
theorem answers_branch (elseSpan ifSpan : Span) : Answers (branch deeper elseSpan ifSpan) (Branches P room) :=
  answers_next fun _ => answers_next fun _ => answers_bind _ (answers_anyExpression hd) fun _ hcondition =>
    answers_next fun _ => answers_next fun _ => answers_next fun _ =>
      answers_bind _ hd.block fun _ hconsequence => answers_pure ⟨hcondition, hconsequence⟩

omit hd in
theorem close_closed {b : Branch} {alternative : Option Block} (hb : Branches P room b)
    (halternative : P.Alternative room alternative) : P.expression room (b.close alternative) :=
  h.conditional _ hb.1 hb.2 halternative

omit hd in
/-- A branch of the chain is an alternative of the one in front of it. -/
theorem chain_closed {first : Branch} {more : List Branch} {last : Option Block} (hfirst : Branches P room first)
    (hmore : ∀ b ∈ more, Branches P room b) (hlast : P.Alternative room last) :
    P.expression room (chain first more last) := by
  refine close_closed h hfirst ?_
  induction more with
  | nil => exact hlast
  | cons b more ih =>
    have hrest := ih fun b' hb' => hmore b' (List.mem_cons_of_mem _ hb')
    exact .inr ⟨_, rfl, rfl, close_closed h (hmore b List.mem_cons_self) hrest⟩

theorem answers_conditionalBehind (opened : Token) : Answers (conditionalBehind deeper opened) (P.expression room) := by
  refine answers_bind _ (answers_branch hd _ _) fun first hfirst =>
    answers_rounds (fun more => ∀ b ∈ more, Branches P room b) (fun more hmore => ?_)
      (fun b hb => absurd hb List.not_mem_nil)
  refine answers_next fun _ => answers_ite ?_ (answers_pure (chain_closed h hfirst hmore trivial))
  refine answers_next fun _ => answers_next fun otherwise => answers_next fun _ => answers_next fun _ =>
    answers_ite ?_ ?_
  · refine answers_next fun next => answers_bind _ (answers_branch hd _ _) fun b hb => answers_pure ?_
    exact fun b' hb' => (List.mem_append.1 hb').elim (hmore b') fun hb' => (List.mem_singleton.1 hb') ▸ hb
  · exact answers_bind _ hd.block fun body hbody => answers_pure (chain_closed h hfirst hmore (.inl hbody))

theorem answers_forBehind (opened : Token) : Answers (forBehind deeper opened) (P.expression room) :=
  answers_next fun _ => answers_next fun _ => answers_next fun name =>
    answers_bind _ (answers_annotationOf name) fun _ htyped => answers_next fun _ =>
      answers_bind _ (answers_anyExpression hd) fun _ hiterable => answers_next fun _ => answers_next fun _ =>
        answers_bind _ hd.block fun _ hbody => answers_pure (h.forLoop _ htyped hiterable hbody)

theorem answers_whileBehind (opened : Token) : Answers (whileBehind deeper opened) (P.expression room) :=
  answers_next fun _ => answers_next fun _ => answers_bind _ (answers_anyExpression hd) fun _ hcondition =>
    answers_next fun _ => answers_next fun _ => answers_next fun _ =>
      answers_bind _ hd.block fun _ hbody => answers_pure (h.whileLoop _ hcondition hbody)

theorem answers_repeatBehind (opened : Token) : Answers (repeatBehind deeper opened) (P.expression room) :=
  answers_bind _ hd.block fun _ hbody => answers_pure (h.repeatLoop _ hbody)

/-! ### First parts and continuations -/

theorem answers_unaryBehind (opened : Token) (operator : UnaryOperator) :
    Answers (unaryBehind deeper opened operator) (P.expression room) :=
  answers_next fun _ => answers_bind _ (hd.expression .unary) fun _ he => answers_pure (h.unary _ operator he)

theorem answers_firstPart : Answers (firstPart deeper) (P.expression room) := by
  refine answers_next fun t => ?_
  split
  · exact answers_next fun _ => answers_pure (h.identifier _ _ _)
  · exact answers_next fun _ => answers_number h _ _
  · exact answers_next fun _ => answers_number h _ _
  · exact answers_next fun _ => answers_stringBehind h _
  · exact answers_next fun _ => answers_next fun _ =>
      answers_ite (answers_arrowFunctionBehind h hd _) (answers_vectorBehind h hd _)
  · refine answers_next fun _ => ?_
    intro s e s' he
    obtain ⟨span, f, rfl, hbare, hf, hbody⟩ := answers_functionBehind hd t [] s e s' he
    exact h.function span hf hbare (.inl hbody)
  · exact answers_next fun _ => answers_conditionalBehind h hd _
  · exact answers_next fun _ => answers_forBehind h hd _
  · exact answers_next fun _ => answers_whileBehind h hd _
  · exact answers_next fun _ => answers_repeatBehind h hd _
  · split
    · exact answers_next fun _ => answers_pure (h.literal _ _ _)
    · exact answers_next fun _ => answers_unaryBehind h hd _ _
    · exact fun _ _ _ hread => nomatch hread

theorem answers_operatorBehind {left : Expression} (hleft : P.expression room left) (operator : BinaryOperator) :
    Answers (operatorBehind deeper left operator) (P.expression room) := by
  refine answers_next fun _ => ?_
  cases haccess : operator.isAccess with
  | true => exact answers_bind _ (answers_accessTarget h) fun _ hright => answers_pure (h.access _ haccess hleft hright)
  | false =>
    exact answers_next fun _ => answers_bind _ (hd.expression _) fun _ hright =>
      answers_pure (h.binary _ haccess hleft hright)

theorem answers_continuationOf {left : Expression} (hleft : P.expression room left) :
    ∀ continuation, Answers (continuationOf deeper left continuation) (P.expression room)
  | .operator operator => answers_operatorBehind h hd hleft operator
  | .call =>
    answers_next fun _ => answers_bind _ (answers_arguments hd _ _) fun _ hargs => answers_pure (h.call _ hleft hargs)
  | .index double => by
    refine answers_next fun _ => answers_ite ?_ ?_
    · exact answers_bind _ (answers_arguments hd _ _) fun _ hargs => answers_pure (h.index _ _ hleft hargs)
    · exact answers_bind _ (answers_arguments hd _ _) fun _ hargs => answers_pure (h.index _ _ hleft hargs)

theorem answers_expressionBody (floor : Level) : Answers (expressionBody deeper floor) (P.expression room) := by
  refine answers_bind _ (answers_firstPart h hd) fun first hfirst =>
    answers_rounds (P.expression room) (fun left hleft => answers_next fun t => ?_) hfirst
  split
  · exact answers_ite (answers_bind _ (answers_continuationOf h hd hleft _) fun _ he => answers_pure he)
      (answers_pure hleft)
  · exact answers_pure hleft

/-! ## Statements -/

theorem answers_binding (constant : Bool) : Answers (binding deeper constant) (P.statement room) := by
  refine answers_next fun _ => answers_next fun name => answers_bind _ (answers_annotationOf name) fun target htarget =>
    answers_next fun _ => answers_ite ?_ (answers_ite (answers_expected _) ?_)
  · refine answers_next fun _ => answers_bind _ (answers_anyExpression hd) fun value hvalue => answers_pure ?_
    exact h.binding _ htarget fun e he => (Option.mem_some.1 he) ▸ hvalue
  · exact answers_pure (h.binding _ htarget fun e he => absurd he (Option.not_mem_none e))

theorem answers_returnStatement : Answers (returnStatement deeper) (P.statement room) := by
  refine answers_next fun _ => answers_next fun _ => answers_ite ?_ ?_
  · exact answers_pure (h.returning _ fun e he => absurd he (Option.not_mem_none e))
  · refine answers_bind _ (answers_anyExpression hd) fun value hvalue => answers_pure ?_
    exact h.returning _ fun e he => (Option.mem_some.1 he) ▸ hvalue

omit hd in
theorem answers_typeStatement (decorators : List Decorator) :
    Answers (return .typeDeclaration (← typeDeclaration decorators)) (P.statement room) :=
  answers_bind _ (answers_typeDeclaration_annotated decorators) fun _ hd =>
    answers_pure (h.typeDeclaration room hd.1 hd.2)

theorem answers_declarationBehind {decorators : List Decorator} (hsome : decorators ≠ []) (last : Decorator) :
    Answers (declarationBehind deeper decorators last) (P.statement room) := by
  refine answers_next fun kind => ?_
  split
  · exact answers_typeStatement h decorators
  · split
    · exact answers_throw _
    · refine answers_next fun func => answers_bind _ (answers_functionBehind hd func decorators) fun e he => ?_
      obtain ⟨span, f, rfl, rfl, hf, hbody⟩ := he
      exact answers_pure (h.decorated span hf hsome hbody)
  · exact answers_throw _

theorem answers_decorated : Answers (decorated deeper) (P.statement room) := by
  let known (listed : List Decorator × Decorator) : Prop := listed.1 ≠ []
  refine answers_next fun first => answers_bind known ?_ fun listed hlisted =>
    answers_declarationBehind h hd hlisted listed.2
  refine answers_rounds known (fun listed hlisted => ?_) (List.cons_ne_nil first [])
  refine answers_next fun another => answers_ite ?_ (answers_pure hlisted)
  exact answers_next fun d => answers_pure (List.append_ne_nil_of_right_ne_nil _ (List.cons_ne_nil d []))

theorem answers_statement : Answers (Parse.statement deeper) (P.statement room) := by
  refine answers_next fun kind => ?_
  split
  · exact answers_ended (answers_binding h hd _)
  · exact answers_ended (answers_binding h hd _)
  · exact answers_ended (answers_typeStatement h [])
  · exact answers_ended (answers_returnStatement h hd)
  · exact answers_ended (answers_next fun _ => answers_bind _ (answers_anyExpression hd) fun _ he =>
      answers_pure (h.defer _ he))
  · exact answers_ended (answers_next fun _ => answers_pure (h.jump _ _ _))
  · exact answers_ended (answers_next fun _ => answers_pure (h.jump _ _ _))
  · exact answers_next fun _ => answers_pure (h.comment _ _ _ _)
  · exact answers_next fun _ => answers_pure (h.comment _ _ _ _)
  · exact answers_ended (answers_decorated h hd)
  · exact answers_ended (answers_bind _ hd.block fun _ hb => answers_pure (h.block hb))
  · exact answers_ended (answers_bind _ (answers_anyExpression hd) fun _ he => answers_pure (h.expressionStatement he))

theorem answers_statements (inBlock : Bool) :
    Answers (statements deeper inBlock) fun sts => ∀ st ∈ sts, P.statement room st := by
  refine answers_rounds (fun taken : List Statement => ∀ st ∈ taken, P.statement room st) (fun taken htaken => ?_)
    (fun st hst => absurd hst List.not_mem_nil)
  refine answers_next fun _ => answers_next fun kind => answers_ite (answers_pure htaken) ?_
  refine answers_bind _ (answers_recovering (answers_statement h hd)) fun found hfound => ?_
  cases found with
  | none => exact answers_pure htaken
  | some st =>
    refine answers_pure fun st' hst' => ?_
    exact (List.mem_append.1 hst').elim (htaken st') fun hst' => (List.mem_singleton.1 hst') ▸ hfound st rfl

end Forms

/-! ## Nesting -/

/-- **The induction over the room that is left.** -/
theorem reads_deeperAt (h : P.Closed) : ∀ room : Nat, P.Reads room (deeperAt room)
  | 0 => by
    refine ⟨fun floor _ _ _ hread => (nomatch hread), fun s b s' hread => ?_⟩
    obtain ⟨opened, t, -, hread⟩ := Steps.of_bind_ok hread
    exact nomatch hread
  | room + 1 => by
    have hd := reads_deeperAt h room
    refine ⟨fun floor => ?_, answers_next fun opened => ?_⟩
    · exact fun s e s' hread => ⟨room, rfl, answers_nested (answers_expressionBody h hd floor) s e s' hread⟩
    · refine answers_nested (answers_bind _ (answers_statements h hd true) fun taken htaken =>
        answers_next fun close => answers_pure ⟨room, rfl, htaken⟩)

/-- **Every statement of a program that was read has the property.** -/
theorem Closed.ofTokens (h : P.Closed) (tokens : List Token) (limit : Nat) :
    ∀ st ∈ (ParsedProgram.ofTokens tokens limit).program.statements, P.statement limit st := by
  unfold ParsedProgram.ofTokens
  split
  · rename_i statements s hread
    exact answers_statements h (reads_deeperAt h limit) false _ _ _ hread
  · exact fun st hst => absurd hst List.not_mem_nil

end TreeProperty
end Parse
end UnionScript
