import Mathlib.Data.List.Forall2
import UnionScript.Check.Inference
/-!
# Twins — programs that differ in one body

Two trees are twins if they are the same but for two things: their spans correspond in a way that is left open, and at
some places a body consists of other statements.  Both differences are parameters: `same` tells which spans correspond,
`b` are the statements of the body in one tree and `b'` in the other, and twins are counted by the places where these
stand (`Twin.OfExpression` and the relations beside it).  So twins at one place are programs that differ in the statements
of one body, and twins at none are the same program written elsewhere.
-/
namespace UnionScript

/-! ## Leaves -/

section Leaves

variable (same : Span → Span → Prop)

/-- Two annotated names that are the same, but for places. -/
structure TypedName.Twins (t t' : TypedName) : Prop where
  name : t.name = t'.name
  types : t.types = t'.types
  span : same t.span t'.span

/-- Two names of arguments that are the same, but for places. -/
def NameTwins : Option (String × Span) → Option (String × Span) → Prop :=
  Option.Rel fun n n' => n.1 = n'.1 ∧ same n.2 n'.2

end Leaves

/-! ## Trees -/

namespace Twin

variable (same : Span → Span → Prop) (b b' : List Statement)

mutual

/-- Two expressions that are the same, but for places and for a number of bodies. -/
inductive OfExpression : Nat → Expression → Expression → Prop
  | identifier {span span'} (name) (hspan : same span span') : OfExpression 0 (.identifier span name) (.identifier span' name)
  | literal {span span'} (value) (hspan : same span span') : OfExpression 0 (.literal span value) (.literal span' value)
  | vector {span span' n es es'} (hspan : same span span') (h : OfElements n es es') :
    OfExpression n (.vector span es) (.vector span' es')
  | unary {span span' n e e'} (operator) (hspan : same span span') (h : OfExpression n e e') :
    OfExpression n (.unary span operator e) (.unary span' operator e')
  | binary {span span' n m left left' right right'} (operator) (hspan : same span span') (hleft : OfExpression n left left')
    (hright : OfExpression m right right') :
    OfExpression (n + m) (.binary span operator left right) (.binary span' operator left' right')
  | branch {span span' n m e e' c c'} (hspan : same span span') (h : OfExpression n e e') (hc : OfBlock m c c') :
    OfExpression (n + m) (.conditional span e c none) (.conditional span' e' c' none)
  | branches {span span' n m k e e' c c' a a'} (hspan : same span span') (h : OfExpression n e e') (hc : OfBlock m c c')
    (ha : OfBlock k a a') :
    OfExpression (n + (m + k)) (.conditional span e c (some a)) (.conditional span' e' c' (some a'))
  | forLoop {span span' n m v v' e e' body body'} (hspan : same span span') (hv : v.Twins same v')
    (h : OfExpression n e e') (hbody : OfBlock m body body') :
    OfExpression (n + m) (.forLoop span v e body) (.forLoop span' v' e' body')
  | whileLoop {span span' n m e e' body body'} (hspan : same span span') (h : OfExpression n e e')
    (hbody : OfBlock m body body') : OfExpression (n + m) (.whileLoop span e body) (.whileLoop span' e' body')
  | repeatLoop {span span' n body body'} (hspan : same span span') (hbody : OfBlock n body body') :
    OfExpression n (.repeatLoop span body) (.repeatLoop span' body')
  | function {span span' n f f'} (hspan : same span span') (h : OfFunction n f f') :
    OfExpression n (.function span f) (.function span' f')
  | call {span span' n m e e' as as'} (hspan : same span span') (h : OfExpression n e e') (has : OfArguments m as as') :
    OfExpression (n + m) (.call span e as) (.call span' e' as')
  | index {span span' n m e e' as as'} (double) (hspan : same span span') (h : OfExpression n e e')
    (has : OfArguments m as as') : OfExpression (n + m) (.index span e as double) (.index span' e' as' double)

inductive OfElements : Nat → List Expression → List Expression → Prop
  | nil : OfElements 0 [] []
  | cons {n m e e' es es'} (h : OfExpression n e e') (hrest : OfElements m es es') :
    OfElements (n + m) (e :: es) (e' :: es')

inductive OfArguments : Nat → List Argument → List Argument → Prop
  | nil : OfArguments 0 [] []
  | cons {n m name name' e e' as as'} (hname : NameTwins same name name') (h : OfExpression n e e')
    (hrest : OfArguments m as as') : OfArguments (n + m) (⟨name, e⟩ :: as) (⟨name', e'⟩ :: as')

inductive OfParameters : Nat → List Parameter → List Parameter → Prop
  | nil : OfParameters 0 [] []
  | plain {m span span' ps ps'} (name types) (hspan : same span span') (hrest : OfParameters m ps ps') :
    OfParameters m (⟨name, span, types, none⟩ :: ps) (⟨name, span', types, none⟩ :: ps')
  | default {n m span span' e e' ps ps'} (name types) (hspan : same span span') (h : OfExpression n e e')
    (hrest : OfParameters m ps ps') :
    OfParameters (n + m) (⟨name, span, types, some e⟩ :: ps) (⟨name, span', types, some e'⟩ :: ps')

inductive OfFunction : Nat → FunctionLiteral → FunctionLiteral → Prop
  | mk {n m k span span' receiver receiver' ps ps' body body' ds ds'} (name types) (hspan : same span span')
    (hreceiver : Option.Rel (TypedName.Twins same) receiver receiver') (hps : OfParameters n ps ps')
    (hbody : OfBlock m body body') (hds : OfDecorators k ds ds') :
    OfFunction (n + m + k) ⟨name, span, receiver, ps, types, body, ds⟩ ⟨name, span', receiver', ps', types, body', ds'⟩

inductive OfDecorators : Nat → List Decorator → List Decorator → Prop
  | nil : OfDecorators 0 [] []
  | cons {n m span span' as as' ds ds'} (kind) (hspan : same span span') (has : OfArguments n as as')
    (hrest : OfDecorators m ds ds') : OfDecorators (n + m) (⟨kind, as, span⟩ :: ds) (⟨kind, as', span'⟩ :: ds')

/-- A body is a twin of another if their statements are, or if it is one of the counted places. -/
inductive OfBlock : Nat → Block → Block → Prop
  | statements {n ss ss'} (span span') (h : OfStatements n ss ss') : OfBlock n ⟨ss, span⟩ ⟨ss', span'⟩
  | place (span span') : OfBlock 1 ⟨b, span⟩ ⟨b', span'⟩

inductive OfDeclaration : Nat → TypeDeclaration → TypeDeclaration → Prop
  | mk {n span span' attributes attributes' ds ds'} (name list kind types) (hspan : same span span')
    (hattributes : List.Forall₂ (TypedName.Twins same) attributes attributes') (hds : OfDecorators n ds ds') :
    OfDeclaration n ⟨name, span, list, kind, types, attributes, ds⟩ ⟨name, span', list, kind, types, attributes', ds'⟩

inductive OfStatement : Nat → Statement → Statement → Prop
  | declared {target target'} (constant) (htarget : target.Twins same target') :
    OfStatement 0 (.binding constant target none) (.binding constant target' none)
  | bound {n target target' e e'} (constant) (htarget : target.Twins same target') (h : OfExpression n e e') :
    OfStatement n (.binding constant target (some e)) (.binding constant target' (some e'))
  | left {span span'} (hspan : same span span') : OfStatement 0 (.return none span) (.return none span')
  | returned {n span span' e e'} (hspan : same span span') (h : OfExpression n e e') :
    OfStatement n (.return (some e) span) (.return (some e') span')
  | typeDeclaration {n d d'} (h : OfDeclaration n d d') : OfStatement n (.typeDeclaration d) (.typeDeclaration d')
  | comment {span span'} (text roxygen) (hspan : same span span') :
    OfStatement 0 (.comment text roxygen span) (.comment text roxygen span')
  | defer {n span span' e e'} (hspan : same span span') (h : OfExpression n e e') :
    OfStatement n (.defer e span) (.defer e' span')
  | jump {span span'} (kind) (hspan : same span span') : OfStatement 0 (.jump kind span) (.jump kind span')
  | block {n c c'} (h : OfBlock n c c') : OfStatement n (.block c) (.block c')
  | expression {n e e'} (h : OfExpression n e e') : OfStatement n (.expression e) (.expression e')

inductive OfStatements : Nat → List Statement → List Statement → Prop
  | nil : OfStatements 0 [] []
  | cons {n m s s' ss ss'} (h : OfStatement n s s') (hrest : OfStatements m ss ss') :
    OfStatements (n + m) (s :: ss) (s' :: ss')

end

variable {same : Span → Span → Prop} {b b' : List Statement} {n : Nat}

/-! ## What twins have in common -/

theorem OfExpression.span {e e' : Expression} (h : OfExpression same b b' n e e') : same e.span e'.span := by
  cases h <;> assumption

theorem OfElements.isEmpty {es es' : List Expression} (h : OfElements same b b' n es es') : es.isEmpty = es'.isEmpty := by
  cases h <;> rfl

/-- Twins give access to the same name. -/
theorem OfExpression.accessName? {e e' : Expression} (h : OfExpression same b b' n e e') :
    Check.accessName? e = Check.accessName? e' := by
  cases h with
  | literal value => cases value <;> rfl
  | _ => rfl

/-- Two arguments that look the same from outside of their values, but for places. -/
structure ArgumentTwins (same : Span → Span → Prop) (a a' : Argument) : Prop where
  name : NameTwins same a.name a'.name
  span : same a.value.span a'.value.span

theorem OfArguments.twins : ∀ {n : Nat} {as as' : List Argument}, OfArguments same b b' n as as' →
    List.Forall₂ (ArgumentTwins same) as as'
  | _, [], _, h => by
    cases h
    exact .nil
  | _, _ :: _, _, h => by
    cases h with
    | cons hname h hrest => exact .cons ⟨hname, h.span⟩ hrest.twins

theorem OfArguments.accessNames : ∀ {n : Nat} {as as' : List Argument}, OfArguments same b b' n as as' →
    as.filterMap (fun a => Check.accessName? a.value) = as'.filterMap fun a => Check.accessName? a.value
  | _, [], _, h => by
    cases h
    rfl
  | _, _ :: _, _, h => by
    cases h with
    | cons hname h hrest => rw [List.filterMap_cons, List.filterMap_cons, h.accessName?, hrest.accessNames]

/-- Twins name the same classes. -/
theorem OfDecorators.classNames : ∀ {n : Nat} {ds ds' : List Decorator}, OfDecorators same b b' n ds ds' →
    Check.classNames ds = Check.classNames ds'
  | _, [], _, h => by
    cases h
    rfl
  | _, ⟨kind, as, span⟩ :: ds, _, h => by
    cases h with
    | @cons _ _ _ span' _ as' _ ds' _ _ has hrest =>
      have hnames := hrest.classNames
      unfold Check.classNames at hnames ⊢
      cases hkind : kind == .classes with
      | false => simpa [hkind] using hnames
      | true => simpa [hkind, List.filterMap_append, has.accessNames] using hnames

/-! ## A tree and itself -/

theorem typedName_refl (h : ∀ span, same span span) (t : TypedName) : t.Twins same t := ⟨rfl, rfl, h _⟩

theorem name_refl (h : ∀ span, same span span) : ∀ name : Option (String × Span), NameTwins same name name
  | none => .none
  | some _ => .some ⟨rfl, h _⟩

theorem receiver_refl (h : ∀ span, same span span) :
    ∀ receiver : Option TypedName, Option.Rel (TypedName.Twins same) receiver receiver
  | none => .none
  | some r => .some (typedName_refl h r)

mutual

theorem expression_refl (h : ∀ span, same span span) : ∀ e : Expression, OfExpression same b b' 0 e e
  | .identifier span name => .identifier name (h span)
  | .literal span value => .literal value (h span)
  | .vector span es => .vector (h span) (elements_refl h es)
  | .unary span operator e => .unary operator (h span) (expression_refl h e)
  | .binary span operator left right => .binary operator (h span) (expression_refl h left) (expression_refl h right)
  | .conditional span e c none => .branch (h span) (expression_refl h e) (block_refl h c)
  | .conditional span e c (some a) =>
    .branches (h span) (expression_refl h e) (block_refl h c) (block_refl h a)
  | .forLoop span v e body => .forLoop (h span) (typedName_refl h v) (expression_refl h e) (block_refl h body)
  | .whileLoop span e body => .whileLoop (h span) (expression_refl h e) (block_refl h body)
  | .repeatLoop span body => .repeatLoop (h span) (block_refl h body)
  | .function span f => .function (h span) (function_refl h f)
  | .call span e as => .call (h span) (expression_refl h e) (arguments_refl h as)
  | .index span e as double => .index double (h span) (expression_refl h e) (arguments_refl h as)

theorem elements_refl (h : ∀ span, same span span) : ∀ es : List Expression, OfElements same b b' 0 es es
  | [] => .nil
  | e :: es => .cons (expression_refl h e) (elements_refl h es)

theorem arguments_refl (h : ∀ span, same span span) : ∀ as : List Argument, OfArguments same b b' 0 as as
  | [] => .nil
  | ⟨name, e⟩ :: as => .cons (name_refl h name) (expression_refl h e) (arguments_refl h as)

theorem parameters_refl (h : ∀ span, same span span) : ∀ ps : List Parameter, OfParameters same b b' 0 ps ps
  | [] => .nil
  | ⟨name, span, types, none⟩ :: ps => .plain name types (h span) (parameters_refl h ps)
  | ⟨name, span, types, some e⟩ :: ps => .default name types (h span) (expression_refl h e) (parameters_refl h ps)

theorem function_refl (h : ∀ span, same span span) : ∀ f : FunctionLiteral, OfFunction same b b' 0 f f
  | ⟨name, span, receiver, ps, types, body, ds⟩ =>
    .mk name types (h span) (receiver_refl h receiver) (parameters_refl h ps) (block_refl h body)
      (decorators_refl h ds)

theorem decorators_refl (h : ∀ span, same span span) : ∀ ds : List Decorator, OfDecorators same b b' 0 ds ds
  | [] => .nil
  | ⟨kind, as, span⟩ :: ds => .cons kind (h span) (arguments_refl h as) (decorators_refl h ds)

theorem block_refl (h : ∀ span, same span span) : ∀ c : Block, OfBlock same b b' 0 c c
  | ⟨ss, span⟩ => .statements span span (statements_refl h ss)

theorem declaration_refl (h : ∀ span, same span span) : ∀ d : TypeDeclaration, OfDeclaration same b b' 0 d d
  | ⟨name, span, list, kind, types, _, ds⟩ =>
    .mk name list kind types (h span) (List.forall₂_same.2 fun a _ => typedName_refl h a) (decorators_refl h ds)

theorem statement_refl (h : ∀ span, same span span) : ∀ s : Statement, OfStatement same b b' 0 s s
  | .binding constant target none => .declared constant (typedName_refl h target)
  | .binding constant target (some e) => .bound constant (typedName_refl h target) (expression_refl h e)
  | .return none span => .left (h span)
  | .return (some e) span => .returned (h span) (expression_refl h e)
  | .typeDeclaration d => .typeDeclaration (declaration_refl h d)
  | .comment text roxygen span => .comment text roxygen (h span)
  | .defer e span => .defer (h span) (expression_refl h e)
  | .jump kind span => .jump kind (h span)
  | .block c => .block (block_refl h c)
  | .expression e => .expression (expression_refl h e)

theorem statements_refl (h : ∀ span, same span span) : ∀ ss : List Statement, OfStatements same b b' 0 ss ss
  | [] => .nil
  | s :: ss => .cons (statement_refl h s) (statements_refl h ss)

end

end Twin
end UnionScript
