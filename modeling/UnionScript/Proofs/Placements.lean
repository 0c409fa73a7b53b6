import UnionScript.Proofs.Places
/-!
# Placements — the statements of a program, each with what is open around it

Statements stand in blocks, in blocks of loops, branches and functions, and so in any expression, parameters' defaults
included.  The list of all of them follows the walk, and with each goes what is open around it.  A statement is in front of
those inside it, but for a `return`: that is judged by the types of its value, so it is behind the statements in there.  The
list holds a statement behind some enclosures exactly if one stands there (`mem_placements_iff`): so what is said of all its
entries is said of every place that the walk comes by, as often as there is one.
-/
namespace UnionScript

/-- A statement where it stands, behind what is open around it, the innermost first. -/
structure Placement where
  around : List Enclosure
  statement : Statement

/-! ## Trees -/

mutual

/-- The statements in an expression, in the order of the walk: a value comes before the target it is given to. -/
def Expression.placements (around : List Enclosure) : Expression → List Placement
  | .identifier .. | .literal .. => []
  | .vector _ elements => placementsOfElements around elements
  | .unary _ _ operand => operand.placements around
  | .binary _ operator left right =>
    if operator.isAssignment then right.placements around ++ left.placements around
    else
      (if operator.infersLeft left then left.placements around else []) ++
        if operator.isAccess then [] else right.placements around
  | .conditional _ condition consequence alternative =>
    condition.placements around ++ (consequence.placements (.branch :: around) ++ placementsOfElse around alternative)
  | .forLoop _ _ iterable body => iterable.placements around ++ body.placements (.loop :: around)
  | .whileLoop _ condition body => condition.placements around ++ body.placements (.loop :: around)
  | .repeatLoop _ body => body.placements (.loop :: around)
  | .function _ f => f.placements around
  | .call _ callee arguments => callee.placements around ++ placementsOfArguments around arguments
  | .index _ object arguments _ => object.placements around ++ placementsOfArguments around arguments

def placementsOfElements (around : List Enclosure) : List Expression → List Placement
  | [] => []
  | e :: rest => e.placements around ++ placementsOfElements around rest

def placementsOfArguments (around : List Enclosure) : List Argument → List Placement
  | [] => []
  | ⟨_, value⟩ :: rest => value.placements around ++ placementsOfArguments around rest

def placementsOfParameters (around : List Enclosure) : List Parameter → List Placement
  | [] => []
  | ⟨_, _, _, some value⟩ :: rest => value.placements around ++ placementsOfParameters around rest
  | ⟨_, _, _, none⟩ :: rest => placementsOfParameters around rest

def FunctionLiteral.placements (around : List Enclosure) : FunctionLiteral → List Placement
  | ⟨name, nameSpan, receiver, parameters, returnTypes, body, decorators⟩ =>
    placementsOfParameters
        (.parameters ⟨name, nameSpan, receiver, parameters, returnTypes, body, decorators⟩ :: around) parameters ++
      body.placements (.body ⟨name, nameSpan, receiver, parameters, returnTypes, body, decorators⟩ :: around)

def Block.placements (around : List Enclosure) : Block → List Placement
  | ⟨statements, _⟩ => placementsOfStatements around statements

def placementsOfElse (around : List Enclosure) : Option Block → List Placement
  | none => []
  | some block => block.placements (.branch :: around)

/-- A statement and those inside it. -/
def Statement.placements (around : List Enclosure) : Statement → List Placement
  | .binding constant target (some value) => ⟨around, .binding constant target (some value)⟩ :: value.placements around
  | .return (some value) span => value.placements around ++ [⟨around, .return (some value) span⟩]
  | .defer e span => ⟨around, .defer e span⟩ :: e.placements around
  | .expression e => ⟨around, .expression e⟩ :: e.placements around
  | .block block => ⟨around, .block block⟩ :: block.placements (.block :: around)
  | s => [⟨around, s⟩]

def placementsOfStatements (around : List Enclosure) : List Statement → List Placement
  | [] => []
  | s :: rest => s.placements around ++ placementsOfStatements around rest

end

def Node.placements (around : List Enclosure) : Node → List Placement
  | .expression _ e => e.placements around
  | .statement s => s.placements around

/-- The statements of a program. -/
def Program.placements (program : Program) : List Placement := placementsOfStatements [] program.statements

/-! ## Lists -/

variable {around : List Enclosure} {p : Placement}

theorem placementsOfElements_eq (around : List Enclosure) (es : List Expression) :
    placementsOfElements around es = es.flatMap (Expression.placements around) := by
  induction es with
  | nil => rfl
  | cons e rest ih => rw [placementsOfElements, ih, List.flatMap_cons]

theorem placementsOfArguments_eq (around : List Enclosure) (arguments : List Argument) :
    placementsOfArguments around arguments = arguments.flatMap fun a => a.value.placements around := by
  induction arguments with
  | nil => rfl
  | cons a rest ih =>
    obtain ⟨_, value⟩ := a
    rw [placementsOfArguments, ih, List.flatMap_cons]

theorem placementsOfParameters_eq (around : List Enclosure) (parameters : List Parameter) :
    placementsOfParameters around parameters =
      parameters.flatMap fun p => (p.default.map (Expression.placements around)).getD [] := by
  induction parameters with
  | nil => rfl
  | cons p rest ih =>
    obtain ⟨_, _, _, _ | value⟩ := p
    · rw [placementsOfParameters, ih]
      rfl
    · rw [placementsOfParameters, ih]
      rfl

theorem placementsOfStatements_eq (around : List Enclosure) (statements : List Statement) :
    placementsOfStatements around statements = statements.flatMap (Statement.placements around) := by
  induction statements with
  | nil => rfl
  | cons s rest ih => rw [placementsOfStatements, ih, List.flatMap_cons]

theorem Block.placements_eq (around : List Enclosure) (b : Block) :
    b.placements around = b.statements.flatMap (Statement.placements around) := by
  obtain ⟨statements, _⟩ := b
  rw [Block.placements, placementsOfStatements_eq]

/-! ## Membership -/

theorem placements_of_isIdentifier (around : List Enclosure) {e : Expression} (h : e.isIdentifier = true) :
    e.placements around = [] := by
  cases e with
  | identifier => rfl
  | _ => cases h

/-- A statement in a binary expression is in an operand that the walk infers the types of. -/
theorem mem_placements_binary (span : Span) {operator : BinaryOperator} {left right : Expression} :
    p ∈ (Expression.binary span operator left right).placements around ↔
      operator.infersLeft left = true ∧ p ∈ left.placements around ∨
        operator.isAccess = false ∧ p ∈ right.placements around := by
  have hleft : left.isIdentifier = true → p ∉ left.placements around := fun h => by
    rw [placements_of_isIdentifier around h]
    exact List.not_mem_nil
  cases hidentifier : left.isIdentifier <;> cases operator <;>
    simp_all [Expression.placements, BinaryOperator.infersLeft, BinaryOperator.isAssignment, BinaryOperator.isAccess,
      or_comm]

theorem Statement.mem_placements_self (around : List Enclosure) :
    ∀ s : Statement, (⟨around, s⟩ : Placement) ∈ s.placements around
  | .return (some _) _ => List.mem_append_right _ List.mem_cons_self
  | .return none _ | .binding _ _ none | .typeDeclaration _ | .comment .. | .jump .. | .binding _ _ (some _) | .defer ..
  | .expression _ | .block _ => List.mem_cons_self

theorem mem_placementsOfElse {alternative : Option Block} :
    p ∈ placementsOfElse around alternative ↔ ∃ block ∈ alternative, p ∈ block.placements (.branch :: around) := by
  cases alternative <;> simp [placementsOfElse]

theorem FunctionLiteral.mem_placements {f : FunctionLiteral} :
    p ∈ f.placements around ↔
      (∃ q ∈ f.parameters, ∃ e, q.default = some e ∧ p ∈ e.placements (.parameters f :: around)) ∨
        p ∈ f.body.placements (.body f :: around) := by
  obtain ⟨name, nameSpan, receiver, parameters, returnTypes, body, decorators⟩ := f
  rw [FunctionLiteral.placements, List.mem_append, placementsOfParameters_eq, List.mem_flatMap]
  refine or_congr_left (exists_congr fun q => and_congr_right' ?_)
  cases q.default <;> simp

/-! ## Every statement that stands somewhere is listed -/

/-- What is in a part is in the whole, behind what is opened for the part. -/
theorem Node.Part.mem_placements {n m : Node} {opened : Option Enclosure} (h : n.Part opened m)
    (hp : p ∈ m.placements (opened.toList ++ around)) : p ∈ n.placements around := by
  have hamong {s : Statement} {b : Block} {around : List Enclosure} (hs : s ∈ b.statements)
      (hp : p ∈ s.placements around) : p ∈ b.placements around := by
    rw [Block.placements_eq]
    exact List.mem_flatMap_of_mem hs hp
  cases h with
  | element h =>
    show p ∈ placementsOfElements around _
    rw [placementsOfElements_eq]
    exact List.mem_flatMap_of_mem h hp
  | operand => exact hp
  | @left _ span _ _ _ h => exact (mem_placements_binary span).2 (.inl ⟨h, hp⟩)
  | @right _ span _ _ _ h => exact (mem_placements_binary span).2 (.inr ⟨Bool.not_eq_true' _ ▸ h, hp⟩)
  | branchCondition => exact List.mem_append_left _ hp
  | consequence h => exact List.mem_append_right _ (List.mem_append_left _ (hamong h hp))
  | alternative h =>
    exact List.mem_append_right _ (List.mem_append_right _ (mem_placementsOfElse.2 ⟨_, rfl, hamong h hp⟩))
  | iterable => exact List.mem_append_left _ hp
  | forBody h => exact List.mem_append_right _ (hamong h hp)
  | loopCondition => exact List.mem_append_left _ hp
  | whileBody h => exact List.mem_append_right _ (hamong h hp)
  | repeatBody h => exact hamong h hp
  | default h hdefault => exact FunctionLiteral.mem_placements.2 (.inl ⟨_, h, _, hdefault, hp⟩)
  | functionBody h => exact FunctionLiteral.mem_placements.2 (.inr (hamong h hp))
  | callee => exact List.mem_append_left _ hp
  | argument h =>
    refine List.mem_append_right _ ?_
    rw [placementsOfArguments_eq]
    exact List.mem_flatMap_of_mem h hp
  | object => exact List.mem_append_left _ hp
  | position h =>
    refine List.mem_append_right _ ?_
    rw [placementsOfArguments_eq]
    exact List.mem_flatMap_of_mem h hp
  | bound => exact List.mem_cons_of_mem _ hp
  | returned => exact List.mem_append_left _ hp
  | deferred => exact List.mem_cons_of_mem _ hp
  | inBlock h => exact List.mem_cons_of_mem _ (hamong h hp)
  | expression => exact List.mem_cons_of_mem _ hp

theorem Stands.mem_placements {statements : List Statement} {n : Node} (h : Stands statements around n)
    (hp : p ∈ n.placements around) : p ∈ placementsOfStatements [] statements := by
  induction h with
  | among h =>
    rw [placementsOfStatements_eq]
    exact List.mem_flatMap_of_mem h hp
  | within _ hpart ih => exact ih (hpart.mem_placements hp)

/-! ## Every statement that is listed stands there -/

section Standing

variable {statements : List Statement}

/-- What is in a list behind a statement that stands somewhere is that statement, or in the rest. -/
theorem Stands.of_first {s : Statement} {rest : List Placement} (h : Stands statements around (.statement s))
    (hrest : p ∈ rest → Stands statements p.around (.statement p.statement)) (hp : p ∈ ⟨around, s⟩ :: rest) :
    Stands statements p.around (.statement p.statement) := by
  rcases List.mem_cons.1 hp with rfl | hp
  · exact h
  · exact hrest hp

mutual

theorem Stands.of_expression {step : Nat} : ∀ {e : Expression} {around : List Enclosure},
    Stands statements around (.expression step e) → p ∈ e.placements around →
      Stands statements p.around (.statement p.statement)
  | .identifier .., _, _, hp => nomatch hp
  | .literal .., _, _, hp => nomatch hp
  | .vector _ elements, _, h, hp => of_elements (fun _ he => .within h (.element he)) hp
  | .unary _ _ operand, _, h, hp => of_expression (.within h .operand) hp
  | .binary span operator left right, _, h, hp => by
    rcases (mem_placements_binary span).1 hp with ⟨hinfers, hp⟩ | ⟨haccess, hp⟩
    · exact of_expression (.within h (.left hinfers)) hp
    · exact of_expression (.within h (.right (by rw [haccess]; rfl))) hp
  | .conditional _ condition consequence alternative, _, h, hp => by
    rcases List.mem_append.1 hp with hp | hp
    · exact of_expression (.within h .branchCondition) hp
    · rcases List.mem_append.1 hp with hp | hp
      · exact of_block (fun _ hs => .within h (.consequence hs)) hp
      · refine of_else (fun block hblock s hs => ?_) hp
        subst hblock
        exact .within h (.alternative hs)
  | .forLoop _ _ iterable body, _, h, hp => by
    rcases List.mem_append.1 hp with hp | hp
    · exact of_expression (.within h .iterable) hp
    · exact of_block (fun _ hs => .within h (.forBody hs)) hp
  | .whileLoop _ condition body, _, h, hp => by
    rcases List.mem_append.1 hp with hp | hp
    · exact of_expression (.within h .loopCondition) hp
    · exact of_block (fun _ hs => .within h (.whileBody hs)) hp
  | .repeatLoop _ body, _, h, hp => of_block (fun _ hs => .within h (.repeatBody hs)) hp
  | .function _ ⟨name, nameSpan, receiver, parameters, returnTypes, body, decorators⟩, _, h, hp => by
    rcases List.mem_append.1 hp with hp | hp
    · exact of_parameters (fun _ hq _ hdefault => .within h (.default hq hdefault)) hp
    · exact of_block (fun _ hs => .within h (.functionBody hs)) hp
  | .call _ callee arguments, around, h, hp => by
    rcases List.mem_append.1 hp with hp | hp
    · cases hidentifier : callee.isIdentifier with
      | true =>
        rw [placements_of_isIdentifier around hidentifier] at hp
        exact absurd hp List.not_mem_nil
      | false => exact of_expression (.within h (.callee (by rw [hidentifier]; rfl))) hp
    · exact of_arguments (fun _ ha => .within h (.argument ha)) hp
  | .index _ object arguments _, _, h, hp => by
    rcases List.mem_append.1 hp with hp | hp
    · exact of_expression (.within h .object) hp
    · exact of_arguments (fun _ ha => .within h (.position ha)) hp

theorem Stands.of_elements : ∀ {es : List Expression} {around : List Enclosure},
    (∀ e ∈ es, Stands statements around (.expression 1 e)) → p ∈ placementsOfElements around es →
      Stands statements p.around (.statement p.statement)
  | [], _, _, hp => nomatch hp
  | e :: rest, _, h, hp => by
    rcases List.mem_append.1 hp with hp | hp
    · exact of_expression (h e List.mem_cons_self) hp
    · exact of_elements (fun e he => h e (List.mem_cons_of_mem _ he)) hp

theorem Stands.of_arguments : ∀ {arguments : List Argument} {around : List Enclosure},
    (∀ a ∈ arguments, Stands statements around (.expression 1 a.value)) → p ∈ placementsOfArguments around arguments →
      Stands statements p.around (.statement p.statement)
  | [], _, _, hp => nomatch hp
  | ⟨name, value⟩ :: rest, _, h, hp => by
    rcases List.mem_append.1 hp with hp | hp
    · exact of_expression (h ⟨name, value⟩ List.mem_cons_self) hp
    · exact of_arguments (fun a ha => h a (List.mem_cons_of_mem _ ha)) hp

theorem Stands.of_parameters : ∀ {parameters : List Parameter} {around : List Enclosure},
    (∀ q ∈ parameters, ∀ e, q.default = some e → Stands statements around (.expression 1 e)) →
      p ∈ placementsOfParameters around parameters → Stands statements p.around (.statement p.statement)
  | [], _, _, hp => nomatch hp
  | ⟨name, span, types, some value⟩ :: rest, _, h, hp => by
    rcases List.mem_append.1 hp with hp | hp
    · exact of_expression (h ⟨name, span, types, some value⟩ List.mem_cons_self value rfl) hp
    · exact of_parameters (fun q hq => h q (List.mem_cons_of_mem _ hq)) hp
  | ⟨_, _, _, none⟩ :: rest, _, h, hp => of_parameters (fun q hq => h q (List.mem_cons_of_mem _ hq)) hp

theorem Stands.of_block : ∀ {b : Block} {around : List Enclosure},
    (∀ s ∈ b.statements, Stands statements around (.statement s)) → p ∈ b.placements around →
      Stands statements p.around (.statement p.statement)
  | ⟨_, _⟩, _, h, hp => of_statements h hp

theorem Stands.of_else : ∀ {alternative : Option Block} {around : List Enclosure},
    (∀ block, alternative = some block → ∀ s ∈ block.statements, Stands statements (.branch :: around) (.statement s)) →
      p ∈ placementsOfElse around alternative → Stands statements p.around (.statement p.statement)
  | none, _, _, hp => nomatch hp
  | some block, _, h, hp => of_block (h block rfl) hp

theorem Stands.of_statement : ∀ {s : Statement} {around : List Enclosure},
    Stands statements around (.statement s) → p ∈ s.placements around →
      Stands statements p.around (.statement p.statement)
  | .binding _ _ (some _), _, h, hp => of_first h (fun hp => of_expression (.within h .bound) hp) hp
  | .return (some _) _, _, h, hp => by
    rcases List.mem_append.1 hp with hp | hp
    · exact of_expression (.within h .returned) hp
    · cases List.mem_singleton.1 hp
      exact h
  | .defer _ _, _, h, hp => of_first h (fun hp => of_expression (.within h .deferred) hp) hp
  | .expression _, _, h, hp => of_first h (fun hp => of_expression (.within h .expression) hp) hp
  | .block _, _, h, hp => of_first h (fun hp => of_block (fun _ hs => .within h (.inBlock hs)) hp) hp
  | .binding _ _ none, _, h, hp | .return none _, _, h, hp | .typeDeclaration _, _, h, hp | .comment .., _, h, hp
  | .jump .., _, h, hp => of_first h (fun hp => absurd hp List.not_mem_nil) hp

theorem Stands.of_statements : ∀ {ss : List Statement} {around : List Enclosure},
    (∀ s ∈ ss, Stands statements around (.statement s)) → p ∈ placementsOfStatements around ss →
      Stands statements p.around (.statement p.statement)
  | [], _, _, hp => nomatch hp
  | s :: rest, _, h, hp => by
    rcases List.mem_append.1 hp with hp | hp
    · exact of_statement (h s List.mem_cons_self) hp
    · exact of_statements (fun s hs => h s (List.mem_cons_of_mem _ hs)) hp

end
end Standing

/-- **A statement is listed behind some enclosures exactly if it stands there.** -/
theorem Program.mem_placements_iff {program : Program} {s : Statement} :
    ⟨around, s⟩ ∈ program.placements ↔ Stands program.statements around (.statement s) :=
  ⟨Stands.of_statements fun _ hs => .among hs, fun h => h.mem_placements (s.mem_placements_self around)⟩

end UnionScript
