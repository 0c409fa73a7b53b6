import UnionScript.Proofs.Building
/-!
# Levels — how deep the expressions of a program nest

What an expression holds stands a level below it, but for the left operand of an operator and the target of a call, an
index or an access, which stand where the whole does.  Two constructs are counted in two ways: the branch behind an
`else`, which is an expression in a block although it is written as part of the chain, and the parameter defaults of a
decorated function, which is an expression although it is written as a declaration.  How many levels these two are below
what is around them is left open (`link`); the grammar counts none and the walk counts one.
-/
namespace UnionScript

/-- The levels below an operation, given those its operands come with; a name behind an access operator has none, and
an exported name is not looked into. -/
def BinaryOperator.levels : BinaryOperator → Nat → Nat → Nat
  | .namespaceAccess, _, _ | .internalAccess, _, _ => 0
  | .dollar, left, _ | .slot, left, _ => left
  | _, left, right => max left right

mutual

/-- How many levels of expressions there are below an expression. -/
def Expression.height (link : Nat) : Expression → Nat
  | .identifier _ _ | .literal _ _ => 0
  | .vector _ elements => heightOfAll link elements
  | .unary _ _ operand => 1 + operand.height link
  | .binary _ operator left right => operator.levels (left.height link) (1 + right.height link)
  | .conditional _ condition consequence alternative =>
    max (1 + condition.height link) (max (consequence.height link) (heightOfElse link alternative))
  | .forLoop _ _ iterable body => max (1 + iterable.height link) (body.height link)
  | .whileLoop _ condition body => max (1 + condition.height link) (body.height link)
  | .repeatLoop _ body => body.height link
  | .function _ literal => literal.height link
  | .call _ callee arguments => max (callee.height link) (heightOfArguments link arguments)
  | .index _ object arguments _ => max (object.height link) (heightOfArguments link arguments)

def heightOfAll (link : Nat) : List Expression → Nat
  | [] => 0
  | e :: es => max (1 + e.height link) (heightOfAll link es)

def heightOfArguments (link : Nat) : List Argument → Nat
  | [] => 0
  | ⟨_, value⟩ :: rest => max (1 + value.height link) (heightOfArguments link rest)

/-- The levels below parameters whose defaults are so many levels below what is around them. -/
def heightOfParameters (link step : Nat) : List Parameter → Nat
  | [] => 0
  | ⟨_, _, _, some value⟩ :: rest => max (step + value.height link) (heightOfParameters link step rest)
  | ⟨_, _, _, none⟩ :: rest => heightOfParameters link step rest

def FunctionLiteral.height (link : Nat) : FunctionLiteral → Nat
  | ⟨_, _, _, parameters, _, body, decorators⟩ =>
    max (heightOfParameters link (if decorators.isEmpty then 1 else link) parameters) (body.height link)

def Block.height (link : Nat) : Block → Nat
  | ⟨statements, _⟩ => heightOfStatements link statements

/-- The levels below what stands behind an `else`. -/
def heightOfElse (link : Nat) : Option Block → Nat
  | none => 0
  | some ⟨[.expression e], _⟩ => (if e.isConditional then link else 1) + e.height link
  | some ⟨statements, _⟩ => heightOfStatements link statements

def heightOfStatements (link : Nat) : List Statement → Nat
  | [] => 0
  | s :: rest => max (s.height link) (heightOfStatements link rest)

/-- How many levels of expressions there are in a statement. -/
def Statement.height (link : Nat) : Statement → Nat
  | .binding _ _ none | .return none _ | .typeDeclaration _ | .comment _ _ _ | .jump _ _ => 0
  | .binding _ _ (some value) | .return (some value) _ => 1 + value.height link
  | .defer e _ | .expression e => 1 + e.height link
  | .block block => block.height link

end

/-! ## The levels of what is listed -/

theorem heightOfAll_le {link n : Nat} : ∀ {es : List Expression},
    heightOfAll link es ≤ n ↔ ∀ e ∈ es, 1 + e.height link ≤ n
  | [] => by simp [heightOfAll]
  | e :: es => by rw [heightOfAll, Nat.max_le, heightOfAll_le, List.forall_mem_cons]

theorem heightOfArguments_le {link n : Nat} : ∀ {arguments : List Argument},
    heightOfArguments link arguments ≤ n ↔ ∀ a ∈ arguments, 1 + a.value.height link ≤ n
  | [] => by simp [heightOfArguments]
  | ⟨_, _⟩ :: rest => by rw [heightOfArguments, Nat.max_le, heightOfArguments_le, List.forall_mem_cons]

theorem heightOfParameters_le {link step n : Nat} : ∀ {parameters : List Parameter},
    heightOfParameters link step parameters ≤ n ↔ ∀ p ∈ parameters, ∀ e ∈ p.default, step + e.height link ≤ n
  | [] => by simp [heightOfParameters]
  | ⟨_, _, _, none⟩ :: rest => by
    rw [heightOfParameters, heightOfParameters_le, List.forall_mem_cons]
    simp
  | ⟨_, _, _, some _⟩ :: rest => by
    rw [heightOfParameters, Nat.max_le, heightOfParameters_le, List.forall_mem_cons]
    simp

theorem heightOfStatements_le {link n : Nat} : ∀ {statements : List Statement},
    heightOfStatements link statements ≤ n ↔ ∀ s ∈ statements, s.height link ≤ n
  | [] => by simp [heightOfStatements]
  | s :: rest => by rw [heightOfStatements, Nat.max_le, heightOfStatements_le, List.forall_mem_cons]

theorem FunctionLiteral.height_eq (link : Nat) : ∀ f : FunctionLiteral, f.height link =
    max (heightOfParameters link (if f.decorators.isEmpty then 1 else link) f.parameters) (f.body.height link)
  | ⟨_, _, _, _, _, _, _⟩ => by rw [FunctionLiteral.height]

/-! ## The levels of what was read -/

namespace Parse

/-- What was read has no more levels than there was room for. -/
def fitsRoom : TreeProperty where
  expression room e := e.height 0 ≤ room
  statement room s := s.height 0 ≤ room

variable {room : Nat}

theorem height_of_sub {e : Expression} : fitsRoom.Sub room e → 1 + e.height 0 ≤ room
  | ⟨less, hroom, h⟩ => by
    have h : e.height 0 ≤ less := h
    omega

theorem height_of_inner : ∀ {b : Block}, fitsRoom.Inner room b → 1 + b.height 0 ≤ room
  | ⟨statements, _⟩, ⟨less, hroom, h⟩ => by
    have h : heightOfStatements 0 statements ≤ less := heightOfStatements_le.2 h
    rw [Block.height]
    omega

theorem height_of_single {e : Expression} : ∀ {b : Block}, b.statements = [.expression e] →
    b.height 0 = 1 + e.height 0
  | ⟨_, _⟩, rfl => by rw [Block.height, heightOfStatements, heightOfStatements, Statement.height, Nat.max_zero]

theorem height_of_body {b : Block} : fitsRoom.Body room b → b.height 0 ≤ room
  | .inl h => Nat.le_of_add_left_le (height_of_inner h)
  | .inr ⟨_, hb, he⟩ => height_of_single hb ▸ height_of_sub he

/-- Behind an `else` there are no more levels than in the block as such. -/
theorem heightOfElse_le (b : Block) : heightOfElse 0 (some b) ≤ b.height 0 := by
  obtain ⟨statements, span⟩ := b
  unfold heightOfElse
  split
  · exact Nat.zero_le _
  · rename_i e _ hb
    cases hb
    rw [height_of_single (b := ⟨[.expression e], span⟩) rfl]
    split <;> omega
  · rename_i hb
    cases hb
    exact Nat.le_refl _

theorem heightOfElse_single (link : Nat) {b : Block} {e : Expression} (hb : b.statements = [.expression e]) :
    heightOfElse link (some b) = (if e.isConditional then link else 1) + e.height link := by
  obtain ⟨statements, span⟩ := b
  obtain rfl : statements = [.expression e] := hb
  rw [heightOfElse]

theorem height_of_alternative : ∀ {alternative : Option Block}, fitsRoom.Alternative room alternative →
    heightOfElse 0 alternative ≤ room
  | none, _ => Nat.zero_le _
  | some b, .inl h => Nat.le_trans (heightOfElse_le b) (Nat.le_of_add_left_le (height_of_inner h))
  | some b, .inr ⟨e, hb, hbranch, he⟩ => by
    have he : e.height 0 ≤ room := he
    rw [heightOfElse_single 0 hb, if_pos hbranch, Nat.zero_add]
    exact he

theorem height_of_signature {f : FunctionLiteral} (h : fitsRoom.Signature room f) :
    heightOfParameters 0 1 f.parameters ≤ room :=
  heightOfParameters_le.2 fun p hp e he => height_of_sub ((h.parameters p hp).2 e he)

/-- The defaults of a decorated function, which count no level of their own, are read with one level less of room. -/
theorem height_of_decorated {less : Nat} {f : FunctionLiteral} (h : fitsRoom.Signature (less + 1) f) :
    heightOfParameters 0 0 f.parameters ≤ less :=
  heightOfParameters_le.2 fun p hp e he => by
    have he := height_of_sub ((h.parameters p hp).2 e he)
    omega

/-- No operation has more levels than its operands come with. -/
theorem levels_le (operator : BinaryOperator) (left right : Nat) : operator.levels left right ≤ max left right := by
  unfold BinaryOperator.levels
  split <;> omega

theorem levels_of_access {operator : BinaryOperator} (h : operator.isAccess = true) (left right : Nat) :
    operator.levels left right ≤ left := by
  cases operator with
  | dollar | slot => exact Nat.le_refl _
  | namespaceAccess | internalAccess => exact Nat.zero_le _
  | _ => exact absurd h Bool.false_ne_true

theorem fitsRoom_closed : fitsRoom.Closed where
  identifier _ _ _ := Nat.zero_le _
  literal _ _ _ := Nat.zero_le _
  vector _ h := heightOfAll_le.2 fun e he => height_of_sub (h e he)
  unary _ _ h := height_of_sub h
  binary _ _ hleft hright := Nat.le_trans (levels_le _ _ _) (Nat.max_le.2 ⟨hleft, height_of_sub hright⟩)
  access _ haccess hleft _ := Nat.le_trans (levels_of_access haccess _ _) hleft
  conditional _ hcondition hconsequence halternative :=
    Nat.max_le.2 ⟨height_of_sub hcondition, Nat.max_le.2
      ⟨Nat.le_of_add_left_le (height_of_inner hconsequence), height_of_alternative halternative⟩⟩
  forLoop _ _ hiterable hbody :=
    Nat.max_le.2 ⟨height_of_sub hiterable, Nat.le_of_add_left_le (height_of_inner hbody)⟩
  whileLoop _ hcondition hbody :=
    Nat.max_le.2 ⟨height_of_sub hcondition, Nat.le_of_add_left_le (height_of_inner hbody)⟩
  repeatLoop _ hbody := Nat.le_of_add_left_le (height_of_inner hbody)
  function {_ f} _ h hbare hbody := by
    show f.height 0 ≤ _
    rw [FunctionLiteral.height_eq, hbare]
    exact Nat.max_le.2 ⟨height_of_signature h, height_of_body hbody⟩
  call _ hcallee harguments :=
    Nat.max_le.2 ⟨hcallee, heightOfArguments_le.2 fun a ha => height_of_sub (harguments a ha)⟩
  index _ _ hobject harguments :=
    Nat.max_le.2 ⟨hobject, heightOfArguments_le.2 fun a ha => height_of_sub (harguments a ha)⟩
  binding {_ _ value} _ _ h := by
    cases value with
    | none => exact Nat.zero_le _
    | some e => exact height_of_sub (h e rfl)
  returning {_ value} _ h := by
    cases value with
    | none => exact Nat.zero_le _
    | some e => exact height_of_sub (h e rfl)
  typeDeclaration _ _ _ _ := Nat.zero_le _
  comment _ _ _ _ := Nat.zero_le _
  defer _ h := height_of_sub h
  jump _ _ _ := Nat.zero_le _
  block h := Nat.le_of_add_left_le (height_of_inner h)
  expressionStatement h := height_of_sub h
  decorated {_ f} _ h hdecorated hbody := by
    show 1 + f.height 0 ≤ _
    have hbelow := height_of_inner hbody
    obtain ⟨less, rfl, -⟩ := hbody
    have hdefaults := height_of_decorated h
    rw [FunctionLiteral.height_eq, if_neg (by simpa using hdecorated)]
    omega

/-- **What is read under a limit has no more levels than the limit allows.** -/
theorem height_ofTokens (tokens : List Token) (limit : Nat) :
    heightOfStatements 0 (ParsedProgram.ofTokens tokens limit).program.statements ≤ limit :=
  heightOfStatements_le.2 (fitsRoom_closed.ofTokens tokens limit)

end Parse
end UnionScript
