import Mathlib
import UnionScript.Check.Annotated
import UnionScript.Proofs.Effect
import UnionScript.Token.Stream
/-!
# Binding — which parameters the arguments of a call are matched against

A named argument is matched against the first parameter of its name, and the unnamed ones against the parameters in
order, counted over the unnamed arguments alone: a parameter that is taken by name is not passed over.  So two arguments
of a call are matched against one parameter as soon as a named argument names a parameter among as many as there are
unnamed arguments (`call_binds`).  Parameters are told apart by their positions here, because nothing keeps a function
from having two of one name.
-/
namespace UnionScript
namespace Check

variable {f : FunctionSignature} {arguments : List Argument} {i j k n : Nat}

/-! ## Positions -/

/-- The position of the parameter that a name names, the first one so called. -/
def namedPlace? (f : FunctionSignature) (name : String) : Option Nat := f.parameters.findIdx? fun p => p.name == name

/-- A position that has a parameter other than an ellipsis. -/
def openPlace? (f : FunctionSignature) (position : Nat) : Option Nat :=
  (f.parameters[position]?.filter fun p => p.name != ellipsisName).map fun _ => position

/-- The position of the parameter that an argument is bound to, given the next position for one without a name. -/
def placeOf (f : FunctionSignature) (position : Nat) (argument : Argument) : Option Nat :=
  match argument.name with
  | some (name, _) => namedPlace? f name
  | none => openPlace? f position

def unnamed (arguments : List Argument) : Nat := arguments.countP fun a => a.name.isNone

/-- The positions of the parameters that arguments are bound to. -/
def places (f : FunctionSignature) (position : Nat) : List Argument → List (Option Nat)
  | [] => []
  | argument :: rest => placeOf f position argument :: places f (position + unnamed [argument]) rest

/-- The argument at a position of a call is bound to the parameter at a position of the function. -/
def BoundAt (f : FunctionSignature) (arguments : List Argument) (i k : Nat) : Prop :=
  (places f 0 arguments)[i]? = some (some k)

/-- The argument at a position of a call names the parameter at a position of the function. -/
def NamesAt (f : FunctionSignature) (arguments : List Argument) (i k : Nat) : Prop :=
  ∃ argument name span, arguments[i]? = some argument ∧ argument.name = some (name, span) ∧ namedPlace? f name = some k

/-- The argument at a position of a call has no name, and as many unnamed ones are in front of it as parameters are in
front of the one at a position of the function, which is no ellipsis. -/
def CountsAt (f : FunctionSignature) (arguments : List Argument) (i k : Nat) : Prop :=
  (∃ argument, arguments[i]? = some argument ∧ argument.name = none) ∧ unnamed (arguments.take i) = k ∧
    ∃ p, f.parameters[k]? = some p ∧ p.name ≠ ellipsisName

/-- No two arguments of a call meet in one parameter. -/
def Apart (meets : Nat → Nat → Prop) : Prop := ∀ i j k, meets i k → meets j k → i = j

theorem parameter?_eq (f : FunctionSignature) (name : String) :
    f.parameter? name = (namedPlace? f name).bind (f.parameters[·]?) := List.find?_eq_bind_findIdx?_getElem?

theorem openPlace?_eq_some :
    openPlace? f n = some k ↔ n = k ∧ ∃ p, f.parameters[k]? = some p ∧ p.name ≠ ellipsisName := by
  simp only [openPlace?, Option.map_eq_some_iff, Option.filter_eq_some_iff, bne_iff_ne]
  constructor
  · rintro ⟨p, hp, rfl⟩
    exact ⟨rfl, p, hp⟩
  · rintro ⟨rfl, p, hp⟩
    exact ⟨p, hp, rfl⟩

theorem openPlace?_bind (f : FunctionSignature) (n : Nat) :
    (openPlace? f n).bind (f.parameters[·]?) = f.parameters[n]?.filter fun p => p.name != ellipsisName := by
  unfold openPlace?
  cases hfilter : f.parameters[n]?.filter fun p => p.name != ellipsisName with
  | none => rfl
  | some p => exact (Option.filter_eq_some_iff.1 hfilter).1

/-- The parameters that arguments are bound to are those at their positions. -/
theorem boundParameters_eq : ∀ (arguments : List Argument) (n : Nat),
    boundParameters f n arguments = (places f n arguments).map fun place => place.bind (f.parameters[·]?)
  | [], _ => rfl
  | ⟨some (name, _), _⟩ :: rest, n =>
    congr (congrArg List.cons (parameter?_eq f name)) (boundParameters_eq rest n)
  | ⟨none, _⟩ :: rest, n =>
    congr (congrArg List.cons (openPlace?_bind f n).symm) (boundParameters_eq rest (n + 1))

theorem getElem?_places : ∀ (arguments : List Argument) (n i : Nat),
    (places f n arguments)[i]? = arguments[i]?.map (placeOf f (n + unnamed (arguments.take i)))
  | [], _, _ => rfl
  | _ :: _, _, 0 => rfl
  | argument :: rest, n, i + 1 => by
    have hrest := getElem?_places rest (n + unnamed [argument]) i
    rw [Nat.add_assoc, unnamed, unnamed, ← List.countP_append] at hrest
    exact hrest

theorem placeOf_eq_some {argument : Argument} : placeOf f n argument = some k ↔
    (∃ name span, argument.name = some (name, span) ∧ namedPlace? f name = some k) ∨
      argument.name = none ∧ openPlace? f n = some k := by
  obtain ⟨_ | ⟨name, span⟩, value⟩ := argument
  · simp [placeOf]
  · simp [placeOf]

/-- **An argument is bound to the parameter it names, or to the next one if it has no name.** -/
theorem boundAt_iff : BoundAt f arguments i k ↔ NamesAt f arguments i k ∨ CountsAt f arguments i k := by
  rw [BoundAt, getElem?_places, Nat.zero_add, Option.map_eq_some_iff]
  constructor
  · rintro ⟨argument, hargument, hplace⟩
    rcases placeOf_eq_some.1 hplace with ⟨name, span, hname, hnamed⟩ | ⟨hname, hopen⟩
    · exact .inl ⟨argument, name, span, hargument, hname, hnamed⟩
    · exact .inr ⟨⟨argument, hargument, hname⟩, openPlace?_eq_some.1 hopen⟩
  · rintro (⟨argument, name, span, hargument, hname, hnamed⟩ | ⟨⟨argument, hargument, hname⟩, hopen⟩)
    · exact ⟨argument, hargument, placeOf_eq_some.2 (.inl ⟨name, span, hname, hnamed⟩)⟩
    · exact ⟨argument, hargument, placeOf_eq_some.2 (.inr ⟨hname, openPlace?_eq_some.2 hopen⟩)⟩

/-! ## Arguments without a name -/

theorem unnamed_take_succ {argument : Argument} (h : arguments[i]? = some argument) (hname : argument.name = none) :
    unnamed (arguments.take (i + 1)) = unnamed (arguments.take i) + 1 := by
  rw [List.take_add_one, h, unnamed, List.countP_append, Option.toList_some, List.countP_singleton, hname]
  rfl

theorem unnamed_take_le (h : i ≤ j) : unnamed (arguments.take i) ≤ unnamed (arguments.take j) :=
  (List.take_prefix_take_left h).sublist.countP_le

/-- Two arguments without a name have different numbers of them in front. -/
theorem CountsAt.eq (hi : CountsAt f arguments i k) (hj : CountsAt f arguments j k) : i = j := by
  obtain ⟨⟨a, ha, haname⟩, hik, -⟩ := hi
  obtain ⟨⟨b, hb, hbname⟩, hjk, -⟩ := hj
  have hafter := unnamed_take_succ ha haname
  have hbehind := unnamed_take_succ hb hbname
  rcases Nat.lt_trichotomy i j with hlt | heq | hlt
  · have hle : unnamed (arguments.take (i + 1)) ≤ unnamed (arguments.take j) := unnamed_take_le hlt
    omega
  · exact heq
  · have hle : unnamed (arguments.take (j + 1)) ≤ unnamed (arguments.take i) := unnamed_take_le hlt
    omega

/-- Every smaller number is that of the unnamed arguments in front of one of them. -/
theorem exists_unnamed : ∀ {arguments : List Argument} {k : Nat}, k < unnamed arguments →
    ∃ i argument, arguments[i]? = some argument ∧ argument.name = none ∧ unnamed (arguments.take i) = k
  | ⟨none, value⟩ :: _, 0, _ => ⟨0, ⟨none, value⟩, rfl, rfl, rfl⟩
  | ⟨none, value⟩ :: rest, k + 1, h => by
    rw [unnamed, List.countP_cons_of_pos rfl] at h
    obtain ⟨i, argument, hargument, hname, hcount⟩ := exists_unnamed (Nat.lt_of_succ_lt_succ h)
    refine ⟨i + 1, argument, hargument, hname, ?_⟩
    rw [List.take_succ_cons, unnamed, List.countP_cons_of_pos rfl]
    exact congrArg (· + 1) hcount
  | ⟨some named, value⟩ :: rest, k, h => by
    rw [unnamed, List.countP_cons_of_neg Bool.false_ne_true] at h
    obtain ⟨i, argument, hargument, hname, hcount⟩ := exists_unnamed h
    refine ⟨i + 1, argument, hargument, hname, ?_⟩
    rw [List.take_succ_cons, unnamed, List.countP_cons_of_neg Bool.false_ne_true]
    exact hcount

theorem CountsAt.lt (h : CountsAt f arguments i k) : k < unnamed arguments := by
  obtain ⟨⟨argument, hargument, hname⟩, rfl, -⟩ := h
  have hle : unnamed (arguments.take (i + 1)) ≤ unnamed (arguments.take arguments.length) :=
    unnamed_take_le (List.getElem?_eq_some_iff.1 hargument).1
  rwa [unnamed_take_succ hargument hname, List.take_length] at hle

theorem NamesAt.not_countsAt (h : NamesAt f arguments i k) (hcounts : CountsAt f arguments i n) : False := by
  obtain ⟨argument, name, span, hargument, hname, -⟩ := h
  obtain ⟨⟨other, hother, hnone⟩, -⟩ := hcounts
  obtain rfl : argument = other := Option.some.inj (hargument.symm.trans hother)
  rw [hname] at hnone
  cases hnone

/-- **When no two arguments meet in one parameter**: the named ones name different parameters, and none that an unnamed
one is bound to. -/
theorem apart_iff : Apart (BoundAt f arguments) ↔ Apart (NamesAt f arguments) ∧
    ∀ i k p, NamesAt f arguments i k → f.parameters[k]? = some p → p.name ≠ ellipsisName →
      unnamed arguments ≤ k := by
  constructor
  · intro h
    refine ⟨fun i j k hi hj => h i j k (boundAt_iff.2 (.inl hi)) (boundAt_iff.2 (.inl hj)), ?_⟩
    intro i k p hi hp hname
    by_contra hlt
    obtain ⟨j, argument, hargument, hnone, hcount⟩ := exists_unnamed (Nat.lt_of_not_le hlt)
    have hj : CountsAt f arguments j k := ⟨⟨argument, hargument, hnone⟩, hcount, p, hp, hname⟩
    obtain rfl := h i j k (boundAt_iff.2 (.inl hi)) (boundAt_iff.2 (.inr hj))
    exact hi.not_countsAt hj
  · rintro ⟨hnames, hfree⟩ i j k hi hj
    -- a parameter that an unnamed argument is bound to is too far in front to be named
    have hsplit {i j : Nat} (hi : NamesAt f arguments i k) (hj : CountsAt f arguments j k) : False := by
      have hlt := hj.lt
      obtain ⟨-, -, p, hp, hname⟩ := hj
      exact Nat.not_le_of_lt hlt (hfree i k p hi hp hname)
    rcases boundAt_iff.1 hi with hi | hi <;> rcases boundAt_iff.1 hj with hj | hj
    · exact hnames i j k hi hj
    · exact (hsplit hi hj).elim
    · exact (hsplit hj hi).elim
    · exact hi.eq hj

/-! ## What a call reports -/

/-- What is reported of a value that does not fit a parameter. -/
def mismatch? (env : Environment) (f : FunctionSignature) (p : ParameterSignature) (actual : Union) (span : Span) :
    Option Report :=
  match env.unmatched actual p.types with
  | [] => none
  | t :: rest => some ⟨.mismatch (.parameter p.name f.name) p.types (.ofList (t :: rest)), span⟩

/-- What is reported of an argument, given the parameter it is bound to: that its types do not fit, or that its name
names none. -/
def argumentReport? (env : Environment) (f : FunctionSignature) :
    (Argument × Union) × Option ParameterSignature → Option Report
  | ((argument, actual), some p) => mismatch? env f p actual argument.value.span
  | ((argument, _), none) => argument.name.bind fun (name, span) =>
      if f.isVariadic then none else some ⟨.noParameter f.name name, span⟩

theorem checkArgument_eq (f : FunctionSignature) (argument : Argument) (actual : Union) (s : CheckState) :
    ∀ bound, checkArgument f argument actual bound s =
      ((), s.reporting (argumentReport? s.environment f ((argument, actual), bound)).toList)
  | some p => by
    show requireMatch actual p.types argument.value.span (.parameter p.name f.name) s = _
    rw [requireMatch_eq, argumentReport?, mismatch?]
    cases s.environment.unmatched actual p.types <;> rfl
  | none => by
    obtain ⟨_ | ⟨name, span⟩, value⟩ := argument
    · rfl
    · unfold checkArgument argumentReport?
      cases f.isVariadic <;> rfl

/-- Arguments are checked one after the other, and nothing but reports comes of it. -/
theorem checkArguments_eq (f : FunctionSignature) : ∀ (inferred : List (Argument × Union))
    (bound : List (Option ParameterSignature)) (s : CheckState), checkArguments f inferred bound s =
      ((), s.reporting ((inferred.zip bound).filterMap (argumentReport? s.environment f)))
  | [], _, _ => rfl
  | _ :: _, [], _ => rfl
  | (argument, actual) :: rest, p :: more, s => by
    let first := (argumentReport? s.environment f ((argument, actual), p)).toList
    have hrest := checkArguments_eq f rest more (s.reporting first)
    show checkArguments f rest more (checkArgument f argument actual p s).2 = _
    rw [checkArgument_eq, hrest, CheckState.reporting_append, List.zip_cons_cons]
    cases hreport : argumentReport? s.environment f ((argument, actual), p) with
    | none =>
      rw [List.filterMap_cons_none hreport, show first = [] by simp only [first, hreport, Option.toList_none]]
      rfl
    | some r =>
      rw [List.filterMap_cons_some hreport, show first = [r] by simp only [first, hreport, Option.toList_some]]
      rfl

/-- **What the arguments of a call are matched against.**  The arguments of a call to a declared function are checked in
order, each against the parameter it is bound to: the one it names, or, without a name, the one that as many parameters
are in front of as unnamed arguments are in front of it, unless that is an ellipsis.  No two arguments are bound to the
same parameter exactly if the named ones name different parameters, and none of them, ellipses apart, that is among the
first ones, as many as there are unnamed arguments. -/
theorem call_binds (f : FunctionSignature) (arguments : List Argument) :
    (∀ actuals s, (finishCall arguments actuals (.function f) s).2 = s.reporting
      (((arguments.zip actuals).zip (boundParameters f 0 arguments)).filterMap (argumentReport? s.environment f))) ∧
    boundParameters f 0 arguments = (places f 0 arguments).map (fun place => place.bind (f.parameters[·]?)) ∧
    (∀ i k, BoundAt f arguments i k ↔ NamesAt f arguments i k ∨ CountsAt f arguments i k) ∧
    (Apart (BoundAt f arguments) ↔ Apart (NamesAt f arguments) ∧
      ∀ i k p, NamesAt f arguments i k → f.parameters[k]? = some p → p.name ≠ ellipsisName →
        unnamed arguments ≤ k) := by
  refine ⟨fun actuals s => ?_, boundParameters_eq arguments 0, fun _ _ => boundAt_iff, apart_iff⟩
  show (checkArguments f (arguments.zip actuals) (boundParameters f 0 arguments) s).2 = _
  rw [checkArguments_eq]

/-- A call that names the first parameter and gives the value of the second one behind it, without a name: both arguments
are bound to the first parameter, and the second one is reported. -/
theorem call_meets_named :
    let source : SourceFile := { name := "m.vp", text := "func f(x: int, y: char) \x7b\n\x7d\nf(x = 1, \"a\")\n" }
    let program := (ParsedProgram.ofTokens source.tokens 3).program
    let place (line first last : Nat) : Span := ⟨"m.vp", ⟨line, first⟩, ⟨line, last⟩⟩
    let f : FunctionSignature :=
      ⟨"f", [⟨"x", .named "int", false⟩, ⟨"y", .named "char", false⟩], none, place 1 6 6⟩
    let arguments : List Argument :=
      [⟨some ("x", place 3 3 3), .literal (place 3 7 7) (.integer "1")⟩,
        ⟨none, .literal (place 3 10 12) (.string "a")⟩]
    program.statements.getLast? =
        some (.expression (.call (place 3 1 13) (.identifier (place 3 1 1) "f") arguments)) ∧
      (program.walk .initial none 3).environment.findFunction? "f" = some f ∧
      Apart (NamesAt f arguments) ∧ BoundAt f arguments 0 0 ∧ BoundAt f arguments 1 0 ∧
      (program.walk .initial none 3).reports =
        [⟨.mismatch (.parameter "x" "f") (.named "int") (.named "char"), place 3 10 12⟩] := by
  intro source program place f arguments
  have hnamed {i k : Nat} (h : NamesAt f arguments i k) : i = 0 := by
    obtain ⟨argument, name, span, hargument, hname, -⟩ := h
    match i, hargument with
    | 0, _ => rfl
    | 1, hargument =>
      obtain rfl := Option.some.inj hargument
      cases hname
  -- the text is read once, and then walked
  have hread : program = (ParsedProgram.ofTokens source.tokens 3).program := rfl
  clear_value program
  subst source
  cbv at hread
  subst hread
  refine ⟨?_, ?_, fun i j k hi hj => (hnamed hi).trans (hnamed hj).symm, rfl, rfl, ?_⟩
  all_goals
    subst f arguments place
    cbv

end Check
end UnionScript
