import UnionScript.Proofs.Balance
import UnionScript.Proofs.Binding
/-!
# Signatures — a function as its callers and as its body see it

A declared function is known twice over: its callers match named arguments against the signature that is registered for
it, where the first parameter of a name counts, and its body finds the parameters as variables in a frame of its own,
where the last one of a name has taken the place of the others.  Nothing but the parameters puts variables into that
frame before the body starts, whatever their defaults are (`walkParameters_bindings`).  So the two agree, and every
parameter keeps its variable, as soon as no two parameters share a name (`function_shares_signature`).
-/
namespace UnionScript

/-! ## Putting entries one after the other -/

namespace Frame

variable {α : Type} {nameOf : α → String}

/-- Entries put among others one after the other, the first one first. -/
def putAll (nameOf : α → String) (new entries : List α) : List α := new.foldl (fun all a => put nameOf a all) entries

theorem putAll_cons (a : α) (new entries : List α) :
    putAll nameOf (a :: new) entries = putAll nameOf new (put nameOf a entries) := rfl

/-- The last entry of a name that was put is the one that is found. -/
theorem find?_putAll (name : String) : ∀ new entries : List α,
    (putAll nameOf new entries).find? (fun b => nameOf b == name) =
      (new.reverse.find? fun b => nameOf b == name).or (entries.find? fun b => nameOf b == name)
  | [], entries => rfl
  | a :: new, entries => by
    rw [putAll_cons, find?_putAll name new, find?_put, List.reverse_cons, List.find?_append, Option.or_assoc,
      List.find?_singleton]
    by_cases h : nameOf a = name <;> simp [h]

theorem nodup_put {a : α} {entries : List α} (h : (entries.map nameOf).Nodup) : ((put nameOf a entries).map nameOf).Nodup := by
  rw [put, List.map_append, List.map_singleton, List.nodup_append]
  refine ⟨(List.filter_sublist.map nameOf).nodup h, List.nodup_singleton _, ?_⟩
  intro name hname other hother
  obtain ⟨b, hb, rfl⟩ := List.mem_map.1 hname
  rw [List.mem_singleton.1 hother]
  exact bne_iff_ne.1 (List.mem_filter.1 hb).2

theorem nodup_putAll : ∀ (new : List α) {entries : List α}, (entries.map nameOf).Nodup →
    ((putAll nameOf new entries).map nameOf).Nodup
  | [], _, h => h
  | _ :: new, _, h => nodup_putAll new (nodup_put h)

/-- Entries under names of their own are all kept, in order. -/
theorem putAll_of_nodup : ∀ {new entries : List α}, ((entries ++ new).map nameOf).Nodup →
    putAll nameOf new entries = entries ++ new
  | [], entries, _ => (List.append_nil entries).symm
  | a :: new, entries, h => by
    have hput : put nameOf a entries = entries ++ [a] := by
      have hfree : ∀ b ∈ entries, nameOf b ≠ nameOf a := by
        rw [List.map_append, List.nodup_append] at h
        exact fun b hb => h.2.2 _ (List.mem_map_of_mem hb) _ (List.mem_map_of_mem List.mem_cons_self)
      rw [put, List.filter_eq_self.2 fun b hb => bne_iff_ne.2 (hfree b hb)]
    rw [putAll_cons, hput, putAll_of_nodup (by rwa [List.append_assoc]), List.append_assoc]
    rfl

/-- Under names of their own it does not matter from which end an entry is looked for. -/
theorem find?_reverse_of_nodup (name : String) : ∀ {entries : List α}, (entries.map nameOf).Nodup →
    entries.reverse.find? (fun a => nameOf a == name) = entries.find? fun a => nameOf a == name
  | [], _ => rfl
  | a :: rest, h => by
    rw [List.map_cons, List.nodup_cons] at h
    rw [List.reverse_cons, List.find?_append, find?_reverse_of_nodup name h.2, List.find?_singleton]
    by_cases ha : nameOf a = name
    · have hnone : rest.find? (fun b => nameOf b == name) = none := by
        refine List.find?_eq_none.2 fun b hb hbname => h.1 ?_
        rw [ha, ← beq_iff_eq.1 hbname]
        exact List.mem_map_of_mem hb
      simp [ha, hnone]
    · rw [List.find?_cons_of_neg (by simpa using ha)]
      simp [ha]

end Frame

/-! ## Parameters -/

/-- The parameters of a function that are variables in its body: all but an ellipsis. -/
def FunctionLiteral.named (f : FunctionLiteral) : List Parameter := f.parameters.filter fun p => !p.isEllipsis

/-- The variable that a parameter is in the body of its function. -/
def Parameter.variable (p : Parameter) : Variable where
  name := p.name
  types := p.types.getD .any
  constant := false
  span := p.span

namespace Check

variable {limit : Nat} {s : CheckState}

theorem requireSignature_environment (types : Option Union) (span : Span) (s : CheckState) :
    (requireSignature types span s).2.environment = s.environment := by
  cases types <;> rfl

/-- What the checker does with the default of a parameter. -/
def checkDefault (limit : Nat) (p : Parameter) : Check Unit :=
  match p.default with
  | some value => do
    let actual ← infer limit 1 value
    requireMatch actual (p.types.getD .any) value.span (.default p.name)
  | none => pure ()

/-- What the checker does with one parameter. -/
def walkParameter (limit : Nat) (p : Parameter) : Check Unit := do
  requireSignature p.types p.span
  checkDefault limit p
  if p.isEllipsis then pure () else declareLocal p.name (p.types.getD .any) p.span

theorem walkParameters_cons (p : Parameter) (rest : List Parameter) (s : CheckState) :
    walkParameters limit (p :: rest) s = walkParameters limit rest (walkParameter limit p s).2 := by
  obtain ⟨name, span, types, default⟩ := p
  rw [walkParameters, walkParameter, checkDefault, Parameter.isEllipsis]
  cases default <;> cases name == ellipsisName <;> rfl

/-- The default of a parameter gives the innermost frame nothing but functions, and leaves those below it as they are. -/
theorem checkDefault_continues (p : Parameter) (s : CheckState) : s.Continues .expression (checkDefault limit p s).2 := by
  obtain ⟨name, span, types, _ | value⟩ := p
  · exact .refl s
  · refine ((walk_continues limit s).1 1 value).trans (.ofEffect (?_ : Effect limit _ _ _))
    exact does_requireMatch _ _ _ _ _

/-- A parameter becomes a variable of the innermost frame, unless it is an ellipsis. -/
theorem walkParameter_bindings (limit : Nat) (p : Parameter) (s : CheckState) :
    let t := (walkParameter limit p s).2
    t.environment.current.bindings =
        (if p.isEllipsis then s.environment.current.bindings
          else Frame.put Variable.name p.variable s.environment.current.bindings) ∧
      t.environment.frames.tail = s.environment.frames.tail ∧
      t.environment.current.kind = s.environment.current.kind := by
  intro t
  let u := (checkDefault limit p (requireSignature p.types p.span s).2).2
  have hu : s.Continues .expression u :=
    (CheckState.Continues.ofEffect ((does_closed limit).requireSignature p.types p.span s)).trans
      (checkDefault_continues p _)
  obtain ⟨hkind, hbindings, -, -⟩ := hu.current
  have ht : t = ((if p.isEllipsis then pure () else declareLocal p.name (p.types.getD .any) p.span : Check Unit) u).2 :=
    rfl
  cases hellipsis : p.isEllipsis with
  | true =>
    rw [hellipsis] at ht
    rw [ht]
    exact ⟨hbindings, hu.below, hkind⟩
  | false =>
    rw [hellipsis] at ht
    have hframes : t.environment.frames = u.environment.current.putVariable p.variable :: u.environment.frames.tail := by
      rw [ht]
      exact Environment.frames_modifyCurrent _ _
    rw [Environment.current_eq_of_frames hframes, hframes]
    exact ⟨congrArg (Frame.put Variable.name p.variable) hbindings, hu.below, hkind⟩

/-- **Parameters become variables of the innermost frame**, one after the other, and nothing else does. -/
theorem walkParameters_bindings (limit : Nat) : ∀ (ps : List Parameter) (s : CheckState),
    let t := (walkParameters limit ps s).2
    t.environment.current.bindings = Frame.putAll Variable.name ((ps.filter fun p => !p.isEllipsis).map Parameter.variable)
        s.environment.current.bindings ∧
      t.environment.frames.tail = s.environment.frames.tail ∧
      t.environment.current.kind = s.environment.current.kind
  | [], s => ⟨rfl, rfl, rfl⟩
  | p :: rest, s => by
    obtain ⟨hbindings, hbelow, hkind⟩ := walkParameter_bindings limit p s
    obtain ⟨hrest, hrestBelow, hrestKind⟩ := walkParameters_bindings limit rest (walkParameter limit p s).2
    rw [walkParameters_cons]
    refine ⟨?_, hrestBelow.trans hbelow, hrestKind.trans hkind⟩
    rw [hrest, hbindings, List.filter_cons]
    cases p.isEllipsis <;> rfl

/-! ## A function and its two sides -/

/-- What a walk does of a function before its body: it declares the function and, in a frame of its own, the parameters. -/
def enterFunction (limit : Nat) (f : FunctionLiteral) : Check Unit := do
  declareFunction f
  requireSignature f.returnTypes f.nameSpan
  change (.push .function)
  declareReceiver f.receiver
  walkParameters limit f.parameters

/-- What a walk does of a function from its body on. -/
def leaveFunction (limit : Nat) (f : FunctionLiteral) : Check Unit := do
  returning f.returnTypes (walkStatements limit f.body.statements)
  change .pop

theorem walkFunction_eq (f : FunctionLiteral) (s : CheckState) :
    walkFunction limit f s = leaveFunction limit f (enterFunction limit f s).2 := by
  obtain ⟨name, nameSpan, receiver, parameters, returnTypes, ⟨statements, blockSpan⟩, decorators⟩ := f
  rw [walkFunction]
  rfl

/-- The function as it is registered for its callers. -/
def signatureOf (name : String) (f : FunctionLiteral) : FunctionSignature where
  name
  parameters := f.parameters.map parameterSignature
  returnTypes := f.returnTypes
  span := f.nameSpan

/-- Callers and body see the same signature: whatever argument names a parameter is matched against the types that the
variable of this name has where the body starts, and every parameter is a variable there, none in the place of
another. -/
structure SharesSignature (f : FunctionLiteral) (registered : FunctionSignature) (frame : Frame) : Prop where
  types : ∀ p ≠ ellipsisName, ∀ (arguments : List Argument) (i : Nat) (argument : Argument) (span : Span),
    arguments[i]? = some argument → argument.name = some (p, span) →
      (boundParameters registered 0 arguments)[i]?.join.map ParameterSignature.types =
        (frame.findVariable? p).map Variable.types
  kept : frame.bindings = f.named.map Parameter.variable

variable {f : FunctionLiteral} {name : String}

/-- A named argument is matched against the first parameter of its name. -/
theorem boundParameters_signatureOf {p : String} {arguments : List Argument} {i : Nat} {argument : Argument} {span : Span}
    (hargument : arguments[i]? = some argument) (hname : argument.name = some (p, span)) :
    (boundParameters (signatureOf name f) 0 arguments)[i]?.join =
      (f.parameters.find? fun q => q.name == p).map parameterSignature := by
  have hplace : placeOf (signatureOf name f) (0 + unnamed (arguments.take i)) argument =
      namedPlace? (signatureOf name f) p := by
    rw [placeOf, hname]
  rw [boundParameters_eq, List.getElem?_map, getElem?_places, hargument, Option.map_some, Option.map_some, hplace,
    Option.join_some, ← parameter?_eq]
  exact List.find?_map

/-- A name other than the ellipsis is only found among the parameters that are variables. -/
theorem find?_filter_isEllipsis {p : String} (hp : p ≠ ellipsisName) (ps : List Parameter) :
    (ps.filter fun q => !q.isEllipsis).find? (fun q => q.name == p) = ps.find? fun q => q.name == p := by
  rw [List.find?_filter]
  refine congrArg (fun test => List.find? test ps) (funext fun q => ?_)
  by_cases hq : q.name = p
  · simp [Parameter.isEllipsis, hq, hp]
  · simp [hq]

/-- A frame that nothing but the parameters were put into has the last one of each name as a variable. -/
theorem findVariable?_named {frame : Frame}
    (hframe : frame.bindings = Frame.putAll Variable.name (f.named.map Parameter.variable) []) (p : String) :
    frame.findVariable? p = (f.named.reverse.find? fun q => q.name == p).map Parameter.variable := by
  rw [Frame.findVariable?, hframe, Frame.find?_putAll, List.find?_nil, Option.or_none, ← List.map_reverse,
    List.find?_map]
  rfl

/-- **When callers and body agree**: the frame that a body starts in has kept all parameters exactly if no two of them
share a name, and then it has under every name what callers are told. -/
theorem sharesSignature_iff {frame : Frame}
    (hframe : frame.bindings = Frame.putAll Variable.name (f.named.map Parameter.variable) []) :
    SharesSignature f (signatureOf name f) frame ↔ (f.named.map Parameter.name).Nodup := by
  have hnames : (f.named.map Parameter.variable).map Variable.name = f.named.map Parameter.name := by
    rw [List.map_map]
    rfl
  constructor
  · intro h
    have hnodup : (frame.bindings.map Variable.name).Nodup := hframe ▸ Frame.nodup_putAll _ List.nodup_nil
    rwa [h.kept, hnames] at hnodup
  · intro h
    refine ⟨fun p hp arguments i argument span hargument hname => ?_, ?_⟩
    · rw [boundParameters_signatureOf hargument hname, findVariable?_named hframe, Frame.find?_reverse_of_nodup p h,
        FunctionLiteral.named, find?_filter_isEllipsis hp, Option.map_map, Option.map_map]
      rfl
    · rw [hframe, Frame.putAll_of_nodup (by rwa [List.nil_append, hnames])]
      rfl

/-- The function is registered where it is written, and its frame has nothing but the parameters when the body starts. -/
theorem enterFunction_frames (limit : Nat) (hname : f.name = some name) (hreceiver : f.receiver = none)
    (hfree : s.environment.declaresFunctionHere name = false) :
    let start := (enterFunction limit f s).2
    start.environment.pop.findFunction? name = some (signatureOf name f) ∧
      start.environment.current.kind = .function ∧
      start.environment.current.bindings = Frame.putAll Variable.name (f.named.map Parameter.variable) [] := by
  intro start
  let registered := (change (.function (signatureOf name f)) s).2
  let opened := (change (.push .function) (requireSignature f.returnTypes f.nameSpan registered).2).2
  have hdeclare : (declareFunction f s).2 = registered := by
    have hentered : declareFunction f s = (do
        if (← environment).declaresFunctionHere name then report (.functionDeclaredTwice name) f.nameSpan
        else change (.function (signatureOf name f)) : Check Unit) s := by
      rw [declareFunction, hreceiver, hname]
      rfl
    rw [hentered]
    show ((if s.environment.declaresFunctionHere name then report (.functionDeclaredTwice name) f.nameSpan
      else change (.function (signatureOf name f)) : Check Unit) s).2 = registered
    rw [hfree]
    rfl
  have hstart : start = (walkParameters limit f.parameters opened).2 := by
    show (walkParameters limit f.parameters (declareReceiver f.receiver (change (.push .function)
      (requireSignature f.returnTypes f.nameSpan (declareFunction f s).2).2).2).2).2 = _
    rw [hdeclare, hreceiver]
    rfl
  have hopened : opened.environment.frames = { kind := .function } :: registered.environment.frames :=
    congrArg (fun env => (env.push .function).frames) (requireSignature_environment f.returnTypes f.nameSpan registered)
  obtain ⟨hbindings, hbelow, hkind⟩ := walkParameters_bindings limit f.parameters opened
  rw [← hstart, Environment.current_eq_of_frames hopened] at hbindings hkind
  rw [← hstart, hopened, List.tail_cons] at hbelow
  refine ⟨?_, hkind, hbindings⟩
  have hframes : start.environment.pop.frames =
      s.environment.current.putFunction (signatureOf name f) :: s.environment.frames.tail :=
    (Environment.frames_closed hbelow).trans (Environment.frames_modifyCurrent _ _)
  have hput : (s.environment.current.putFunction (signatureOf name f)).findFunction? name = some (signatureOf name f) :=
    (Frame.find?_put FunctionSignature.name _ _ name).trans (if_pos rfl)
  rw [Environment.findFunction?, hframes, List.findSome?_cons, hput]

/-- **Callers and body see one signature exactly if no two parameters share a name.**  A named function without receiver
that is not declared yet is registered where it is written, whatever its defaults are, and its body starts in a frame of
its own.  There callers find the first parameter of a name, and the body the last one.  So arguments are matched against
the types that the body has for the names, and no parameter takes the place of another one, exactly if the parameters,
ellipses apart, have names of their own. -/
theorem function_shares_signature (limit : Nat) (f : FunctionLiteral) (name : String) (s : CheckState)
    (hname : f.name = some name) (hreceiver : f.receiver = none)
    (hfree : s.environment.declaresFunctionHere name = false) :
    let start := (enterFunction limit f s).2
    let frame := start.environment.current
    walkFunction limit f s = leaveFunction limit f start ∧ frame.kind = .function ∧
      ∃ g, start.environment.pop.findFunction? name = some g ∧
        (∀ p, g.parameter? p = (f.parameters.find? fun q => q.name == p).map parameterSignature) ∧
        (∀ p, frame.findVariable? p = (f.named.reverse.find? fun q => q.name == p).map Parameter.variable) ∧
        (SharesSignature f g frame ↔ (f.named.map Parameter.name).Nodup) := by
  intro start frame
  obtain ⟨hregistered, hkind, hframe⟩ := enterFunction_frames limit hname hreceiver hfree
  exact ⟨walkFunction_eq f s, hkind, signatureOf name f, hregistered, fun p => List.find?_map,
    findVariable?_named hframe, sharesSignature_iff hframe⟩

/-- A function with an ellipsis between its parameters and a default behind it: callers and body agree. -/
theorem function_shares_signature_variadic :
    let source : SourceFile := { name := "m.vp", text := "func f(x: int, ...: any, y: char = \"a\") \x7b\n\x7d\n" }
    let place (line first last : Nat) : Span := ⟨"m.vp", ⟨line, first⟩, ⟨line, last⟩⟩
    let f : FunctionLiteral := ⟨some "f", place 1 6 6, none,
      [⟨"x", place 1 8 8, some (.named "int"), none⟩, ⟨"...", place 1 16 18, some (.named "any"), none⟩,
        ⟨"y", place 1 26 26, some (.named "char"), some (.literal (place 1 36 38) (.string "a"))⟩],
      none, ⟨[], ⟨"m.vp", ⟨1, 41⟩, ⟨2, 1⟩⟩⟩, []⟩
    let s : CheckState := { environment := .initial }
    (ParsedProgram.ofTokens source.tokens 3).program.statements =
        [.expression (.function ⟨"m.vp", ⟨1, 1⟩, ⟨2, 1⟩⟩ f)] ∧
      s.environment.declaresFunctionHere "f" = false ∧ (walkFunction 3 f s).2.reports = [] ∧
      ∃ g, (enterFunction 3 f s).2.environment.pop.findFunction? "f" = some g ∧
        SharesSignature f g (enterFunction 3 f s).2.environment.current := by
  intro source place f s
  have hfree : s.environment.declaresFunctionHere "f" = false := by decide
  obtain ⟨-, -, g, hg, -, -, hshares⟩ := function_shares_signature 3 f "f" s rfl rfl hfree
  refine ⟨?_, hfree, ?_, g, hg, hshares.2 (by decide)⟩
  all_goals
    subst source s f place
    cbv

/-- A function with two parameters of one name: nothing is reported of it, yet callers are told that `x` takes an `int`,
while the body has a `char` under that name. -/
theorem not_function_shares_signature_twice :
    let source : SourceFile := { name := "m.vp", text := "func f(x: int, x: char) \x7b\n\x7d\n" }
    let place (line first last : Nat) : Span := ⟨"m.vp", ⟨line, first⟩, ⟨line, last⟩⟩
    let f : FunctionLiteral := ⟨some "f", place 1 6 6, none,
      [⟨"x", place 1 8 8, some (.named "int"), none⟩, ⟨"x", place 1 16 16, some (.named "char"), none⟩],
      none, ⟨[], ⟨"m.vp", ⟨1, 25⟩, ⟨2, 1⟩⟩⟩, []⟩
    let s : CheckState := { environment := .initial }
    let start := (enterFunction 3 f s).2
    (ParsedProgram.ofTokens source.tokens 3).program.statements =
        [.expression (.function ⟨"m.vp", ⟨1, 1⟩, ⟨2, 1⟩⟩ f)] ∧
      (walkFunction 3 f s).2.reports = [] ∧
      ∃ g, start.environment.pop.findFunction? "f" = some g ∧
        (g.parameter? "x").map ParameterSignature.types = some (.named "int") ∧
        (start.environment.current.findVariable? "x").map Variable.types = some (.named "char") ∧
        ¬ SharesSignature f g start.environment.current := by
  intro source place f s start
  have hfree : s.environment.declaresFunctionHere "f" = false := by decide
  obtain ⟨hg, -, hframe⟩ := enterFunction_frames (f := f) 3 rfl rfl hfree
  refine ⟨?_, ?_, signatureOf "f" f, hg, rfl, ?_, fun h => absurd ((sharesSignature_iff hframe).1 h) (by decide)⟩
  · subst source f place
    cbv
  · subst s f place
    cbv
  · rw [findVariable?_named hframe]
    rfl

end Check
end UnionScript
