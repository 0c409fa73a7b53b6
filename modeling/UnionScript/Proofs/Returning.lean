import UnionScript.Proofs.Misplacing
/-!
# Returning — which function a `return` belongs to

A walk keeps the return types of the functions it is inside of beside the frames of the scopes.  A frame is opened for a
function when its parameters are looked at, its return types are expected only from its body on: so a state has one
expected return for every function in whose body it is, in their order (`IsAt`), and as many as there are frames of
functions exactly if no default of a parameter is around (`count_function_iff`).  A `return` is judged by the first of
them alone (`walkStatement_return`), and reported if there is none: so of all that are listed, those that are in no body are
reported (`walk_meets_places`).
-/
namespace UnionScript

/-- A function in whose body a place is has a frame. -/
theorem Enclosure.length_bodies_le (around : List Enclosure) :
    (around.filterMap body?).length ≤ (around.map kind).count .function := by
  induction around with
  | nil => exact Nat.le_refl 0
  | cons e around ih => cases e <;> simp [List.filterMap_cons, kind, body?] <;> omega

/-- There is an expected return for every frame of a function exactly if no parameters are around. -/
theorem Enclosure.count_function_iff (around : List Enclosure) :
    (around.map kind).count .function = (around.filterMap body?).length ↔ ∀ f, .parameters f ∉ around := by
  induction around with
  | nil => simp
  | cons e around ih =>
    cases e with
    | parameters f =>
      have hle := length_bodies_le around
      have hcount : ((parameters f :: around).map kind).count .function = (around.map kind).count .function + 1 := by
        simp [kind]
      have hbodies : (parameters f :: around).filterMap body? = around.filterMap body? := rfl
      rw [hcount, hbodies]
      exact iff_of_false (by omega) fun h => h f List.mem_cons_self
    | _ => simpa [List.filterMap_cons, kind, body?] using ih

namespace Check

/-- A walk that reports no nesting comes by every node where it stands: among its acts are those of the node, one after the
other, in a state that is at the node's place. -/
theorem comes_by {limit : Nat} {statements : List Statement} {around : List Enclosure} {n : Node}
    (hstands : Stands statements around n) {start : CheckState} (hreturns : start.returns = [])
    (hquiet : ¬(walkStatements limit statements start).2.ReportsNesting) :
    ∃ pre mid post, Performs (walkStatements limit statements) start (pre ++ (mid ++ post)) ∧
      Performs (n.walk limit) (start.after pre) mid ∧ (start.after pre).IsAt start.environment around := by
  obtain ⟨pre, post, hinside, hacts⟩ := passes_stands hstands start hquiet
  obtain ⟨mid, hmid, -⟩ := proceeds_node limit n (start.after pre)
  refine ⟨pre, mid, post, hacts mid hmid, hmid, hinside.kinds, ?_⟩
  rw [hinside.returns, hreturns, List.append_nil]

/-- The types of what a `return` gives back. -/
def inferReturned (limit : Nat) : Option Expression → Check Union
  | some e => infer limit 1 e
  | none => return .named "null"

/-- **A `return` is judged by the innermost function in whose body it is**, and by none if it is in no body. -/
theorem walkStatement_return {limit : Nat} {s : CheckState} {environment : Environment} {around : List Enclosure}
    (h : s.IsAt environment around) (value : Option Expression) (span : Span) :
    walkStatement limit (.return value span) s = (do
      let actual ← inferReturned limit value
      judgeReturn (around.findSome? Enclosure.body?) actual span) s := by
  cases value with
  | none =>
    rw [walkStatement]
    exact checkReturn_of_isAt h _ span
  | some e =>
    have hinside := ((walk_continues limit s).1 1 e).isInside
    have hinferred : (infer limit 1 e s).2.IsAt environment around :=
      ⟨hinside.kinds.trans h.kinds, hinside.returns.trans h.returns⟩
    rw [walkStatement]
    exact checkReturn_of_isAt hinferred _ span

end Check

namespace Program

/-- **The expected returns of a walk.**  If the walk of a program reports no nesting, then it comes by every node where it
stands, in a state with one frame for everything that is open there and one expected return for every function in whose
body the node is.  These are as many as the frames of functions exactly if the node is in no parameter's default; and a
`return` that stands there is judged by the innermost of these functions, or reported if there is none.  So the reports of
`return`s are those of every `return` that stands in no function's body, in the order of the walk and as often as there is
one. -/
theorem walk_meets_places (program : Program) (environment : Environment) (packages : Option PackageCache) (limit : Nat)
    (hquiet : ∀ r ∈ (program.walk environment packages limit).reports, r.finding.isNesting = false) :
    let start : CheckState := { environment, packages }
    (∀ around n, Stands program.statements around n →
      ∃ pre mid post, Check.Performs (Check.walkStatements limit program.statements) start (pre ++ (mid ++ post)) ∧
        Check.Performs (n.walk limit) (start.after pre) mid ∧ (start.after pre).IsAt environment around ∧
        ((around.map Enclosure.kind).count .function = (start.after pre).returns.length ↔
          ∀ f, .parameters f ∉ around) ∧
        ∀ value span, n = .statement (.return value span) →
          Check.walkStatement limit (.return value span) (start.after pre) = (do
            let actual ← Check.inferReturned limit value
            Check.judgeReturn (around.findSome? Enclosure.body?) actual span) (start.after pre)) ∧
      (program.walk environment packages limit).reports.filter (fun r => r.finding.isStray) =
        strays program.placements ∧
      ∀ around s, ⟨around, s⟩ ∈ program.placements ↔ Stands program.statements around (.statement s) := by
  intro start
  refine ⟨fun around n hstands => ?_, program.walk_strays environment packages limit hquiet,
    fun _ _ => program.mem_placements_iff⟩
  obtain ⟨pre, mid, post, hacts, hmid, hat⟩ := Check.comes_by hstands rfl (not_reportsNesting hquiet)
  refine ⟨pre, mid, post, hacts, hmid, hat, ?_, fun value span _ => Check.walkStatement_return hat value span⟩
  rw [hat.returns, List.length_map]
  exact Enclosure.count_function_iff around

/-- A function with a `return` in the default of a parameter and another one in its body. -/
def returningTwice : FunctionLiteral where
  name := some "f"
  nameSpan := ⟨"m.vp", ⟨1, 6⟩, ⟨1, 6⟩⟩
  receiver := none
  parameters := [⟨"x", ⟨"m.vp", ⟨1, 8⟩, ⟨1, 8⟩⟩, some .any, some (.conditional ⟨"m.vp", ⟨1, 17⟩, ⟨3, 1⟩⟩
    (.literal ⟨"m.vp", ⟨1, 21⟩, ⟨1, 24⟩⟩ (.boolean true)) ⟨[.return (some one) inDefault], ⟨"m.vp", ⟨1, 27⟩, ⟨3, 1⟩⟩⟩ none)⟩]
  returnTypes := some (.named "int")
  body := ⟨[.return (some another) inBody], ⟨"m.vp", ⟨3, 9⟩, ⟨5, 1⟩⟩⟩
  decorators := []
where
  one : Expression := .literal ⟨"m.vp", ⟨2, 10⟩, ⟨2, 10⟩⟩ (.integer "1")
  inDefault : Span := ⟨"m.vp", ⟨2, 3⟩, ⟨2, 10⟩⟩
  another : Expression := .literal ⟨"m.vp", ⟨4, 10⟩, ⟨4, 10⟩⟩ (.integer "1")
  inBody : Span := ⟨"m.vp", ⟨4, 3⟩, ⟨4, 10⟩⟩

open returningTwice in
/-- The `return` in its body is judged by the function: the walk comes by it where `int` is expected.  The only one that is
reported is the other one. -/
theorem walk_meets_places_body :
    let program : Program := ⟨[.expression (.function .nowhere returningTwice)]⟩
    let start : CheckState := { environment := .initial }
    (∃ pre mid post, Check.Performs (Check.walkStatements 4 program.statements) start (pre ++ (mid ++ post)) ∧
      (start.after pre).returns = [some (.named "int")] ∧
      Check.walkStatement 4 (.return (some another) inBody) (start.after pre) = (do
        let actual ← Check.infer 4 1 another
        Check.requireMatch actual (.named "int") inBody .returnValue) (start.after pre)) ∧
      (program.walk .initial none 4).reports.filter (fun r => r.finding.isStray) =
        [⟨.returnOutsideFunction, inDefault⟩] := by
  intro program start
  have hreports : (program.walk .initial none 4).reports = [⟨.returnOutsideFunction, inDefault⟩] := by
    subst program
    cbv
  have hquiet : ∀ r ∈ (program.walk .initial none 4).reports, r.finding.isNesting = false := by
    rw [hreports]
    exact List.forall_mem_singleton.2 rfl
  have hstands : Stands program.statements [.body returningTwice] (.statement (.return (some another) inBody)) :=
    .within (.within (.among List.mem_cons_self) .expression) (.functionBody List.mem_cons_self)
  have hstrays : strays program.placements = [⟨.returnOutsideFunction, inDefault⟩] := by
    subst program
    cbv
  obtain ⟨hplaces, hreported, -⟩ := walk_meets_places program .initial none 4 hquiet
  obtain ⟨pre, mid, post, hacts, -, hat, -, hreturn⟩ := hplaces _ _ hstands
  exact ⟨⟨pre, mid, post, hacts, hat.returns, hreturn _ _ rfl⟩, hreported.trans hstrays⟩

open returningTwice in
/-- The one in the default is in the function as well, and yet reported as outside of any: nothing is expected there. -/
theorem walk_reports_return_in_default :
    let source : SourceFile :=
      ⟨"m.vp", "func f(x: any = if (TRUE) \x7b\n  return 1\n\x7d): int \x7b\n  return 1\n\x7d\n"⟩
    let parsed := ParsedProgram.ofTokens source.tokens 8
    parsed.errors = [] ∧
      Stands parsed.program.statements [.branch, .parameters returningTwice] (.statement (.return (some one) inDefault)) ∧
      (parsed.program.walk .initial none 8).reports = [⟨.returnOutsideFunction, inDefault⟩] := by
  intro source parsed
  obtain ⟨herrors, hparsed⟩ : parsed.errors = [] ∧
      parsed.program = ⟨[.expression (.function ⟨"m.vp", ⟨1, 1⟩, ⟨5, 1⟩⟩ returningTwice)]⟩ := by
    subst source parsed
    cbv
  refine ⟨herrors, ?_, ?_⟩
  · rw [hparsed]
    exact .within (.within (.within (.among List.mem_cons_self) .expression) (.default List.mem_cons_self rfl))
      (.consequence List.mem_cons_self)
  · rw [hparsed]
    cbv

end Program
end UnionScript
