import UnionScript.Proofs.Placements
/-!
# Misplacing — which statements are reported for where they stand

A `break` or `next` looks for a loop to leave, a `defer` for a function to wait for, and both look only at the kinds of
the open frames; a `return` looks for the function whose body it is in.  All of this is told by what is open around the
statement (`IsAt`), so a walk that reports no nesting reports the statements of a program that are out of place, one by one
in the order in which they are listed, and no others (`walk_complains`, and `walk_misplaces` of a walk outside of loops and
functions).  It is shown for every step what it reports of them at a place (`Complains`).
-/
namespace UnionScript

/-! ## What is out of place -/

/-- Whether it is a loop's body or a function's parameters or body: a jump looks no further. -/
def Enclosure.stops (e : Enclosure) : Bool := e.kind == .loop || e.kind == .function

/-- The kinds of the frames of a place in a program that is walked inside others. -/
def Enclosure.kinds (outside : List FrameKind) (around : List Enclosure) : List FrameKind := around.map kind ++ outside

namespace Placement

/-- Whether the innermost loop or function around is a loop. -/
def loops (p : Placement) : Bool := (p.around.find? Enclosure.stops).any fun e => e.kind == .loop

/-- Whether a function is around. -/
def inFunction (p : Placement) : Bool := p.around.any fun e => e.kind == .function

/-- The innermost function in whose body it is. -/
def function? (p : Placement) : Option FunctionLiteral := p.around.findSome? Enclosure.body?

/-- What is reported of a statement for where it stands. -/
def misplacement? (p : Placement) : Option Report :=
  match p.statement with
  | .jump kind span => if p.loops then none else some ⟨.jumpOutsideLoop kind, span⟩
  | .defer _ span => if p.inFunction then none else some ⟨.deferOutsideFunction, span⟩
  | _ => none

/-- What is reported of a `return` for where it stands. -/
def stray? (p : Placement) : Option Report :=
  match p.statement with
  | .return _ span => if p.function?.isSome then none else some ⟨.returnOutsideFunction, span⟩
  | _ => none

/-- What is reported of a statement for where it stands in a program that is walked inside some frames. -/
def complaint? (outside : List FrameKind) (p : Placement) : Option Report :=
  match p.statement with
  | .jump kind span =>
    if Environment.loopFirst (Enclosure.kinds outside p.around) then none else some ⟨.jumpOutsideLoop kind, span⟩
  | .defer _ span =>
    if (Enclosure.kinds outside p.around).any fun k => k == .function then none else some ⟨.deferOutsideFunction, span⟩
  | _ => p.stray?

end Placement

def misplacements (ps : List Placement) : List Report := ps.filterMap Placement.misplacement?

/-- The reports of every `return` that is in no function's body. -/
def strays (ps : List Placement) : List Report := ps.filterMap Placement.stray?

def complaints (outside : List FrameKind) (ps : List Placement) : List Report :=
  ps.filterMap (Placement.complaint? outside)

theorem Finding.severity_of_isMisplacement : ∀ finding : Finding, finding.isMisplacement = true →
    finding.severity = .fatal
  | .deferOutsideFunction, _ => rfl
  | .jumpOutsideLoop _, _ => rfl

theorem Finding.isOfPlace_of_isMisplacement (finding : Finding) (h : finding.isMisplacement = true) :
    finding.isOfPlace = true := by rw [isOfPlace, h, Bool.true_or]

theorem Finding.isOfPlace_of_isStray (finding : Finding) (h : finding.isStray = true) : finding.isOfPlace = true := by
  rw [isOfPlace, h, Bool.or_true]

/-! ## Frames -/

variable {outside : List FrameKind}

/-- Frames that are in no loop and in no function. -/
structure Outside (outside : List FrameKind) : Prop where
  loop : Environment.loopFirst outside = false
  function : (outside.any fun k => k == .function) = false

namespace Outside

/-- The frames of a place say whether a loop comes first. -/
theorem loopFirst_kinds (h : Outside outside) (s : Statement) : ∀ around : List Enclosure,
    Environment.loopFirst (Enclosure.kinds outside around) = Placement.loops ⟨around, s⟩
  | [] => h.loop
  | .loop :: _ => rfl
  | .parameters _ :: _ => rfl
  | .body _ :: _ => rfl
  | .branch :: around => h.loopFirst_kinds s around
  | .block :: around => h.loopFirst_kinds s around

theorem any_kinds (h : Outside outside) (s : Statement) (around : List Enclosure) :
    ((Enclosure.kinds outside around).any fun k => k == .function) = Placement.inFunction ⟨around, s⟩ := by
  rw [Enclosure.kinds, List.any_append, h.function, Bool.or_false, List.any_map]
  rfl

/-- Of the statements that are out of place, outside of loops and functions, those that do not return. -/
theorem filter_complaint? (h : Outside outside) (p : Placement) :
    (p.complaint? outside).filter (fun r => r.finding.isMisplacement) = p.misplacement? := by
  obtain ⟨around, s⟩ := p
  cases s with
  | jump kind span =>
    simp only [Placement.complaint?, Placement.misplacement?, h.loopFirst_kinds (.jump kind span)]
    split <;> rfl
  | defer e span =>
    simp only [Placement.complaint?, Placement.misplacement?, h.any_kinds (.defer e span)]
    split <;> rfl
  | «return» value span =>
    simp only [Placement.complaint?, Placement.misplacement?, Placement.stray?]
    split <;> rfl
  | _ => rfl

end Outside

/-- Of the statements that are out of place, those that return. -/
theorem Placement.filter_complaint? (p : Placement) :
    (p.complaint? outside).filter (fun r => r.finding.isStray) = p.stray? := by
  obtain ⟨around, s⟩ := p
  cases s with
  | jump _ _ | defer _ _ | «return» _ _ =>
    simp only [Placement.complaint?, Placement.stray?]
    split <;> rfl
  | _ => rfl

/-- Some of the reports about where statements stand. -/
theorem filter_isOfPlace {P : Finding → Bool} (h : ∀ finding, P finding = true → finding.isOfPlace = true)
    (rs : List Report) :
    (rs.filter fun r => r.finding.isOfPlace).filter (fun r => P r.finding) = rs.filter fun r => P r.finding := by
  rw [List.filter_filter]
  refine List.filter_congr fun r _ => ?_
  cases hP : P r.finding with
  | true => rw [h _ hP, Bool.and_self]
  | false => rw [Bool.false_and]

theorem filter_complaints {P : Finding → Bool} {complaint? : Placement → Option Report}
    (h : ∀ p, (Placement.complaint? outside p).filter (fun r => P r.finding) = complaint? p) (ps : List Placement) :
    (complaints outside ps).filter (fun r => P r.finding) = ps.filterMap complaint? := by
  rw [complaints, List.filter_filterMap]
  exact List.filterMap_congr fun p _ => h p

namespace Environment

def kinds (env : Environment) : List FrameKind := env.frames.map Frame.kind

theorem kinds_pop {env : Environment} {kind : FrameKind} {rest : List FrameKind} (h : env.kinds = kind :: rest)
    (hrest : rest ≠ []) : env.pop.kinds = rest := by
  obtain ⟨_ | ⟨f, inner⟩, root, _⟩ := env
  · exact absurd (List.cons.inj h).2.symm hrest
  · exact (List.cons.inj h).2

theorem kinds_modifyCurrent (env : Environment) {f : Frame → Frame} (h : ∀ frame, (f frame).kind = frame.kind) :
    (env.modifyCurrent f).kinds = env.kinds := by
  obtain ⟨_ | ⟨frame, inner⟩, root, _⟩ := env
  · exact congrArg (fun k => [k]) (h root)
  · exact congrArg (· :: _) (h frame)

end Environment

namespace CheckState

variable {s : CheckState} {environment : Environment} {around : List Enclosure}

/-- A place in a frame that is no function's. -/
theorem IsAt.push (h : s.IsAt environment around) {e : Enclosure} (hbody : e.body? = none) :
    (Check.change (.push e.kind) s).2.IsAt environment (e :: around) where
  kinds := by
    show e.kind :: s.environment.frames.map Frame.kind = _
    rw [h.kinds]
    rfl
  returns := by
    rw [List.filterMap_cons_none hbody]
    exact h.returns

theorem IsAt.pop {e : Enclosure} (h : s.IsAt environment (e :: around)) (hbody : e.body? = none) :
    (Check.change .pop s).2.IsAt environment around where
  kinds := Environment.kinds_pop h.kinds (by simp [Environment.frames])
  returns := by
    have hreturns := h.returns
    rwa [List.filterMap_cons_none hbody] at hreturns

/-- A function's body is in the frame of its parameters. -/
theorem IsAt.enter {f : FunctionLiteral} (h : s.IsAt environment (.parameters f :: around)) :
    ((Act.enter f.returnTypes).apply s).IsAt environment (.body f :: around) where
  kinds := h.kinds
  returns := congrArg (f.returnTypes :: ·) h.returns

theorem IsAt.leave {f : FunctionLiteral} (h : s.IsAt environment (.body f :: around)) :
    (Act.leave.apply s).IsAt environment (.parameters f :: around) where
  kinds := h.kinds
  returns := congrArg List.tail h.returns

end CheckState

namespace Check

variable {α β : Type} {limit : Nat} {scopes : Environment} {around : List Enclosure} {found more : List Report}

/-- The reports about where statements stand, the latest first. -/
def complaintsIn (s : CheckState) : List Report := s.reports.filter fun r => r.finding.isOfPlace

/-- A step at a place that stays there, takes no report of nesting back and, unless nesting is reported behind it, reports
of some statements that they are out of place, and of no others. -/
def Complains (scopes : Environment) (around : List Enclosure) (found : List Report) (step : Check α) : Prop :=
  ∀ s : CheckState, s.IsAt scopes around →
    (step s).2.IsAt scopes around ∧ (s.ReportsNesting → (step s).2.ReportsNesting) ∧
    (¬(step s).2.ReportsNesting → complaintsIn (step s).2 = found.reverse ++ complaintsIn s)

namespace Complains

/-- One step after the other reports what both report. -/
theorem bind {step : Check α} {next : α → Check β} (h : Complains scopes around found step)
    (hnext : ∀ a, Complains scopes around more (next a)) : Complains scopes around (found ++ more) (step >>= next) :=
  fun s hs => by
    obtain ⟨hat, hkeeps, hreports⟩ := h s hs
    obtain ⟨hat', hkeeps', hreports'⟩ := hnext (step s).1 (step s).2 hat
    refine ⟨hat', hkeeps' ∘ hkeeps, fun hquiet => ?_⟩
    show complaintsIn (next (step s).1 (step s).2).2 = _
    rw [hreports' hquiet, hreports (hquiet ∘ hkeeps'), List.reverse_append, List.append_assoc]

theorem cast {step : Check α} (h : Complains scopes around found step) (hfound : found = more) :
    Complains scopes around more step := hfound ▸ h

/-- A step that keeps the frames, the expected returns and what is reported, and reports some more. -/
theorem of_reports {step : Check α} (h : ∀ s, (step s).2.environment.kinds = s.environment.kinds ∧
    (step s).2.returns = s.returns ∧ ∃ rs : List Report, (step s).2.reports = rs ++ s.reports ∧
      rs.filter (fun r => r.finding.isOfPlace) = found.reverse) : Complains scopes around found step := fun s hs => by
  obtain ⟨hkinds, hreturns, rs, hreports, hfound⟩ := h s
  have hat : (step s).2.IsAt scopes around := ⟨hkinds.trans hs.kinds, hreturns.trans hs.returns⟩
  refine ⟨hat, fun ⟨r, hr, hnesting⟩ => ⟨r, hreports ▸ List.mem_append_right rs hr, hnesting⟩, fun _ => ?_⟩
  rw [complaintsIn, hreports, List.filter_append, hfound]
  rfl

theorem nothing {step : Check α} (h : ∀ s, (step s).2.environment.kinds = s.environment.kinds ∧
    (step s).2.returns = s.returns ∧ (step s).2.reports = s.reports) : Complains scopes around [] step :=
  of_reports fun s => ⟨(h s).1, (h s).2.1, [], (h s).2.2, rfl⟩

end Complains

theorem complains_report (finding : Finding) (span : Span) (h : finding.isOfPlace = false) :
    Complains scopes around [] (report finding span) :=
  .of_reports fun _ => ⟨rfl, rfl, [⟨finding, span⟩], rfl, List.filter_cons_of_neg (Bool.eq_false_iff.1 h)⟩

theorem complains_complaint (finding : Finding) (span : Span) (h : finding.isOfPlace = true) :
    Complains scopes around [⟨finding, span⟩] (report finding span) :=
  .of_reports fun _ => ⟨rfl, rfl, [⟨finding, span⟩], rfl, List.filter_cons_of_pos h⟩

theorem complains_closed (scopes : Environment) (around : List Enclosure) :
    LeafClosed fun {_} step => Complains scopes around [] step where
  look _ := .nothing fun _ => ⟨rfl, rfl, rfl⟩
  bind := Complains.bind
  report finding span h := complains_report finding span (finding.isOfPlace_of_isOfLeaf h)
  package? _ := .nothing fun _ => ⟨rfl, rfl, rfl⟩
  requireDefined types span := .of_reports fun s => by
    refine ⟨rfl, rfl, _, rfl, List.filter_eq_nil_iff.2 fun r hr => ?_⟩
    obtain ⟨t, -, rfl⟩ := List.mem_map.1 (List.mem_reverse.1 hr)
    exact Bool.false_ne_true
  bindVariable _ := .nothing fun s => ⟨s.environment.kinds_modifyCurrent fun _ => rfl, rfl, rfl⟩
  bindFunction _ := .nothing fun s => ⟨s.environment.kinds_modifyCurrent fun _ => rfl, rfl, rfl⟩

theorem complains_declareType (d : TypeDeclaration) : Complains scopes around [] (declareType d) :=
  (complains_closed scopes around).environment fun env => by
    have hdeclare : Complains scopes around [] (change (.type (entryOf d))) := .nothing fun s =>
      ⟨s.environment.kinds_modifyCurrent fun _ => rfl, rfl, rfl⟩
    split
    · exact complains_report _ _ (by split <;> rfl)
    · exact .bind hdeclare fun _ => .bind ((complains_closed scopes around).requireDefined _ _) fun _ =>
        (complains_closed scopes around).requireAttributes _

namespace Complains

/-- A step in front that reports nothing of this plays no part. -/
theorem behind {step : Check α} {next : α → Check β} (h : Complains scopes around [] step)
    (hnext : ∀ a, Complains scopes around found (next a)) : Complains scopes around found (step >>= next) :=
  bind h hnext

/-- A step that reports nothing of this and follows plays no part. -/
theorem andNothing {step : Check α} {next : α → Check β} (h : Complains scopes around found step)
    (hnext : ∀ a, Complains scopes around [] (next a)) : Complains scopes around found (step >>= next) :=
  (bind h hnext).cast (List.append_nil found)

theorem andPure {step : Check α} (h : Complains scopes around found step) (f : α → β) :
    Complains scopes around found (step >>= fun a => pure (f a)) :=
  h.andNothing fun _ => (complains_closed scopes around).pure _

theorem ite {c : Bool} {step step' : Check α} (h : Complains scopes around found step)
    (h' : Complains scopes around found step') : Complains scopes around found (if c then step else step') := by
  cases c
  · exact h'
  · exact h

/-- A choice by something that the kinds of the frames tell. -/
theorem choose {look : Environment → Bool} {c : Bool} {step step' : Check α}
    (hlook : ∀ env : Environment, env.kinds = Enclosure.kinds scopes.kinds around → look env = c)
    (h : c = true → Complains scopes around found step) (h' : c = false → Complains scopes around found step') :
    Complains scopes around found (environment >>= fun env => if look env then step else step') := fun s hs => by
  have hstep : (environment >>= fun env => if look env then step else step') s =
      (if look s.environment then step else step') s := rfl
  rw [hstep, hlook s.environment hs.kinds]
  cases c with
  | true => exact h rfl s hs
  | false => exact h' rfl s hs

theorem visit {body : Check Union} (step : Nat) (span : Span) (h : Complains scopes around found body) :
    Complains scopes around found (visit limit step span body) := fun s hs => by
  rw [visit_eq]
  split
  · refine ⟨⟨hs.kinds, hs.returns⟩, fun ⟨r, hr, hnesting⟩ => ⟨r, List.mem_cons_of_mem _ hr, hnesting⟩, fun hquiet => ?_⟩
    exact absurd ⟨_, List.mem_cons_self, rfl⟩ hquiet
  · obtain ⟨hat, hkeeps, hreports⟩ := h ((Act.descend step).apply s) ⟨hs.kinds, hs.returns⟩
    exact ⟨⟨hat.kinds, hat.returns⟩, hkeeps, hreports⟩

theorem within {e : Enclosure} {body : Check Unit} (hbody : e.body? = none)
    (h : Complains scopes (e :: around) found body) : Complains scopes around found (within e.kind body) :=
  fun s hs => by
    obtain ⟨hat, hkeeps, hreports⟩ := h _ (hs.push hbody)
    exact ⟨hat.pop hbody, hkeeps, hreports⟩

theorem returning {f : FunctionLiteral} {body : Check Unit} (h : Complains scopes (.body f :: around) found body) :
    Complains scopes (.parameters f :: around) found (returning f.returnTypes body) := fun s hs => by
  obtain ⟨hat, hkeeps, hreports⟩ := h _ hs.enter
  exact ⟨hat.leave, hkeeps, hreports⟩

end Complains

/-! ## The walk -/

/-- A step at a place of a program reports, of some statements, those that are out of place. -/
def Judges (scopes : Environment) (around : List Enclosure) (ps : List Placement) (step : Check α) : Prop :=
  Complains scopes around (complaints scopes.kinds ps) step

section Judges

variable {ps qs : List Placement}

theorem judges_leaf {step : Check α} (h : Complains scopes around [] step) : Judges scopes around [] step := h

namespace Judges

theorem bind {step : Check α} {next : α → Check β} (h : Judges scopes around ps step)
    (hnext : ∀ a, Judges scopes around qs (next a)) : Judges scopes around (ps ++ qs) (step >>= next) :=
  (Complains.bind h hnext).cast List.filterMap_append.symm

theorem behind {step : Check α} {next : α → Check β} (h : Complains scopes around [] step)
    (hnext : ∀ a, Judges scopes around ps (next a)) : Judges scopes around ps (step >>= next) :=
  Complains.behind h hnext

theorem andNothing {step : Check α} {next : α → Check β} (h : Judges scopes around ps step)
    (hnext : ∀ a, Complains scopes around [] (next a)) : Judges scopes around ps (step >>= next) :=
  Complains.andNothing h hnext

theorem andPure {step : Check α} (h : Judges scopes around ps step) (f : α → β) :
    Judges scopes around ps (step >>= fun a => pure (f a)) := Complains.andPure h f

theorem visit {body : Check Union} (step : Nat) (span : Span) (h : Judges scopes around ps body) :
    Judges scopes around ps (visit limit step span body) := Complains.visit step span h

theorem within {body : Check Unit} {e : Enclosure} (hbody : e.body? = none) (h : Judges scopes (e :: around) ps body) :
    Judges scopes around ps (within e.kind body) := Complains.within hbody h

end Judges
end Judges

/-- Judges a `return` by the function it belongs to, if there is one. -/
def judgeReturn (f : Option FunctionLiteral) (actual : Union) (span : Span) : Check Unit :=
  match f.map FunctionLiteral.returnTypes with
  | none => report .returnOutsideFunction span
  | some (some expected) => requireMatch actual expected span .returnValue
  | some none => pure ()

/-- Only the innermost expected return is looked at. -/
theorem checkReturn_of_isAt {s : CheckState} (h : s.IsAt scopes around) (actual : Union) (span : Span) :
    checkReturn actual span s = judgeReturn (around.findSome? Enclosure.body?) actual span s := by
  have hstep : checkReturn actual span s = judgeBy s.returns actual span s := rfl
  rw [hstep, h.returns, ← List.head?_filterMap]
  cases around.filterMap Enclosure.body? with
  | nil => rfl
  | cons f fs =>
    rw [judgeReturn, List.head?_cons, Option.map_some, List.map_cons]
    cases f.returnTypes <;> rfl

section Walk

variable (scopes : Environment) (limit : Nat)

theorem judges_jump (kind : Jump) (span : Span) (around : List Enclosure) :
    Judges scopes around [⟨around, .jump kind span⟩] (walkStatement limit (.jump kind span)) := by
  have hlook (env : Environment) (h : env.kinds = Enclosure.kinds scopes.kinds around) :
      env.inLoop = Environment.loopFirst (Enclosure.kinds scopes.kinds around) := congrArg Environment.loopFirst h
  rw [walkStatement]
  refine Complains.choose hlook (fun h => ?_) fun h => ?_
  · have hfound : complaints scopes.kinds [⟨around, .jump kind span⟩] = [] := by
      simp [complaints, Placement.complaint?, h]
    exact ((complains_closed _ _).pure _).cast hfound.symm
  · have hfound : complaints scopes.kinds [⟨around, .jump kind span⟩] = [⟨.jumpOutsideLoop kind, span⟩] := by
      simp [complaints, Placement.complaint?, h]
    exact (complains_complaint _ _ rfl).cast hfound.symm

variable {scopes}

/-- A `defer` is reported before what is deferred is looked at. -/
theorem judges_defer {e : Expression} {around : List Enclosure} (span : Span)
    (h : Judges scopes around (e.placements around) (infer limit 1 e)) :
    Judges scopes around (Statement.placements around (.defer e span)) (walkStatement limit (.defer e span)) := by
  have hlook (env : Environment) (h : env.kinds = Enclosure.kinds scopes.kinds around) :
      env.inFunction = (Enclosure.kinds scopes.kinds around).any fun k => k == .function := by
    rw [← h, Environment.kinds, List.any_map]
    rfl
  have hrest : Judges scopes around (e.placements around) (infer limit 1 e >>= fun _ => pure ()) := h.andPure _
  rw [walkStatement]
  refine Complains.choose hlook (fun h => ?_) fun h => ?_
  · have hfound : Placement.complaint? scopes.kinds ⟨around, .defer e span⟩ = none := by
      simp [Placement.complaint?, h]
    rw [Statement.placements, complaints, List.filterMap_cons_none hfound]
    exact hrest
  · have hfound : Placement.complaint? scopes.kinds ⟨around, .defer e span⟩ = some ⟨.deferOutsideFunction, span⟩ := by
      simp [Placement.complaint?, h]
    rw [Statement.placements, complaints, List.filterMap_cons_some hfound]
    exact (complains_complaint _ _ rfl).bind fun _ => hrest

/-- A `return` is reported if it is in no function's body. -/
theorem judges_checkReturn (value : Option Expression) (actual : Union) (span : Span) (around : List Enclosure) :
    Judges scopes around [⟨around, .return value span⟩] (checkReturn actual span) := by
  suffices hjudged : Judges scopes around [⟨around, .return value span⟩]
      (judgeReturn (around.findSome? Enclosure.body?) actual span) from fun s hs => by
    rw [checkReturn_of_isAt hs]
    exact hjudged s hs
  cases hbody : around.findSome? Enclosure.body? with
  | none =>
    have hfound : complaints scopes.kinds [⟨around, .return value span⟩] = [⟨.returnOutsideFunction, span⟩] := by
      simp [complaints, Placement.complaint?, Placement.stray?, Placement.function?, hbody]
    exact (complains_complaint _ _ rfl).cast hfound.symm
  | some f =>
    have hfound : complaints scopes.kinds [⟨around, .return value span⟩] = [] := by
      simp [complaints, Placement.complaint?, Placement.stray?, Placement.function?, hbody]
    refine Complains.cast ?_ hfound.symm
    rw [judgeReturn, Option.map_some]
    cases f.returnTypes with
    | none => exact (complains_closed _ _).pure _
    | some expected => exact (complains_closed _ _).requireMatch _ _ _ _

mutual

theorem judges_infer (step : Nat) : ∀ (e : Expression) (around : List Enclosure),
    Judges scopes around (e.placements around) (infer limit step e)
  | .identifier span name, around => by
    rw [infer]
    exact .visit step span ((complains_closed _ _).typeOfName span name)
  | .literal span value, around => by
    rw [infer]
    exact .visit step span ((complains_closed _ _).pure _)
  | .vector span elements, around => by
    rw [infer]
    exact .visit step span ((judges_inferAll elements around).andPure _)
  | .unary span operator operand, around => by
    rw [infer]
    exact .visit step span (judges_infer 1 operand around)
  | .binary span operator left right, around => by
    have hleft := judges_infer 0 left around
    have hright := judges_infer 1 right around
    unfold infer
    refine .visit step span ?_
    cases operator with
    | assign | leftAssign | increment | decrement =>
      refine hright.bind fun value => ?_
      cases left with
      | identifier targetSpan name => exact (complains_closed _ _).assignTo _ _ _ value
      | _ => exact hleft.andPure _
    | dollar | slot =>
      exact hleft.bind fun object => judges_leaf ((complains_closed _ _).typeOfAttribute object right)
    | namespaceAccess | internalAccess =>
      exact (complains_closed _ _).bind ((complains_closed _ _).checkExport left right) fun _ =>
        (complains_closed _ _).pure _
    | pipe | magrittrPipe => exact hleft.bind fun _ => hright
    | _ => exact hleft.bind fun types => hright.andPure _
  | .conditional span condition consequence none, around => by
    rw [infer]
    exact .visit step span ((judges_infer 1 condition around).bind fun _ =>
      (judges_walkBlock (e := .branch) rfl consequence around).bind fun _ => judges_leaf ((complains_closed _ _).pure _))
  | .conditional span condition consequence (some alternative), around => by
    rw [infer]
    exact .visit step span ((judges_infer 1 condition around).bind fun _ =>
      (judges_walkBlock (e := .branch) rfl consequence around).bind fun _ =>
        (judges_walkBlock (e := .branch) rfl alternative around).andPure _)
  | .forLoop span loopVariable iterable ⟨statements, blockSpan⟩, around => by
    rw [infer]
    exact .visit step span ((judges_infer 1 iterable around).bind fun types =>
      .behind ((complains_closed _ _).requireLoopVariable loopVariable types) fun _ =>
        (Judges.within (e := .loop) rfl (.behind ((complains_closed _ _).bindVariable _) fun _ =>
          judges_walkStatements statements (.loop :: around))).andPure _)
  | .whileLoop span condition body, around => by
    rw [infer]
    exact .visit step span ((judges_infer 1 condition around).bind fun _ =>
      (judges_walkBlock (e := .loop) rfl body around).andPure _)
  | .repeatLoop span body, around => by
    rw [infer]
    exact .visit step span ((judges_walkBlock (e := .loop) rfl body around).andPure _)
  | .function span literal, around => by
    rw [infer]
    exact .visit step span ((judges_walkFunction literal around).andPure _)
  | .call span callee arguments, around => by
    have hcallee := judges_infer 0 callee around
    have harguments := judges_inferArguments arguments around
    unfold infer
    refine .visit step span ?_
    cases callee with
    | identifier nameSpan name =>
      exact Judges.behind ((complains_closed _ _).look fun env _ => env) fun env => harguments.andNothing fun types =>
        (complains_closed _ _).finishCall _ _ _
    | _ => exact hcallee.bind fun _ => harguments.andPure _
  | .index span object arguments double, around => by
    rw [infer]
    exact .visit step span ((judges_infer 0 object around).bind fun _ =>
      (judges_inferArguments arguments around).andPure _)

theorem judges_inferAll : ∀ (es : List Expression) (around : List Enclosure),
    Judges scopes around (placementsOfElements around es) (inferAll limit es)
  | [], around => by
    rw [inferAll]
    exact judges_leaf ((complains_closed _ _).pure _)
  | e :: rest, around => by
    rw [inferAll]
    exact (judges_infer 1 e around).bind fun _ => (judges_inferAll rest around).andPure _

theorem judges_inferArguments : ∀ (arguments : List Argument) (around : List Enclosure),
    Judges scopes around (placementsOfArguments around arguments) (inferArguments limit arguments)
  | [], around => by
    rw [inferArguments]
    exact judges_leaf ((complains_closed _ _).pure _)
  | ⟨name, value⟩ :: rest, around => by
    rw [inferArguments]
    exact (judges_infer 1 value around).bind fun _ => (judges_inferArguments rest around).andPure _

theorem judges_walkParameters : ∀ (parameters : List Parameter) (around : List Enclosure),
    Judges scopes around (placementsOfParameters around parameters) (walkParameters limit parameters)
  | [], around => by
    rw [walkParameters]
    exact judges_leaf ((complains_closed _ _).pure _)
  | ⟨name, span, types, none⟩ :: rest, around => by
    rw [walkParameters]
    exact .behind ((complains_closed _ _).requireSignature types span) fun _ =>
      Complains.ite (judges_walkParameters rest around)
        (.behind ((complains_closed _ _).bindVariable _) fun _ => judges_walkParameters rest around)
  | ⟨name, span, types, some value⟩ :: rest, around => by
    rw [walkParameters]
    exact .behind ((complains_closed _ _).requireSignature types span) fun _ =>
      (judges_infer 1 value around).bind fun actual =>
        .behind ((complains_closed _ _).requireMatch _ _ _ _) fun _ =>
          Complains.ite (judges_walkParameters rest around)
            (.behind ((complains_closed _ _).bindVariable _) fun _ => judges_walkParameters rest around)

theorem judges_walkFunction : ∀ (f : FunctionLiteral) (around : List Enclosure),
    Judges scopes around (f.placements around) (walkFunction limit f)
  | ⟨name, nameSpan, receiver, parameters, returnTypes, ⟨statements, blockSpan⟩, decorators⟩, around => by
    rw [walkFunction]
    exact .behind ((complains_closed _ _).declareFunction _) fun _ =>
      .behind ((complains_closed _ _).requireSignature _ _) fun _ =>
        -- the parameters and the body are at different places, but in one frame
        Judges.within rfl (.behind ((complains_closed _ _).declareReceiver receiver) fun _ =>
          .bind (judges_walkParameters parameters (.parameters _ :: around)) fun _ =>
            Complains.returning (judges_walkStatements statements (.body _ :: around)))

theorem judges_walkBlock {e : Enclosure} (hbody : e.body? = none) : ∀ (b : Block) (around : List Enclosure),
    Judges scopes around (b.placements (e :: around)) (walkBlock limit e.kind b)
  | ⟨statements, span⟩, around => by
    rw [walkBlock]
    exact .within hbody (judges_walkStatements statements (e :: around))

theorem judges_walkStatements : ∀ (statements : List Statement) (around : List Enclosure),
    Judges scopes around (placementsOfStatements around statements) (walkStatements limit statements)
  | [], around => by
    rw [walkStatements]
    exact judges_leaf ((complains_closed _ _).pure _)
  | s :: rest, around => by
    rw [walkStatements]
    exact (judges_walkStatement s around).bind fun _ => judges_walkStatements rest around

theorem judges_walkStatement : ∀ (s : Statement) (around : List Enclosure),
    Judges scopes around (s.placements around) (walkStatement limit s)
  | .binding constant target (some value), around => by
    rw [walkStatement]
    exact (judges_infer 1 value around).andNothing fun _ => (complains_closed _ _).declareBinding _ _ _
  | .binding constant target none, around => by
    rw [walkStatement]
    exact (complains_closed _ _).declareBinding _ _ _
  | .typeDeclaration d, around => by
    rw [walkStatement]
    exact complains_declareType _
  | .return (some value) span, around => by
    rw [walkStatement]
    exact (judges_infer 1 value around).bind fun actual => judges_checkReturn (some value) actual span around
  | .return none span, around => by
    rw [walkStatement]
    exact judges_checkReturn none _ span around
  | .defer e span, around => judges_defer limit span (judges_infer 1 e around)
  | .jump kind span, around => judges_jump scopes limit kind span around
  | .block block, around => by
    rw [walkStatement]
    exact judges_walkBlock (e := .block) rfl block around
  | .comment text roxygen span, around => by
    rw [walkStatement]
    exact (complains_closed _ _).pure _
  | .expression e, around => by
    rw [walkStatement]
    exact (judges_infer 1 e around).andPure _

end

end Walk

end Check
namespace Program

/-- What a walk that reports no nesting reports of where statements stand, it reports of those that are listed, in their
order. -/
theorem walk_complains (program : Program) (environment : Environment) (packages : Option PackageCache) (limit : Nat)
    (hquiet : ∀ r ∈ (program.walk environment packages limit).reports, r.finding.isNesting = false) :
    (program.walk environment packages limit).reports.filter (fun r => r.finding.isOfPlace) =
      complaints environment.kinds program.placements := by
  let start : CheckState := { environment, packages }
  have hstart : start.IsAt environment [] := ⟨rfl, rfl⟩
  obtain ⟨-, -, hreports⟩ := Check.judges_walkStatements limit program.statements [] start hstart
  have hfound := hreports (not_reportsNesting hquiet)
  rw [Check.complaintsIn, Check.complaintsIn, List.filter_nil, List.append_nil] at hfound
  show (Check.walkStatements limit program.statements start).2.reports.reverse.filter _ = _
  rw [List.filter_reverse, hfound, List.reverse_reverse]
  rfl

/-- So are the reports of `return`s those of every listed one that is in no function's body. -/
theorem walk_strays (program : Program) (environment : Environment) (packages : Option PackageCache) (limit : Nat)
    (hquiet : ∀ r ∈ (program.walk environment packages limit).reports, r.finding.isNesting = false) :
    (program.walk environment packages limit).reports.filter (fun r => r.finding.isStray) =
      strays program.placements := by
  rw [← filter_isOfPlace Finding.isOfPlace_of_isStray, program.walk_complains environment packages limit hquiet]
  exact filter_complaints Placement.filter_complaint? _

/-- **Which statements are reported for where they stand.**  Every statement that the walk of a program comes by is
listed with what is open around it.  If a walk outside of loops and functions reports no nesting, then what it reports of
where statements stand is, in this order and as often as they are listed: every `break` and `next` whose innermost
enclosure among loops' bodies and functions is a function or not there, and every `defer` that no function encloses, each
at its span. -/
theorem walk_misplaces (program : Program) (environment : Environment) (packages : Option PackageCache) (limit : Nat)
    (hloop : environment.inLoop = false) (hfunction : environment.inFunction = false)
    (hquiet : ∀ r ∈ (program.walk environment packages limit).reports, r.finding.isNesting = false) :
    (program.walk environment packages limit).reports.filter (fun r => r.finding.isMisplacement) =
        misplacements program.placements ∧
      (∀ around s, ⟨around, s⟩ ∈ program.placements ↔ Stands program.statements around (.statement s)) ∧
      ∀ r ∈ misplacements program.placements, r.finding.severity = .fatal := by
  have houtside : Outside environment.kinds := ⟨hloop, by rwa [Environment.kinds, List.any_map]⟩
  have hfilter : (program.walk environment packages limit).reports.filter (fun r => r.finding.isMisplacement) =
      misplacements program.placements := by
    rw [← filter_isOfPlace Finding.isOfPlace_of_isMisplacement, program.walk_complains environment packages limit hquiet]
    exact filter_complaints houtside.filter_complaint? _
  refine ⟨hfilter, fun _ _ => program.mem_placements_iff, fun r hr => ?_⟩
  rw [← hfilter] at hr
  exact r.finding.severity_of_isMisplacement (List.mem_filter.1 hr).2

/-- A `break` in the condition of a loop is out of place, and so are a `next` in a function inside the loop and a `defer`
behind it; a `next` in the loop and a `defer` in the function are not. -/
theorem walk_misplaces_loop :
    let source : SourceFile := { name := "m.vp", text :=
      "while (if (TRUE) \x7b break \x7d) \x7b\n  next\n  func() \x7b\n    next\n    defer f()\n  \x7d\n\x7d\ndefer f()\n" }
    let program := (ParsedProgram.ofTokens source.tokens 8).program
    let span (line first last : Nat) : Span := ⟨"m.vp", ⟨line, first⟩, ⟨line, last⟩⟩
    (∀ r ∈ (program.walk .initial none 8).reports, r.finding.isNesting = false) ∧
      (program.walk .initial none 8).reports.filter (fun r => r.finding.isMisplacement) =
        [⟨.jumpOutsideLoop .break, span 1 20 24⟩, ⟨.jumpOutsideLoop .next, span 4 5 8⟩,
          ⟨.deferOutsideFunction, span 8 1 9⟩] := by
  intro source program span
  have hlisted : misplacements program.placements = [⟨.jumpOutsideLoop .break, span 1 20 24⟩,
      ⟨.jumpOutsideLoop .next, span 4 5 8⟩, ⟨.deferOutsideFunction, span 8 1 9⟩] := by
    subst program source span
    cbv
  have hreports : (program.walk .initial none 8).reports = misplacements program.placements := by
    rw [hlisted]
    subst program source span
    cbv
  have hquiet : ∀ r ∈ (program.walk .initial none 8).reports, r.finding.isNesting = false := by
    rw [hreports, hlisted]
    decide
  exact ⟨hquiet, (walk_misplaces program .initial none 8 rfl rfl hquiet).1.trans hlisted⟩

/-- The operands of `::` are not looked into, so a `break` in one of them is not reported, although no loop is around. -/
theorem walk_passes_break_by :
    let source : SourceFile := { name := "m.vp", text := "if (TRUE) \x7b\n  break\n\x7d::x\n" }
    let parsed := ParsedProgram.ofTokens source.tokens 8
    let span (first last : Position) : Span := ⟨"m.vp", first, last⟩
    let branch : Expression := .conditional (span ⟨1, 1⟩ ⟨3, 1⟩) (.literal (span ⟨1, 5⟩ ⟨1, 8⟩) (.boolean true))
      ⟨[.jump .break (span ⟨2, 3⟩ ⟨2, 7⟩)], span ⟨1, 11⟩ ⟨3, 1⟩⟩ none
    parsed.errors = [] ∧
      parsed.program.statements = [.expression (.binary (span ⟨1, 1⟩ ⟨3, 4⟩) .namespaceAccess branch
        (.identifier (span ⟨3, 4⟩ ⟨3, 4⟩) "x"))] ∧
      (parsed.program.walk .initial none 8).reports = [] := by
  intro source parsed span branch
  subst parsed source span branch
  cbv

end Program
end UnionScript
