import UnionScript.Proofs.Leaves
/-!
# Course — the states a walk passes through

A walk goes from its first state to its last one by single acts: it reports, asks for a package, changes the scopes, goes
a level down or files a type and comes back, enters a function or leaves it.  The states it passes through are those
after some of its acts (`CheckState.after`).  Which acts a step performs is told by the course that its last state has
kept (`Performs`), so there are no others (`Performs.unique`); and it follows the way the step is put together, so the
acts of a walk are those of its parts, one after the other.
-/
namespace UnionScript

/-! ## Acts -/

/-- The state after some acts, the first one first. -/
def CheckState.after (s : CheckState) (acts : List Act) : CheckState := acts.foldl Act.apply s

@[simp] theorem CheckState.after_nil (s : CheckState) : s.after [] = s := rfl

theorem CheckState.after_cons (s : CheckState) (a : Act) (acts : List Act) :
    s.after (a :: acts) = (a.apply s).after acts := rfl

theorem CheckState.after_append (s : CheckState) (acts more : List Act) :
    s.after (acts ++ more) = (s.after acts).after more := List.foldl_append

/-- The acts are kept, the latest first. -/
theorem CheckState.course_after (acts : List Act) : ∀ s : CheckState, (s.after acts).course = acts.reverse ++ s.course := by
  induction acts with
  | nil => exact fun s => rfl
  | cons a acts ih =>
    intro s
    rw [after_cons, ih, List.reverse_cons, List.append_assoc]
    rfl

/-- An act that may be performed in some state as far as types go: a type is declared under a name that is free, and is
none of the built-in ones. -/
def Act.Admissible (s : CheckState) : Act → Prop
  | .change (.type t) => s.environment.findType? t.name = none ∧ t.builtin = false
  | _ => True

/-- Acts each of which may be performed where it is. -/
def Act.AllAdmissible (s : CheckState) : List Act → Prop
  | [] => True
  | a :: acts => a.Admissible s ∧ AllAdmissible (a.apply s) acts

theorem Act.allAdmissible_append {acts more : List Act} : ∀ {s : CheckState},
    AllAdmissible s (acts ++ more) ↔ AllAdmissible s acts ∧ AllAdmissible (s.after acts) more := by
  induction acts with
  | nil => exact fun {s} => ⟨fun h => ⟨trivial, h⟩, And.right⟩
  | cons a acts ih => exact fun {s} => by rw [List.cons_append, AllAdmissible, AllAdmissible, ih, and_assoc]; rfl

/-! ## Steps that perform them -/

namespace Check

variable {α β : Type}

/-- A step performs some acts from a state: those that it adds to the course, and they account for all it does. -/
structure Performs (step : Check α) (s : CheckState) (acts : List Act) : Prop where
  course : (step s).2.course = acts.reverse ++ s.course
  after_eq : s.after acts = (step s).2

namespace Performs

variable {step : Check α} {s : CheckState} {acts more : List Act}

theorem ofAfter (h : s.after acts = (step s).2) : Performs step s acts := ⟨h ▸ CheckState.course_after acts s, h⟩

/-- **The acts of a step are told by the state it ends in.** -/
theorem unique (h : Performs step s acts) (h' : Performs step s more) : acts = more :=
  List.reverse_inj.1 (List.append_cancel_right (h.course.symm.trans h'.course))

/-- From a state that has kept none, the acts of a step are the whole course. -/
theorem course_eq (h : Performs step s acts) (hs : s.course = []) : (step s).2.course.reverse = acts := by
  rw [h.course, hs, List.append_nil, List.reverse_reverse]

/-- Behind a step on its way, another one goes on with the acts that follow. -/
theorem inside {pre mid post : List Act} {onTheWay : Check β} (h : Performs step s (pre ++ (mid ++ post)))
    (hmid : Performs onTheWay (s.after pre) mid) : (step s).2 = (onTheWay (s.after pre)).2.after post := by
  rw [← h.after_eq, CheckState.after_append, CheckState.after_append, hmid.after_eq]

/-- A step that only looks performs none. -/
theorem look (f : CheckState → α) (s : CheckState) : Performs (fun s => (f s, s)) s [] := ofAfter rfl

/-- A step that is a single act performs this one. -/
theorem act (f : CheckState → α) (a : CheckState → Act) (s : CheckState) :
    Performs (fun s => (f s, (a s).apply s)) s [a s] := ofAfter rfl

theorem perform (a : Act) (s : CheckState) : Performs (perform a) s [a] := act (fun _ => ()) (fun _ => a) s

/-- A step that is put together of others performs theirs. -/
theorem bind {next : α → Check β} (h : Performs step s acts) (hnext : Performs (next (step s).1) (step s).2 more) :
    Performs (step >>= next) s (acts ++ more) := ofAfter (by rw [CheckState.after_append, h.after_eq, hnext.after_eq]; rfl)

end Performs

/-- A step that performs acts which may be performed. -/
def Proceeds (step : Check α) : Prop := ∀ s, ∃ acts, Performs step s acts ∧ Act.AllAdmissible s acts

theorem proceeds_look (f : CheckState → α) : Proceeds fun s => (f s, s) := fun s => ⟨[], .look f s, trivial⟩

/-- A single act that declares no type may be performed anywhere. -/
theorem proceeds_act (f : CheckState → α) (a : CheckState → Act) (h : ∀ s, (a s).Admissible s) :
    Proceeds fun s => (f s, (a s).apply s) := fun s => ⟨[a s], .act f a s, h s, trivial⟩

theorem proceeds_bind {step : Check α} {next : α → Check β} (h : Proceeds step) (hnext : ∀ a, Proceeds (next a)) :
    Proceeds (step >>= next) := fun s => by
  obtain ⟨acts, hacts, hadmissible⟩ := h s
  obtain ⟨more, hmore, hadmissible'⟩ := hnext (step s).1 (step s).2
  exact ⟨acts ++ more, .bind hacts hmore, Act.allAdmissible_append.2 ⟨hadmissible, hacts.after_eq ▸ hadmissible'⟩⟩

/-- A step that looks at the scopes first. -/
theorem proceeds_environment {next : Environment → Check α}
    (h : ∀ s, ∃ acts, Performs (next s.environment) s acts ∧ Act.AllAdmissible s acts) : Proceeds (environment >>= next) :=
  fun s => let ⟨acts, hacts, hadmissible⟩ := h s
    ⟨[] ++ acts, .bind (.look CheckState.environment s) hacts, hadmissible⟩

theorem proceeds_perform (a : Act) (h : ∀ s, a.Admissible s) : Proceeds (perform a) :=
  proceeds_act (fun _ => ()) (fun _ => a) h

theorem proceeds_report (finding : Finding) (span : Span) : Proceeds (report finding span) :=
  proceeds_perform _ fun _ => trivial

/-- What is reported of the alternatives that cannot be resolved, the latest first. -/
def undefinedReports (types : Union) (span : Span) (s : CheckState) : List Report :=
  ((types.alternatives.filter fun t => !s.environment.isDefined t).map fun t => ⟨.typeUndefined t.name, span⟩).reverse

theorem proceeds_requireDefined (types : Union) (span : Span) : Proceeds (requireDefined types span) :=
  proceeds_act (fun s => (types.alternatives.filter fun t => !s.environment.isDefined t).isEmpty)
    (fun s => .report (undefinedReports types span s)) fun _ => trivial

theorem proceeds_package? (name : String) : Proceeds (package? name) :=
  proceeds_act (fun s => (package? name s).1) (fun _ => .ask name) fun _ => trivial

theorem proceeds_change (c : Environment.Change) (h : ∀ s, (Act.change c).Admissible s) : Proceeds (change c) :=
  proceeds_perform _ h

theorem proceeds_closed : LeafClosed fun {_} step => Proceeds step where
  look f := proceeds_look fun s => f s.environment s.returns
  bind := proceeds_bind
  report finding span _ := proceeds_report finding span
  package? := proceeds_package?
  requireDefined := proceeds_requireDefined
  bindVariable v := proceeds_change (.variable v) fun _ => trivial
  bindFunction g := proceeds_change (.function g) fun _ => trivial

/-- A type is declared where its name was found to be free. -/
theorem proceeds_declareType (d : TypeDeclaration) : Proceeds (declareType d) := by
  refine proceeds_environment fun s => ?_
  cases hfree : s.environment.findType? d.name with
  | some existing => exact proceeds_report _ _ s
  | none =>
    obtain ⟨acts, hacts, hadmissible⟩ := proceeds_bind (proceeds_requireDefined d.types d.span)
      (fun _ => proceeds_closed.requireAttributes d.attributes) ((Act.change (.type (entryOf d))).apply s)
    exact ⟨_, .bind (.perform (.change (.type (entryOf d))) s) hacts, ⟨hfree, rfl⟩, hadmissible⟩

theorem proceeds_visit {limit : Nat} {body : Check Union} (step : Nat) (span : Span) (h : Proceeds body) :
    Proceeds (visit limit step span body) := by
  refine proceeds_bind (proceeds_look id) fun s => ?_
  split
  · exact proceeds_bind (proceeds_report _ _) fun _ => proceeds_look fun _ => Union.any
  · refine proceeds_bind (proceeds_perform (.descend step) fun _ => trivial) fun _ => proceeds_bind h fun inferred => ?_
    let types := if inferred.isEmpty then Union.any else inferred
    exact proceeds_bind (proceeds_perform (.file step span types) fun _ => trivial) fun _ => proceeds_look fun _ => types

theorem proceeds_within {body : Check Unit} (kind : FrameKind) (h : Proceeds body) : Proceeds (within kind body) :=
  proceeds_bind (proceeds_change (.push kind) fun _ => trivial) fun _ =>
    proceeds_bind h fun _ => proceeds_change .pop fun _ => trivial

theorem proceeds_returning {body : Check Unit} (types : Option Union) (h : Proceeds body) :
    Proceeds (returning types body) :=
  proceeds_bind (proceeds_perform (.enter types) fun _ => trivial) fun _ =>
    proceeds_bind h fun _ => proceeds_perform .leave fun _ => trivial

/-- **Every walk performs acts that may be performed.** -/
theorem proceeds_walk (limit : Nat) : WalkClosed limit fun _ {_} step => Proceeds step :=
  proceeds_closed.walkClosed proceeds_report proceeds_declareType proceeds_visit proceeds_within proceeds_returning

end Check
end UnionScript
