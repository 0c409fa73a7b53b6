import UnionScript.Proofs.Caching
import UnionScript.Proofs.Isolation
/-!
# Answering — a walk knows of packages what it is answered

All a walk learns of its package cache are the answers to what it asks.  So it does the same with any two caches that
answer alike whatever they are asked for (`Program.walk_of_answersAlike`).  A cache over a static source answers alike
for good: whatever a walk asked it, it answers as it did at the start (`answersAlike_of_static`).
-/
namespace UnionScript
namespace PackageCache

/-! ## Answers -/

/-- What is known of a package, if there is a cache. -/
def answered (packages : Option PackageCache) (name : String) : Option Package :=
  packages.bind fun cache => (cache.get name).1

/-- The cache, if there is one, when it has been asked for some packages. -/
def askedFor (packages : Option PackageCache) (names : List String) : Option PackageCache :=
  packages.map fun cache => cache.after (names.map .get)

/-- Two caches that give the same answers, whatever they are asked for and were asked for before. -/
def AnswersAlike (packages packages' : Option PackageCache) : Prop :=
  ∀ names name, answered (askedFor packages names) name = answered (askedFor packages' names) name

variable {packages packages' : Option PackageCache}

theorem askedFor_cons (packages : Option PackageCache) (name : String) (names : List String) :
    askedFor packages (name :: names) = askedFor (packages.map fun cache => (cache.get name).2) names := by
  cases packages <;> rfl

theorem AnswersAlike.answered (h : AnswersAlike packages packages') (name : String) :
    answered packages name = answered packages' name := by
  have hnow := h [] name
  cases packages <;> cases packages' <;> exact hnow

/-- Caches that answer alike do so still when both have been asked for a package. -/
theorem AnswersAlike.ask (h : AnswersAlike packages packages') (name : String) :
    AnswersAlike (packages.map fun cache => (cache.get name).2) (packages'.map fun cache => (cache.get name).2) :=
  fun names asked => by rw [← askedFor_cons, ← askedFor_cons]; exact h (name :: names) asked

/-! ## Static sources -/

theorem IsStatic.get_after {cache : PackageCache} (h : cache.IsStatic) (name : String) : ∀ names : List String,
    ((cache.after (names.map .get)).get name).1 = (cache.get name).1
  | [] => rfl
  | asked :: names => by
    rw [List.map_cons, after_cons]
    exact ((h.get asked).get_after name names).trans (h.get_get asked name)

theorem answered_askedFor (h : ∀ cache ∈ packages, cache.IsStatic) (names : List String) :
    answered (askedFor packages names) = answered packages := by
  cases packages with
  | none => rfl
  | some cache => exact funext fun name => (h cache rfl).get_after name names

/-- Caches over static sources answer alike once they give the same answers now. -/
theorem answersAlike_of_static (h : ∀ cache ∈ packages, cache.IsStatic) (h' : ∀ cache ∈ packages', cache.IsStatic)
    (heq : answered packages = answered packages') : AnswersAlike packages packages' := fun names name => by
  rw [answered_askedFor h, answered_askedFor h', heq]

end PackageCache

open PackageCache (AnswersAlike)

/-! ## States -/

/-- Two states that differ in caches which answer alike, and in what was logged and done. -/
structure CheckState.Echoes (s s' : CheckState) : Prop where
  environment : s.environment = s'.environment
  packages : AnswersAlike s.packages s'.packages
  reports : s.reports = s'.reports
  types : s.types = s'.types
  returns : s.returns = s'.returns
  depth : s.depth = s'.depth

/-- An act keeps it so. -/
theorem CheckState.Echoes.apply {s s' : CheckState} (h : s.Echoes s') : ∀ a : Act, (a.apply s).Echoes (a.apply s')
  | .report rs => { h with reports := congrArg (rs ++ ·) h.reports }
  | .ask name => { h with packages := h.packages.ask name }
  | .change c => { h with environment := congrArg (Environment.apply · c) h.environment }
  | .descend step => { h with depth := congrArg (· + step) h.depth }
  | .file step _ _ => { h with types := congrArg (_ :: ·) h.types, depth := congrArg (· - step) h.depth }
  | .enter types => { h with returns := congrArg (types :: ·) h.returns }
  | .leave => { h with returns := congrArg List.tail h.returns }

namespace Check

variable {α β : Type}

/-- A step that knows of packages what it is answered only. -/
def Echoed (step : Check α) : Prop :=
  ∀ s s', s.Echoes s' → (step s).1 = (step s').1 ∧ (step s).2.Echoes (step s').2

theorem echoed_bind {step : Check α} {next : α → Check β} (h : Echoed step) (hnext : ∀ a, Echoed (next a)) :
    Echoed (step >>= next) := by
  intro s s' hs
  obtain ⟨hvalue, hstate⟩ := h s s' hs
  have hrest := hnext (step s).1 _ _ hstate
  show (next (step s).1 (step s).2).1 = (next (step s').1 (step s').2).1 ∧
    (next (step s).1 (step s).2).2.Echoes (next (step s').1 (step s').2).2
  rwa [← hvalue]

theorem echoed_perform (a : Act) : Echoed (perform a) := fun _ _ hs => ⟨rfl, hs.apply a⟩

theorem echoed_report (finding : Finding) (span : Span) : Echoed (report finding span) := echoed_perform _

theorem echoed_change (c : Environment.Change) : Echoed (change c) := echoed_perform _

theorem echoed_requireDefined (types : Union) (span : Span) : Echoed (requireDefined types span) := by
  intro s s' hs
  unfold requireDefined
  rw [hs.environment]
  exact ⟨rfl, hs.apply _⟩

theorem echoed_package? (name : String) : Echoed (package? name) :=
  fun _ _ hs => ⟨hs.packages.answered name, hs.apply _⟩

theorem echoed_closed : LeafClosed fun {_} step => Echoed step where
  look f s s' hs := ⟨show f s.environment s.returns = f s'.environment s'.returns by
    rw [hs.environment, hs.returns], hs⟩
  bind := echoed_bind
  report finding span _ := echoed_report finding span
  package? := echoed_package?
  requireDefined := echoed_requireDefined
  bindVariable _ := echoed_change _
  bindFunction _ := echoed_change _

theorem echoed_declareType (d : TypeDeclaration) : Echoed (declareType d) :=
  echoed_closed.environment fun env => by
    split
    · exact echoed_report _ _
    · exact echoed_bind (echoed_change _) fun _ => echoed_bind (echoed_requireDefined _ _) fun _ =>
        echoed_closed.requireAttributes _

theorem echoed_visit {limit : Nat} {body : Check Union} (step : Nat) (span : Span) (h : Echoed body) :
    Echoed (visit limit step span body) := by
  intro s s' hs
  rw [visit_eq, visit_eq, ← hs.depth]
  split
  · exact ⟨rfl, hs.apply _⟩
  · obtain ⟨hvalue, hstate⟩ := h _ _ (hs.apply (.descend step))
    dsimp only
    rw [hvalue]
    exact ⟨rfl, hstate.apply _⟩

theorem echoed_within {body : Check Unit} (kind : FrameKind) (h : Echoed body) : Echoed (within kind body) :=
  echoed_bind (echoed_change _) fun _ => echoed_bind h fun _ => echoed_change _

theorem echoed_returning {body : Check Unit} (types : Option Union) (h : Echoed body) :
    Echoed (returning types body) :=
  echoed_bind (echoed_perform _) fun _ => echoed_bind h fun _ => echoed_perform _

/-- **A walk knows of packages what it is answered only.** -/
theorem echoed_walk (limit : Nat) : WalkClosed limit fun _ {_} step => Echoed step :=
  echoed_closed.walkClosed echoed_report echoed_declareType echoed_visit echoed_within echoed_returning

end Check

namespace Program

variable {packages packages' : Option PackageCache}

/-- **Walks with caches that answer alike come out the same**, and leave caches that answer alike. -/
theorem walk_of_answersAlike (program : Program) (env : Environment) (limit : Nat) (h : AnswersAlike packages packages') :
    let out := program.walk env packages limit
    let out' := program.walk env packages' limit
    out.environment = out'.environment ∧ out.types = out'.types ∧ out.reports = out'.reports ∧
      AnswersAlike out.packages out'.packages := by
  let s : CheckState := { environment := env, packages }
  let s' : CheckState := { environment := env, packages := packages' }
  have hs : s.Echoes s' := ⟨rfl, h, rfl, rfl, rfl, rfl⟩
  obtain ⟨-, hout⟩ := (Check.echoed_walk limit).walkStatements program.statements s s' hs
  exact ⟨hout.environment, hout.types, congrArg List.reverse hout.reports, hout.packages⟩

/-- A walk leaves a cache over a static source to answer as it did. -/
theorem walk_of_static (program : Program) (env : Environment) (limit : Nat)
    (h : ∀ cache ∈ packages, cache.IsStatic) :
    let out := program.walk env packages limit
    PackageCache.answered out.packages = PackageCache.answered packages ∧ ∀ cache ∈ out.packages, cache.IsStatic :=
  CheckState.IsStatic.ofEffect ((Check.does_closed limit).walkStatements program.statements
    { environment := env, packages }) h

end Program
end UnionScript
