import UnionScript.Proofs.Annotations
import UnionScript.Proofs.Upholding
/-!
# Integrity — nothing mentions a type that is out of scope

A walk that reports nothing fatal never leaves a union behind that mentions a type from nowhere: not in a scope, and not
among the types it infers.  What is declared is looked up before or after it is declared, and would have been reported;
what is inferred is put together of what the scopes hold.

Functions are registered before their parameters are looked up, in a frame of their own.  That frame declares no types
while this happens, so what was found there is in scope where the function is registered (`known_of_walkFunction`).
-/
namespace UnionScript
namespace Check

variable {limit : Nat} {s : CheckState} {env : Environment}

/-! ## What the scopes answer -/

theorem soundAmong_any (h : env.WellScoped) : Union.any.SoundAmong env.types :=
  Union.soundAmong_named (h.builtin_known (by decide))

theorem exists_frame_of_findVariable? {name : String} {v : Variable} (h : env.findVariable? name = some v) :
    ∃ f ∈ env.frames, v.types ∈ f.unions := by
  obtain ⟨f, hf, hv⟩ := List.exists_of_findSome?_eq_some h
  exact ⟨f, hf, Frame.mem_unions.2 (.inl ⟨v, List.mem_of_find?_eq_some hv, rfl⟩)⟩

theorem exists_frame_of_findFunction? {name : String} {g : FunctionSignature} (h : env.findFunction? name = some g) :
    ∃ f ∈ env.frames, ∀ u ∈ g.unions, u ∈ f.unions := by
  obtain ⟨f, hf, hg⟩ := List.exists_of_findSome?_eq_some h
  exact ⟨f, hf, fun u hu => Frame.mem_unions.2 (.inr (.inl ⟨g, List.mem_of_find?_eq_some hg, hu⟩))⟩

theorem exists_frame_of_findType? {name : String} {t : TypeEntry} (h : env.findType? name = some t) :
    ∃ f ∈ env.frames, t ∈ f.types ∧ ∀ u ∈ t.unions, u ∈ f.unions := by
  obtain ⟨f, hf, ht⟩ := List.exists_of_findSome?_eq_some h
  have hmem : t ∈ f.types := List.mem_of_find?_eq_some ht
  exact ⟨f, hf, hmem, fun u hu => Frame.mem_unions.2 (.inr (.inr ⟨t, hmem, hu⟩))⟩

theorem known_of_findType? {name : String} {t : TypeEntry} (h : env.findType? name = some t) :
    t ∈ env.types ∧ t.name = name := by
  obtain ⟨f, hf, ht, -⟩ := exists_frame_of_findType? h
  exact ⟨List.mem_flatMap.2 ⟨f, hf, ht⟩, Environment.findType?_name h⟩

theorem soundAmong_variable (h : env.WellScoped) {name : String} {v : Variable}
    (hv : env.findVariable? name = some v) : v.types.SoundAmong env.types := by
  obtain ⟨f, hf, hu⟩ := exists_frame_of_findVariable? hv
  exact h.soundAmong hf hu

theorem soundAmong_typeOfLiteral (h : env.WellScoped) (value : Literal) :
    (typeOfLiteral value).SoundAmong env.types := by
  unfold typeOfLiteral
  split <;> exact Union.soundAmong_named (h.builtin_known (by decide))

theorem soundAmong_typeOfName (h : s.environment.WellScoped) (span : Span) (name : String) :
    (typeOfName span name s).1.SoundAmong s.environment.types := by
  cases hv : s.environment.findVariable? name with
  | some v =>
    simp only [typeOfName, bind, StateT.bind, environment, hv]
    exact soundAmong_variable h hv
  | none =>
    cases ht : s.environment.findType? name with
    | some t =>
      simp only [typeOfName, bind, StateT.bind, environment, hv, ht]
      exact Union.soundAmong_named ⟨t, known_of_findType? ht⟩
    | none =>
      cases hg : s.environment.findFunction? name with
      | _ =>
        simp only [typeOfName, bind, StateT.bind, environment, hv, ht, hg]
        exact soundAmong_any h

theorem soundAmong_typeOfAttribute (h : s.environment.WellScoped) (object : Union) (access : Expression) :
    (typeOfAttribute object access s).1.SoundAmong s.environment.types := by
  have hattribute (name type : String) : (((s.environment.findType? type).bind fun entry =>
      entry.attribute? name).map TypedName.types).getD .any |>.SoundAmong s.environment.types := by
    cases hfound : (s.environment.findType? type).bind fun entry => entry.attribute? name with
    | none => exact soundAmong_any h
    | some a =>
      obtain ⟨t, ht, ha⟩ := Option.bind_eq_some_iff.1 hfound
      obtain ⟨f, hf, -, hunions⟩ := exists_frame_of_findType? ht
      exact h.soundAmong hf (hunions _ (List.mem_cons_of_mem _ (List.mem_map_of_mem (List.mem_of_find?_eq_some ha))))
  simp only [typeOfAttribute, bind, StateT.bind, environment]
  cases accessName? access with
  | none => exact soundAmong_any h
  | some name =>
    rcases object.alternatives with _ | ⟨t, _ | _⟩
    · exact soundAmong_any h
    · dsimp only
      split
      · exact soundAmong_any h
      · exact hattribute _ _
    · exact soundAmong_any h

theorem soundAmong_assignTo (h : s.environment.WellScoped) (span targetSpan : Span) (name : String) {value : Union}
    (hvalue : value.SoundAmong s.environment.types) :
    (assignTo span targetSpan name value s).1.SoundAmong s.environment.types := by
  cases hv : s.environment.findVariable? name with
  | none =>
    simp only [assignTo, bind, StateT.bind, environment, hv]
    exact hvalue
  | some v =>
    simp only [assignTo, bind, StateT.bind, environment, hv]
    cases v.constant <;> exact soundAmong_variable h hv

/-- A callee whose results are in scope. -/
def Callee.SoundAmong (types : List TypeEntry) : Callee → Prop
  | .constructor t => ∃ t' ∈ types, t'.name = t.name
  | .function g => ∀ u ∈ g.unions, u.SoundAmong types
  | _ => True

theorem soundAmong_calleeOf (h : env.WellScoped) (name : String) : (calleeOf env name).SoundAmong env.types := by
  unfold calleeOf
  split
  · trivial
  · rename_i _ ht
    exact ⟨_, (known_of_findType? ht).1, rfl⟩
  · rename_i hg
    obtain ⟨f, hf, hunions⟩ := exists_frame_of_findFunction? hg
    exact fun u hu => h.soundAmong hf (hunions u hu)
  · trivial

theorem soundAmong_finishCall (h : s.environment.WellScoped) (arguments : List Argument) (actuals : List Union) :
    ∀ {callee : Callee}, callee.SoundAmong s.environment.types →
      (finishCall arguments actuals callee s).1.SoundAmong s.environment.types
  | .value, _ => soundAmong_any h
  | .constructor t, ht => by
    simp only [finishCall]
    split <;> exact Union.soundAmong_named ht
  | .function g, hg => by
    show (g.returnTypes.getD .any).SoundAmong _
    cases hreturns : g.returnTypes with
    | none => exact soundAmong_any h
    | some u => exact hg u (List.mem_append_right _ (by simp [hreturns]))
  | .host, _ => soundAmong_any h

/-! ## Expressions and what is around them -/

section Parts

variable {types : List TypeEntry} {K : Prop}

/-- The answer of a step that only asks is in scope if it is so wherever something is known. -/
theorem Asks.sound {step : Check Union} (h : Asks step) (hsound : ∀ s, At types K s → s.environment.WellScoped →
    (step s).1.SoundAmong s.environment.types) : Upholds (At types K) step fun u => At types (K ∧ u.SoundAmong types) :=
  h.upholds fun s hs hscoped _ => hs.1 ▸ hsound s hs hscoped

/-- A union that is sound mentions only what is in scope, and nothing else need be known. -/
theorem Upholds.known {pre : CheckState → Prop} {step : Check Union}
    (h : Upholds pre step fun u => At types (K ∧ u.SoundAmong types)) :
    Upholds pre step fun u => At types (u.KnownAmong types) :=
  h.weaken fun _ _ hs => ⟨hs.1, hs.2.2.known⟩

theorem Upholds.frame {α : Type} {step : Check α} {Q : α → Prop}
    (h : Upholds (At types K) step fun a => At types (Q a)) : Upholds (At types K) step fun a => At types (K ∧ Q a) :=
  fun s =>
    let ⟨acts, hacts, hkeep⟩ := h s
    ⟨acts, hacts, fun hs hscoped hclean =>
      have hend := hkeep hs hscoped hclean
      ⟨hend.1, hend.2.1, hs.2, hend.2.2⟩⟩

theorem types_of_does {α : Type} {step : Check α} (h : Does limit .expression step) (s : CheckState) :
    (step s).2.environment.types = s.environment.types := by
  have hcontinues := CheckState.Continues.ofEffect (h s)
  rw [Environment.types_eq, Environment.types_eq, hcontinues.below, hcontinues.current.2.2.1]

/-- What walks like an expression leaves the types in scope as they are. -/
theorem Upholds.returns {α : Type} {step : Check α} (hdoes : Does limit .expression step)
    (h : Upholds (At types K) step fun _ _ => True) : Upholds (At types K) step fun _ => At types K := fun s =>
  let ⟨acts, hacts, hkeep⟩ := h s
  ⟨acts, hacts, fun hs hscoped hclean =>
    ⟨(hkeep hs hscoped hclean).1, (types_of_does hdoes s).trans hs.1, hs.2⟩⟩

/-- What is inferred is filed and answered, or stands for anything if nothing is. -/
theorem upholds_visit {body : Check Union} (step : Nat) (span : Span)
    (h : Upholds (At types K) body fun u => At types (u.KnownAmong types)) :
    Upholds (At types K) (visit limit step span body) fun u => At types (K ∧ u.SoundAmong types) := by
  refine (asks_look id).keeps.bind fun s => ?_
  split
  · exact (asks_report _ _).keeps.bind fun _ => (asks_closed.pure Union.any).upholds
      (Q := fun u : Union => u.SoundAmong types) fun s hs hscoped _ => hs.1 ▸ soundAmong_any hscoped
  · refine (asks_act (fun _ => ()) (fun _ => .descend step) (fun _ => trivial) fun _ => rfl).keeps.bind fun _ =>
      h.frame.bind fun inferred => ?_
    let u := if inferred.isEmpty then Union.any else inferred
    have hfile : Upholds (At types (K ∧ u.SoundAmong types))
        ((fun s => ((), (Act.file step span u).apply s) : Check Unit) >>= fun _ => pure u)
        fun v => At types (K ∧ v.SoundAmong types) :=
      (upholds_file step span And.right).bind fun _ =>
        upholds_pure (Q := fun v => K ∧ v.SoundAmong types) u fun _ hu => hu
    refine hfile.imp (fun s hs hscoped => ⟨hs.1, hs.2.1, ?_⟩) fun _ _ hu => hu
    show (if inferred.isEmpty then Union.any else inferred).SoundAmong types
    split
    · exact hs.1 ▸ soundAmong_any hscoped
    · rename_i hsome
      exact Union.soundAmong_of_known (Bool.eq_false_iff.2 hsome) hs.2.2

theorem upholds_within {body : Check Unit} (kind : FrameKind)
    (h : Upholds (At types K) body fun _ _ => True) : Upholds (At types K) (within kind body) fun _ _ => True := by
  have hpush : Upholds (At types K) (change (.push kind)) fun _ => At types K :=
    upholds_change _ fun s hs hscoped => ⟨hscoped.push kind, hs⟩
  exact hpush.bind fun _ => h.bind fun _ => upholds_change .pop fun s _ hscoped => ⟨hscoped.pop, trivial⟩

theorem upholds_returning {body : Check Unit} (returns : Option Union)
    (h : Upholds (fun _ => True) body fun _ _ => True) :
    Upholds (fun _ => True) (returning returns body) fun _ _ => True := by
  have henter : Asks fun s => ((), (Act.enter returns).apply s) :=
    asks_act (fun _ => ()) (fun _ => .enter returns) (fun _ => trivial) fun _ => rfl
  have hleave : Asks fun s => ((), Act.leave.apply s) :=
    asks_act (fun _ => ()) (fun _ => .leave) (fun _ => trivial) fun _ => rfl
  exact henter.silent.bind fun _ => h.bind fun _ => hleave.silent

/-! ### Declarations -/

/-- A type is declared before its members are looked up, so that it may mention itself. -/
theorem upholds_declareType {d : TypeDeclaration} (hsome : d.types.isEmpty = false)
    (hattributes : ∀ a ∈ d.attributes, a.types.isEmpty = false) :
    Upholds (fun _ => True) (declareType d) fun _ _ => True := by
  refine .environment fun s => ?_
  cases hfree : s.environment.findType? d.name with
  | some existing =>
    have hreport (finding : Finding) : Upholds (fun _ => True) (report finding d.span) fun _ _ => True :=
      (asks_report finding d.span).silent
    exact hreport _ s
  | none =>
    let declared := (Act.change (.type (entryOf d))).apply s
    have hrest : Asks (requireDefined d.types d.span >>= fun _ => requireAttributes d.attributes) :=
      asks_closed.bind (asks_closed.requireDefined _ _) fun _ => asks_closed.requireAttributes _
    obtain ⟨-, acts, hacts, hasks⟩ := hrest declared
    refine ⟨_, .bind (.perform (.change (.type (entryOf d))) s) hacts, fun _ hscoped hclean => ?_⟩
    have hclean' : (requireAttributes d.attributes (requireDefined d.types d.span declared).2).2.Clean := hclean
    have hmembers := known_of_requireDefined ((proceeds_closed.requireAttributes d.attributes).clean hclean')
    have hunions : ∀ u ∈ (entryOf d).unions, u.SoundAmong declared.environment.types := by
      refine List.forall_mem_cons.2 ⟨Union.soundAmong_of_known hsome hmembers, fun u hu => ?_⟩
      obtain ⟨a, ha, rfl⟩ := List.mem_map.1 hu
      exact Union.soundAmong_of_known (hattributes a ha) (known_of_requireAttributes hclean' a ha)
    have hdeclared : declared.environment.WellScoped := hscoped.declareType hunions
    exact ⟨⟨⟨fun _ _ _ hfile => (nomatch hfile), hdeclared⟩, allKeep_of_asks hasks hdeclared⟩, trivial⟩

theorem upholds_declareBinding {target : TypedName} (constant : Bool) (hsome : target.types.isEmpty = false)
    (actual : Option Union) : Upholds (At types K) (declareBinding constant target actual) fun _ _ => True := by
  have hdeclare : Upholds (At types (K ∧ target.types.KnownAmong types))
      (change (.variable { name := target.name, types := target.types, constant, span := target.span }))
      fun _ _ => True :=
    (upholds_bindVariable _ fun _ h => Union.soundAmong_of_known hsome h.2).weaken fun _ _ _ => trivial
  refine (asks_look CheckState.environment).keeps.bind fun env => ?_
  split
  · exact (asks_report _ _).silent
  · refine (upholds_requireDefined _ _).bind fun defined => ?_
    split
    · exact (asks_closed.requireMatch _ _ _ _).keeps.bind fun _ => hdeclare
    · exact hdeclare

/-- What a function is registered with mentions only some types. -/
structure SignatureKnown (types : List TypeEntry) (f : FunctionLiteral) : Prop where
  receiver : ∀ r ∈ f.receiver, r.types.KnownAmong types
  parameters : ∀ p ∈ f.parameters, ∀ u ∈ p.types, u.KnownAmong types
  returns : ∀ u ∈ f.returnTypes, u.KnownAmong types

/-- The types of a parameter are in scope if those written are; without one it may be anything. -/
theorem soundAmong_parameter (hbuiltin : HoldsBuiltin types) {signature : Option Union}
    (hsome : ∀ u ∈ signature, u.isEmpty = false)
    (hknown : ∀ u ∈ signature, u.KnownAmong types) :
    (signature.getD .any).SoundAmong types := by
  cases signature with
  | none => exact Union.soundAmong_named (hbuiltin _ (by decide))
  | some u => exact Union.soundAmong_of_known (hsome u rfl) (hknown u rfl)

theorem upholds_declareFunction {f : FunctionLiteral} (hannotated : f.Annotated) :
    Upholds (At types (SignatureKnown types f)) (declareFunction f) fun _ => At types (SignatureKnown types f) := by
  obtain ⟨-, hparameters, hreturns, -⟩ := FunctionLiteral.annotated_iff.1 hannotated
  unfold declareFunction
  split
  · exact (asks_closed.requireDefined _ _).keeps.bind fun _ => (asks_closed.pure ()).keeps
  · refine (asks_look CheckState.environment).keeps.bind fun env => ?_
    refine .ite (asks_report _ _).keeps (upholds_change _ fun s hs hscoped => ?_)
    refine ⟨hscoped.declareFunction fun u hu => ?_, ?_, hs.2⟩
    · rw [hs.1]
      rcases List.mem_append.1 hu with hu | hu
      · obtain ⟨signature, hsignature, rfl⟩ := List.mem_map.1 hu
        obtain ⟨p, hp, rfl⟩ := List.mem_map.1 hsignature
        exact soundAmong_parameter (holdsBuiltin hs hscoped) ((annotatedParameters_iff.1 hparameters p hp).1) (hs.2.parameters p hp)
      · exact Union.soundAmong_of_known (hreturns u (Option.mem_toList.1 hu)) (hs.2.returns u (Option.mem_toList.1 hu))
    · exact (s.environment.types_modifyCurrent_eq rfl).trans hs.1
  · exact (asks_closed.pure ()).keeps

/-- A parameter other than an ellipsis is declared in front of those behind it. -/
theorem upholds_declareParameter {name : String} {signature : Option Union} {span : Span} {next : Check Unit}
    (hsome : ∀ u ∈ signature, u.isEmpty = false) (hknown : K → ∀ u ∈ signature, u.KnownAmong types)
    (hnext : ∀ K, Upholds (At types K) next fun _ => At types K) :
    Upholds (At types K) (if name == ellipsisName then next else
      declareLocal name (signature.getD .any) span >>= fun _ => next) fun _ => At types K :=
  .ite (hnext K) ((upholds_bindVariable _ fun hbuiltin hK =>
    soundAmong_parameter hbuiltin hsome (hknown hK)).bind fun _ => hnext K)

theorem upholds_declareReceiver {receiver : Option TypedName} (hsome : ∀ r ∈ receiver, r.types.isEmpty = false)
    (hknown : K → ∀ r ∈ receiver, r.types.KnownAmong types) :
    Upholds (At types K) (declareReceiver receiver) fun _ => At types K := by
  cases receiver with
  | none => exact (asks_closed.pure ()).keeps
  | some r => exact upholds_bindVariable _ fun _ h => Union.soundAmong_of_known (hsome r rfl) (hknown h r rfl)

end Parts

/-! ### What a function is registered with -/

/-- A step that, if it reports nothing fatal, tells something of the types that are in scope in front of it. -/
def Tells {α : Type} (step : Check α) (Q : List TypeEntry → Prop) : Prop :=
  ∀ s, (step s).2.Clean → Q s.environment.types

namespace Tells

variable {α β : Type} {step : Check α} {next : α → Check β} {Q Q' : List TypeEntry → Prop}

theorem and (h : Tells step Q) (h' : Tells step Q') : Tells step fun types => Q types ∧ Q' types :=
  fun s hclean => ⟨h s hclean, h' s hclean⟩

/-- What the first step tells is told by both. -/
theorem first (h : Tells step Q) (hnext : ∀ a, Proceeds (next a)) : Tells (step >>= next) Q :=
  fun s hclean => h s ((hnext (step s).1).clean hclean)

/-- What the next step tells is told by both if the first one declares no types. -/
theorem later (hstep : ∀ s, (step s).2.environment.types = s.environment.types) (h : ∀ a, Tells (next a) Q) :
    Tells (step >>= next) Q :=
  fun s hclean => hstep s ▸ h (step s).1 (step s).2 hclean

theorem ite {c : Bool} {step' : Check α} (h : Tells step Q) (h' : Tells step' Q) :
    Tells (if c then step else step') Q := by
  cases c
  · exact h'
  · exact h

end Tells

theorem tells_requireSignature (signature : Option Union) (span : Span) :
    Tells (requireSignature signature span) fun types => ∀ u ∈ signature, u.KnownAmong types :=
  fun _ hclean => known_of_requireSignature hclean

theorem types_of_declareLocal (name : String) (u : Union) (span : Span) (s : CheckState) :
    (declareLocal name u span s).2.environment.types = s.environment.types :=
  s.environment.types_modifyCurrent_eq rfl

theorem types_of_declareReceiver (receiver : Option TypedName) (s : CheckState) :
    (declareReceiver receiver s).2.environment.types = s.environment.types := by
  cases receiver with
  | none => rfl
  | some r => exact types_of_declareLocal r.name r.types r.span s

theorem upholds_requireLoopVariable {types : List TypeEntry} {K : Prop} (loopVariable : TypedName) (iterable : Union) :
    Upholds (At types K) (requireLoopVariable loopVariable iterable) fun _ =>
      At types (K ∧ loopVariable.types.KnownAmong types) := by
  have htells : Tells (requireLoopVariable loopVariable iterable) fun types => loopVariable.types.KnownAmong types :=
    Tells.first (fun _ hclean => known_of_requireDefined hclean) fun _ =>
      AskClosed.ite (proceeds_closed.requireMatch _ _ _ _) (proceeds_closed.pure _)
  exact (asks_closed.requireLoopVariable loopVariable iterable).upholds
    (Q := fun _ => loopVariable.types.KnownAmong types) fun s hs _ hclean => hs.1 ▸ htells s hclean

/-- What is looked up in front of each parameter is in scope in front of all of them. -/
theorem tells_walkParameters (limit : Nat) : ∀ parameters : List Parameter,
    Tells (walkParameters limit parameters) fun types => ∀ p ∈ parameters, ∀ u ∈ p.types, u.KnownAmong types
  | [] => fun _ _ _ hp => absurd hp List.not_mem_nil
  | ⟨name, span, signature, default⟩ :: rest => by
    have hrest := tells_walkParameters limit rest
    have hdeclare {c : Bool} {u : Union} : Tells
        (if c then walkParameters limit rest else declareLocal name u span >>= fun _ => walkParameters limit rest)
        fun types => ∀ p ∈ rest, ∀ u ∈ p.types, u.KnownAmong types :=
      .ite hrest (.later (types_of_declareLocal _ _ _) fun _ => hrest)
    have hpasses {c : Bool} {u : Union} : Proceeds
        (if c then walkParameters limit rest else declareLocal name u span >>= fun _ => walkParameters limit rest) :=
      AskClosed.ite ((proceeds_walk limit).walkParameters rest)
        (proceeds_bind (proceeds_closed.bindVariable _) fun _ => (proceeds_walk limit).walkParameters rest)
    have hsignature := types_of_does ((does_closed limit).requireSignature signature span)
    suffices htells : Tells (walkParameters limit (⟨name, span, signature, default⟩ :: rest)) fun types =>
        (∀ u ∈ signature, u.KnownAmong types) ∧ ∀ p ∈ rest, ∀ u ∈ p.types, u.KnownAmong types from
      fun s hclean => List.forall_mem_cons.2 (htells s hclean)
    cases default with
    | none =>
      rw [walkParameters]
      exact .and ((tells_requireSignature signature span).first fun _ => hpasses) (.later hsignature fun _ => hdeclare)
    | some value =>
      rw [walkParameters]
      refine .and ((tells_requireSignature signature span).first fun _ =>
        proceeds_bind ((proceeds_walk limit).infer 1 value .expression) fun _ =>
          proceeds_bind (proceeds_closed.requireMatch _ _ _ _) fun _ => hpasses) (.later hsignature fun _ => ?_)
      exact .later (types_of_does ((does_closed limit).infer 1 value .expression)) fun _ =>
        .later (types_of_does ((does_closed limit).requireMatch _ _ _ _)) fun _ => hdeclare

theorem tells_declareFunction (f : FunctionLiteral) :
    Tells (declareFunction f) fun types => ∀ r ∈ f.receiver, r.types.KnownAmong types := by
  intro s hclean r hr
  unfold declareFunction at hclean
  rw [Option.mem_def.1 hr] at hclean
  exact known_of_requireDefined hclean

/-- A function that is walked without a complaint is registered with types that are in scope. -/
theorem tells_walkFunction (limit : Nat) (f : FunctionLiteral) :
    Tells (walkFunction limit f) fun types => SignatureKnown types f := by
  obtain ⟨name, nameSpan, receiver, parameters, returnTypes, ⟨statements, blockSpan⟩, decorators⟩ := f
  let f : FunctionLiteral := ⟨name, nameSpan, receiver, parameters, returnTypes, ⟨statements, blockSpan⟩, decorators⟩
  let body : Check Unit := returning returnTypes (walkStatements limit statements)
  have hbody : Proceeds body := proceeds_returning _ ((proceeds_walk limit).walkStatements statements)
  have hinner : Proceeds (within .function (declareReceiver receiver >>= fun _ =>
      walkParameters limit parameters >>= fun _ => body)) :=
    proceeds_within _ (proceeds_bind (proceeds_closed.declareReceiver receiver) fun _ =>
      proceeds_bind ((proceeds_walk limit).walkParameters parameters) fun _ => hbody)
  have hparameters : Tells (within .function (declareReceiver receiver >>= fun _ =>
      walkParameters limit parameters >>= fun _ => body)) fun types =>
        ∀ p ∈ parameters, ∀ u ∈ p.types, u.KnownAmong types :=
    .later (fun _ => rfl) fun _ => Tells.first (.later (types_of_declareReceiver receiver) fun _ =>
      (tells_walkParameters limit parameters).first fun _ => hbody) fun _ => proceeds_change .pop fun _ => trivial
  have hdeclare := types_of_does ((does_closed limit).declareFunction f)
  have hrequire := types_of_does ((does_closed limit).requireSignature returnTypes nameSpan)
  rw [walkFunction]
  exact fun s hclean =>
    { receiver := (tells_declareFunction f).first (fun _ => proceeds_bind
        (proceeds_closed.requireSignature _ _) fun _ => hinner) s hclean
      parameters := Tells.later hdeclare (fun _ => Tells.later hrequire fun _ => hparameters) s hclean
      returns := Tells.later hdeclare (fun _ => (tells_requireSignature returnTypes nameSpan).first fun _ =>
        hinner) s hclean }

/-! ## The walk -/

theorem known_merge {types : List TypeEntry} : ∀ {us : List Union} {u : Union}, u.KnownAmong types →
    (∀ v ∈ us, v.SoundAmong types) → (us.foldl Union.merge u).KnownAmong types
  | [], _, hu, _ => hu
  | v :: us, u, hu, hus => by
    rw [List.foldl_cons]
    refine known_merge (fun a ha => ?_) fun w hw => hus w (List.mem_cons_of_mem _ hw)
    have ha : a ∈ keepNew u.alternatives v.alternatives := ha
    rcases mem_keepNew.1 ha with ha | ha
    · exact hu a ha
    · exact (hus v List.mem_cons_self).known a ha

theorem known_elements {types : List TypeEntry} {u : Union} (hu : u.SoundAmong types) :
    u.elements.KnownAmong types := by
  intro a ha
  obtain ⟨b, hb, rfl⟩ := List.mem_map.1 (Union.mem_ofList.1 ha)
  exact hu.known b hb

theorem known_named {types : List TypeEntry} (h : HoldsBuiltin types) {name : String} (hname : name ∈ builtinTypes) :
    (Union.named name).KnownAmong types :=
  (Union.soundAmong_named (h name hname)).known

/-- What a name calls is in scope where it is looked up. -/
theorem upholds_callee (types : List TypeEntry) (K : Prop) (name : String) :
    Upholds (At types K) environment fun env => At types (K ∧ (calleeOf env name).SoundAmong types) :=
  (asks_look CheckState.environment).upholds fun s hs hscoped _ => by
    have hcallee := soundAmong_calleeOf hscoped name
    rwa [hs.1] at hcallee

/-- An answer that is a built-in type. -/
theorem upholds_named {types : List TypeEntry} {K : Prop} {name : String} (hname : name ∈ builtinTypes) :
    Upholds (At types K) (pure (Union.named name)) fun u => At types (u.KnownAmong types) :=
  upholds_pure (Q := fun u : Union => u.KnownAmong types) _ fun hbuiltin _ => known_named hbuiltin hname

mutual

theorem upholds_infer (limit step : Nat) : ∀ e : Expression, e.Annotated → ∀ (types : List TypeEntry) (K : Prop),
    Upholds (At types K) (infer limit step e) fun u => At types (K ∧ u.SoundAmong types)
  | .identifier span name, _, types, K => by
    rw [infer]
    exact upholds_visit step span ((asks_closed.typeOfName span name).sound
      fun _ _ hscoped => soundAmong_typeOfName hscoped span name).known
  | .literal span value, _, types, K => by
    rw [infer]
    exact upholds_visit step span ((asks_closed.pure (typeOfLiteral value)).sound
      fun _ _ hscoped => soundAmong_typeOfLiteral hscoped value).known
  | .vector span elements, h, types, K => by
    rw [infer]
    refine upholds_visit step span ((upholds_inferAll limit elements h types K).bind fun us => ?_)
    refine upholds_pure (Q := fun u : Union => u.KnownAmong types) _ fun hbuiltin hus => ?_
    split
    · exact known_named hbuiltin (by decide)
    · exact known_merge (fun a ha => absurd ha List.not_mem_nil) hus.2
  | .unary span operator operand, h, types, K => by
    rw [infer]
    exact upholds_visit step span (upholds_infer limit 1 operand h types K).known
  | .binary span operator left right, h, types, K => by
    have hright (K : Prop) := upholds_infer limit 1 right h.2 types K
    have hleft (K : Prop) := upholds_infer limit 0 left h.1 types K
    unfold infer
    refine upholds_visit step span ?_
    cases operator with
    | assign | leftAssign | increment | decrement =>
      refine (hright K).bind fun value => ?_
      split
      · exact ((asks_closed.assignTo _ _ _ value).sound
          fun _ hs hscoped => soundAmong_assignTo hscoped _ _ _ (hs.1.symm ▸ hs.2.2)).known
      · exact (hleft _).bind fun _ =>
          upholds_pure (Q := fun u : Union => u.KnownAmong types) value fun _ hvalue => hvalue.1.2.known
    | dollar | slot =>
      exact (hleft K).bind fun object => ((asks_closed.typeOfAttribute object right).sound
        fun _ _ hscoped => soundAmong_typeOfAttribute hscoped _ _).known
    | namespaceAccess | internalAccess =>
      exact (asks_closed.checkExport left right).keeps.bind fun _ => upholds_named (by decide)
    | pipe | magrittrPipe => exact (hleft K).bind fun _ => (hright _).known
    | range | equal | notEqual | less | lessEqual | greater | greaterEqual | and | andAnd | or | orOr =>
      exact (hleft K).bind fun _ => (hright _).bind fun _ => upholds_named (by decide)
    | _ =>
      exact (hleft K).bind fun u => (hright _).bind fun _ =>
        upholds_pure (Q := fun u : Union => u.KnownAmong types) u fun _ hu => hu.1.2.known
  | .conditional span condition consequence none, h, types, K => by
    rw [infer]
    exact upholds_visit step span ((upholds_infer limit 1 condition h.1 types K).bind fun _ =>
      (upholds_walkBlock limit .branch consequence h.2.1 types _).bind fun _ => upholds_named (by decide))
  | .conditional span condition consequence (some alternative), h, types, K => by
    rw [infer]
    exact upholds_visit step span ((upholds_infer limit 1 condition h.1 types K).bind fun _ =>
      (upholds_walkBlock limit .branch consequence h.2.1 types _).bind fun _ =>
        (upholds_walkBlock limit .branch alternative h.2.2 types _).bind fun _ => upholds_named (by decide))
  | .forLoop span loopVariable iterable ⟨statements, blockSpan⟩, h, types, K => by
    have hbody : Upholds (At types (K ∧ loopVariable.types.KnownAmong types)) (within .loop do
        declareLocal loopVariable.name loopVariable.types loopVariable.span
        walkStatements limit statements) fun _ => At types (K ∧ loopVariable.types.KnownAmong types) := by
      refine .returns (does_within .loop (does_bind (does_declareLocal _ _ _) fun _ =>
        does_ofStatement ((does_closed limit).walkStatements statements))) (upholds_within .loop ?_)
      exact (upholds_bindVariable _ fun _ hK => Union.soundAmong_of_known h.1 hK.2).bind fun _ =>
        (upholds_walkStatements limit statements h.2.2).imp (fun _ _ _ => trivial) fun _ _ _ => trivial
    rw [infer]
    exact upholds_visit step span ((upholds_infer limit 1 iterable h.2.1 types K).bind fun u =>
      (upholds_requireLoopVariable loopVariable u).bind fun _ => (hbody.imp
        (fun _ hs _ => ⟨hs.1, hs.2.1.1, hs.2.2⟩) fun _ _ hs => hs).bind fun _ => upholds_named (by decide))
  | .whileLoop span condition body, h, types, K => by
    rw [infer]
    exact upholds_visit step span ((upholds_infer limit 1 condition h.1 types K).bind fun _ =>
      (upholds_walkBlock limit .loop body h.2 types _).bind fun _ => upholds_named (by decide))
  | .repeatLoop span body, h, types, K => by
    rw [infer]
    exact upholds_visit step span ((upholds_walkBlock limit .loop body h types K).bind fun _ =>
      upholds_named (by decide))
  | .function span literal, h, types, K => by
    rw [infer]
    exact upholds_visit step span ((upholds_walkFunction limit literal h types K).bind fun _ =>
      upholds_named (by decide))
  | .call span callee arguments, h, types, K => by
    have hcallee := upholds_infer limit 0 callee h.1 types K
    have harguments (K : Prop) := upholds_inferArguments limit arguments h.2 types K
    unfold infer
    refine upholds_visit step span ?_
    split
    · rename_i name
      refine (upholds_callee types K name).bind fun env => ?_
      exact (harguments _).bind fun actuals => ((asks_closed.finishCall _ _ _).sound
        fun _ hs hscoped => soundAmong_finishCall hscoped _ _ (hs.1.symm ▸ hs.2.2)).known
    · exact hcallee.bind fun _ => (harguments _).bind fun _ => upholds_named (by decide)
  | .index span object arguments double, h, types, K => by
    rw [infer]
    refine upholds_visit step span ((upholds_infer limit 0 object h.1 types K).bind fun u =>
      (upholds_inferArguments limit arguments h.2 types _).bind fun _ =>
        upholds_pure (Q := fun u : Union => u.KnownAmong types) _ fun _ hu => ?_)
    split
    · exact known_elements hu.2
    · exact hu.2.known

theorem upholds_inferAll (limit : Nat) : ∀ es : List Expression, AnnotatedElements es →
    ∀ (types : List TypeEntry) (K : Prop),
      Upholds (At types K) (inferAll limit es) fun us => At types (K ∧ ∀ u ∈ us, u.SoundAmong types)
  | [], _, types, K =>
    upholds_pure (Q := fun us : List Union => K ∧ ∀ u ∈ us, u.SoundAmong types) [] fun _ hK =>
      ⟨hK, fun _ hu => absurd hu List.not_mem_nil⟩
  | e :: rest, h, types, K => by
    rw [inferAll]
    exact (upholds_infer limit 1 e h.1 types K).bind fun u => (upholds_inferAll limit rest h.2 types _).bind fun us =>
      upholds_pure (Q := fun us : List Union => K ∧ ∀ u ∈ us, u.SoundAmong types) (u :: us) fun _ hK =>
        ⟨hK.1.1, List.forall_mem_cons.2 ⟨hK.1.2, hK.2⟩⟩

theorem upholds_inferArguments (limit : Nat) : ∀ arguments : List Argument, AnnotatedArguments arguments →
    ∀ (types : List TypeEntry) (K : Prop),
      Upholds (At types K) (inferArguments limit arguments) fun _ => At types K
  | [], _, types, K => (asks_closed.pure []).keeps
  | ⟨name, value⟩ :: rest, h, types, K => by
    rw [inferArguments]
    exact (upholds_infer limit 1 value h.1 types K).bind fun _ =>
      (upholds_inferArguments limit rest h.2 types _).bind fun _ => upholds_pure (Q := fun _ : List Union => K) _ fun _ hK => hK.1

theorem upholds_walkParameters (limit : Nat) : ∀ parameters : List Parameter, AnnotatedParameters parameters →
    ∀ (types : List TypeEntry) (K : Prop), Upholds (At types K) (walkParameters limit parameters) fun _ => At types K
  | [], _, types, K => (asks_closed.pure ()).keeps
  | ⟨name, span, signature, none⟩ :: rest, h, types, K => by
    rw [walkParameters]
    exact (upholds_requireSignature signature span).bind fun _ => (upholds_declareParameter h.1 And.right
      (upholds_walkParameters limit rest h.2 types)).weaken fun _ _ hs => ⟨hs.1, hs.2.1⟩
  | ⟨name, span, signature, some value⟩ :: rest, h, types, K => by
    rw [walkParameters]
    refine (upholds_requireSignature signature span).bind fun _ => (upholds_infer limit 1 value h.2.1 types _).bind
      fun _ => (asks_closed.requireMatch _ _ _ _).keeps.bind fun _ => ?_
    exact (upholds_declareParameter h.1 (fun hK => hK.1.2)
      (upholds_walkParameters limit rest h.2.2 types)).weaken fun _ _ hs => ⟨hs.1, hs.2.1.1⟩

theorem upholds_walkFunction (limit : Nat) : ∀ f : FunctionLiteral, f.Annotated →
    ∀ (types : List TypeEntry) (K : Prop), Upholds (At types K) (walkFunction limit f) fun _ => At types K
  | ⟨name, nameSpan, receiver, parameters, returnTypes, ⟨statements, blockSpan⟩, decorators⟩, h, types, K => by
    let f : FunctionLiteral := ⟨name, nameSpan, receiver, parameters, returnTypes, ⟨statements, blockSpan⟩, decorators⟩
    have hbody : Upholds (At types (SignatureKnown types f)) (returning returnTypes (walkStatements limit statements))
        fun _ _ => True :=
      (upholds_returning returnTypes (upholds_walkStatements limit statements h.2.2.2)).imp (fun _ _ _ => trivial)
        fun _ _ hs => hs
    have hinner : Upholds (At types (SignatureKnown types f)) (within .function (declareReceiver receiver >>= fun _ =>
        walkParameters limit parameters >>= fun _ => returning returnTypes (walkStatements limit statements)))
        fun _ _ => True :=
      upholds_within .function ((upholds_declareReceiver h.1 SignatureKnown.receiver).bind fun _ =>
        (upholds_walkParameters limit parameters h.2.1 types _).bind fun _ => hbody)
    have hknown : Upholds (At types (SignatureKnown types f)) (walkFunction limit f) fun _ _ => True := by
      rw [walkFunction]
      exact (upholds_declareFunction h).bind fun _ => (asks_closed.requireSignature _ _).keeps.bind fun _ => hinner
    -- What the triple wants to be known from the start is told by the walk's being clean in the end.
    refine .returns ((does_closed limit).walkFunction f) fun s => ?_
    obtain ⟨acts, hacts, hkeep⟩ := hknown s
    exact ⟨acts, hacts, fun hs hscoped hclean =>
      hkeep ⟨hs.1, hs.1 ▸ tells_walkFunction limit f s hclean⟩ hscoped hclean⟩

theorem upholds_walkBlock (limit : Nat) (kind : FrameKind) : ∀ b : Block, b.Annotated →
    ∀ (types : List TypeEntry) (K : Prop), Upholds (At types K) (walkBlock limit kind b) fun _ => At types K
  | ⟨statements, span⟩, h, types, K => by
    have hdoes : Does limit .expression (walkBlock limit kind ⟨statements, span⟩) :=
      (does_closed limit).walkBlock kind ⟨statements, span⟩ .expression
    refine .returns hdoes ?_
    rw [walkBlock]
    exact upholds_within kind ((upholds_walkStatements limit statements h).imp (fun _ _ _ => trivial) fun _ _ _ => trivial)

theorem upholds_walkStatements (limit : Nat) : ∀ statements : List Statement, AnnotatedStatements statements →
    Upholds (fun _ => True) (walkStatements limit statements) fun _ _ => True
  | [], _ => (asks_closed.pure ()).silent
  | s :: rest, h => by
    rw [walkStatements]
    exact (upholds_walkStatement limit s h.1).bind fun _ => upholds_walkStatements limit rest h.2

theorem upholds_walkStatement (limit : Nat) : ∀ s : Statement, s.Annotated →
    Upholds (fun _ => True) (walkStatement limit s) fun _ _ => True
  | .binding constant target (some value), h => by
    rw [walkStatement]
    exact .ofTypes fun types => (upholds_infer limit 1 value h.2 types True).bind fun actual =>
      upholds_declareBinding constant h.1 (some actual)
  | .binding constant target none, h => by
    rw [walkStatement]
    exact .ofTypes fun types => upholds_declareBinding constant h none
  | .typeDeclaration d, h => by
    rw [walkStatement]
    exact upholds_declareType h.1 h.2
  | .return (some value) span, h => by
    rw [walkStatement]
    exact .ofTypes fun types => (upholds_infer limit 1 value h types True).bind fun actual =>
      (asks_closed.checkReturn (asks_report .returnOutsideFunction) actual span).silent
  | .return none span, _ => by
    rw [walkStatement]
    exact (asks_closed.checkReturn (asks_report .returnOutsideFunction) _ span).silent
  | .defer e span, h => by
    have hrest (types : List TypeEntry) : Upholds (At types True) (infer limit 1 e >>= fun _ => pure ())
        fun _ _ => True := (upholds_infer limit 1 e h types True).bind fun _ => (asks_closed.pure ()).silent
    rw [walkStatement]
    exact .ofTypes fun types => (asks_look CheckState.environment).keeps.bind fun env =>
      .ite (hrest types) ((asks_report _ _).keeps.bind fun _ => hrest types)
  | .jump kind span, _ => by
    rw [walkStatement]
    exact (asks_closed.environment fun env => AskClosed.ite (asks_closed.pure ()) (asks_report _ span)).silent
  | .block block, h => by
    rw [walkStatement]
    exact .ofTypes fun types => upholds_walkBlock limit .block block h types True
  | .comment text roxygen span, _ => by
    rw [walkStatement]
    exact (asks_closed.pure ()).silent
  | .expression e, h => by
    rw [walkStatement]
    exact .ofTypes fun types => (upholds_infer limit 1 e h types True).bind fun _ => (asks_closed.pure ()).silent

end

end Check

end UnionScript
