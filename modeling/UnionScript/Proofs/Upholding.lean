import UnionScript.Proofs.Scoping
/-!
# Upholding — triples of what a step keeps and makes known

What holds before and after a step of the checker, given that nothing fatal has been reported by then, is said by a
triple (`Upholds`).  Triples follow the way steps are put together, and say at the same time which acts a step performs.
Steps that only ask are alike in this: they keep what is known, and what is asked without a complaint is known afterwards
(`Asks.upholds`).
-/
namespace UnionScript

/-- Whether nothing fatal has been reported. -/
def CheckState.Clean (s : CheckState) : Prop := ∀ r ∈ s.reports, r.finding.severity ≠ .fatal

theorem Act.reports_subset (s : CheckState) (a : Act) : s.reports ⊆ (a.apply s).reports := by
  cases a with
  | report rs => exact List.subset_append_right _ _
  | _ => exact List.Subset.refl _

theorem CheckState.reports_subset_after : ∀ (acts : List Act) (s : CheckState), s.reports ⊆ (s.after acts).reports
  | [], _ => List.Subset.refl _
  | a :: acts, s => List.Subset.trans (a.reports_subset s) (reports_subset_after acts (a.apply s))

namespace Check

variable {α β : Type} {limit : Nat} {s : CheckState}

theorem Performs.clean {step : Check α} {acts : List Act} (h : Performs step s acts) (hclean : (step s).2.Clean) :
    s.Clean :=
  fun r hr => hclean r (h.after_eq ▸ CheckState.reports_subset_after acts s hr)

/-- What is clean behind a step was clean in front of it. -/
theorem Proceeds.clean {step : Check α} (h : Proceeds step) (hclean : (step s).2.Clean) : s.Clean :=
  let ⟨_, hacts, _⟩ := h s
  hacts.clean hclean

/-! ## Triples -/

/-- A step performs acts that keep the scopes well and end as said, if it starts as said and reports nothing fatal. -/
def Upholds (pre : CheckState → Prop) (step : Check α) (post : α → CheckState → Prop) : Prop :=
  ∀ s, ∃ acts, Performs step s acts ∧ (pre s → s.environment.WellScoped → (step s).2.Clean →
    Act.AllKeep s acts ∧ post (step s).1 (step s).2)

/-- A state in which some types are declared, and something else is known. -/
abbrev At (types : List TypeEntry) (known : Prop) (s : CheckState) : Prop := s.environment.types = types ∧ known

namespace Upholds

variable {pre pre' : CheckState → Prop} {step : Check α} {post post' : α → CheckState → Prop}

theorem bind {mid : α → CheckState → Prop} {next : α → Check β} {post : β → CheckState → Prop}
    (h : Upholds pre step mid) (hnext : ∀ a, Upholds (mid a) (next a) post) : Upholds pre (step >>= next) post := by
  intro s
  obtain ⟨acts, hacts, hkeep⟩ := h s
  obtain ⟨more, hmore, hkeep'⟩ := hnext (step s).1 (step s).2
  refine ⟨acts ++ more, .bind hacts hmore, fun hs hscoped hclean => ?_⟩
  have hmid := hkeep hs hscoped (hmore.clean hclean)
  have hscoped' := hmid.1.wellScoped hscoped
  rw [hacts.after_eq] at hscoped'
  have hend := hkeep' hmid.2 hscoped' hclean
  exact ⟨Act.allKeep_append.2 ⟨hmid.1, hacts.after_eq.symm ▸ hend.1⟩, hend.2⟩

theorem imp (h : Upholds pre step post) (hpre : ∀ s, pre' s → s.environment.WellScoped → pre s)
    (hpost : ∀ a s, post a s → post' a s) : Upholds pre' step post' := fun s =>
  let ⟨acts, hacts, hkeep⟩ := h s
  ⟨acts, hacts, fun hs hscoped hclean =>
    (hkeep (hpre s hs hscoped) hscoped hclean).imp_right (hpost _ _)⟩

theorem weaken (h : Upholds pre step post) (hpost : ∀ a s, post a s → post' a s) : Upholds pre step post' :=
  h.imp (fun _ hs _ => hs) hpost

/-- Nothing need be known of the types in scope beforehand. -/
theorem ofTypes {known : List TypeEntry → α → CheckState → Prop}
    (h : ∀ types, Upholds (At types True) step (known types)) :
    Upholds (fun _ => True) step fun _ _ => True := fun s =>
  let ⟨acts, hacts, hkeep⟩ := h s.environment.types s
  ⟨acts, hacts, fun _ hscoped hclean => ⟨(hkeep ⟨rfl, trivial⟩ hscoped hclean).1, trivial⟩⟩

theorem ite {c : Bool} {step' : Check α} (h : Upholds pre step post) (h' : Upholds pre step' post) :
    Upholds pre (if c then step else step') post := by
  cases c
  · exact h'
  · exact h

end Upholds

/-! ## Steps that only ask -/

/-- A step that leaves the scopes as they are and files no types. -/
def Asks (step : Check α) : Prop :=
  ∀ s, (step s).2.environment = s.environment ∧ ∃ acts, Performs step s acts ∧ ∀ a ∈ acts, a.Asks

theorem asks_act (f : CheckState → α) (a : CheckState → Act) (ha : ∀ s, (a s).Asks)
    (henvironment : ∀ s, ((a s).apply s).environment = s.environment) : Asks fun s => (f s, (a s).apply s) := fun s =>
  ⟨henvironment s, [a s], .act f a s, fun _ hb => (List.mem_singleton.1 hb) ▸ ha s⟩

theorem asks_look (f : CheckState → α) : Asks fun s => (f s, s) := fun s =>
  ⟨rfl, [], .look f s, fun _ ha => absurd ha List.not_mem_nil⟩

theorem asks_closed : AskClosed fun {_} step => Asks step where
  look f := asks_look fun s => f s.environment s.returns
  bind {_ _ step _} h hnext s := by
    obtain ⟨henvironment, acts, hacts, hasks⟩ := h s
    obtain ⟨henvironment', more, hmore, hasks'⟩ := hnext (step s).1 (step s).2
    exact ⟨henvironment'.trans henvironment, acts ++ more, .bind hacts hmore,
      fun a ha => (List.mem_append.1 ha).elim (hasks a) (hasks' a)⟩
  report finding span _ := asks_act (fun _ => ()) (fun _ => .report [⟨finding, span⟩]) (fun _ => trivial) fun _ => rfl
  package? name := asks_act (fun s => (package? name s).1) (fun _ => .ask name) (fun _ => trivial) fun _ => rfl
  requireDefined types span :=
    asks_act (fun s => (types.alternatives.filter fun t => !s.environment.isDefined t).isEmpty)
      (fun s => .report (undefinedReports types span s)) (fun _ => trivial) fun _ => rfl

theorem allKeep_of_asks : ∀ {acts : List Act} {s : CheckState}, (∀ a ∈ acts, a.Asks) → s.environment.WellScoped →
    Act.AllKeep s acts
  | [], _, _, _ => trivial
  | a :: acts, s, h, hscoped => by
    have ha := (h a List.mem_cons_self).keeps hscoped
    exact ⟨ha, allKeep_of_asks (fun b hb => h b (List.mem_cons_of_mem _ hb)) ha.2⟩

/-- A step that only asks keeps what is known, and may make known what follows from its being clean. -/
theorem Asks.upholds {step : Check α} (h : Asks step) {types : List TypeEntry} {K : Prop} {Q : α → Prop}
    (hfound : ∀ s, At types K s → s.environment.WellScoped → (step s).2.Clean → Q (step s).1) :
    Upholds (At types K) step fun a => At types (K ∧ Q a) := fun s =>
  let ⟨henvironment, acts, hacts, hasks⟩ := h s
  ⟨acts, hacts, fun hs hscoped hclean => ⟨allKeep_of_asks hasks hscoped,
    by rw [henvironment]; exact hs.1, hs.2, hfound s hs hscoped hclean⟩⟩

section Leaves

variable {types : List TypeEntry} {K : Prop}

/-- A step that only asks keeps what is known. -/
theorem Asks.keeps {step : Check α} (h : Asks step) : Upholds (At types K) step fun _ => At types K :=
  (h.upholds (Q := fun _ => True) fun _ _ _ _ => trivial).weaken fun _ _ hs => ⟨hs.1, hs.2.1⟩

/-- Nothing need be known where a step only asks. -/
theorem Asks.silent {step : Check α} (h : Asks step) {pre : CheckState → Prop} : Upholds pre step fun _ _ => True :=
  (Upholds.ofTypes fun _ => h.keeps).imp (fun _ _ _ => trivial) fun _ _ hs => hs

/-- A step that looks at the scopes first. -/
theorem Upholds.environment {pre : CheckState → Prop} {post : α → CheckState → Prop} {next : Environment → Check α}
    (h : ∀ s, ∃ acts, Performs (next s.environment) s acts ∧ (pre s → s.environment.WellScoped →
      (next s.environment s).2.Clean → Act.AllKeep s acts ∧ post (next s.environment s).1 (next s.environment s).2)) :
    Upholds pre (environment >>= next) post := fun s =>
  let ⟨acts, hacts, hkeep⟩ := h s
  ⟨[] ++ acts, .bind (.look CheckState.environment s) hacts, hkeep⟩

/-- Whether the built-in types are among some types. -/
def HoldsBuiltin (types : List TypeEntry) : Prop := ∀ name ∈ builtinTypes, ∃ t ∈ types, t.name = name

theorem holdsBuiltin (hs : At types K s) (hscoped : s.environment.WellScoped) : HoldsBuiltin types :=
  fun _ hname => hs.1 ▸ hscoped.builtin_known hname

theorem upholds_pure {Q : α → Prop} (a : α) (h : HoldsBuiltin types → K → Q a) :
    Upholds (At types K) (pure a) fun b => At types (Q b) :=
  ((asks_closed.pure a).upholds (Q := Q) fun _ hs hscoped _ => h (holdsBuiltin hs hscoped) hs.2).weaken
    fun _ _ hs => ⟨hs.1, hs.2.2⟩

theorem asks_report (finding : Finding) (span : Span) : Asks (report finding span) :=
  asks_act (fun _ => ()) (fun _ => .report [⟨finding, span⟩]) (fun _ => trivial) fun _ => rfl

/-- What is looked up without a complaint is in scope. -/
theorem known_of_requireDefined {u : Union} {span : Span} (hclean : (requireDefined u span s).2.Clean) :
    u.KnownAmong s.environment.types := by
  intro a ha
  rw [← Environment.isDefined_iff]
  by_contra hundefined
  refine hclean ⟨.typeUndefined a.name, span⟩ (List.mem_append_left _ ?_) rfl
  rw [List.mem_reverse]
  exact List.mem_map_of_mem (List.mem_filter.2 ⟨ha, by simpa using hundefined⟩)

theorem upholds_requireDefined (u : Union) (span : Span) : Upholds (At types K) (requireDefined u span) fun _ =>
    At types (K ∧ u.KnownAmong types) :=
  (asks_closed.requireDefined u span).upholds (Q := fun _ => u.KnownAmong types)
    fun _ hs _ hclean => hs.1 ▸ known_of_requireDefined hclean

theorem known_of_requireAttributes : ∀ {attributes : List TypedName} {s : CheckState},
    (requireAttributes attributes s).2.Clean → ∀ t ∈ attributes, t.types.KnownAmong s.environment.types
  | [], _, _, _, ht => absurd ht List.not_mem_nil
  | first :: rest, s, hclean, t, ht => by
    have hrest : (requireAttributes rest (requireDefined first.types first.span s).2).2.Clean := hclean
    rcases List.mem_cons.1 ht with rfl | ht
    · exact known_of_requireDefined ((proceeds_closed.requireAttributes rest).clean hrest)
    · exact known_of_requireAttributes hrest t ht

theorem known_of_requireSignature {signature : Option Union} {span : Span}
    (hclean : (requireSignature signature span s).2.Clean) :
    ∀ u ∈ signature, u.KnownAmong s.environment.types := by
  rintro u rfl
  exact known_of_requireDefined hclean

theorem upholds_requireSignature (signature : Option Union) (span : Span) :
    Upholds (At types K) (requireSignature signature span) fun _ =>
      At types (K ∧ ∀ u ∈ signature, u.KnownAmong types) :=
  (asks_closed.requireSignature signature span).upholds
    (Q := fun _ => ∀ u ∈ signature, u.KnownAmong types)
    fun _ hs _ hclean => hs.1 ▸ known_of_requireSignature hclean

/-- A change keeps the scopes well if it does so where it is made. -/
theorem upholds_change {pre : CheckState → Prop} {post : CheckState → Prop} (c : Environment.Change)
    (h : ∀ s, pre s → s.environment.WellScoped →
      (s.environment.apply c).WellScoped ∧ post ((Act.change c).apply s)) : Upholds pre (change c) fun _ => post :=
  fun s => ⟨[.change c], .perform (.change c) s, fun hs hscoped _ =>
    have hnext := h s hs hscoped
    ⟨⟨⟨fun _ _ _ hfile => (nomatch hfile), hnext.1⟩, trivial⟩, hnext.2⟩⟩

theorem upholds_bindVariable (v : Variable) (h : HoldsBuiltin types → K → v.types.SoundAmong types) :
    Upholds (At types K) (change (.variable v)) fun _ => At types K :=
  upholds_change _ fun s hs hscoped =>
    ⟨hscoped.declareVariable (hs.1.symm ▸ h (holdsBuiltin hs hscoped) hs.2), (s.environment.types_modifyCurrent_eq rfl).trans hs.1, hs.2⟩

/-- The types of an expression are filed where they are in scope. -/
theorem upholds_file (step : Nat) (span : Span) {u : Union} (h : K → u.SoundAmong types) :
    Upholds (At types K) (fun s => ((), (Act.file step span u).apply s)) fun _ => At types K :=
  fun s => ⟨[.file step span u], .act (fun _ => ()) (fun _ => .file step span u) s, fun hs hscoped _ =>
    ⟨⟨⟨fun _ _ _ hfile => by
      cases hfile
      exact hs.1.symm ▸ h hs.2, hscoped⟩, trivial⟩, hs⟩⟩

end Leaves

end Check
end UnionScript
