import UnionScript.Proofs.Places
import UnionScript.Proofs.TwinScopes
/-!
# Isolation — what happens in a body stays in it

Twins are walked alike: from twin states, the acts of one walk are those of the other, one by one and but for places, as
long as neither is in a body that differs (`Parallel`).  There each walk does what walking its own body does; but the frame
that was opened for the body is closed behind it, and nothing else of a state that a later act could depend on has changed,
so both walks go on from twin states again (`isolated_within`).  For whole programs this is the law of isolation
(`Program.walk_isolates`).
-/
namespace UnionScript

/-! ## Acts -/

section Acts

variable (same : Span → Span → Prop)

/-- Two reports of the same finding. -/
structure Report.Twins (r r' : Report) : Prop where
  finding : r.finding = r'.finding
  span : same r.span r'.span

variable (b b' : List Statement)

/-- Two acts that do the same, but for places. -/
inductive Act.Twins : Act → Act → Prop
  | report {rs rs' : List Report} (h : List.Forall₂ (Report.Twins same) rs rs') : Twins (.report rs) (.report rs')
  | ask (package : String) : Twins (.ask package) (.ask package)
  | change {c c' : Environment.Change} (h : c.Twins same b b' c') : Twins (.change c) (.change c')
  | close : Twins (.change .pop) (.change .pop)
  | descend (step : Nat) : Twins (.descend step) (.descend step)
  | file (step : Nat) {span span' : Span} (hspan : same span span') (types : Union) :
    Twins (.file step span types) (.file step span' types)
  | enter (returns : Option Union) : Twins (.enter returns) (.enter returns)
  | leave : Twins .leave .leave

/-- The acts of two walks that do the same one by one, except that at some places, not more than a number, each of them
walks its own body. -/
inductive Parallel (limit : Nat) : Nat → CheckState → List Act → CheckState → List Act → Prop
  | nil (n : Nat) (s s' : CheckState) : Parallel limit n s [] s' []
  | act {n : Nat} {s s' : CheckState} {a a' : Act} {acts acts' : List Act} (ha : a.Twins same b b' a')
    (hrest : Parallel limit n (a.apply s) acts (a'.apply s') acts') : Parallel limit n s (a :: acts) s' (a' :: acts')
  | body {n : Nat} {s s' : CheckState} {mid mid' acts acts' : List Act}
    (hmid : Check.Performs (Check.walkStatements limit b) s mid)
    (hmid' : Check.Performs (Check.walkStatements limit b') s' mid')
    (hrest : Parallel limit n (s.after mid) acts (s'.after mid') acts') :
    Parallel limit (n + 1) s (mid ++ acts) s' (mid' ++ acts')

end Acts

variable {same : Span → Span → Prop} {b b' : List Statement} {limit n m : Nat}

namespace Parallel

variable {s s' : CheckState} {acts acts' more more' : List Act}

theorem mono (h : Parallel same b b' limit n s acts s' acts') (hle : n ≤ m) :
    Parallel same b b' limit m s acts s' acts' := by
  induction h generalizing m with
  | nil => exact .nil _ _ _
  | act ha _ ih => exact .act ha (ih hle)
  | @body n _ _ _ _ _ _ hmid hmid' _ ih =>
    obtain ⟨k, rfl⟩ := Nat.exists_eq_add_of_le' hle
    rw [← Nat.add_assoc]
    exact .body hmid hmid' (ih (Nat.le_add_left n k))

theorem append (h : Parallel same b b' limit n s acts s' acts')
    (hmore : Parallel same b b' limit m (s.after acts) more (s'.after acts') more') :
    Parallel same b b' limit (n + m) s (acts ++ more) s' (acts' ++ more') := by
  induction h with
  | nil n => exact hmore.mono (Nat.le_add_left _ _)
  | act ha _ ih => exact .act ha (ih hmore)
  | body hmid hmid' _ ih =>
    rw [CheckState.after_append, CheckState.after_append] at hmore
    rw [List.append_assoc, List.append_assoc, Nat.add_right_comm]
    exact .body hmid hmid' (ih hmore)

/-- Without such places all acts are the same. -/
theorem of_zero (h : Parallel same b b' limit 0 s acts s' acts') : List.Forall₂ (Act.Twins same b b') acts acts' := by
  generalize hn : 0 = n at h
  induction h with
  | nil => exact .nil
  | act ha _ ih => exact .cons ha (ih hn)
  | body => cases hn

/-- With one such place the acts are the same in front of the bodies and behind them. -/
theorem of_one (h : Parallel same b b' limit 1 s acts s' acts') :
    List.Forall₂ (Act.Twins same b b') acts acts' ∨
      ∃ pre mid post pre' mid' post', acts = pre ++ (mid ++ post) ∧ acts' = pre' ++ (mid' ++ post') ∧
        List.Forall₂ (Act.Twins same b b') pre pre' ∧ List.Forall₂ (Act.Twins same b b') post post' ∧
        Check.Performs (Check.walkStatements limit b) (s.after pre) mid ∧
        Check.Performs (Check.walkStatements limit b') (s'.after pre') mid' := by
  generalize hn : 1 = n at h
  induction h with
  | nil => exact .inl .nil
  | @act n s s' a a' acts acts' ha _ ih =>
    obtain hsame | ⟨pre, mid, post, pre', mid', post', rfl, rfl, hpre, hpost, hmid, hmid'⟩ := ih hn
    · exact .inl (.cons ha hsame)
    · exact .inr ⟨a :: pre, mid, post, a' :: pre', mid', post', rfl, rfl, .cons ha hpre, hpost, hmid, hmid'⟩
  | @body n s s' mid mid' acts acts' hmid hmid' hrest =>
    obtain rfl : n = 0 := by omega
    exact .inr ⟨[], mid, acts, [], mid', acts', rfl, rfl, .nil, hrest.of_zero, hmid, hmid'⟩

end Parallel

/-! ## States -/

/-- What is known of a package, if there is a cache. -/
def CheckState.answer (s : CheckState) (name : String) : Option Package :=
  s.packages.bind fun cache => (cache.get name).1

/-- Whether the source of packages, if there is one, is static. -/
def CheckState.IsStatic (s : CheckState) : Prop := ∀ cache ∈ s.packages, cache.IsStatic

/-- Two states from which twins are walked alike. -/
structure CheckState.Twins (same : Span → Span → Prop) (b b' : List Statement) (s s' : CheckState) : Prop where
  environment : s.environment.Twins same b b' s'.environment
  answer : s.answer = s'.answer
  isStatic : s.IsStatic
  isStatic' : s'.IsStatic
  returns : s.returns = s'.returns
  depth : s.depth = s'.depth

/-- One state is like another one in all that a walk depends on. -/
structure CheckState.Resumes (s t : CheckState) : Prop where
  frames : t.environment.frames = s.environment.frames
  nextOrder : s.environment.nextOrder ≤ t.environment.nextOrder
  answer : t.answer = s.answer
  isStatic : t.IsStatic
  returns : t.returns = s.returns
  depth : t.depth = s.depth

namespace CheckState

variable {s s' t t' : CheckState}

/-- Where two walks resume what they came from, they come from twins again. -/
theorem Twins.resume (h : s.Twins same b b' s') (ht : s.Resumes t) (ht' : s'.Resumes t') : t.Twins same b b' t' where
  environment := {
    frames := by rw [ht.frames, ht'.frames]; exact h.environment.frames
    fresh := fun f hf u hu => Nat.lt_of_lt_of_le (h.environment.fresh f (ht.frames ▸ hf) u hu) ht.nextOrder
    fresh' := fun f hf u hu => Nat.lt_of_lt_of_le (h.environment.fresh' f (ht'.frames ▸ hf) u hu) ht'.nextOrder }
  answer := by rw [ht.answer, ht'.answer, h.answer]
  isStatic := ht.isStatic
  isStatic' := ht'.isStatic
  returns := by rw [ht.returns, ht'.returns, h.returns]
  depth := by rw [ht.depth, ht'.depth, h.depth]

theorem IsStatic.package? (h : s.IsStatic) (name : String) :
    (Check.package? name s).2.answer = s.answer ∧ (Check.package? name s).2.IsStatic := by
  refine ⟨funext fun asked => ?_, fun cache hcache => ?_⟩
  · show (s.packages.map fun cache => (cache.get name).2).bind (fun cache => (cache.get asked).1) = s.answer asked
    unfold answer
    cases hpackages : s.packages with
    | none => rfl
    | some cache => exact (h cache hpackages).get_get name asked
  · obtain ⟨before, hbefore, rfl⟩ := Option.map_eq_some_iff.1 hcache
    exact (h before hbefore).get name

/-- Whatever a walk does, a static source is asked for the same answers. -/
theorem IsStatic.ofEffect {x : Check.Extent} (h : Check.Effect limit x s t) (hs : s.IsStatic) :
    t.answer = s.answer ∧ t.IsStatic := by
  induction h with
  | andThen _ _ ih ih' =>
    obtain ⟨hanswer, hstatic⟩ := ih hs
    obtain ⟨hanswer', hstatic'⟩ := ih' hstatic
    exact ⟨hanswer'.trans hanswer, hstatic'⟩
  | ask s name => exact hs.package? name
  | deeper _ _ _ _ _ ih => exact ih hs
  | within _ _ ih => exact ih hs
  | returning _ _ ih => exact ih hs
  | _ => exact ⟨rfl, hs⟩

/-- Behind a frame a walk resumes from where it was in front of it. -/
theorem resumes_within {body : Check Unit} (kind : FrameKind) (h : Check.Does limit .body body) (hs : s.IsStatic) :
    s.Resumes (Check.within kind body s).2 := by
  have heffect := h (Check.change (.push kind) s).2
  have hbody := Continues.ofEffect heffect
  have horder := Check.nextOrder_le_of_effect heffect
  obtain ⟨hanswer, hstatic⟩ := IsStatic.ofEffect heffect hs
  exact ⟨Environment.frames_closed hbody.below, horder, hanswer, hstatic, hbody.returns, hbody.depth⟩

end CheckState

/-! ## Steps -/

namespace Check

variable {α β : Type}

/-- Two steps run in parallel from two states. -/
def RunAlong (same : Span → Span → Prop) (b b' : List Statement) (limit n : Nat) (step step' : Check α)
    (s s' : CheckState) : Prop :=
  ∃ acts acts', Performs step s acts ∧ Performs step' s' acts' ∧ Parallel same b b' limit n s acts s' acts'

/-- Two steps that run in parallel from twin states; of the states behind them nothing is said. -/
def Along (same : Span → Span → Prop) (b b' : List Statement) (limit n : Nat) (step step' : Check α) : Prop :=
  ∀ s s', s.Twins same b b' s' → RunAlong same b b' limit n step step' s s'

/-- Two steps that run in parallel from twin states, answer the same and leave twin states. -/
def Isolated (same : Span → Span → Prop) (b b' : List Statement) (limit n : Nat) (step step' : Check α) : Prop :=
  ∀ s s', s.Twins same b b' s' → RunAlong same b b' limit n step step' s s' ∧ (step s).1 = (step' s').1 ∧
    (step s).2.Twins same b b' (step' s').2

section Steps

theorem Isolated.along {step step' : Check α} (h : Isolated same b b' limit n step step') :
    Along same b b' limit n step step' := fun s s' hs => (h s s' hs).1

theorem Isolated.cast {step step' : Check α} (h : Isolated same b b' limit n step step') (hn : n = m) :
    Isolated same b b' limit m step step' := hn ▸ h

theorem Isolated.mono {step step' : Check α} (h : Isolated same b b' limit n step step') (hle : n ≤ m) :
    Isolated same b b' limit m step step' := fun s s' hs =>
  let ⟨⟨acts, acts', hacts, hacts', hparallel⟩, hend⟩ := h s s' hs
  ⟨⟨acts, acts', hacts, hacts', hparallel.mono hle⟩, hend⟩

theorem RunAlong.bind {step step' : Check α} {next next' : α → Check β} {s s' : CheckState}
    (h : RunAlong same b b' limit n step step' s s')
    (hnext : RunAlong same b b' limit m (next (step s).1) (next' (step' s').1) (step s).2 (step' s').2) :
    RunAlong same b b' limit (n + m) (step >>= next) (step' >>= next') s s' := by
  obtain ⟨acts, acts', hacts, hacts', hparallel⟩ := h
  obtain ⟨more, more', hmore, hmore', hparallel'⟩ := hnext
  refine ⟨acts ++ more, acts' ++ more', hacts.bind hmore, hacts'.bind hmore', hparallel.append ?_⟩
  rwa [hacts.after_eq, hacts'.after_eq]

/-- One step after the other. -/
theorem isolated_bind {step step' : Check α} {next next' : α → Check β} (h : Isolated same b b' limit n step step')
    (hnext : ∀ a, Isolated same b b' limit m (next a) (next' a)) :
    Isolated same b b' limit (n + m) (step >>= next) (step' >>= next') := by
  intro s s' hs
  obtain ⟨hrun, hvalue, hstate⟩ := h s s' hs
  obtain ⟨hrun', hvalue', hstate'⟩ := hnext (step s).1 _ _ hstate
  have hnext' : next' (step s).1 = next' (step' s').1 := by rw [hvalue]
  rw [hnext'] at hrun' hvalue' hstate'
  exact ⟨hrun.bind hrun', hvalue', hstate'⟩

/-- A step in front in which nothing differs. -/
theorem Isolated.behind {step step' : Check α} {next next' : α → Check β} (h : Isolated same b b' limit 0 step step')
    (hnext : ∀ a, Isolated same b b' limit n (next a) (next' a)) :
    Isolated same b b' limit n (step >>= next) (step' >>= next') := (isolated_bind h hnext).cast (Nat.zero_add n)

theorem along_bind {step step' : Check α} {next next' : α → Check β} (h : Isolated same b b' limit n step step')
    (hnext : ∀ a, Along same b b' limit m (next a) (next' a)) :
    Along same b b' limit (n + m) (step >>= next) (step' >>= next') := by
  intro s s' hs
  obtain ⟨hrun, hvalue, hstate⟩ := h s s' hs
  have hrun' := hnext (step s).1 _ _ hstate
  have hnext' : next' (step s).1 = next' (step' s').1 := by rw [hvalue]
  rw [hnext'] at hrun'
  exact hrun.bind hrun'

theorem Along.behind {step step' : Check α} {next next' : α → Check β} (h : Isolated same b b' limit 0 step step')
    (hnext : ∀ a, Along same b b' limit n (next a) (next' a)) :
    Along same b b' limit n (step >>= next) (step' >>= next') := by
  have := along_bind h hnext
  rwa [Nat.zero_add] at this

/-- Steps that only look at states, and see the same in twins. -/
theorem isolated_look (f f' : CheckState → α) (h : ∀ s s', s.Twins same b b' s' → f s = f' s') :
    Isolated same b b' limit 0 (fun s => (f s, s)) fun s => (f' s, s) :=
  fun s s' hs => ⟨⟨[], [], .look f s, .look f' s', .nil _ _ _⟩, h s s' hs, hs⟩

theorem isolated_pure (a : α) : Isolated same b b' limit 0 (pure a) (pure a) :=
  isolated_look (fun _ => a) (fun _ => a) fun _ _ _ => rfl

/-- Steps that look at the scopes first. -/
theorem isolated_environment {next next' : Environment → Check α}
    (h : ∀ env env', env.Twins same b b' env' → Isolated same b b' limit n (next env) (next' env')) :
    Isolated same b b' limit n (environment >>= next) (environment >>= next') := by
  intro s s' hs
  obtain ⟨⟨acts, acts', hacts, hacts', hparallel⟩, hend⟩ := h _ _ hs.environment s s' hs
  exact ⟨⟨[] ++ acts, [] ++ acts', .bind (.look CheckState.environment s) hacts,
    .bind (.look CheckState.environment s') hacts', hparallel⟩, hend⟩

theorem isolated_ite {c : Bool} {step step' other other' : Check α} (h : Isolated same b b' limit n step step')
    (hother : Isolated same b b' limit n other other') :
    Isolated same b b' limit n (if c then step else other) (if c then step' else other') := by
  cases c
  · exact hother
  · exact h

/-- Steps that are single acts. -/
theorem isolated_act (f f' : CheckState → α) (a a' : CheckState → Act)
    (h : ∀ s s', s.Twins same b b' s' → f s = f' s' ∧ (a s).Twins same b b' (a' s') ∧
      ((a s).apply s).Twins same b b' ((a' s').apply s')) :
    Isolated same b b' limit 0 (fun s => (f s, (a s).apply s)) fun s => (f' s, (a' s).apply s) := fun s s' hs =>
  let ⟨hvalue, ha, hstate⟩ := h s s' hs
  ⟨⟨[a s], [a' s'], .act f a s, .act f' a' s', .act ha (.nil _ _ _)⟩, hvalue, hstate⟩

theorem isolated_report (finding : Finding) {span span' : Span} (hspan : same span span') :
    Isolated same b b' limit 0 (report finding span) (report finding span') :=
  isolated_act (fun _ => ()) (fun _ => ()) (fun _ => .report [⟨finding, span⟩]) (fun _ => .report [⟨finding, span'⟩])
    fun _ _ hs => ⟨rfl, .report (.cons ⟨rfl, hspan⟩ .nil), { hs with }⟩

theorem isolated_change {c c' : Environment.Change} (h : c.Twins same b b' c') :
    Isolated same b b' limit 0 (change c) (change c') :=
  isolated_act (fun _ => ()) (fun _ => ()) (fun _ => .change c) (fun _ => .change c')
    fun _ _ hs => ⟨rfl, .change h, { hs with environment := hs.environment.apply h }⟩

theorem package?_resumes (name : String) {s : CheckState} (hs : s.IsStatic) : s.Resumes (package? name s).2 :=
  let ⟨hanswer, hstatic⟩ := hs.package? name
  ⟨rfl, Nat.le_refl _, hanswer, hstatic, rfl, rfl⟩

theorem isolated_package? (name : String) : Isolated same b b' limit 0 (package? name) (package? name) :=
  isolated_act (fun s => s.answer name) (fun s => s.answer name) (fun _ => .ask name) (fun _ => .ask name)
    fun _ _ hs => ⟨congrFun hs.answer name, .ask name,
      hs.resume (package?_resumes name hs.isStatic) (package?_resumes name hs.isStatic')⟩

theorem isolated_requireDefined (types : Union) {span span' : Span} (hspan : same span span') :
    Isolated same b b' limit 0 (requireDefined types span) (requireDefined types span') := by
  refine isolated_act
    (fun s => (types.alternatives.filter fun t => !s.environment.isDefined t).isEmpty)
    (fun s => (types.alternatives.filter fun t => !s.environment.isDefined t).isEmpty)
    (fun s => .report (undefinedReports types span s)) (fun s => .report (undefinedReports types span' s))
    fun s s' hs => ?_
  have hdefined : s.environment.isDefined = s'.environment.isDefined := funext hs.environment.isDefined
  refine ⟨by rw [hdefined], .report ?_, { hs with }⟩
  unfold undefinedReports
  rw [hdefined, List.forall₂_reverse_iff, List.forall₂_map_left_iff, List.forall₂_map_right_iff, List.forall₂_same]
  exact fun _ _ => ⟨rfl, hspan⟩

theorem isolated_requireMatch (actual expected : Union) {span span' : Span} (hspan : same span span') (subject : Subject) :
    Isolated same b b' limit 0 (requireMatch actual expected span subject) (requireMatch actual expected span' subject) :=
  isolated_environment fun env env' henv => by
    rw [henv.unmatched]
    split
    · exact isolated_pure _
    · exact isolated_report _ hspan

/-- An expression that is beyond the limit is so in both walks. -/
theorem isolated_visit {body body' : Check Union} (step : Nat) {span span' : Span} (hspan : same span span')
    (h : Isolated same b b' limit n body body') :
    Isolated same b b' limit n (visit limit step span body) (visit limit step span' body') := by
  intro s s' hs
  by_cases hbeyond : limit < s.depth + step
  · have hbeyond' : limit < s'.depth + step := hs.depth ▸ hbeyond
    refine ⟨⟨_, _, performs_visit_beyond body step span hbeyond, performs_visit_beyond body' step span' hbeyond', ?_⟩, ?_⟩
    · exact .act (.report (.cons ⟨rfl, hspan⟩ .nil)) (.nil _ _ _)
    · rw [visit_eq, visit_eq, if_pos hbeyond, if_pos hbeyond']
      exact ⟨rfl, { hs with }⟩
  · have hwithin' : ¬limit < s'.depth + step := hs.depth ▸ hbeyond
    have hdeeper : ((Act.descend step).apply s).Twins same b b' ((Act.descend step).apply s') :=
      { hs with depth := congrArg (· + step) hs.depth }
    obtain ⟨⟨acts, acts', hacts, hacts', hparallel⟩, hvalue, hstate⟩ := h _ _ hdeeper
    refine ⟨⟨_, _, performs_visit step span hbeyond hacts, performs_visit step span' hwithin' hacts', ?_⟩, ?_⟩
    · rw [hvalue]
      exact .act (.descend step) (hparallel.append (m := 0) (.act (.file step hspan _) (.nil _ _ _)))
    · rw [visit_eq, visit_eq, if_neg hbeyond, if_neg hwithin']
      dsimp only
      rw [hvalue]
      exact ⟨rfl, { hstate with depth := congrArg (· - step) hstate.depth }⟩

/-- **What happens in a frame stays in it.** -/
theorem isolated_within {body body' : Check Unit} (kind : FrameKind) (hbody : Does limit .body body)
    (hbody' : Does limit .body body') (h : Along same b b' limit n body body') :
    Isolated same b b' limit n (within kind body) (within kind body') := by
  intro s s' hs
  have hopened : (change (.push kind) s).2.Twins same b b' (change (.push kind) s').2 :=
    { hs with environment := hs.environment.apply (.push kind) }
  obtain ⟨acts, acts', hacts, hacts', hparallel⟩ := h _ _ hopened
  refine ⟨⟨_, _, performs_within kind hacts, performs_within kind hacts', ?_⟩, rfl,
    hs.resume (CheckState.resumes_within kind hbody hs.isStatic) (CheckState.resumes_within kind hbody' hs.isStatic')⟩
  exact .act (.change (.push kind)) (hparallel.append (m := 0) (.act .close (.nil _ _ _)))

theorem along_returning {body body' : Check Unit} (types : Option Union) (h : Along same b b' limit n body body') :
    Along same b b' limit n (returning types body) (returning types body') := by
  intro s s' hs
  have hentered : ((Act.enter types).apply s).Twins same b b' ((Act.enter types).apply s') :=
    { hs with returns := congrArg (types :: ·) hs.returns }
  obtain ⟨acts, acts', hacts, hacts', hparallel⟩ := h _ _ hentered
  refine ⟨_, _, performs_returning types hacts, performs_returning types hacts', ?_⟩
  exact .act (.enter types) (hparallel.append (m := 0) (.act .leave (.nil _ _ _)))

end Steps

/-! ## The leaves of a walk -/

section Leaves

variable {span span' : Span}

theorem isolated_typeOfName (hspan : same span span') (name : String) :
    Isolated same b b' limit 0 (typeOfName span name) (typeOfName span' name) :=
  isolated_environment fun env env' henv => by
    generalize env.findVariable? name = v, env'.findVariable? name = v', henv.findVariable? name = hv
    generalize env.findType? name = t, env'.findType? name = t', henv.findType? name = ht
    generalize env.findFunction? name = g, env'.findFunction? name = g', henv.findFunction? name = hg
    cases hv with
    | some hv =>
      dsimp only
      rw [hv.types]
      exact isolated_pure _
    | none =>
      cases ht with
      | some ht => exact isolated_pure _
      | none =>
        cases hg with
        | some hg => exact isolated_pure _
        | none => exact .behind (isolated_report _ hspan) fun _ => isolated_pure _

theorem isolated_typeOfAttribute (object : Union) {access access' : Expression}
    (h : accessName? access = accessName? access') :
    Isolated same b b' limit 0 (typeOfAttribute object access) (typeOfAttribute object access') :=
  isolated_environment fun env env' henv => by
    rw [h]
    split
    · rename_i name t _ _
      rw [henv.attribute? t.name name]
      exact isolated_ite (isolated_pure _) (isolated_pure _)
    · exact isolated_pure _

theorem isolated_checkExport {left left' right right' : Expression} (hleft : Twin.OfExpression same b b' n left left')
    (hright : Twin.OfExpression same b b' m right right') :
    Isolated same b b' limit 0 (checkExport left right) (checkExport left' right') := by
  cases hleft with
  | identifier package hspan =>
    cases hright with
    | identifier function hspan' =>
      refine .behind (isolated_package? package) fun known => ?_
      cases known with
      | none => exact isolated_pure _
      | some known => exact isolated_ite (isolated_pure _) (isolated_report _ hspan')
    | _ => exact isolated_pure _
  | _ => exact isolated_pure _

theorem isolated_assignTo {target target' : Span} (hspan : same span span') (htarget : same target target')
    (name : String) (value : Union) :
    Isolated same b b' limit 0 (assignTo span target name value) (assignTo span' target' name value) :=
  isolated_environment fun env env' henv => by
    generalize env.findVariable? name = v, env'.findVariable? name = v', henv.findVariable? name = hv
    cases hv with
    | none => exact .behind (isolated_report _ htarget) fun _ => isolated_pure _
    | some hv =>
      dsimp only
      rw [hv.types, hv.constant]
      exact isolated_ite (.behind (isolated_report _ hspan) fun _ => isolated_pure _)
        (.behind (isolated_requireMatch _ _ hspan _) fun _ => isolated_pure _)

/-! ### Calls -/

/-- Arguments that look the same, and are of the same types. -/
def Inferred (same : Span → Span → Prop) (a a' : Argument × Union) : Prop :=
  Twin.ArgumentTwins same a.1 a'.1 ∧ a.2 = a'.2

theorem inferred_zip {as as' : List Argument} (h : List.Forall₂ (Twin.ArgumentTwins same) as as') :
    ∀ types : List Union, List.Forall₂ (Inferred same) (as.zip types) (as'.zip types) := by
  induction h with
  | nil => exact fun _ => .nil
  | cons ha _ ih =>
    intro types
    cases types with
    | nil => exact .nil
    | cons t types => exact .cons ⟨ha, rfl⟩ (ih types)

theorem isolated_checkConstructor {t t' : TypeEntry} (ht : t.Twins same b b' t') {as as' : List (Argument × Union)}
    (h : List.Forall₂ (Inferred same) as as') :
    Isolated same b b' limit 0 (checkConstructor t as) (checkConstructor t' as') := by
  induction h with
  | nil => exact isolated_pure _
  | @cons p p' rest rest' hp _ ih =>
    obtain ⟨⟨name, value⟩, actual⟩ := p
    obtain ⟨⟨name', value'⟩, actual'⟩ := p'
    obtain ⟨⟨hname, hspan⟩, rfl⟩ := hp
    rw [checkConstructor, checkConstructor, ht.name]
    cases hname with
    | none => exact ih
    | @some n n' hn =>
      obtain ⟨name, nameSpan⟩ := n
      obtain ⟨name', nameSpan'⟩ := n'
      obtain ⟨rfl, hnameSpan⟩ := hn
      have hattribute := ht.attribute? name
      revert hattribute
      dsimp only
      cases t.attribute? name <;> cases t'.attribute? name <;> intro hattribute
      · exact .behind (isolated_report _ hnameSpan) fun _ => ih
      · cases hattribute
      · cases hattribute
      · rename_i known known'
        have htypes : known.types = known'.types := Option.some.inj hattribute
        dsimp only
        rw [htypes]
        exact .behind (isolated_requireMatch _ _ hspan _) fun _ => ih

theorem boundParameters_twins {f f' : FunctionSignature} (hf : f.Twins same f') {as as' : List Argument}
    (h : List.Forall₂ (Twin.ArgumentTwins same) as as') (position : Nat) :
    boundParameters f position as = boundParameters f' position as' := by
  induction h generalizing position with
  | nil => rfl
  | @cons a a' rest rest' ha _ ih =>
    obtain ⟨name, value⟩ := a
    obtain ⟨name', value'⟩ := a'
    cases ha.name with
    | none => simp only [boundParameters, ih, hf.parameters]
    | some hn => simp only [boundParameters, ih, FunctionSignature.parameter?, hf.parameters, hn.1]

theorem isolated_checkArgument {f f' : FunctionSignature} (hf : f.Twins same f') {a a' : Argument}
    (h : Twin.ArgumentTwins same a a') (actual : Union) (bound : Option ParameterSignature) :
    Isolated same b b' limit 0 (checkArgument f a actual bound) (checkArgument f' a' actual bound) := by
  obtain ⟨name, value⟩ := a
  obtain ⟨name', value'⟩ := a'
  have hvariadic : f.isVariadic = f'.isVariadic := by
    rw [FunctionSignature.isVariadic, FunctionSignature.isVariadic, hf.parameters]
  unfold checkArgument
  rw [hf.name, hvariadic]
  cases bound with
  | some p => exact isolated_requireMatch _ _ h.span _
  | none =>
    cases h.name with
    | none => exact isolated_pure _
    | @some n n' hn =>
      obtain ⟨name, nameSpan⟩ := n
      obtain ⟨name', nameSpan'⟩ := n'
      obtain ⟨rfl, hnameSpan⟩ := hn
      exact isolated_ite (isolated_pure _) (isolated_report _ hnameSpan)

theorem isolated_checkArguments {f f' : FunctionSignature} (hf : f.Twins same f') {as as' : List (Argument × Union)}
    (h : List.Forall₂ (Inferred same) as as') (bound : List (Option ParameterSignature)) :
    Isolated same b b' limit 0 (checkArguments f as bound) (checkArguments f' as' bound) := by
  induction h generalizing bound with
  | nil =>
    rw [checkArguments, checkArguments]
    · exact isolated_pure _
    all_goals simp
  | @cons p p' rest rest' hp _ ih =>
    obtain ⟨a, actual⟩ := p
    obtain ⟨a', actual'⟩ := p'
    obtain ⟨ha, rfl⟩ := hp
    cases bound with
    | nil =>
      rw [checkArguments, checkArguments]
      · exact isolated_pure _
      all_goals simp
    | cons bound more =>
      rw [checkArguments, checkArguments]
      exact .behind (isolated_checkArgument hf ha actual bound) fun _ => ih more

/-- Two callees that are declared the same. -/
inductive Callee.Twins (same : Span → Span → Prop) (b b' : List Statement) : Callee → Callee → Prop
  | value : Twins same b b' .value .value
  | constructor {t t' : TypeEntry} (h : t.Twins same b b' t') : Twins same b b' (.constructor t) (.constructor t')
  | function {f f' : FunctionSignature} (h : f.Twins same f') : Twins same b b' (.function f) (.function f')
  | host : Twins same b b' .host .host

theorem calleeOf_twins {env env' : Environment} (henv : env.Twins same b b' env') (name : String) :
    (calleeOf env name).Twins same b b' (calleeOf env' name) := by
  unfold calleeOf
  generalize env.findVariable? name = v, env'.findVariable? name = v', henv.findVariable? name = hv
  generalize env.findType? name = t, env'.findType? name = t', henv.findType? name = ht
  generalize env.findFunction? name = g, env'.findFunction? name = g', henv.findFunction? name = hg
  cases hv with
  | some hv => exact .value
  | none =>
    cases ht with
    | some ht => exact .constructor ht
    | none =>
      cases hg with
      | some hg => exact .function hg
      | none => exact .host

theorem isolated_finishCall {as as' : List Argument} (h : List.Forall₂ (Twin.ArgumentTwins same) as as')
    (actuals : List Union) {c c' : Callee} (hc : c.Twins same b b' c') :
    Isolated same b b' limit 0 (finishCall as actuals c) (finishCall as' actuals c') := by
  have hinferred := inferred_zip h actuals
  cases hc with
  | value => exact isolated_pure _
  | host => exact isolated_pure _
  | constructor ht =>
    unfold finishCall
    dsimp only
    rw [ht.kind, ht.name]
    exact isolated_ite (.behind (isolated_checkConstructor ht hinferred) fun _ => isolated_pure _) (isolated_pure _)
  | function hf =>
    unfold finishCall
    dsimp only
    rw [boundParameters_twins hf h, hf.returnTypes]
    exact .behind (isolated_checkArguments hf hinferred _) fun _ => isolated_pure _

/-! ### Declarations -/

theorem isolated_requireAttributes {as as' : List TypedName} (h : List.Forall₂ (TypedName.Twins same) as as') :
    Isolated same b b' limit 0 (requireAttributes as) (requireAttributes as') := by
  induction h with
  | nil => exact isolated_pure _
  | cons ha _ ih =>
    rw [requireAttributes, requireAttributes, ha.types]
    exact .behind (isolated_requireDefined _ ha.span) fun _ => ih

theorem entryOf_twins {d d' : TypeDeclaration} (h : Twin.OfDeclaration same b b' n d d') :
    (entryOf d).Twins same b b' (entryOf d') := by
  cases h with
  | mk name list kind types hspan hattributes hds =>
    exact ⟨rfl, rfl, rfl, rfl, hattributes, hds.classNames, ⟨_, hds⟩, rfl, hspan⟩

theorem isolated_declareType {d d' : TypeDeclaration} (h : Twin.OfDeclaration same b b' n d d') :
    Isolated same b b' limit 0 (declareType d) (declareType d') := by
  have hentry := entryOf_twins h
  cases h with
  | mk name list kind types hspan hattributes hds =>
    refine isolated_environment fun env env' henv => ?_
    dsimp only
    generalize env.findType? name = t, env'.findType? name = t', henv.findType? name = ht
    cases ht with
    | some ht =>
      dsimp only
      rw [ht.builtin]
      exact isolated_report _ hspan
    | none =>
      exact .behind (isolated_change (.type hentry)) fun _ => .behind (isolated_requireDefined _ hspan) fun _ =>
        isolated_requireAttributes hattributes

theorem isolated_declareLocal (name : String) (types : Union) (hspan : same span span') :
    Isolated same b b' limit 0 (declareLocal name types span) (declareLocal name types span') :=
  isolated_change (.variable ⟨rfl, rfl, rfl, hspan⟩)

theorem isolated_declareBinding (constant : Bool) {target target' : TypedName} (h : target.Twins same target')
    (actual : Option Union) :
    Isolated same b b' limit 0 (declareBinding constant target actual) (declareBinding constant target' actual) := by
  refine isolated_environment fun env env' henv => ?_
  rw [h.name, h.types]
  generalize env.findVariable? target'.name = v, env'.findVariable? target'.name = v',
    henv.findVariable? target'.name = hv
  cases hv with
  | some hv => exact isolated_report _ h.span
  | none =>
    have hdeclare : Isolated same b b' limit 0
        (change (.variable { name := target'.name, types := target'.types, constant, span := target.span }))
        (change (.variable { name := target'.name, types := target'.types, constant, span := target'.span })) :=
      isolated_change (.variable ⟨rfl, rfl, rfl, h.span⟩)
    refine .behind (isolated_requireDefined _ h.span) fun defined => ?_
    cases defined with
    | false => exact hdeclare
    | true =>
      cases actual with
      | none => exact hdeclare
      | some types => exact .behind (isolated_requireMatch _ _ h.span _) fun _ => hdeclare

theorem parameterSignature_twins : ∀ {n : Nat} {ps ps' : List Parameter}, Twin.OfParameters same b b' n ps ps' →
    ps.map parameterSignature = ps'.map parameterSignature
  | _, [], _, h => by
    cases h
    rfl
  | _, _ :: _, _, h => by
    cases h with
    | plain name types hspan hrest =>
      rw [List.map_cons, List.map_cons, parameterSignature_twins hrest]
      rfl
    | default name types hspan _ hrest =>
      rw [List.map_cons, List.map_cons, parameterSignature_twins hrest]
      rfl

theorem isolated_declareFunction {f f' : FunctionLiteral} (h : Twin.OfFunction same b b' n f f') :
    Isolated same b b' limit 0 (declareFunction f) (declareFunction f') := by
  cases h with
  | mk name types hspan hreceiver hps hbody hds =>
    unfold declareFunction
    cases hreceiver with
    | some hr =>
      dsimp only
      rw [hr.types]
      exact .behind (isolated_requireDefined _ hr.span) fun _ => isolated_pure _
    | none =>
      cases name with
      | none => exact isolated_pure _
      | some name =>
        refine isolated_environment fun env env' henv => ?_
        rw [henv.declaresFunctionHere]
        exact isolated_ite (isolated_report _ hspan)
          (isolated_change (.function ⟨rfl, parameterSignature_twins hps, rfl, hspan⟩))

theorem isolated_requireSignature (types : Option Union) (hspan : same span span') :
    Isolated same b b' limit 0 (requireSignature types span) (requireSignature types span') := by
  cases types with
  | none => exact isolated_pure _
  | some types => exact .behind (isolated_requireDefined _ hspan) fun _ => isolated_pure _

theorem isolated_declareReceiver {receiver receiver' : Option TypedName}
    (h : Option.Rel (TypedName.Twins same) receiver receiver') :
    Isolated same b b' limit 0 (declareReceiver receiver) (declareReceiver receiver') := by
  cases h with
  | none => exact isolated_pure _
  | some hr =>
    unfold declareReceiver
    dsimp only
    rw [hr.name, hr.types]
    exact isolated_declareLocal _ _ hr.span

theorem isolated_requireLoopVariable {v v' : TypedName} (h : v.Twins same v') (iterable : Union) :
    Isolated same b b' limit 0 (requireLoopVariable v iterable) (requireLoopVariable v' iterable) := by
  unfold requireLoopVariable
  rw [h.name, h.types]
  exact .behind (isolated_requireDefined _ h.span) fun _ =>
    isolated_ite (isolated_requireMatch _ _ h.span _) (isolated_pure _)

theorem isolated_judgeBy (returns : List (Option Union)) (actual : Union) (hspan : same span span') :
    Isolated same b b' limit 0 (judgeBy returns actual span) (judgeBy returns actual span') := by
  cases returns with
  | nil => exact isolated_report _ hspan
  | cons types rest =>
    cases types with
    | none => exact isolated_pure _
    | some expected => exact isolated_requireMatch _ _ hspan _

theorem isolated_checkReturn (actual : Union) (hspan : same span span') :
    Isolated same b b' limit 0 (checkReturn actual span) (checkReturn actual span') := by
  rw [checkReturn_eq_judgeBy, checkReturn_eq_judgeBy]
  exact .behind (isolated_look CheckState.returns CheckState.returns fun _ _ hs => hs.returns) fun returns =>
    isolated_judgeBy returns actual hspan

end Leaves

/-! ## Expressions with several parts -/

section Parts

variable {span span' : Span} (step : Nat)

theorem isolated_binary (operator : BinaryOperator) (hspan : same span span') {left left' right right' : Expression}
    (hleft : Twin.OfExpression same b b' n left left') (hright : Twin.OfExpression same b b' m right right')
    (h : Isolated same b b' limit n (infer limit 0 left) (infer limit 0 left'))
    (h' : Isolated same b b' limit m (infer limit 1 right) (infer limit 1 right')) :
    Isolated same b b' limit (n + m) (infer limit step (.binary span operator left right))
      (infer limit step (.binary span' operator left' right')) := by
  unfold infer
  refine isolated_visit step hspan ?_
  cases operator with
  | assign | leftAssign | increment | decrement =>
    rw [Nat.add_comm]
    refine isolated_bind h' fun value => ?_
    have hother : Isolated same b b' limit n (infer limit 0 left >>= fun _ => pure value)
        (infer limit 0 left' >>= fun _ => pure value) := isolated_bind h fun _ => isolated_pure value
    cases hleft with
    | identifier name htarget => exact isolated_assignTo hspan htarget name value
    | _ => exact hother
  | dollar | slot =>
    exact (isolated_bind h fun object => isolated_typeOfAttribute object hright.accessName?).mono (Nat.le_add_right _ _)
  | namespaceAccess | internalAccess =>
    exact (isolated_bind (isolated_checkExport hleft hright) fun _ => isolated_pure _).mono (Nat.zero_le _)
  | pipe | magrittrPipe => exact isolated_bind h fun _ => h'
  | _ => exact isolated_bind h fun _ => isolated_bind h' fun _ => isolated_pure _

theorem isolated_for (hspan : same span span') {v v' : TypedName} (hv : v.Twins same v') {e e' : Expression}
    (h : Isolated same b b' limit n (infer limit 1 e) (infer limit 1 e')) {c c' : Block}
    (hbody : Along same b b' limit m (walkStatements limit c.statements) (walkStatements limit c'.statements)) :
    Isolated same b b' limit (n + m) (infer limit step (.forLoop span v e c)) (infer limit step (.forLoop span' v' e' c')) := by
  obtain ⟨ss, blockSpan⟩ := c
  obtain ⟨ss', blockSpan'⟩ := c'
  have hdoes (v : TypedName) (ss : List Statement) :
      Does limit .body (declareLocal v.name v.types v.span >>= fun _ => walkStatements limit ss) :=
    does_bind (does_declareLocal _ _ _) fun _ => does_ofStatement ((does_closed limit).walkStatements ss)
  have hlocal : Isolated same b b' limit 0 (declareLocal v.name v.types v.span) (declareLocal v'.name v'.types v'.span) := by
    rw [hv.name, hv.types]
    exact isolated_declareLocal _ _ hv.span
  rw [infer, infer]
  exact isolated_visit step hspan (isolated_bind h fun types =>
    .behind (isolated_requireLoopVariable hv types) fun _ =>
      isolated_bind (isolated_within .loop (hdoes v ss) (hdoes v' ss') (.behind hlocal fun _ => hbody)) fun _ =>
        isolated_pure _)

theorem isolated_call (hspan : same span span') {e e' : Expression} (he : Twin.OfExpression same b b' n e e')
    {as as' : List Argument} (has : Twin.OfArguments same b b' m as as')
    (h : Isolated same b b' limit n (infer limit 0 e) (infer limit 0 e'))
    (h' : Isolated same b b' limit m (inferArguments limit as) (inferArguments limit as')) :
    Isolated same b b' limit (n + m) (infer limit step (.call span e as)) (infer limit step (.call span' e' as')) := by
  unfold infer
  refine isolated_visit step hspan ?_
  cases he with
  | identifier name _ =>
    refine isolated_environment fun env env' henv => ?_
    rw [Nat.zero_add]
    exact isolated_bind h' fun types => isolated_finishCall has.twins types (calleeOf_twins henv name)
  | _ => exact isolated_bind h fun _ => isolated_bind h' fun _ => isolated_pure _

theorem isolated_function {f f' : FunctionLiteral} {k : Nat} (hf : Twin.OfFunction same b b' k f f')
    (h : Isolated same b b' limit n (walkParameters limit f.parameters) (walkParameters limit f'.parameters))
    (hbody : Along same b b' limit m (walkStatements limit f.body.statements) (walkStatements limit f'.body.statements)) :
    Isolated same b b' limit (n + m) (walkFunction limit f) (walkFunction limit f') := by
  have hdeclare : Isolated same b b' limit 0 (declareFunction f) (declareFunction f') := isolated_declareFunction hf
  have hdoes (receiver : Option TypedName) (ps : List Parameter) (types : Option Union) (ss : List Statement) :
      Does limit .body (declareReceiver receiver >>= fun _ => walkParameters limit ps >>= fun _ =>
        returning types (walkStatements limit ss)) :=
    does_bind ((does_closed limit).declareReceiver receiver) fun _ =>
      does_bind ((does_closed limit).walkParameters ps) fun _ =>
        does_returning types (does_ofStatement ((does_closed limit).walkStatements ss))
  cases hf with
  | @mk _ _ _ _ _ receiver receiver' ps ps' body body' _ _ name types hspan hreceiver _ _ _ =>
    obtain ⟨ss, blockSpan⟩ := body
    obtain ⟨ss', blockSpan'⟩ := body'
    rw [walkFunction, walkFunction]
    refine .behind hdeclare fun _ => .behind (isolated_requireSignature types hspan) fun _ => ?_
    refine isolated_within .function (hdoes receiver ps types ss) (hdoes receiver' ps' types ss') ?_
    exact .behind (isolated_declareReceiver hreceiver) fun _ => along_bind h fun _ => along_returning types hbody

/-- In a body that differs each walk does what walking its own body does. -/
theorem along_place (limit : Nat) : Along same b b' limit 1 (walkStatements limit b) (walkStatements limit b') := by
  intro s s' hs
  obtain ⟨mid, hmid, -⟩ := ((settles limit).walkStatements b).1 s
  obtain ⟨mid', hmid', -⟩ := ((settles limit).walkStatements b').1 s'
  refine ⟨mid ++ [], mid' ++ [], ?_, ?_, .body hmid hmid' (.nil 0 _ _)⟩
  · rwa [List.append_nil]
  · rwa [List.append_nil]

theorem isolated_block (kind : FrameKind) {c c' : Block}
    (h : Along same b b' limit n (walkStatements limit c.statements) (walkStatements limit c'.statements)) :
    Isolated same b b' limit n (walkBlock limit kind c) (walkBlock limit kind c') := by
  obtain ⟨ss, span⟩ := c
  obtain ⟨ss', span'⟩ := c'
  rw [walkBlock, walkBlock]
  exact isolated_within kind (does_ofStatement ((does_closed limit).walkStatements ss))
    (does_ofStatement ((does_closed limit).walkStatements ss')) h

end Parts

/-! ## The walk -/

section Walk

mutual

theorem isolated_infer (limit step : Nat) : ∀ {n : Nat} {e e' : Expression}, Twin.OfExpression same b b' n e e' →
    Isolated same b b' limit n (infer limit step e) (infer limit step e')
  | _, _, _, .identifier name hspan => by
    rw [infer, infer]
    exact isolated_visit step hspan (isolated_typeOfName hspan name)
  | _, _, _, .literal value hspan => by
    rw [infer, infer]
    exact isolated_visit step hspan (isolated_pure _)
  | _, _, _, .vector hspan h => by
    rw [infer, infer, h.isEmpty]
    exact isolated_visit step hspan (isolated_bind (isolated_inferAll limit h) fun _ => isolated_pure _)
  | _, _, _, .unary operator hspan h => by
    rw [infer, infer]
    exact isolated_visit step hspan (isolated_infer limit 1 h)
  | _, _, _, .binary operator hspan hleft hright =>
    isolated_binary step operator hspan hleft hright (isolated_infer limit 0 hleft) (isolated_infer limit 1 hright)
  | _, _, _, .branch hspan h hc => by
    rw [infer, infer]
    exact isolated_visit step hspan (isolated_bind (isolated_infer limit 1 h) fun _ =>
      isolated_bind (isolated_walkBlock limit .branch hc) fun _ => isolated_pure _)
  | _, _, _, .branches hspan h hc ha => by
    rw [infer, infer]
    exact isolated_visit step hspan (isolated_bind (isolated_infer limit 1 h) fun _ =>
      isolated_bind (isolated_walkBlock limit .branch hc) fun _ =>
        isolated_bind (isolated_walkBlock limit .branch ha) fun _ => isolated_pure _)
  | _, _, _, .forLoop hspan hv h hbody =>
    isolated_for step hspan hv (isolated_infer limit 1 h) (along_body limit hbody)
  | _, _, _, .whileLoop hspan h hbody => by
    rw [infer, infer]
    exact isolated_visit step hspan (isolated_bind (isolated_infer limit 1 h) fun _ =>
      isolated_bind (isolated_walkBlock limit .loop hbody) fun _ => isolated_pure _)
  | _, _, _, .repeatLoop hspan hbody => by
    rw [infer, infer]
    exact isolated_visit step hspan (isolated_bind (isolated_walkBlock limit .loop hbody) fun _ => isolated_pure _)
  | _, _, _, .function hspan h => by
    rw [infer, infer]
    exact isolated_visit step hspan (isolated_bind (isolated_walkFunction limit h) fun _ => isolated_pure _)
  | _, _, _, .call hspan h has =>
    isolated_call step hspan h has (isolated_infer limit 0 h) (isolated_inferArguments limit has)
  | _, _, _, .index double hspan h has => by
    rw [infer, infer]
    exact isolated_visit step hspan (isolated_bind (isolated_infer limit 0 h) fun _ =>
      isolated_bind (isolated_inferArguments limit has) fun _ => isolated_pure _)

theorem isolated_inferAll (limit : Nat) : ∀ {n : Nat} {es es' : List Expression}, Twin.OfElements same b b' n es es' →
    Isolated same b b' limit n (inferAll limit es) (inferAll limit es')
  | _, _, _, .nil => isolated_pure _
  | _, _, _, .cons h hrest => by
    rw [inferAll, inferAll]
    exact isolated_bind (isolated_infer limit 1 h) fun _ =>
      isolated_bind (isolated_inferAll limit hrest) fun _ => isolated_pure _

theorem isolated_inferArguments (limit : Nat) : ∀ {n : Nat} {as as' : List Argument},
    Twin.OfArguments same b b' n as as' → Isolated same b b' limit n (inferArguments limit as) (inferArguments limit as')
  | _, _, _, .nil => isolated_pure _
  | _, _, _, .cons _ h hrest => by
    rw [inferArguments, inferArguments]
    exact isolated_bind (isolated_infer limit 1 h) fun _ =>
      isolated_bind (isolated_inferArguments limit hrest) fun _ => isolated_pure _

theorem isolated_walkParameters (limit : Nat) : ∀ {n : Nat} {ps ps' : List Parameter},
    Twin.OfParameters same b b' n ps ps' →
      Isolated same b b' limit n (walkParameters limit ps) (walkParameters limit ps')
  | _, _, _, .nil => isolated_pure _
  | _, _, _, .plain name types hspan hrest => by
    have hrest' := isolated_walkParameters limit hrest
    rw [walkParameters, walkParameters]
    exact .behind (isolated_requireSignature types hspan) fun _ =>
      isolated_ite hrest' (.behind (isolated_declareLocal _ _ hspan) fun _ => hrest')
  | _, _, _, .default name types hspan h hrest => by
    have hrest' := isolated_walkParameters limit hrest
    rw [walkParameters, walkParameters]
    exact .behind (isolated_requireSignature types hspan) fun _ => isolated_bind (isolated_infer limit 1 h) fun _ =>
      .behind (isolated_requireMatch _ _ h.span _) fun _ =>
        isolated_ite hrest' (.behind (isolated_declareLocal _ _ hspan) fun _ => hrest')

theorem isolated_walkFunction (limit : Nat) : ∀ {n : Nat} {f f' : FunctionLiteral},
    Twin.OfFunction same b b' n f f' → Isolated same b b' limit n (walkFunction limit f) (walkFunction limit f')
  | _, _, _, .mk name types hspan hreceiver hps hbody hds =>
    (isolated_function (.mk name types hspan hreceiver hps hbody hds) (isolated_walkParameters limit hps)
      (along_body limit hbody)).mono (Nat.le_add_right _ _)

theorem along_body (limit : Nat) : ∀ {n : Nat} {c c' : Block}, Twin.OfBlock same b b' n c c' →
    Along same b b' limit n (walkStatements limit c.statements) (walkStatements limit c'.statements)
  | _, _, _, .statements _ _ h => (isolated_walkStatements limit h).along
  | _, _, _, .place _ _ => along_place limit

theorem isolated_walkBlock (limit : Nat) (kind : FrameKind) : ∀ {n : Nat} {c c' : Block},
    Twin.OfBlock same b b' n c c' → Isolated same b b' limit n (walkBlock limit kind c) (walkBlock limit kind c')
  | _, _, _, .statements span span' h => isolated_block kind (isolated_walkStatements limit h).along
  | _, _, _, .place span span' => isolated_block kind (along_place limit)

theorem isolated_walkStatements (limit : Nat) : ∀ {n : Nat} {ss ss' : List Statement},
    Twin.OfStatements same b b' n ss ss' → Isolated same b b' limit n (walkStatements limit ss) (walkStatements limit ss')
  | _, _, _, .nil => isolated_pure _
  | _, _, _, .cons h hrest => by
    rw [walkStatements, walkStatements]
    exact isolated_bind (isolated_walkStatement limit h) fun _ => isolated_walkStatements limit hrest

theorem isolated_walkStatement (limit : Nat) : ∀ {n : Nat} {st st' : Statement},
    Twin.OfStatement same b b' n st st' → Isolated same b b' limit n (walkStatement limit st) (walkStatement limit st')
  | _, _, _, .declared constant htarget => by
    rw [walkStatement, walkStatement]
    exact isolated_declareBinding constant htarget none
  | _, _, _, .bound constant htarget h => by
    rw [walkStatement, walkStatement]
    exact isolated_bind (isolated_infer limit 1 h) fun _ => isolated_declareBinding constant htarget _
  | _, _, _, .left hspan => by
    rw [walkStatement, walkStatement]
    exact isolated_checkReturn _ hspan
  | _, _, _, .returned hspan h => by
    rw [walkStatement, walkStatement]
    exact isolated_bind (isolated_infer limit 1 h) fun _ => isolated_checkReturn _ hspan
  | _, _, _, .typeDeclaration h => by
    rw [walkStatement, walkStatement]
    exact (isolated_declareType h).mono (Nat.zero_le _)
  | _, _, _, .comment text roxygen hspan => by
    rw [walkStatement, walkStatement]
    exact isolated_pure _
  | _, _, _, .defer hspan h => by
    have hrest := isolated_bind (isolated_infer limit 1 h) fun _ => isolated_pure ()
    rw [walkStatement, walkStatement]
    refine isolated_environment fun env env' henv => ?_
    rw [henv.inFunction]
    exact isolated_ite hrest (.behind (isolated_report _ hspan) fun _ => hrest)
  | _, _, _, .jump kind hspan => by
    rw [walkStatement, walkStatement]
    refine isolated_environment fun env env' henv => ?_
    rw [henv.inLoop]
    exact isolated_ite (isolated_pure _) (isolated_report _ hspan)
  | _, _, _, .block h => by
    rw [walkStatement, walkStatement]
    exact isolated_walkBlock limit .block h
  | _, _, _, .expression h => by
    rw [walkStatement, walkStatement]
    exact isolated_bind (isolated_infer limit 1 h) fun _ => isolated_pure _

end

end Walk

end Check

/-! ## Programs -/

namespace Act

/-- What some acts report, in the order they do. -/
def reported (acts : List Act) : List Report :=
  acts.flatMap fun
    | .report rs => rs.reverse
    | _ => []

/-- The types that some acts file, in the order they do. -/
def filed (acts : List Act) : List (Span × Union) :=
  acts.filterMap fun
    | .file _ span types => some (span, types)
    | _ => none

theorem reported_append (acts more : List Act) : reported (acts ++ more) = reported acts ++ reported more :=
  List.flatMap_append

theorem filed_append (acts more : List Act) : filed (acts ++ more) = filed acts ++ filed more :=
  List.filterMap_append

/-- Behind some acts there is, in front of what was reported and filed before, what they reported and filed. -/
theorem after_tells : ∀ (acts : List Act) (s : CheckState),
    (s.after acts).reports.reverse = s.reports.reverse ++ reported acts ∧
      (s.after acts).types.reverse = s.types.reverse ++ filed acts
  | [], s => ⟨(List.append_nil _).symm, (List.append_nil _).symm⟩
  | a :: acts, s => by
    have hfirst : (a.apply s).reports.reverse = s.reports.reverse ++ reported [a] ∧
        (a.apply s).types.reverse = s.types.reverse ++ filed [a] := by
      cases a <;> simp [apply, effect, reported, filed]
    obtain ⟨hreports, htypes⟩ := after_tells acts (a.apply s)
    rw [CheckState.after_cons, hreports, htypes, hfirst.1, hfirst.2, List.append_assoc, List.append_assoc,
      ← reported_append, ← filed_append]
    exact ⟨rfl, rfl⟩

/-- Acts that are the same report the same. -/
theorem reported_twins {acts acts' : List Act} (h : List.Forall₂ (Act.Twins same b b') acts acts') :
    List.Forall₂ (Report.Twins same) (reported acts) (reported acts') := by
  refine List.rel_flatMap h fun a a' ha => ?_
  cases ha with
  | report h => exact List.rel_reverse h
  | _ => exact .nil

/-- Acts that are the same file the same types. -/
theorem filed_twins {acts acts' : List Act} (h : List.Forall₂ (Act.Twins same b b') acts acts') :
    List.Forall₂ (fun t t' => same t.1 t'.1 ∧ t.2 = t'.2) (filed acts) (filed acts') := by
  refine List.rel_filterMap (fun a a' ha => ?_) h
  cases ha with
  | file _ hspan types => exact .some ⟨hspan, rfl⟩
  | _ => exact .none

end Act

namespace Program

/-- **What happens in a body stays in it.**  Walked from the same root frame, two programs that differ in the statements of
one body do the same in front of that body and behind it, and each of them walks its own statements there, or neither does.
So they report the same outside of the body and in the same order, infer the same types there, and leave root frames that
declare the same, types in the same order. -/
theorem walk_isolates (hsame : ∀ span, same span span) {program program' : Program}
    (htwins : Twin.OfStatements same b b' 1 program.statements program'.statements) (root : Frame)
    (packages : Option PackageCache) (hstatic : ∀ cache ∈ packages, cache.IsStatic) (limit : Nat) :
    let start : CheckState := { environment := .ofRoot root, packages }
    let out := program.walk (.ofRoot root) packages limit
    let out' := program'.walk (.ofRoot root) packages limit
    (∃ pre mid post pre' mid' post',
      Check.Performs (Check.walkStatements limit program.statements) start (pre ++ (mid ++ post)) ∧
      Check.Performs (Check.walkStatements limit program'.statements) start (pre' ++ (mid' ++ post')) ∧
      List.Forall₂ (Act.Twins same b b') pre pre' ∧ List.Forall₂ (Act.Twins same b b') post post' ∧
      (mid = [] ∧ mid' = [] ∨ Check.Performs (Check.walkStatements limit b) (start.after pre) mid ∧
        Check.Performs (Check.walkStatements limit b') (start.after pre') mid') ∧
      (out.reports = Act.reported pre ++ (Act.reported mid ++ Act.reported post) ∧
        out'.reports = Act.reported pre' ++ (Act.reported mid' ++ Act.reported post') ∧
        List.Forall₂ (Report.Twins same) (Act.reported pre) (Act.reported pre') ∧
        List.Forall₂ (Report.Twins same) (Act.reported post) (Act.reported post')) ∧
      out.types.reverse = Act.filed pre ++ (Act.filed mid ++ Act.filed post) ∧
      out'.types.reverse = Act.filed pre' ++ (Act.filed mid' ++ Act.filed post') ∧
      List.Forall₂ (fun t t' => same t.1 t'.1 ∧ t.2 = t'.2) (Act.filed pre) (Act.filed pre') ∧
      List.Forall₂ (fun t t' => same t.1 t'.1 ∧ t.2 = t'.2) (Act.filed post) (Act.filed post')) ∧
    List.Forall₂ (Variable.Twins same) out.environment.root.bindings out'.environment.root.bindings ∧
    List.Forall₂ (FunctionSignature.Twins same) out.environment.root.functions out'.environment.root.functions ∧
    List.Forall₂ (TypeEntry.Twins same b b') out.environment.root.declaredTypes out'.environment.root.declaredTypes := by
  intro start out out'
  have hstart : start.Twins same b b' start := ⟨.ofRoot hsame root, rfl, hstatic, hstatic, rfl, rfl⟩
  obtain ⟨⟨acts, acts', hacts, hacts', hparallel⟩, -, hend⟩ :=
    Check.isolated_walkStatements limit htwins start start hstart
  have hroot : out.environment.root.Twins same b b' out'.environment.root := hend.environment.root
  refine ⟨?_, hroot.bindings, hroot.functions, hroot.declaredTypes⟩
  -- Whatever three stretches the acts are cut into, what is reported and filed is cut with them.
  have htells (p : Program) {pre mid post : List Act}
      (h : Check.Performs (Check.walkStatements limit p.statements) start (pre ++ (mid ++ post))) :
      (p.walk (.ofRoot root) packages limit).reports =
          Act.reported pre ++ (Act.reported mid ++ Act.reported post) ∧
        (p.walk (.ofRoot root) packages limit).types.reverse = Act.filed pre ++ (Act.filed mid ++ Act.filed post) := by
    obtain ⟨hreports, htypes⟩ := Act.after_tells (pre ++ (mid ++ post)) start
    rw [h.after_eq] at hreports htypes
    rw [← Act.reported_append, ← Act.reported_append, ← Act.filed_append, ← Act.filed_append]
    exact ⟨hreports, htypes⟩
  obtain hall | ⟨pre, mid, post, pre', mid', post', rfl, rfl, hpre, hpost, hmid, hmid'⟩ := hparallel.of_one
  · have hcut : ∀ as : List Act, as = as ++ ([] ++ []) := fun as => (List.append_nil as).symm
    rw [hcut acts] at hacts
    rw [hcut acts'] at hacts'
    obtain ⟨hreports, htypes⟩ := htells program hacts
    obtain ⟨hreports', htypes'⟩ := htells program' hacts'
    exact ⟨acts, [], [], acts', [], [], hacts, hacts', hall, .nil, .inl ⟨rfl, rfl⟩,
      ⟨hreports, hreports', Act.reported_twins hall, .nil⟩, htypes, htypes', Act.filed_twins hall, .nil⟩
  · obtain ⟨hreports, htypes⟩ := htells program hacts
    obtain ⟨hreports', htypes'⟩ := htells program' hacts'
    exact ⟨pre, mid, post, pre', mid', post', hacts, hacts', hpre, hpost, .inr ⟨hmid, hmid'⟩,
      ⟨hreports, hreports', Act.reported_twins hpre, Act.reported_twins hpost⟩, htypes, htypes', Act.filed_twins hpre,
      Act.filed_twins hpost⟩

/-- A type and a variable that a block declares are gone behind it, and a report that is raised in it stays alone. -/
theorem walk_isolates_block :
    let point (line : Nat) : Span := ⟨"m.vp", ⟨line, 1⟩, ⟨line, 1⟩⟩
    let int : Union := .named "int"
    let inside : List Statement := [.typeDeclaration ⟨"t", point 1, false, .plain, int, [], []⟩,
      .binding false ⟨"x", point 2, .named "t"⟩ none, .return none (point 3)]
    let around (body : List Statement) : Program :=
      ⟨[.block ⟨body, point 1⟩, .binding false ⟨"x", point 4, int⟩ none]⟩
    ((around inside).walk (.ofRoot .builtin) none 4).reports = [⟨.returnOutsideFunction, point 3⟩] ∧
      ((around []).walk (.ofRoot .builtin) none 4).reports = [] ∧
      List.Forall₂ (Variable.Twins Eq) ((around inside).walk (.ofRoot .builtin) none 4).environment.root.bindings
        ((around []).walk (.ofRoot .builtin) none 4).environment.root.bindings := by
  intro point int inside around
  have htwins : Twin.OfStatements Eq inside [] 1 (around inside).statements (around []).statements :=
    .cons (.block (.place _ _)) (Twin.statements_refl (fun _ => rfl) _)
  have hisolated := walk_isolates (fun _ => rfl) htwins .builtin none (fun _ h => nomatch h) 4
  refine ⟨?_, ?_, hisolated.2.1⟩
  · subst inside around int point
    cbv
  · subst inside around int point
    cbv

end Program
end UnionScript
