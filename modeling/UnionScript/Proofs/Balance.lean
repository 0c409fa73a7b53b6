import UnionScript.Proofs.Effect
/-!
# Balance — what a walk leaves of the scopes around it

A walk leaves the scopes as it found them, but for what it declared in the innermost frame: that frame keeps all of its
entries and gains some under new names, only functions if an expression was walked (`Frame.MayBecome`).  Everything
below it, the return types and the depth are as before, and what was reported stays reported (`walk_continues`).  The
invariant is `CheckState.Continues`; that a frame which was opened is closed again is `frames_closed`, the only place
where what stands below the innermost frame matters.
-/
namespace UnionScript

/-! ## Frames -/

/-- A list of entries with some more behind it, none of which has a name that was taken. -/
def Gains {α : Type} (nameOf : α → String) (before after : List α) : Prop :=
  ∃ new, after = before ++ new ∧ ∀ a ∈ new, nameOf a ∉ before.map nameOf

namespace Gains

variable {α : Type} {nameOf : α → String} {before between after : List α}

theorem refl (entries : List α) : Gains nameOf entries entries := ⟨[], by simp, by simp⟩

theorem trans (h : Gains nameOf before between) (h' : Gains nameOf between after) : Gains nameOf before after := by
  obtain ⟨new, rfl, hnew⟩ := h
  obtain ⟨new', rfl, hnew'⟩ := h'
  refine ⟨new ++ new', by rw [List.append_assoc], fun a ha => ?_⟩
  rcases List.mem_append.1 ha with ha | ha
  · exact hnew a ha
  · exact fun hm => hnew' a ha (by rw [List.map_append]; exact List.mem_append_left _ hm)

/-- Putting an entry under a name that no entry has puts it behind the others. -/
theorem put {a : α} {entries : List α} (hfree : entries.find? (fun b => nameOf b == nameOf a) = none) :
    Gains nameOf entries (Frame.put nameOf a entries) := by
  have hne : ∀ b ∈ entries, nameOf b ≠ nameOf a := by simpa using hfree
  refine ⟨[a], ?_, ?_⟩
  · rw [Frame.put, List.filter_eq_self.2 (by simpa using hne)]
  · simpa using hne

end Gains

/-- What may become of the innermost frame when something is walked in it. -/
def Frame.MayBecome : Check.Extent → Frame → Frame → Prop
  | .expression, f, f' => f'.kind = f.kind ∧ f'.bindings = f.bindings ∧ f'.types = f.types ∧
    Gains FunctionSignature.name f.functions f'.functions
  | .statement, f, f' => f'.kind = f.kind ∧ Gains Variable.name f.bindings f'.bindings ∧
    Gains TypeEntry.name f.types f'.types ∧ Gains FunctionSignature.name f.functions f'.functions
  | .body, f, f' => f'.kind = f.kind

theorem Frame.MayBecome.refl : ∀ (x : Check.Extent) (f : Frame), f.MayBecome x f
  | .expression, _ => ⟨rfl, rfl, rfl, .refl _⟩
  | .statement, _ => ⟨rfl, .refl _, .refl _, .refl _⟩
  | .body, _ => rfl

/-- What an expression may make of a frame a statement may, and so on. -/
theorem Frame.MayBecome.ofExpression {f f' : Frame} : ∀ {x : Check.Extent}, f.MayBecome .expression f' →
    f.MayBecome x f'
  | .expression, h => h
  | .statement, ⟨hk, hb, ht, hf⟩ => ⟨hk, hb ▸ .refl _, ht ▸ .refl _, hf⟩
  | .body, ⟨hk, _, _, _⟩ => hk

theorem Frame.MayBecome.trans {f g h : Frame} : ∀ {x : Check.Extent}, f.MayBecome x g → g.MayBecome x h →
    f.MayBecome x h
  | .expression, ⟨hk, hb, ht, hf⟩, ⟨hk', hb', ht', hf'⟩ => ⟨hk'.trans hk, hb'.trans hb, ht'.trans ht, hf.trans hf'⟩
  | .statement, ⟨hk, hb, ht, hf⟩, ⟨hk', hb', ht', hf'⟩ => ⟨hk'.trans hk, hb.trans hb', ht.trans ht', hf.trans hf'⟩
  | .body, hk, hk' => Eq.trans hk' hk

namespace Environment

theorem frames_eq (env : Environment) : env.frames = env.current :: env.frames.tail := by
  obtain ⟨inner, root, next⟩ := env
  cases inner <;> rfl

theorem frames_modifyCurrent (env : Environment) (f : Frame → Frame) :
    (env.modifyCurrent f).frames = f env.current :: env.frames.tail := by
  obtain ⟨inner, root, next⟩ := env
  cases inner <;> rfl

theorem current_eq_of_frames {env : Environment} {f : Frame} {fs : List Frame} (h : env.frames = f :: fs) :
    env.current = f := by
  rw [frames_eq] at h
  exact (List.cons.inj h).1

/-- What no frame has the innermost one has not. -/
theorem findSome?_frames_eq_none {α : Type} {env : Environment} {find : Frame → Option α}
    (h : env.frames.findSome? find = none) : find env.current = none := by
  rw [frames_eq, List.findSome?_eq_none_iff] at h
  exact h _ List.mem_cons_self

/-- Closing the innermost frame brings back the frames below it, as long as they are what they were. -/
theorem frames_closed {env opened : Environment} (h : opened.frames.tail = env.frames) :
    opened.pop.frames = env.frames := by
  obtain ⟨inner, root, next⟩ := opened
  cases inner with
  | nil =>
    rw [frames_eq env] at h
    cases h
  | cons f inner => exact h

end Environment

/-! ## States -/

open Check (Extent Effect)

/-- What a walk of some extent keeps of the checker's state. -/
structure CheckState.Continues (x : Extent) (s s' : CheckState) : Prop where
  below : s'.environment.frames.tail = s.environment.frames.tail
  current : s.environment.current.MayBecome x s'.environment.current
  returns : s'.returns = s.returns
  depth : s'.depth = s.depth
  reports : s.reports.reverse <+: s'.reports.reverse

namespace CheckState.Continues

variable {x : Extent}

theorem refl (s : CheckState) : s.Continues x s := ⟨rfl, .refl _ _, rfl, rfl, List.prefix_rfl⟩

theorem trans {s t u : CheckState} (h : s.Continues x t) (h' : t.Continues x u) : s.Continues x u :=
  ⟨h'.below.trans h.below, h.current.trans h'.current, h'.returns.trans h.returns, h'.depth.trans h.depth,
    h.reports.trans h'.reports⟩

/-- A change that replaces the innermost frame by one that it may become. -/
theorem ofChange {s : CheckState} {c : Environment.Change} {f : Frame}
    (hframes : (s.environment.apply c).frames = f :: s.environment.frames.tail)
    (hf : s.environment.current.MayBecome x f) : s.Continues x (Check.change c s).2 where
  below := by
    show (s.environment.apply c).frames.tail = s.environment.frames.tail
    rw [hframes, List.tail_cons]
  current := by
    show s.environment.current.MayBecome x (s.environment.apply c).current
    rwa [Environment.current_eq_of_frames hframes]
  returns := rfl
  depth := rfl
  reports := List.prefix_rfl

/-- **Every effect keeps what a walk keeps.** -/
theorem ofEffect {limit : Nat} {s s' : CheckState} (h : Effect limit x s s') : s.Continues x s' := by
  induction h with
  | nothing s => exact refl s
  | andThen _ _ ih ih' => exact ih.trans ih'
  | report s rs => exact { refl s with reports := List.reverse_prefix.2 (List.suffix_append rs s.reports) }
  | ask s name => exact ⟨rfl, .refl _ _, rfl, rfl, List.prefix_rfl⟩
  | @function x s g hfree =>
    refine ofChange (Environment.frames_modifyCurrent _ _) ?_
    have hgains : Gains FunctionSignature.name s.environment.current.functions _ :=
      .put (a := g) (by simpa [Environment.declaresFunctionHere, Frame.findFunction?] using hfree)
    cases x with
    | expression => exact ⟨rfl, rfl, rfl, hgains⟩
    | statement => exact ⟨rfl, .refl _, .refl _, hgains⟩
    | body => rfl
  | @«variable» x s v hx hfree =>
    refine ofChange (Environment.frames_modifyCurrent _ _) ?_
    have hgains : Gains Variable.name s.environment.current.bindings _ := .put (a := v) ?_
    · cases x with
      | expression => exact absurd rfl hx
      | statement => exact ⟨rfl, hgains, .refl _, .refl _⟩
      | body => rfl
    · exact Environment.findSome?_frames_eq_none hfree
  | @type x s t hx hfree =>
    refine ofChange (f := s.environment.current.putType { t with order := s.environment.nextOrder })
      (Environment.frames_modifyCurrent _ _) ?_
    have hnone : s.environment.current.types.find? (fun u => u.name == t.name) = none :=
      Environment.findSome?_frames_eq_none hfree
    have hgains : Gains TypeEntry.name s.environment.current.types _ :=
      .put (a := { t with order := s.environment.nextOrder }) hnone
    cases x with
    | expression => exact absurd rfl hx
    | statement => exact ⟨rfl, .refl _, hgains, .refl _⟩
    | body => rfl
  | «local» s v => exact ofChange (Environment.frames_modifyCurrent _ _) rfl
  | @deeper x s t step span types hlimit inside ih =>
    have hdepth : t.depth - step = s.depth := by
      rw [show t.depth = s.depth + step from ih.depth, Nat.add_sub_cancel]
    exact ⟨ih.below, ih.current.ofExpression, ih.returns, hdepth, ih.reports⟩
  | @within x s t kind inside ih =>
    have hframes : t.environment.pop.frames = s.environment.frames := Environment.frames_closed ih.below
    have hcurrent : t.environment.pop.current = s.environment.current :=
      Environment.current_eq_of_frames (hframes.trans (Environment.frames_eq _))
    refine ⟨congrArg List.tail hframes, ?_, ih.returns, ih.depth, ih.reports⟩
    show s.environment.current.MayBecome x t.environment.pop.current
    rw [hcurrent]
    exact .refl _ _
  | @returning s t types inside ih =>
    have hreturns : t.returns.tail = s.returns := congrArg List.tail ih.returns
    exact ⟨ih.below, ih.current, hreturns, ih.depth, ih.reports⟩

end CheckState.Continues

/-- **A walk gives the scopes back.**  Whatever the state it starts from and whatever it reports on its way, under any
limit of the depth: every frame below the innermost one is as before; the innermost one has its kind and all of its
entries, and has gained entries under new names only, after an expression none but functions; the depth and the return
types are as before; and what was reported before is the beginning of what is reported after. -/
theorem walk_continues (limit : Nat) (s : CheckState) :
    (∀ step e, s.Continues .expression (Check.infer limit step e s).2) ∧
      (∀ st, s.Continues .statement (Check.walkStatement limit st s).2) :=
  ⟨fun step e => .ofEffect ((Check.does_closed limit).infer step e .expression s),
    fun st => .ofEffect ((Check.does_closed limit).walkStatement st s)⟩

end UnionScript
