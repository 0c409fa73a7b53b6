import Mathlib
import UnionScript.Proofs.Alike
import UnionScript.Scope.Matching
/-!
# Reach — what an expected union leads to

A union leads to its own alternatives, and from each of them that names a declared type on to the members of that type
(`Leads`).  The search behind `unmatched` opens every type once as such and once as a list, and finds all that is led
to nevertheless (`accepts_iff`): when it ends without success, every alternative it has seen failed, and the types
behind those alternatives were all opened (`sweep_of_not_accepts`).  So the verdict is a matter of the graph that the
declared types span, and neither order nor repetition of alternatives plays a part (`unmatched_iff_led_to`).
-/
namespace UnionScript
namespace Environment

/-! ## The graph of alternatives -/

/-- The alternatives that some others lead to: themselves, and the members of every declared type on the way, as lists
where a list of the type is meant. -/
inductive Leads (env : Environment) (start : List TypeName) : TypeName → Prop
  | own {t : TypeName} (ht : t ∈ start) : Leads env start t
  | member {t m : TypeName} {entry : TypeEntry} (ht : Leads env start t)
      (hfind : env.findType? t.name = some entry) (hdeclared : entry.builtin = false)
      (hm : m ∈ entry.types.alternatives) : Leads env start { m with list := m.list || t.list }

theorem Leads.of_members {env : Environment} {start : List TypeName} {t m : TypeName} {entry : TypeEntry}
    (ht : env.Leads start t) (hfind : env.findType? t.name = some entry) (hdeclared : entry.builtin = false)
    (hm : m ∈ members entry t.list) : env.Leads start m := by
  obtain ⟨m', hm', rfl⟩ := List.mem_map.1 hm
  exact .member ht hfind hdeclared hm'

/-- What is led to from alternatives that are led to themselves is led to. -/
theorem Leads.trans {env : Environment} {start between : List TypeName} (hb : ∀ t ∈ between, env.Leads start t)
    {t : TypeName} (ht : env.Leads between t) : env.Leads start t := by
  induction ht with
  | own ht => exact hb _ ht
  | member _ hfind hdeclared hm ih => exact .member ih hfind hdeclared hm

theorem Leads.mono {env : Environment} {start more : List TypeName} (h : ∀ t ∈ start, t ∈ more) {t : TypeName}
    (ht : env.Leads start t) : env.Leads more t :=
  Leads.trans (fun t hm => .own (h t hm)) ht

theorem findType?_name {env : Environment} {name : String} {entry : TypeEntry} (h : env.findType? name = some entry) :
    entry.name = name := by
  obtain ⟨f, -, hf⟩ := List.exists_of_findSome?_eq_some h
  simpa using List.find?_some hf

/-! ## The search -/

/-- What success of the search means for one alternative. -/
def Hits (actual t : TypeName) : Prop := t.isAny = true ∨ t.agrees actual = true

/-- A successful search has found an alternative that is led to. -/
theorem leads_of_accepts (env : Environment) (actual : TypeName) (opened : List Opened) (pending : List TypeName)
    (h : env.accepts actual opened pending = true) : ∃ t, env.Leads pending t ∧ Hits actual t := by
  fun_induction accepts env actual opened pending with
  | case1 opened => cases h
  | case2 opened candidate rest hhit => exact ⟨candidate, .own List.mem_cons_self, by simpa [Hits] using hhit⟩
  | case3 opened candidate rest _ _ ih | case4 opened candidate rest _ entry _ _ ih =>
    obtain ⟨t, ht, hhit⟩ := ih h
    exact ⟨t, ht.mono fun _ => List.mem_cons_of_mem _, hhit⟩
  | case5 opened candidate rest _ entry hfind hnew _ ih =>
    obtain ⟨t, ht, hhit⟩ := ih h
    refine ⟨t, ht.trans fun u hu => ?_, hhit⟩
    rcases List.mem_append.1 hu with hu | hu
    · exact (Leads.own List.mem_cons_self).of_members hfind (by simpa using fun e => hnew (Or.inl e)) hu
    · exact .own (List.mem_cons_of_mem _ hu)

/-- An alternative that the search has passed without success: it does not fit, and the type behind it, if there is
one, is among the opened ones. -/
structure Missed (env : Environment) (actual : TypeName) (opened : List Opened) (t : TypeName) : Prop where
  not_hits : ¬Hits actual t
  opened_of_find : ∀ entry, env.findType? t.name = some entry → entry.builtin = false → (entry.name, t.list) ∈ opened

/-- What a search without success has opened in the end: more than at its start, with all pending alternatives missed,
and all members of what it opened on the way missed as well. -/
structure Sweep (env : Environment) (actual : TypeName) (opened : List Opened) (pending : List TypeName)
    (final : List Opened) : Prop where
  grows : ∀ key ∈ opened, key ∈ final
  pending_missed : ∀ t ∈ pending, Missed env actual final t
  members_missed : ∀ key ∈ final, key ∉ opened → ∀ entry, env.findType? key.1 = some entry →
    ∀ m ∈ members entry key.2, Missed env actual final m

theorem sweep_of_not_accepts (env : Environment) (actual : TypeName) (opened : List Opened) (pending : List TypeName)
    (h : env.accepts actual opened pending = false) : ∃ final, Sweep env actual opened pending final := by
  fun_induction accepts env actual opened pending with
  | case1 opened => exact ⟨opened, fun _ hk => hk, by simp, fun _ hk hn => absurd hk hn⟩
  | case2 opened candidate rest hhit => cases h
  | case3 opened candidate rest hhit hfind ih =>
    obtain ⟨final, hs⟩ := ih h
    refine ⟨final, hs.grows, List.forall_mem_cons.2 ⟨⟨by simpa [Hits] using hhit, fun entry he => ?_⟩,
      hs.pending_missed⟩, hs.members_missed⟩
    rw [hfind] at he
    cases he
  | case4 opened candidate rest hhit entry hfind hseen ih =>
    obtain ⟨final, hs⟩ := ih h
    refine ⟨final, hs.grows, List.forall_mem_cons.2 ⟨⟨by simpa [Hits] using hhit, fun entry' he hdeclared => ?_⟩,
      hs.pending_missed⟩, hs.members_missed⟩
    obtain rfl : entry = entry' := Option.some.inj (hfind.symm.trans he)
    exact hs.grows _ (hseen.resolve_left (by simp [hdeclared]))
  | case5 opened candidate rest hhit entry hfind hnew _ ih =>
    obtain ⟨final, hs⟩ := ih h
    refine ⟨final, fun key hk => hs.grows key (List.mem_cons_of_mem _ hk), List.forall_mem_cons.2
      ⟨⟨by simpa [Hits] using hhit, fun entry' he _ => ?_⟩, fun t ht => hs.pending_missed t (List.mem_append_right _ ht)⟩,
      fun key hk hn entry' he m hm => ?_⟩
    · obtain rfl : entry = entry' := Option.some.inj (hfind.symm.trans he)
      exact hs.grows _ List.mem_cons_self
    · by_cases hkey : key = (entry.name, candidate.list)
      · subst hkey
        rw [findType?_name hfind, hfind] at he
        obtain rfl : entry = entry' := Option.some.inj he
        exact hs.pending_missed m (List.mem_append_left _ hm)
      · exact hs.members_missed key hk (by simp [hkey, hn]) entry' he m hm

/-- **The search finds what is led to**, although it opens no type again. -/
theorem accepts_iff (env : Environment) (actual : TypeName) (start : List TypeName) :
    env.accepts actual [] start = true ↔ ∃ t, env.Leads start t ∧ Hits actual t := by
  refine ⟨leads_of_accepts env actual [] start, fun ⟨t, ht, hhit⟩ => ?_⟩
  cases hsearch : env.accepts actual [] start with
  | true => rfl
  | false =>
    obtain ⟨final, hs⟩ := sweep_of_not_accepts env actual [] start hsearch
    have hmissed : ∀ t, env.Leads start t → Missed env actual final t := by
      intro t ht
      induction ht with
      | own ht => exact hs.pending_missed _ ht
      | member _ hfind hdeclared hm ih =>
        refine hs.members_missed _ (ih.opened_of_find _ hfind hdeclared) (by simp) _ ?_ _ (List.mem_map_of_mem hm)
        rw [findType?_name hfind, hfind]
    exact absurd hhit (hmissed t ht).not_hits

/-! ## Alike environments -/

/-- Two alternatives that a match does not tell apart: they may differ in the package. -/
structure Indistinct (t t' : TypeName) : Prop where
  name : t.name = t'.name
  list : t.list = t'.list
  isAny : t.isAny = t'.isAny

theorem Indistinct.hits {actual t t' : TypeName} (h : Indistinct t t') (ht : Hits actual t) : Hits actual t' := by
  simpa only [Hits, TypeName.agrees, h.name, h.list, h.isAny] using ht

/-- What is led to here is led to where the types are alike.  A type that lists itself among its members leads to
nothing new by that, so it may be left out there. -/
theorem Leads.alike {env env' : Environment} (h : env.Alike env') {start start' : List TypeName}
    (hstart : ∀ t ∈ start, t ∈ start') {t : TypeName} (ht : env.Leads start t) :
    ∃ t', env'.Leads start' t' ∧ Indistinct t t' := by
  induction ht with
  | own ht => exact ⟨_, .own (hstart _ ht), rfl, rfl, rfl⟩
  | @member t m entry _ hfind hdeclared hm ih =>
    obtain ⟨t', ht', hname, hlist, hany⟩ := ih
    obtain ⟨entry', hfind', halike⟩ : ∃ entry', env'.findType? t'.name = some entry' ∧ entry.Alike entry' := by
      have hrel := h.findType? t.name
      rw [hfind, hname] at hrel
      generalize env'.findType? t'.name = found at hrel
      cases hrel with
      | some halike => exact ⟨_, rfl, halike⟩
    rcases halike.members m hm with hm' | ⟨hself, hmany⟩
    · refine ⟨_, .member ht' hfind' (halike.builtin ▸ hdeclared) hm', rfl, ?_, ?_⟩
      · simp [hlist]
      · simp [TypeName.isAny]
    · simp only [TypeEntry.isItself, findType?_name hfind, Bool.and_eq_true, beq_iff_eq, Bool.not_eq_true'] at hself
      obtain ⟨⟨hmname, hmpackage⟩, hmlist⟩ := hself
      have hne : t.name ≠ "any" := by
        intro e
        simp [TypeName.isAny, hmpackage, hmname, e] at hmany
      have hany' : t'.isAny = false := by simp [TypeName.isAny, ← hname, hne]
      exact ⟨t', ht', hmname.trans hname, by simp [hmlist, hlist], hmany.trans hany'.symm⟩

theorem accepts_alike {env env' : Environment} (h : env.Alike env') (actual : TypeName) {start start' : List TypeName}
    (hstart : ∀ t, t ∈ start ↔ t ∈ start') : env.accepts actual [] start = env'.accepts actual [] start' := by
  rw [Bool.eq_iff_iff, accepts_iff, accepts_iff]
  constructor
  · rintro ⟨t, ht, hhit⟩
    obtain ⟨t', ht', hsame⟩ := ht.alike h fun t => (hstart t).1
    exact ⟨t', ht', hsame.hits hhit⟩
  · rintro ⟨t, ht, hhit⟩
    obtain ⟨t', ht', hsame⟩ := ht.alike h.symm fun t => (hstart t).2
    exact ⟨t', ht', hsame.hits hhit⟩

/-- **Alike environments match alike**, whatever the order of the expected alternatives. -/
theorem unmatched_alike {env env' : Environment} (h : env.Alike env') (actual : Union) {expected expected' : Union}
    (hexpected : ∀ t, t ∈ expected.alternatives ↔ t ∈ expected'.alternatives) :
    env.unmatched actual expected = env'.unmatched actual expected' := by
  have hany : expected.containsAny = expected'.containsAny := by
    rw [Bool.eq_iff_iff]
    simp only [Union.containsAny, List.any_eq_true, hexpected]
  simp only [unmatched, hany, accepts_alike h _ hexpected]

/-! ## The verdict -/

theorem mem_unmatched {env : Environment} {actual expected : Union} {a : TypeName} :
    a ∈ env.unmatched actual expected ↔ a ∈ actual.alternatives ∧ a.isAny = false ∧
      ∀ t, env.Leads expected.alternatives t → t.isAny = false ∧ t.agrees a = false := by
  unfold unmatched
  split
  · rename_i hany
    obtain ⟨t, ht, htany⟩ := List.any_eq_true.1 hany
    refine iff_of_false (by simp) fun ⟨_, _, h⟩ => ?_
    rw [(h t (.own ht)).1] at htany
    cases htany
  · have hsearch : env.accepts a [] expected.alternatives = false ↔
        ∀ t, env.Leads expected.alternatives t → t.isAny = false ∧ t.agrees a = false := by
      rw [← Bool.not_eq_true, accepts_iff]
      simp only [Hits, not_exists, not_and, not_or, Bool.not_eq_true]
    rw [List.mem_filter, Bool.and_eq_true, Bool.not_eq_true', Bool.not_eq_true', hsearch]

/-- Two changes that declare the same, except that a union may be written in another order and with repetitions. -/
inductive Change.Rewritten : Change → Change → Prop
  | same (c : Change) : Rewritten c c
  | type (t : TypeEntry) (written : List TypeName) (h : ∀ m, m ∈ written ↔ m ∈ t.types.alternatives) :
    Rewritten (.type t) (.type { t with types := .ofList written })

theorem Change.Rewritten.alike {c c' : Change} (h : c.Rewritten c') : c.Alike c' := by
  cases h with
  | same => exact .same c
  | type t written h =>
    exact .type ⟨rfl, rfl, rfl, rfl, fun m hm => Or.inl (Union.mem_ofList.2 ((h m).2 hm)),
      fun m hm => Or.inl ((h m).1 (Union.mem_ofList.1 hm))⟩

/-- **What does not fit is what nothing led to agrees with.**  In whatever way an environment came about, a match
answers, in their order, the alternatives of the value that are not `any` and that no alternative the expected union
leads to accepts; how the expected union and the declared unions are written plays no part. -/
theorem unmatched_iff_led_to (changes : List Change) (actual expected : Union) :
    ((initial.run changes).unmatched actual expected).Sublist actual.alternatives ∧
    (∀ a, a ∈ (initial.run changes).unmatched actual expected ↔ a ∈ actual.alternatives ∧ a.isAny = false ∧
      ∀ t, (initial.run changes).Leads expected.alternatives t → t.isAny = false ∧ t.agrees a = false) ∧
    ∀ (changes' : List Change) (written : List TypeName), List.Forall₂ Change.Rewritten changes changes' →
      (∀ t, t ∈ written ↔ t ∈ expected.alternatives) →
      (initial.run changes').unmatched actual (.ofList written) = (initial.run changes).unmatched actual expected := by
  refine ⟨?_, fun a => mem_unmatched, fun changes' written hchanges hwritten => ?_⟩
  · unfold unmatched
    split
    · exact List.nil_sublist _
    · exact List.filter_sublist
  · have halike := (Alike.refl initial).run (hchanges.imp fun _ _ => Change.Rewritten.alike)
    exact (unmatched_alike halike actual fun t => (hwritten t).symm.trans Union.mem_ofList.symm).symm

/-- A type that is a name for some alternatives. -/
def namedUnion (name : String) (members : List TypeName) : TypeEntry :=
  { TypeEntry.ofBuiltin name with types := .ofList members, builtin := false }

/-- Two types that lead to each other, the inner one by a list as well: `a` to `b | int`, `b` to `[]a | a`. -/
def mutualTypes : List Change :=
  [.type (namedUnion "a" [{ name := "b" }, { name := "int" }]), .push .block,
    .type (namedUnion "b" [{ name := "a", list := true }, { name := "a" }])]

/-- `[]int` is led to from `a` by way of `b`, `bool` is not; and writing the unions otherwise changes nothing. -/
theorem unmatched_mutualTypes :
    let rewritten : List Change :=
      [.type (namedUnion "a" [{ name := "int" }, { name := "b" }, { name := "int" }]), .push .block,
        .type (namedUnion "b" [{ name := "a" }, { name := "a", list := true }])]
    List.Forall₂ Change.Rewritten mutualTypes rewritten ∧
    (initial.run rewritten).unmatched (.ofList [{ name := "bool" }, { name := "int", list := true }])
      (.ofList [{ name := "a" }, { name := "a" }]) = [{ name := "bool" }] := by
  intro rewritten
  have hwritten : List.Forall₂ Change.Rewritten mutualTypes rewritten := by
    refine .cons (.type _ _ fun m => ?_) (.cons (.same _) (.cons (.type _ _ fun m => ?_) .nil)) <;>
      simp only [namedUnion, Union.mem_ofList, List.mem_cons, List.not_mem_nil, or_false] <;> tauto
  refine ⟨hwritten, ((unmatched_iff_led_to mutualTypes _ (.ofList [{ name := "a" }])).2.2 rewritten _ hwritten
    fun t => ?_).trans (by cbv)⟩
  simp [Union.mem_ofList]

end Environment
end UnionScript
