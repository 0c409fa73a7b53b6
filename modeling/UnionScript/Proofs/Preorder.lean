import UnionScript.Proofs.Reach
/-!
# Preorder — a value fits where what it fits is expected

Whether a union fits another one is decided on the side of the expected one alone, so two matches in a row open types
twice: behind the union in the middle, and behind the last one.  What the second match finds for an alternative in the
middle agrees with it in name and list flag, and these are all that opening a type asks for.  So the last union leads to
whatever the one in the middle leads to by its types (`Leads.behind`), and fitting is transitive; only `any` in the
middle lets go of what came before it.
-/
namespace UnionScript
namespace Environment

variable {env : Environment}

theorem agrees_iff {t u : TypeName} : t.agrees u = true ↔ t.name = u.name ∧ t.list = u.list := by
  rw [TypeName.agrees, Bool.and_eq_true, beq_iff_eq, beq_iff_eq]

theorem agrees_trans {t u v : TypeName} (h : t.agrees u = true) (h' : u.agrees v = true) : t.agrees v = true := by
  rw [agrees_iff] at h h' ⊢
  exact ⟨h.1.trans h'.1, h.2.trans h'.2⟩

/-- What some alternatives lead to, one of them leads to. -/
theorem Leads.exists_start {start : List TypeName} {t : TypeName} (h : env.Leads start t) :
    ∃ b ∈ start, env.Leads [b] t := by
  induction h with
  | own ht => exact ⟨_, ht, .own (List.mem_singleton_self _)⟩
  | member _ hfind hdeclared hm ih =>
    obtain ⟨b, hb, hlead⟩ := ih
    exact ⟨b, hb, .member hlead hfind hdeclared hm⟩

/-- **Alternatives that agree lead to the same**, themselves apart: a type is opened by its name and as what it is
meant. -/
theorem Leads.behind {start : List TypeName} {d b t : TypeName} (hd : env.Leads start d) (hagrees : d.agrees b = true)
    (ht : env.Leads [b] t) : t = b ∨ env.Leads start t := by
  obtain ⟨hname, hlist⟩ := agrees_iff.1 hagrees
  induction ht with
  | own ht => exact .inl (List.mem_singleton.1 ht)
  | @member t m entry _ hfind hdeclared hm ih =>
    rcases ih with rfl | hlead
    · have hmember : env.Leads start { m with list := m.list || d.list } := .member hd (hname ▸ hfind) hdeclared hm
      exact .inr (hlist ▸ hmember)
    · exact .inr (.member hlead hfind hdeclared hm)

/-- A union fits where every alternative of it but `any` is accepted by one that is led to. -/
theorem fits_iff {actual expected : Union} : env.fits actual expected = true ↔
    ∀ a ∈ actual.alternatives, a.isAny = false → ∃ t, env.Leads expected.alternatives t ∧ Hits a t := by
  rw [fits, List.isEmpty_iff, List.eq_nil_iff_forall_not_mem]
  refine forall_congr' fun a => ?_
  rw [mem_unmatched]
  simp only [Hits, not_and, not_forall, exists_prop]
  refine imp_congr_right fun _ => imp_congr_right fun _ => exists_congr fun t => and_congr_right fun _ => ?_
  rw [Bool.not_eq_false, Decidable.or_iff_not_imp_left, Bool.not_eq_true]

/-- An alternative that is accepted behind a union which fits is accepted behind the union where that one fits. -/
theorem exists_hits_of_fits {actual expected : Union} (hany : ∀ b ∈ actual.alternatives, b.isAny = false)
    (hfits : env.fits actual expected = true) {a t : TypeName} (ht : env.Leads actual.alternatives t)
    (hhit : Hits a t) : ∃ u, env.Leads expected.alternatives u ∧ Hits a u := by
  obtain ⟨b, hb, hlead⟩ := ht.exists_start
  obtain ⟨d, hd, hhits⟩ := fits_iff.1 hfits b hb (hany b hb)
  rcases hhits with hdany | hagrees
  · exact ⟨d, hd, .inl hdany⟩
  rcases hd.behind hagrees hlead with rfl | hbehind
  · have hagrees' : t.agrees a = true := hhit.resolve_left (Bool.eq_false_iff.1 (hany t hb))
    exact ⟨d, hd, .inr (agrees_trans hagrees hagrees')⟩
  · exact ⟨t, hbehind, hhit⟩

/-- **Fitting is a preorder**, the placeholder `any` in the middle apart.  Whatever is declared in an environment, and in
whatever way it came about, every union fits itself, and what fits a union without `any` fits wherever this one does. -/
theorem fits_preorder (env : Environment) :
    (∀ u : Union, env.fits u u = true) ∧
      ∀ actual between expected : Union, (∀ b ∈ between.alternatives, b.isAny = false) →
        env.fits actual between = true → env.fits between expected = true → env.fits actual expected = true := by
  refine ⟨fun u => fits_iff.2 fun a ha _ => ?_, fun actual between expected hany hfits hfits' => ?_⟩
  · exact ⟨a, .own ha, .inr (agrees_iff.2 ⟨rfl, rfl⟩)⟩
  · refine fits_iff.2 fun a ha haany => ?_
    obtain ⟨t, ht, hhit⟩ := fits_iff.1 hfits a ha haany
    exact exists_hits_of_fits hany hfits' ht hhit

/-- `[]int` fits `a`, a package's type of that name fits `b`, and so `[]int` fits `b`. -/
theorem fits_preorder_mutualTypes :
    let lists : Union := .ofList [{ name := "int", list := true }]
    let between : Union := .ofList [{ name := "a", package := some "p" }]
    let expected : Union := .ofList [{ name := "b" }]
    ((∀ b ∈ between.alternatives, b.isAny = false) ∧ (initial.run mutualTypes).fits lists between = true ∧
        (initial.run mutualTypes).fits between expected = true) ∧
      (initial.run mutualTypes).fits lists expected = true := by
  intro lists between expected
  have hany : ∀ b ∈ between.alternatives, b.isAny = false := by decide
  have hfits : (initial.run mutualTypes).fits lists between = true := by subst lists between; cbv
  have hfits' : (initial.run mutualTypes).fits between expected = true := by subst between expected; cbv
  exact ⟨⟨hany, hfits, hfits'⟩, (fits_preorder _).2 lists between expected hany hfits hfits'⟩

end Environment
end UnionScript
