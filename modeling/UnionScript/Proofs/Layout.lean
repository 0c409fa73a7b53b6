import Mathlib
import UnionScript.Proofs.Occurrences
/-!
# Layout — where expressions stand in a text

Tokens of one file come one behind the other (`Placed`), and a run of them has a span, from the start of its first token to
the end of its last (`Spans`).  Spans of runs that follow each other are apart, and that of a part of a run is inside the
span of the whole.  So it is enough to know which runs expressions were read from: some occurrences are laid out over a run
of tokens (`Laid`) if each has the span of a run within it, and any two of them are apart or one is inside the other; this
passes from the parts of an expression to the whole (`Laid.node`).
-/
namespace UnionScript

/-! ## Places and spans -/

namespace Position

/-- Places in reading order. -/
instance : LinearOrder Position :=
  LinearOrder.lift' (fun p : Position => toLex (p.line, p.column)) fun p q h => by
    obtain ⟨hline, hcolumn⟩ := Prod.mk.inj (toLex.injective h)
    cases p
    cases q
    exact congr (congrArg Position.mk hline) hcolumn

theorem le_iff (p q : Position) : p ≤ q ↔ p.line < q.line ∨ p.line = q.line ∧ p.column ≤ q.column :=
  Prod.Lex.toLex_le_toLex

theorem lt_iff (p q : Position) : p < q ↔ p.line < q.line ∨ p.line = q.line ∧ p.column < q.column :=
  Prod.Lex.toLex_lt_toLex

theorem isLE_iff (p q : Position) : p.isLE q = true ↔ p ≤ q := by
  rw [le_iff, isLE, Bool.or_eq_true, Bool.and_eq_true, decide_eq_true_eq, decide_eq_true_eq, beq_iff_eq]

end Position

namespace Span

/-- One span ends before another begins. -/
def Precedes (a b : Span) : Prop := a.last < b.first

/-- One span is inside another and smaller. -/
structure IsWithin (a b : Span) : Prop where
  first : b.first ≤ a.first
  last : a.last ≤ b.last
  smaller : b.first < a.first ∨ a.last < b.last

/-- Two spans are apart, or one is inside the other. -/
def IsClear (a b : Span) : Prop := a.Precedes b ∨ b.Precedes a ∨ a.IsWithin b ∨ b.IsWithin a

/-- A span is not clear of itself. -/
theorem IsClear.ne {a b : Span} (h : a.IsClear b) (ha : a.first ≤ a.last) : a ≠ b := by
  rintro rfl
  obtain h | h | ⟨-, -, h | h⟩ | ⟨-, -, h | h⟩ := h
  · exact absurd ha (not_le_of_gt h)
  · exact absurd ha (not_le_of_gt h)
  all_goals exact lt_irrefl _ h

/-- The span around two spans, the first of which begins and ends first. -/
theorem union_of_le {a b : Span} (ha : a.first.line ≠ 0) (hb : b.first.line ≠ 0) (hfirst : a.first ≤ b.first)
    (hlast : a.last ≤ b.last) : a.union b = ⟨a.file, a.first, b.last⟩ := by
  rw [union, if_neg ha, if_neg hb, Position.earlier, if_pos ((Position.isLE_iff _ _).2 hfirst), Position.later]
  split
  · rename_i h
    rw [le_antisymm hlast ((Position.isLE_iff _ _).1 h)]
  · rfl

end Span

/-! ## Tokens -/

theorem Token.start_le_last (t : Token) : t.start ≤ t.span.last :=
  (Position.le_iff _ _).2 (.inr ⟨rfl, Nat.le_add_right _ _⟩)

/-- One token comes before another.  Only the content of a string may go on where another token begins, on the lines below
the one its span is on. -/
structure Token.Precedes (t u : Token) : Prop where
  start : t.start ≤ u.start
  last : t.kind ≠ .string → t.span.last < u.start

/-- Tokens as they stand in a file: one behind the other. -/
structure Placed (ts : List Token) : Prop where
  line : ∀ t ∈ ts, t.start.line ≠ 0
  order : ts.Pairwise Token.Precedes

namespace Placed

variable {ts us gap : List Token}

theorem ofInfix (h : Placed ts) (hpart : us <:+: ts) : Placed us :=
  ⟨fun t ht => h.line t (hpart.subset ht), h.order.sublist hpart.sublist⟩

theorem left (h : Placed (ts ++ us)) : Placed ts := h.ofInfix (List.prefix_append ts us).isInfix

theorem right (h : Placed (ts ++ us)) : Placed us := h.ofInfix (List.suffix_append ts us).isInfix

theorem precedes (h : Placed (ts ++ us)) {t u : Token} (ht : t ∈ ts) (hu : u ∈ us) : t.Precedes u :=
  (List.pairwise_append.1 h.order).2.2 t ht u hu

end Placed

/-- A span is that of a run of tokens, which neither begins nor ends within a string. -/
structure Spans (run : List Token) (span : Span) : Prop where
  ends : ∃ first last, run.head? = some first ∧ run.getLast? = some last ∧ first.kind ≠ .string ∧ last.kind ≠ .string ∧
    (Placed run → span = ⟨first.file, first.start, last.span.last⟩)

namespace Spans

variable {run more gap ts : List Token} {a b : Span}

theorem single {t : Token} (h : t.kind ≠ .string) : Spans [t] t.span := ⟨t, t, rfl, rfl, h, h, fun _ => rfl⟩

theorem ne_nil (h : Spans run a) : run ≠ [] := by
  obtain ⟨first, last, hfirst, -⟩ := h.ends
  rintro rfl
  cases hfirst

/-- The span of a run is in the file of its tokens. -/
theorem file (h : Spans run a) (hplaced : Placed run) : ∃ t ∈ run, a.file = t.file := by
  obtain ⟨first, last, hfirst, -, -, -, ha⟩ := h.ends
  exact ⟨first, List.mem_of_mem_head? hfirst, ha hplaced ▸ rfl⟩

/-- The span of a run begins where it ends or before. -/
theorem first_le_last (h : Spans run a) (hplaced : Placed run) : a.first ≤ a.last := by
  obtain ⟨first, last, hfirst, hlast, -, -, ha⟩ := h.ends
  obtain rfl := ha hplaced
  obtain ⟨tail, rfl⟩ := List.head?_eq_some_iff.1 hfirst
  rcases List.mem_cons.1 (List.mem_of_mem_getLast? hlast) with rfl | hlater
  · exact last.start_le_last
  · exact ((List.pairwise_cons.1 hplaced.order).1 last hlater).start.trans last.start_le_last

/-- The span around what the spans at both ends of a run are around. -/
theorem union (h : Spans run a) (gap : List Token) (h' : Spans more b) : Spans (run ++ (gap ++ more)) (a.union b) := by
  obtain ⟨first, last, hfirst, hlast, hsolid, hsolid', ha⟩ := h.ends
  obtain ⟨first', last', hfirst', hlast', -, hsolid'', hb⟩ := h'.ends
  refine ⟨first, last', by rw [List.head?_append, hfirst, Option.some_or],
    by rw [List.getLast?_append, List.getLast?_append, hlast', Option.some_or, Option.some_or], hsolid, hsolid'',
    fun hplaced => ?_⟩
  have hmem : first ∈ run := List.mem_of_mem_head? hfirst
  have hmem' : last ∈ run := List.mem_of_mem_getLast? hlast
  have hmore : first' ∈ gap ++ more := List.mem_append_right _ (List.mem_of_mem_head? hfirst')
  have hmore' : last' ∈ gap ++ more := List.mem_append_right _ (List.mem_of_mem_getLast? hlast')
  obtain rfl := ha hplaced.left
  obtain rfl := hb hplaced.right.right
  refine Span.union_of_le (hplaced.line _ (List.mem_append_left _ hmem)) (hplaced.line _ (List.mem_append_right _ hmore))
    (hplaced.precedes hmem hmore).start ?_
  exact ((hplaced.precedes hmem' hmore').last hsolid').le.trans last'.start_le_last

/-- Runs that follow each other have spans that do. -/
theorem precedes (h : Spans run a) (h' : Spans more b) (hrun : run <:+: ts) (hmore : more <:+: gap)
    (hplaced : Placed (ts ++ gap)) : a.Precedes b := by
  obtain ⟨first, last, -, hlast, -, hsolid, ha⟩ := h.ends
  obtain ⟨first', last', hfirst, -, -, -, hb⟩ := h'.ends
  obtain rfl := ha (hplaced.left.ofInfix hrun)
  obtain rfl := hb (hplaced.right.ofInfix hmore)
  exact (hplaced.precedes (hrun.subset (List.mem_of_mem_getLast? hlast))
    (hmore.subset (List.mem_of_mem_head? hfirst))).last hsolid

/-- A part of a run that is not all of it has a span inside that of the run. -/
theorem isWithin (h : Spans run a) (h' : Spans more b) (hpart : run <:+: more) (hne : run ≠ more)
    (hplaced : Placed more) : a.IsWithin b := by
  obtain ⟨first, last, hfirst, hlast, -, hsolid, ha⟩ := h.ends
  obtain ⟨first', last', hfirst', hlast', hsolid', -, hb⟩ := h'.ends
  obtain rfl := ha (hplaced.ofInfix hpart)
  obtain rfl := hb hplaced
  obtain ⟨pre, post, rfl⟩ := hpart
  have hmem : first ∈ run := List.mem_of_mem_head? hfirst
  have hmem' : last ∈ run := List.mem_of_mem_getLast? hlast
  -- The part begins with the run or behind it, and ends with it or before.
  have hbegin : pre = [] ∧ first' = first ∨ first'.start < first.start := by
    cases pre with
    | nil =>
      rw [List.nil_append, List.head?_append, hfirst, Option.some_or] at hfirst'
      exact .inl ⟨rfl, (Option.some.inj hfirst').symm⟩
    | cons t pre =>
      obtain rfl : t = first' := Option.some.inj hfirst'
      rw [List.append_assoc] at hplaced
      have hbefore := hplaced.precedes List.mem_cons_self (List.mem_append_left post hmem)
      exact .inr (t.start_le_last.trans_lt (hbefore.last hsolid'))
  have hend : post = [] ∧ last' = last ∨ last.span.last < last'.span.last := by
    rcases List.eq_nil_or_concat post with rfl | ⟨init, t, rfl⟩
    · rw [List.append_nil, List.getLast?_append, hlast, Option.some_or] at hlast'
      exact .inl ⟨rfl, (Option.some.inj hlast').symm⟩
    · rw [List.getLast?_append, List.concat_eq_append, List.getLast?_concat, Option.some_or] at hlast'
      obtain rfl : t = last' := Option.some.inj hlast'
      have hlater : t ∈ init.concat t := List.concat_eq_append ▸ List.mem_append_right init List.mem_cons_self
      have hbefore := hplaced.precedes (List.mem_append_right pre hmem') hlater
      exact .inr ((hbefore.last hsolid).trans_le t.start_le_last)
  rcases hbegin with ⟨rfl, rfl⟩ | hbegin
  · rcases hend with ⟨rfl, rfl⟩ | hend
    · exact absurd (by simp) hne
    · exact ⟨le_rfl, hend.le, .inr hend⟩
  · rcases hend with ⟨-, rfl⟩ | hend
    · exact ⟨hbegin.le, le_rfl, .inl hbegin⟩
    · exact ⟨hbegin.le, hend.le, .inl hbegin⟩

end Spans

/-! ## Occurrences -/

/-- Some occurrences are laid out over a run of tokens: each has the span of a run in it, any two are clear of each other,
and what is inside an expression is within its span. -/
structure Laid (ts : List Token) (os : List Occurrence) : Prop where
  covered : ∀ o ∈ os, ∃ run, run <:+: ts ∧ Spans run o.span
  clear : Placed ts → os.Pairwise fun o p => o.span.IsClear p.span
  inside : Placed ts → ∀ o ∈ os, ∀ p ∈ o.expression.inside, p.span.IsWithin o.span

namespace Laid

variable {ts us gap : List Token} {os more : List Occurrence}

theorem nil (ts : List Token) : Laid ts [] := ⟨List.forall_mem_nil _, fun _ => .nil, fun _ => List.forall_mem_nil _⟩

theorem ofInfix (h : Laid ts os) (hpart : ts <:+: us) : Laid us os where
  covered o ho := let ⟨run, hrun, hspan⟩ := h.covered o ho
    ⟨run, hrun.trans hpart, hspan⟩
  clear hplaced := h.clear (hplaced.ofInfix hpart)
  inside hplaced := h.inside (hplaced.ofInfix hpart)

theorem skip (h : Laid ts os) (gap : List Token) : Laid (ts ++ gap) os := h.ofInfix (List.prefix_append ts gap).isInfix

theorem behind (h : Laid ts os) (gap : List Token) : Laid (gap ++ ts) os := h.ofInfix (List.suffix_append gap ts).isInfix

theorem append (h : Laid ts os) (h' : Laid us more) : Laid (ts ++ us) (os ++ more) where
  covered o ho := (List.mem_append.1 ho).elim ((h.skip us).covered o) ((h'.behind ts).covered o)
  clear hplaced := by
    refine List.pairwise_append.2 ⟨h.clear hplaced.left, h'.clear hplaced.right, fun o ho p hp => .inl ?_⟩
    obtain ⟨run, hrun, hspan⟩ := h.covered o ho
    obtain ⟨run', hrun', hspan'⟩ := h'.covered p hp
    exact hspan.precedes hspan' hrun hrun' hplaced
  inside hplaced o ho := (List.mem_append.1 ho).elim (h.inside hplaced.left o) (h'.inside hplaced.right o)

/-- No two of them share a span. -/
theorem nodup (h : Laid ts os) (hplaced : Placed ts) : (os.map Occurrence.span).Nodup := by
  refine List.pairwise_map.2 ((h.clear hplaced).imp_of_mem fun ho _ hclear => ?_)
  obtain ⟨run, hrun, hspan⟩ := h.covered _ ho
  exact hclear.ne (hspan.first_le_last (hplaced.ofInfix hrun))

theorem lookedInto (h : Laid ts os) (inferred : Bool) : Laid ts (Occurrence.lookedInto inferred os) := by
  cases inferred with
  | true => exact h
  | false =>
    refine ⟨?_, fun hplaced => List.pairwise_map.2 (h.clear hplaced), fun hplaced => ?_⟩
    · exact List.forall_mem_map.2 h.covered
    · exact List.forall_mem_map.2 (h.inside hplaced)

end Laid

/-- Occurrences that are laid out over a run of tokens, none of them over all of it. -/
structure LaidInside (ts : List Token) (os : List Occurrence) : Prop extends Laid ts os where
  proper : ∀ o ∈ os, ∃ run, run <:+: ts ∧ run ≠ ts ∧ Spans run o.span

namespace LaidInside

variable {ts us : List Token} {os more : List Occurrence}

/-- What is laid out over a part of a run. -/
theorem ofPart (h : Laid ts os) (hpart : ts <:+: us) (hless : ts.length < us.length) : LaidInside us os where
  toLaid := h.ofInfix hpart
  proper o ho := by
    obtain ⟨run, hrun, hspan⟩ := h.covered o ho
    refine ⟨run, hrun.trans hpart, ?_, hspan⟩
    rintro rfl
    exact absurd hrun.length_le (Nat.not_le.2 hless)

/-- What is laid out over two parts that make up a run. -/
theorem append (h : Laid ts os) (h' : Laid us more) (hts : ts ≠ []) (hus : us ≠ []) :
    LaidInside (ts ++ us) (os ++ more) where
  toLaid := h.append h'
  proper o ho := by
    have hpos := List.length_pos_iff.2 hts
    have hpos' := List.length_pos_iff.2 hus
    rcases List.mem_append.1 ho with ho | ho
    · exact (ofPart h (List.prefix_append ts us).isInfix (by simpa using hpos')).proper o ho
    · exact (ofPart h' (List.suffix_append ts us).isInfix (by simpa using hpos)).proper o ho

end LaidInside

/-- An expression is read from a run of tokens: it has its span, and the occurrences in it are laid out over it. -/
structure Expression.Over (ts : List Token) (e : Expression) : Prop where
  spans : Spans ts e.span
  laid : Laid ts e.occurrences

/-- An expression over the whole of a run, behind what is inside of it. -/
theorem Laid.node {ts : List Token} {e : Expression} (h : LaidInside ts e.inside) (hspan : Spans ts e.span) :
    Laid ts (e.inside ++ [⟨e, true⟩]) := by
  have hwithin (hplaced : Placed ts) : ∀ o ∈ e.inside, o.span.IsWithin e.span := fun o ho => by
    obtain ⟨run, hrun, hne, hrunSpan⟩ := h.proper o ho
    exact hrunSpan.isWithin hspan hrun hne hplaced
  refine ⟨fun o ho => ?_, fun hplaced => ?_, fun hplaced o ho => ?_⟩
  · rcases List.mem_append.1 ho with ho | ho
    · exact h.covered o ho
    · obtain rfl := List.mem_singleton.1 ho
      exact ⟨ts, List.infix_rfl, hspan⟩
  · refine List.pairwise_append.2 ⟨h.clear hplaced, List.pairwise_singleton _ _, fun o ho p hp => ?_⟩
    obtain rfl := List.mem_singleton.1 hp
    exact .inr (.inr (.inl (hwithin hplaced o ho)))
  · rcases List.mem_append.1 ho with ho | ho
    · exact h.inside hplaced o ho
    · obtain rfl := List.mem_singleton.1 ho
      exact hwithin hplaced

theorem Expression.Over.node {ts : List Token} {e : Expression} (h : LaidInside ts e.inside) (hspan : Spans ts e.span)
    (haside : e.aside = []) : e.Over ts where
  spans := hspan
  laid := by
    rw [Expression.occurrences_eq, haside]
    exact .node h hspan

/-- An expression of a single token. -/
theorem Expression.Over.single {t : Token} {e : Expression} (h : t.kind ≠ .string) (hspan : e.span = t.span)
    (hinside : e.inside = []) (haside : e.aside = []) : e.Over [t] :=
  .node (hinside ▸ .ofPart (.nil []) (List.nil_infix) Nat.zero_lt_one) (hspan ▸ .single h) haside

end UnionScript
