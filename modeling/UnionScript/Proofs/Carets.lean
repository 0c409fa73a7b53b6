import Mathlib
import UnionScript.CommandLine.Excerpt
import UnionScript.Session
import UnionScript.Text.Lines
/-!
# Carets — what is marked below an excerpt

A line is shown with four columns for each tab, so what is shown of its first characters is wider than they are many
(`shownWidth_eq`).  The carets below it begin under the first column shown of the span, whatever stands in front of it.
How many there are is told by the columns of the line as it was written: of the span if it ends on the line, and of what
is in front of the span if it goes on.  So they end under the last column shown of the span exactly if no tab stands among
these (`render_marks`).
-/
namespace UnionScript
namespace Excerpt

/-! ## Columns -/

/-- How many columns the first `n` characters of a line are shown with.  Behind the end of the line they are as many as
they are counted. -/
def shownWidth (line : List Char) (n : Nat) : Nat :=
  (shownLine (line.take n)).length + (n - line.length)

/-- The column behind the last one that is shown of a span on its first line: behind its last character if it ends there,
and behind the line if it goes on. -/
def shownStop (line : List Char) (span : Span) : Nat :=
  if span.last.line = span.first.line then shownWidth line span.last.column else (shownLine line).length

/-- There are carets in the columns from one to right before another, counted from zero, blanks in front of them and
nothing else. -/
structure HasCarets (printed : List Char) (first stop : Nat) : Prop where
  any : first < stop
  printed : printed = List.replicate first ' ' ++ List.replicate (stop - first) '^'

/-- No tab stands where columns are counted as they were written: in a span that ends on its first line, or in front of one
that goes on. -/
def CountsShown (line : List Char) (span : Span) : Prop :=
  if span.last.line = span.first.line then
    span.first.column ≤ span.last.column ∧ '\t' ∉ (line.take span.last.column).drop (span.first.column - 1)
  else '\t' ∉ line.take (span.first.column - 1)

instance (line : List Char) (span : Span) : Decidable (CountsShown line span) := by
  unfold CountsShown
  infer_instance

/-! ## Tabs -/

theorem length_shownLine (line : List Char) : (shownLine line).length = line.length + 3 * line.count '\t' := by
  induction line with
  | nil => rfl
  | cons c line ih =>
    have hcons : shownLine (c :: line) = shown c ++ shownLine line := rfl
    rw [hcons, List.length_append, ih, List.length_cons, List.count_cons]
    by_cases hc : c = '\t'
    · simp only [shown, hc, if_pos, List.length_cons, List.length_nil, beq_self_eq_true]
      omega
    · simp only [shown, hc, if_neg, List.length_cons, List.length_nil, beq_iff_eq, not_false_eq_true]
      omega

/-- Every tab takes three columns more than it counts. -/
theorem shownWidth_eq (line : List Char) (n : Nat) : shownWidth line n = n + 3 * (line.take n).count '\t' := by
  rw [shownWidth, length_shownLine, List.length_take]
  omega

theorem flatMap_blank (line : List Char) : line.flatMap blank = List.replicate (shownLine line).length ' ' := by
  induction line with
  | nil => rfl
  | cons c line ih =>
    have hcons : shownLine (c :: line) = shown c ++ shownLine line := rfl
    rw [List.flatMap_cons, ih, hcons, List.length_append, List.replicate_add]
    refine congrArg (· ++ _) ?_
    by_cases hc : c = '\t' <;> simp [blank, shown, hc, List.replicate_succ]

/-- The carets begin under what is shown of the span. -/
theorem hasCarets_caretLine {line : List Char} {span : Span} (hinside : span.first.column ≤ line.length) :
    HasCarets (caretLine line span) (shownWidth line (span.first.column - 1))
      (shownWidth line (span.first.column - 1) + caretCount line span) := by
  have hcount : 0 < caretCount line span := Nat.lt_of_lt_of_le Nat.one_pos (Nat.le_max_left _ _)
  refine ⟨Nat.lt_add_of_pos_right hcount, ?_⟩
  have hnone : span.first.column - 1 - line.length = 0 := by omega
  rw [Nat.add_sub_cancel_left, caretLine, flatMap_blank, shownWidth, hnone, Nat.add_zero]

/-- The carets end where the span does exactly if no tab stands where columns are counted. -/
theorem stop_eq_iff {line : List Char} {span : Span} (hstart : 1 ≤ span.first.column)
    (hinside : span.first.column ≤ line.length) :
    shownWidth line (span.first.column - 1) + caretCount line span = shownStop line span ↔ CountsShown line span := by
  unfold caretCount shownStop CountsShown
  split
  · rw [shownWidth_eq, shownWidth_eq, ← List.count_eq_zero]
    by_cases hle : span.first.column ≤ span.last.column
    · -- What is in front of the span, and the span.
      have hsplit : line.take span.last.column =
          line.take (span.first.column - 1) ++ (line.take span.last.column).drop (span.first.column - 1) := by
        have hfront : (line.take span.last.column).take (span.first.column - 1) = line.take (span.first.column - 1) := by
          rw [List.take_take, Nat.min_eq_left (by omega)]
        rw [← hfront, List.take_append_drop]
      have htabs := congrArg (List.count '\t') hsplit
      rw [List.count_append] at htabs
      omega
    · have hfewer : (line.take span.last.column).count '\t' ≤ (line.take (span.first.column - 1)).count '\t' :=
        (List.take_prefix_take_left (by omega)).sublist.count_le _
      omega
  · rw [length_shownLine, shownWidth_eq, ← List.count_eq_zero]
    have hfewer : (line.take (span.first.column - 1)).count '\t' ≤ line.count '\t' :=
      (List.take_sublist _ line).count_le _
    omega

/-! ## Excerpts -/

theorem render_of_line {lines : List String} {d : Diagnostic} {line : String}
    (hline : lines[d.span.first.line - 1]? = some line) :
    render lines d = [s!"{marker d.severity} {d.severity.label}: {d.message}",
      s!"     --> {d.span.file}:{d.span.first.line}:{d.span.first.column}",
      indent ++ String.ofList (shownLine line.toList), indent ++ String.ofList (caretLine line.toList d.span)] := by
  rw [render, hline]
  rfl

/-- **What is marked below an excerpt**: the last line of it has carets, blanks in front and nothing else.  They begin under
the first column that is shown of the span, and end under the last one exactly if no tab stands in the span, or in front of
it if it goes on behind the line. -/
theorem render_marks (lines : List String) (d : Diagnostic) (line : String)
    (hline : lines[d.span.first.line - 1]? = some line) (hstart : 1 ≤ d.span.first.column)
    (hinside : d.span.first.column ≤ line.toList.length) :
    ∃ message place carets stop, render lines d =
        [message, place, indent ++ String.ofList (shownLine line.toList), indent ++ String.ofList carets] ∧
      HasCarets carets (shownWidth line.toList (d.span.first.column - 1)) stop ∧
      (stop = shownStop line.toList d.span ↔ CountsShown line.toList d.span) :=
  ⟨_, _, _, _, render_of_line hline, hasCarets_caretLine hinside, stop_eq_iff hstart hinside⟩

/-- A tab in front of a name that is unknown: the carets are under the name. -/
theorem render_marks_behind_tab :
    let d : Diagnostic := ⟨.warn, ⟨"m.vp", ⟨1, 2⟩, ⟨1, 4⟩⟩, "`abc` not found"⟩
    let line := "\tabc"
    ([line][d.span.first.line - 1]? = some line ∧ 1 ≤ d.span.first.column ∧ d.span.first.column ≤ line.toList.length) ∧
      ∃ message place carets, render [line] d =
          [message, place, indent ++ String.ofList (shownLine line.toList), indent ++ String.ofList carets] ∧
        HasCarets carets 4 7 := by
  intro d line
  have hinside : d.span.first.column ≤ line.toList.length := by decide
  obtain ⟨message, place, carets, stop, hrender, hcarets, hstop⟩ := render_marks [line] d line rfl (by decide) hinside
  have hfirst : shownWidth line.toList (d.span.first.column - 1) = 4 := by decide
  have hlast : stop = 7 := (hstop.2 (by decide)).trans (by decide)
  rw [hfirst, hlast] at hcarets
  exact ⟨⟨rfl, by decide, hinside⟩, message, place, carets, hrender, hcarets⟩

/-- A tab between the sign of a decorator and its name: it is shown as four columns, three of which are missing below it, so
the name has a single caret where it is shown with three columns. -/
theorem render_stops_before_end :
    let source : SourceFile := ⟨"m.vp", "@\tfoo\n"⟩
    let e : ParseError := .invalidDecorator (.unknown "foo") ⟨"m.vp", ⟨1, 1⟩, ⟨1, 5⟩⟩
    (ParsedProgram.ofTokens (TokenStream.scan [source]).tokens 8).errors = [e] ∧
      (∃ message place line carets, render (Text.lines source.text) e.diagnostic =
          [message, place, indent ++ String.ofList line, indent ++ String.ofList carets] ∧
        line = "@    foo".toList ∧ carets = "^^^^^".toList ∧ HasCarets carets 0 5) ∧
      shownStop "@\tfoo".toList e.span = 8 := by
  intro source e
  have hline : (Text.lines source.text)[e.diagnostic.span.first.line - 1]? = some "@\tfoo" := by
    change (Text.lines "@\tfoo\n")[0]? = some "@\tfoo"
    cbv
  have hcarets : caretLine "@\tfoo".toList e.span = "^^^^^".toList := by decide
  refine ⟨?_, ⟨_, _, _, _, render_of_line hline, by decide, hcarets, ?_⟩, by decide⟩
  · subst source e
    cbv
  · exact ⟨by decide, hcarets⟩

end Excerpt
end UnionScript
