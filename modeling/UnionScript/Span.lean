/-!
# Span — places and stretches of program text

A place is a line and a column, both counted from one, columns in characters.  A span runs from a first to a last
place of one file, both inclusive; the span of line zero stands for "no place" and is the neutral element of
`Span.union`.
-/
namespace UnionScript

/-! ## Places -/

/-- A place in a text: the line and the column, both counted from one. -/
structure Position where
  line : Nat
  column : Nat
  deriving Repr, DecidableEq, Inhabited

namespace Position

/-- The first place of a text. -/
def start : Position := ⟨1, 1⟩

def next (p : Position) (c : Char) : Position :=
  if c = '\n' then ⟨p.line + 1, 1⟩ else ⟨p.line, p.column + 1⟩

def after (p : Position) (run : List Char) : Position :=
  run.foldl next p

/-- Reading order: by line, then by column. -/
def compare (p q : Position) : Ordering :=
  (Ord.compare p.line q.line).then (Ord.compare p.column q.column)

def isLE (p q : Position) : Bool :=
  p.line < q.line || (p.line == q.line && p.column ≤ q.column)

def earlier (p q : Position) : Position := if p.isLE q then p else q

def later (p q : Position) : Position := if q.isLE p then p else q

@[simp] theorem after_nil (p : Position) : p.after [] = p := rfl

@[simp] theorem after_cons (p : Position) (c : Char) (run : List Char) :
    p.after (c :: run) = (p.next c).after run := rfl

theorem after_append (p : Position) (run rest : List Char) : p.after (run ++ rest) = (p.after run).after rest := by
  simp [after]

/-- A run within one line moves the column only. -/
theorem after_of_no_newline (p : Position) : ∀ run : List Char, '\n' ∉ run →
    p.after run = ⟨p.line, p.column + run.length⟩
  | [], _ => rfl
  | c :: run, h => by
    have hc : c ≠ '\n' := fun e => h (e ▸ List.mem_cons_self)
    rw [after_cons, after_of_no_newline (p.next c) run (fun hm => h (List.mem_cons_of_mem _ hm))]
    simp [next, hc, Nat.add_comm, Nat.add_left_comm]

end Position

/-! ## Spans -/

/-- A stretch of one file from its first to its last place, both inclusive. -/
structure Span where
  file : String
  first : Position
  last : Position
  deriving Repr, DecidableEq

namespace Span

def nowhere : Span := ⟨"", ⟨0, 0⟩, ⟨0, 0⟩⟩

instance : Inhabited Span := ⟨nowhere⟩

def point (file : String) (p : Position) : Span := ⟨file, p, p⟩

/-- The smallest span around two spans, in the file of the first; a span without a place adds nothing. -/
def union (a b : Span) : Span :=
  if a.first.line = 0 then b
  else if b.first.line = 0 then a
  else ⟨a.file, a.first.earlier b.first, a.last.later b.last⟩

/-- Spans in order of file, first place and last place. -/
def compare (a b : Span) : Ordering :=
  (Ord.compare a.file b.file).then ((a.first.compare b.first).then (a.last.compare b.last))

/-- The written form `file:line:column-endline:endcolumn`. -/
def render (s : Span) : String :=
  s!"{s.file}:{s.first.line}:{s.first.column}-{s.last.line}:{s.last.column}"

@[simp] theorem nowhere_union (s : Span) : nowhere.union s = s := rfl

end Span
end UnionScript
