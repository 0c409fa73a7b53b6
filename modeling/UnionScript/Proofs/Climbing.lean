import UnionScript.Proofs.Declarations
import UnionScript.Proofs.Locality
import UnionScript.Proofs.Rereading
/-!
# Climbing — how operators group

Names and literals with operators between them are read as one expression, whatever the operators are: its operands and
operators from left to right are the ones that were written, and they are grouped by level (`GroupsByLevel`).  There is
only one such tree over them (`eq_of_inOrder`).  That the reader arrives at it is shown for the loop that continues an
expression: it is given a tree whose operator binds at least as tightly as the next one asks for, takes in what binds
tighter than its floor, and leaves the rest (`continued_climbs`).
-/
namespace UnionScript

/-! ## What is written -/

/-- The tokens of a name or of a literal, and the expression that they stand for. -/
inductive Grammar.Written : List Token → Expression → Prop
  | name {t : Token} (h : t.kind = .identifier) : Written [t] (.identifier t.span t.text)
  | integer {t : Token} (h : t.kind = .integer) (hnumeral : Numeral.isNumeral t.text = true) :
    Written [t] (.literal t.span (.integer t.text))
  | float {t : Token} (h : t.kind = .float) (hnumeral : Numeral.isNumeral t.text = true) :
    Written [t] (.literal t.span (.float t.text))
  | string {opened content close : Token} (hopened : opened.kind = .quote) (hcontent : content.kind = .string)
    (hclose : close.kind = .quote) :
    Written [opened, content, close] (.literal (opened.span.union close.span) (.string content.text))
  | word {t : Token} {value : Literal} (h : Parse.wordLiteral? t = some value) : Written [t] (.literal t.span value)

/-- A name or a literal. -/
structure Atom where
  tokens : List Token
  expression : Expression
  written : Grammar.Written tokens expression

/-- An operator with the operand behind it, and line ends between them. -/
structure Link where
  sign : Token
  operator : BinaryOperator
  gap : List Token
  operand : Atom
  isSign : sign.binaryOperator? = some operator
  joins : operator.isAccess = false
  isGap : ∀ t ∈ gap, t.kind = .newline

/-- An operand or an operator. -/
inductive Item where
  | operand (a : Atom)
  | operator (o : BinaryOperator)

namespace Link

def tokens (l : Link) : List Token := l.sign :: (l.gap ++ l.operand.tokens)

def items (l : Link) : List Item := [.operator l.operator, .operand l.operand]

end Link

/-! ## Trees -/

/-- Operands with operators between them, grouped in some way. -/
inductive OperatorTree where
  | operand (a : Atom)
  | node (o : BinaryOperator) (left right : OperatorTree)

/-- Whether operators of a level group to the right. -/
def Level.groupsRight : Level → Bool
  | assignment | power => true
  | _ => false

/-- Whether an operator of a level may have one of another level at the top of its left operand. -/
def Level.allowsLeft (level other : Level) : Prop :=
  if level.groupsRight then level.height < other.height else level.height ≤ other.height

/-- Whether it may have one of that level at the top of its right operand. -/
def Level.allowsRight (level other : Level) : Prop :=
  if level.groupsRight then level.height ≤ other.height else level.height < other.height

instance (level other : Level) : Decidable (level.allowsLeft other) :=
  inferInstanceAs (Decidable (if level.groupsRight then level.height < other.height else level.height ≤ other.height))

instance (level other : Level) : Decidable (level.allowsRight other) :=
  inferInstanceAs (Decidable (if level.groupsRight then level.height ≤ other.height else level.height < other.height))

namespace OperatorTree

def expression : OperatorTree → Expression
  | operand a => a.expression
  | node o left right => .binary (left.expression.span.union right.expression.span) o left.expression right.expression

/-- The operands and operators from left to right. -/
def inOrder : OperatorTree → List Item
  | operand a => [.operand a]
  | node o left right => left.inOrder ++ .operator o :: right.inOrder

/-- The operator at the top. -/
def top? : OperatorTree → Option BinaryOperator
  | operand _ => none
  | node o _ _ => some o

/-- Every operator has operands of higher levels only, or of its own on the side to which it groups. -/
def GroupsByLevel : OperatorTree → Prop
  | operand _ => True
  | node o left right => left.GroupsByLevel ∧ right.GroupsByLevel ∧
      (∀ q ∈ left.top?, o.level.allowsLeft q.level) ∧ ∀ q ∈ right.top?, o.level.allowsRight q.level

instance decidableGroupsByLevel : ∀ t : OperatorTree, Decidable t.GroupsByLevel
  | operand _ => inferInstanceAs (Decidable True)
  | node o left right =>
    have := decidableGroupsByLevel left
    have := decidableGroupsByLevel right
    inferInstanceAs (Decidable (left.GroupsByLevel ∧ right.GroupsByLevel ∧
      (∀ q ∈ left.top?, o.level.allowsLeft q.level) ∧ ∀ q ∈ right.top?, o.level.allowsRight q.level))

end OperatorTree

/-! ## Levels -/

namespace Level

variable {level other : Level}

theorem height_injective (h : level.height = other.height) : level = other := by
  cases level <;> cases other <;> first | rfl | cases h

theorem le_of_allowsLeft (h : level.allowsLeft other) : level.height ≤ other.height := by
  unfold allowsLeft at h
  split at h <;> omega

theorem le_of_allowsRight (h : level.allowsRight other) : level.height ≤ other.height := by
  unfold allowsRight at h
  split at h <;> omega

theorem allowsLeft.trans_le {more : Level} (h : level.allowsLeft other) (hle : other.height ≤ more.height) :
    level.allowsLeft more := by
  unfold allowsLeft at h ⊢
  split
  next hgroups =>
    rw [if_pos hgroups] at h
    exact Nat.lt_of_lt_of_le h hle
  next hgroups =>
    rw [if_neg hgroups] at h
    exact h.trans hle

theorem allowsRight.trans_le {more : Level} (h : level.allowsRight other) (hle : other.height ≤ more.height) :
    level.allowsRight more := by
  unfold allowsRight at h ⊢
  split
  next hgroups =>
    rw [if_pos hgroups] at h
    exact h.trans hle
  next hgroups =>
    rw [if_neg hgroups] at h
    exact Nat.lt_of_lt_of_le h hle

/-- Two operators cannot each be below the other one. -/
theorem not_allows (hright : level.allowsRight other) (hleft : other.allowsLeft level) : False := by
  obtain rfl : level = other :=
    height_injective (Nat.le_antisymm (le_of_allowsRight hright) (le_of_allowsLeft hleft))
  unfold allowsRight at hright
  unfold allowsLeft at hleft
  split at hleft <;> simp_all

/-- The right operand of an operator takes in what may be at its top, -/
theorem allowsRight_of_isTighter (h : other.isTighter level.rightFloor = true) : level.allowsRight other := by
  have hless : level.rightFloor.height < other.height := of_decide_eq_true h
  cases level with
  | assignment | power => exact hless
  | _ => exact hless

theorem rightFloor_of_not_groupsRight (h : ¬level.groupsRight) : level.rightFloor = level := by
  cases level <;> first | rfl | exact absurd rfl h

/-- and what it does not take in may be above it. -/
theorem allowsLeft_of_le (h : level.height ≤ other.rightFloor.height) (hlevel : 0 < level.height) :
    level.allowsLeft other := by
  by_cases hother : other.groupsRight
  · cases other with
    | assignment => exact absurd hlevel (Nat.not_lt_of_le h)
    | power =>
      have hless : level.height < power.height := Nat.lt_of_le_of_lt h (by decide)
      unfold allowsLeft
      split
      · exact hless
      · exact hless.le
    | _ => cases hother
  · rw [rightFloor_of_not_groupsRight hother] at h
    unfold allowsLeft
    split
    next hlevel => exact Nat.lt_of_le_of_ne h fun heq => hother (height_injective heq ▸ hlevel)
    next => exact h

end Level

theorem BinaryOperator.level_pos (o : BinaryOperator) : 0 < o.level.height := by
  cases o <;> exact Nat.succ_pos _

/-! ## There is one tree -/

namespace OperatorTree

variable {t u : OperatorTree} {q : BinaryOperator}

/-- The operator at the top is on the lowest level. -/
theorem GroupsByLevel.top_le (h : t.GroupsByLevel) :
    ∀ p ∈ t.top?, .operator q ∈ t.inOrder → p.level.height ≤ q.level.height := by
  induction t with
  | operand a => exact nofun
  | node o left right ihleft ihright =>
    obtain ⟨hleft, hright, hbelow, hbehind⟩ := h
    rintro p hp hq
    obtain rfl := Option.some.inj hp
    have hside {side : OperatorTree} (hside : ∀ r ∈ side.top?, o.level.height ≤ r.level.height)
        (hmore : ∀ r ∈ side.top?, .operator q ∈ side.inOrder → r.level.height ≤ q.level.height)
        (hq : .operator q ∈ side.inOrder) : o.level.height ≤ q.level.height := by
      cases side with
      | operand a => cases List.mem_singleton.1 hq
      | node r _ _ => exact (hside r rfl).trans (hmore r rfl hq)
    rcases List.mem_append.1 hq with hq | hq
    · exact hside (fun r hr => Level.le_of_allowsLeft (hbelow r hr)) (ihleft hleft) hq
    · rcases List.mem_cons.1 hq with heq | hq
      · cases heq
        exact Nat.le_refl _
      · exact hside (fun r hr => Level.le_of_allowsRight (hbehind r hr)) (ihright hright) hq

/-- What may be at the top of an operand may be anywhere in it. -/
theorem allowsLeft_of_mem {o : BinaryOperator} (h : t.GroupsByLevel) (htop : ∀ r ∈ t.top?, o.level.allowsLeft r.level)
    (hq : .operator q ∈ t.inOrder) : o.level.allowsLeft q.level := by
  cases t with
  | operand a => cases List.mem_singleton.1 hq
  | node r _ _ => exact (htop r rfl).trans_le (h.top_le r rfl hq)

theorem allowsRight_of_mem {o : BinaryOperator} (h : t.GroupsByLevel)
    (htop : ∀ r ∈ t.top?, o.level.allowsRight r.level) (hq : .operator q ∈ t.inOrder) :
    o.level.allowsRight q.level := by
  cases t with
  | operand a => cases List.mem_singleton.1 hq
  | node r _ _ => exact (htop r rfl).trans_le (h.top_le r rfl hq)

theorem inOrder_ne_nil : ∀ t : OperatorTree, t.inOrder ≠ []
  | operand _ => List.cons_ne_nil _ _
  | node _ _ _ => List.append_ne_nil_of_right_ne_nil _ (List.cons_ne_nil _ _)

/-- An operator that one tree has at its top and another one further to the left would be below what is below it. -/
theorem not_further_left {o p : BinaryOperator} {left right left' right' : OperatorTree} {between : List Item}
    (h : (node o left right).GroupsByLevel) (h' : (node p left' right').GroupsByLevel)
    (hleft : left'.inOrder = left.inOrder ++ .operator o :: between)
    (hright : right.inOrder = between ++ .operator p :: right'.inOrder) : False := by
  obtain ⟨-, hgroups, -, hbehind⟩ := h
  obtain ⟨hgroups', -, hbelow, -⟩ := h'
  have hp : Item.operator p ∈ right.inOrder := by rw [hright]; exact List.mem_append_right _ List.mem_cons_self
  have ho : Item.operator o ∈ left'.inOrder := by rw [hleft]; exact List.mem_append_right _ List.mem_cons_self
  exact Level.not_allows (allowsRight_of_mem hgroups hbehind hp) (allowsLeft_of_mem hgroups' hbelow ho)

/-- **Grouped by level, operands and operators make one tree.** -/
theorem eq_of_inOrder : ∀ {t u : OperatorTree}, t.GroupsByLevel → u.GroupsByLevel → t.inOrder = u.inOrder → t = u
  | operand a, operand b, _, _, h => by
    cases h
    rfl
  | operand a, node p left' right', _, _, h => by
    have hlength := congrArg List.length h
    have hpos := List.length_pos_iff.2 left'.inOrder_ne_nil
    simp [inOrder] at hlength
    omega
  | node o left right, operand b, _, _, h => by
    have hlength := congrArg List.length h
    have hpos := List.length_pos_iff.2 left.inOrder_ne_nil
    simp [inOrder] at hlength
    omega
  | node o left right, node p left' right', ht, hu, h => by
    have hsame (hleft : left'.inOrder = left.inOrder)
        (hright : Item.operator o :: right.inOrder = .operator p :: right'.inOrder) :
        node o left right = node p left' right' := by
      obtain ⟨hoperator, hrest⟩ := List.cons.inj hright
      rw [Item.operator.inj hoperator, eq_of_inOrder ht.1 hu.1 hleft.symm, eq_of_inOrder ht.2.1 hu.2.1 hrest]
    rcases List.append_eq_append_iff.1 h with ⟨between, hleft, hright⟩ | ⟨between, hleft, hright⟩
    · cases between with
      | nil => exact hsame (hleft.trans (List.append_nil _)) hright
      | cons first between =>
        obtain ⟨rfl, hrest⟩ := List.cons.inj hright
        exact (not_further_left ht hu hleft hrest).elim
    · cases between with
      | nil => exact hsame (hleft.trans (List.append_nil _)).symm hright.symm
      | cons first between =>
        obtain ⟨rfl, hrest⟩ := List.cons.inj hright
        exact (not_further_left hu ht hleft hrest).elim

end OperatorTree

/-! ## Reading -/

/-- The kinds of tokens that names and literals begin with. -/
def beginsAtom : TokenKind → Bool
  | .identifier | .integer | .float | .quote | .boolean | .null | .na | .naCharacter | .naInteger | .naReal | .naComplex
  | .inf | .nan | .ellipsis => true
  | _ => false

namespace Grammar.Written

variable {ts : List Token} {e : Expression}

theorem exists_cons (h : Written ts e) : ∃ t rest, ts = t :: rest ∧ beginsAtom t.kind = true := by
  cases h with
  | name h => exact ⟨_, _, rfl, by rw [h]; rfl⟩
  | integer h => exact ⟨_, _, rfl, by rw [h]; rfl⟩
  | float h => exact ⟨_, _, rfl, by rw [h]; rfl⟩
  | string h => exact ⟨_, _, rfl, by rw [h]; rfl⟩
  | @word t value h =>
    refine ⟨_, _, rfl, ?_⟩
    unfold Parse.wordLiteral? at h
    split at h <;> first | (rename_i hkind; rw [hkind]; rfl) | cases h

theorem kind_ne_eof (h : Written ts e) : ∀ t ∈ ts, t.kind ≠ .eof := by
  obtain ⟨t, rest, hts, hbegins⟩ := h.exists_cons
  have hfirst : t.kind ≠ .eof := fun hkind => by rw [hkind] at hbegins; cases hbegins
  cases h with
  | string _ hcontent hclose =>
    obtain ⟨rfl, rfl⟩ := List.cons.inj hts
    refine List.forall_mem_cons.2 ⟨hfirst, List.forall_mem_cons.2 ⟨?_, List.forall_mem_singleton.2 ?_⟩⟩
    · rw [hcontent]
      exact nofun
    · rw [hclose]
      exact nofun
  | _ =>
    obtain ⟨rfl, rfl⟩ := List.cons.inj hts
    exact List.forall_mem_singleton.2 hfirst

end Grammar.Written

theorem Link.kind_ne_eof (l : Link) : ∀ t ∈ l.tokens, t.kind ≠ .eof := by
  intro t ht
  rcases List.mem_cons.1 ht with rfl | ht
  · intro hkind
    have hsign := l.isSign
    simp [Token.binaryOperator?, hkind] at hsign
  · rcases List.mem_append.1 ht with ht | ht
    · rw [l.isGap t ht]
      decide
    · exact l.operand.written.kind_ne_eof t ht

namespace Parse

open Steps

variable {deeper : Deeper} {s : ParseState}

/-- A name or a literal is read as the first part of an expression. -/
theorem firstPart_written {ts : List Token} {e : Expression} (h : Grammar.Written ts e) :
    firstPart deeper (s.before ts) = .ok e s := by
  cases h with
  | name h => exact firstPart_identifier h
  | integer h hnumeral => exact firstPart_number h (.inl ⟨rfl, rfl⟩) hnumeral
  | float h hnumeral => exact firstPart_number h (.inr ⟨rfl, rfl⟩) hnumeral
  | string hopened hcontent hclose => exact firstPart_string hopened hcontent hclose
  | word h => exact firstPart_word h

theorem continuation_of_sign {t : Token} {o : BinaryOperator} (h : t.binaryOperator? = some o) :
    Continuation.of? t = some (.operator o) := by
  unfold Continuation.of?
  split
  · rename_i hkind
    simp [Token.binaryOperator?, hkind] at h
  · rename_i hkind
    simp [Token.binaryOperator?, hkind] at h
  · rename_i hkind
    simp [Token.binaryOperator?, hkind] at h
  · rw [h]
    rfl

/-- The tokens of operators and operands in a row. -/
def tokensOf (links : List Link) : List Token := links.flatMap Link.tokens

def itemsOf (links : List Link) : List Item := links.flatMap Link.items

/-- The operator in front, if there is one, does not bind tighter than a floor. -/
def Loose (floor : Level) (links : List Link) : Prop := ∀ l ∈ links.head?, l.operator.level.height ≤ floor.height

theorem loose_nil (floor : Level) : Loose floor [] := fun _ h => nomatch h

theorem continuation_before (hs : Continuation.of? s.peek = none) : ∀ links : List Link,
    Continuation.of? (s.before (tokensOf links)).peek = links.head?.map fun l => .operator l.operator
  | [] => hs
  | l :: _ => continuation_of_sign l.isSign

/-- An expression is read, a level deeper, as what its first part is continued to. -/
theorem expression_before {room : Nat} {floor : Level} {ts us left : List Token} {first e : Expression}
    (hfirst : Grammar.Written ts first)
    (h : continued (deeperAt room) floor first (ParseState.before { s with depth := s.depth + 1 } us) =
      .ok e (ParseState.before { s with depth := s.depth + 1 } left)) :
    (deeperAt (room + 1)).expression floor ((s.before us).before ts) = .ok e (s.before left) := by
  have hbody : expressionBody (deeperAt room) floor
      ((ParseState.before { s with depth := s.depth + 1 } us).before ts) =
        .ok e (ParseState.before { s with depth := s.depth + 1 } left) := by
    rw [expressionBody, bind_ok (firstPart_written hfirst), h]
  show nested (expressionBody (deeperAt room) floor) ((s.before us).before ts) = _
  rw [nested_ok hbody]
  rfl

/-- An operator takes in what the operand behind it is continued to. -/
theorem operatorBehind_before {room : Nat} {links left : List Link} (l : Link) (first : Expression) {e : Expression}
    (h : continued (deeperAt room) l.operator.level.rightFloor l.operand.expression
        (ParseState.before { s with depth := s.depth + 1 } (tokensOf links)) =
      .ok e (ParseState.before { s with depth := s.depth + 1 } (tokensOf left))) :
    operatorBehind (deeperAt (room + 1)) first l.operator (s.before (tokensOf (l :: links))) =
      .ok (.binary (first.span.union e.span) l.operator first e) (s.before (tokensOf left)) := by
  let behind : ParseState := (s.before (tokensOf links)).before l.operand.tokens
  have hstart : s.before (tokensOf (l :: links)) = (behind.before l.gap).before [l.sign] := by
    show s.before (l.tokens ++ tokensOf links) = _
    rw [← ParseState.before_append, ← ParseState.before_append, ← ParseState.before_append, Link.tokens]
    simp only [List.cons_append, List.nil_append, List.append_assoc]
  have hskip : skipNewlines (behind.before l.gap) = .ok () behind := by
    obtain ⟨t, rest, htokens, hbegins⟩ := l.operand.written.exists_cons
    have hrest : behind.rest = t :: (rest ++ (s.before (tokensOf links)).rest) := by
      rw [ParseState.rest_before, htokens, List.cons_append]
    refine skipNewlines_before l.isGap hrest fun hnewline => ?_
    rw [hnewline] at hbegins
    cases hbegins
  unfold operatorBehind
  rw [hstart, bind_ok (advance_before _), l.joins]
  show ((do skipNewlines; (deeperAt (room + 1)).expression l.operator.level.rightFloor : Parse Expression) >>= _)
    (behind.before l.gap) = _
  rw [bind_ok ((bind_ok hskip).trans (expression_before l.operand.written h))]
  rfl

/-- What an expression that is continued becomes: it takes in some of the operators and operands that follow and leaves
the others, of which the first does not bind tighter than the floor. -/
structure Climbed (floor : Level) (links : List Link) (t : OperatorTree) (left : List Link) (u : OperatorTree) :
    Prop where
  inOrder : u.inOrder ++ itemsOf left = t.inOrder ++ itemsOf links
  suffix : left <:+ links
  groups : u.GroupsByLevel
  tighter : ∀ q ∈ u.top?, q.level.isTighter floor = true
  loose : Loose floor left

/-- Where an operator does not bind tighter than the floor, an expression ends in front of it. -/
theorem climbed_of_loose (room : Nat) {floor : Level} {links : List Link} {t : OperatorTree}
    (hloose : Loose floor links) (hs : Continuation.of? s.peek = none) (hgroups : t.GroupsByLevel)
    (htighter : ∀ q ∈ t.top?, q.level.isTighter floor = true) :
    Climbed floor links t links t ∧ continued (deeperAt room) floor t.expression (s.before (tokensOf links)) =
      .ok t.expression (s.before (tokensOf links)) := by
  refine ⟨⟨rfl, List.suffix_refl _, hgroups, htighter, hloose⟩, continued_stops (fun c hc => ?_) _⟩
  rw [continuation_before hs] at hc
  obtain ⟨l, hl, rfl⟩ := Option.map_eq_some_iff.1 hc
  exact decide_eq_false (Nat.not_lt_of_le (hloose l hl))

/-- **What an expression is continued to is grouped by level**, if it was before, its operator binds tighter than the
floor, and the next operator does not belong to its right operand. -/
theorem continued_climbs (n : Nat) : ∀ (links : List Link) (room : Nat) (floor : Level) (t : OperatorTree)
    (s : ParseState), links.length ≤ n → links.length ≤ room → Continuation.of? s.peek = none → t.GroupsByLevel →
      (∀ q ∈ t.top?, q.level.isTighter floor = true) → (∀ q ∈ t.top?, Loose q.level.rightFloor links) →
      ∃ left u, Climbed floor links t left u ∧
        continued (deeperAt room) floor t.expression (s.before (tokensOf links)) =
          .ok u.expression (s.before (tokensOf left)) := by
  induction n with
  | zero =>
    intro links room floor t s hn _ hs hgroups htighter _
    obtain rfl := List.length_eq_zero_iff.1 (Nat.le_zero.1 hn)
    exact ⟨[], t, climbed_of_loose room (loose_nil floor) hs hgroups htighter⟩
  | succ n ih =>
    rintro (_ | ⟨l, links⟩) room floor t s hn hroom hs hgroups htighter hnext
    · exact ⟨[], t, climbed_of_loose room (loose_nil floor) hs hgroups htighter⟩
    by_cases htight : l.operator.level.isTighter floor = true
    · obtain ⟨room, rfl⟩ : ∃ r, room = r + 1 := ⟨room - 1, by rw [List.length_cons] at hroom; omega⟩
      have hn' : links.length ≤ n := Nat.le_of_succ_le_succ hn
      let deep : ParseState := { s with depth := s.depth + 1 }
      have hdeep : Continuation.of? deep.peek = none := hs
      -- the right operand takes in what binds tighter than the operator
      obtain ⟨between, right, hright, hreadRight⟩ := ih links room l.operator.level.rightFloor (.operand l.operand) deep
        hn' (Nat.le_of_succ_le_succ hroom) hdeep trivial nofun nofun
      have hnode : (OperatorTree.node l.operator t right).GroupsByLevel := by
        refine ⟨hgroups, hright.groups, fun q hq => ?_, fun q hq => ?_⟩
        · exact Level.allowsLeft_of_le (hnext q hq l rfl) l.operator.level_pos
        · exact Level.allowsRight_of_isTighter (hright.tighter q hq)
      -- and the whole is continued by what is left
      obtain ⟨left, u, hu, hread⟩ := ih between (room + 1) floor (.node l.operator t right) s
        (hright.suffix.length_le.trans hn') (hright.suffix.length_le.trans (Nat.le_of_succ_le hroom)) hs hnode
        (fun q hq => Option.some.inj hq ▸ htight) (fun q hq => Option.some.inj hq ▸ hright.loose)
      refine ⟨left, u, ⟨?_, ?_, hu.groups, hu.tighter, hu.loose⟩, ?_⟩
      · have hitems : itemsOf (l :: links) = .operator l.operator :: .operand l.operand :: itemsOf links := rfl
        have hinOrder : right.inOrder ++ itemsOf between = .operand l.operand :: itemsOf links := hright.inOrder
        rw [hu.inOrder, hitems, ← hinOrder, OperatorTree.inOrder, List.append_assoc, List.cons_append]
      · exact hu.suffix.trans (hright.suffix.trans (List.suffix_cons l links))
      · have hpeek := continuation_before hs (l :: links)
        have hless : (s.before (tokensOf between)).rest.length < (s.before (tokensOf (l :: links))).rest.length := by
          obtain ⟨taken, rfl⟩ := hright.suffix
          simp [tokensOf, Link.tokens]
          omega
        rw [continued_again hpeek htight (operatorBehind_before l t.expression hreadRight) hless]
        exact hread
    · have hloose : Loose floor (l :: links) := fun l' hl' =>
        Option.some.inj hl' ▸ Nat.le_of_not_lt (of_decide_eq_false (Bool.eq_false_iff.2 htight))
      exact ⟨l :: links, t, climbed_of_loose room hloose hs hgroups htighter⟩

/-- **Operators and operands are read whole**, with no more levels of nesting than there are operands, up to something
that does not continue them. -/
theorem anyExpression_climbs {links : List Link} {limit : Nat} (first : Atom) (hlimit : links.length < limit)
    (hs : Continuation.of? s.peek = none) : ∃ u : OperatorTree, u.inOrder = .operand first :: itemsOf links ∧
      u.GroupsByLevel ∧
      anyExpression (deeperAt limit) ((s.before (tokensOf links)).before first.tokens) = .ok u.expression s := by
  obtain ⟨room, rfl⟩ : ∃ room, limit = room + 1 := ⟨limit - 1, by omega⟩
  let deep : ParseState := { s with depth := s.depth + 1 }
  have hdeep : Continuation.of? deep.peek = none := hs
  obtain ⟨left, u, hu, hread⟩ := continued_climbs links.length links room .lowest (.operand first) deep
    (Nat.le_refl _) (Nat.le_of_lt_succ hlimit) hdeep trivial nofun nofun
  -- every operator binds tighter than the lowest floor
  obtain rfl : left = [] := by
    cases left with
    | nil => rfl
    | cons l left => exact absurd l.operator.level_pos (Nat.not_lt_of_le (hu.loose l rfl))
  exact ⟨u, (List.append_nil _).symm.trans hu.inOrder, hu.groups, expression_before first.written hread⟩

theorem statementOf_atom {kind : TokenKind} (h : beginsAtom kind = true) :
    statementOf deeper kind = ended (return .expression (← anyExpression deeper)) := by
  cases kind <;> first | rfl | cases h

/-- What a statement ends with continues no expression. -/
theorem continuation_of_ends {t : Token} (h : endsStatement t.kind = true) : Continuation.of? t = none := by
  unfold endsStatement at h
  split at h
  case h_5 => cases h
  all_goals
    rename_i hkind
    simp [Continuation.of?, Token.binaryOperator?, hkind]

/-- An expression that begins with a name or a literal, in front of what ends a statement, is a statement. -/
theorem statement_before_atom {ts : List Token} {limit : Nat} {e : Expression}
    (hbegins : ∃ t rest, ts = t :: rest ∧ beginsAtom t.kind = true) (hends : endsStatement s.peek.kind = true)
    (hread : anyExpression (deeperAt limit) (s.before ts) = .ok e s) :
    statement (deeperAt limit) (s.before ts) = .ok (.expression e) s := by
  obtain ⟨t, rest, rfl, hbegins⟩ := hbegins
  have hends' : Grammar.endsDeclaration s.peek = true := by rw [Grammar.endsDeclaration, hends]; rfl
  rw [statement_eq, ParseState.peek_before_cons, statementOf_atom hbegins]
  exact ended_ok (bind_ok hread) hends'

theorem endsStatement_of_separators (heof : s.eof.kind = .eof) (h : ∀ t ∈ s.rest, isSeparator t = true) :
    endsStatement s.peek.kind = true := by
  unfold ParseState.peek
  cases hrest : s.rest with
  | nil =>
    rw [List.head?_nil, Option.getD_none, heof]
    rfl
  | cons t rest =>
    have ht := h t (hrest ▸ List.mem_cons_self)
    rw [isSeparator, Bool.or_eq_true, beq_iff_eq, beq_iff_eq] at ht
    rw [List.head?_cons, Option.getD_some]
    rcases ht with ht | ht <;> rw [ht] <;> rfl

/-- Behind separators alone a run of statements ends. -/
theorem statementsFrom_ends {limit : Nat} (heof : s.eof.kind = .eof) (h : ∀ t ∈ s.rest, isSeparator t = true)
    (taken : List Statement) : statementsFrom limit false taken s = .ok taken { s with rest := [] } := by
  have hskipped : skipped s = { s with rest := [] } := by rw [skipped, List.dropWhile_eq_nil_iff.2 h]
  have hstops : stops false (skipped s) := .inl (by rw [hskipped]; exact heof)
  rw [statementsFrom_eq heof, if_pos hstops, hskipped]

end Parse

/-- Tokens in front of the first end of file are left to be read. -/
theorem ParseState.ofTokens_append {ts : List Token} (h : ∀ t ∈ ts, t.kind ≠ .eof) (more : List Token) :
    ParseState.ofTokens (ts ++ more) =
      ParseState.before { rest := more.takeWhile isProper, eof := (ParseState.ofTokens (ts ++ more)).eof } ts := by
  have hproper : ∀ t ∈ ts, isProper t = true := fun t ht => bne_iff_ne.2 (h t ht)
  rw [before, ← List.takeWhile_append_of_pos hproper]
  rfl

namespace ParsedProgram

open Parse

/-- Tokens that begin with a name or a literal and are read as an expression in front of whatever ends a statement are a
program of this expression alone, with line ends or nothing behind them. -/
theorem ofTokens_expression {ts ends : List Token} {limit : Nat} {good : Expression → Prop}
    (hbegins : ∃ t rest, ts = t :: rest ∧ beginsAtom t.kind = true) (hproper : ∀ t ∈ ts, t.kind ≠ .eof)
    (hends : ∀ t ∈ ends, isSeparator t = true ∨ t.kind = .eof)
    (hread : ∀ s : ParseState, endsStatement s.peek.kind = true →
      ∃ e, good e ∧ anyExpression (deeperAt limit) (s.before ts) = .ok e s) :
    ∃ e, good e ∧ ofTokens (ts ++ ends) limit = ⟨⟨[.expression e]⟩, []⟩ := by
  let behind : ParseState :=
    { rest := ends.takeWhile ParseState.isProper, eof := (ParseState.ofTokens (ts ++ ends)).eof }
  have heof : behind.eof.kind = .eof := ParseState.eof_kind_ofTokens _
  have hseparators : ∀ t ∈ behind.rest, isSeparator t = true := fun t ht => by
    have hproper : ParseState.isProper t = true := List.mem_takeWhile_imp ht
    exact (hends t ((List.takeWhile_prefix _).subset ht)).resolve_right (bne_iff_ne.1 hproper)
  have hstart : ParseState.ofTokens (ts ++ ends) = behind.before ts := ParseState.ofTokens_append hproper ends
  have hlast : endsStatement behind.peek.kind = true := endsStatement_of_separators heof hseparators
  obtain ⟨e, hgood, hread⟩ := hread behind hlast
  have hstatement := statement_before_atom hbegins hlast hread
  obtain ⟨t, rest, rfl, hbegins⟩ := hbegins
  have hrun : run limit (t :: rest ++ ends) = .ok [.expression e] { behind with rest := [] } := by
    have hseparator : ¬isSeparator t = true := fun h => by
      rw [isSeparator, Bool.or_eq_true, beq_iff_eq, beq_iff_eq] at h
      rcases h with h | h <;> rw [h] at hbegins <;> cases hbegins
    have hrest : (behind.before (t :: rest)).rest = t :: (rest ++ behind.rest) := rfl
    rw [run, statements_eq, hstart, statementsFrom_next hrest heof hseparator (hproper t List.mem_cons_self) hstatement]
    exact statementsFrom_ends heof hseparators _
  refine ⟨e, hgood, ?_⟩
  rw [ofTokens, hrun]
  rfl

/-- **How operators group.**  Names and literals with operators of any levels between them, but for those that reach into
their left operands, and with line ends behind any operator, are read without an error under any limit on nesting that is
not below the number of operands.  The program is one expression; its operands and operators from left to right are those
that are written; it is grouped by level, to the left or, for assignments and powers, to the right; and no other tree over
these operands and operators is. -/
theorem ofTokens_climbs (first : Atom) (links : List Link) {ends : List Token} {limit : Nat}
    (hends : ∀ t ∈ ends, isSeparator t = true ∨ t.kind = .eof) (hlimit : links.length + 1 ≤ limit) :
    ∃ u : OperatorTree,
      ofTokens (first.tokens ++ tokensOf links ++ ends) limit = ⟨⟨[.expression u.expression]⟩, []⟩ ∧
      u.inOrder = .operand first :: itemsOf links ∧ u.GroupsByLevel ∧
      ∀ v : OperatorTree, v.inOrder = .operand first :: itemsOf links → v.GroupsByLevel → v = u := by
  have hproper : ∀ t ∈ first.tokens ++ tokensOf links, t.kind ≠ .eof := by
    intro t ht
    rcases List.mem_append.1 ht with ht | ht
    · exact first.written.kind_ne_eof t ht
    · obtain ⟨l, -, ht⟩ := List.mem_flatMap.1 ht
      exact l.kind_ne_eof t ht
  have hbegins : ∃ t rest, first.tokens ++ tokensOf links = t :: rest ∧ beginsAtom t.kind = true := by
    obtain ⟨t, rest, htokens, hbegins⟩ := first.written.exists_cons
    exact ⟨t, rest ++ tokensOf links, by rw [htokens, List.cons_append], hbegins⟩
  have hread (s : ParseState) (hs : endsStatement s.peek.kind = true) : ∃ e,
      (∃ u : OperatorTree, e = u.expression ∧ u.inOrder = .operand first :: itemsOf links ∧ u.GroupsByLevel) ∧
      anyExpression (deeperAt limit) (s.before (first.tokens ++ tokensOf links)) = .ok e s := by
    obtain ⟨u, hinOrder, hgroups, hread⟩ := anyExpression_climbs first hlimit (continuation_of_ends hs)
    rw [ParseState.before_append]
    exact ⟨u.expression, ⟨u, rfl, hinOrder, hgroups⟩, hread⟩
  obtain ⟨_, ⟨u, rfl, hinOrder, hgroups⟩, hprogram⟩ := ofTokens_expression hbegins hproper hends hread
  exact ⟨u, hprogram, hinOrder, hgroups, fun v hv hvgroups => OperatorTree.eq_of_inOrder hvgroups hgroups
    (hv.trans hinOrder.symm)⟩

/-- Differences group to the left, powers to the right and below them, and the assignment is above both. -/
theorem ofTokens_climbs_assignment :
    let token (kind : TokenKind) (text : String) (column : Nat) : Token := ⟨kind, text, "m.vp", ⟨1, column⟩⟩
    let name (text : String) (column : Nat) : Atom := ⟨[token .identifier text column], _, .name rfl⟩
    let x := name "x" 1
    let a := name "a" 5
    let b := name "b" 9
    let c := name "c" 13
    let d := name "d" 17
    let e := name "e" 21
    let links : List Link := [⟨token .equal "=" 3, .assign, [], a, rfl, rfl, nofun⟩,
      ⟨token .minus "-" 7, .subtract, [token .newline "" 8], b, rfl, rfl, by decide⟩,
      ⟨token .minus "-" 11, .subtract, [], c, rfl, rfl, nofun⟩, ⟨token .caret "^" 15, .power, [], d, rfl, rfl, nofun⟩,
      ⟨token .caret "^" 19, .power, [], e, rfl, rfl, nofun⟩]
    let ends := [token .newline "" 22]
    let tree : OperatorTree := .node .assign (.operand x) (.node .subtract (.node .subtract (.operand a) (.operand b))
      (.node .power (.operand c) (.node .power (.operand d) (.operand e))))
    ((∀ t ∈ ends, isSeparator t = true ∨ t.kind = .eof) ∧ links.length + 1 ≤ 6) ∧
      ofTokens (x.tokens ++ tokensOf links ++ ends) 6 = ⟨⟨[.expression tree.expression]⟩, []⟩ := by
  intro token name x a b c d e links ends tree
  have hends : ∀ t ∈ ends, isSeparator t = true ∨ t.kind = .eof := by decide
  have hlimit : links.length + 1 ≤ 6 := by decide
  obtain ⟨u, hread, -, -, hunique⟩ := ofTokens_climbs x links hends hlimit
  have htree : tree = u := hunique tree rfl (by decide)
  exact ⟨⟨hends, hlimit⟩, htree ▸ hread⟩

end ParsedProgram
end UnionScript
