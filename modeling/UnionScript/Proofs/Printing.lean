import UnionScript.TypeFile
import UnionScript.Proofs.Spelling
import UnionScript.Proofs.Declarations
import UnionScript.Proofs.Alike
/-!
# Printing — declared types are printed as what reads back as them

The texts that types are written as spell words that can be told from the type (`TypeEntry.declarationWords`), if every
name in the type is an identifier.  A composite type leaves itself out of its members when it is printed, and stands for
itself again where no member is left; that is what a type is restored as (`TypeEntry.restored`).
-/
namespace UnionScript

open Lexeme

/-! ## Words with others between them -/

theorem intercalate_cons {α : Type} (between : List α) (first : List α) : ∀ more : List (List α),
    between.intercalate (first :: more) = first ++ more.flatMap (between ++ ·)
  | [] => by rw [List.intercalate_singleton, List.flatMap_nil, List.append_nil]
  | second :: more => by
    rw [List.intercalate_cons_cons, intercalate_cons between second more, List.flatMap_cons, List.append_assoc,
      List.append_assoc]

/-- Texts that spell words do so with a sign between them. -/
theorem spells_intercalate {sign : String} {between : List Word} (hsign : Marks sign.toList between)
    (hdelimits : ∀ rest, Delimits (sign.toList ++ rest)) {texts : List String} {words : List (List Word)}
    (h : List.Forall₂ (fun text words => Spells text.toList words) texts words) :
    Spells (sign.intercalate texts).toList (between.intercalate words) := by
  induction h with
  | nil => exact spells_nil
  | @cons text ws texts words htext h ih =>
    cases h with
    | nil =>
      rw [String.intercalate_singleton, List.intercalate_singleton]
      exact htext
    | cons htext' h =>
      rw [String.intercalate_cons_cons, List.intercalate_cons_cons, String.toList_append, String.toList_append,
        List.append_assoc, List.append_assoc]
      refine htext.append (hsign.append ih) fun rest _ => ?_
      rw [List.append_assoc]
      exact hdelimits _

theorem forall₂_map {α β γ : Type} {r : β → γ → Prop} {f : α → β} {g : α → γ} {all : List α}
    (h : ∀ a ∈ all, r (f a) (g a)) : List.Forall₂ r (all.map f) (all.map g) :=
  List.forall₂_map_left_iff.2 (List.forall₂_map_right_iff.2 (List.forall₂_same.2 h))

/-! ## What types are printed as -/

/-- An alternative made of identifiers. -/
structure TypeName.IsNamed (t : TypeName) : Prop where
  name : IsName t.name
  package : ∀ p ∈ t.package, IsName p

/-- What stands in front of the name of an alternative in a package. -/
def TypeName.accessWords : Option String → List Word
  | some p => [(.identifier, p), (.namespaceAccess, "::")]
  | none => []

/-- The words of an alternative. -/
def TypeName.words (t : TypeName) : List Word :=
  (if t.list then [(.listMark, "[]")] else []) ++ (accessWords t.package ++ [(.identifier, t.name)])

theorem TypeName.spells_render {t : TypeName} (h : t.IsNamed) : Spells t.render.toList t.words := by
  have hbehind : Spells ((match t.package with | some p => p ++ "::" | none => "") ++ t.name).toList
      (accessWords t.package ++ [(.identifier, t.name)]) := by
    cases hpackage : t.package with
    | none => exact h.name.spells
    | some p =>
      rw [String.toList_append, String.toList_append, List.append_assoc]
      exact (h.package p hpackage).spells.append h.name.access fun _ _ => delimits_cons (by decide) _
  unfold TypeName.render TypeName.words
  rw [String.append_assoc]
  cases t.list with
  | false => rwa [if_neg nofun, if_neg nofun, String.empty_append, List.nil_append]
  | true =>
    rw [if_pos rfl, if_pos rfl, String.toList_append]
    exact marks_list.append hbehind

/-- A union of at least one alternative, all of them made of identifiers. -/
structure Union.IsNamed (u : Union) : Prop where
  nonempty : u.alternatives ≠ []
  alternatives : ∀ t ∈ u.alternatives, t.IsNamed

/-- The words of a union. -/
def Union.words (u : Union) : List Word :=
  List.intercalate [(.or, "|")] (u.alternatives.map TypeName.words)

theorem Union.spells_render {u : Union} (h : u.IsNamed) : Spells u.render.toList u.words := by
  have hsign : Marks " | ".toList [(.or, "|")] := marks_blank.behind marks_or
  have hdelimits (rest : List Char) : Delimits (" | ".toList ++ rest) := delimits_cons (by decide) _
  exact spells_intercalate hsign hdelimits (forall₂_map fun t ht => TypeName.spells_render (h.alternatives t ht))

/-- The words of an attribute. -/
def TypedName.words (a : TypedName) : List Word :=
  (.identifier, a.name) :: (.colon, ":") :: a.types.words

theorem TypedName.spells {a : TypedName} (hname : IsName a.name) (htypes : a.types.IsNamed) :
    Spells (a.name ++ ": " ++ a.types.render).toList a.words := by
  rw [String.toList_append, String.toList_append, List.append_assoc]
  exact hname.spells.append (marks_colon.append (Union.spells_render htypes)) fun _ _ => delimits_cons (by decide) _

namespace TypeEntry

/-- An undecorated type in which every name is an identifier. -/
structure IsNamed (t : TypeEntry) : Prop where
  name : IsName t.name
  types : t.types.IsNamed
  attributes : ∀ a ∈ t.attributes, IsName a.name ∧ a.types.IsNamed
  kind : t.kind ≠ .plain → IsName t.kind.word ∧ TypeKind.ofWord? t.kind.word = some t.kind
  plain : t.kind = .plain → t.attributes = []
  list : t.list = (decide (t.kind = .plain) && t.types.alternatives.all TypeName.list)
  decorators : t.decorators = []

/-- The members of the body of a type, itself left out. -/
def others (t : TypeEntry) : List TypeName :=
  t.types.alternatives.filter fun m => !t.isItself m

/-- The attributes of a type without their places. -/
def contents (t : TypeEntry) : List (String × Union) := t.attributes.map fun a => (a.name, a.types)

/-- The types that are read back where a type is printed: a composite type leaves itself out of its members, and stands
for itself where no other is left. -/
def restoredTypes (t : TypeEntry) : Union :=
  if t.kind = .plain then t.types
  else if t.others = [] then .named t.name
  else ⟨t.others, t.types.distinct.filter _⟩

/-- What is read back where a type is printed. -/
def restored (t : TypeEntry) : TypeEntry := { t with types := t.restoredTypes }

/-- An entry with its places left out: its span, those of its attributes, and its number in the order of types. -/
def unplaced (t : TypeEntry) : TypeEntry :=
  { t with attributes := t.attributes.map fun a => { a with span := .nowhere }, span := .nowhere, order := 0 }

theorem contents_unplaced (t : TypeEntry) : t.unplaced.contents = t.contents := by
  unfold contents unplaced
  rw [List.map_map]
  rfl

/-- Entries that say the same are the same but for places. -/
theorem unplaced_eq {t t' : TypeEntry} (hname : t.name = t'.name) (htypes : t.types = t'.types)
    (hlist : t.list = t'.list) (hkind : t.kind = t'.kind) (hcontents : t.contents = t'.contents)
    (hclasses : t.classes = t'.classes) (hdecorators : t.decorators = t'.decorators)
    (hbuiltin : t.builtin = t'.builtin) : t.unplaced = t'.unplaced := by
  have hattributes : ∀ t : TypeEntry, t.unplaced.attributes = t.contents.map fun p => ⟨p.1, .nowhere, p.2⟩ := fun t => by
    rw [contents, List.map_map]
    rfl
  have hsame : t.unplaced.attributes = t'.unplaced.attributes := by rw [hattributes, hattributes, hcontents]
  unfold unplaced at hsame ⊢
  simp only [TypeEntry.mk.injEq]
  exact ⟨hname, htypes, hlist, hkind, hsame, hclasses, hdecorators, hbuiltin, trivial, trivial⟩

/-- The words of the entries of the body of a type. -/
def entriesWords (t : TypeEntry) : List (List Word) :=
  t.others.map TypeName.words ++ t.attributes.map TypedName.words

/-- The words of the body of a type. -/
def bodyWords (t : TypeEntry) : List Word :=
  if t.entriesWords = [] then [(.leftBrace, "\x7b"), (.rightBrace, "\x7d")]
  else [(.leftBrace, "\x7b"), (.newline, "\n")] ++
    (List.intercalate [(.comma, ","), (.newline, "\n")] t.entriesWords ++ [(.newline, "\n"), (.rightBrace, "\x7d")])

/-- The words of a declaration, without the line end behind it. -/
def declarationWords (t : TypeEntry) : List Word :=
  [(.keyword .type, "type"), (.identifier, t.name), (.colon, ":")] ++
    (if t.kind = .plain then t.types.words else (.identifier, t.kind.word) :: t.bodyWords)

variable {t : TypeEntry}

theorem spells_body (h : t.IsNamed) : Spells t.body.toList t.bodyWords := by
  have hentries : List.Forall₂ (fun text words => Spells text.toList words) t.bodyEntries t.entriesWords := by
    refine List.rel_append (forall₂_map fun m hm => ?_) (forall₂_map fun a ha => ?_)
    · exact TypeName.spells_render (h.types.alternatives m (List.mem_filter.1 hm).1)
    · exact TypedName.spells (h.attributes a ha).1 (h.attributes a ha).2
  have hbreak : Marks ['\n', ' ', ' '] [(.newline, "\n")] := marks_newline.behind (marks_blank.behind marks_blank)
  have hsign : Marks ",\n  ".toList [(.comma, ","), (.newline, "\n")] := marks_comma.behind hbreak
  have hdelimits (rest : List Char) : Delimits (",\n  ".toList ++ rest) := delimits_cons (by decide) _
  have hopened : Marks "\x7b\n  ".toList [(.leftBrace, "\x7b"), (.newline, "\n")] := marks_leftBrace.behind hbreak
  have hclosed : Marks "\n\x7d".toList [(.newline, "\n"), (.rightBrace, "\x7d")] :=
    marks_newline.behind marks_rightBrace
  unfold TypeEntry.body bodyWords
  by_cases hempty : t.bodyEntries = []
  · have hwords : t.entriesWords = [] := List.forall₂_nil_left_iff.1 (hempty ▸ hentries)
    rw [if_pos (List.isEmpty_iff.2 hempty), if_pos hwords]
    exact (marks_leftBrace.append marks_rightBrace.spells)
  · have hwords : t.entriesWords ≠ [] := fun e => hempty (List.forall₂_nil_right_iff.1 (e ▸ hentries))
    rw [if_neg (by simpa using hempty), if_neg hwords, String.toList_append, String.toList_append, List.append_assoc]
    refine hopened.append ((spells_intercalate hsign hdelimits hentries).append hclosed.spells fun _ _ => ?_)
    exact delimits_cons (by decide) _

/-- **A declared type is printed as the words of its declaration**, on lines of their own. -/
theorem spells_declaration (h : t.IsNamed) :
    Spells t.declaration.toList (t.declarationWords ++ [(.newline, "\n")]) := by
  have hbehind : Spells (if t.kind = .plain then t.types.render else t.kind.word ++ " " ++ t.body).toList
      (if t.kind = .plain then t.types.words else (.identifier, t.kind.word) :: t.bodyWords) := by
    split
    · exact Union.spells_render h.types
    · rename_i hkind
      rw [String.toList_append, String.toList_append, List.append_assoc]
      refine (h.kind hkind).1.spells.append (marks_blank.append (spells_body h)) fun _ _ => ?_
      exact delimits_cons (by decide) _
  have hnewline (rest : List Char) : Delimits ("\n".toList ++ rest) := delimits_cons (by decide) _
  unfold TypeEntry.declaration declarationWords
  rw [h.decorators]
  simp only [String.toList_append, List.append_assoc]
  refine marks_type.append (h.name.spells.append (marks_colon.append ?_) fun _ _ => delimits_cons (by decide) _)
  exact hbehind.append marks_newline.spells fun rest _ => hnewline rest

end TypeEntry

end UnionScript
