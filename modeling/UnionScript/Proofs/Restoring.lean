import UnionScript.Check.Inference
import UnionScript.Proofs.Printing
/-!
# Restoring — what is printed of a type declares it again

Tokens that say the words of a declared type are a declaration, and of what is restored of the type
(`restored_of_declarationWords`).  A composite type leaves itself out of its members when it is printed, and stands for
itself again where none is left; that is all that may be different, places apart, and no lookup tells the difference
(`alike_of_restored`).
-/
namespace UnionScript
namespace Grammar

open Lexeme (IsName)

/-! ## Unions -/

theorem alternative_of_words {t : TypeName} {ts : List Token} (h : ts.map Token.word = t.words) : Alternative ts t := by
  obtain ⟨name, package, list⟩ := t
  have hbehind (ts : List Token)
      (h : ts.map Token.word = TypeName.accessWords package ++ [(.identifier, name)]) :
      Alternative ts { name, package } := by
    cases package with
    | none =>
      obtain ⟨token, rfl, hword⟩ := List.map_eq_singleton_iff.1 h
      obtain ⟨hkind, rfl⟩ := of_word hword
      exact .named hkind
    | some p =>
      obtain ⟨package, ts, rfl, hpackage, h⟩ := List.map_eq_cons_iff.1 h
      obtain ⟨access, ts, rfl, haccess, h⟩ := List.map_eq_cons_iff.1 h
      obtain ⟨token, rfl, hword⟩ := List.map_eq_singleton_iff.1 h
      obtain ⟨hkind, rfl⟩ := of_word hpackage
      obtain ⟨hkind', rfl⟩ := of_word hword
      exact .packaged hkind (of_word haccess).1 hkind'
  cases list with
  | false => exact hbehind ts h
  | true =>
    obtain ⟨mark, ts, rfl, hmark, h⟩ := List.map_eq_cons_iff.1 h
    exact .list (of_word hmark).1 (hbehind ts h) rfl

theorem alternatives_of_words : ∀ {all : List TypeName} {ts : List Token},
    ts.map Token.word = (all.map TypeName.words).flatMap ([(.or, "|")] ++ ·) → Alternatives ts all
  | [], ts, h => by
    rw [List.map_eq_nil_iff.1 h]
    exact .nil
  | t :: all, ts, h => by
    rw [List.map_cons, List.flatMap_cons, List.append_assoc, List.singleton_append] at h
    obtain ⟨bar, ts, rfl, hbar, h⟩ := List.map_eq_cons_iff.1 h
    obtain ⟨first, more, rfl, hfirst, hmore⟩ := List.map_eq_append_iff.1 h
    have hbreaks : ∀ b ∈ ([] : List Token), b.kind = .newline := nofun
    exact .cons (of_word hbar).1 hbreaks (alternative_of_words hfirst) (alternatives_of_words hmore)

theorem keepNew_of_nodup : ∀ {kept items : List TypeName}, (kept ++ items).Nodup → keepNew kept items = kept ++ items
  | kept, [], _ => (List.append_nil kept).symm
  | kept, a :: items, h => by
    have ha : a ∉ kept := fun hmem => (List.nodup_append.1 h).2.2 a hmem a List.mem_cons_self rfl
    rw [List.append_cons] at h
    rw [keepNew, if_neg ha, keepNew_of_nodup h, ← List.append_cons]

theorem union_eq {u v : Union} (h : u.alternatives = v.alternatives) : u = v := by
  obtain ⟨all, hdistinct⟩ := u
  cases h
  rfl

theorem ofList_alternatives (u : Union) : Union.ofList u.alternatives = u := by
  exact union_eq (keepNew_of_nodup u.distinct)

theorem annotation_of_words {u : Union} (hsome : u.alternatives ≠ []) {ts : List Token}
    (h : ts.map Token.word = u.words) : Annotation ts u := by
  obtain ⟨t, all, hall⟩ := List.exists_cons_of_ne_nil hsome
  rw [Union.words, hall, List.map_cons, intercalate_cons] at h
  obtain ⟨first, more, rfl, hfirst, hmore⟩ := List.map_eq_append_iff.1 h
  have hannotation : Annotation (first ++ more) (.ofList (t :: all)) :=
    .intro (alternative_of_words hfirst) (alternatives_of_words hmore)
  rwa [← hall, ofList_alternatives] at hannotation

/-! ## Bodies -/

/-- What is listed, without places. -/
def Listed.content (listed : Listed) : List TypeName × List (String × Union) :=
  (listed.1.alternatives, listed.2.map fun a => (a.name, a.types))

/-- A change of what is listed. -/
abbrev Listing := List TypeName × List (String × Union) → List TypeName × List (String × Union)

/-- Changes of what is listed, the first one first. -/
def listAll (changes : List Listing) : Listing := fun s => changes.foldl (fun s change => change s) s

/-- Words that list something when they are an entry. -/
def Lists (words : List Word) (change : Listing) : Prop :=
  ∀ (ts : List Token) (listed : Listed), ts.map Token.word = words →
    ∃ between, Entry ts listed between ∧ between.content = change listed.content

/-- What a member lists. -/
def listMember (m : TypeName) : Listing := fun s => (keepNew s.1 [m], s.2)

/-- What an attribute lists. -/
def listAttribute (a : TypedName) : Listing := fun s => (s.1, s.2 ++ [(a.name, a.types)])

theorem lists_member (m : TypeName) : Lists m.words (listMember m) := by
  rintro ts ⟨types, attributes⟩ h
  have hannotation : Annotation (ts ++ []) (.ofList [m]) := .intro (alternative_of_words h) .nil
  rw [List.append_nil] at hannotation
  exact ⟨_, .member hannotation, rfl⟩

theorem lists_attribute {a : TypedName} (hsome : a.types.alternatives ≠ []) : Lists a.words (listAttribute a) := by
  rintro ts ⟨types, attributes⟩ h
  obtain ⟨name, ts, rfl, hname, h⟩ := List.map_eq_cons_iff.1 h
  obtain ⟨colon, ts, rfl, hcolon, h⟩ := List.map_eq_cons_iff.1 h
  obtain ⟨hname, htext⟩ := of_word hname
  refine ⟨_, .named hname (of_word hcolon).1 (annotation_of_words hsome h), ?_⟩
  rw [Listed.content, List.map_append, List.map_singleton, htext]
  rfl

/-- The words behind an entry, given those of the entries that follow. -/
def restWords (entries : List (List Word)) : List Word :=
  entries.flatMap ([(.comma, ","), (.newline, "\n")] ++ ·) ++ [(.newline, "\n"), (.rightBrace, "\x7d")]

theorem endsEntry_of_restWords {entries : List (List Word)} {ts : List Token}
    (h : ts.map Token.word = restWords entries) : ts.head?.any endsEntry := by
  have hhead : ∃ w rest, restWords entries = w :: rest ∧ (w.1 = .comma ∨ w.1 = .newline) := by
    cases entries with
    | nil => exact ⟨_, _, rfl, .inr rfl⟩
    | cons e entries => exact ⟨_, _, rfl, .inl rfl⟩
  obtain ⟨w, rest, hrest, hkind⟩ := hhead
  rw [hrest] at h
  obtain ⟨t, ts, rfl, hword, -⟩ := List.map_eq_cons_iff.1 h
  have hsame : t.kind = w.1 := congrArg Prod.fst hword
  rw [List.head?_cons, Option.any_some, endsEntry, Parse.isEntrySeparator, hsame]
  rcases hkind with e | e <;> rw [e] <;> rfl

/-- An entry behind separators, in front of the words of further entries. -/
theorem entries_cons {lead words : List Word} {change : Listing} {changes : List Listing}
    {entries : List (List Word)} {ts : List Token} (hlead : ∀ w ∈ lead, w.1 = .newline ∨ w.1 = .comma) (hentry : Lists words change)
    (hmore : ∀ (ts : List Token) (listed : Listed), ts.map Token.word = restWords entries →
      ∃ result, Entries ts listed result ∧ result.content = listAll changes listed.content)
    (h : ts.map Token.word = lead ++ (words ++ restWords entries)) (listed : Listed) :
    ∃ result, Entries ts listed result ∧ result.content = listAll (change :: changes) listed.content := by
  obtain ⟨separators, ts, rfl, hseparators, h⟩ := List.map_eq_append_iff.1 h
  obtain ⟨first, more, rfl, hfirst, hrest⟩ := List.map_eq_append_iff.1 h
  obtain ⟨between, hbetween, hcontent⟩ := hentry first listed hfirst
  obtain ⟨result, hresult, hcontent'⟩ := hmore more between hrest
  refine ⟨result, .cons (fun t ht => ?_) hbetween (endsEntry_of_restWords hrest) hresult, ?_⟩
  rotate_left
  · rw [hcontent', hcontent]
    rfl
  have hkind : t.kind = .newline ∨ t.kind = .comma := hlead t.word (hseparators ▸ List.mem_map_of_mem ht)
  rcases hkind with e | e <;> rw [Parse.isEntrySeparator, e] <;> rfl

theorem entries_of_restWords {entries : List (List Word)} {changes : List Listing}
    (h : List.Forall₂ Lists entries changes) : ∀ (ts : List Token) (listed : Listed),
    ts.map Token.word = restWords entries →
    ∃ result, Entries ts listed result ∧ result.content = listAll changes listed.content := by
  induction h with
  | nil =>
    intro ts listed h
    obtain ⟨separator, ts, rfl, hseparator, h⟩ := List.map_eq_cons_iff.1 h
    obtain ⟨brace, rfl, hbrace⟩ := List.map_eq_singleton_iff.1 h
    have hseparates : ∀ t ∈ [separator], Parse.isEntrySeparator t := by
      rw [List.forall_mem_singleton, Parse.isEntrySeparator, (of_word hseparator).1]
      rfl
    exact ⟨listed, .close hseparates (of_word hbrace).1, rfl⟩
  | @cons words change entries changes hentry _ ih =>
    intro ts listed h
    rw [restWords, List.flatMap_cons, List.append_assoc, List.append_assoc] at h
    exact entries_cons (by decide) hentry ih h listed

theorem listAll_members : ∀ (members : List TypeName) (s : List TypeName × List (String × Union)),
    listAll (members.map listMember) s = (keepNew s.1 members, s.2)
  | [], s => rfl
  | m :: members, s => by
    have hstep : keepNew s.1 (m :: members) = keepNew (keepNew s.1 [m]) members := by
      rw [keepNew, keepNew]
      split <;> rfl
    rw [hstep]
    exact listAll_members members (listMember m s)

theorem listAll_attributes : ∀ (attributes : List TypedName) (s : List TypeName × List (String × Union)),
    listAll (attributes.map listAttribute) s = (s.1, s.2 ++ attributes.map fun a => (a.name, a.types))
  | [], s => Prod.ext rfl (List.append_nil s.2).symm
  | a :: attributes, s => by
    have hsplit : s.2 ++ (a :: attributes).map (fun a => (a.name, a.types)) =
        s.2 ++ [(a.name, a.types)] ++ attributes.map fun a => (a.name, a.types) := List.append_cons ..
    rw [hsplit]
    exact listAll_attributes attributes (listAttribute a s)

variable {t : TypeEntry}

/-- **The words of a body list what the body lists**: its members but for the type itself, and its attributes. -/
theorem entries_of_bodyWords (h : t.IsNamed) {brace : Token} {ts : List Token}
    (hwords : (brace :: ts).map Token.word = t.bodyWords) : ∃ types attributes,
      Entries ts (.empty, []) (types, attributes) ∧ types.alternatives = t.others ∧
      attributes.map (fun a => (a.name, a.types)) = t.attributes.map fun a => (a.name, a.types) := by
  let changes := t.others.map listMember ++ t.attributes.map listAttribute
  have hlists : List.Forall₂ Lists t.entriesWords changes :=
    List.rel_append (forall₂_map fun m _ => lists_member m)
      (forall₂_map fun a ha => lists_attribute (h.attributes a ha).2.nonempty)
  have hothers : keepNew [] t.others = t.others := keepNew_of_nodup (t.types.distinct.filter _)
  have hsaid : listAll changes ([], []) = (t.others, t.attributes.map fun a => (a.name, a.types)) := by
    have hall : listAll changes ([], []) =
        listAll (t.attributes.map listAttribute) (listAll (t.others.map listMember) ([], [])) := List.foldl_append
    rw [hall, listAll_members, listAll_attributes, hothers, List.nil_append]
  have hresult : ∃ result, Entries ts (.empty, []) result ∧ result.content = listAll changes ([], []) := by
    unfold TypeEntry.bodyWords at hwords
    split at hwords
    · rename_i hempty
      obtain ⟨close, rfl, hclose⟩ := List.map_eq_singleton_iff.1 (List.cons.inj hwords).2
      have hchanges : changes = [] := List.forall₂_nil_left_iff.1 (hempty ▸ hlists)
      have hnone : ∀ t ∈ ([] : List Token), Parse.isEntrySeparator t := nofun
      rw [hchanges]
      exact ⟨_, .close hnone (of_word hclose).1, rfl⟩
    · rename_i hsome
      obtain ⟨first, entries, hentries⟩ := List.exists_cons_of_ne_nil hsome
      rw [hentries] at hlists hwords
      generalize changes = changes at hlists
      cases hlists with
      | @cons _ change _ changes hfirst hrest =>
        have hlead : ∀ w ∈ [((.newline, "\n") : Word)], w.1 = .newline ∨ w.1 = .comma := by decide
        rw [intercalate_cons] at hwords
        have hafter := (List.cons.inj hwords).2
        rw [List.append_assoc] at hafter
        exact entries_cons hlead hfirst (entries_of_restWords hrest) hafter (.empty, [])
  obtain ⟨⟨types, attributes⟩, hentries, hcontent⟩ := hresult
  rw [hsaid] at hcontent
  obtain ⟨htypes, hattributes⟩ := Prod.mk.inj hcontent
  exact ⟨types, attributes, hentries, htypes, hattributes⟩

/-! ## Declarations -/

theorem isItself_iff {m : TypeName} : t.isItself m = true ↔ m = { name := t.name } := by
  obtain ⟨name, package, list⟩ := m
  rw [TypeEntry.isItself, Bool.and_eq_true, Bool.and_eq_true, beq_iff_eq, Option.isNone_iff_eq_none, Bool.not_eq_true',
    TypeName.mk.injEq, and_assoc]

/-- Two types are alike if they say the same but for their own place among the members. -/
theorem alike_of_others {t' : TypeEntry} (hname : t.name = t'.name) (hkind : t.kind = t'.kind)
    (hbuiltin : t.builtin = t'.builtin)
    (hattributes : t.attributes.map (fun a => (a.name, a.types)) = t'.attributes.map fun a => (a.name, a.types))
    (hothers : t.others = t'.others) (hany : t.name ≠ "any") : t.Alike t' := by
  have hwithin {t t' : TypeEntry} (hothers : t.others = t'.others) (hany : t.name ≠ "any") : t.MembersWithin t' := by
    intro m hm
    cases hself : t.isItself m with
    | true =>
      rw [isItself_iff] at hself
      refine .inr ⟨rfl, ?_⟩
      rw [hself, TypeName.isAny, beq_eq_false_iff_ne.2 hany, Bool.false_and]
    | false =>
      have hmem : m ∈ t.others := List.mem_filter.2 ⟨hm, by rw [hself]; rfl⟩
      rw [hothers] at hmem
      exact .inl (List.mem_filter.1 hmem).1
  exact ⟨hname, hkind, hbuiltin, hattributes, hwithin hothers hany, hwithin hothers.symm (hname ▸ hany)⟩

theorem restoredTypes_plain (h : t.kind = .plain) : t.restoredTypes = t.types := if_pos h

/-- What lists the members of a body, or else stands for itself, are the types that are restored. -/
theorem restoredTypes_of_listed {name : String} {types : Union} (hkind : t.kind ≠ .plain) (hname : name = t.name)
    (hlisted : types.alternatives = t.others) :
    (if types.isEmpty then .named name else types) = t.restoredTypes := by
  have hempty : types.isEmpty = true ↔ t.others = [] := by rw [Union.isEmpty, List.isEmpty_iff, hlisted]
  rw [TypeEntry.restoredTypes, if_neg hkind, hname]
  by_cases hothers : t.others = []
  · rw [if_pos (hempty.2 hothers), if_pos hothers]
  · rw [if_neg (mt hempty.1 hothers), if_neg hothers]
    exact union_eq hlisted

theorem others_restored (t : TypeEntry) : t.restored.others = t.others := by
  by_cases hkind : t.kind = .plain
  · show List.filter _ t.restoredTypes.alternatives = _
    rw [restoredTypes_plain hkind]
    rfl
  by_cases hothers : t.others = []
  · have htypes : t.restored.types = .named t.name := by
      show t.restoredTypes = _
      rw [TypeEntry.restoredTypes, if_neg hkind, if_pos hothers]
    have hitself : t.restored.isItself { name := t.name } = true := isItself_iff.2 rfl
    rw [TypeEntry.others, htypes, hothers]
    refine List.filter_eq_nil_iff.2 fun m hm => ?_
    rw [List.mem_singleton.1 hm, hitself]
    exact Bool.false_ne_true
  · have htypes : t.restored.types.alternatives = t.others := by
      show t.restoredTypes.alternatives = _
      rw [TypeEntry.restoredTypes, if_neg hkind, if_neg hothers]
    rw [TypeEntry.others, htypes, TypeEntry.others, List.filter_filter]
    exact List.filter_congr fun m _ => Bool.and_self _

/-- What is restored of a type is alike. -/
theorem alike_of_restored {t' : TypeEntry} (h : t'.unplaced = t.restored.unplaced) (hany : t.name ≠ "any") :
    t.Alike t' := by
  have hname : t'.unplaced.name = t.name := by rw [h]; rfl
  have hkind : t'.unplaced.kind = t.kind := by rw [h]; rfl
  have hbuiltin : t'.unplaced.builtin = t.builtin := by rw [h]; rfl
  have hothers : t'.unplaced.others = t.others := by
    rw [h]
    exact others_restored t
  have hattributes : t'.contents = t.contents := by
    rw [← t'.contents_unplaced, h]
    exact t.restored.contents_unplaced
  exact alike_of_others hname.symm hkind.symm hbuiltin.symm hattributes.symm hothers.symm hany

/-- **What is printed of a declared type declares what is restored of it.** -/
theorem restored_of_declarationWords {d : TypeDeclaration} (h : (Check.entryOf d).IsNamed) {ts : List Token}
    (hwords : ts.map Token.word = (Check.entryOf d).declarationWords) :
    ∃ d', Declaration ts d' ∧ (Check.entryOf d').unplaced = (Check.entryOf d).restored.unplaced := by
  obtain ⟨word, ts, rfl, hword, hwords⟩ := List.map_eq_cons_iff.1 hwords
  obtain ⟨name, ts, rfl, hname, hwords⟩ := List.map_eq_cons_iff.1 hwords
  obtain ⟨colon, ts, rfl, hcolon, hwords⟩ := List.map_eq_cons_iff.1 hwords
  obtain ⟨hname, htext⟩ := of_word hname
  have hlist := h.list
  have hdecorators : d.decorators = [] := h.decorators
  split at hwords
  · rename_i hplain
    refine ⟨_, .plain (of_word hword).1 hname (of_word hcolon).1 (annotation_of_words h.types.nonempty hwords), ?_⟩
    have hattributes : d.attributes = [] := h.plain hplain
    have htypes : (Check.entryOf d).restored.types = d.types := restoredTypes_plain hplain
    have hcontents : [] = (Check.entryOf d).contents := congrArg (List.map fun a : TypedName => (a.name, a.types)) hattributes.symm
    refine TypeEntry.unplaced_eq htext htypes.symm ?_ hplain.symm hcontents ?_ hdecorators.symm rfl
    · rw [decide_eq_true hplain, Bool.true_and] at hlist
      exact hlist.symm
    · exact congrArg Check.classNames hdecorators.symm
  · rename_i hkind
    obtain ⟨announced, ts, rfl, hannounced, hwords⟩ := List.map_eq_cons_iff.1 hwords
    obtain ⟨hidentifier, hannounced⟩ := of_word hannounced
    have hbrace : ∃ rest, (Check.entryOf d).bodyWords = (.leftBrace, "\x7b") :: rest := by
      unfold TypeEntry.bodyWords
      split <;> exact ⟨_, rfl⟩
    obtain ⟨rest, hrest⟩ := hbrace
    obtain ⟨brace, ts, rfl, hbrace, -⟩ := List.map_eq_cons_iff.1 (hwords.trans hrest)
    obtain ⟨types, attributes, hentries, htypes, hattributes⟩ := entries_of_bodyWords h hwords
    have hannounces : TypeKind.ofWord? announced.text = some d.kind := by
      rw [hannounced]
      exact (h.kind hkind).2
    refine ⟨_, .composite (of_word hword).1 hname (of_word hcolon).1 hidentifier hannounces (of_word hbrace).1 hentries, ?_⟩
    refine TypeEntry.unplaced_eq htext ?_ ?_ rfl hattributes ?_ hdecorators.symm rfl
    · exact restoredTypes_of_listed hkind htext htypes
    · rw [decide_eq_false hkind, Bool.false_and] at hlist
      exact hlist.symm
    · exact congrArg Check.classNames hdecorators.symm

/-! ## Names -/

/-- Whether every identifier among some tokens can be written down again. -/
def Nameable (ts : List Token) : Prop := ∀ t ∈ ts, t.kind = .identifier → IsName t.text

theorem Nameable.of_append {ts us : List Token} (h : Nameable (ts ++ us)) : Nameable ts ∧ Nameable us :=
  List.forall_mem_append.1 h

theorem Nameable.head {t : Token} {ts : List Token} (h : Nameable (t :: ts)) (hkind : t.kind = .identifier) :
    IsName t.text := h t List.mem_cons_self hkind

theorem Nameable.tail {t : Token} {ts : List Token} (h : Nameable (t :: ts)) : Nameable ts :=
  fun u hu => h u (List.mem_cons_of_mem t hu)

theorem Alternative.isNamed {ts : List Token} {t : TypeName} (h : Alternative ts t) (hnames : Nameable ts) :
    t.IsNamed := by
  induction h with
  | named hname => exact ⟨hnames.head hname, nofun⟩
  | packaged hpackage _ hname =>
    refine ⟨hnames.tail.tail.head hname, ?_⟩
    rintro _ ⟨⟩
    exact hnames.head hpackage
  | list _ _ _ ih => exact ⟨(ih hnames.tail).name, (ih hnames.tail).package⟩

theorem Alternatives.isNamed {ts : List Token} {all : List TypeName} (h : Alternatives ts all)
    (hnames : Nameable ts) : ∀ t ∈ all, t.IsNamed := by
  induction h with
  | nil => nofun
  | cons _ _ h _ ih =>
    obtain ⟨-, hnames⟩ := hnames.tail.of_append
    obtain ⟨hfirst, hmore⟩ := hnames.of_append
    exact List.forall_mem_cons.2 ⟨h.isNamed hfirst, ih hmore⟩

theorem Annotation.isNamed {ts : List Token} {u : Union} (h : Annotation ts u) (hnames : Nameable ts) : u.IsNamed := by
  cases h with
  | @intro first more t all h hmore =>
    obtain ⟨hfirst, hnames⟩ := hnames.of_append
    have hall : ∀ m ∈ t :: all, m.IsNamed := List.forall_mem_cons.2 ⟨h.isNamed hfirst, hmore.isNamed hnames⟩
    have hmem : t ∈ (Union.ofList (t :: all)).alternatives := Union.mem_ofList.2 List.mem_cons_self
    exact ⟨List.ne_nil_of_mem hmem, fun m hm => hall m (Union.mem_ofList.1 hm)⟩

/-- Members and attributes made of identifiers. -/
structure Listed.IsNamed (listed : Listed) : Prop where
  members : ∀ t ∈ listed.1.alternatives, t.IsNamed
  attributes : ∀ a ∈ listed.2, IsName a.name ∧ a.types.IsNamed

theorem Entry.isNamed {ts : List Token} {listed between : Listed} (h : Entry ts listed between)
    (hlisted : listed.IsNamed) (hnames : Nameable ts) : between.IsNamed := by
  cases h with
  | member h =>
    have hu := h.isNamed hnames
    refine ⟨fun t ht => ?_, hlisted.attributes⟩
    exact (mem_keepNew.1 ht).elim (hlisted.members t) (hu.alternatives t)
  | named hname _ h =>
    refine ⟨hlisted.members, List.forall_mem_append.2 ⟨hlisted.attributes, List.forall_mem_singleton.2 ?_⟩⟩
    exact ⟨hnames.head hname, h.isNamed hnames.tail.tail⟩

theorem Entries.isNamed {ts : List Token} {listed result : Listed} (h : Entries ts listed result)
    (hlisted : listed.IsNamed) (hnames : Nameable ts) : result.IsNamed := by
  induction h with
  | close => exact hlisted
  | cons _ h _ _ ih =>
    obtain ⟨-, hnames⟩ := hnames.of_append
    obtain ⟨hentry, hmore⟩ := hnames.of_append
    exact ih (h.isNamed hlisted hentry) hmore

theorem ofWord?_word {text : String} {kind : TypeKind} (h : TypeKind.ofWord? text = some kind) :
    kind.word = text ∧ kind ≠ .plain := by
  unfold TypeKind.ofWord? at h
  split at h <;> cases h <;> exact ⟨rfl, nofun⟩

/-- A type is made of the identifiers of its declaration. -/
theorem Declaration.isNamed {ts : List Token} {d : TypeDeclaration} (h : Declaration ts d) (hnames : Nameable ts) :
    (Check.entryOf d).IsNamed := by
  cases h with
  | plain hword hname hcolon h =>
    have hu := h.isNamed hnames.tail.tail.tail
    exact ⟨hnames.tail.head hname, hu, nofun, fun hkind => absurd rfl hkind, fun _ => rfl, rfl, rfl⟩
  | @composite word name colon announced brace kind ts types attributes _ hname _ hannounced hkind _ h =>
    have hlisted := h.isNamed ⟨nofun, nofun⟩ hnames.tail.tail.tail.tail.tail
    obtain ⟨hword, hplain⟩ := ofWord?_word hkind
    have hself : IsName name.text := hnames.tail.head hname
    have hannouncedName : IsName kind.word := hword ▸ hnames.tail.tail.tail.head hannounced
    refine ⟨hself, ?_, hlisted.attributes, fun _ => ⟨hannouncedName, by rwa [← hword] at hkind⟩,
      fun e => absurd e hplain, ?_, rfl⟩
    rotate_left
    · show false = (decide (kind = .plain) && _)
      rw [decide_eq_false hplain, Bool.false_and]
    show Union.IsNamed (if types.isEmpty then .named name.text else types)
    split
    · exact ⟨List.cons_ne_nil _ _, List.forall_mem_singleton.2 ⟨hself, nofun⟩⟩
    · rename_i hsome
      exact ⟨fun e => hsome (List.isEmpty_iff.2 e), hlisted.members⟩

end Grammar
end UnionScript
