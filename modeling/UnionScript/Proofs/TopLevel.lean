import UnionScript.Proofs.Declaring
/-!
# TopLevel — the types a program declares at top level

Whatever a program holds and whatever is reported of it, the root scope behind it lists the types it listed before and
then, in their order, those of the program's own declarations that are the first of their names
(`Lists.afterStatements`).  A type that is declared in a block uses up a number, so the numbers of the types that are
left need not follow on each other; they increase, and that is all the order of a type file depends on
(`Lists.declaredTypes`).
-/
namespace UnionScript

/-! ## The first items of each key -/

section FirstOfEach

variable {α κ : Type} [DecidableEq κ] {key : α → κ}

theorem firstOfEach_cons_of_mem {seen : List κ} {a : α} (h : key a ∈ seen) (items : List α) :
    firstOfEach key seen (a :: items) = firstOfEach key seen items := by
  rw [firstOfEach, if_pos h]

theorem firstOfEach_cons_of_not_mem {seen : List κ} {a : α} (h : key a ∉ seen) (items : List α) :
    firstOfEach key seen (a :: items) = a :: firstOfEach key (key a :: seen) items := by
  rw [firstOfEach, if_neg h]

theorem firstOfEach_sublist : ∀ (seen : List κ) (items : List α), (firstOfEach key seen items).Sublist items
  | _, [] => .slnil
  | seen, a :: items => by
    rw [firstOfEach]
    split
    · exact (firstOfEach_sublist seen items).cons a
    · exact (firstOfEach_sublist _ items).cons_cons a

/-- It does not matter in what order keys were seen. -/
theorem firstOfEach_congr : ∀ {seen seen' : List κ} (items : List α), (∀ k, k ∈ seen ↔ k ∈ seen') →
    firstOfEach key seen items = firstOfEach key seen' items
  | _, _, [], _ => rfl
  | seen, seen', a :: items, h => by
    by_cases ha : key a ∈ seen
    · rw [firstOfEach_cons_of_mem ha, firstOfEach_cons_of_mem ((h _).1 ha)]
      exact firstOfEach_congr items h
    · rw [firstOfEach_cons_of_not_mem ha, firstOfEach_cons_of_not_mem (mt (h _).2 ha)]
      refine congrArg (a :: ·) (firstOfEach_congr items fun k => ?_)
      rw [List.mem_cons, List.mem_cons, h k]

/-- An item under a new key, and then the first ones of the keys that are new behind it. -/
theorem firstOfEach_cons_append {seen : List κ} {a : α} (h : key a ∉ seen) (items : List α) :
    firstOfEach key seen (a :: items) = a :: firstOfEach key (seen ++ [key a]) items := by
  rw [firstOfEach_cons_of_not_mem h]
  exact congrArg (a :: ·) (firstOfEach_congr items fun k => by
    rw [List.mem_cons, List.mem_append, List.mem_singleton, or_comm])

/-- The first items of each key among some and then among others are those among all of them. -/
theorem firstOfEach_append : ∀ (seen : List κ) (items more : List α),
    firstOfEach key seen (items ++ more) =
      firstOfEach key seen items ++ firstOfEach key (seen ++ (firstOfEach key seen items).map key) more
  | seen, [], more => by rw [List.nil_append, firstOfEach, List.map_nil, List.append_nil, List.nil_append]
  | seen, a :: items, more => by
    rw [List.cons_append]
    by_cases ha : key a ∈ seen
    · rw [firstOfEach_cons_of_mem ha, firstOfEach_cons_of_mem ha, firstOfEach_append]
    · rw [firstOfEach_cons_append ha, firstOfEach_cons_append ha, firstOfEach_append, List.cons_append, List.map_cons,
        ← List.append_cons]

/-- Under the keys that were seen or are kept stands every item. -/
theorem key_mem_of_firstOfEach : ∀ {seen : List κ} {items : List α} {a : α},
    a ∈ items → key a ∈ seen ++ (firstOfEach key seen items).map key
  | seen, b :: items, a, h => by
    by_cases hb : key b ∈ seen
    · rw [firstOfEach_cons_of_mem hb]
      rcases List.mem_cons.1 h with rfl | h
      · exact List.mem_append_left _ hb
      · exact key_mem_of_firstOfEach h
    · rw [firstOfEach_cons_append hb, List.map_cons, List.append_cons]
      rcases List.mem_cons.1 h with rfl | h
      · exact List.mem_append_left _ (List.mem_append_right _ (List.mem_singleton_self _))
      · exact key_mem_of_firstOfEach h

/-- Items under keys that are new and of their own are all of them the first ones. -/
theorem firstOfEach_of_nodup : ∀ {seen : List κ} {items : List α}, (seen ++ items.map key).Nodup →
    firstOfEach key seen items = items
  | _, [], _ => rfl
  | seen, a :: items, h => by
    have ha : key a ∉ seen := fun hmem => (List.nodup_append.1 h).2.2 _ hmem _ List.mem_cons_self rfl
    rw [firstOfEach_cons_append ha, firstOfEach_of_nodup (by rwa [List.append_assoc])]

/-- Items whose keys were seen are none of them the first ones. -/
theorem firstOfEach_of_seen : ∀ {seen : List κ} {items : List α}, (∀ a ∈ items, key a ∈ seen) →
    firstOfEach key seen items = []
  | _, [], _ => rfl
  | seen, a :: items, h => by
    rw [firstOfEach_cons_of_mem (h a List.mem_cons_self)]
    exact firstOfEach_of_seen fun b hb => h b (List.mem_cons_of_mem a hb)

end FirstOfEach

theorem Environment.nextOrder_modifyCurrent (env : Environment) (f : Frame → Frame) :
    (env.modifyCurrent f).nextOrder = env.nextOrder := by
  unfold modifyCurrent
  split <;> rfl

namespace Check

variable {limit : Nat} {s : CheckState}

/-! ## What a walk does to the types of a scope -/

/-- Whatever a walk does, the numbers of types that were used up stay so. -/
theorem nextOrder_le_of_effect {x : Extent} {s t : CheckState} (h : Effect limit x s t) :
    s.environment.nextOrder ≤ t.environment.nextOrder := by
  induction h with
  | nothing s => exact Nat.le_refl _
  | andThen _ _ ih ih' => exact Nat.le_trans ih ih'
  | report s r => exact Nat.le_refl _
  | ask s name => exact Nat.le_refl _
  | function s g => exact Nat.le_of_eq (s.environment.nextOrder_modifyCurrent _).symm
  | «variable» s v => exact Nat.le_of_eq (s.environment.nextOrder_modifyCurrent _).symm
  | type s t => exact Nat.le_succ _
  | «local» s v => exact Nat.le_of_eq (s.environment.nextOrder_modifyCurrent _).symm
  | deeper _ _ _ _ _ ih => exact ih
  | within _ _ ih => exact ih
  | returning _ _ ih => exact ih

/-- A step that leaves the types of the innermost frame as they are. -/
def LeavesTypes {α : Type} (step : Check α) : Prop :=
  ∀ s, (step s).2.environment.current.types = s.environment.current.types

/-- What has effects of an expression only declares no type. -/
theorem leavesTypes_of_does (limit : Nat) {α : Type} {step : Check α} (h : Does limit .expression step) :
    LeavesTypes step :=
  fun s => (CheckState.Continues.ofEffect (h s)).current.2.2.1

theorem leavesTypes_bind {α β : Type} {step : Check α} {next : α → Check β} (h : LeavesTypes step)
    (hnext : ∀ a, LeavesTypes (next a)) : LeavesTypes (step >>= next) :=
  fun s => (hnext (step s).1 (step s).2).trans (h s)

theorem leavesTypes_variable (v : Variable) : LeavesTypes (change (.variable v)) := by
  intro s
  show (s.environment.modifyCurrent _).current.types = _
  rw [Environment.current_eq_of_frames (s.environment.frames_modifyCurrent _)]
  rfl

theorem leavesTypes_declareBinding (constant : Bool) (target : TypedName) (actual : Option Union) :
    LeavesTypes (declareBinding constant target actual) := by
  have hdeclare : LeavesTypes (change
      (.variable { name := target.name, types := target.types, constant, span := target.span })) :=
    leavesTypes_variable _
  refine leavesTypes_bind (leavesTypes_of_does 0 does_environment) fun env => ?_
  split
  · exact leavesTypes_of_does 0 (does_report _ _)
  · refine leavesTypes_bind (leavesTypes_of_does 0 (does_requireDefined _ _)) fun defined => ?_
    split
    · exact leavesTypes_bind (leavesTypes_of_does 0 (does_requireMatch _ _ _ _)) fun _ => hdeclare
    · exact hdeclare

/-- A statement that binds no variable and declares no type has the effects of an expression. -/
theorem does_walkStatement (limit : Nat) : ∀ {st : Statement}, (∀ constant target value, st ≠ .binding constant target value) →
    (∀ d, st ≠ .typeDeclaration d) → Does limit .expression (walkStatement limit st)
  | .binding constant target value, h, _ => absurd rfl (h constant target value)
  | .typeDeclaration d, _, h => absurd rfl (h d)
  | .return (some value) span, _, _ => by
    rw [walkStatement]
    exact does_bind ((does_closed limit).infer 1 value _) fun _ => does_checkReturn _ _
  | .return none span, _, _ => by
    rw [walkStatement]
    exact does_checkReturn _ _
  | .defer e span, _, _ => by
    rw [walkStatement]
    have hrest : Does limit .expression (infer limit 1 e >>= fun _ => Pure.pure ()) :=
      does_bind ((does_closed limit).infer 1 e _) fun _ => does_pure ()
    show Does _ _ (Check.inFunction >>= fun inside => if inside then _ else _ >>= fun _ => _)
    refine does_bind (fun s => .nothing s) fun inside => ?_
    exact does_ite hrest (does_bind (does_report _ _) fun _ => hrest)
  | .jump kind span, _, _ => by
    rw [walkStatement]
    refine does_bind does_environment fun env => ?_
    exact does_ite (does_pure _) (does_report _ _)
  | .block block, _, _ => by
    rw [walkStatement]
    exact (does_closed limit).walkBlock .block block _
  | .comment _ _ _, _, _ => by
    rw [walkStatement]
    exact does_pure _
  | .expression e, _, _ => by
    rw [walkStatement]
    exact does_bind ((does_closed limit).infer 1 e _) fun _ => does_pure _

/-- A statement that declares no type leaves the types of its scope as they are. -/
theorem leavesTypes_walkStatement (limit : Nat) : ∀ {st : Statement}, (∀ d, st ≠ .typeDeclaration d) →
    LeavesTypes (walkStatement limit st) := by
  intro st htype
  by_cases hbinding : ∃ constant target value, st = .binding constant target value
  · obtain ⟨constant, target, value, rfl⟩ := hbinding
    cases value with
    | none =>
      rw [walkStatement]
      exact leavesTypes_declareBinding _ _ _
    | some value =>
      rw [walkStatement]
      exact leavesTypes_bind (leavesTypes_of_does limit ((does_closed limit).infer 1 value _)) fun _ =>
        leavesTypes_declareBinding _ _ _
  · exact leavesTypes_of_does limit
      (does_walkStatement limit (fun constant target value h => hbinding ⟨constant, target, value, h⟩) htype)

/-! ## What a root scope lists -/

/-- A declaration and the number its type has in the order of types. -/
abbrev Numbered := Nat × TypeDeclaration

/-- The entry of a declaration under its number. -/
def numberedEntry (e : Numbered) : TypeEntry := { entryOf e.2 with order := e.1 }

/-- A root scope lists the built-in types, and behind them those of some declarations, by increasing numbers and under
names of their own. -/
structure Lists (env : Environment) (es : List Numbered) : Prop where
  inner : env.inner = []
  types : env.root.types = Frame.builtin.types ++ es.map numberedEntry
  ordered : es.Pairwise fun e e' => e.1 < e'.1
  bounded : ∀ e ∈ es, e.1 < env.nextOrder
  distinct : ((Frame.builtin.types ++ es.map numberedEntry).map TypeEntry.name).Nodup

variable {es : List Numbered}

theorem lists_builtin : Lists (.ofRoot .builtin) [] where
  inner := rfl
  types := (List.append_nil _).symm
  ordered := .nil
  bounded := nofun
  distinct := by decide

theorem current_of_inner {env : Environment} (h : env.inner = []) : env.current = env.root := by
  rw [Environment.current, h]
  rfl

/-- Where only the root scope is open, a walk leaves no other one open. -/
theorem inner_of_effect {x : Extent} {t : CheckState} (heffect : Effect limit x s t) (h : s.environment.inner = []) :
    t.environment.inner = [] := by
  have hlength := congrArg List.length (CheckState.Continues.ofEffect heffect).below
  simpa [Environment.frames, h] using hlength

/-- A walk that leaves the types of a root scope as they are leaves what it lists. -/
theorem Lists.ofEffect {x : Extent} {t : CheckState} (h : Lists s.environment es) (heffect : Effect limit x s t)
    (htypes : t.environment.current.types = s.environment.current.types) : Lists t.environment es := by
  have hinner := inner_of_effect heffect h.inner
  rw [current_of_inner hinner, current_of_inner h.inner] at htypes
  exact ⟨hinner, htypes.trans h.types, h.ordered,
    fun e he => Nat.lt_of_lt_of_le (h.bounded e he) (nextOrder_le_of_effect heffect), h.distinct⟩

/-- A name that is free is none of those that are listed. -/
theorem Lists.findType?_eq_none_iff {env : Environment} (h : Lists env es) {name : String} :
    env.findType? name = none ↔ name ∉ (Frame.builtin.types ++ es.map numberedEntry).map TypeEntry.name := by
  rw [← h.types]
  unfold Environment.findType? Environment.frames Frame.findType?
  rw [h.inner]
  simp

/-- A type under a free name is listed behind the others. -/
theorem Lists.declareType {env : Environment} (h : Lists env es) {d : TypeDeclaration}
    (hfree : env.findType? d.name = none) : Lists (env.declareType (entryOf d)) (es ++ [(env.nextOrder, d)]) := by
  have hname := h.findType?_eq_none_iff.1 hfree
  have hall : Frame.builtin.types ++ (es ++ [(env.nextOrder, d)]).map numberedEntry =
      (Frame.builtin.types ++ es.map numberedEntry) ++ [numberedEntry (env.nextOrder, d)] := by
    rw [List.map_append, ← List.append_assoc]
    rfl
  obtain ⟨inner, root, next⟩ := env
  obtain rfl : inner = [] := h.inner
  refine ⟨rfl, ?_, ?_, ?_, ?_⟩
  · have hkept : root.types.filter (fun t => t.name != d.name) = root.types := by
      refine List.filter_eq_self.2 fun t ht => bne_iff_ne.2 fun e => hname ?_
      rw [← e, ← h.types]
      exact List.mem_map_of_mem ht
    show root.types.filter (fun t => t.name != d.name) ++ [numberedEntry (next, d)] = _
    rw [hkept, hall, ← h.types]
  · refine List.pairwise_append.2 ⟨h.ordered, List.pairwise_singleton _ _, fun e he e' he' => ?_⟩
    rw [List.mem_singleton.1 he']
    exact h.bounded e he
  · refine List.forall_mem_append.2 ⟨fun e he => ?_, List.forall_mem_singleton.2 (Nat.lt_succ_self _)⟩
    exact Nat.lt_succ_of_lt (h.bounded e he)
  · rw [hall, List.map_append]
    refine List.nodup_append.2 ⟨h.distinct, List.pairwise_singleton _ _, fun name hmem name' hmem' => ?_⟩
    rintro rfl
    obtain rfl : name = d.name := List.mem_singleton.1 hmem'
    exact hname hmem

/-- Behind a declaration under a free name its type is listed. -/
theorem Lists.afterFree (h : Lists s.environment es) {d : TypeDeclaration}
    (hfree : s.environment.findType? d.name = none) :
    Lists (Check.declareType d s).2.environment (es ++ [(s.environment.nextOrder, d)]) := by
  have hrest : Does 0 .expression (do
      let _ ← requireDefined d.types d.span
      requireAttributes d.attributes) :=
    does_bind (does_requireDefined _ _) fun _ => does_requireAttributes _
  have hdeclared : Lists (change (.type (entryOf d)) s).2.environment (es ++ [(s.environment.nextOrder, d)]) :=
    h.declareType hfree
  rw [declareType_of_free hfree]
  exact hdeclared.ofEffect (hrest _) (leavesTypes_of_does 0 hrest _)

/-- A declaration under a name that is taken is only reported. -/
theorem Lists.afterTaken (h : Lists s.environment es) {d : TypeDeclaration} {existing : TypeEntry}
    (htaken : s.environment.findType? d.name = some existing) : Lists (Check.declareType d s).2.environment es := by
  rw [declareType_eq, htaken]
  exact h

/-! ## What programs list -/

/-- The names of the types a root scope lists. -/
theorem Lists.names {env : Environment} (h : Lists env es) :
    (Frame.builtin.types ++ es.map numberedEntry).map TypeEntry.name = env.root.types.map TypeEntry.name := by
  rw [h.types]

theorem Lists.free_iff {env : Environment} (h : Lists env es) {name : String} :
    env.findType? name = none ↔ name ∉ env.root.types.map TypeEntry.name := by
  rw [h.findType?_eq_none_iff, h.names]

/-- The names of types that are listed behind others. -/
theorem Lists.names_append {env env' : Environment} {new : List Numbered} (h : Lists env es)
    (h' : Lists env' (es ++ new)) : env'.root.types.map TypeEntry.name =
      env.root.types.map TypeEntry.name ++ (new.map Prod.snd).map TypeDeclaration.name := by
  rw [h'.types, h.types]
  simp only [List.map_append, List.map_map, List.append_assoc]
  rfl

/-- A statement lists the type that it declares, if the name is new. -/
theorem Lists.afterStatement (limit : Nat) (h : Lists s.environment es) (st : Statement) :
    ∃ new, Lists (walkStatement limit st s).2.environment (es ++ new) ∧
      new.map Prod.snd = firstOfEach TypeDeclaration.name (s.environment.root.types.map TypeEntry.name)
        (Program.typeDeclarations ⟨[st]⟩) := by
  by_cases hdeclaration : ∃ d, st = .typeDeclaration d
  · obtain ⟨d, rfl⟩ := hdeclaration
    have hds : Program.typeDeclarations ⟨[.typeDeclaration d]⟩ = [d] := rfl
    rw [walkStatement, hds]
    cases hfound : s.environment.findType? d.name with
    | none =>
      refine ⟨_, h.afterFree hfound, ?_⟩
      rw [firstOfEach_cons_of_not_mem (h.free_iff.1 hfound)]
      rfl
    | some existing =>
      have htaken : d.name ∈ s.environment.root.types.map TypeEntry.name :=
        Decidable.of_not_not (mt h.free_iff.2 (by rw [hfound]; nofun))
      refine ⟨[], by rw [List.append_nil]; exact h.afterTaken hfound, ?_⟩
      rw [firstOfEach_cons_of_mem htaken]
      rfl
  · have hds : Program.typeDeclarations ⟨[st]⟩ = [] := by
      cases st with
      | typeDeclaration d => exact absurd ⟨d, rfl⟩ hdeclaration
      | _ => rfl
    have htypes := leavesTypes_walkStatement limit (fun d hd => hdeclaration ⟨d, hd⟩) s
    refine ⟨[], ?_, by rw [hds]; rfl⟩
    rw [List.append_nil]
    exact h.ofEffect ((does_closed limit).walkStatement st s) htypes

/-- **A program lists its own declarations that are the first of their names, in their order**, whatever else it holds
and whatever is reported of it. -/
theorem Lists.afterStatements (limit : Nat) : ∀ (statements : List Statement) {s : CheckState} {es : List Numbered},
    Lists s.environment es → ∃ new, Lists (walkStatements limit statements s).2.environment (es ++ new) ∧
      new.map Prod.snd = firstOfEach TypeDeclaration.name (s.environment.root.types.map TypeEntry.name)
        (Program.typeDeclarations ⟨statements⟩)
  | [], s, es, h => ⟨[], by rwa [List.append_nil], rfl⟩
  | st :: rest, s, es, h => by
    obtain ⟨new, hnew, hfirst⟩ := h.afterStatement limit st
    obtain ⟨more, hmore, hfirsts⟩ := Lists.afterStatements limit rest hnew
    have hds : Program.typeDeclarations ⟨st :: rest⟩ =
        Program.typeDeclarations ⟨[st]⟩ ++ Program.typeDeclarations ⟨rest⟩ :=
      List.filterMap_append (l := [st])
    refine ⟨new ++ more, List.append_assoc .. ▸ hmore, ?_⟩
    rw [List.map_append, hfirsts, h.names_append hnew, hds, firstOfEach_append, hfirst]

/-- Declaring types is walking their declarations. -/
theorem declareAll_eq (limit : Nat) : ∀ ds : List TypeDeclaration,
    declareAll ds = walkStatements limit (ds.map .typeDeclaration)
  | [] => rfl
  | d :: ds => by
    rw [List.map_cons, walkStatements, ← declareAll_eq limit ds]
    rfl

/-- Declaring some types lists the first ones of their names, in their order. -/
theorem Lists.afterDeclarations (h : Lists s.environment es) (ds : List TypeDeclaration) :
    ∃ new, Lists (declareAll ds s).2.environment (es ++ new) ∧
      new.map Prod.snd = firstOfEach TypeDeclaration.name (s.environment.root.types.map TypeEntry.name) ds := by
  have hds : Program.typeDeclarations ⟨ds.map .typeDeclaration⟩ = ds := by
    unfold Program.typeDeclarations
    rw [List.filterMap_map]
    exact List.filterMap_some
  obtain ⟨new, hnew, hfirsts⟩ := Lists.afterStatements 0 (ds.map .typeDeclaration) h
  rw [hds] at hfirsts
  rw [declareAll_eq 0]
  exact ⟨new, hnew, hfirsts⟩

/-- Types under names that are free and of their own are listed all of them. -/
theorem Lists.afterNew {ds : List TypeDeclaration} (h : Lists s.environment es)
    (hnodup : ((Frame.builtin.types ++ es.map numberedEntry).map TypeEntry.name ++ ds.map TypeDeclaration.name).Nodup) :
    ∃ new, Lists (declareAll ds s).2.environment (es ++ new) ∧ new.map Prod.snd = ds := by
  obtain ⟨new, hnew, hfirsts⟩ := h.afterDeclarations ds
  rw [h.names] at hnodup
  exact ⟨new, hnew, hfirsts.trans (firstOfEach_of_nodup hnodup)⟩

/-- Types that are admitted are listed all of them. -/
theorem Lists.ofAdmits : ∀ {ds : List TypeDeclaration} {env : Environment} {es : List Numbered}, Lists env es →
    Admits env ds → ∃ new, Lists (declared env ds) (es ++ new) ∧ new.map Prod.snd = ds
  | [], env, es, h, _ => ⟨[], by rw [List.append_nil]; exact h, rfl⟩
  | d :: ds, env, es, h, ⟨hfree, _, hrest⟩ => by
    obtain ⟨new, hnew, rfl⟩ := Lists.ofAdmits (h.declareType hfree) hrest
    refine ⟨(env.nextOrder, d) :: new, ?_, rfl⟩
    rw [List.append_cons]
    exact hnew

/-! ## What type files list -/

/-- What a root scope lists are its declared types, in order. -/
theorem Lists.declaredTypes {env : Environment} (h : Lists env es) :
    env.root.declaredTypes = es.map numberedEntry := by
  have hbuiltin : Frame.builtin.types.filter (fun t => !t.builtin) = [] := rfl
  have hown : (es.map numberedEntry).filter (fun t => !t.builtin) = es.map numberedEntry := by
    refine List.filter_eq_self.2 fun t ht => ?_
    obtain ⟨e, -, rfl⟩ := List.mem_map.1 ht
    rfl
  rw [Frame.declaredTypes, h.types, List.filter_append, hbuiltin, hown, List.nil_append]
  refine List.mergeSort_of_pairwise (List.pairwise_map.2 (h.ordered.imp fun hlt => ?_))
  exact decide_eq_true (Nat.le_of_lt hlt)

/-- **The type file of a scope lists the declarations of its types in order.** -/
theorem Lists.typeFile {env : Environment} (h : Lists env es) :
    env.root.typeFile = "\n".intercalate (es.map fun e => (entryOf e.2).declaration) := by
  rw [Frame.typeFile, h.declaredTypes, List.map_map]
  rfl

/-- The type file of a root scope in which types were admitted lists their declarations. -/
theorem typeFile_of_admits {ds : List TypeDeclaration} (h : Admits (.ofRoot .builtin) ds) :
    (declared (.ofRoot .builtin) ds).root.typeFile = "\n".intercalate (ds.map fun d => (entryOf d).declaration) := by
  obtain ⟨new, hnew, rfl⟩ := lists_builtin.ofAdmits h
  rw [hnew.typeFile, List.map_map]
  rfl

/-- A root scope lists in a new walk what it lists now. -/
theorem Lists.ofRoot {env : Environment} (h : Lists env es) : Lists (.ofRoot env.root) es where
  inner := rfl
  types := h.types
  ordered := h.ordered
  bounded := fun e he => by
    have hmem : numberedEntry e ∈ env.root.types := by
      rw [h.types]
      exact List.mem_append_right _ (List.mem_map_of_mem he)
    exact List.le_max?_getD_of_mem (List.mem_map_of_mem (f := fun t : TypeEntry => t.order + 1) hmem)
  distinct := h.distinct

end Check
end UnionScript
