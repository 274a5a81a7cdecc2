import HandlerWeave.Types.Text

/-!
The mentions of a text. Its references are the names mentioned, each where it is mentioned first,
and no type parameter of a declaration is among them.
-/
namespace HandlerWeave

open Source

namespace Mention

theorem foldl_addName (names : List String) (xs : List String) :
    xs.foldl addName names = names ++ (xs.removeAll names).eraseDups := by
  induction xs generalizing names with
  | nil => simp [List.removeAll]
  | cons x xs ih =>
      rw [List.foldl_cons, addName]
      by_cases hx : x ∈ names
      · rw [if_pos (List.contains_iff_mem.2 hx), ih]
        simp [List.removeAll, hx]
      · rw [if_neg (by simpa using hx), ih]
        simp only [List.removeAll, List.filter_cons, List.elem_eq_contains,
          List.contains_eq_mem, hx, decide_false, Bool.not_false, if_true, List.eraseDups_cons,
          List.filter_filter, List.append_assoc, List.singleton_append, List.mem_append,
          List.mem_singleton]
        congr 3
        apply List.filter_congr
        intro y _
        by_cases hy : y ∈ names <;> by_cases hyx : y = x <;> simp [hy, hyx]

theorem references_eq (mentions : List Mention) :
    references mentions = (mentions.filterMap name?).eraseDups := by
  rw [references, foldl_addName, List.nil_append, List.removeAll, List.filter_eq_self.2 (by simp)]

theorem nodup_foldl_addName {names : List String} (h : names.Nodup) (xs : List String) :
    (xs.foldl addName names).Nodup := by
  induction xs generalizing names with
  | nil => exact h
  | cons x xs ih =>
      refine ih ?_
      unfold addName
      split
      · exact h
      next hx =>
        have hnew : x ∉ names := by simpa using hx
        refine List.nodup_append.2 ⟨h, by simp, ?_⟩
        rintro n hn _ hx rfl
        exact hnew (List.mem_singleton.1 hx ▸ hn)

theorem references_nodup (mentions : List Mention) : (references mentions).Nodup :=
  nodup_foldl_addName List.nodup_nil _

theorem mem_references {n : String} {mentions : List Mention} :
    n ∈ references mentions ↔ ∃ q, .named q ∈ mentions ∧ q.name = n := by
  rw [references_eq, List.mem_eraseDups, List.mem_filterMap]
  constructor
  · rintro ⟨mention, hmention, hname⟩
    cases mention with
    | named q => exact ⟨q, hmention, Option.some.inj hname⟩
    | unsupported text => cases hname
  · rintro ⟨q, hq, rfl⟩
    exact ⟨.named q, hq, rfl⟩

end Mention

namespace Piece

@[simp] theorem mentions_nil : mentions [] = [] := rfl

@[simp] theorem mentions_plain (text : String) (pieces : List Piece) :
    mentions (.plain text :: pieces) = mentions pieces := rfl

@[simp] theorem mentions_mention (x : Mention) (pieces : List Piece) :
    mentions (.mention x :: pieces) = x :: mentions pieces := rfl

theorem mentions_append (xs ys : List Piece) :
    mentions (xs ++ ys) = mentions xs ++ mentions ys := List.filterMap_append

theorem print_append (xs ys : List Piece) : print (xs ++ ys) = print xs ++ print ys := by
  induction xs with
  | nil => simp [print]
  | cons x xs ih => simp [print, ih, String.append_assoc]

/-- Every name mentioned has the property. -/
def Naming (P : QualifiedName → Prop) (pieces : List Piece) : Prop :=
  ∀ q, .named q ∈ mentions pieces → P q

/-- No name mentioned is a type parameter. -/
def Free (scope : List String) (pieces : List Piece) : Prop :=
  ∀ q, .named q ∈ mentions pieces → isParameter scope q = false

section

variable {P : QualifiedName → Prop} {scope : List String} {pieces : List Piece}

@[simp] theorem naming_nil : Naming P [] := fun _ h => nomatch h

@[simp] theorem naming_plain {text : String} :
    Naming P (.plain text :: pieces) ↔ Naming P pieces := Iff.rfl

@[simp] theorem naming_named {q : QualifiedName} :
    Naming P (.mention (.named q) :: pieces) ↔ P q ∧ Naming P pieces := by
  simp [Naming]

@[simp] theorem naming_unsupported {text : String} :
    Naming P (.mention (.unsupported text) :: pieces) ↔ Naming P pieces := by
  simp [Naming]

@[simp] theorem naming_append {xs ys : List Piece} :
    Naming P (xs ++ ys) ↔ Naming P xs ∧ Naming P ys := by
  simp only [Naming, mentions_append, List.mem_append, or_imp, forall_and]

@[simp] theorem naming_enclosed {left right : String} :
    Naming P (enclosed left pieces right) ↔ Naming P pieces := by
  simp [enclosed]

theorem naming_separated {separator : String} {parts : List (List Piece)}
    (h : ∀ part ∈ parts, Naming P part) : Naming P (separated separator parts) := by
  induction parts with
  | nil => exact naming_nil
  | cons part parts ih =>
      obtain ⟨hpart, hparts⟩ := List.forall_mem_cons.1 h
      cases parts with
      | nil => exact hpart
      | cons next parts => simpa [separated] using ⟨hpart, ih hparts⟩

@[simp] theorem free_nil : Free scope [] := naming_nil

@[simp] theorem free_plain {text : String} :
    Free scope (.plain text :: pieces) ↔ Free scope pieces := naming_plain

@[simp] theorem free_named {q : QualifiedName} :
    Free scope (.mention (.named q) :: pieces) ↔
      isParameter scope q = false ∧ Free scope pieces := naming_named

@[simp] theorem free_unsupported {text : String} :
    Free scope (.mention (.unsupported text) :: pieces) ↔ Free scope pieces := naming_unsupported

@[simp] theorem free_append {xs ys : List Piece} :
    Free scope (xs ++ ys) ↔ Free scope xs ∧ Free scope ys := naming_append

@[simp] theorem free_enclosed {left right : String} :
    Free scope (enclosed left pieces right) ↔ Free scope pieces := naming_enclosed

theorem free_separated {separator : String} {parts : List (List Piece)}
    (h : ∀ part ∈ parts, Free scope part) : Free scope (separated separator parts) :=
  naming_separated h

end

end Piece

namespace Source

open Piece

mutual

theorem TypeNode.pieces_free (scope : List String) (t : TypeNode) :
    Free scope (t.pieces scope) := by
  cases t with
  | keyword | literal | verbatim => simp [TypeNode.pieces]
  | reference name args =>
      have hargs : Free scope (separated ", " (typePieces scope args)) :=
        free_separated (typePieces_free scope args)
      cases h : isParameter scope name
      · cases args <;> simp [TypeNode.pieces, h, hargs]
      · simp [TypeNode.pieces, h]
  | array element =>
      have ih := TypeNode.pieces_free scope element
      cases h : needsParentheses element <;> simp [TypeNode.pieces, h, ih]
  | tuple nodes | union nodes | intersection nodes =>
      have ih := typePieces_free scope nodes
      simp [TypeNode.pieces, free_separated ih]
  | parenthesized inner =>
      have ih := TypeNode.pieces_free scope inner
      simp [TypeNode.pieces, ih]
  | shape members =>
      have ih := memberPieces_free scope members
      rw [TypeNode.pieces]
      split
      · simp
      · simp [free_separated ih]

theorem typePieces_free (scope : List String) (nodes : List TypeNode) :
    ∀ part ∈ typePieces scope nodes, Free scope part := by
  cases nodes with
  | nil => simp [typePieces]
  | cons node nodes =>
      have ih := TypeNode.pieces_free scope node
      have ihs := typePieces_free scope nodes
      exact List.forall_mem_cons.2 ⟨ih, ihs⟩

theorem optionalPieces_free (scope : List String) (node : Option TypeNode) :
    Free scope (optionalPieces scope node) := by
  cases node with
  | none => simp [optionalPieces]
  | some node => exact TypeNode.pieces_free scope node

theorem memberPieces_free (scope : List String) (members : List TypeMember) :
    ∀ part ∈ memberPieces scope members, Free scope part := by
  cases members with
  | nil => simp [memberPieces]
  | cons x members =>
      have ihs := memberPieces_free scope members
      cases x with
      | property name isOptional node =>
          have ih := optionalPieces_free scope node
          simpa [memberPieces, property, ih] using ihs
      | index keyName keyNode node =>
          have ihKey := TypeNode.pieces_free scope keyNode
          have ih := TypeNode.pieces_free scope node
          simpa [memberPieces, index, ihKey, ih] using ihs
      | method name => simpa [memberPieces] using ihs

end

end Source

namespace Declaration

open Source Piece

variable {scope : List String}

theorem clausePieces_free (mark : String) (node : Option TypeNode) :
    Free scope (clausePieces scope mark node) := by
  cases node <;> simp [clausePieces, TypeNode.pieces_free]

theorem typeParamsPieces_free (params : List TypeParam) :
    Free scope (typeParamsPieces scope params) := by
  have each : ∀ part ∈ params.map (typeParamPieces scope), Free scope part := by
    simp [typeParamPieces, clausePieces_free]
  rw [typeParamsPieces]
  split
  · simp
  · simp [free_separated each]

theorem headerPieces_free (name : String) (params : List TypeParam) (heritage : List Heritage) :
    Free scope (headerPieces scope name params heritage) := by
  have each : ∀ part ∈ heritage.map fun h => (heritageType h).pieces scope, Free scope part := by
    simp [TypeNode.pieces_free]
  cases heritage with
  | nil => simp [headerPieces, typeParamsPieces_free]
  | cons h heritage =>
      simpa [headerPieces, typeParamsPieces_free] using free_separated each

theorem classMemberPieces_free (x : ClassMember) :
    ∀ part ∈ classMemberPieces scope x, Free scope part := by
  cases x with
  | property p =>
      rw [classMemberPieces]
      split <;> simp [property, optionalPieces_free]
  | method decl => simp [classMemberPieces]
  | constructor params =>
      intro part hpart
      obtain ⟨p, -, rfl⟩ := List.mem_map.1 hpart
      simp [property, optionalPieces_free]
  | index s => simp [classMemberPieces, index, TypeNode.pieces_free]

theorem blockPieces_free {header : List Piece} {lines : List (List Piece)}
    (hheader : Free scope header) (hlines : ∀ line ∈ lines, Free scope line) :
    Free scope (blockPieces header lines) := by
  have hbody : Free scope (lines.flatMap fun line => enclosed "    " line "\n") := by
    induction lines with
    | nil => simp
    | cons line lines ih =>
        obtain ⟨hline, hlines⟩ := List.forall_mem_cons.1 hlines
        simp [hline, ih hlines]
  simp [blockPieces, hheader, hbody]

/-- A declaration mentions no type parameter of its own. -/
theorem pieces_free (d : Declaration) : Free d.scope d.pieces := by
  cases d with
  | interfaceDef i => exact blockPieces_free (headerPieces_free _ _ _) (memberPieces_free _ _)
  | classDef c =>
      refine blockPieces_free (headerPieces_free _ _ _) fun line hline => ?_
      obtain ⟨x, -, hx⟩ := List.mem_flatMap.1 hline
      exact classMemberPieces_free x line hx
  | enumDef e => simp [pieces]
  | aliasDef a => simp [pieces, typeParamsPieces_free, TypeNode.pieces_free]

end Declaration

end HandlerWeave
