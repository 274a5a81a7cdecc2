import HandlerWeave.Proofs.Artifact.Files
import HandlerWeave.Proofs.Declarations.Printed
import Mathlib.Data.Set.List

/-!
Where handlers come from. A handler is described from a class and its entry method in a module that
is parsed from a text, so its names and its types are such as the grammar gives.
-/
namespace HandlerWeave

open Source Piece

namespace Source

variable {P : QualifiedName → Prop} {scope : List String}

theorem naming_members {members : List TypeMember}
    (h : ∀ m ∈ members, ∀ t ∈ m.types, Naming P (t.pieces scope)) :
    ∀ part ∈ memberPieces scope members, Naming P part := by
  induction members with
  | nil => simp [memberPieces]
  | cons m members ih =>
      obtain ⟨hm, hmembers⟩ := List.forall_mem_cons.1 h
      have hrest := ih hmembers
      cases m with
      | property name optional type =>
          have htype : Naming P (optionalPieces scope type) := by
            cases type with
            | none => simp [optionalPieces]
            | some t => exact hm t (by simp [TypeMember.types])
          simpa [memberPieces, property, htype] using hrest
      | index keyName keyType type =>
          have hkey : Naming P (keyType.pieces scope) := hm _ (by simp [TypeMember.types])
          have htype : Naming P (type.pieces scope) := hm _ (by simp [TypeMember.types])
          simpa [memberPieces, index, hkey, htype] using hrest
      | method name => simpa [memberPieces] using hrest

/-- Every name that a type mentions is a word. -/
theorem TypeNode.Regular.naming {t : TypeNode} (h : t.Regular) (scope : List String) :
    Naming (fun q => IsWord q.name) (t.pieces scope) := by
  have hlist : ∀ (separator : String) {types : List TypeNode},
      (∀ t ∈ types, Naming (fun q => IsWord q.name) (t.pieces scope)) →
        Naming (fun q => IsWord q.name) (separated separator (typePieces scope types)) := by
    intro separator types h
    rw [typePieces_eq]
    exact naming_separated (List.forall_mem_map.2 h)
  induction h with
  | keyword | literal | verbatim => simp [TypeNode.pieces]
  | @reference name args hname _ ih =>
      have hargs := hlist ", " ih
      cases h : isParameter scope name
      · cases args <;> simp [TypeNode.pieces, h, hargs, hname]
      · simp [TypeNode.pieces, h]
  | @array element _ _ ih =>
      cases h : needsParentheses element <;> simp [TypeNode.pieces, h, ih]
  | tuple _ ih | union _ _ _ ih | intersection _ _ _ ih => simp [TypeNode.pieces, hlist _ ih]
  | parenthesized _ ih => simp [TypeNode.pieces, ih]
  | shape _ _ ih =>
      rw [TypeNode.pieces]
      split
      · simp
      · simp [naming_separated (naming_members ih)]

end Source

/-- A class with an entry method, in a module that is parsed from a text, and the name under which
it is exported. -/
structure Origin where
  path : String
  source : String
  items : List Item
  parsed : parse source = .ok items
  cls : ClassDef
  entry : Method
  exported : String
  class_eq : (Module.ofItems path items).class? cls.name = some cls
  entry_eq : cls.method? Handler.entryName = some entry

namespace Origin

/-- The handler as it is described. -/
def handler (o : Origin) : Handler :=
  Handler.describe (Module.ofItems o.path o.items) o.cls o.entry o.exported

def scope (o : Origin) : List String := Handler.scopeOf o.cls o.entry

/-- The types of the parameters and of the result, as far as they are written. -/
def types (o : Origin) : List TypeNode :=
  o.entry.params.filterMap (·.type) ++ (Handler.resultType? o.cls).toList

variable (o : Origin)

theorem cls_regular : o.cls.Regular := by
  obtain ⟨d, hd, hclass⟩ := List.mem_filterMap.1 (List.mem_of_find?_eq_some o.class_eq)
  obtain ⟨item, hitem, hitemd⟩ := List.mem_filterMap.1 hd
  have hregular := parse_regular o.source
  rw [o.parsed] at hregular
  have hitem := hregular item hitem
  cases item with
  | classDef c =>
      cases hitemd
      cases hclass
      exact hitem
  | interfaceDef | enumDef | aliasDef =>
      cases hitemd
      cases hclass
  | importStatement | variableStatement => cases hitemd

theorem name_isWord : IsWord o.handler.name := o.cls_regular.name

theorem params_regular : ∀ p ∈ o.entry.params, p.Regular := by
  obtain ⟨member, hmember, hmethod⟩ := List.exists_of_findSome?_eq_some o.entry_eq
  have hregular := o.cls_regular.members member hmember
  cases member with
  | method m =>
      obtain ⟨-, rfl⟩ : _ ∧ m = o.entry := by simpa using hmethod
      exact hregular
  | property | constructor | index => cases hmethod

theorem types_regular : ∀ t ∈ o.types, t.Regular := by
  refine List.forall_mem_append.2 ⟨fun t ht => ?_, fun t ht => ?_⟩
  · obtain ⟨p, hp, htype⟩ := List.mem_filterMap.1 ht
    exact (o.params_regular p hp).type t htype
  · have hresult : Handler.resultType? o.cls = some t := by simpa using ht
    simp only [Handler.resultType?, Option.bind_eq_bind, Option.bind_eq_some_iff] at hresult
    obtain ⟨base, hbase, hhead⟩ := hresult
    exact (o.cls_regular.heritage base (List.mem_of_find?_eq_some hbase)).typeArgs t
      (List.mem_of_mem_head? hhead)

/-- What a handler refers to has a word for its name. -/
theorem references_isWord : ∀ n ∈ o.handler.references, IsWord n := by
  have hmentions : ∀ type : Option TypeNode, (∀ t ∈ type, t ∈ o.types) →
      ∀ q, .named q ∈ optionalTypeMentions o.scope type → IsWord q.name := by
    intro type htype q hq
    cases type with
    | none => cases hq
    | some t => exact (o.types_regular t (htype t rfl)).naming o.scope q hq
  intro n hn
  obtain ⟨q, hq, rfl⟩ := Mention.mem_references.1 hn
  obtain hq | hq := List.mem_append.1 hq
  · obtain ⟨p, hp, hq⟩ := List.mem_flatMap.1 hq
    have hparam : ∀ t ∈ p.type, t ∈ o.types := fun t ht =>
      List.mem_append_left _ (List.mem_filterMap.2 ⟨p, hp, ht⟩)
    exact hmentions p.type hparam q hq
  · exact hmentions _ (fun t ht => List.mem_append_right _ (by simpa using ht)) q hq

end Origin

namespace Analysis

variable {tree : FileTree} {a : Analysis} {paths : List String}

/-- Every handler that is collected from files has an origin. -/
theorem exists_origins (h : addFiles paths tree {} = (.ok (), a)) :
    ∃ origins : List Origin, origins.map Origin.handler = a.handlers := by
  obtain ⟨done, hc⟩ := addFiles_coherent h
  have horigin : ∀ f ∈ a.handlers, f ∈ Set.range Origin.handler := by
    intro f hf
    obtain ⟨m, hm, c, method, hread, -⟩ := hc.handler_read hf
    obtain ⟨source, items, -, hparsed, hitems⟩ := (hc.loaded m hm).parsed
    have hclass := hread.class_eq
    rw [← Module.name_of_class? hclass, hitems] at hclass
    refine ⟨⟨m.path, source, items, hparsed, c, method, f.exported, hclass, hread.method_eq⟩, ?_⟩
    rw [Origin.handler, ← hitems]
    exact hread.eq.symm
  exact (Set.range_list_map Origin.handler).ge horigin

end Analysis

end HandlerWeave
