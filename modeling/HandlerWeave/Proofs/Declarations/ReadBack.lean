import HandlerWeave.Proofs.Declarations.Written
import HandlerWeave.Proofs.Source.Items
import HandlerWeave.Proofs.Types.Rendering
import HandlerWeave.Proofs.Analysis.Run

/-!
A generated declaration can be read by the grammar it was read with. It comes back with the same
names and members, and written again it has the same text.
-/
namespace HandlerWeave.Declaration

open Source

inductive Form
  | interface | enumeration | alias
deriving DecidableEq, Repr

inductive DataMember
  | property (name : String) (optional : Bool)
  | index (keyName : String)
deriving DecidableEq, Repr

def DataMember.ofMember? : TypeMember → Option DataMember
  | .property name optional _ => some (.property name optional)
  | .index keyName _ _ => some (.index keyName)
  | .method _ => none

/-- A string or a number, which may have a sign. -/
def literal? : Expr → Option LiteralType
  | .string value => some (.string value)
  | .number text => some (.number text)
  | .negate (.number text) => some (.number ("-" ++ text))
  | _ => none

/-- What a declaration is: a class counts as the interface over its data. -/
def form : Declaration → Form
  | classDef _ | interfaceDef _ => .interface
  | enumDef _ => .enumeration
  | aliasDef _ => .alias

def dataMembers : Declaration → List DataMember
  | classDef c => (c.members.flatMap ClassMember.data).filterMap DataMember.ofMember?
  | interfaceDef i => i.members.filterMap DataMember.ofMember?
  | enumDef _ | aliasDef _ => []

/-- The members of an enumeration with the strings and numbers among their initializers. -/
def enumMembers : Declaration → List (String × Option LiteralType)
  | enumDef e => e.members.map fun m => (m.name, m.initializer.bind literal?)
  | classDef _ | interfaceDef _ | aliasDef _ => []

def isExported : Declaration → Bool
  | classDef d => d.modifiers.exported
  | interfaceDef d => d.modifiers.exported
  | enumDef d => d.modifiers.exported
  | aliasDef d => d.modifiers.exported

/-- What a declaration says apart from its types. -/
structure Outline where
  form : Form
  name : String
  typeParams : List String
  dataMembers : List DataMember
  enumMembers : List (String × Option LiteralType)
deriving DecidableEq, Repr

def outline (d : Declaration) : Outline :=
  ⟨d.form, d.name, d.typeParams.map (·.name), d.dataMembers, d.enumMembers⟩

theorem toItem_mem {d : Declaration} {items : List Item} (h : d ∈ items.filterMap ofItem?) :
    d.toItem ∈ items := by
  obtain ⟨item, hitem, hd⟩ := List.mem_filterMap.1 h
  cases item with
  | classDef | interfaceDef | enumDef | aliasDef =>
      cases hd
      exact hitem
  | importStatement | variableStatement => cases hd

theorem dataMembers_printed (d : Declaration) : d.printed.dataMembers = d.dataMembers := by
  have hmembers : ∀ scope (members : List TypeMember),
      (printedMembers scope members).filterMap DataMember.ofMember? =
        members.filterMap DataMember.ofMember? := by
    intro scope members
    induction members with
    | nil => rfl
    | cons m members ih =>
        cases m with
        | property | index =>
            rw [printedMembers, List.filterMap_cons, List.filterMap_cons, ih]
            rfl
        | method =>
            rw [printedMembers, ih]
            rfl
  cases d with
  | classDef | interfaceDef => exact hmembers _ _
  | enumDef | aliasDef => rfl

theorem enumMembers_printed (d : Declaration) : d.printed.enumMembers = d.enumMembers := by
  have hliteral : ∀ o : Option Expr, (o.bind Expr.printed?).bind literal? = o.bind literal? := by
    intro o
    cases o with
    | none => rfl
    | some e =>
        cases e with
        | negate inner => cases inner <;> rfl
        | _ => rfl
  cases d with
  | enumDef e =>
      simp only [printed, enumMembers, EnumDef.printed, List.map_map]
      refine List.map_congr_left fun m _ => ?_
      rw [Function.comp, EnumMember.printed, hliteral]
  | classDef | interfaceDef | aliasDef => rfl

theorem outline_printed (d : Declaration) : d.printed.outline = d.outline := by
  have hform : d.printed.form = d.form := by cases d <;> rfl
  have hname : d.printed.name = d.name := by cases d <;> rfl
  have hparams : d.printed.typeParams.map (·.name) = d.typeParams.map (·.name) := printed_scope d
  rw [outline, outline, hform, hname, hparams, dataMembers_printed, enumMembers_printed]

/-- The text that is generated for a declaration is read as one exported declaration, and no class,
that says the same. Wherever that one is written, its names are gone over and the text is the same
again. -/
theorem text_read_back {source : String} {items : List Item} (hparse : parse source = .ok items)
    {d : Declaration} (hd : d ∈ items.filterMap ofItem?) (hlegible : d.Legible)
    {define : QualifiedName → Module → AnalysisM Unit} {m : Module} {tree : FileTree}
    {a b : Analysis} {t : String} {names : List String}
    (hrun : (Types.Rendering.declaration define m d).run [] tree a = (.ok (t, names), b)) :
    ∃ e : Declaration, parse t = .ok [e.toItem] ∧ e.isExported = true ∧ e.asClass? = none ∧
      e.outline = d.outline ∧
      ∀ (define' : QualifiedName → Module → AnalysisM Unit) (m' : Module), ∃ names',
        (Types.Rendering.declaration define' m' e).run [] =
          (Types.visit define' m' e.mentions >>= fun _ => pure (t, names')) := by
  have hregular : d.toItem.Regular := by
    have hitems := parse_regular source
    rw [hparse] at hitems
    exact hitems _ (toItem_mem hd)
  have htext : t = d.text := by
    rw [Types.Rendering.declaration_run, AnalysisM.bind_run] at hrun
    split at hrun
    · cases hrun
      rfl
    · cases hrun
  subst htext
  refine ⟨d.printed, parse_text hregular hlegible, ?_, ?_, outline_printed d, fun define' m' =>
    ⟨Mention.references d.printed.mentions, ?_⟩⟩
  · cases d <;> rfl
  · cases d <;> rfl
  · rw [Types.Rendering.declaration_run, printed_text hregular hlegible]

/-- A class with everything that changes on the way to its text: a qualified base, a quoted name, a
union in brackets, a static property, a method, a property made by the constructor. -/
def boxSource : String :=
  "class Box<T = any> extends pkg.Shelf<T> \x7b 'full name'?: (T | null)[]; " ++
    "static count: number; constructor(private tag: 'it\\'s') \x7b\x7d " ++
    "grow(): void \x7b\x7d [key: string]: unknown \x7d"

def boxClass : ClassDef where
  name := "Box"
  modifiers := {}
  decorators := []
  typeParams := [⟨"T", none, some (.keyword .any)⟩]
  base := some ⟨⟨some "pkg", "Shelf"⟩, [.reference ⟨none, "T"⟩ []]⟩
  interfaces := []
  members := [
    .property ⟨"full name", some (.array (.parenthesized (.union
      [.reference ⟨none, "T"⟩ [], .keyword .null]))), true, false, []⟩,
    .property ⟨"count", some (.keyword .number), false, true, []⟩,
    .constructor [⟨"tag", some (.literal (.string "it's")), false, false, true, []⟩],
    .method ⟨"grow", .method, false, [], [], some (.keyword .void), []⟩,
    .index ⟨"key", .keyword .string, .keyword .unknown⟩]

def boxText : String :=
  "export interface Box<T = any> extends Shelf<T> \x7b\n    'full name'?: (T | null)[];\n" ++
    "    tag: 'it\\'s';\n    [key: string]: unknown;\n\x7d"

theorem boxClass_legible : boxClass.Legible := by
  have hparameter : (TypeNode.reference ⟨none, "T"⟩ []).Legible ["T"] := .parameter (by decide) rfl
  refine ⟨⟨fun p hp => ?_, fun b hb => ?_, fun m hm => ?_⟩, by decide⟩
  · obtain rfl := List.mem_singleton.1 hp
    exact ⟨ofSome_none, fun t ht => by cases ht; exact .keyword .any⟩
  · obtain rfl := List.mem_singleton.1 hb
    refine ⟨fun _ => .inr (by decide), fun _ t ht => ?_⟩
    obtain rfl := List.mem_singleton.1 ht
    exact hparameter
  · have hdata : m ∈ [TypeMember.property "full name" true (some (.array (.parenthesized (.union
        [.reference ⟨none, "T"⟩ [], .keyword .null])))),
        .property "tag" false (some (.literal (.string "it's"))),
        .index "key" (.keyword .string) (.keyword .unknown)] := hm
    simp only [List.mem_cons, List.not_mem_nil, or_false] at hdata
    obtain rfl | rfl | rfl := hdata
    · refine ⟨fun n hn => by cases hn; decide, fun t ht => ?_⟩
      obtain rfl := List.mem_singleton.1 ht
      exact .array (.parenthesized (.union (List.forall_mem_cons.2
        ⟨hparameter, List.forall_mem_singleton.2 (.keyword .null)⟩)))
    · refine ⟨fun n hn => by cases hn; decide, fun t ht => ?_⟩
      obtain rfl := List.mem_singleton.1 ht
      exact .literal fun s hs => by cases hs; decide
    · refine ⟨fun n hn => ?_, List.forall_mem_cons.2
        ⟨.keyword .string, List.forall_mem_singleton.2 (.keyword .unknown)⟩⟩
      cases hn

set_option maxRecDepth 4000 in
theorem boxText_read_back :
    let box := classDef boxClass
    parse boxSource = .ok [box.toItem] ∧ box ∈ [box.toItem].filterMap ofItem? ∧ box.Legible ∧
      (Types.Rendering.declaration (fun _ _ => pure ()) (Module.ofItems "/box.ts" [box.toItem])
        box).run [] ⟨[]⟩ {} = (.ok (boxText, ["Shelf"]), {}) ∧
      ∃ e : Declaration, parse boxText = .ok [e.toItem] ∧ e.isExported = true ∧ e.asClass? = none ∧
        e.outline = box.outline ∧
        ∀ (define' : QualifiedName → Module → AnalysisM Unit) (m' : Module), ∃ names',
          (Types.Rendering.declaration define' m' e).run [] =
            (Types.visit define' m' e.mentions >>= fun _ => pure (boxText, names')) := by
  intro box
  have hparse : parse boxSource = .ok [box.toItem] := by rfl
  have hmem : box ∈ [box.toItem].filterMap ofItem? := List.mem_cons_self
  have hrun : (Types.Rendering.declaration (fun _ _ => pure ())
      (Module.ofItems "/box.ts" [box.toItem]) box).run [] ⟨[]⟩ {} =
        (.ok (boxText, ["Shelf"]), {}) := by rfl
  exact ⟨hparse, hmem, boxClass_legible, hrun, text_read_back hparse hmem boxClass_legible hrun⟩

/-- The qualifier of a name is not written, so a name with arguments can come back as a keyword, or
as a type parameter, which takes no arguments. -/
theorem qualified_not_read_back :
    let keyword := interfaceDef ⟨"A", {}, [], [],
      [.property "x" false (some (.reference ⟨some "ns", "string"⟩ [.reference ⟨none, "B"⟩ []]))]⟩
    let parameter := interfaceDef ⟨"A", {}, [⟨"T", none, none⟩], [],
      [.property "x" false (some (.reference ⟨some "ns", "T"⟩ [.reference ⟨none, "B"⟩ []]))]⟩
    (parse "interface A { x: ns.string<B> }" = .ok [keyword.toItem] ∧
      keyword.text = "export interface A \x7b\n    x: string<B>;\n\x7d" ∧
      (parse keyword.text).isOk = false) ∧
    parse "interface A<T> { x: ns.T<B> }" = .ok [parameter.toItem] ∧
      parameter.text = "export interface A<T> \x7b\n    x: T<B>;\n\x7d" ∧
      ∃ e : Declaration, parse parameter.text = .ok [e.toItem] ∧
        e.text = "export interface A<T> \x7b\n    x: T;\n\x7d" := by
  refine ⟨⟨by rfl, by decide +kernel, by decide +kernel⟩, by rfl, by decide +kernel, ?_⟩
  exact ⟨interfaceDef ⟨"A", { exported := true }, [⟨"T", none, none⟩], [],
      [.property "x" false (some (.reference ⟨none, "T"⟩ [.reference ⟨none, "B"⟩ []]))]⟩,
      by rfl, by decide +kernel⟩

end HandlerWeave.Declaration
