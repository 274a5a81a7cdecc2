import HandlerWeave.Proofs.Artifact.Files
import HandlerWeave.Proofs.Artifact.Lines
import Mathlib.Data.List.Nodup

/-!
The import graph of the generated files is closed. What a file imports or exports from one beside it
is there: a part of the client, or the declaration of a type with a text. The types that a file
imports are those that its own text names.
-/
namespace HandlerWeave

open Source

/-- What can follow a declared name: a blank or type parameters. -/
def EndsName (rest : String) : Prop := (∃ tail, rest = " " ++ tail) ∨ ∃ tail, rest = "<" ++ tail

/-- The text declares an exported type of that name. -/
def Declares (text name : String) : Prop :=
  ∃ keyword ∈ ["interface", "enum", "type"], ∃ rest, EndsName rest ∧
    text = "export " ++ keyword ++ " " ++ name ++ rest

theorem EndsName.append {rest : String} (h : EndsName rest) (more : String) :
    EndsName (rest ++ more) := by
  obtain ⟨tail, rfl⟩ | ⟨tail, rfl⟩ := h
  · exact .inl ⟨tail ++ more, by rw [String.append_assoc]⟩
  · exact .inr ⟨tail ++ more, by rw [String.append_assoc]⟩

theorem Declares.append {text name : String} (h : Declares text name) (more : String) :
    Declares (text ++ more) name := by
  obtain ⟨keyword, hkeyword, rest, hrest, rfl⟩ := h
  exact ⟨keyword, hkeyword, rest ++ more, hrest.append more, by rw [String.append_assoc]⟩

namespace Declaration

open Piece

theorem endsName_plain {mark : String} (h : EndsName mark) (rest : List Piece) :
    EndsName (print (.plain mark :: rest)) := h.append (print rest)

theorem endsName_typeParams (scope : List String) (params : List TypeParam) {rest : List Piece}
    (h : EndsName (print rest)) : EndsName (print (typeParamsPieces scope params ++ rest)) := by
  unfold typeParamsPieces
  split
  · exact h
  · exact endsName_plain (.inr ⟨"", rfl⟩) _

theorem declares_header (scope : List String) (name : String) (params : List TypeParam)
    (heritage : List Heritage) (rest : List Piece) :
    Declares (print (headerPieces scope name params heritage ++ rest)) name := by
  let extended : List Piece := if heritage.isEmpty then [] else
    .plain " extends " :: separated ", " (heritage.map fun h => (heritageType h).pieces scope)
  have hextended : EndsName (print (extended ++ .plain " \x7b" :: rest)) := by
    dsimp only [extended]
    split
    · exact endsName_plain (.inl ⟨"\x7b", rfl⟩) _
    · exact endsName_plain (.inl ⟨"extends ", rfl⟩) _
  refine ⟨"interface", by simp, _, endsName_typeParams scope params hextended, ?_⟩
  simp [headerPieces, extended, print, Piece.text, String.append_assoc]

theorem declares_text (d : Declaration) : Declares d.text d.name := by
  cases d with
  | interfaceDef i => exact declares_header _ _ _ _ _
  | classDef c => exact declares_header _ _ _ _ _
  | enumDef e =>
      have hbrace : EndsName " \x7b" := .inl ⟨"\x7b", rfl⟩
      let body :=
        String.join ((e.members.map enumMemberText).map fun line => "    " ++ line ++ "\n")
      refine ⟨"enum", by simp, _, hbrace.append ("\n" ++ body ++ "\x7d"), ?_⟩
      have hopening : "export enum " = "export " ++ "enum" ++ " " := rfl
      simp only [Declaration.text, pieces, print, Piece.text, block, name, body, hopening,
        String.append_assoc, String.append_empty]
  | aliasDef a =>
      have hequals : EndsName (print (enclosed " = " (a.type.pieces (scope (.aliasDef a))) ";")) :=
        endsName_plain (.inl ⟨"= ", rfl⟩) _
      refine ⟨"type", by simp, _, endsName_typeParams (scope (.aliasDef a)) a.typeParams
        hequals, ?_⟩
      have hopening : "export type " = "export " ++ "type" ++ " " := rfl
      simp only [Declaration.text, pieces, print, Piece.text, name, hopening, String.append_assoc]

end Declaration

namespace Artifact

variable {files : List File} {types : Types.Table} {handlers : List Handler} {n : String}

theorem nodup_typesNamed (handlers : List Handler) (types : Types.Table) :
    (typesNamed handlers types).Nodup := Mention.nodup_foldl_addName List.nodup_nil _

theorem mem_typesNamed :
    n ∈ typesNamed handlers types ↔
      types.hasText n = true ∧ ∃ h ∈ handlers, n ∈ h.references := by
  have hfold : typesNamed handlers types =
      ((handlers.flatMap (·.references)).filter types.hasText).foldl Mention.addName [] := rfl
  rw [hfold, Mention.foldl_addName]
  simp [List.removeAll, and_comm]

/-- A file of that stem declares the name below its top lines. -/
def Provides (files : List File) (stem name : String) : Prop :=
  ∃ f ∈ files, f.name = stem ++ ".ts" ∧
    ∃ body, f.contents = lines (opening f.contents) ++ "\n" ++ body ∧ Declares body name

/-- The name is a part of the client or a type with a text, and the file of that stem is there. -/
def Supplies (a : Analysis) (files : List File) (name stem : String) : Prop :=
  ((name, stem) ∈ clientLinks ∧ ∃ g ∈ files, g.name = stem ++ ".ts") ∨
    (a.types.hasText name = true ∧ stem = slug name ∧ Provides files stem name)

/-- A type's file is there. Above its declaration it imports, once each, the other types with a text
that the declaration mentions. -/
def TypeImports (a : Analysis) (files : List File) (D : Types.Definition) : Prop :=
  ∃ m ∈ a.modules, ∃ d, m.declaration? D.name = some d ∧ Analysis.Shows m d D ∧
    ∃ f ∈ files, f.name = slug D.name ++ ".ts" ∧
      ∃ imports : List String, imports.Nodup ∧
        (∀ n, n ∈ imports ↔ n ≠ D.name ∧ a.types.hasText n = true ∧
          ∃ q, .named q ∈ d.mentions ∧ q.name = n) ∧
        opening f.contents = imports.map importLine ∧
        f.contents = lines (imports.map importLine) ++ ("\n" ++ d.text ++ "\n")

/-- The client imports, and the index exports, once each, the types with a text that a handler's
parameters or result mention. -/
def ClientImports (a : Analysis) (files : List File) : Prop :=
  ∃ imports : List String, imports.Nodup ∧
    (∀ n, n ∈ imports ↔ a.types.hasText n = true ∧
      ∃ h ∈ a.handlers, ∃ m ∈ a.modules, ∃ c method, Analysis.ReadFrom m c method h ∧
        ∃ q, .named q ∈ Handler.mentionsOf c method ∧ q.name = n) ∧
    (∃ f ∈ files, f.name = "api.service.ts" ∧
      opening f.contents = Service.header ++ imports.map importLine) ∧
    ∃ f ∈ files, f.name = "index.ts" ∧
      opening f.contents = clientLinks.map (fun (name, stem) => linkLine "export" name stem) ++
        imports.map fun n => linkLine "export" n (slug n)

/-- What the generated files import and export. -/
structure ImportsClosed (a : Analysis) (files : List File) : Prop where
  names : files.map (·.name) = a.types.rendered.map (fun D => slug D.name ++ ".ts") ++ clientNames
  distinct : (files.map (·.name)).Nodup
  declared : ∀ n, a.types.hasText n = true → Provides files (slug n) n
  linked : ∀ f ∈ files, ∀ keyword ∈ ["import", "export"], ∀ name stem,
    linkLine keyword name stem ∈ opening f.contents → Supplies a files name stem
  types : ∀ D ∈ a.types.rendered, TypeImports a files D
  client : ClientImports a files

/-- The files, where no type has to share one. -/
structure FilesOf (tree : FileTree) (a : Analysis) (files : List File) : Prop where
  coherent : ∃ done, Analysis.Moment.Coherent tree ⟨[], a, done⟩
  files_eq : files = a.types.rendered.map (typeFile a.types) ++ clientFiles a.handlers a.types
  distinct : (files.map (·.name)).Nodup

namespace FilesOf

variable {tree : FileTree} {a : Analysis} (h : FilesOf tree a files)

include h

theorem isWord {n : String} (hn : a.types.hasText n = true) : IsWord n := by
  obtain ⟨done, hc⟩ := h.coherent
  obtain ⟨D, hD, rfl⟩ := Types.Table.mem_rendered_of_hasText hn
  exact hc.rendered_isWord hD

theorem isWord_of_mem_imported {D : Types.Definition} {n : String} (hn : n ∈ imported a.types D) :
    IsWord n := by
  have htext := (List.mem_filter.1 hn).2
  exact h.isWord (Bool.and_eq_true_iff.1 htext).2

theorem isWord_of_mem_typesNamed {n : String} (hn : n ∈ typesNamed a.handlers a.types) :
    IsWord n := h.isWord (mem_typesNamed.1 hn).1

theorem mem_typeFile {D : Types.Definition} (hD : D ∈ a.types.rendered) :
    typeFile a.types D ∈ files := by
  rw [h.files_eq]
  exact List.mem_append_left _ (List.mem_map_of_mem hD)

theorem mem_clientFiles {f : File} (hf : f ∈ clientFiles a.handlers a.types) : f ∈ files := by
  rw [h.files_eq]
  exact List.mem_append_right _ hf

theorem opening_typeFile_eq (D : Types.Definition) :
    opening (typeFile a.types D).contents = (imported a.types D).map importLine :=
  opening_typeFile fun _ hn => h.isWord_of_mem_imported hn

theorem provides {n : String} (hn : a.types.hasText n = true) : Provides files (slug n) n := by
  obtain ⟨done, hc⟩ := h.coherent
  obtain ⟨D, hD, rfl⟩ := Types.Table.mem_rendered_of_hasText hn
  obtain ⟨m, -, d, hd, hshows, -⟩ := hc.rendered_shown hD
  refine ⟨_, h.mem_typeFile hD, rfl, d.text ++ "\n", ?_, ?_⟩
  · rw [h.opening_typeFile_eq, typeFile_contents, hshows.text]
    simp only [String.append_assoc]
  · have hdeclares := d.declares_text.append "\n"
    rwa [(Module.declaration?_mem hd).2] at hdeclares

theorem supplies {f : File} (hf : f ∈ files) {keyword name stem : String}
    (hkeyword : keyword ∈ ["import", "export"])
    (hline : linkLine keyword name stem ∈ opening f.contents) : Supplies a files name stem := by
  have hclient : (name, stem) ∈ clientLinks → Supplies a files name stem := by
    intro hlink
    have hfile : ∀ link ∈ clientLinks, ∃ g ∈ clientFiles a.handlers a.types,
        g.name = link.2 ++ ".ts" := by
      simp [clientLinks, clientFiles, clientService, clientModule, addressToken]
    obtain ⟨g, hg, hname⟩ := hfile _ hlink
    exact .inl ⟨hlink, g, h.mem_clientFiles hg, hname⟩
  have htype : a.types.hasText name = true → stem = slug name → Supplies a files name stem := by
    rintro hname rfl
    exact .inr ⟨hname, rfl, h.provides hname⟩
  have hnamed : ∀ n ∈ typesNamed a.handlers a.types, IsWord n :=
    fun n hn => h.isWord_of_mem_typesNamed hn
  rw [h.files_eq] at hf
  cases List.mem_append.1 hf with
  | inl hf =>
      obtain ⟨D, -, rfl⟩ := List.mem_map.1 hf
      rw [h.opening_typeFile_eq] at hline
      obtain ⟨hmem, hstem⟩ :=
        mem_links hkeyword (by simp) (fun _ hn => h.isWord_of_mem_imported hn) hline
      exact htype (Bool.and_eq_true_iff.1 (List.mem_filter.1 hmem).2).2 hstem
  | inr hf =>
      simp only [clientFiles, List.mem_cons, List.not_mem_nil, or_false] at hf
      obtain rfl | rfl | rfl | rfl := hf
      · rw [opening_clientService hnamed] at hline
        cases List.mem_append.1 hline with
        | inl hline => exact hclient (mem_header hkeyword hline)
        | inr hline =>
            obtain ⟨hmem, hstem⟩ := mem_links hkeyword (by simp) hnamed hline
            exact htype (mem_typesNamed.1 hmem).1 hstem
      · exact absurd hline notMem_opening_addressToken
      · rw [opening_clientIndex hnamed] at hline
        cases List.mem_append.1 hline with
        | inl hline => exact hclient (mem_clientLinks hkeyword (by simp) hline)
        | inr hline =>
            obtain ⟨hmem, hstem⟩ := mem_links hkeyword (by simp) hnamed hline
            exact htype (mem_typesNamed.1 hmem).1 hstem
      · exact absurd hline notMem_opening_clientModule

theorem names : files.map (·.name) =
    a.types.rendered.map (fun D => slug D.name ++ ".ts") ++ clientNames := by
  rw [h.files_eq, List.map_append, map_name_clientFiles, List.map_map]
  rfl

theorem typeImports {D : Types.Definition} (hD : D ∈ a.types.rendered) :
    TypeImports a files D := by
  obtain ⟨done, hc⟩ := h.coherent
  obtain ⟨m, hm, d, hd, hshows, -⟩ := hc.rendered_shown hD
  refine ⟨m, hm, d, hd, hshows, _, h.mem_typeFile hD, rfl, imported a.types D, ?_, ?_,
    h.opening_typeFile_eq D, ?_⟩
  · rw [imported, hshows.references]
    exact (Mention.references_nodup d.mentions).filter _
  · intro n
    rw [imported, List.mem_filter, hshows.references, Mention.mem_references]
    simp only [Bool.and_eq_true, bne_iff_ne]
    exact and_comm.trans and_assoc
  · rw [typeFile_contents, hshows.text]

theorem clientImports : ClientImports a files := by
  obtain ⟨done, hc⟩ := h.coherent
  have hnamed : ∀ n ∈ typesNamed a.handlers a.types, IsWord n :=
    fun n hn => h.isWord_of_mem_typesNamed hn
  refine ⟨typesNamed a.handlers a.types, nodup_typesNamed _ _, ?_, ?_, ?_⟩
  · intro n
    rw [mem_typesNamed]
    refine and_congr_right fun _ => exists_congr fun f => and_congr_right fun hf => ?_
    constructor
    · intro hn
      obtain ⟨m, hm, c, method, hread, -⟩ := hc.handler_read hf
      rw [hread.eq] at hn
      exact ⟨m, hm, c, method, hread, Mention.mem_references.1 hn⟩
    · rintro ⟨m, hm, c, method, hread, hq⟩
      rw [hread.eq]
      exact Mention.mem_references.2 hq
  · exact ⟨_, h.mem_clientFiles (by simp [clientFiles]), rfl, opening_clientService hnamed⟩
  · have hindex : clientIndex a.handlers a.types ∈ clientFiles a.handlers a.types := by
      simp [clientFiles]
    exact ⟨_, h.mem_clientFiles hindex, rfl, opening_clientIndex hnamed⟩

end FilesOf

/-- The import graph of the generated files is closed where no two types with a text have one slug
and none has that of the index. Every line that imports or exports a name from a file beside its own
names a file of the output that declares it; a type's file imports exactly once each other type with
a text that its declaration mentions, and the client each one that a handler's parameters or result
mention. -/
theorem imports_closed {tree : FileTree} {a : Analysis} {paths : List String} {products : Products}
    {path root : String} {document : Yaml} {defaults : BuildFallback}
    (hrun : Analysis.addFiles paths tree {} = (.ok (), a))
    (hslugs : (a.types.rendered.map fun D => slug D.name).Nodup)
    (hindex : "index" ∉ a.types.rendered.map fun D => slug D.name)
    (hrender : Project.render a path document root defaults = .ok products) :
    ImportsClosed a products.files := by
  obtain ⟨done, hc⟩ := Analysis.addFiles_coherent hrun
  have hfiles : typeFiles a.types = a.types.rendered.map (typeFile a.types) := by
    refine firstOfName_of_nodup ?_
    rw [List.map_map]
    have hnames := hslugs.map fun s t => (String.append_left_inj ".ts").1
    rwa [List.map_map] at hnames
  have h : FilesOf tree a products.files := by
    refine ⟨⟨done, hc⟩, by rw [Project.render_files hrender, hfiles], ?_⟩
    rw [Project.render_files hrender, names_nodup_iff]
    intro D hD hclash
    have hslug := eq_index_of_isStem (slug_isStem (hc.rendered_isWord hD)) hclash
    exact hindex (List.mem_map.2 ⟨D, hD, hslug⟩)
  refine ⟨h.names, h.distinct, fun n hn => h.provides hn, ?linked, fun D hD => h.typeImports hD,
    h.clientImports⟩
  case linked => exact fun f hf keyword hkeyword name stem => h.supplies hf hkeyword

theorem imports_closed_item :
    Analysis.addFiles ["/a.ts"] Analysis.itemTree {} = (.ok (), Project.itemAnalysis) ∧
      (Project.itemAnalysis.types.rendered.map fun D => slug D.name) = ["item"] ∧
      ImportsClosed Project.itemAnalysis Project.itemProducts.files := by
  obtain ⟨hok, hslugs⟩ : (Analysis.addFiles ["/a.ts"] Analysis.itemTree {}).1.isOk = true ∧
      (Project.itemAnalysis.types.rendered.map fun D => slug D.name) = ["item"] := by
    decide +kernel
  have hrun : Analysis.addFiles ["/a.ts"] Analysis.itemTree {} = (.ok (), Project.itemAnalysis) :=
    Analysis.eq_ok_of_isOk hok
  have hrender : Project.render Project.itemAnalysis "/template.yml" (.mapping []) "/" {} =
      .ok Project.itemProducts := rfl
  have hnodup : (Project.itemAnalysis.types.rendered.map fun D => slug D.name).Nodup := by
    rw [hslugs]
    decide
  have hindex : "index" ∉ Project.itemAnalysis.types.rendered.map fun D => slug D.name := by
    rw [hslugs]
    decide
  exact ⟨hrun, hslugs, imports_closed hrun hnodup hindex hrender⟩

end Artifact

end HandlerWeave
