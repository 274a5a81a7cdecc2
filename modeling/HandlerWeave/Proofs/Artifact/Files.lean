import HandlerWeave.Proofs.Analysis.References
import HandlerWeave.Proofs.Artifact.Slugs
import HandlerWeave.Proofs.Project.Outputs
import HandlerWeave.Proofs.Source.Items

/-!
The names of the generated files. Those of type files are pairwise distinct, since of types that
share a slug only the first keeps a file. The other files have fixed names, and a type of which the
slug is one of these takes the place of none of them: both are there, under one name.
-/
namespace HandlerWeave

open Source

theorem Declaration.name_isWord {item : Item} {d : Declaration} (h : ofItem? item = some d)
    (hitem : item.Regular) : IsWord d.name := by
  cases item with
  | classDef | interfaceDef | enumDef | aliasDef =>
      cases h
      exact hitem.name
  | importStatement | variableStatement => cases h

theorem Module.FromTree.declared_isWord {tree : FileTree} {m : Module} (h : m.FromTree tree)
    {d : Declaration} (hd : d ∈ m.declarations) : IsWord d.name := by
  obtain ⟨text, items, -, hitems, hm⟩ := h.parsed
  rw [hm] at hd
  obtain ⟨item, hitem, hd⟩ := List.mem_filterMap.1 hd
  have hregular := parse_regular text
  rw [hitems] at hregular
  exact Declaration.name_isWord hd (hregular item hitem)

theorem Module.FromTree.name_isWord {tree : FileTree} {m : Module} (h : m.FromTree tree)
    {name : String} {d : Declaration} (hd : m.declaration? name = some d) : IsWord name := by
  obtain ⟨hmem, rfl⟩ := declaration?_mem hd
  exact h.declared_isWord hmem

namespace Analysis

variable {tree : FileTree} {a : Analysis} {paths : List String}

theorem addFiles_coherent (h : addFiles paths tree {} = (.ok (), a)) :
    ∃ done, Moment.Coherent tree ⟨[], a, done⟩ := by
  obtain ⟨done, hreach⟩ := addFiles_reaches h
  exact ⟨done, Reaches.coherent hreach (filesStart_coherent tree paths)⟩

/-- Every declaration with a text was parsed from a file, so its name is a word. -/
theorem Moment.Coherent.rendered_isWord {done : List (Work × Module)}
    (hc : Moment.Coherent tree ⟨[], a, done⟩) {D : Types.Definition} (hD : D ∈ a.types.rendered) :
    IsWord D.name := by
  obtain ⟨m, hm, d, hd, -, -⟩ := hc.rendered_shown hD
  exact (hc.loaded m hm).name_isWord hd

end Analysis

namespace Artifact

variable {handlers : List Handler} {types : Types.Table} {files : List File} {name s : String}

theorem mem_map_name_firstOfName :
    name ∈ (firstOfName files).map (·.name) ↔ name ∈ files.map (·.name) := by
  induction files with
  | nil => rfl
  | cons f files ih =>
      by_cases hname : name = f.name
      · simp [firstOfName, hname]
      · have hrest : name ∈ ((firstOfName files).filter (·.name != f.name)).map (·.name) ↔
            name ∈ (firstOfName files).map (·.name) := by
          simp only [List.mem_map, List.mem_filter]
          grind
        simp only [firstOfName, List.map_cons, List.mem_cons, hname, false_or, hrest, ih]

theorem firstOfName_nodup (files : List File) : ((firstOfName files).map (·.name)).Nodup := by
  induction files with
  | nil => exact List.nodup_nil
  | cons f files ih =>
      refine List.nodup_cons.2 ⟨?_, ih.sublist (List.filter_sublist.map _)⟩
      simp [List.mem_map]

theorem firstOfName_of_nodup (h : (files.map (·.name)).Nodup) : firstOfName files = files := by
  induction files with
  | nil => rfl
  | cons f files ih =>
      obtain ⟨hf, h⟩ := List.nodup_cons.1 h
      rw [firstOfName, ih h, List.filter_eq_self.2]
      intro g hg
      rw [bne_iff_ne]
      exact fun heq => hf (List.mem_map.2 ⟨g, hg, heq⟩)

/-- The files of every client, of which the names do not depend on its types. -/
def clientFiles (handlers : List Handler) (types : Types.Table) : List File :=
  [clientService handlers types, addressToken, clientIndex handlers types, clientModule]

def clientNames : List String :=
  ["api.service.ts", "baseurl.token.ts", "index.ts", "api.module.ts"]

theorem map_name_clientFiles : (clientFiles handlers types).map (·.name) = clientNames := rfl

theorem mem_map_name_typeFiles :
    name ∈ (typeFiles types).map (·.name) ↔ ∃ D ∈ types.rendered, slug D.name ++ ".ts" = name := by
  simp [typeFiles, mem_map_name_firstOfName, typeFile]

theorem names_nodup_iff :
    ((typeFiles types ++ clientFiles handlers types).map (·.name)).Nodup ↔
      ∀ D ∈ types.rendered, slug D.name ++ ".ts" ∉ clientNames := by
  have hnames : clientNames.Nodup := by decide
  rw [List.map_append, map_name_clientFiles, List.nodup_append]
  constructor
  · rintro ⟨-, -, hdisjoint⟩ D hD hclash
    exact hdisjoint _ (mem_map_name_typeFiles.2 ⟨D, hD, rfl⟩) _ hclash rfl
  · intro hfree
    refine ⟨firstOfName_nodup _, hnames, ?_⟩
    rintro name hname _ hclient rfl
    obtain ⟨D, hD, rfl⟩ := mem_map_name_typeFiles.1 hname
    exact hfree D hD hclient

/-- The other fixed names have a point in their stem. -/
theorem eq_index_of_isStem (hs : IsStem s) (h : s ++ ".ts" ∈ clientNames) : s = "index" := by
  have hstems : clientNames =
      ["api.service", "baseurl.token", "index", "api.module"].map (· ++ ".ts") := rfl
  rw [hstems] at h
  obtain ⟨stem, hstem, heq⟩ := List.mem_map.1 h
  obtain rfl : stem = s := (String.append_left_inj ".ts").1 heq
  have hpoint : '.' ∉ stem.toList := hs.notMem (by decide)
  simp only [List.mem_cons, List.not_mem_nil, or_false] at hstem
  obtain rfl | rfl | rfl | rfl := hstem
  · exact absurd (by decide) hpoint
  · exact absurd (by decide) hpoint
  · rfl
  · exact absurd (by decide) hpoint

end Artifact

namespace Project

open Artifact

def itemAnalysis : Analysis := (Analysis.addFiles ["/a.ts"] Analysis.itemTree {}).2

variable {a : Analysis} {path root : String} {document : Yaml} {defaults : BuildFallback}
  {products : Products}

theorem render_files (h : render a path document root defaults = .ok products) :
    products.files = typeFiles a.types ++ clientFiles a.handlers a.types := by
  unfold render at h
  split at h
  · cases h
  · cases h
    rfl

theorem render_empty (a : Analysis) (path root : String) (defaults : BuildFallback) :
    ∃ products, render a path (.mapping []) root defaults = .ok products := ⟨_, rfl⟩

/-- The names of the generated files are pairwise distinct exactly if no type's file is named as one
that every client has. In an analysis of files only the index can be in its way. Where the names are
distinct, a run that replaces the files of an output leaves each of them with its contents. -/
theorem render_names_nodup (h : render a path document root defaults = .ok products) :
    ((products.files.map (·.name)).Nodup ↔
      ∀ D ∈ a.types.rendered, slug D.name ++ ".ts" ∉ clientNames) ∧
    (∀ paths tree, Analysis.addFiles paths tree {} = (.ok (), a) →
      ((products.files.map (·.name)).Nodup ↔ ∀ D ∈ a.types.rendered, slug D.name ≠ "index")) ∧
    ((products.files.map (·.name)).Nodup → ∀ tree output after,
      (∀ f ∈ products.files, Nameable tree f.name) →
      replaceOutputs output products.files tree = (.ok (), after) →
      ∀ f ∈ products.files, after.read (Path.join output f.name) = .ok f.contents) := by
  rw [render_files h]
  refine ⟨names_nodup_iff, ?analysed, ?written⟩
  case analysed =>
    intro paths tree hrun
    obtain ⟨done, hc⟩ := Analysis.addFiles_coherent hrun
    rw [names_nodup_iff]
    refine forall₂_congr fun D hD => not_congr ⟨?_, ?_⟩
    · exact eq_index_of_isStem (slug_isStem (hc.rendered_isWord hD))
    · intro hslug
      rw [hslug]
      decide
  case written =>
    intro hnodup tree output after hnames hrun f hf
    obtain ⟨before, rest, hsplit⟩ := List.append_of_mem hf
    rw [hsplit] at hnodup hnames hrun
    rw [List.map_append, List.nodup_append] at hnodup
    have hlast := (List.nodup_cons.1 hnodup.2.1).1
    refine replaceOutputs_read (fun g hg => hnames g (List.mem_append_right _ hg)) ?_ hrun
    intro g hg heq
    exact hlast (List.mem_map.2 ⟨g, hg, heq⟩)

def itemProducts : Products where
  descriptor := Yaml.write (Descriptor.merge itemAnalysis.handlers "/" {} (.mapping [])).2
  files := typeFiles itemAnalysis.types ++ clientFiles itemAnalysis.handlers itemAnalysis.types

theorem nameable_itemTree {name : String} (h : name ∈ "item.ts" :: clientNames) :
    Nameable Analysis.itemTree name where
  plain := by
    have hplain : ∀ name ∈ "item.ts" :: clientNames,
        name ≠ "" ∧ name ≠ "." ∧ name ≠ ".." ∧ '/' ∉ name.toList := by
      decide
    obtain ⟨hempty, hhere, hup, hslash⟩ := hplain name h
    exact ⟨hempty, hhere, hup, hslash⟩
  no_link place target hnode := by
    have hentry := FileTree.mem_entries_of_node hnode (by simp)
    cases (Prod.mk.inj (List.mem_singleton.1 hentry)).2

theorem render_names_nodup_item :
    render itemAnalysis "/template.yml" (.mapping []) "/" {} = .ok itemProducts ∧
      (itemProducts.files.map (·.name)).Nodup ∧
      ∃ after, replaceOutputs "/out" itemProducts.files Analysis.itemTree = (.ok (), after) ∧
        ∀ f ∈ itemProducts.files, after.read (Path.join "/out" f.name) = .ok f.contents := by
  have hrender : render itemAnalysis "/template.yml" (.mapping []) "/" {} = .ok itemProducts := rfl
  obtain ⟨hnames, hok⟩ : itemProducts.files.map (·.name) = "item.ts" :: clientNames ∧
      (replaceOutputs "/out" itemProducts.files Analysis.itemTree).1.isOk = true := by
    decide +kernel
  obtain ⟨-, -, hwritten⟩ := render_names_nodup hrender
  have hnodup : (itemProducts.files.map (·.name)).Nodup := by
    rw [hnames]
    decide
  have hnameable : ∀ f ∈ itemProducts.files, Nameable Analysis.itemTree f.name := fun f hf =>
    nameable_itemTree (hnames ▸ List.mem_map_of_mem hf)
  cases hrun : replaceOutputs "/out" itemProducts.files Analysis.itemTree with
  | mk outcome after =>
      rw [hrun] at hok
      cases outcome with
      | error e => cases hok
      | ok v => exact ⟨hrender, hnodup, after, rfl, hwritten hnodup _ _ _ hnameable hrun⟩

/-- A project whose handler answers with a type that is named as the index is. -/
def indexTree : FileTree :=
  ⟨[(["a.ts"], .file (
    "interface Index { id: string } " ++
    "@LambdaFunction({}) class A extends ApiHandler<Index> { handle() {} } " ++
    "export const a = new A().run;").toUTF8)]⟩

/-- The file of that type and the index have one name. -/
theorem index_names_clash :
    ¬ ∀ (a : Analysis) (path : String) (document : Yaml) (root : String)
      (defaults : BuildFallback) (products : Products),
      render a path document root defaults = .ok products →
        (products.files.map (·.name)).Nodup := by
  intro hdistinct
  obtain ⟨products, hrender⟩ :=
    render_empty (Analysis.addFiles ["/a.ts"] indexTree {}).2 "/template.yml" "/" {}
  have hnodup := hdistinct _ _ _ _ _ _ hrender
  have hslug : ((Analysis.addFiles ["/a.ts"] indexTree {}).2.types.rendered.any fun D =>
      slug D.name == "index") = true := by
    decide +kernel
  obtain ⟨D, hD, hname⟩ := List.any_eq_true.1 hslug
  rw [render_files hrender] at hnodup
  refine names_nodup_iff.1 hnodup D hD ?_
  rw [beq_iff_eq.1 hname]
  decide

end Project

end HandlerWeave
