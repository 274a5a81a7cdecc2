import HandlerWeave.Proofs.Analysis.Collected
import HandlerWeave.Proofs.Artifact.Files
import HandlerWeave.Proofs.Artifact.Lines
import HandlerWeave.Proofs.Descriptor.Functions

/-!
The names under which handlers are deployed and called. A handler has the name of its class in the
descriptor and a shortened one in the client service, and neither need be its own: classes of other
files, a second binding of the same class or a class that only differs in its ending share them.
-/
namespace HandlerWeave

open Source

namespace Artifact

variable {v w : String} {handlers : List Handler}

/-- A class name without the ending that methods leave out. -/
def methodStem (name : String) : String :=
  match Text.dropEnding? "Function" name with
  | some stem => if stem.isEmpty then name else stem
  | none => name

theorem methodName_of_stem {c : Char} {cs : List Char} (h : (methodStem w).toList = c :: cs) :
    methodName w = String.ofList (Text.lowerChar c ++ cs) := by
  unfold methodStem at h
  unfold methodName
  cases hending : Text.dropEnding? "Function" w with
  | none | some =>
      simp only [hending] at h ⊢
      rw [h]

theorem mem_of_mem_methodStem {c : Char} (h : c ∈ (methodStem w).toList) : c ∈ w.toList := by
  unfold methodStem at h
  split at h
  next stem hstem =>
    split at h
    · exact h
    unfold Text.dropEnding? at hstem
    dsimp only at hstem
    split at hstem
    · cases hstem
      rw [String.toList_ofList] at h
      exact List.mem_of_mem_take h
    · cases hstem
  · exact h

theorem methodStem_ne_empty (hw : IsWord w) : methodStem w ≠ "" := by
  have hne : w ≠ "" := by
    rintro rfl
    obtain ⟨c, cs, hlist, -⟩ := Lexer.lexeme_of_isWord hw
    cases hlist
  unfold methodStem
  split
  · split
    · exact hne
    next hstem => simpa using hstem
  · exact hne

/-- Class names of which the methods have one name. -/
def SameMethod (v w : String) : Prop :=
  ∃ c d cs, (methodStem v).toList = c :: cs ∧ (methodStem w).toList = d :: cs ∧
    c.toLower = d.toLower

/-- Only the first letter of a stem can differ, by its case. -/
theorem methodName_eq_iff (hv : IsWord v) (hw : IsWord w) :
    methodName v = methodName w ↔ SameMethod v w := by
  have hparts : ∀ {u}, IsWord u → ∃ c cs, (methodStem u).toList = c :: cs ∧
      methodName u = String.ofList (c.toLower :: cs) := by
    intro u hu
    cases hstem : (methodStem u).toList with
    | nil => exact absurd (String.toList_inj.1 hstem) (methodStem_ne_empty hu)
    | cons c cs =>
        have hascii : c.toNat < 128 := toNat_lt_of_isStemChar
          (isStem_of_isWord hu c (mem_of_mem_methodStem (hstem ▸ List.mem_cons_self)))
        refine ⟨c, cs, rfl, ?_⟩
        rw [methodName_of_stem hstem, Text.lowerChar, if_pos hascii, List.singleton_append]
  obtain ⟨c, cs, hstem, hname⟩ := hparts hv
  obtain ⟨d, ds, hstem', hname'⟩ := hparts hw
  rw [hname, hname', String.ofList_inj, List.cons.injEq]
  constructor
  · rintro ⟨hfirst, rfl⟩
    exact ⟨c, d, cs, hstem, hstem', hfirst⟩
  · rintro ⟨_, _, _, hleft, hright, hfirst⟩
    cases hstem.symm.trans hleft
    cases hstem'.symm.trans hright
    exact ⟨hfirst, rfl⟩

/-- The handlers that a client can call. -/
def routed (handlers : List Handler) : List Handler := handlers.filter (·.route?.isSome)

/-- What the client service declares, in this order. -/
def methodNames (handlers : List Handler) : List String :=
  (routed handlers).map fun h => methodName h.name

/-- The part of the client service that calls a handler. -/
def methodText (h : Handler) : String :=
  (h.route?.map fun (method, path) => Service.method h (Text.lowercase method) path).getD ""

theorem methodText_eq {h : Handler} {method path : String}
    (hroute : h.route? = some (method, path)) :
    methodText h = Service.method h (Text.lowercase method) path := by
  simp only [methodText, hroute, Option.map_some, Option.getD_some]

theorem method_declares (h : Handler) (httpMethod path : String) :
    ∃ rest, Service.method h httpMethod path =
      "    public " ++ methodName h.name ++ "(" ++ rest := by
  simp only [Service.method, List.cons_append, lines_cons, String.append_assoc]
  exact ⟨_, rfl⟩

theorem map_methodText (handlers : List Handler) :
    (routed handlers).map methodText = handlers.filterMap fun h =>
      h.route?.map fun (method, path) => Service.method h (Text.lowercase method) path := by
  rw [routed]
  induction handlers with
  | nil => rfl
  | cons h handlers ih =>
      rw [List.filter_cons, List.filterMap_cons]
      cases hroute : h.route? with
      | none => exact ih
      | some route =>
          simp only [Option.isSome_some, if_true, List.map_cons, ih, Option.map_some]
          rw [methodText, hroute, Option.map_some, Option.getD_some]

/-- The body of the client service has one part for each handler with a route, which opens with the
name of the method. -/
theorem clientService_methods (handlers : List Handler) (types : Types.Table) :
    (clientService handlers types).contents =
        lines Service.header ++ String.join ((typesNamed handlers types).map importOf) ++
          lines Service.classOpening ++ String.join ((routed handlers).map methodText) ++ "\x7d\n" ∧
      ∀ h ∈ routed handlers, ∃ rest,
        methodText h = "    public " ++ methodName h.name ++ "(" ++ rest := by
  constructor
  · rw [map_methodText]
    unfold clientService
    dsimp only
  · intro h hh
    obtain ⟨⟨method, path⟩, hroute⟩ := Option.isSome_iff_exists.1 (List.mem_filter.1 hh).2
    obtain ⟨rest, heq⟩ := method_declares h (Text.lowercase method) path
    exact ⟨rest, by rw [methodText, hroute, Option.map_some, Option.getD_some]; exact heq⟩

theorem methodNames_nodup_iff (h : ∀ f ∈ handlers, IsWord f.name) :
    (methodNames handlers).Nodup ↔
      (routed handlers).Pairwise fun f g => ¬ SameMethod f.name g.name := by
  rw [methodNames, List.Nodup, List.pairwise_map]
  have hword : ∀ f ∈ routed handlers, IsWord f.name := fun f hf => h f (List.mem_filter.1 hf).1
  constructor <;> intro hnames <;> refine hnames.imp_of_mem fun hf hg => mt ?_
  · exact (methodName_eq_iff (hword _ hf) (hword _ hg)).2
  · exact (methodName_eq_iff (hword _ hf) (hword _ hg)).1

end Artifact

namespace Analysis

open Artifact Descriptor

variable {tree : FileTree} {a : Analysis} {paths : List String}

/-- Handlers are named for classes of the files. -/
theorem handler_isWord (h : addFiles paths tree {} = (.ok (), a)) {f : Handler}
    (hf : f ∈ a.handlers) : IsWord f.name := by
  obtain ⟨done, hc⟩ := addFiles_coherent h
  obtain ⟨m, hm, c, method, hread, -⟩ := hc.handler_read hf
  obtain ⟨d, hd, hclass⟩ := List.mem_filterMap.1 (List.mem_of_find?_eq_some hread.class_eq)
  cases d with
  | classDef =>
      cases hclass
      rw [← Module.name_of_class? hread.class_eq]
      exact (hc.loaded m hm).declared_isWord hd
  | interfaceDef | enumDef | aliasDef => cases hclass

/-- The handlers collected are those of the files, and their names are pairwise distinct exactly if
those of every file are and no two files share one. Then, and only then, a merge leaves one function
for each of them. Likewise the client service declares no method twice exactly if the classes of no
two handlers with a route differ only by the ending and the case of their first letter. -/
theorem handlers_apart (h : addFiles paths tree {} = (.ok (), a)) :
    a.handlers = paths.flatMap tree.handlers ∧
    ((a.handlers.map (·.name)).Nodup ↔
      (∀ path ∈ paths, ((tree.handlers path).map (·.name)).Nodup) ∧
        paths.Pairwise fun x y => ∀ f ∈ tree.handlers x, ∀ g ∈ tree.handlers y, f.name ≠ g.name) ∧
    (∀ root defaults document, (merge a.handlers root defaults document).1 = .ok () →
      ∃ merged, resources? (merge a.handlers root defaults document).2 = some merged ∧
        (∀ f ∈ a.handlers, ∃ f', (functionEntries merged).filter (Yaml.hasName f.name) =
          [(.string f.name, .mapping (entryOf root defaults f'))]) ∧
        ((functionEntries merged).Perm (a.handlers.map (resourceOf root defaults)) ↔
          (a.handlers.map (·.name)).Nodup)) ∧
    ((methodNames a.handlers).Nodup ↔
      (routed a.handlers).Pairwise fun f g => ¬ SameMethod f.name g.name) ∧
    (clientService a.handlers a.types).contents =
        lines Service.header ++ String.join ((typesNamed a.handlers a.types).map importOf) ++
          lines Service.classOpening ++ String.join ((routed a.handlers).map methodText) ++
          "\x7d\n" ∧
    (∀ f ∈ routed a.handlers, ∃ rest,
      methodText f = "    public " ++ methodName f.name ++ "(" ++ rest) := by
  refine ⟨addFiles_handlers h, ?names, ?merged, ?methods, clientService_methods _ _⟩
  case names =>
    rw [addFiles_handlers h, List.map_flatMap, List.nodup_flatMap]
    refine and_congr_right fun _ => List.Pairwise.iff fun x y => ?_
    simp only [Function.onFun, List.disjoint_left, List.mem_map, forall_exists_index, and_imp,
      forall_apply_eq_imp_iff₂, not_exists, not_and]
    exact forall₂_congr fun f _ => forall₂_congr fun g _ => ne_comm
  case merged => exact fun root defaults document hok => merge_functions hok
  case methods => exact methodNames_nodup_iff fun f hf => handler_isWord h hf

/-- A module that makes one handler of that class available. -/
def classText (className : String) : String :=
  "@LambdaFunction() class " ++ className ++ " \x7b handle() \x7b\x7d \x7d " ++
  "export const run = new " ++ className ++ "().handle;"

def classTree (first second : String) : FileTree :=
  ⟨[(["a.ts"], .file (classText first).toUTF8), (["b.ts"], .file (classText second).toUTF8)]⟩

theorem handlers_apart_two :
    let run := addFiles ["/a.ts", "/b.ts"] (classTree "Get" "Put") {}
    run = (.ok (), run.2) ∧
      ∃ merged, resources? (merge run.2.handlers "/" {} .null).2 = some merged ∧
        (functionEntries merged).Perm (run.2.handlers.map (resourceOf "/" {})) := by
  intro run
  have hrun : run.1.isOk = true ∧ run.2.handlers.map (·.name) = ["Get", "Put"] := by
    decide +kernel
  have hok := eq_ok_of_isOk hrun.1
  obtain ⟨-, -, hmerged, -⟩ := handlers_apart hok
  obtain ⟨merged, hresources, -, hperm⟩ := hmerged "/" {} .null rfl
  refine ⟨hok, merged, hresources, hperm.2 ?_⟩
  rw [hrun.2]
  decide

/-- Two files may each make a class of the same name available. -/
theorem handlers_clash :
    ¬ ∀ (tree : FileTree) (paths : List String) (a : Analysis),
      addFiles paths tree {} = (.ok (), a) → (a.handlers.map (·.name)).Nodup := by
  intro hdistinct
  have hrun : (addFiles ["/a.ts", "/b.ts"] (classTree "Get" "Get") {}).1.isOk = true ∧
      (addFiles ["/a.ts", "/b.ts"] (classTree "Get" "Get") {}).2.handlers.map (·.name) =
        ["Get", "Get"] := by
    decide +kernel
  have hnodup := hdistinct _ _ _ (eq_ok_of_isOk hrun.1)
  rw [hrun.2] at hnodup
  exact absurd hnodup (by decide)

end Analysis

end HandlerWeave
