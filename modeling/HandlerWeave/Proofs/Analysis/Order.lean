import HandlerWeave.Proofs.Analysis.Collected
import HandlerWeave.Proofs.Analysis.Locality

/-!
Adding the same files in another order. Where no two modules declare one name, the texts that are
begun are the same in every order, and with them the table, but for the order of its entries.
-/
namespace HandlerWeave

open Source HandlerWeave.Types

/-- What an entry of the table shows. -/
def Types.Definition.content (D : Definition) : Status × String × List String × Option String :=
  (D.status, D.text, D.references, D.origin)

namespace Analysis

variable {tree : FileTree} {a b : Analysis} {c d : Moment} {paths paths' : List String}
  {done : List (Work × Module)}

/-- No two of the modules declare one name. -/
def Unambiguous (modules : List Module) : Prop :=
  ∀ m ∈ modules, ∀ n ∈ modules, ∀ name, (m.declaration? name).isSome →
    (n.declaration? name).isSome → m = n

theorem Moment.Justified.defining (h : c.Justified tree) {n : String} (hn : n ∈ c.defining) :
    ∃ q m, q.name = n ∧ c.Refers q m := by
  obtain ⟨call, hcall, hdefined⟩ := List.mem_filterMap.1 hn
  cases call with
  | files | bindings => cases hdefined
  | locating q m =>
      cases hdefined
      exact ⟨q, m, rfl, h.searches q m hcall⟩
  | writing w m rest =>
      cases w with
      | signature | type => cases hdefined
      | declaration _ decl =>
          cases hdefined
          obtain ⟨q, m, hq, hrefers, -⟩ :=
            h.declarations n decl _ (mem_works.2 (.inr ⟨rest, hcall⟩))
          exact ⟨q, m, hq, hrefers⟩

/-- The table has entries only for names that a text begun refers to. -/
theorem Reaches.entered (h : Reaches tree (filesStart paths) c) {n : String}
    (hn : (c.state.types.get? n).isSome) : ∃ q m, q.name = n ∧ c.Refers q m := by
  induction h with
  | refl => cases hn
  | tail hreach hstep ih =>
      have hstart := filesStart_coherent tree paths
      have hj := Reaches.justified (hreach.tail hstep) hstart (filesStart_justified tree paths)
      obtain hold | hnew := hstep.names.entered hn
      · obtain ⟨q, m, hq, hrefers⟩ := ih hold
        exact ⟨q, m, hq, hstep.refers hrefers⟩
      · exact hj.defining hnew

theorem Reaches.blank (h : Reaches tree c d) (hc : Stacked c.defining c.state.types)
    (hblank : c.state.types.Blank) : d.state.types.Blank := by
  induction h with
  | refl => exact hblank
  | tail hreach hstep ih => exact hstep.names.blank (Reaches.stacked hreach hc) ih

theorem Reaches.works_subset (h : Reaches tree c d) : c.works ⊆ d.works := by
  induction h with
  | refl => exact List.Subset.refl _
  | tail _ hstep ih => exact List.Subset.trans ih hstep.works_subset

/-- What is known of the end of a run over some files. -/
structure Finished (tree : FileTree) (paths : List String) (a : Analysis)
    (done : List (Work × Module)) : Prop where
  reached : Reaches tree (filesStart paths) ⟨[], a, done⟩
  handlers : a.handlers = paths.flatMap tree.handlers

namespace Finished

theorem of_addFiles (h : addFiles paths tree {} = (.ok (), a)) :
    ∃ done, Finished tree paths a done :=
  (addFiles_reaches h).imp fun _ hreach => ⟨hreach, addFiles_handlers h⟩

variable {done' : List (Work × Module)}

theorem coherent (h : Finished tree paths a done) : Moment.Coherent tree ⟨[], a, done⟩ :=
  Reaches.coherent h.reached (filesStart_coherent tree paths)

/-- A signature written in one order is written in the other one. -/
theorem signature (h : Finished tree paths a done) (h' : Finished tree paths' b done')
    (hperm : paths.Perm paths') {cls : ClassDef} {method : Method} {exported : String} {m : Module}
    (hw : (Work.signature cls method exported, m) ∈ done) :
    (Work.signature cls method exported, m) ∈ done' := by
  have hhandler : Handler.describe m cls method exported ∈ b.handlers := by
    have hmem : Handler.describe m cls method exported ∈ a.handlers := by
      rw [h.coherent.recorded.handlers]
      exact List.mem_filterMap.2 ⟨_, hw, rfl⟩
    rw [h.handlers] at hmem
    rw [h'.handlers]
    exact (hperm.flatMap_right _).mem_iff.1 hmem
  obtain ⟨hm, ⟨hclass, hmethod⟩, -⟩ := h.coherent.sourced _ m (mem_works.2 (.inl hw))
  obtain ⟨m', hm', cls', method', hread, hw'⟩ := h'.coherent.handler_read hhandler
  have hpath : m.path = m'.path := congrArg Handler.sourcePath hread.eq
  obtain rfl := (h.coherent.loaded m hm).eq_of_path (h'.coherent.loaded m' hm') hpath
  cases hclass.symm.trans hread.class_eq
  cases hmethod.symm.trans hread.method_eq
  exact hw'

/-- Where names are unambiguous, every text that is begun in one order is written in the other. -/
theorem works (h : Finished tree paths a done) (h' : Finished tree paths' b done')
    (hperm : paths.Perm paths') (hnames : Unambiguous (a.modules ++ b.modules))
    (hc : Reaches tree (filesStart paths) c) (hrest : Reaches tree c ⟨[], a, done⟩) :
    c.works ⊆ done' := by
  induction hc with
  | refl => exact List.nil_subset _
  | tail hreach hstep ih =>
      have hold := ih (hrest.head hstep)
      have hstart := filesStart_coherent tree paths
      have hj := Reaches.justified hreach hstart (filesStart_justified tree paths)
      have hend : ∀ x, x ∈ _ → x ∈ done := fun x hx => by
        simpa [Moment.works] using Reaches.works_subset hrest hx
      cases hstep.works with
      | same hworks => exact fun x hx => hold ((hworks x).1 hx)
      | signature cls method exported m hworks =>
          intro x hx
          obtain hx' | rfl := (hworks x).1 hx
          · exact hold hx'
          · exact h.signature h' hperm (hend _ hx)
      | declaration q m origin decl hcall hsearch hworks =>
          intro x hx
          obtain hx' | rfl := (hworks x).1 hx
          · exact hold hx'
          obtain ⟨w, hwork, hq⟩ := hj.searches q m hcall
          obtain ⟨_, hrun, -⟩ := search_run (Reaches.coherent hreach hstart).loaded q m
          rw [hrun] at hsearch
          -- The reference is printed in the other order as well, so that its name has a text there.
          obtain ⟨D, hD, hstatus⟩ := Table.status?_eq_some.1 (h'.coherent.rendered_of_prints
            (h'.coherent.prints_iff.2 ⟨w, hold hwork, hq⟩)
            ((h'.coherent.search_eq q m).trans hsearch))
          obtain ⟨decl', origin', hw', -⟩ := h'.coherent.recorded.shown _ D hD hstatus
          obtain ⟨hm', hdecl', -⟩ := h'.coherent.sourced _ origin' (mem_works.2 (.inl hw'))
          obtain ⟨hm, hdecl, -⟩ := h.coherent.sourced _ origin (mem_works.2 (.inl (hend _ hx)))
          obtain rfl := hnames origin (List.mem_append_left _ hm) origin'
            (List.mem_append_right _ hm') q.name (by rw [hdecl]; rfl) (by rw [hdecl']; rfl)
          cases hdecl.symm.trans hdecl'
          exact hw'

theorem done_subset (h : Finished tree paths a done) (h' : Finished tree paths' b done')
    (hperm : paths.Perm paths') (hnames : Unambiguous (a.modules ++ b.modules)) :
    done ⊆ done' := fun x hx =>
  h.works h' hperm hnames h.reached .refl (by simpa [Moment.works] using hx)

theorem blank (h : Finished tree paths a done) : a.types.Blank :=
  Reaches.blank h.reached (filesStart_coherent tree paths).stacked fun _ _ hD => nomatch hD

/-- A name with a text has the same text in the other order. -/
theorem rendered (h : Finished tree paths a done) (h' : Finished tree paths' b done')
    (hdone : done ⊆ done') {n : String} {D : Definition} (hD : a.types.get? n = some D)
    (hstatus : D.status = .rendered) :
    ∃ D', b.types.get? n = some D' ∧ D'.content = D.content := by
  obtain ⟨decl, m, hw, hshows⟩ := h.coherent.recorded.shown n D hD hstatus
  obtain ⟨D', hD', hshows'⟩ := h'.coherent.recorded.entries n decl m (hdone hw)
  refine ⟨D', hD', ?_⟩
  rw [Definition.content, Definition.content, hshows.rendered, hshows.text, hshows.references,
    hshows.origin, hshows'.rendered, hshows'.text, hshows'.references, hshows'.origin]

theorem external (h : Finished tree paths a done) {n : String} {D : Definition}
    (hD : a.types.get? n = some D) (hstatus : D.status ≠ .rendered) :
    D.content = (.external, n, [], none) := by
  have hexternal : D.status = .external := by
    cases h.coherent.settled (hD ▸ rfl : (a.types.get? n).isSome) with
    | inl hrendered =>
        obtain ⟨D', hD', hrendered⟩ := Table.status?_eq_some.1 hrendered
        cases hD.symm.trans hD'
        exact absurd hrendered hstatus
    | inr hexternal =>
        obtain ⟨D', hD', hexternal⟩ := Table.status?_eq_some.1 hexternal
        cases hD.symm.trans hD'
        exact hexternal
  obtain ⟨hreferences, horigin, htext⟩ := h.blank n D hD hstatus
  rw [Definition.content, hexternal, hreferences, horigin, htext hexternal]

/-- An entry of the one table has one in the other that shows the same. -/
theorem entry (h : Finished tree paths a done) (h' : Finished tree paths' b done')
    (hdone : done ⊆ done') (hdone' : done' ⊆ done) {n : String} {D : Definition}
    (hD : a.types.get? n = some D) :
    ∃ D', b.types.get? n = some D' ∧ D'.content = D.content := by
  by_cases hstatus : D.status = .rendered
  · exact h.rendered h' hdone hD hstatus
  obtain ⟨q, m, rfl, w, hw, hq⟩ := Reaches.entered h.reached (hD ▸ rfl : (a.types.get? n).isSome)
  have hw' : (w, m) ∈ done' := hdone (by simpa [Moment.works] using hw)
  have hsettled := h'.coherent.settled_of_followed (h'.coherent.met.written w m hw' q hq)
  obtain ⟨D', hD'⟩ : ∃ D', b.types.get? q.name = some D' := by
    obtain hs | hs := hsettled <;> exact (Table.status?_eq_some.1 hs).imp fun _ => And.left
  have hstatus' : D'.status ≠ .rendered := by
    intro hrendered
    obtain ⟨E, hE, hcontent⟩ := h'.rendered h hdone' hD' hrendered
    cases hD.symm.trans hE
    exact hstatus ((congrArg Prod.fst hcontent).trans hrendered)
  exact ⟨D', hD', (h'.external hD' hstatus').trans (h.external hD hstatus).symm⟩

end Finished

/-- Where no two of the modules loaded declare one name, the order in which files are added decides
only the order of the table. The names in it, and of each the status, the text, the references and
the origin, are the same in every order. -/
theorem types_unordered (h : addFiles paths tree {} = (.ok (), a))
    (h' : addFiles paths' tree {} = (.ok (), b)) (hperm : paths.Perm paths')
    (hnames : Unambiguous (a.modules ++ b.modules)) :
    (a.types.entries.map (·.name)).Perm (b.types.entries.map (·.name)) ∧
      ∀ n, (a.types.get? n).map (·.content) = (b.types.get? n).map (·.content) := by
  obtain ⟨done, hdone⟩ := Finished.of_addFiles h
  obtain ⟨done', hdone'⟩ := Finished.of_addFiles h'
  have hsubset := hdone.done_subset hdone' hperm hnames
  have hsubset' := hdone'.done_subset hdone hperm.symm
    fun m hm n hn => hnames m (List.perm_append_comm.mem_iff.1 hm) n
      (List.perm_append_comm.mem_iff.1 hn)
  have hcontent : ∀ n, (a.types.get? n).map (·.content) = (b.types.get? n).map (·.content) := by
    intro n
    cases hD : a.types.get? n with
    | some D =>
        obtain ⟨D', hD', hcontent⟩ := hdone.entry hdone' hsubset hsubset' hD
        rw [hD', Option.map_some, Option.map_some, hcontent]
    | none =>
        cases hD' : b.types.get? n with
        | none => rfl
        | some D' =>
            obtain ⟨D, hD'', -⟩ := hdone'.entry hdone hsubset' hsubset hD'
            cases hD.symm.trans hD''
  refine ⟨(List.perm_ext_iff_of_nodup hdone.coherent.keyed hdone'.coherent.keyed).2 ?_, hcontent⟩
  intro n
  rw [Table.mem_names, Table.mem_names, ← Option.isSome_map, hcontent n, Option.isSome_map]

/-- A project of two modules. Each has a handler, and their types lead from one to the other. -/
def ownedTree : FileTree :=
  ⟨[(["a.ts"], .file (
      "import { Item } from './b'; " ++
      "@LambdaFunction({}) class A extends ApiHandler<Item> { handle() {} } " ++
      "export const a = new A().run;").toUTF8),
    (["b.ts"], .file (
      "interface Item { owner: Owner; at: Date } interface Owner { items: Item[] } " ++
      "@LambdaFunction({}) class B extends ApiHandler<Owner> { handle() {} } " ++
      "export const b = new B().run;").toUTF8)]⟩

def owned (paths : List String) : Analysis := (addFiles paths ownedTree {}).2

theorem owned_ok {paths : List String} (h : (addFiles paths ownedTree {}).1.isOk = true) :
    addFiles paths ownedTree {} = (.ok (), owned paths) := eq_ok_of_isOk h

/-- Modules of a tree are unambiguous if those at different paths have no name in common. -/
theorem unambiguous_of_all {modules : List Module} (hloaded : ∀ m ∈ modules, m.FromTree tree)
    (h : (modules.all fun m => modules.all fun n =>
      m.path == n.path || m.names.all fun name => !n.names.contains name) = true) :
    Unambiguous modules := by
  intro m hm n hn name hname hname'
  obtain ⟨d, hd⟩ := Option.isSome_iff_exists.1 hname
  obtain ⟨d', hd'⟩ := Option.isSome_iff_exists.1 hname'
  obtain hpath | hapart := Bool.or_eq_true_iff.1
    (List.all_eq_true.1 (List.all_eq_true.1 h m hm) n hn)
  · exact (hloaded m hm).eq_of_path (hloaded n hn) (eq_of_beq hpath)
  · have hnot := List.all_eq_true.1 hapart name (Module.mem_names hd)
    rw [List.contains_iff_mem.2 (Module.mem_names hd')] at hnot
    cases hnot

/-- The table has another order, but holds the same. -/
theorem types_unordered_owned :
    (owned ["/a.ts", "/b.ts"]).types.entries.map (·.name) = ["Item", "Owner", "Date"] ∧
      (owned ["/b.ts", "/a.ts"]).types.entries.map (·.name) = ["Owner", "Item", "Date"] ∧
      ∀ n, ((owned ["/a.ts", "/b.ts"]).types.get? n).map (·.content) =
        ((owned ["/b.ts", "/a.ts"]).types.get? n).map (·.content) := by
  have hrun : (addFiles ["/a.ts", "/b.ts"] ownedTree {}).1.isOk = true ∧
      (addFiles ["/b.ts", "/a.ts"] ownedTree {}).1.isOk = true ∧
      (owned ["/a.ts", "/b.ts"]).types.entries.map (·.name) = ["Item", "Owner", "Date"] ∧
      (owned ["/b.ts", "/a.ts"]).types.entries.map (·.name) = ["Owner", "Item", "Date"] ∧
      (((owned ["/a.ts", "/b.ts"]).modules ++ (owned ["/b.ts", "/a.ts"]).modules).all fun m =>
        ((owned ["/a.ts", "/b.ts"]).modules ++ (owned ["/b.ts", "/a.ts"]).modules).all fun n =>
          m.path == n.path || m.names.all fun name => !n.names.contains name) = true := by
    decide +kernel
  obtain ⟨hok, hok', horder, horder', hapart⟩ := hrun
  obtain ⟨_, hfirst⟩ := Finished.of_addFiles (owned_ok hok)
  obtain ⟨_, hsecond⟩ := Finished.of_addFiles (owned_ok hok')
  have hnames := unambiguous_of_all (fun m hm =>
    (List.mem_append.1 hm).elim (hfirst.coherent.loaded m) (hsecond.coherent.loaded m)) hapart
  exact ⟨horder, horder',
    (types_unordered (owned_ok hok) (owned_ok hok') (List.Perm.swap _ _ _) hnames).2⟩

end Analysis

end HandlerWeave
