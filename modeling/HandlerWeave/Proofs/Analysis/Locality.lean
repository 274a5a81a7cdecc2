import HandlerWeave.Proofs.Analysis.References

/-!
Which module the text of a name is taken from. The table knows a name by itself, so all modules that
refer to it share one text: that of a module in which some reference to it was found.
-/
namespace HandlerWeave.Analysis

open Source HandlerWeave.Types

variable {tree : FileTree} {a b : Analysis} {c d : Moment} {paths : List String} {m : Module}
  {q : QualifiedName}

/-- A reference of a text that was begun. -/
def Moment.Refers (c : Moment) (q : QualifiedName) (m : Module) : Prop :=
  ∃ w, (w, m) ∈ c.works ∧ .named q ∈ w.mentions

theorem Step.refers (h : Step tree c d) (hq : c.Refers q m) : d.Refers q m := by
  obtain ⟨w, hw, hmention⟩ := hq
  exact ⟨w, h.works_subset hw, hmention⟩

/-- Whatever is looked for or written, a reference has led there. -/
structure Moment.Justified (tree : FileTree) (c : Moment) : Prop where
  searches : ∀ q m, Call.locating q m ∈ c.calls → c.Refers q m
  declarations : ∀ n decl origin, (Work.declaration n decl, origin) ∈ c.works →
    ∃ q m, q.name = n ∧ c.Refers q m ∧ sought tree q m = .ok (.found origin)

theorem Step.locating (h : Step tree c d) (hcall : Call.locating q m ∈ d.calls) :
    Call.locating q m ∈ c.calls ∨ ∃ w rest, Call.writing w m (.named q :: rest) ∈ c.calls := by
  cases h with
  | filesEnd | bindingsEnd | written | missing => exact .inl (List.mem_cons_of_mem _ hcall)
  | found =>
      exact .inl (List.mem_cons_of_mem _ ((List.mem_cons.1 hcall).resolve_left nofun))
  | file | otherBinding | noEntry | handler | unsupported | known =>
      exact .inl (by simpa using hcall)
  | wanted =>
      cases List.mem_cons.1 hcall with
      | inl heq =>
          cases heq
          exact .inr ⟨_, _, List.mem_cons_self⟩
      | inr hcall => exact .inl (by simpa using hcall)

theorem Step.justified (h : Step tree c d) (hc : c.Coherent tree) (hj : c.Justified tree) :
    d.Justified tree where
  searches q m hcall := by
    obtain hcall | ⟨w, rest, hcall⟩ := h.locating hcall
    · exact h.refers (hj.searches q m hcall)
    · obtain ⟨-, -, hrest⟩ := hc.valid.calls _ hcall
      exact h.refers ⟨w, mem_works.2 (.inr ⟨_, hcall⟩), hrest.subset List.mem_cons_self⟩
  declarations n decl origin hw := by
    have hold : (Work.declaration n decl, origin) ∈ c.works →
        ∃ q m, q.name = n ∧ d.Refers q m ∧ sought tree q m = .ok (.found origin) := by
      intro hw
      obtain ⟨q, m, hn, hq, hfound⟩ := hj.declarations n decl origin hw
      exact ⟨q, m, hn, h.refers hq, hfound⟩
    cases h.works with
    | same hworks => exact hold ((hworks _).1 hw)
    | signature _ _ _ _ hworks =>
        cases (hworks _).1 hw with
        | inl hw => exact hold hw
        | inr heq => cases heq
    | declaration q m origin' decl' hcall hsearch hworks =>
        cases (hworks _).1 hw with
        | inl hw => exact hold hw
        | inr heq =>
            cases heq
            obtain ⟨b, hrun, -⟩ := search_run hc.loaded q m
            rw [hrun] at hsearch
            exact ⟨q, m, rfl, h.refers (hj.searches q m hcall), hsearch⟩

theorem filesStart_justified (tree : FileTree) (paths : List String) :
    (filesStart paths).Justified tree :=
  ⟨by simp [filesStart], by simp [filesStart, Moment.works, Call.work?]⟩

theorem Reaches.justified (h : Reaches tree c d) (hc : c.Coherent tree) (hj : c.Justified tree) :
    d.Justified tree := by
  induction h with
  | refl => exact hj
  | tail hreach hstep ih => exact hstep.justified (Reaches.coherent hreach hc) ih

variable {done : List (Work × Module)}

/-- The text of a name is that of a module in which a reference printed was found. -/
theorem Moment.Coherent.located (hc : Moment.Coherent tree ⟨[], a, done⟩)
    (hj : Moment.Justified tree ⟨[], a, done⟩) {n : String} {D : Definition}
    (hD : a.types.get? n = some D) (hstatus : D.status = .rendered) :
    ∃ m q origin, Prints a m q ∧ q.name = n ∧ (search q m tree a).1 = .ok (.found origin) ∧
      D.origin = some origin.path := by
  obtain ⟨decl, origin, hw, hshows⟩ := hc.recorded.shown n D hD hstatus
  obtain ⟨q, m, hn, ⟨w, hwork, hq⟩, hfound⟩ :=
    hj.declarations n decl origin (mem_works.2 (.inl hw))
  have hwritten : (w, m) ∈ done := by simpa [Moment.works] using hwork
  exact ⟨m, q, origin, hc.prints_iff.2 ⟨w, hwritten, hq⟩, hn, (hc.search_eq q m).trans hfound,
    hshows.origin⟩

/-- A reference that is found leads to a module loaded from the tree. -/
theorem Moment.Coherent.found_fromTree (hc : Moment.Coherent tree ⟨[], a, done⟩)
    (h : Prints a m q) {origin : Module} (hfound : (search q m tree a).1 = .ok (.found origin)) :
    origin.FromTree tree := by
  obtain ⟨w, hw, hq⟩ := hc.prints_iff.1 h
  obtain ⟨hm, -⟩ := hc.sourced w m (mem_works.2 (.inl hw))
  rw [hc.search_eq] at hfound
  obtain rfl | hfrom := (seek_found hfound).2
  · exact hc.loaded _ hm
  · exact hfrom

/-- Names are rendered for the whole analysis, not for one module. A name has a text exactly if some
reference to it that is printed is found, and the text is taken from the module found by one of
these. All of them are found there exactly if they all have one outcome. -/
theorem rendered_iff_located (h : addFiles paths tree {} = (.ok (), a)) (n : String) :
    (a.types.status? n = some .rendered ↔ ∃ m q origin, Prints a m q ∧ q.name = n ∧
      (search q m tree a).1 = .ok (.found origin)) ∧
    ∀ D, a.types.get? n = some D → D.status = .rendered →
      (∃ m q origin, Prints a m q ∧ q.name = n ∧ (search q m tree a).1 = .ok (.found origin) ∧
        D.origin = some origin.path) ∧
      ((∀ m q, Prints a m q → q.name = n → ∃ origin,
          (search q m tree a).1 = .ok (.found origin) ∧ D.origin = some origin.path) ↔
        ∀ m q m' q', Prints a m q → q.name = n → Prints a m' q' → q'.name = n →
          (search q m tree a).1 = (search q' m' tree a).1) := by
  obtain ⟨done, hreach⟩ := addFiles_reaches h
  have hstart := filesStart_coherent tree paths
  have hc := Reaches.coherent hreach hstart
  have hj := Reaches.justified hreach hstart (filesStart_justified tree paths)
  constructor
  · constructor
    · intro hn
      obtain ⟨D, hD, hstatus⟩ := Table.status?_eq_some.1 hn
      obtain ⟨m, q, origin, hprints, hname, hfound, -⟩ := hc.located hj hD hstatus
      exact ⟨m, q, origin, hprints, hname, hfound⟩
    · rintro ⟨m, q, origin, hprints, rfl, hfound⟩
      exact hc.rendered_of_prints hprints hfound
  · intro D hD hstatus
    obtain ⟨m₀, q₀, origin₀, hprints₀, hname₀, hfound₀, horigin₀⟩ := hc.located hj hD hstatus
    refine ⟨⟨m₀, q₀, origin₀, hprints₀, hname₀, hfound₀, horigin₀⟩, ?_, ?_⟩
    · intro hlocal m q m' q' hprints hname hprints' hname'
      obtain ⟨origin, hfound, horigin⟩ := hlocal m q hprints hname
      obtain ⟨origin', hfound', horigin'⟩ := hlocal m' q' hprints' hname'
      have heq : origin = origin' :=
        (hc.found_fromTree hprints hfound).eq_of_path (hc.found_fromTree hprints' hfound')
          (Option.some.inj (horigin.symm.trans horigin'))
      rw [hfound, hfound', heq]
    · intro hagree m q hprints hname
      exact ⟨origin₀, (hagree m q m₀ q₀ hprints hname hprints₀ hname₀).trans hfound₀, horigin₀⟩

/-- A project of two modules with handlers that answer with an `Item`: to one of them it is a type
of a package, the other one declares it. -/
def twoItemsTree : FileTree :=
  ⟨[(["a.ts"], .file (
      "import { Item } from 'pkg'; " ++
      "@LambdaFunction({}) class A extends ApiHandler<Item> { handle() {} } " ++
      "export const a = new A().run;").toUTF8),
    (["b.ts"], .file (
      "interface Item { id: string } " ++
      "@LambdaFunction({}) class B extends ApiHandler<Item> { handle() {} } " ++
      "export const b = new B().run;").toUTF8)]⟩

def twoItems : Analysis := (addFiles ["/a.ts", "/b.ts"] twoItemsTree {}).2

/-- The handler class `A` of a module names an `Item` that is not found from there. -/
def missesItem (m : Module) : Bool :=
  match m.class? "A", (m.class? "A").bind (·.method? Handler.entryName) with
  | some c, some method =>
    (Handler.mentionsOf c method).contains (.named ⟨none, "Item"⟩) &&
      match (search ⟨none, "Item"⟩ m twoItemsTree twoItems).1 with
      | .ok (.missing _) => true
      | _ => false
  | _, _ => false

theorem twoItems_run :
    (addFiles ["/a.ts", "/b.ts"] twoItemsTree {}).1.isOk = true ∧
      twoItems.types.status? "Item" = some .rendered ∧
      (twoItems.handlers.any fun h => h.name == "A" && h.sourcePath == "/a.ts") = true ∧
      (twoItems.modules.all fun m => m.path != "/a.ts" || missesItem m) = true := by
  decide +kernel

theorem twoItems_ok : addFiles ["/a.ts", "/b.ts"] twoItemsTree {} = (.ok (), twoItems) :=
  eq_ok_of_isOk twoItems_run.1

theorem rendered_iff_located_twoItems :
    addFiles ["/a.ts", "/b.ts"] twoItemsTree {} = (.ok (), twoItems) ∧
      ∃ m q origin, Prints twoItems m q ∧ q.name = "Item" ∧
        (search q m twoItemsTree twoItems).1 = .ok (.found origin) :=
  ⟨twoItems_ok, ((rendered_iff_located twoItems_ok "Item").1.1 twoItems_run.2.1)⟩

/-- A reference to a type of a package may be printed with the text of another module's type. -/
theorem imports_not_local :
    ¬ ∀ (tree : FileTree) (paths : List String) (a : Analysis),
      addFiles paths tree {} = (.ok (), a) → ∀ m q D, Prints a m q →
        a.types.get? q.name = some D → D.status = .rendered →
          ∃ origin, (search q m tree a).1 = .ok (.found origin) ∧ D.origin = some origin.path := by
  intro hlocal
  obtain ⟨-, hstatus, hhandler, hmodule⟩ := twoItems_run
  obtain ⟨done, hreach⟩ := addFiles_reaches twoItems_ok
  have hc := Reaches.coherent hreach (filesStart_coherent twoItemsTree _)
  obtain ⟨h, hh, hname⟩ := List.any_eq_true.1 hhandler
  obtain ⟨hname, hpath⟩ := Bool.and_eq_true_iff.1 hname
  obtain ⟨m, hm, c, method, hread, -⟩ := hc.handler_read hh
  have hmiss : missesItem m = true := by
    have hall := List.all_eq_true.1 hmodule m hm
    have hmpath : m.path = "/a.ts" :=
      (congrArg Handler.sourcePath hread.eq).symm.trans (eq_of_beq hpath)
    simpa [hmpath] using hall
  have hclass : m.class? "A" = some c := eq_of_beq hname ▸ hread.class_eq
  simp only [missesItem, hclass, Option.bind_some, hread.method_eq, Bool.and_eq_true] at hmiss
  obtain ⟨hmention, hsearch⟩ := hmiss
  obtain ⟨D, hD, hstatus⟩ := Table.status?_eq_some.1 hstatus
  obtain ⟨origin, hfound, -⟩ := hlocal twoItemsTree _ twoItems twoItems_ok m ⟨none, "Item"⟩ D
    (.signature hh hm hread (List.contains_iff_mem.1 hmention)) hD hstatus
  rw [hfound] at hsearch
  cases hsearch

end HandlerWeave.Analysis
