import HandlerWeave.Proofs.Types.Visits

/-!
Following imports. The module that a search finds is the end of a chain of modules, each of which
imports the name from the next one, and the first on it that declares the name; and where there is
such a chain that enters no module twice, the search finds its end. A search that can open every
file it comes to has no other outcome than this and a missing name.
-/
namespace HandlerWeave.Types

open Source Analysis

/-- The import of `m` that is about the name: with a qualifier the one that binds a module as a
whole to it, else the first one that binds the name itself, if it does not rename it. -/
def IsImportOf (name : String) (qualifier : Option String) (m : Module) (i : Import) : Prop :=
  match qualifier with
  | some qualifier => m.importAs? qualifier = some i
  | none => ∃ s, m.importNaming? name = some (i, s) ∧ s.imported = s.bound

theorem nextImport_ok_iff {name : String} {qualifier : Option String} {m : Module} {i : Import} :
    nextImport m qualifier name = .ok i ↔ IsImportOf name qualifier m i ∧ i.isRelative := by
  unfold nextImport IsImportOf
  cases qualifier with
  | some qualifier => cases m.importAs? qualifier <;> grind
  | none =>
      cases m.importNaming? name with
      | none => simp
      | some pair => obtain ⟨j, s⟩ := pair; grind

/-- From the state `a` the import of `m` leads to the module `n`. -/
def Opens (tree : FileTree) (a : Analysis) (m : Module) (i : Import) (n : Module) : Prop :=
  (openModule (importedFile tree m.directory i.source) tree a).1 = .ok n

/-- The import of `m` that is about the name points into the project, to the module `n`. -/
def Passes (tree : FileTree) (a : Analysis) (name : String) (qualifier : Option String)
    (m n : Module) : Prop :=
  ∃ i, IsImportOf name qualifier m i ∧ i.isRelative ∧ Opens tree a m i n

/-- The modules from `m` to `k`, where each but the last imports the name from the next. A qualifier
is about the first step only, which is made whether or not `m` declares the name. -/
inductive Chain (tree : FileTree) (a : Analysis) (name : String) :
    Option String → Module → List Module → Module → Prop
  | declared {m : Module} (h : (m.declaration? name).isSome) : Chain tree a name none m [m] m
  | passed {qualifier : Option String} {m n k : Module} {ms : List Module}
      (hnew : qualifier = none → m.declaration? name = none)
      (hpass : Passes tree a name qualifier m n) (hrest : Chain tree a name none n ms k) :
      Chain tree a name qualifier m (m :: ms) k

/-- A chain of modules at distinct paths leads from `m` to `k`. -/
def Leads (tree : FileTree) (a : Analysis) (q : QualifiedName) (m k : Module) : Prop :=
  ∃ ms, Chain tree a q.name q.qualifier m ms k ∧ (ms.map Module.path).Nodup

/-- Looking for the name one comes to the module `k`, with this qualifier still to be used. -/
inductive OnWay (tree : FileTree) (a : Analysis) (q : QualifiedName) (m : Module) :
    Option String → Module → Prop
  | start : OnWay tree a q m q.qualifier m
  | step {qualifier : Option String} {k n : Module} (h : OnWay tree a q m qualifier k)
      (hnew : qualifier = none → k.declaration? q.name = none)
      (hpass : Passes tree a q.name qualifier k n) : OnWay tree a q m none n

/-- Wherever one comes, the file to go on with can be opened. -/
def Openable (tree : FileTree) (a : Analysis) (q : QualifiedName) (m : Module) : Prop :=
  ∀ qualifier k i, OnWay tree a q m qualifier k →
    (qualifier = none → k.declaration? q.name = none) → IsImportOf q.name qualifier k i →
      i.isRelative → ∃ n, Opens tree a k i n

variable {tree : FileTree} {a b : Analysis} {name : String} {qualifier : Option String}
  {m n k : Module} {ms : List Module} {i : Import}

/-- What has been loaded since makes no difference to what a path is opened as. -/
theorem openModule_eq_of_loads (h : Loads tree a b) (path : String) :
    (openModule path tree b).1 = (openModule path tree a).1 := by
  obtain ⟨new, rfl, hnew⟩ := h
  rw [openModule_run, openModule_run]
  cases hkey : tree.canonicalize path with
  | error e => rfl
  | ok key =>
      have hfind : ({ a with modules := a.modules ++ new } : Analysis).module? key =
          (a.module? key).or (({ modules := new } : Analysis).module? key) := List.find?_append
      simp only [hfind]
      cases a.module? key with
      | some known => rfl
      | none =>
          cases hnow : ({ modules := new } : Analysis).module? key with
          | none => cases tree.module path <;> rfl
          | some known =>
              have hloaded : Loaded tree { modules := new } := hnew
              simp [hloaded.module_eq hkey hnow]

theorem IsImportOf.unique {i j : Import} (hi : IsImportOf name qualifier m i)
    (hj : IsImportOf name qualifier m j) : i = j := by
  unfold IsImportOf at hi hj
  cases qualifier with
  | some qualifier => exact Option.some.inj (hi.symm.trans hj)
  | none =>
      obtain ⟨s, hs, -⟩ := hi
      obtain ⟨t, ht, -⟩ := hj
      cases hs.symm.trans ht
      rfl

theorem Passes.unique (hn : Passes tree a name qualifier m n)
    (hk : Passes tree a name qualifier m k) : n = k := by
  obtain ⟨i, hi, -, hopen⟩ := hn
  obtain ⟨j, hj, -, hopen'⟩ := hk
  obtain rfl := hi.unique hj
  exact Except.ok.inj (hopen.symm.trans hopen')

/-- A chain starts where the search does. -/
theorem Chain.eq_cons (h : Chain tree a name qualifier m ms k) : ∃ rest, ms = m :: rest := by
  cases h with
  | declared => exact ⟨[], rfl⟩
  | passed => exact ⟨_, rfl⟩

/-- A chain from a module where the search goes on goes on to the same module. -/
theorem Chain.of_passes (h : Chain tree a name qualifier m ms k)
    (hdeclared : (qualifier.isNone && (m.declaration? name).isSome) = false)
    (hpass : Passes tree a name qualifier m n) :
    ∃ rest, ms = m :: rest ∧ Chain tree a name none n rest k := by
  cases h with
  | declared h => simp [h] at hdeclared
  | passed _ hpass' hrest =>
      cases hpass.unique hpass'
      exact ⟨_, rfl, hrest⟩

/-- Two chains from one module are one chain. -/
theorem Chain.of_declared (h : Chain tree a name none m ms k)
    (hdeclared : (m.declaration? name).isSome) : ms = [m] ∧ k = m := by
  cases h with
  | declared => exact ⟨rfl, rfl⟩
  | passed hnew => simp [hnew rfl] at hdeclared

theorem Chain.passes (h : Chain tree a name qualifier m ms k)
    (hdeclared : (qualifier.isNone && (m.declaration? name).isSome) = false) :
    ∃ n, Passes tree a name qualifier m n := by
  cases h with
  | declared h => simp [h] at hdeclared
  | passed _ hpass => exact ⟨_, hpass⟩

/-- The modules of a chain are at paths that are new, each to all before it and to `visited`. -/
def Fresh (visited : List String) (ms : List Module) : Prop :=
  (ms.map Module.path).Nodup ∧ ∀ x ∈ ms, x.path ∉ visited

theorem fresh_cons {visited : List String} :
    Fresh visited (m :: ms) ↔ m.path ∉ visited ∧ Fresh (m.path :: visited) ms := by
  simp only [Fresh, List.map_cons, List.nodup_cons, List.mem_map, List.mem_cons, not_or]
  grind

/-- A search finds `k` exactly if a chain through new modules leads there. -/
theorem Visits.found_iff {visited entered : List String} {c : Analysis}
    {result : Except ModuleError SearchResult × Analysis}
    (h : Visits tree name visited qualifier m c entered result) (hload : Loads tree a c)
    (k : Module) :
    result.1 = .ok (.found k) ↔
      ∃ ms, Chain tree a name qualifier m ms k ∧ Fresh visited ms := by
  induction h with
  | again hvisited =>
      refine ⟨nofun, ?_⟩
      rintro ⟨ms, hchain, hfresh⟩
      obtain ⟨rest, rfl⟩ := hchain.eq_cons
      exact absurd hvisited (fresh_cons.1 hfresh).1
  | declared hnew hdeclared =>
      constructor
      · rintro ⟨⟩
        exact ⟨_, .declared hdeclared, fresh_cons.2 ⟨hnew, List.nodup_nil, by simp⟩⟩
      · rintro ⟨ms, hchain, -⟩
        rw [(hchain.of_declared hdeclared).2]
  | noImport _ hdeclared hnext =>
      refine ⟨nofun, ?_⟩
      rintro ⟨ms, hchain, -⟩
      obtain ⟨n, i, hi, hrelative, -⟩ := hchain.passes hdeclared
      cases hnext.symm.trans (nextImport_ok_iff.2 ⟨hi, hrelative⟩)
  | notOpened _ hdeclared hnext hopen =>
      refine ⟨nofun, ?_⟩
      rintro ⟨ms, hchain, -⟩
      obtain ⟨n, i, hi, hrelative, hopens⟩ := hchain.passes hdeclared
      cases hnext.symm.trans (nextImport_ok_iff.2 ⟨hi, hrelative⟩)
      rw [Opens, ← openModule_eq_of_loads hload, hopen] at hopens
      cases hopens
  | next hnew hdeclared hnext hopen _ ih =>
      obtain ⟨hi, hrelative⟩ := nextImport_ok_iff.1 hnext
      have hopens := (openModule_eq_of_loads hload _).symm.trans (congrArg Prod.fst hopen)
      have hpass : Passes tree a _ _ _ _ := ⟨_, hi, hrelative, hopens⟩
      rw [ih (hload.trans (openModule_loads hopen).1)]
      constructor
      · rintro ⟨ms, hchain, hfresh⟩
        exact ⟨_, .passed (by simpa using hdeclared) hpass hchain, fresh_cons.2 ⟨hnew, hfresh⟩⟩
      · rintro ⟨ms, hchain, hfresh⟩
        obtain ⟨rest, rfl, hrest⟩ := hchain.of_passes hdeclared hpass
        exact ⟨rest, hrest, (fresh_cons.1 hfresh).2⟩

/-- Where every file can be opened, a search comes to an end without a failure. -/
theorem Visits.ok {q : QualifiedName} {start : Module} {visited entered : List String}
    {c : Analysis} {result : Except ModuleError SearchResult × Analysis}
    (hopen : Openable tree a q start)
    (h : Visits tree q.name visited qualifier m c entered result) (hload : Loads tree a c)
    (hway : OnWay tree a q start qualifier m) : ∃ found, result.1 = .ok found := by
  induction h with
  | again | declared | noImport => exact ⟨_, rfl⟩
  | notOpened _ hdeclared hnext hfails =>
      obtain ⟨hi, hrelative⟩ := nextImport_ok_iff.1 hnext
      obtain ⟨n, hopens⟩ := hopen _ _ _ hway (by simpa using hdeclared) hi hrelative
      rw [Opens, ← openModule_eq_of_loads hload, hfails] at hopens
      cases hopens
  | next _ hdeclared hnext hopened _ ih =>
      obtain ⟨hi, hrelative⟩ := nextImport_ok_iff.1 hnext
      have hopens := (openModule_eq_of_loads hload _).symm.trans (congrArg Prod.fst hopened)
      exact ih (hload.trans (openModule_loads hopened).1)
        (hway.step (by simpa using hdeclared) ⟨_, hi, hrelative, hopens⟩)

/-- Where every file on the way can be opened, a search finds exactly the module at the end of a
chain of imports through distinct modules, and else finds the name missing. -/
theorem search_found_iff (tree : FileTree) (a : Analysis) (q : QualifiedName) (m : Module)
    (hopen : Openable tree a q m) :
    (∀ k, (search q m tree a).1 = .ok (.found k) ↔ Leads tree a q m k) ∧
      ((¬ ∃ k, Leads tree a q m k) → ∃ why, (search q m tree a).1 = .ok (.missing why)) := by
  obtain ⟨entered, -, hvisits⟩ := search_visits tree q m a
  have hfound (k : Module) :
      (search q m tree a).1 = .ok (.found k) ↔ Leads tree a q m k := by
    rw [hvisits.found_iff .refl k]
    simp [Leads, Fresh]
  refine ⟨hfound, fun hnone => ?_⟩
  obtain ⟨result, hresult⟩ := hvisits.ok hopen .refl .start
  cases result with
  | found k => exact absurd ⟨k, (hfound k).1 hresult⟩ hnone
  | missing why => exact ⟨why, hresult⟩

/-- A module that passes on an `Item`, and the one that declares it and imports it in turn. -/
def relayTree : FileTree :=
  ⟨[(["index.ts"], .file "import { Item } from './item';".toUTF8),
    (["item.ts"], .file
      "import { Item } from './index'; export interface Item { id: string }".toUTF8)]⟩

/-- A module that imports the first of them as a whole. -/
def relayStart : Module := ⟨"/main.ts", [], [⟨"./index", .whole "models"⟩], [], []⟩

def relayed (path : String) : Module :=
  ((openModule path relayTree {}).1.toOption).getD relayStart

theorem opens_relayed {path : String}
    (h : importedFile relayTree m.directory i.source = path ∧
      (openModule path relayTree {}).1.isOk = true) : Opens relayTree {} m i (relayed path) := by
  obtain ⟨rfl, hok⟩ := h
  rw [Opens, relayed]
  cases hopen : (openModule (importedFile relayTree m.directory i.source) relayTree {}).1 with
  | error e => rw [hopen] at hok; cases hok
  | ok n => rfl

theorem relayStart_passes :
    Passes relayTree {} "Item" (some "models") relayStart (relayed "/./index.ts") :=
  ⟨⟨"./index", .whole "models"⟩, rfl, rfl, opens_relayed (by decide +kernel)⟩

theorem relayed_passes : (relayed "/./index.ts").declaration? "Item" = none ∧
    Passes relayTree {} "Item" none (relayed "/./index.ts") (relayed "/./item.ts") := by
  have himport : (relayed "/./index.ts").importNaming? "Item" =
      some (⟨"./item", .names [⟨"Item", "Item"⟩]⟩, ⟨"Item", "Item"⟩) := by decide +kernel
  refine ⟨Option.isNone_iff_eq_none.1 (by decide +kernel), _, ⟨_, himport, rfl⟩, rfl, ?_⟩
  exact opens_relayed (by decide +kernel)

theorem relayed_declares : ((relayed "/./item.ts").declaration? "Item").isSome = true := by
  decide +kernel

theorem relay_openable : Openable relayTree {} ⟨some "models", "Item"⟩ relayStart := by
  have hway : ∀ qualifier k, OnWay relayTree {} ⟨some "models", "Item"⟩ relayStart qualifier k →
      (qualifier = some "models" ∧ k = relayStart) ∨
        (qualifier = none ∧ (k = relayed "/./index.ts" ∨ k = relayed "/./item.ts")) := by
    intro qualifier k h
    induction h with
    | start => exact .inl ⟨rfl, rfl⟩
    | step _ hnew hpass ih =>
        obtain ⟨rfl, rfl⟩ | ⟨rfl, rfl | rfl⟩ := ih
        · exact .inr ⟨rfl, .inl (hpass.unique relayStart_passes)⟩
        · exact .inr ⟨rfl, .inr (hpass.unique relayed_passes.2)⟩
        · have hdeclared := relayed_declares
          rw [hnew rfl] at hdeclared
          cases hdeclared
  intro qualifier k i h hnew hi hrelative
  obtain ⟨rfl, rfl⟩ | ⟨rfl, rfl | rfl⟩ := hway qualifier k h
  · obtain ⟨j, hj, -, hopens⟩ := relayStart_passes
    exact ⟨_, hi.unique hj ▸ hopens⟩
  · obtain ⟨-, j, hj, -, hopens⟩ := relayed_passes
    exact ⟨_, hi.unique hj ▸ hopens⟩
  · have hdeclared := relayed_declares
    rw [hnew rfl] at hdeclared
    cases hdeclared

theorem search_found_iff_relay :
    Openable relayTree {} ⟨some "models", "Item"⟩ relayStart ∧
      Leads relayTree {} ⟨some "models", "Item"⟩ relayStart (relayed "/./item.ts") ∧
      (search ⟨some "models", "Item"⟩ relayStart relayTree {}).1 =
        .ok (.found (relayed "/./item.ts")) := by
  have hleads : Leads relayTree {} ⟨some "models", "Item"⟩ relayStart (relayed "/./item.ts") :=
    ⟨_, .passed nofun relayStart_passes (.passed (fun _ => relayed_passes.1) relayed_passes.2
      (.declared relayed_declares)), by decide +kernel⟩
  exact ⟨relay_openable, hleads,
    ((search_found_iff relayTree {} _ relayStart relay_openable).1 _).2 hleads⟩

end HandlerWeave.Types
