import HandlerWeave.Proofs.Types.Rendering
import HandlerWeave.Proofs.Types.Search
import HandlerWeave.Proofs.Types.Table

/-!
Chains of declarations that lead from one to the next. A name on such a chain is pending and is not
started again, so a chain is no longer than there are names declared, and the bound on it is never
what ends it.
-/
namespace HandlerWeave

open Source Analysis

variable {tree : FileTree} {a b c : Analysis}

namespace Module

def names (m : Module) : List String := m.declarations.map (·.name)

theorem mem_of_foldl_pick {α : Type} {pick : Option α → α → Option α}
    (hpick : ∀ best x, pick best x = best ∨ pick best x = some x) {xs : List α} {best : Option α}
    {y : α} (h : xs.foldl pick best = some y) : best = some y ∨ y ∈ xs := by
  induction xs generalizing best with
  | nil => exact .inl h
  | cons x xs ih =>
      cases ih h with
      | inr hmem => exact .inr (List.mem_cons_of_mem _ hmem)
      | inl hbest =>
          cases hpick best x with
          | inl hkept => exact .inl (hkept ▸ hbest)
          | inr hnew =>
              cases hnew.symm.trans hbest
              exact .inr List.mem_cons_self

theorem declaration?_mem {m : Module} {name : String} {d : Declaration}
    (h : m.declaration? name = some d) : d ∈ m.declarations ∧ d.name = name := by
  have hmem : d ∈ m.declarations.filter (·.name == name) := by
    refine (mem_of_foldl_pick ?pick h).resolve_left nofun
    case pick =>
      intro best x
      cases best with
      | none => exact .inr rfl
      | some b =>
          dsimp only
          split
          · exact .inr rfl
          · exact .inl rfl
  simpa using List.mem_filter.1 hmem

theorem mem_names {m : Module} {name : String} {d : Declaration}
    (h : m.declaration? name = some d) : name ∈ m.names := by
  obtain ⟨hmem, rfl⟩ := declaration?_mem h
  exact List.mem_map_of_mem hmem

end Module

namespace Types

/-- Every declaration that a run from `a` can come to is named in `names`. -/
structure Universe (tree : FileTree) (names : List String) (a : Analysis) : Prop where
  files : ∀ m : Module, m.FromTree tree → m.names ⊆ names
  loaded : ∀ m ∈ a.modules, m.names ⊆ names

def nodeNames : Node → List String
  | .file contents =>
    match (String.fromUTF8? contents).map parse with
    | some (.ok items) => (items.filterMap Declaration.ofItem?).map (·.name)
    | _ => []
  | _ => []

theorem nodeNames_length (node : Node) : (nodeNames node).length ≤ nodeBound node := by
  cases node with
  | directory | link target => exact Nat.zero_le _
  | file contents =>
      simp only [nodeNames]
      cases htext : String.fromUTF8? contents with
      | none => exact Nat.zero_le _
      | some text =>
          cases hitems : parse text with
          | error e => simp [hitems]
          | ok items =>
              have hdecls := List.length_filterMap_le Declaration.ofItem? items
              have hlen := parse_length hitems
              have hbytes := Text.length_le_of_fromUTF8 htext
              simp only [Option.map_some, hitems, List.length_map, nodeBound]
              omega

/-- The names declared in `m`, in the modules known and in the files of the tree. -/
def declaredNames (tree : FileTree) (a : Analysis) (m : Module) : List String :=
  tree.entries.flatMap (fun entry => nodeNames entry.2) ++ (m :: a.modules).flatMap Module.names

theorem universe_declaredNames (tree : FileTree) (a : Analysis) (m : Module) :
    Universe tree (declaredNames tree a m) a where
  files n hn := by
    obtain ⟨place, contents, text, items, hmem, htext, hitems, hdecls⟩ := hn.declarations_length
    intro name hname
    refine List.mem_append_left _ (List.mem_flatMap.2 ⟨_, hmem, ?_⟩)
    simpa only [nodeNames, htext, Option.map_some, hitems, ← hdecls, Module.names] using hname
  loaded n hn name hname :=
    List.mem_append_right _ (List.mem_flatMap.2 ⟨n, List.mem_cons_of_mem _ hn, hname⟩)

theorem names_subset_declaredNames (tree : FileTree) (a : Analysis) (m : Module) :
    m.names ⊆ declaredNames tree a m := fun _ hname =>
  List.mem_append_right _ (List.mem_flatMap.2 ⟨m, List.mem_cons_self, hname⟩)

theorem length_flatMap_le {α β : Type} {f : α → List β} {size : α → Nat}
    (h : ∀ x, (f x).length ≤ size x) (xs : List α) : (xs.flatMap f).length ≤ total size xs := by
  induction xs with
  | nil => exact Nat.le_refl 0
  | cons x xs ih =>
      have hx := h x
      simp only [List.flatMap_cons, List.length_append, total]
      omega

theorem declaredNames_length_lt (tree : FileTree) (a : Analysis) (m : Module) :
    ∃ bound, chainBound m tree a = (.ok bound, a) ∧ (declaredNames tree a m).length < bound := by
  refine ⟨_, chainBound_run tree a m, ?_⟩
  have hnode : ∀ entry : Place × Node, (nodeNames entry.2).length ≤ nodeBound entry.2 :=
    fun entry => nodeNames_length entry.2
  have hmodule : ∀ n : Module, n.names.length ≤ n.declarations.length + 1 := by
    intro n
    simp [Module.names]
  have hfiles := length_flatMap_le hnode tree.entries
  have hloaded := length_flatMap_le hmodule (m :: a.modules)
  simp only [declaredNames, List.length_append]
  omega

/-- The names that no definition is under way for. -/
def idle (names : List String) (t : Table) : List String :=
  names.filter fun n => t.status? n != some .pending

theorem idle_start_lt {names : List String} {t : Table} {name : String} (hname : name ∈ names)
    (hwanted : t.wanted name = true) :
    (idle names (t.start name)).length < (idle names t).length := by
  have hidle : t.status? name ≠ some .pending := by
    intro hpending
    rw [Table.wanted_eq_false.2 (.inl hpending)] at hwanted
    cases hwanted
  apply length_filter_lt hname
  · simpa using hidle
  · simp [Table.status?_start hwanted]
  · intro other hother
    rw [Table.status?_start hwanted] at hother
    split at hother
    · cases hother
    · exact hother

theorem idle_le {names : List String} {t u : Table}
    (h : ∀ n, t.status? n = some .pending → u.status? n = some .pending) :
    (idle names u).length ≤ (idle names t).length := by
  simp only [idle, ← List.countP_eq_length_filter]
  apply List.countP_mono_left
  intro n _ hn
  simp only [bne_iff_ne] at hn ⊢
  exact fun ht => hn (h n ht)

end Types

end HandlerWeave
