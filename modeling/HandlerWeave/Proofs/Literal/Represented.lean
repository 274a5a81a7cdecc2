import HandlerWeave.Proofs.Literal.Unsupported
import HandlerWeave.Proofs.Analysis.Run

/-!
Values that hold all of an expression. Where evaluation lists nothing as unsupported, each item and
each key of the expression has its value, and each of these its form in YAML.
-/
namespace HandlerWeave.Literal

open Source

/-- The value holds every item and, of the members with one key, the last one, in the place of the
first. -/
inductive Represents : Expr → Literal → Prop
  | string (s : String) : Represents (.string s) (.string s)
  | template (text : String) : Represents (.template text false) (.string text)
  | bool (b : Bool) : Represents (.bool b) (.bool b)
  | number {text : String} {f : Float} (h : numberValue? text = some f) :
      Represents (.number text) (.number f)
  | negative {text : String} {f : Float} (h : numberValue? text = some f) :
      Represents (.negate (.number text)) (.number (-f))
  | array {parts : List (Expr × Literal)} (h : ∀ x ∈ parts, Represents x.1 x.2) :
      Represents (.array (parts.map Prod.fst)) (.array (parts.map Prod.snd))
  | object {parts : List (String × Expr × Literal)} (h : ∀ x ∈ parts, Represents x.2.1 x.2.2) :
      Represents (.object (parts.map fun x => .property x.1 x.2.1))
        (.object (lastEntries (parts.map fun x => (x.1, x.2.2))))

/-- Nothing in the value is unknown, at any depth. -/
inductive Known : Literal → Prop
  | string (s : String) : Known (.string s)
  | number (f : Float) : Known (.number f)
  | bool (b : Bool) : Known (.bool b)
  | array {items : List Literal} (h : ∀ v ∈ items, Known v) : Known (.array items)
  | object {entries : List (String × Literal)} (h : ∀ entry ∈ entries, Known entry.2) :
      Known (.object entries)

/-- The form in YAML has an element for each item and an entry for each entry, in their order, and
none of them is a null. -/
inductive Shows : Literal → Yaml → Prop
  | string (s : String) : Shows (.string s) (stringToYaml s)
  | number (f : Float) : Shows (.number f) (numberToYaml f)
  | bool (b : Bool) : Shows (.bool b) (.bool b)
  | array {parts : List (Literal × Yaml)} (h : ∀ x ∈ parts, Shows x.1 x.2)
      (hnull : ∀ x ∈ parts, x.2 ≠ .null) :
      Shows (.array (parts.map Prod.fst)) (.sequence (parts.map Prod.snd))
  | object {parts : List (String × Literal × Yaml)} (h : ∀ x ∈ parts, Shows x.2.1 x.2.2)
      (hnull : ∀ x ∈ parts, x.2.2 ≠ .null) :
      Shows (.object (parts.map fun x => (x.1, x.2.1)))
        (.mapping (parts.map fun x => (.string x.1, x.2.2)))

theorem Represents.known {e : Expr} {v : Literal} (h : Represents e v) : v.Known := by
  induction h with
  | string => exact .string _
  | template => exact .string _
  | bool => exact .bool _
  | number | negative => exact .number _
  | array _ ih => exact .array (List.forall_mem_map.2 ih)
  | @object parts _ ih =>
      refine .object fun entry hentry => ?_
      obtain ⟨key, -, hlast⟩ := List.mem_filterMap.1 hentry
      obtain ⟨x, hx, rfl⟩ := List.mem_map.1 (lastOf?_mem hlast).1
      exact ih x hx

theorem stringToYaml_ne_null (s : String) : stringToYaml s ≠ .null := by
  unfold stringToYaml
  split <;> nofun

theorem numberToYaml_ne_null (f : Float) : numberToYaml f ≠ .null := by
  unfold numberToYaml
  split
  · split <;> nofun
  · nofun

theorem Shows.ne_null {v : Literal} {y : Yaml} (h : Shows v y) : y ≠ .null := by
  cases h with
  | string s => exact stringToYaml_ne_null s
  | number f => exact numberToYaml_ne_null f
  | bool | array | object => nofun

theorem itemsToYaml_eq (items : List Literal) :
    itemsToYaml items = items.map fun v => v.toYaml?.getD .null := by
  induction items with
  | nil => rfl
  | cons v items ih => rw [itemsToYaml, ih, List.map_cons]

theorem entriesToYaml_eq {entries : List (String × Literal)}
    (h : ∀ entry ∈ entries, entry.2.toYaml?.isSome) :
    entriesToYaml entries =
      entries.map fun entry => (.string entry.1, entry.2.toYaml?.getD .null) := by
  induction entries with
  | nil => rfl
  | cons entry entries ih =>
      obtain ⟨hentry, hentries⟩ := List.forall_mem_cons.1 h
      obtain ⟨y, hy⟩ := Option.isSome_iff_exists.1 hentry
      obtain ⟨key, v⟩ := entry
      rw [entriesToYaml, hy, ih hentries, List.map_cons, hy]
      rfl

/-- A known value has a form in YAML that shows all of it. -/
theorem Known.shows {v : Literal} (h : v.Known) : ∃ y, v.toYaml? = some y ∧ Shows v y := by
  have hform : ∀ {v : Literal}, (∃ y, v.toYaml? = some y ∧ Shows v y) →
      v.toYaml?.isSome ∧ Shows v (v.toYaml?.getD .null) := by
    rintro v ⟨y, hy, hshows⟩
    rw [hy]
    exact ⟨rfl, hshows⟩
  induction h with
  | string s => exact ⟨_, rfl, .string s⟩
  | number f => exact ⟨_, rfl, .number f⟩
  | bool b => exact ⟨_, rfl, .bool b⟩
  | @array items _ ih =>
      have hparts : Shows (.array ((items.map fun v => (v, v.toYaml?.getD .null)).map Prod.fst))
          (.sequence ((items.map fun v => (v, v.toYaml?.getD .null)).map Prod.snd)) :=
        .array (List.forall_mem_map.2 fun v hv => (hform (ih v hv)).2)
          (List.forall_mem_map.2 fun v hv => (hform (ih v hv)).2.ne_null)
      refine ⟨_, rfl, ?_⟩
      rw [itemsToYaml_eq]
      simpa [List.map_map, Function.comp_def] using hparts
  | @object entries _ ih =>
      have hparts : Shows
          (.object ((entries.map fun x => (x.1, x.2, x.2.toYaml?.getD .null)).map
            fun x => (x.1, x.2.1)))
          (.mapping ((entries.map fun x => (x.1, x.2, x.2.toYaml?.getD .null)).map
            fun x => (.string x.1, x.2.2))) :=
        .object (List.forall_mem_map.2 fun x hx => (hform (ih x hx)).2)
          (List.forall_mem_map.2 fun x hx => (hform (ih x hx)).2.ne_null)
      refine ⟨_, rfl, ?_⟩
      rw [entriesToYaml_eq fun x hx => (hform (ih x hx)).1]
      simpa [List.map_map, Function.comp_def] using hparts

theorem exists_fields {members : List ObjectMember}
    (hmembers : members.flatMap memberExcerpts = [])
    (h : ∀ key e, .property key e ∈ members → (evaluate e).2 = [] → Represents e (evaluate e).1) :
    ∃ parts : List (String × Expr × Literal), members = parts.map (fun x => .property x.1 x.2.1) ∧
      members.filterMap memberPair? = parts.map (fun x => (x.1, x.2.2)) ∧
      ∀ x ∈ parts, Represents x.2.1 x.2.2 := by
  induction members with
  | nil => exact ⟨[], rfl, rfl, by simp⟩
  | cons member members ih =>
      rw [List.flatMap_cons, List.append_eq_nil_iff] at hmembers
      obtain ⟨parts, heq, hentries, hparts⟩ := ih hmembers.2 fun key e he =>
        h key e (List.mem_cons_of_mem _ he)
      cases member with
      | property key e =>
          refine ⟨(key, e, (evaluate e).1) :: parts, by rw [heq, List.map_cons], ?_, ?_⟩
          · rw [List.filterMap_cons, hentries]
            rfl
          · exact List.forall_mem_cons.2 ⟨h key e List.mem_cons_self hmembers.1, hparts⟩
      | shorthand name => cases hmembers.1
      | verbatim text => cases hmembers.1

theorem represents_plain {e : Expr} (hplain : e.isContainer = false) (h : (evaluate e).2 = []) :
    Represents e (evaluate e).1 := by
  cases e with
  | string s => exact .string s
  | bool b => exact .bool b
  | template text substitutions =>
      cases substitutions with
      | false => exact .template text
      | true => cases h
  | number text =>
      rw [evaluate] at h ⊢
      cases hvalue : numberValue? text with
      | some f => exact .number hvalue
      | none => rw [hvalue] at h; cases h
  | negate inner =>
      cases inner with
      | number text =>
          rw [evaluate] at h ⊢
          cases hvalue : numberValue? text with
          | some f => exact .negative hvalue
          | none => rw [hvalue] at h; cases h
      | _ => cases h
  | array | object => cases hplain
  | null | name | construct | call | member | verbatim => cases h

/-- Where nothing is listed, the value holds all of the expression. -/
theorem evaluate_represents (e : Expr) (h : (evaluate e).2 = []) : Represents e (evaluate e).1 := by
  induction e using Expr.parts_induction with
  | array items ih =>
      rw [evaluate_array] at h ⊢
      have hparts : Represents
          (.array ((items.map fun e => (e, (evaluate e).1)).map Prod.fst))
          (.array ((items.map fun e => (e, (evaluate e).1)).map Prod.snd)) :=
        .array (List.forall_mem_map.2 fun e he => ih e he (List.flatMap_eq_nil_iff.1 h e he))
      simpa [List.map_map, Function.comp_def] using hparts
  | object members ih =>
      rw [evaluate_object] at h ⊢
      obtain ⟨parts, heq, hentries, hparts⟩ := exists_fields h ih
      rw [hentries, heq]
      exact .object hparts
  | plain e hplain => exact represents_plain hplain h

/-- What evaluation reports comes behind all that was reported before: one diagnostic for each
unsupported part, in the order of the source, also for parts of a member that a later one with the
same key replaces. Where nothing is reported, the value holds all of the expression and nothing
unknown, and its form in YAML shows all of the value. -/
theorem evaluate_accounts (e : Expr) :
    (∃ found : List (List Nat × String), found.Pairwise (fun x y => x.1 < y.1) ∧
      (∀ p text, (p, text) ∈ found ↔ e.Unsupported p text) ∧
      ∀ (path : String) (tree : FileTree) (a : Analysis),
        let new := found.map fun x => .unsupportedLiteral path (excerpt x.2)
        Analysis.reportAll ((evaluate e).2.map (.unsupportedLiteral path)) tree a =
          (.ok (), { a with diagnostics := a.diagnostics ++ new })) ∧
    ((evaluate e).2 = [] → Represents e (evaluate e).1 ∧ (evaluate e).1.Known ∧
      ∃ y, (evaluate e).1.toYaml? = some y ∧ Shows (evaluate e).1 y) := by
  constructor
  · obtain ⟨found, horder, hmem, hexcerpts⟩ := evaluate_lists e
    refine ⟨found, horder, hmem, fun path tree a => ?_⟩
    rw [AnalysisM.reportAll_run, hexcerpts, List.map_map]
    rfl
  · intro h
    have hrepresents := evaluate_represents e h
    exact ⟨hrepresents, hrepresents.known, hrepresents.known.shows⟩

/-- The expression `{ a: 'x', b: [true, -0x10], a: '!Ref x' }`. -/
def repeatedKey : Expr :=
  .object [.property "a" (.string "x"),
    .property "b" (.array [.bool true, .negate (.number "0x10")]),
    .property "a" (.string "!Ref x")]

theorem evaluate_accounts_repeatedKey :
    (evaluate repeatedKey).2 = [] ∧ Represents repeatedKey (evaluate repeatedKey).1 ∧
      (evaluate repeatedKey).1.Known ∧
      ∃ y, (evaluate repeatedKey).1.toYaml? = some y ∧ Shows (evaluate repeatedKey).1 y := by
  have hnone : (evaluate repeatedKey).2 = [] := by decide +kernel
  exact ⟨hnone, (evaluate_accounts repeatedKey).2 hnone⟩

end HandlerWeave.Literal
