import HandlerWeave.Proofs.Analysis.Origins
import HandlerWeave.Proofs.Artifact.Client
import HandlerWeave.Proofs.Artifact.Imports

/-!
The client service of handlers as they are described from classes: which of them can be called by
it, and that it is parsed to a class with their methods.
-/
namespace HandlerWeave

open Source Artifact

namespace Source

variable {scope : List String} {type : Option TypeNode}

theorem isTypeText_optional (h : ∀ t ∈ type, t.Regular ∧ t.Readable scope []) :
    IsTypeText (optionalTypeText scope type) := by
  cases type with
  | none => exact ⟨_, .keyword .any, rfl⟩
  | some t =>
      obtain ⟨hregular, hreadable⟩ := h t rfl
      exact ⟨t.printed scope, hreadable.printed_canonical hregular, hreadable.printed_text.symm⟩

end Source

theorem Handler.fields_of_route? {h : Handler} {method path : String}
    (hroute : h.route? = some (method, path)) :
    h.httpMethod = some method ∧ h.httpPath = some path := by
  unfold Handler.route? at hroute
  split at hroute
  next hmethod hpath =>
    split at hroute
    · cases hroute
    · cases hroute
      exact ⟨hmethod, hpath⟩
  · cases hroute

namespace Origin

/-- What is written of the handler in the client is read as it is meant. -/
structure Writable (o : Origin) : Prop where
  httpMethod : ∀ method ∈ o.handler.httpMethod, IsWord method
  httpPath : ∀ path ∈ o.handler.httpPath, '`' ∉ path.toList ∧ '\\' ∉ path.toList
  keys : ∀ p ∈ o.handler.parametersIn .query, '\n' ∉ p.key.toList
  types : ∀ t ∈ o.types, t.Readable o.scope []
  notConstructor : methodName o.handler.name ≠ "constructor"

variable {o : Origin}

theorem mem_parameters {b : BoundParam} (hb : b ∈ o.handler.parameters) :
    ∃ p ∈ o.entry.params, b.name = p.name ∧ b.type = optionalTypeText o.scope p.type := by
  obtain ⟨⟨p, index⟩, hp, rfl⟩ := List.mem_map.1 hb
  exact ⟨p, (List.mem_zipIdx hp).2.2 ▸ List.getElem_mem _, rfl, rfl⟩

theorem parameter_isWord {b : BoundParam} (hb : b ∈ o.handler.parameters) : IsWord b.name := by
  obtain ⟨p, hp, hname, -⟩ := mem_parameters hb
  rw [hname]
  exact (o.params_regular p hp).name

theorem Writable.typeText {type : Option TypeNode} (h : o.Writable)
    (htype : ∀ t ∈ type, t ∈ o.types) : IsTypeText (optionalTypeText o.scope type) :=
  isTypeText_optional fun t ht => ⟨o.types_regular t (htype t ht), h.types t (htype t ht)⟩

theorem Writable.parameter_typeText (h : o.Writable) {b : BoundParam}
    (hb : b ∈ o.handler.parameters) : IsTypeText b.type := by
  obtain ⟨p, hp, -, htype⟩ := mem_parameters hb
  rw [htype]
  exact h.typeText fun t ht => List.mem_append_left _ (List.mem_filterMap.2 ⟨p, hp, ht⟩)

theorem Writable.result_typeText (h : o.Writable) : IsTypeText o.handler.returnType :=
  h.typeText fun _ ht => List.mem_append_right _ (Option.mem_toList.2 ht)

/-- A writable handler with a route has a method that can be written, unless only a hash is left of
its name. -/
theorem Writable.routable (h : o.Writable) (hroute : o.handler.route?.isSome = true)
    (hname : o.handler.name ≠ "#Function") : Routable o.handler := by
  obtain ⟨⟨method, path⟩, hroute⟩ := Option.isSome_iff_exists.1 hroute
  obtain ⟨hmethod, hpath⟩ := Handler.fields_of_route? hroute
  exact ⟨method, path, hroute,
    { httpMethod := lowercase_isWord (h.httpMethod method hmethod)
      path := h.httpPath path hpath
      names := fun _ hp => parameter_isWord hp
      types := fun _ hp => h.parameter_typeText hp
      keys := h.keys
      returnType := h.result_typeText
      method := methodName_isWord o.name_isWord hname
      notConstructor := h.notConstructor }⟩

end Origin

namespace Artifact

/-- Where every handler with a route is writable and has more of a name than a hash, the client is
parsed to its imports and a class with one method for each of these handlers, in their order, and
the type of each parameter is one that is written as it was recorded. -/
theorem clientService_read (origins : List Origin) (types : Types.Table)
    (h : ∀ o ∈ origins, o.handler.route?.isSome = true →
      o.Writable ∧ o.handler.name ≠ "#Function") :
    parse (clientService (origins.map Origin.handler) types).contents =
        .ok ((clientImports (typesNamed (origins.map Origin.handler) types)).map
            (fun i => .importStatement (.ofNames i.1 i.2)) ++
          [.classDef (clientClass (origins.map Origin.handler))]) ∧
      ∀ f ∈ routed (origins.map Origin.handler), ∀ p ∈ f.parameters,
        ∃ t, typeOf? p.type = some t ∧ t.text [] = p.type := by
  have hroutable : ∀ f ∈ routed (origins.map Origin.handler), Routable f := by
    intro f hf
    obtain ⟨hmem, hroute⟩ := List.mem_filter.1 hf
    obtain ⟨o, ho, rfl⟩ := List.mem_map.1 hmem
    obtain ⟨hwritable, hname⟩ := h o ho hroute
    exact hwritable.routable hroute hname
  have hnames : ∀ n ∈ typesNamed (origins.map Origin.handler) types, IsWord n := by
    intro n hn
    obtain ⟨-, f, hf, hn⟩ := mem_typesNamed.1 hn
    obtain ⟨o, -, rfl⟩ := List.mem_map.1 hf
    exact o.references_isWord n hn
  refine ⟨clientService_items hnames hroutable, fun f hf p hp => ?_⟩
  obtain ⟨t, -, htext, htype⟩ := ((hroutable f hf).typeTexts p hp).exists_canonical
  exact ⟨t, htype, htext.symm⟩

/-- A class of that name, of which a request gives an item to the entry method. -/
def itemText (name : String) : String :=
  "@LambdaFunction(\x7b Properties: \x7b Events: \x7b Call: \x7b Type: 'Api', " ++
    "Properties: \x7b Path: '/', Method: 'PUT' \x7d \x7d \x7d \x7d \x7d) class " ++ name ++
      " \x7b handle(@FromBody() item: Item) \x7b\x7d \x7d"

def itemMetadata : Expr :=
  .object [.property "Properties" (.object [.property "Events" (.object [.property "Call" (.object
    [.property "Type" (.string "Api"), .property "Properties" (.object
      [.property "Path" (.string "/"), .property "Method" (.string "PUT")])])])])]

def itemType : TypeNode := .reference ⟨none, "Item"⟩ []

def itemEntry : Method :=
  ⟨Handler.entryName, .method, false, [],
    [⟨"item", some itemType, false, false, false, [⟨["FromBody"], []⟩]⟩], none, []⟩

def itemClass (name : String) : ClassDef :=
  ⟨name, {}, [⟨["LambdaFunction"], [itemMetadata]⟩], [], none, [], [.method itemEntry]⟩

/-- One name with which a class gets a method, and the one with which it gets none. -/
def itemNames : List String := ["PutItem", "#Function"]

section

variable {name : String} (h : name ∈ itemNames)
include h

set_option maxRecDepth 16000 in
theorem itemText_parsed : parse (itemText name) = .ok [.classDef (itemClass name)] := by
  have hparse : ∀ {cs : List Char} {items : List Item}, (itemText name).toList = cs →
      parseTokens (Lexer.scan none [] 0 0 cs) = .ok items → parse (itemText name) = .ok items := by
    rintro _ items rfl hitems
    exact hitems
  have hcases : name = "PutItem" ∨ name = "#Function" := by simpa [itemNames] using h
  delta itemText at hparse ⊢
  obtain rfl | rfl := hcases
  · simp only [String.toList_append, String.reduceToList] at hparse
    exact hparse rfl rfl
  · simp only [String.toList_append, String.reduceToList] at hparse
    exact hparse rfl rfl

def itemOrigin : Origin :=
  ⟨"a.ts", itemText name, _, itemText_parsed h, itemClass name, itemEntry, "run",
    by simp [Module.class?, Module.ofItems, Declaration.ofItem?, Declaration.asClass?], rfl⟩

theorem itemOrigin_handler :
    (itemOrigin h).handler = ⟨name, "a.ts", "run", (itemOrigin h).handler.metadata,
      [⟨.body, "item", "item", "Item"⟩], "any", some "PUT", some "/", ["Item"]⟩ := by
  have hcases : name = "PutItem" ∨ name = "#Function" := by simpa [itemNames] using h
  obtain rfl | rfl := hcases <;> rfl

theorem itemOrigin_writable : (itemOrigin h).Writable := by
  have hmethods : ∀ name ∈ itemNames, methodName name ≠ "constructor" := by decide +kernel
  have htypes : (itemOrigin h).types = [itemType] := rfl
  constructor
  case types =>
    rw [htypes]
    exact List.forall_mem_singleton.2 (.reference (by decide) rfl (.inl rfl) nofun)
  all_goals rw [itemOrigin_handler h]
  case httpMethod =>
    rintro _ ⟨rfl⟩
    exact .inl (by decide)
  case httpPath =>
    rintro _ ⟨rfl⟩
    decide
  case keys => exact nofun
  case notConstructor => exact hmethods name h

end

def itemTable : Types.Table := ⟨[⟨"Item", .rendered, "export class Item \x7b\x7d", [], none, 0⟩]⟩

theorem putItem_mem : "PutItem" ∈ itemNames := by decide

def putItem : Origin := itemOrigin putItem_mem

theorem clientService_read_putItem :
    (∀ o ∈ [putItem], o.handler.route?.isSome = true →
      o.Writable ∧ o.handler.name ≠ "#Function") ∧
    routed [putItem.handler] = [putItem.handler] ∧
    parse (clientService [putItem.handler] itemTable).contents =
      .ok [.importStatement (.ofNames ["BASE_URL"] "./baseurl.token"),
        .importStatement (.ofNames ["HttpClient"] "@angular/common/http"),
        .importStatement (.ofNames ["Injectable", "Inject", "Optional"] "@angular/core"),
        .importStatement (.ofNames ["Item"] "./item"),
        .classDef (clientClass [putItem.handler])] := by
  have hhandler : putItem.handler = _ := itemOrigin_handler putItem_mem
  have hwritable : ∀ o ∈ [putItem], o.handler.route?.isSome = true →
      o.Writable ∧ o.handler.name ≠ "#Function" := by
    refine List.forall_mem_singleton.2 fun _ => ⟨itemOrigin_writable putItem_mem, ?_⟩
    rw [hhandler]
    decide
  have himports : clientImports (typesNamed [putItem.handler] itemTable) =
      headerImports ++ [(["Item"], "./item")] := by
    rw [hhandler]
    decide +kernel
  have hread := (clientService_read [putItem] itemTable hwritable).1
  rw [List.map_singleton, himports] at hread
  exact ⟨hwritable, by rw [hhandler]; rfl, hread⟩

/-- What the client shows of a handler of which the method has only a hash for its name. -/
def hashHandler : Handler :=
  ⟨"#Function", "a.ts", "run", .unknown "", [⟨.body, "item", "item", "Item"⟩], "any", some "PUT",
    some "/", ["Item"]⟩

theorem clientService_hash : (parse (clientService [hashHandler] {}).contents).isOk = false := by
  have hmethod : methodText hashHandler = lines ["    public #(item: Item) \x7b",
      "        const url = `$\x7bthis.baseUrl\x7d/`;",
      "        const options = \x7b headers: \x7b\x7d as any, params: null as any \x7d;",
      "        options.headers['Accept'] = 'application/json';",
      "        options.headers['Content-Type'] = 'application/json';",
      "        return this.http.put<any>(url, item, options);", "    \x7d", ""] := by
    decide +kernel
  have hrouted : routed [hashHandler] = [hashHandler] := rfl
  have htypes : typesNamed [hashHandler] {} = [] := rfl
  rw [(clientService_methods [hashHandler] {}).1, htypes, hrouted, List.map_singleton, hmethod,
    parse, lex]
  simp only [Service.header, Service.classOpening, lines, List.map_cons, List.map_nil,
    String.toList_append, String.join_cons, String.join_nil, String.reduceToList]
  decide +kernel

/-- A writable handler of a class with a hash alone before the ending breaks the client. -/
theorem clientService_unread : ¬ ∀ (origins : List Origin) (types : Types.Table),
    (∀ o ∈ origins, o.handler.route?.isSome = true → o.Writable) →
      ∃ items, parse (clientService (origins.map Origin.handler) types).contents = .ok items := by
  intro hread
  have hname : "#Function" ∈ itemNames := by decide
  have hclient : clientService [(itemOrigin hname).handler] {} =
      clientService [hashHandler] {} := by
    rw [itemOrigin_handler hname]
    rfl
  obtain ⟨items, hitems⟩ := hread [itemOrigin hname] {}
    (List.forall_mem_singleton.2 fun _ => itemOrigin_writable hname)
  have hfails := clientService_hash
  rw [← hclient, ← List.map_singleton, hitems] at hfails
  cases hfails

end Artifact
end HandlerWeave
