import HandlerWeave.Proofs.Artifact.Calls
import HandlerWeave.Proofs.Artifact.Lines

/-!
The client service as a module: its imports, and one class with a constructor and the methods of the
handlers that have a route.
-/
namespace HandlerWeave.Artifact

open Source Mark

variable {handlers : List Handler} {types : Types.Table} {w : String} {n : Nat}

def importText (names : List String) (source : String) : String :=
  "import \x7b " ++ String.intercalate ", " names ++ " \x7d from " ++ Text.quote source ++ ";"

theorem import_scans {line : Bool} {names : List String} {source : String} {rest : List Char}
    {ns : List Mark} (hnames : ∀ w ∈ names, IsWord w) (hsource : '\n' ∉ source.toList)
    (h : Scans false ('\n' :: rest) ns) :
    Scans line ((importText names source).toList ++ '\n' :: rest)
      (importMarks line names source ++ ns) := by
  have hlist : ReadsAs (String.intercalate ", " names)
      (separatedMarks (sign ',') (names.map fun w => [Mark.name w])) := by
    simpa using readsAs_commas fun w hw => readsAs_word (hnames w hw)
  have hend : Scans false (';' :: '\n' :: rest) (sign ';' :: ns) := .sign (by decide) h
  have hquoted : Scans false (' ' :: ((Text.quote source).toList ++ _)) (_ :: _) :=
    .space (.quoted hsource hend)
  have hfrom : Scans false (' ' :: '\x7d' :: ' ' :: ("from".toList ++ _)) (sign '\x7d' :: _ :: _) :=
    .space (.sign (by decide) (.space (.name (.inl (by decide)) (edge_cons.2 (by decide)) hquoted)))
  have hbraces : Scans false (' ' :: '\x7b' :: ' ' :: _) (sign '\x7b' :: _) :=
    .space (.sign (by decide) (.space (hlist _ _ (edge_cons.2 (by decide)) hfrom)))
  have hline : Scans line ("import".toList ++ _) (_ :: _) :=
    .word (.inl (by decide)) (edge_cons.2 (by decide)) hbraces
  simpa [String.toList_append, importText, importMarks, Mark.name, Mark.onLine] using hline

/-- The names that every client imports, and from where. -/
def headerImports : List (List String × String) :=
  [(["BASE_URL"], "./baseurl.token"), (["HttpClient"], "@angular/common/http"),
    (["Injectable", "Inject", "Optional"], "@angular/core")]

/-- What a client imports that names these types. -/
def clientImports (names : List String) : List (List String × String) :=
  headerImports ++ names.map fun n => ([n], "./" ++ slug n)

/-- Imports with their marks, of which only the first may stand on a line that is begun. -/
def importParts (line : Bool) : List (List String × String) → List (List Mark × Item)
  | [] => []
  | i :: is =>
    (importMarks line i.1 i.2, .importStatement (.ofNames i.1 i.2)) :: importParts true is

theorem imports_scans {line : Bool} {is : List (List String × String)}
    (h : ∀ i ∈ is, (∀ w ∈ i.1, IsWord w) ∧ '\n' ∉ i.2.toList) (hline : line = true ∨ is ≠ [])
    {rest : List Char} {ns : List Mark} (hrest : Scans true rest ns) :
    Scans line ((lines (is.map fun i => importText i.1 i.2)).toList ++ rest)
      (((importParts line is).map Prod.fst).flatten ++ ns) := by
  induction is generalizing line with
  | nil =>
      obtain rfl : line = true := hline.resolve_right (by simp)
      exact hrest
  | cons i is ih =>
      obtain ⟨⟨hnames, hsource⟩, his⟩ := List.forall_mem_cons.1 h
      have hfirst : Scans line _ _ := import_scans hnames hsource (ih his (.inl rfl)).newline
      simpa [lines_cons, String.toList_append, importParts] using hfirst

theorem importParts_items (line : Bool) (is : List (List String × String)) :
    (importParts line is).map Prod.snd =
      is.map fun i => .importStatement (.ofNames i.1 i.2) := by
  induction is generalizing line with
  | nil => rfl
  | cons i is ih => rw [importParts, List.map_cons, List.map_cons, ih]

theorem importParts_read {g : Grammar} (line : Bool) (is : List (List String × String)) :
    ∀ part ∈ importParts line is, ArrowFree part.1 ∧ ReadsItem g part.1 part.2 := by
  induction is generalizing line with
  | nil => exact nofun
  | cons i is ih =>
      refine List.forall_mem_cons.2 ⟨⟨?_, import_readsItem line i.1 i.2⟩, ih true⟩
      have hnames : ArrowFree (separatedMarks (sign ',') (i.1.map fun w => [Mark.name w])) :=
        arrowFree_separated (by decide) (by simp)
      simp [importMarks, hnames, sign_ne_arrow]

section

variable {names : List String} (hnames : ∀ n ∈ names, IsWord n)
include hnames

theorem slug_path {n : String} (hn : n ∈ names) {c : Char} (hc : c ∈ ['\'', '\\', '\n']) :
    c ∉ ("./" ++ slug n).toList := by
  have hcases : ∀ c ∈ ['\'', '\\', '\n'], isStemChar c = false ∧ c ∉ "./".toList := by
    rw [List.forall_mem_cons, List.forall_mem_cons, List.forall_mem_singleton]
    decide
  obtain ⟨hstem, hpath⟩ := hcases c hc
  rw [String.toList_append, List.mem_append, not_or]
  exact ⟨hpath, (slug_isStem (hnames n hn)).notMem hstem⟩

theorem imports_lines : lines Service.header ++ String.join (names.map importOf) =
    lines ((clientImports names).map fun i => importText i.1 i.2) := by
  have hheader : Service.header = headerImports.map fun i => importText i.1 i.2 := by
    decide +kernel
  have hlinks : String.join (names.map importOf) =
      lines (names.map fun n => importText [n] ("./" ++ slug n)) := by
    rw [lines, List.map_map]
    refine congrArg String.join (List.map_congr_left fun n hn => ?_)
    have hquote := quote_plain (slug_path hnames hn (by decide : '\'' ∈ _))
      (slug_path hnames hn (by decide : '\\' ∈ _))
    apply String.toList_inj.1
    simp [importOf, importText, hquote]
  rw [hheader, hlinks, ← lines_append, clientImports, List.map_append, List.map_map]
  rfl

theorem clientImports_words :
    ∀ i ∈ clientImports names, (∀ w ∈ i.1, IsWord w) ∧ '\n' ∉ i.2.toList := by
  have hidentifiers : ∀ i ∈ headerImports, (∀ w ∈ i.1, Text.isIdentifier w = true) ∧
      '\n' ∉ i.2.toList := by decide
  intro i hi
  obtain hi | hi := List.mem_append.1 hi
  · exact ⟨fun w hw => .inl ((hidentifiers i hi).1 w hw), (hidentifiers i hi).2⟩
  · obtain ⟨n, hn, rfl⟩ := List.mem_map.1 hi
    exact ⟨List.forall_mem_singleton.2 (hnames n hn), slug_path hnames hn (by decide)⟩

end

def serviceDecorators : List PlainDecorator := [⟨true, "Injectable", none⟩]

def addressDecorators : List PlainDecorator :=
  [⟨true, "Optional", none⟩, ⟨false, "Inject", some "BASE_URL"⟩]

/-- What the constructor is given, and keeps as a property: the address of the service. -/
def addressParam : Param :=
  ⟨"baseUrl", some (.keyword .string), false, false, true,
    addressDecorators.map PlainDecorator.decorator⟩

/-- What sends the requests. -/
def senderParam : Param :=
  ⟨"http", some (.reference ⟨none, "HttpClient"⟩ []), false, false, true, []⟩

def propertyWords (line : Bool) : List Mark :=
  [(Mark.name "private").onLine line, .name "readonly"]

def addressMarks : List Mark :=
  (addressDecorators.map PlainDecorator.marks).flatten ++ (propertyWords false ++
    .name "baseUrl" :: sign ':' :: ((TypeNode.keyword .string).marks ++ [sign ',']))

def senderMarks : List Mark :=
  propertyWords true ++ .name "http" :: sign ':' ::
    ((TypeNode.reference ⟨none, "HttpClient"⟩ []).marks ++ [sign ','])

def constructorMarks : List Mark :=
  (Mark.name "constructor").onLine true :: sign '(' :: (addressMarks ++ senderMarks ++
    (sign ')').onLine true :: bodyMarks [[(Mark.name "this").onLine true, ⟨.dot, ".", false⟩,
      .name "baseUrl", ⟨.equals, "=", false⟩, .name "baseUrl", sign '|', sign '|',
      ⟨.string, "''", false⟩, sign ';']])

def openingText : String := String.intercalate "\n" Service.classOpening.tail.dropLast

theorem lines_classOpening :
    lines Service.classOpening = "\n" ++ (openingText ++ "\n") ++ "\n" := by decide +kernel

/-- The marks of the class up to its first method. -/
def openingMarks : List Mark :=
  (serviceDecorators.map PlainDecorator.marks).flatten ++
    (Mark.name "export").onLine true :: .name "class" :: .name "ApiService" :: sign '\x7b' ::
      constructorMarks

theorem classOpening_readsLines : ReadsLines (lines Service.classOpening) openingMarks := by
  have hopening : IsFixed openingText ∧ textMarks true openingText = openingMarks := by
    decide +kernel
  have hlines := (ReadsLines.blank.append (.fixed hopening.1)).append .blank
  rw [lines_classOpening, ← hopening.2]
  simpa using hlines

theorem propertyWords_words (line : Bool) :
    ∀ v ∈ propertyWords line, v.kind = .word ∧ v.text ∈ Grammar.paramWords := by
  cases line <;> decide

theorem address_takes (rest : List Mark) :
    Takes (Grammar.withLevels (n + 1)).param (addressMarks ++ rest) addressParam
      (sign ',' :: rest) := by
  have hdecorators : ∀ d ∈ addressDecorators, ∀ w ∈ d.argument, w ∉ exprWords := by decide
  have htype : (TypeNode.keyword .string).ReadBy (Grammar.withLevels (n + 1)) :=
    (TypeNode.Canonical.keyword .string).readBy (Nat.le_add_left 1 n)
  exact param_takes hdecorators (propertyWords_words false) rfl htype (by decide)

theorem sender_takes (rest : List Mark) :
    Takes (Grammar.withLevels (n + 1)).param (senderMarks ++ rest) senderParam
      (sign ',' :: rest) := by
  have hdecorators : ∀ d ∈ ([] : List PlainDecorator), ∀ w ∈ d.argument, w ∉ exprWords := nofun
  have hargs : ∀ t ∈ ([] : List TypeNode), t.Canonical := nofun
  have htype : (TypeNode.reference ⟨none, "HttpClient"⟩ []).ReadBy (Grammar.withLevels (n + 1)) :=
    (TypeNode.Canonical.reference ⟨.inl (by decide), by decide, by decide, by decide⟩ hargs).readBy
      (Nat.le_add_left 1 n)
  exact param_takes hdecorators (propertyWords_words true) rfl htype (by decide)

theorem constructor_readsMember :
    ReadsMember (Grammar.withLevels (n + 1)) constructorMarks
      (.constructor [addressParam, senderParam]) := by
  have hstarts : Token.Kind.atSign ≠ .rightParen ∧ Token.Kind.word ≠ .rightParen := by decide
  refine Source.constructor_readsMember true rfl (by decide) fun rest => ?_
  rw [List.append_assoc]
  refine .cons hstarts.1 (address_takes _) rfl ?_
    (.cons hstarts.2 (sender_takes _) rfl ?_ (.nil rfl))
  · simp [addressMarks]
    omega
  · simp [senderMarks]
    omega

/-- A handler with a route of which the method can be written. -/
def Routable (h : Handler) : Prop :=
  ∃ httpMethod path, h.route? = some (httpMethod, path) ∧
    Callable h (Text.lowercase httpMethod) path

/-- The marks of a method, with some body. -/
def IsMethodOf (ms : List Mark) (h : Handler) : Prop :=
  ∃ body, Closed body ∧ ArrowFree body ∧ ms = methodMarks h body

theorem exists_methods (h : ∀ f ∈ handlers, Routable f) :
    ∃ parts : List (List Mark × Handler), parts.map Prod.snd = handlers ∧
      (∀ part ∈ parts, IsMethodOf part.1 part.2) ∧
      ReadsLines (String.join (handlers.map methodText)) (parts.map Prod.fst).flatten := by
  induction handlers with
  | nil => exact ⟨[], rfl, nofun, .empty⟩
  | cons f handlers ih =>
      obtain ⟨⟨httpMethod, path, hroute, hcall⟩, hhandlers⟩ := List.forall_mem_cons.1 h
      obtain ⟨parts, hparts, hmethods, hreads⟩ := ih hhandlers
      obtain ⟨body, hclosed, harrow, hbody⟩ := method_readsLines hcall
      refine ⟨(methodMarks f body, f) :: parts, by rw [List.map_cons, hparts],
        List.forall_mem_cons.2 ⟨⟨body, hclosed, harrow, rfl⟩, hmethods⟩, ?_⟩
      rw [List.map_cons, String.join_cons, List.map_cons, List.flatten_cons, methodText_eq hroute]
      exact hbody.append hreads

theorem IsMethodOf.arrowFree {ms : List Mark} {h : Handler} (hms : IsMethodOf ms h)
    (htypes : ∀ p ∈ h.parameters, IsTypeText p.type) : ArrowFree ms := by
  obtain ⟨body, -, harrow, rfl⟩ := hms
  have hparams : ArrowFree (separatedMarks (sign ',')
      ((h.parameters.map clientParam).map paramMarks)) := by
    refine arrowFree_separated (by decide)
      (List.forall_mem_map.2 (List.forall_mem_map.2 fun p hp => ?_))
    have htype : ArrowFree (optionalTypeMarks (clientParam p).type) := (htypes p hp).arrowFree
    simp [paramMarks, htype, sign_ne_arrow]
  have hbody : ArrowFree (bodyMarks [body]) := arrowFree_body (by simpa using harrow)
  rw [methodMarks]
  simp [-List.map_map, hparams, hbody, sign_ne_arrow]

theorem IsMethodOf.readsMember {ms : List Mark} {h : Handler} (hms : IsMethodOf ms h)
    (htypes : ∀ p ∈ h.parameters, IsTypeText p.type)
    (hconstructor : methodName h.name ≠ "constructor") (hn : ms.length ≤ n + 1) :
    ReadsMember (Grammar.withLevels (n + 1)) ms (.method (clientMethod h)) := by
  obtain ⟨body, hclosed, -, rfl⟩ := hms
  refine method_readsMember hclosed htypes hconstructor fun p hp => ?_
  have hparam : (optionalTypeMarks (typeOf? p.type)).Sublist (paramMarks (clientParam p)) :=
    ((List.Sublist.refl _).cons _).cons _
  have hlist := sublist_separatedMarks (sign ',')
    (List.mem_map_of_mem (f := paramMarks) (List.mem_map_of_mem (f := clientParam) hp))
  have hmethod : (separatedMarks (sign ',') ((h.parameters.map clientParam).map paramMarks)).Sublist
      (methodMarks h body) := (((List.sublist_append_left _ _).cons _).cons _).cons _
  exact ((hparam.trans (hlist.trans hmethod)).length_le).trans hn

/-- The class that the client declares. -/
def clientClass (handlers : List Handler) : ClassDef :=
  ⟨"ApiService", .written, serviceDecorators.map PlainDecorator.decorator, [], none, [],
    .constructor [addressParam, senderParam] ::
      (routed handlers).map fun h => .method (clientMethod h)⟩

/-- The marks of the class, with those of its methods. -/
def classMarks (methods : List (List Mark)) : List Mark :=
  (serviceDecorators.map PlainDecorator.marks).flatten ++
    (Mark.name "export").onLine true :: .name "class" :: .name "ApiService" ::
      bodyMarks (constructorMarks :: methods)

theorem classMarks_eq (methods : List (List Mark)) :
    classMarks methods = openingMarks ++ (methods.flatten ++ [(sign '\x7d').onLine true]) := by
  simp [classMarks, openingMarks, bodyMarks]

theorem Routable.typeTexts {h : Handler} (hh : Routable h) :
    ∀ p ∈ h.parameters, IsTypeText p.type := by
  obtain ⟨_, _, -, hcall⟩ := hh
  exact hcall.types

theorem Routable.notConstructor {h : Handler} (hh : Routable h) :
    methodName h.name ≠ "constructor" := by
  obtain ⟨_, _, -, hcall⟩ := hh
  exact hcall.notConstructor

section

variable {methods : List (List Mark × Handler)}
  (hmethods : ∀ part ∈ methods, IsMethodOf part.1 part.2 ∧ Routable part.2)
include hmethods

theorem class_readsItem (hroutes : methods.map Prod.snd = routed handlers)
    (hn : (classMarks (methods.map Prod.fst)).length ≤ n) :
    ReadsItem (Grammar.withLevels (n + 2)) (classMarks (methods.map Prod.fst))
      (.classDef (clientClass handlers)) := by
  have hname : "ApiService" ∉ ["extends", "implements"] := by decide
  have hdecorators : ∀ d ∈ serviceDecorators, ∀ v ∈ d.argument, v ∉ exprWords := by decide
  have hmembers : ∀ part ∈
      (constructorMarks, ClassMember.constructor [addressParam, senderParam]) ::
        methods.map (fun part => (part.1, .method (clientMethod part.2))),
      ReadsMember (Grammar.withLevels (n + 2)) part.1 part.2 := by
    refine List.forall_mem_cons.2
      ⟨constructor_readsMember, List.forall_mem_map.2 fun part hpart => ?_⟩
    obtain ⟨hmethod, hroute⟩ := hmethods part hpart
    refine hmethod.readsMember hroute.typeTexts hroute.notConstructor
      ((Nat.le_trans ?_ hn).trans (Nat.le_add_right n 2))
    have hflat : part.1.Sublist (methods.map Prod.fst).flatten :=
      List.sublist_flatten_of_mem (List.mem_map_of_mem hpart)
    rw [classMarks_eq]
    exact (hflat.trans ((List.sublist_append_left _ _).trans
      (List.sublist_append_right _ _))).length_le
  have hitem := Source.class_readsItem true hname hdecorators hmembers
  rw [clientClass, ← hroutes, List.map_map]
  simpa [classMarks, Function.comp_def] using hitem

theorem arrowFree_classMarks : ArrowFree (classMarks (methods.map Prod.fst)) := by
  have hopening : ArrowFree openingMarks := by decide
  have hflat : ArrowFree (methods.map Prod.fst).flatten := arrowFree_flatten
    (List.forall_mem_map.2 fun part hpart =>
      (hmethods part hpart).1.arrowFree (hmethods part hpart).2.typeTexts)
  simp [classMarks_eq, hopening, hflat, sign_ne_arrow]

end

theorem clientService_scans {names : List String} {methods : String} {ms : List Mark}
    (hnames : ∀ n ∈ names, IsWord n) (h : ReadsLines methods ms) :
    Scans false (lines Service.header ++ String.join (names.map importOf) ++
        lines Service.classOpening ++ methods ++ "\x7d\n").toList
      (((importParts false (clientImports names)).map Prod.fst).flatten ++
        (openingMarks ++ (ms ++ [(sign '\x7d').onLine true, .final]))) := by
  have hclose : Scans true "\x7d\n".toList [(sign '\x7d').onLine true, .final] :=
    .sign (by decide) (.newline scans_nil)
  have hheader : false = true ∨ clientImports names ≠ [] := .inr (List.cons_ne_nil _ _)
  have htext := imports_scans (clientImports_words hnames) hheader
    (classOpening_readsLines _ _ (h _ _ hclose))
  rw [imports_lines hnames]
  simpa [String.toList_append] using htext

def clientParts (handlers : List Handler) (types : Types.Table) (methods : List (List Mark)) :
    List (List Mark × Item) :=
  importParts false (clientImports (typesNamed handlers types)) ++
    [(classMarks methods, .classDef (clientClass handlers))]

/-- The client service is parsed to its imports and its class. -/
theorem clientService_items (hnames : ∀ n ∈ typesNamed handlers types, IsWord n)
    (h : ∀ f ∈ routed handlers, Routable f) :
    parse (clientService handlers types).contents =
      .ok ((clientImports (typesNamed handlers types)).map
        (fun i => .importStatement (.ofNames i.1 i.2)) ++ [.classDef (clientClass handlers)]) := by
  obtain ⟨methods, hroutes, hmethods, hlines⟩ := exists_methods h
  have hmethods : ∀ part ∈ methods, IsMethodOf part.1 part.2 ∧ Routable part.2 := fun part hpart =>
    ⟨hmethods part hpart, h part.2 (hroutes ▸ List.mem_map_of_mem hpart)⟩
  have hscans := clientService_scans hnames hlines
  rw [← (clientService_methods handlers types).1] at hscans
  have hparse : parse (clientService handlers types).contents =
      .ok ((clientParts handlers types (methods.map Prod.fst)).map Prod.snd) := by
    refine parse_of_parts ?_ (List.forall_mem_append.2
      ⟨importParts_read false _, List.forall_mem_singleton.2
        ⟨arrowFree_classMarks hmethods, class_readsItem hmethods hroutes ?_⟩⟩)
    · simpa [clientParts, classMarks_eq] using hscans
    · simp [clientParts]
  rw [hparse, clientParts, List.map_append, importParts_items]
  rfl

end HandlerWeave.Artifact
