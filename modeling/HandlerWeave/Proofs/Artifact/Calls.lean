import HandlerWeave.Proofs.Analysis.Candidates
import HandlerWeave.Proofs.Artifact.Methods
import HandlerWeave.Proofs.Declarations.Classes
import HandlerWeave.Proofs.Declarations.Printed
import HandlerWeave.Proofs.Seam.Texts

/-!
The methods of the client service and the marks they are read as. A method is read with its name and
its parameters; its body is skipped, and every line of it leaves the brackets closed.
-/
namespace HandlerWeave.Source

open Mark Lexer

variable {cs rest : List Char} {ms : List Mark} {s v w : String} {t : TypeNode}

/-- A hash or none, and behind it what an identifier is made of. -/
theorem isWord_iff : IsWord w ↔ ∃ hash c cs, (hash = [] ∨ hash = ['#']) ∧
    w.toList = hash ++ c :: cs ∧ isWordStart c = true ∧ ∀ d ∈ cs, isWordPart d = true := by
  have hidentifier : ∀ v : String, Text.isIdentifier v = true ↔
      ∃ c cs, v.toList = c :: cs ∧ isWordStart c = true ∧ ∀ d ∈ cs, isWordPart d = true := by
    intro v
    refine ⟨exists_identifier, ?_⟩
    rintro ⟨c, cs, hlist, hc, hcs⟩
    rw [Text.isIdentifier, hlist]
    exact Bool.and_eq_true_iff.2 ⟨hc, List.all_eq_true.2 hcs⟩
  constructor
  · rintro (hw | ⟨v, hv, rfl⟩)
    · obtain ⟨c, cs, h⟩ := (hidentifier w).1 hw
      exact ⟨[], c, cs, .inl rfl, h⟩
    · obtain ⟨c, cs, hlist, h⟩ := (hidentifier v).1 hv
      exact ⟨['#'], c, cs, .inr rfl, by simp [hlist], h⟩
  · rintro ⟨_, c, cs, rfl | rfl, hlist, h⟩
    · exact .inl ((hidentifier w).2 ⟨c, cs, hlist, h⟩)
    · refine .inr ⟨String.ofList (c :: cs), (hidentifier _).2 ⟨c, cs, String.toList_ofList, h⟩, ?_⟩
      apply String.toList_inj.1
      simp [hlist]

/-- The front of a word is one, unless nothing but a hash is left. -/
theorem IsWord.front (h : IsWord (v ++ w)) (hne : v ≠ "") (hhash : v ≠ "#") : IsWord v := by
  obtain ⟨hash, c, cs, hcases, hlist, hc, hcs⟩ := isWord_iff.1 h
  rw [String.toList_append] at hlist
  obtain ⟨d, ds, hv⟩ := List.exists_cons_of_ne_nil fun hnil => hne (String.toList_inj.1 hnil)
  rw [hv, List.cons_append] at hlist
  refine isWord_iff.2 ?_
  obtain rfl | rfl := hcases
  · obtain ⟨rfl, rfl⟩ := List.cons.inj hlist
    exact ⟨[], d, ds, .inl rfl, hv, hc, fun x hx => hcs x (List.mem_append_left _ hx)⟩
  · obtain ⟨rfl, hrest⟩ := List.cons.inj hlist
    cases ds with
    | nil => exact absurd (String.toList_inj.1 hv) hhash
    | cons x xs =>
        obtain ⟨rfl, rfl⟩ := List.cons.inj hrest
        exact ⟨['#'], x, xs, .inr rfl, hv, hc, fun y hy => hcs y (List.mem_append_left _ hy)⟩

/-- A point and the word behind it. -/
theorem Scans.member (hw : IsWord w) (hrest : Starts (isWordPart · = false) rest)
    (h : Scans false rest ms) :
    Scans false ('.' :: (w.toList ++ rest)) (⟨.dot, ".", false⟩ :: .name w :: ms) := by
  refine .point ?_ (.part hw hrest h)
  obtain ⟨hash, c, cs, rfl | rfl, hlist, hc, -⟩ := isWord_iff.1 hw
  · rw [hlist]
    refine starts_cons.2 ⟨?_, ?_⟩
    · rintro rfl
      cases hc
    · refine Bool.eq_false_iff.2 fun hdigit => ?_
      rw [isWordStart_digit hdigit] at hc
      cases hc
  · rw [hlist]
    exact starts_cons.2 (by decide)

/-- The text is read as these marks wherever nothing continues it. -/
def ReadsAs (text : String) (marks : List Mark) : Prop :=
  ∀ rest ms, Edge rest → Scans false rest ms → Scans false (text.toList ++ rest) (marks ++ ms)

theorem readsAs_word (hw : IsWord w) : ReadsAs w [.name w] := fun _ _ hrest hms =>
  .name hw hrest hms

theorem readsAs_commas {α : Type} {text : α → String} {marks : α → List Mark} {xs : List α}
    (h : ∀ x ∈ xs, ReadsAs (text x) (marks x)) :
    ReadsAs (String.intercalate ", " (xs.map text)) (separatedMarks (sign ',') (xs.map marks)) := by
  have hplain : ∀ s : String, Piece.print [.plain s] = s := fun s => by
    simp [Piece.print, Piece.text]
  have hparts : ∀ x ∈ xs, PrintsAs [.plain (text x)] (marks x) := by
    intro x hx
    rw [PrintsAs, hplain]
    exact h x hx
  have hprints := scans_separated isSeparator_comma hparts
  rw [PrintsAs, print_separated, List.map_map, Function.comp_def] at hprints
  simp only [hplain] at hprints
  exact hprints

/-- A canonical type is what its text is from the first token to the last. -/
theorem TypeNode.Canonical.typeOf?_text (ht : t.Canonical) : typeOf? (t.text []) = some t := by
  have hscans : Scans false (t.text []).toList (t.marks ++ [.final]) := by
    have hprints := ht.scanned [] [.final] edge_nil scans_nil
    rwa [List.append_nil] at hprints
  have hlength : t.marks.length ≤ (lex (t.text [])).length + 1 := by
    have hmarks := congrArg List.length hscans.lex
    simp only [List.length_map, List.length_append, List.length_singleton] at hmarks
    omega
  have hshows : (Cursor.ofTokens (lex (t.text []))).Shows (t.marks ++ []) := by
    rw [List.append_nil]
    exact shows_ofTokens ht.arrowFree hscans
  obtain ⟨last, hread, hlast⟩ := (ht.readBy hlength).takes [] rfl _ hshows
  have hend : last.check .endOfFile = true := by
    rw [hlast.check]
    rfl
  rw [typeOf?, hread]
  exact if_pos hend

/-- A text that a canonical type is written as. -/
def IsTypeText (s : String) : Prop := ∃ t : TypeNode, t.Canonical ∧ s = t.text []

namespace IsTypeText

theorem exists_canonical (h : IsTypeText s) : ∃ t : TypeNode, t.Canonical ∧ s = t.text [] ∧
    typeOf? s = some t := by
  obtain ⟨t, ht, rfl⟩ := h
  exact ⟨t, ht, rfl, ht.typeOf?_text⟩

theorem reads (h : IsTypeText s) : ReadsAs s (optionalTypeMarks (typeOf? s)) := by
  obtain ⟨t, ht, rfl, htype⟩ := h.exists_canonical
  rw [htype]
  exact ht.scanned

theorem closed (h : IsTypeText s) : Closed (optionalTypeMarks (typeOf? s)) := by
  obtain ⟨t, ht, -, htype⟩ := h.exists_canonical
  rw [htype]
  exact ht.closed

theorem arrowFree (h : IsTypeText s) : ArrowFree (optionalTypeMarks (typeOf? s)) := by
  obtain ⟨t, ht, -, htype⟩ := h.exists_canonical
  rw [htype]
  exact ht.arrowFree

end IsTypeText

open Text.Quoted in
/-- A text without quotes and backslashes is quoted as it is. -/
theorem quote_plain (hquote : '\'' ∉ s.toList) (hslash : '\\' ∉ s.toList) :
    Text.quote s = "'" ++ s ++ "'" := by
  have hencode : ∀ cs : List Char, '\'' ∉ cs → '\\' ∉ cs → encode cs = cs := by
    intro cs hquote hslash
    induction cs with
    | nil => rfl
    | cons c cs ih =>
        obtain ⟨hc, hquote⟩ := not_or.1 (mt List.mem_cons.2 hquote)
        obtain ⟨hc', hslash⟩ := not_or.1 (mt List.mem_cons.2 hslash)
        rw [encode, if_neg (by simp [Ne.symm hc, Ne.symm hc']), ih hquote hslash]
  rw [Text.quote, hencode _ hquote hslash, String.ofList_toList]

end HandlerWeave.Source

namespace HandlerWeave.Artifact

open Source Mark

variable {c x : Char} {cs : List Char} {s w : String}

theorem isWord_ascii (hw : IsWord w) : ∀ c ∈ w.toList, c.toNat < 128 := fun c hc =>
  toNat_lt_of_isStemChar (isStem_of_isWord hw c hc)

theorem isWordStart_toLower (hascii : c.toNat < 128) (h : isWordStart c = true) :
    isWordStart c.toLower = true := toLower_keeps (by decide) hascii h

theorem isWordPart_toLower (hascii : c.toNat < 128) (h : isWordPart c = true) :
    isWordPart c.toLower = true := toLower_keeps (by decide) hascii h

theorem lowercase_isWord (hw : IsWord w) : IsWord (Text.lowercase w) := by
  have hascii := isWord_ascii hw
  obtain ⟨hash, c, cs, hhash, hlist, hc, hcs⟩ := isWord_iff.1 hw
  refine isWord_iff.2 ⟨hash, c.toLower, cs.map Char.toLower, hhash, ?_, ?_, ?_⟩
  · rw [Text.lowercase, String.toList_ofList, lowerList_ascii hascii, hlist, List.map_append]
    obtain rfl | rfl := hhash <;> rfl
  · exact isWordStart_toLower (hascii c (by simp [hlist])) hc
  · exact List.forall_mem_map.2 fun d hd => isWordPart_toLower (hascii d (by simp [hlist, hd]))
      (hcs d hd)

theorem methodStem_cases (w : String) : methodStem w = w ∨ w = methodStem w ++ "Function" := by
  unfold methodStem
  split
  next stem hstem =>
    split
    · exact .inl rfl
    · exact .inr (Text.eq_append_of_dropEnding? hstem)
  · exact .inl rfl

/-- Only a class of which the name is a hash and the ending gives a method without a name. -/
theorem methodName_isWord (hw : IsWord w) (hne : w ≠ "#Function") : IsWord (methodName w) := by
  have hstem : IsWord (methodStem w) := by
    obtain hstem | hsplit := methodStem_cases w
    · rwa [hstem]
    · refine IsWord.front (w := "Function") (hsplit ▸ hw) (methodStem_ne_empty hw) fun hhash => ?_
      rw [hhash] at hsplit
      exact hne hsplit
  have hascii := isWord_ascii hstem
  obtain ⟨hash, c, cs, hhash, hlist, hc, hcs⟩ := isWord_iff.1 hstem
  have hfirst := hascii c (by simp [hlist])
  obtain rfl | rfl := hhash
  · rw [methodName_of_stem hlist, lowerChar_ascii hfirst]
    exact isWord_iff.2 ⟨[], c.toLower, cs, .inl rfl, String.toList_ofList,
      isWordStart_toLower hfirst hc, hcs⟩
  · rw [methodName_of_stem hlist]
    exact isWord_iff.2 ⟨['#'], c, cs, .inr rfl, String.toList_ofList, hc, hcs⟩

namespace Service

theorem subset_of_placeholder? {key rest : List Char} (h : placeholder? cs = some (key, rest)) :
    key ⊆ cs := by
  unfold placeholder? at h
  simp only at h
  split at h
  · cases h
    exact (List.takeWhile_prefix _).subset
  · cases h

/-- Placeholders are filled with what is made from keys that stand in the path. -/
theorem mem_fillPlaceholders {value : String → String} {n : Nat}
    (h : x ∈ fillPlaceholders value n cs) :
    x ∈ cs ∨ ∃ key : String, key.toList ⊆ cs ∧ x ∈ (value key).toList := by
  induction cs generalizing n with
  | nil => cases h
  | cons c cs ih =>
      have hlater : ∀ {n}, x ∈ fillPlaceholders value n cs → x ∈ c :: cs ∨
          ∃ key : String, key.toList ⊆ c :: cs ∧ x ∈ (value key).toList := by
        intro n h
        obtain h | ⟨key, hkey, hx⟩ := ih h
        · exact .inl (List.mem_cons_of_mem c h)
        · exact .inr ⟨key, List.subset_cons_of_subset c hkey, hx⟩
      cases n with
      | succ n => exact hlater h
      | zero =>
          rw [fillPlaceholders] at h
          split at h
          next key rest hfound =>
            obtain h | h := List.mem_append.1 h
            · refine .inr ⟨String.ofList key, ?_, h⟩
              rw [String.toList_ofList]
              split at hfound
              · exact List.subset_cons_of_subset c (subset_of_placeholder? hfound)
              · cases hfound
            · exact hlater h
          · obtain rfl | h := List.mem_cons.1 h
            · exact .inl List.mem_cons_self
            · exact hlater h

/-- A character that words and the call around a parameter do not have stands in the address only if
it stands in the path. -/
theorem notMem_url {h : Handler} {path : String} (hnames : ∀ p ∈ h.parameters, IsWord p.name)
    (hstem : isStemChar x = false) (hcall : x ∉ "$\x7bencodeURIComponent()\x7d".toList)
    (hx : x ∉ path.toList) : x ∉ (url h path).toList := by
  have hname : ∀ key : String, key.toList ⊆ path.toList →
      x ∉ (placeholderName h key).toList := by
    intro key hkey
    rw [placeholderName]
    cases hfound : (h.parametersIn .path).find? (·.key == key) with
    | none => exact fun hmem => hx (hkey hmem)
    | some p =>
        have hp := (List.mem_filter.1 (List.mem_of_find?_eq_some hfound)).1
        exact (isStem_of_isWord (hnames p hp)).notMem hstem
  rw [url, String.toList_ofList]
  intro hmem
  obtain hmem | ⟨key, hkey, hmem⟩ := mem_fillPlaceholders hmem
  · exact hx hmem
  · have hparts := hname key hkey
    simp only [String.toList_append, List.mem_append] at hmem
    obtain (hmem | hmem) | hmem := hmem
    · exact hcall (by simp_all)
    · exact hparts hmem
    · exact hcall (by simp_all)

end Service

/-- What a method of the client needs. -/
structure Callable (h : Handler) (httpMethod path : String) : Prop where
  httpMethod : IsWord httpMethod
  path : '`' ∉ path.toList ∧ '\\' ∉ path.toList
  names : ∀ p ∈ h.parameters, IsWord p.name
  types : ∀ p ∈ h.parameters, IsTypeText p.type
  keys : ∀ p ∈ h.parametersIn .query, '\n' ∉ p.key.toList
  returnType : IsTypeText h.returnType
  method : IsWord (methodName h.name)
  notConstructor : methodName h.name ≠ "constructor"

section

variable {h : Handler} {httpMethod path : String}

theorem inert_template (hquote : '`' ∉ s.toList) (hslash : '\\' ∉ s.toList) :
    Inert ("        const url = `" ++ s ++ "`;" ++ "\n") := by
  have htext : "        const url = `" ++ s ++ "`;" =
      "        const url =" ++ " " ++ ("`" ++ s ++ "`" ++ ";") := String.toList_inj.1 (by simp)
  rw [htext]
  refine .line (by decide +kernel) ⟨[⟨.template, "`" ++ s ++ "`", false⟩, sign ';'],
    Closed.cons rfl rfl (closed_single rfl rfl), by simp [sign_ne_arrow], fun rest ns hrest => ?_⟩
  have hend : Scans false (";".toList ++ '\n' :: rest) (sign ';' :: ns) := .sign (by decide) hrest
  rw [String.toList_append, List.append_assoc]
  exact .template hquote hslash hend

/-- The path leaves the template of the address open to its end. -/
theorem inert_address (hcall : Callable h httpMethod path) :
    Inert ("        const url = `$\x7bthis.baseUrl\x7d" ++ Service.url h path ++ "`;" ++ "\n") := by
  have hfree : ∀ x ∈ ['`', '\\'], isStemChar x = false ∧
      x ∉ "$\x7bencodeURIComponent()\x7d".toList ∧ x ∉ "$\x7bthis.baseUrl\x7d".toList := by
    rw [List.forall_mem_cons, List.forall_mem_singleton]
    decide
  have hurl : ∀ x ∈ ['`', '\\'], x ∉ path.toList →
      x ∉ ("$\x7bthis.baseUrl\x7d" ++ Service.url h path).toList := by
    intro x hx hpath
    obtain ⟨hstem, haround, hbase⟩ := hfree x hx
    rw [String.toList_append, List.mem_append, not_or]
    exact ⟨hbase, Service.notMem_url hcall.names hstem haround hpath⟩
  have htext : "        const url = `$\x7bthis.baseUrl\x7d" ++ Service.url h path =
      "        const url = `" ++ ("$\x7bthis.baseUrl\x7d" ++ Service.url h path) :=
    String.toList_inj.1 (by simp)
  rw [htext]
  exact inert_template (hurl _ (by decide) hcall.path.1) (hurl _ (by decide) hcall.path.2)

def queryMarks (p : BoundParam) : List Mark :=
  if p.key = p.name then [.name p.name] else [(nameMark p.key).onLine false, sign ':', .name p.name]

theorem readsAs_queryEntry {p : BoundParam} (hname : IsWord p.name) (hkey : '\n' ∉ p.key.toList) :
    ReadsAs (Service.queryEntry p) (queryMarks p) := by
  intro rest ms hrest hms
  rw [Service.queryEntry, queryMarks]
  split
  · exact .name hname hrest hms
  · have hvalue : Scans false (':' :: ' ' :: (p.name.toList ++ rest))
        (sign ':' :: .name p.name :: ms) := .sign (by decide) (.space (.name hname hrest hms))
    have hentry : Scans false _ _ := .memberName hkey (edge_cons.2 (by decide)) hvalue
    simpa [String.toList_append] using hentry

/-- The parameters of a request are an object of which the entries are names, or keys and names. -/
theorem inert_query {ps : List BoundParam} (hnames : ∀ p ∈ ps, IsWord p.name)
    (hkeys : ∀ p ∈ ps, '\n' ∉ p.key.toList) :
    Inert ("        options.params = \x7b " ++
      String.intercalate ", " (ps.map Service.queryEntry) ++ " \x7d;" ++ "\n") := by
  have hentries := readsAs_commas fun p hp => readsAs_queryEntry (hnames p hp) (hkeys p hp)
  have hclosed : Closed (separatedMarks (sign ',') (ps.map queryMarks)) := by
    refine closed_separated (by decide) (List.forall_mem_map.2 fun p _ => ?_)
    rw [queryMarks]
    split
    · exact closed_single rfl rfl
    · exact closed_nameMark false (.cons rfl rfl (closed_single rfl rfl))
  have harrow : ArrowFree (separatedMarks (sign ',') (ps.map queryMarks)) := by
    refine arrowFree_separated (by decide) (List.forall_mem_map.2 fun p _ => ?_)
    rw [queryMarks]
    split <;> simp [nameMark_ne_arrow, sign_ne_arrow]
  have htext : "        options.params = \x7b " ++
      String.intercalate ", " (ps.map Service.queryEntry) ++ " \x7d;" =
        "        options.params =" ++ " " ++
          ("\x7b " ++ String.intercalate ", " (ps.map Service.queryEntry) ++ " \x7d;") :=
    String.toList_inj.1 (by simp)
  rw [htext]
  have hobject : Closed (sign '\x7b' :: (separatedMarks (sign ',') (ps.map queryMarks) ++
      [sign '\x7d'])) := hclosed.enclosed rfl
  refine .line (by decide +kernel) ⟨_, hobject.append (show Closed [sign ';'] by decide), ?_,
    fun rest ns hrest => ?_⟩
  · simp [harrow, sign_ne_arrow]
  · have hend : Scans false (' ' :: '\x7d' :: ';' :: '\n' :: rest)
        (sign '\x7d' :: sign ';' :: ns) := .space (.sign (by decide) (.sign (by decide) hrest))
    have hline : Scans false ('\x7b' :: ' ' :: _) (sign '\x7b' :: _) :=
      .sign (by decide) (.space (hentries _ _ (edge_cons.2 (by decide)) hend))
    simpa [String.toList_append] using hline

def callMarks (httpMethod type : String) (arguments : List String) : List Mark :=
  .name "this" :: ⟨.dot, ".", false⟩ :: .name "http" :: ⟨.dot, ".", false⟩ :: .name httpMethod ::
    sign '<' :: (optionalTypeMarks (typeOf? type) ++ sign '>' :: sign '(' ::
      (separatedMarks (sign ',') (arguments.map fun w => [.name w]) ++ [sign ')', sign ';']))

theorem closed_callMarks {arguments : List String} {type : String} (htype : IsTypeText type) :
    Closed (callMarks httpMethod type arguments) := by
  have harguments : Closed (separatedMarks (sign ',') (arguments.map fun w => [Mark.name w])) :=
    closed_separated (by decide) (List.forall_mem_map.2 fun w _ => closed_single rfl rfl)
  have hlist : Closed (sign '(' ::
      (separatedMarks (sign ',') (arguments.map fun w => [Mark.name w]) ++ [sign ')'])) :=
    harguments.enclosed rfl
  have hend : Closed (sign '(' ::
      (separatedMarks (sign ',') (arguments.map fun w => [Mark.name w]) ++
        [sign ')', sign ';'])) := by
    simpa using hlist.append (show Closed [sign ';'] by decide)
  exact .cons rfl rfl (.cons rfl rfl (.cons rfl rfl (.cons rfl rfl (.cons rfl rfl (.cons rfl rfl
    (htype.closed.append (.cons rfl rfl hend)))))))

theorem arrowFree_callMarks {arguments : List String} {type : String} (htype : IsTypeText type) :
    ArrowFree (callMarks httpMethod type arguments) := by
  have harguments : ArrowFree (separatedMarks (sign ',') (arguments.map fun w => [Mark.name w])) :=
    arrowFree_separated (by decide) (by simp)
  simp [callMarks, htype.arrowFree, harguments, sign_ne_arrow]

/-- What a method returns: the call with the type of the result. -/
theorem inert_return {arguments : List String} {type : String} (hmethod : IsWord httpMethod)
    (htype : IsTypeText type) (harguments : ∀ w ∈ arguments, IsWord w) :
    Inert ("        return this.http." ++ httpMethod ++ "<" ++ type ++ ">(" ++
      String.intercalate ", " arguments ++ ");" ++ "\n") := by
  have hlist : ReadsAs (String.intercalate ", " arguments)
      (separatedMarks (sign ',') (arguments.map fun w => [Mark.name w])) := by
    simpa using readsAs_commas fun w hw => readsAs_word (harguments w hw)
  have htext : "        return this.http." ++ httpMethod ++ "<" ++ type ++ ">(" ++
      String.intercalate ", " arguments ++ ");" = "        return" ++ " " ++ ("this.http." ++
        httpMethod ++ "<" ++ type ++ ">(" ++ String.intercalate ", " arguments ++ ");") :=
    String.toList_inj.1 (by simp)
  rw [htext]
  refine .line (by decide +kernel) ⟨callMarks httpMethod type arguments, closed_callMarks htype,
    arrowFree_callMarks htype, fun rest ns hrest => ?_⟩
  have hend : Scans false (')' :: ';' :: '\n' :: rest) (sign ')' :: sign ';' :: ns) :=
    .sign (by decide) (.sign (by decide) hrest)
  have hlist : Scans false ('(' :: _) (sign '(' :: _) :=
    .sign (by decide) (hlist _ _ (edge_cons.2 (by decide)) hend)
  have hresult : Scans false ('>' :: _) (sign '>' :: _) := .sign (by decide) hlist
  have hcall : Scans false ('<' :: _) (sign '<' :: _) :=
    .sign (by decide) (htype.reads _ _ (edge_cons.2 (by decide)) hresult)
  have hmember : Scans false ('.' :: _) (_ :: .name httpMethod :: _) :=
    .member hmethod (starts_cons.2 (by decide)) hcall
  have hhttp : Scans false ('.' :: ("http".toList ++ _)) (_ :: .name "http" :: _) :=
    .member (.inl (by decide)) (starts_cons.2 (by decide)) hmember
  have hline : Scans false ("this".toList ++ _) (.name "this" :: _) :=
    .part (.inl (by decide)) (starts_cons.2 (by decide)) hhttp
  simpa [String.toList_append, callMarks] using hline

/-- The lines between the braces of a method. -/
def bodyLines (h : Handler) (httpMethod path : String) : List String :=
  let query := (h.parametersIn .query).map Service.queryEntry
  let arguments :=
    if Service.hasPayload httpMethod then
      ["url", (h.bodyParameter?.map (·.name)).getD "null", "options"]
    else ["url", "options"]
  ["        const url = `$\x7bthis.baseUrl\x7d" ++ Service.url h path ++ "`;",
    "        const options = \x7b headers: \x7b\x7d as any, params: null as any \x7d;",
    "        options.headers['Accept'] = 'application/json';"]
  ++ (if Service.hasPayload httpMethod then
      ["        options.headers['Content-Type'] = 'application/json';"] else [])
  ++ (if query.isEmpty then []
      else ["        options.params = \x7b " ++ String.intercalate ", " query ++ " \x7d;"])
  ++ ["        return this.http." ++ httpMethod ++ "<" ++ h.returnType ++ ">(" ++
      String.intercalate ", " arguments ++ ");"]

theorem inert_lines {texts : List String} (h : ∀ l ∈ texts, Inert (l ++ "\n")) :
    Inert (lines texts) := .join (List.forall_mem_map.2 h)

theorem inert_body (hcall : Callable h httpMethod path) :
    Inert (lines (bodyLines h httpMethod path)) := by
  have hquery : ∀ p ∈ h.parametersIn .query, IsWord p.name := fun p hp =>
    hcall.names p (List.mem_filter.1 hp).1
  have hbody : IsWord ((h.bodyParameter?.map (·.name)).getD "null") := by
    cases hfound : h.bodyParameter? with
    | none => exact .inl (by decide)
    | some p => exact hcall.names p (List.mem_filter.1 (List.mem_of_mem_head? hfound)).1
  have hwords : IsWord "url" ∧ IsWord "options" := ⟨.inl (by decide), .inl (by decide)⟩
  have harguments : ∀ w ∈ (if Service.hasPayload httpMethod then
      ["url", (h.bodyParameter?.map (·.name)).getD "null", "options"] else ["url", "options"]),
      IsWord w := by
    split
    · simp [hwords, hbody]
    · simp [hwords]
  refine inert_lines fun l hl => ?_
  simp only [bodyLines, List.mem_append] at hl
  obtain ((hl | hl) | hl) | hl := hl
  · simp only [List.mem_cons, List.not_mem_nil, or_false] at hl
    obtain rfl | rfl | rfl := hl
    · exact inert_address hcall
    · exact .fixed (by decide +kernel)
    · exact .fixed (by decide +kernel)
  · split at hl
    · rw [List.mem_singleton.1 hl]
      exact .fixed (by decide +kernel)
    · cases hl
  · split at hl
    · cases hl
    · rw [List.mem_singleton.1 hl]
      exact inert_query hquery hcall.keys
  · rw [List.mem_singleton.1 hl]
    exact inert_return hcall.httpMethod hcall.returnType harguments

def declaredLine (h : Handler) : String :=
  "    public " ++ methodName h.name ++ "(" ++
    String.intercalate ", " (h.parameters.map fun p => p.name ++ ": " ++ p.type) ++ ") \x7b"

theorem method_lines (h : Handler) (httpMethod path : String) :
    Service.method h httpMethod path =
      declaredLine h ++ "\n" ++ lines (bodyLines h httpMethod path) ++ ("    \x7d\n" ++ "\n") := by
  have hlines : Service.method h httpMethod path =
      lines ((declaredLine h :: bodyLines h httpMethod path) ++ ["    \x7d", ""]) := by
    have harguments (body : String) :
        String.intercalate ", " (if Service.hasPayload httpMethod then ["url", body, "options"]
          else ["url", "options"]) =
        if Service.hasPayload httpMethod then "url, " ++ body ++ ", options"
        else "url, options" := by
      split
      · apply String.toList_inj.1
        simp
      · rfl
    rw [Service.method, bodyLines, declaredLine]
    simp only [harguments]
    simp
  rw [hlines, lines_append, lines_cons, lines_cons, lines_blank, lines_nil]
  apply String.toList_inj.1
  simp

/-- A parameter as the client declares it, with the type that its text is. -/
def clientParam (p : BoundParam) : Param := ⟨p.name, typeOf? p.type, false, false, false, []⟩

def paramMarks (p : Param) : List Mark := .name p.name :: sign ':' :: optionalTypeMarks p.type

def clientMethod (h : Handler) : Method :=
  ⟨methodName h.name, .method, false, [], h.parameters.map clientParam, none, []⟩

def methodMarks (h : Handler) (body : List Mark) : List Mark :=
  (Mark.name "public").onLine true :: .name (methodName h.name) :: sign '(' ::
    (separatedMarks (sign ',') ((h.parameters.map clientParam).map paramMarks) ++
      sign ')' :: bodyMarks [body])

theorem readsAs_param {p : BoundParam} (hname : IsWord p.name) (htype : IsTypeText p.type) :
    ReadsAs (p.name ++ ": " ++ p.type) (paramMarks (clientParam p)) := by
  intro rest ms hrest hms
  have hascribed : Scans false (':' :: ' ' :: (p.type.toList ++ rest)) (sign ':' :: _) :=
    .sign (by decide) (.space (htype.reads rest ms hrest hms))
  have hparam : Scans false _ _ := .name hname (edge_cons.2 (by decide)) hascribed
  simpa [String.toList_append, paramMarks, clientParam] using hparam

/-- The marks of a method: its name, its parameters, and a body to be skipped. -/
theorem method_readsLines (hcall : Callable h httpMethod path) : ∃ body, Closed body ∧
    ArrowFree body ∧ ReadsLines (Service.method h httpMethod path) (methodMarks h body) := by
  obtain ⟨body, hclosed, harrow, hbody⟩ := inert_body hcall
  refine ⟨body, hclosed, harrow, fun rest ns hrest => ?_⟩
  have hend : Scans true ("    ".toList ++ '\x7d' :: '\n' :: '\n' :: rest)
      ((sign '\x7d').onLine true :: ns) :=
    .space (.space (.space (.space (.sign (by decide) (.newline (.newline hrest))))))
  have hbrace : Scans false (')' :: ' ' :: '\x7b' :: '\n' :: _) (sign ')' :: sign '\x7b' :: _) :=
    .sign (by decide) (.space (.sign (by decide) (.newline (hbody _ _ hend))))
  have hparams := readsAs_commas (fun p hp => readsAs_param (hcall.names p hp) (hcall.types p hp))
    _ _ (edge_cons.2 (by decide)) hbrace
  have hname : Scans false (' ' :: ((methodName h.name).toList ++ '(' :: _))
      (.name _ :: sign '(' :: _) :=
    .space (.name hcall.method (edge_cons.2 (by decide)) (.sign (by decide) hparams))
  have hline : Scans true ("    ".toList ++ ("public".toList ++ _)) (_ :: _) :=
    .space (.space (.space (.space (.word (.inl (by decide)) (edge_cons.2 (by decide)) hname))))
  rw [method_lines, declaredLine, methodMarks, bodyMarks, List.map_map]
  simpa [String.toList_append, Function.comp_def, Mark.name, Mark.onLine] using hline

variable {n : Nat}

/-- A method of the client is read as a member, whatever words its name and its parameters have. -/
theorem method_readsMember {body : List Mark} (hbody : Closed body)
    (htypes : ∀ p ∈ h.parameters, IsTypeText p.type)
    (hconstructor : methodName h.name ≠ "constructor")
    (hlevels : ∀ p ∈ h.parameters, (optionalTypeMarks (typeOf? p.type)).length ≤ n + 1) :
    ReadsMember (Grammar.withLevels (n + 1)) (methodMarks h body) (.method (clientMethod h)) := by
  refine Source.method_readsMember true hconstructor rfl (by simpa using hbody) fun rest => ?_
  refine Listed.lists (listed_separated (List.forall_mem_map.2 fun p hp => ⟨fun _ => ?_, ?_⟩)) rfl
    (by decide)
  · simp [paramMarks]
  obtain ⟨t, ht, -, htype⟩ := (htypes p hp).exists_canonical
  have hlevels := hlevels p hp
  rw [htype] at hlevels
  intro r rest hkind
  have hdecorators : ∀ d ∈ ([] : List PlainDecorator), ∀ w ∈ d.argument, w ∉ exprWords := nofun
  have hwords : ∀ v ∈ ([] : List Mark), v.kind = .word ∧ v.text ∈ Grammar.paramWords :=
    nofun
  have hname : (Mark.name p.name).kind = .word := rfl
  rw [paramMarks, clientParam, htype]
  exact param_takes hdecorators hwords hname (ht.readBy hlevels) hkind

end
end HandlerWeave.Artifact
