import HandlerWeave.Proofs.Analysis.Run
import HandlerWeave.Proofs.Declarations.Printed
import HandlerWeave.Proofs.Source.Items
import HandlerWeave.Proofs.Types.Rendering
import HandlerWeave.Types.Define

/-!
Reading undoes the writing of types. A structural type is shown whole by its text, so that what is
left of it in the text is the type itself. If it came out of the grammar, it binds in the text as it
does in the tree, and the grammar gives it again.
-/
namespace HandlerWeave.Source

/-- The member is a property with a type or an index signature. -/
def TypeMember.IsTyped : TypeMember → Prop
  | .property _ _ type => type.isSome
  | .index _ _ _ => True
  | .method _ => False

/-- The type is made of keywords, literals, names on their own, lists of types and shapes that hold
data only. No name is a type parameter or a word that is read in another way, and no string has a
line break. -/
inductive TypeNode.Structural (scope : List String) : TypeNode → Prop
  | keyword (word : Keyword) : Structural scope (.keyword word)
  | literal {value : LiteralType} (h : ∀ s, value = .string s → '\n' ∉ s.toList) :
      Structural scope (.literal value)
  | reference {name : String} {args : List TypeNode} (hscope : name ∉ scope)
      (hreserved : name ∉ reservedNames) (hkeyword : Keyword.ofText? name = none)
      (hbool : name ∉ ["true", "false"]) (hargs : ∀ t ∈ args, Structural scope t) :
      Structural scope (.reference ⟨none, name⟩ args)
  | array {element : TypeNode} (h : Structural scope element) : Structural scope (.array element)
  | tuple {elements : List TypeNode} (h : ∀ t ∈ elements, Structural scope t) :
      Structural scope (.tuple elements)
  | union {arms : List TypeNode} (h : ∀ t ∈ arms, Structural scope t) :
      Structural scope (.union arms)
  | intersection {parts : List TypeNode} (h : ∀ t ∈ parts, Structural scope t) :
      Structural scope (.intersection parts)
  | parenthesized {inner : TypeNode} (h : Structural scope inner) :
      Structural scope (.parenthesized inner)
  | shape {members : List TypeMember} (htyped : ∀ m ∈ members, m.IsTyped)
      (hnames : ∀ m ∈ members, ∀ n ∈ m.name?, '\n' ∉ n.toList)
      (h : ∀ m ∈ members, ∀ t ∈ m.types, Structural scope t) : Structural scope (.shape members)

namespace TypeNode.Structural

variable {scope : List String} {t : TypeNode}

theorem legible (h : t.Structural scope) : t.Legible scope := by
  induction h with
  | keyword word => exact .keyword word
  | literal h => exact .literal h
  | @reference name args hscope hreserved hkeyword hbool _ ih =>
      have hparameter : isParameter scope ⟨none, name⟩ = false := by simp [isParameter, hscope]
      exact .reference hreserved hparameter (.inr ⟨hscope, hkeyword, hbool⟩) ih
  | array _ ih => exact .array ih
  | tuple _ ih => exact .tuple ih
  | union _ ih => exact .union ih
  | intersection _ ih => exact .intersection ih
  | parenthesized _ ih => exact .parenthesized ih
  | shape _ hnames _ ih => exact .shape hnames ih

theorem printedTypes_of {types : List TypeNode} (h : ∀ t ∈ types, t.printed scope = t) :
    printedTypes scope types = types := by
  rw [printedTypes_eq, List.map_congr_left h, List.map_id']

/-- The members of a structural shape are all there in its text. -/
theorem printedMembers_of {members : List TypeMember} (htyped : ∀ m ∈ members, m.IsTyped)
    (h : ∀ m ∈ members, ∀ t ∈ m.types, t.printed scope = t) :
    printedMembers scope members = members := by
  induction members with
  | nil => rfl
  | cons m members ih =>
      obtain ⟨hm, hmembers⟩ := List.forall_mem_cons.1 htyped
      obtain ⟨hmtypes, htypes⟩ := List.forall_mem_cons.1 h
      cases m with
      | property name optional type =>
          obtain ⟨type, rfl⟩ := Option.isSome_iff_exists.1 hm
          have htype : type.printed scope = type := hmtypes type (by simp [TypeMember.types])
          rw [printedMembers, ih hmembers htypes, printedOptional, htype]
      | index keyName keyType type =>
          have hkey : keyType.printed scope = keyType := hmtypes _ (by simp [TypeMember.types])
          have htype : type.printed scope = type := hmtypes _ (by simp [TypeMember.types])
          rw [printedMembers, ih hmembers htypes, hkey, htype]
      | method name => exact hm.elim

/-- The text of a structural type shows all of it. -/
theorem printed_eq (hregular : t.Regular) (h : t.Structural scope) : t.printed scope = t := by
  induction hregular with
  | keyword | literal | verbatim => cases h <;> rfl
  | reference _ _ ih =>
      cases h with
      | @reference name args hscope _ hkeyword hbool hargs =>
          have hparameter : isParameter scope ⟨none, name⟩ = false := by simp [isParameter, hscope]
          simp only [List.mem_cons, List.not_mem_nil, or_false, not_or] at hbool
          rw [TypeNode.printed, hparameter, if_neg (by decide), TypeNode.named, hkeyword,
            printedTypes_of fun t ht => ih t ht (hargs t ht)]
          simp only [if_neg hbool.1, if_neg hbool.2]
  | array hoperand _ ih =>
      cases h with
      | array h => rw [TypeNode.printed, hoperand.needsNone, if_neg (by decide), ih h]
  | tuple _ ih =>
      cases h with
      | tuple h => rw [TypeNode.printed, printedTypes_of fun t ht => ih t ht (h t ht)]
  | union _ _ _ ih =>
      cases h with
      | union h => rw [TypeNode.printed, printedTypes_of fun t ht => ih t ht (h t ht)]
  | intersection _ _ _ ih =>
      cases h with
      | intersection h => rw [TypeNode.printed, printedTypes_of fun t ht => ih t ht (h t ht)]
  | parenthesized _ ih =>
      cases h with
      | parenthesized h => rw [TypeNode.printed, ih h]
  | shape _ _ ih =>
      cases h with
      | shape htyped _ h =>
          rw [TypeNode.printed,
            printedMembers_of htyped fun m hm t ht => ih m hm t ht (h m hm t ht)]

end TypeNode.Structural

/-- Reads a type from the front of a text, with a level for each token. -/
def readType (text : String) : Except SyntaxError (TypeNode × Cursor) :=
  (Grammar.withLevels (lex text).length).type (Cursor.ofTokens (lex text))

/-- A type that the grammar takes from the marks of a text is read from the text, to its end. -/
theorem readType_of_marks {source : String} {ms : List Mark} {t : TypeNode} (harrow : ArrowFree ms)
    (hlex : (lex source).map Token.mark = ms ++ [.final])
    (h : ∀ n, ms.length ≤ n → Takes (Grammar.withLevels n).type (ms ++ []) t []) :
    ∃ last, readType source = .ok (t, last) ∧ last.ahead = [] := by
  have hlength : ms.length ≤ (lex source).length := by
    have hmarks := congrArg List.length hlex
    simp only [List.length_map, List.length_append, List.length_singleton] at hmarks
    omega
  have hshows := shows_of_lex harrow hlex
  rw [← List.append_nil ms] at hshows
  obtain ⟨last, hread, hlast⟩ := h _ hlength _ hshows
  exact ⟨last, hread, List.map_eq_nil_iff.1 hlast.ahead⟩

/-- A canonical type is read again from its text, to the end. -/
theorem TypeNode.Canonical.readType_text {t : TypeNode} (ht : t.Canonical) :
    ∃ last, readType (t.text []) = .ok (t, last) ∧ last.ahead = [] := by
  have hscans : Scans false ((t.text []).toList ++ []) (t.marks ++ [.final]) :=
    ht.scanned [] [.final] edge_nil scans_nil
  rw [List.append_nil] at hscans
  exact readType_of_marks ht.arrowFree hscans.lex fun _ hn => (ht.readBy hn).takes [] rfl

/-- The text of a structural type that the grammar gives is read as the same type again, to its end.
It is the text that writing the type gives, whatever the analysis has done before. -/
theorem type_text_readable {source : String} {levels : Nat} {c d : Cursor} {t : TypeNode}
    (hc : c.Within (lex source)) (hread : (Grammar.withLevels levels).type c = .ok (t, d))
    {scope : List String} (ht : t.Structural scope) :
    (∃ last, readType (t.text scope) = .ok (t, last) ∧ last.ahead = []) ∧
    ∀ (m : Module) (tree : FileTree) (a b : Analysis) (text : String) (names : List String),
      HandlerWeave.Types.textAndNames m scope t tree a = (.ok (text, names), b) →
        text = t.text scope := by
  have hregular : t.Regular := by
    have hkeeps := (Grammar.withLevels_regular (lex_sound source) levels).type c hc
    rw [hread] at hkeeps
    exact hkeeps.2
  have hprinted := ht.printed_eq hregular
  constructor
  · have hcanonical := hregular.printed_canonical ht.legible
    have htext := ht.legible.printed_text (List.nil_subset scope)
    rw [hprinted] at hcanonical htext
    rw [← htext]
    exact hcanonical.readType_text
  · intro m tree a b text names hrun
    rw [HandlerWeave.Types.textAndNames, HandlerWeave.Types.Rendering.type_run,
      AnalysisM.bind_run] at hrun
    split at hrun
    · cases hrun
      rfl
    · cases hrun

/-- The type `{ 'it is': string; [key: string]: Item<1>[]; }`. -/
def itemShape : TypeNode :=
  .shape [.property "it is" false (some (.keyword .string)),
    .index "key" (.keyword .string)
      (.array (.reference ⟨none, "Item"⟩ [.literal (.number "1")]))]

def shapeText : String := "\x7b 'it is': string, [key: string]: Item<1>[] \x7d"

theorem itemShape_structural : itemShape.Structural ["T"] := by
  have hitem : (TypeNode.reference ⟨none, "Item"⟩ [.literal (.number "1")]).Structural ["T"] :=
    .reference (by decide) (by decide) (by decide) (by decide)
      (List.forall_mem_singleton.2 (.literal nofun))
  have hstring : (TypeNode.keyword .string).Structural ["T"] := .keyword .string
  refine .shape (by simp [TypeMember.IsTyped]) (by simp [TypeMember.name?]) ?_
  simp [TypeMember.types, hstring, hitem.array]

theorem ok_of_map_fst {ε α β : Type} {result : Except ε (α × β)} {a : α}
    (h : result.map Prod.fst = .ok a) : ∃ b, result = .ok (a, b) := by
  cases result with
  | error e => cases h
  | ok pair =>
      cases h
      exact ⟨pair.2, rfl⟩

theorem type_text_readable_shape :
    (Cursor.ofTokens (lex shapeText)).Within (lex shapeText) ∧
      (∃ d, (Grammar.withLevels 9).type (Cursor.ofTokens (lex shapeText)) = .ok (itemShape, d)) ∧
      itemShape.Structural ["T"] ∧
      ∃ last, readType (itemShape.text ["T"]) = .ok (itemShape, last) ∧ last.ahead = [] := by
  have hwithin := Cursor.within_ofTokens (lex_ne_nil shapeText)
  have hread : ((Grammar.withLevels 9).type (Cursor.ofTokens (lex shapeText))).map Prod.fst =
      .ok itemShape := by rfl
  obtain ⟨d, hd⟩ := ok_of_map_fst hread
  exact ⟨hwithin, ⟨d, hd⟩, itemShape_structural,
    (type_text_readable hwithin hd itemShape_structural).1⟩

/-- A line break in the name of a property is printed as it is, and no string goes over it. -/
theorem lineBreak_name_unreadable :
    let t : TypeNode := .shape [.property "a\nb" false (some (.keyword .string))]
    (readType "\x7b 'a\\nb': string \x7d").map Prod.fst = .ok t ∧
      t.text [] = "\x7b 'a\nb': string; \x7d" ∧
      (readType (t.text [])).map Prod.fst =
        .error ⟨.expected "type member" (.stray "'a"), 2⟩ := by
  exact ⟨by rfl, by rfl, by rfl⟩

end HandlerWeave.Source
