import HandlerWeave.Proofs.Types.ReadBack

/-!
What is left of a written type in its text. Nothing that is written in a type is lost but what the
marks on the elements of tuples say.
-/
namespace HandlerWeave.Source

open Mark

/-- The writing of a type gives its text, unless a name that it mentions cannot be followed. -/
theorem textAndNames_text (m : Module) (scope : List String) (t : TypeNode) (tree : FileTree)
    (a : Analysis) :
    (HandlerWeave.Types.textAndNames m scope t tree a).1.map Prod.fst =
      (HandlerWeave.Types.visit HandlerWeave.Types.define m (t.mentions scope) tree a).1.map
        fun _ => t.text scope := by
  rw [HandlerWeave.Types.textAndNames, HandlerWeave.Types.Rendering.type_run, AnalysisM.bind_run]
  cases HandlerWeave.Types.visit HandlerWeave.Types.define m (t.mentions scope) tree a with
  | mk result b => cases result <;> rfl

/-- A written type is read, to its end, as the tree it means. The text of the tree has the marks of
what was written up to the labels of elements, the qualifiers of names, the quotes of names, last
commas and what sets members apart, without the marks that make elements of tuples optional or
rests; and it is what writing the type gives. -/
theorem written_text {source : String} {scope : List String} {p : Phrase}
    (h : Written scope .whole p)
    (hsource : (lex source).map Token.mark = p.marks ++ [.final]) :
    (∃ last, readType source = .ok (p.type, last) ∧ last.ahead = []) ∧
    (lex (p.type.text scope)).map Token.mark = p.plain false ++ [.final] ∧
    ∀ (m : Module) (tree : FileTree) (a : Analysis),
      (HandlerWeave.Types.textAndNames m scope p.type tree a).1.map Prod.fst =
        (HandlerWeave.Types.visit HandlerWeave.Types.define m (p.type.mentions scope) tree a).1.map
          fun _ => p.type.text scope := by
  refine ⟨?_, ?_, fun m tree a => textAndNames_text m scope p.type tree a⟩
  · exact readType_of_marks h.arrowFree hsource fun _ hn =>
      (h.readBy hn).takes [] (.of_endsType rfl)
  · have hscans : Scans false ((p.type.text scope).toList ++ []) (p.type.marks ++ [.final]) :=
      h.printable.scanned [] [.final] edge_nil scans_nil
    rw [List.append_nil] at hscans
    rw [hscans.lex, h.marks_type]

/-- A tuple on one line, with commas between its elements. -/
def tuplePhrase (elements : List Element) : Phrase where
  marks := sign '[' :: (separatedMarks (sign ',') (elements.map Element.marks) ++ [sign ']'])
  type := .tuple (elements.map fun e => e.phrase.type)
  plain keep :=
    sign '[' :: (separatedMarks (sign ',') (elements.map (Element.plain keep)) ++ [sign ']'])

theorem tuplePhrase_written {scope : List String} {elements : List Element}
    (h : ∀ e ∈ elements, Written scope .whole e.phrase) :
    Written scope .whole (tuplePhrase elements) :=
  (Written.tuple ⟨sign '[', rfl⟩ ⟨sign ']', rfl⟩ (listed_separated fun _ _ => rfl) h).of_operand
    .whole

def restMark : MarkOf .ellipsis := ⟨⟨.ellipsis, "...", false⟩, rfl⟩

def questionMark : MarkOf .question := ⟨sign '?', rfl⟩

def labelled (word : String) (optional : Option (MarkOf .question)) : Option Label :=
  some ⟨⟨name word, rfl⟩, optional, ⟨sign ':', rfl⟩⟩

/-- The elements of `[id: m.Id, count?: number, ...rest: boolean[]]`. -/
def labelledElements : List Element := [
  ⟨none, labelled "id" none, ⟨[name "m", ⟨.dot, ".", false⟩, name "Id"],
    .reference ⟨some "m", "Id"⟩ [], fun _ => [name "Id"]⟩, none⟩,
  ⟨none, labelled "count" (some questionMark), (TypeNode.keyword .number).phrase, none⟩,
  ⟨some restMark, labelled "rest" none, (TypeNode.array (.keyword .boolean)).phrase, none⟩]

def labelledText : String := "[id: m.Id, count?: number, ...rest: boolean[]]"

theorem keyword_written (word : Keyword) :
    Written [] .whole (TypeNode.keyword word).phrase :=
  (TypeNode.Canonical.keyword word).written .whole trivial

theorem keywords_written (word : Keyword) :
    Written [] .whole (TypeNode.array (.keyword word)).phrase := by
  have hoperand : (TypeNode.keyword word).IsOperand := trivial
  exact (TypeNode.Canonical.array hoperand (.keyword word)).written .whole trivial

theorem labelledElements_written :
    ∀ e ∈ labelledElements, Written [] .whole e.phrase := by
  have hpath : IsPath ([name "m"] ++ ⟨.dot, ".", false⟩ :: [name "Id"]) ["m"] "Id" := by
    refine ⟨.cons ⟨false, rfl⟩ rfl (.one ⟨false, rfl⟩), .inl (by decide), ?_, nofun⟩
    rintro _ ⟨⟩
    decide
  simp only [labelledElements, List.forall_mem_cons]
  exact ⟨(Written.reference hpath).of_operand .whole, keyword_written .number,
    keywords_written .boolean, List.forall_mem_nil _⟩

theorem written_text_labelled :
    Written [] .whole (tuplePhrase labelledElements) ∧
    (lex labelledText).map Token.mark = (tuplePhrase labelledElements).marks ++ [.final] ∧
    (∃ last, readType labelledText = .ok ((tuplePhrase labelledElements).type, last) ∧
      last.ahead = []) ∧
    (tuplePhrase labelledElements).type.text [] = "[Id, number, boolean[]]" ∧
    (lex ((tuplePhrase labelledElements).type.text [])).map Token.mark =
      (tuplePhrase labelledElements).plain false ++ [.final] := by
  have h := tuplePhrase_written labelledElements_written
  have hsource : (lex labelledText).map Token.mark =
      (tuplePhrase labelledElements).marks ++ [.final] := by rfl
  obtain ⟨hread, htext, -⟩ := written_text h hsource
  exact ⟨h, hsource, hread, by rfl, htext⟩

/-- The elements of `[string?, ...number[]]`. -/
def markedElements : List Element := [
  ⟨none, none, (TypeNode.keyword .string).phrase, some questionMark⟩,
  ⟨some restMark, none, (TypeNode.array (.keyword .number)).phrase, none⟩]

/-- With nothing but these marks to lose, the text of a tuple has other marks than the tuple. -/
theorem element_marks_lost :
    Written [] .whole (tuplePhrase markedElements) ∧
    (lex "[string?, ...number[]]").map Token.mark =
      (tuplePhrase markedElements).marks ++ [.final] ∧
    (tuplePhrase markedElements).plain true = (tuplePhrase markedElements).marks ∧
    (readType "[string?, ...number[]]").map Prod.fst = .ok (tuplePhrase markedElements).type ∧
    (tuplePhrase markedElements).type.text [] = "[string, number[]]" ∧
    (lex "[string, number[]]").map Token.mark ≠
      (tuplePhrase markedElements).plain true ++ [.final] := by
  have h : ∀ e ∈ markedElements, Written [] .whole e.phrase := by
    simp only [markedElements, List.forall_mem_cons]
    exact ⟨keyword_written .string, keywords_written .number, List.forall_mem_nil _⟩
  refine ⟨tuplePhrase_written h, by rfl, by rfl, by rfl, by rfl, fun heq => ?_⟩
  exact absurd (congrArg List.length heq) (by decide)

end HandlerWeave.Source
