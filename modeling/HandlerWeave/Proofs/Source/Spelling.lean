import HandlerWeave.Proofs.Source.Marks

/-!
Texts with any white space in them. What such a text is read as depends on whether a line break
stands in front of it, and it says the same of the text behind it.
-/
namespace HandlerWeave.Source

open Lexer

/-- Behind a line break or not, as `line` says, the text is read as these marks, and `last` says
whether a line break stands behind the last of them. -/
def Lexes (line : Bool) (cs : List Char) (ms : List Mark) (last : Bool) : Prop :=
  ∀ rest ns, Edge rest → Scans last rest ns → Scans line (cs ++ rest) (ms ++ ns)

variable {line mid last : Bool} {c : Char} {cs ds rest : List Char} {ms ns : List Mark}
  {kind : Token.Kind} {w : String}

theorem Scans.blank (hc : isBlank c = true) (h : Scans (line || c == '\n') cs ms) :
    Scans line (c :: cs) ms := by
  intro before gap offset hgap
  rw [scan_blank hc]
  refine h _ _ _ ?_
  have hbreak : [c].contains '\n' = (c == '\n') := by
    rw [List.contains_cons, List.contains_nil, Bool.or_false, Bool.beq_comm]
  rw [List.contains_append, hgap, hbreak]

theorem Scans.blanks (hall : ∀ c ∈ cs, isBlank c = true)
    (h : Scans (line || cs.contains '\n') rest ms) : Scans line (cs ++ rest) ms := by
  induction cs generalizing line with
  | nil => simpa using h
  | cons c cs ih =>
      obtain ⟨hc, hcs⟩ := List.forall_mem_cons.1 hall
      refine .blank hc (ih hcs ?_)
      rwa [List.contains_cons, Bool.beq_comm, ← Bool.or_assoc] at h

/-- White space continues nothing in front of it. -/
theorem edge_blanks (hall : ∀ c ∈ cs, isBlank c = true) (hrest : Edge rest) :
    Edge (cs ++ rest) := by
  refine Starts.append (fun c hc => ?_) hrest
  have hblank : ∀ d ∈ [' ', '\t', '\r', '\n', '\x0c'], continues d = false := by
    simp [continues, isWordPart]
  have hmem := hall c (List.mem_of_mem_head? hc)
  simp only [isBlank, Bool.or_eq_true, beq_iff_eq] at hmem
  exact hblank c (by simpa [or_assoc] using hmem)

/-- A string ends at the delimiter that closes its body. -/
theorem Scans.string (hclosed : body '"' (cs ++ '"' :: rest) = .closed (cs.length + 1))
    (h : Scans false rest ms) :
    Scans line ('"' :: (cs ++ '"' :: rest)) (⟨.string, String.ofList ('"' :: (cs ++ ['"'])), line⟩
      :: ms) := by
  have hlexeme : ∀ before, lexeme before '"' (cs ++ ['"'] ++ rest) =
      (.token Token.Kind.string, (cs ++ ['"']).length) := by
    intro before
    have hdef : ∀ ds, lexeme before '"' ds = Lexer.quoted .string '"' ds := fun _ => rfl
    rw [hdef, List.append_assoc, List.singleton_append, Lexer.quoted, hclosed, List.length_append]
    rfl
  have htoken : Scans line ('"' :: (cs ++ ['"'] ++ rest)) _ := .token (by decide) hlexeme h
  rwa [List.append_assoc, List.singleton_append] at htoken

namespace Lexes

theorem nil : Lexes line [] [] line := fun _ _ _ h => h

/-- What stands behind starts with nothing that continues the text in front of it. -/
theorem append (h : Lexes line cs ms mid) (hedge : ∀ rest, Edge rest → Edge (ds ++ rest))
    (h' : Lexes mid ds ns last) : Lexes line (cs ++ ds) (ms ++ ns) last := by
  intro rest ks hrest hks
  rw [List.append_assoc, List.append_assoc]
  exact h _ _ (hedge rest hrest) (h' rest ks hrest hks)

theorem blanks (hall : ∀ c ∈ cs, isBlank c = true) :
    Lexes line cs [] (line || cs.contains '\n') := fun _ _ _ h => .blanks hall h

/-- White space in front of a text goes without a mark. -/
theorem leading (hall : ∀ c ∈ cs, isBlank c = true)
    (h : Lexes (line || cs.contains '\n') ds ms last) : Lexes line (cs ++ ds) ms last := by
  intro rest ns hrest hns
  rw [List.append_assoc]
  exact .blanks hall (h rest ns hrest hns)

/-- White space behind a text goes without a mark and does not join it. -/
theorem trailing (h : Lexes line cs ms mid) (hall : ∀ c ∈ ds, isBlank c = true) :
    Lexes line (cs ++ ds) ms (mid || ds.contains '\n') := by
  have hspells := h.append (fun _ => edge_blanks hall) (blanks hall)
  rwa [List.append_nil] at hspells

theorem mark (hkind : mark? c = some kind) (h : Lexes false cs ms last) :
    Lexes line (c :: cs) (⟨kind, String.ofList [c], line⟩ :: ms) last :=
  fun rest ns hrest hns => .mark hkind (h rest ns hrest hns)

theorem one (hkind : mark? c = some kind) :
    Lexes line [c] [⟨kind, String.ofList [c], line⟩] false := mark hkind nil

theorem word (hw : IsWord w) : Lexes line w.toList [⟨.word, w, line⟩] false :=
  fun _ _ hrest h => .word hw hrest h

theorem numeral (hw : IsNumeral w) : Lexes line w.toList [⟨.number, w, line⟩] false :=
  fun _ _ hrest h => .numeral hw hrest h

end Lexes

end HandlerWeave.Source
