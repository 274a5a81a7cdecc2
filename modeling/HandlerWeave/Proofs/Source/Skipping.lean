import HandlerWeave.Proofs.Source.Layout
import HandlerWeave.Proofs.Source.Nesting
import HandlerWeave.Proofs.Source.Takes

/-!
Marks that a parser skips. Where every bracket is closed by its own kind, the marks can be the
inside of a group, and what passes over the group comes to the marks behind it.
-/
namespace HandlerWeave.Source

open Mark Source.Parser Source.Group

variable {c : Cursor} {m m' : Mark} {ms ns rest : List Mark} {text : String}

/-- A token that looks like the mark. -/
def Mark.token (m : Mark) : Token := ⟨m.kind, "", m.text, 0⟩

@[simp] theorem Mark.token_kind (m : Mark) : m.token.kind = m.kind := rfl

/-- Every bracket among the marks is closed, by its own kind. -/
def Closed (ms : List Mark) : Prop := Nested (ms.map Mark.token)

instance : Decidable (Closed ms) := inferInstanceAs (Decidable (Nested _))

theorem closed_nil : Closed [] := rfl

theorem Closed.append (h : Closed ms) (h' : Closed ns) : Closed (ms ++ ns) := by
  rw [Closed, Nested, List.map_append, open?_append,
    show open? [] (ms.map Mark.token) = some [] from h]
  exact h'

theorem Closed.flatten {parts : List (List Mark)} (h : ∀ part ∈ parts, Closed part) :
    Closed parts.flatten := by
  induction parts with
  | nil => exact closed_nil
  | cons part parts ih =>
      obtain ⟨hpart, hparts⟩ := List.forall_mem_cons.1 h
      exact hpart.append (ih hparts)

/-- A mark that is no bracket. -/
theorem closed_single (hopens : m.kind.closing? = none) (hcloses : m.kind.isClosing = false) :
    Closed [m] := by
  rw [Closed, Nested]
  exact open?_cons_eq_some.2 ⟨[], open1?_other hopens hcloses, rfl⟩

theorem Closed.cons (hopens : m.kind.closing? = none) (hcloses : m.kind.isClosing = false)
    (h : Closed ms) : Closed (m :: ms) := (closed_single hopens hcloses).append h

theorem Closed.enclosed (h : Closed ms) (hm : m.kind.closing? = some m'.kind) :
    Closed (m :: (ms ++ [m'])) := by
  have hclosing := isClosing_of_closing? hm
  have hinside : open? [m'.kind] (ms.map Mark.token) = some [m'.kind] := Nested.open? h _
  have hend : open? [m'.kind] [m'.token] = some [] :=
    open?_cons_eq_some.2 ⟨[], open1?_closes (t := m'.token) hclosing, rfl⟩
  refine open?_cons_eq_some.2 ⟨[m'.kind], open1?_opens hm, ?_⟩
  rw [List.map_append, open?_append, hinside]
  exact hend

theorem closed_separated {separator : Mark} (hsep : Closed [separator]) {parts : List (List Mark)}
    (h : ∀ part ∈ parts, Closed part) : Closed (separatedMarks separator parts) := by
  induction parts with
  | nil => exact closed_nil
  | cons part parts ih =>
      obtain ⟨hpart, hparts⟩ := List.forall_mem_cons.1 h
      cases parts with
      | nil => exact hpart
      | cons next parts =>
          rw [separatedMarks_cons _ (by simp)]
          exact hpart.append (hsep.append (ih hparts))

theorem Cursor.Shows.advanceBy (h : c.Shows (ms ++ rest)) : (c.advanceBy ms.length).Shows rest := by
  induction ms generalizing c with
  | nil => exact h
  | cons m ms ih => exact ih h.advance

/-- What passes over a group comes to the marks behind it. -/
theorem passGroup_takes (h : Closed ms) (hm : m.kind.closing? = some m'.kind) :
    Takes passGroup (m :: (ms ++ m' :: rest)) () rest := by
  intro c hc
  have hkinds : c.advance.ahead.map Token.kind =
      ((ms ++ m' :: rest).map Mark.token).map Token.kind := by
    have hkind : ∀ t : Token, t.mark.kind = t.kind := fun _ => rfl
    have hahead := congrArg (List.map Mark.kind) hc.advance.ahead
    simpa [Function.comp_def, hkind] using hahead
  have hcloses : open1? [m'.kind] m'.token = some [] :=
    open1?_closes (t := m'.token) (isClosing_of_closing? hm)
  have hlength : length [m'.kind] c.advance.ahead = .ok (ms.length + 1) := by
    rw [length_congr hkinds, List.map_append]
    have hpast := length_append_of_open (v := []) (σ := [m'.kind]) h (by simp)
      ((m' :: rest).map Mark.token)
    rw [List.nil_append, List.length_map] at hpast
    rw [hpast, List.map_cons, length_cons (by simp), hcloses]
    simp [length_nil_waiting, shift, Nat.add_comm]
  refine ⟨c.advance.advanceBy (ms.length + 1), ?_, ?_⟩
  · rw [passGroup, hc.kind, markAt_zero, hm]
    simp only [hlength]
  · have hahead : c.advance.Shows ((ms ++ [m']) ++ rest) := by simpa using hc.advance
    simpa using hahead.advanceBy

theorem passBody_takes (h : Closed ms) (hm : m.kind = .leftBrace) (hm' : m'.kind = .rightBrace) :
    Takes Grammar.passBody (m :: (ms ++ m' :: rest)) () rest := by
  refine .look fun c hc => .ite_pos ?_ (passGroup_takes h (by rw [hm, hm']; rfl))
  rw [hc.check, markAt_zero, hm]
  rfl

instance : Decidable (ArrowFree ms) := List.decidableBAll (fun m : Mark => m.kind ≠ .arrow) ms

/-- Lines that can stand in a group that is skipped. -/
def Inert (text : String) : Prop := ∃ ms, Closed ms ∧ ArrowFree ms ∧ ReadsLines text ms

/-- A fixed text that can stand in a group that is skipped. -/
def Skippable (text : String) : Prop :=
  IsFixed text ∧ Closed (textMarks true text) ∧ ArrowFree (textMarks true text)

instance : Decidable (Skippable text) := inferInstanceAs (Decidable (_ ∧ _ ∧ _))

namespace Inert

variable {text' : String}

theorem empty : Inert "" := ⟨[], closed_nil, arrowFree_nil, .empty⟩

theorem append (h : Inert text) (h' : Inert text') : Inert (text ++ text') := by
  obtain ⟨ms, hclosed, harrow, hreads⟩ := h
  obtain ⟨ns, hclosed', harrow', hreads'⟩ := h'
  exact ⟨ms ++ ns, hclosed.append hclosed', arrowFree_append.2 ⟨harrow, harrow'⟩,
    hreads.append hreads'⟩

theorem join {texts : List String} (h : ∀ text ∈ texts, Inert text) :
    Inert (String.join texts) := by
  induction texts with
  | nil => exact empty
  | cons text texts ih =>
      obtain ⟨htext, htexts⟩ := List.forall_mem_cons.1 h
      rw [String.join_cons]
      exact htext.append (ih htexts)

/-- A line of which the front is known. -/
theorem line {front tail : String} (h : Skippable front)
    (htail : ∃ ms, Closed ms ∧ ArrowFree ms ∧ ∀ rest ns, Scans false ('\n' :: rest) ns →
      Scans false (tail.toList ++ '\n' :: rest) (ms ++ ns)) :
    Inert (front ++ " " ++ tail ++ "\n") := by
  obtain ⟨hfixed, hclosed, harrow⟩ := h
  obtain ⟨ms, hclosed', harrow', hscans⟩ := htail
  refine ⟨textMarks true front ++ ms, hclosed.append hclosed',
    arrowFree_append.2 ⟨harrow, harrow'⟩, .of_line fun rest ns hrest => ?_⟩
  have hline : Scans true _ _ := .fixed hfixed (by decide) (hscans rest ns hrest).space
  simpa [String.toList_append] using hline

theorem fixed (h : Skippable text) : Inert (text ++ "\n") := ⟨_, h.2.1, h.2.2, .fixed h.1⟩

end Inert

theorem closed_types {separator : Mark} (hsep : Closed [separator]) {types : List TypeNode}
    (h : ∀ t ∈ types, Closed t.marks) : Closed (separatedMarks separator (typeMarks types)) := by
  rw [typeMarks_eq]
  exact closed_separated hsep (List.forall_mem_map.2 h)

theorem closed_nameMark {name : String} (line : Bool) (h : Closed ms) :
    Closed ((nameMark name).onLine line :: ms) := by
  rw [nameMark]
  split
  · exact h.cons rfl rfl
  · exact h.cons rfl rfl

theorem closed_member {member : TypeMember} (line : Bool) (hplain : member.Plain)
    (h : ∀ t ∈ member.types, Closed t.marks) : Closed (member.marks line) := by
  have hend : Closed [sign ';'] := by decide
  cases member with
  | property name optional type =>
      obtain ⟨t, rfl⟩ := Option.isSome_iff_exists.1 hplain.2
      have ht : Closed t.marks := h t (by simp [TypeMember.types])
      have hoptional : Closed (optionalMarks optional) := by cases optional <;> decide
      exact closed_nameMark line (hoptional.append ((ht.append hend).cons rfl rfl))
  | index keyName keyType type =>
      have hkey : Closed keyType.marks := h _ (by simp [TypeMember.types])
      have ht : Closed type.marks := h _ (by simp [TypeMember.types])
      have hbrackets : Closed ((sign '[').onLine line ::
          (name keyName :: sign ':' :: keyType.marks ++ [sign ']'])) :=
        ((hkey.cons (m := sign ':') rfl rfl).cons (m := name keyName) rfl rfl).enclosed rfl
      have hmember := hbrackets.append ((ht.append hend).cons (m := sign ':') rfl rfl)
      simpa [TypeMember.marks] using hmember
  | method => exact hplain.elim

theorem TypeNode.Canonical.closed {t : TypeNode} (ht : t.Canonical) : Closed t.marks := by
  induction ht with
  | keyword word => exact closed_single rfl rfl
  | @literal value _ =>
      cases value with
      | string => exact closed_single rfl rfl
      | number s =>
          rw [TypeNode.marks, LiteralType.marks, numberMarks]
          split
          · exact Closed.cons rfl rfl (closed_single rfl rfl)
          · exact closed_single rfl rfl
      | bool => exact closed_single rfl rfl
  | @reference name args _ _ ih =>
      have hargs : Closed (separatedMarks (sign ',') (typeMarks args)) :=
        closed_types (by decide) ih
      have hend : Closed [sign '>'] := by decide
      rw [TypeNode.marks]
      split
      · exact closed_single rfl rfl
      · exact ((hargs.append hend).cons rfl rfl).cons rfl rfl
  | array _ _ ih => exact ih.append (by decide)
  | tuple _ ih => exact (closed_types (by decide) ih).enclosed rfl
  | union _ _ _ ih => exact closed_types (by decide) ih
  | intersection _ _ _ ih => exact closed_types (by decide) ih
  | parenthesized _ ih => exact ih.enclosed rfl
  | shape hplain _ ih =>
      refine Closed.enclosed (.flatten ?_) rfl
      rw [memberMarks_eq _ hplain]
      exact List.forall_mem_map.2 fun m hm => closed_member false (hplain m hm) (ih m hm)

end HandlerWeave.Source
