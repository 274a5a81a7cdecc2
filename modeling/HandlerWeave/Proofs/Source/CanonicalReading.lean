import HandlerWeave.Proofs.Source.TypeReading

/-!
Canonical types as written ones: the marks of such a type are a way to write it, so that the grammar
takes them and gives the type again.
-/
namespace HandlerWeave.Source

open Mark Source.Parser Grammar

variable {m : Mark} {ms rest : List Mark} {t : TypeNode} {g : Grammar} {n : Nat}

section

variable {α : Type} {P : List Mark → α → Prop} {marks : α → List Mark} {xs : List α}

theorem listed_separated (h : ∀ x ∈ xs, P (marks x) x) :
    Listed P (separatedMarks (sign ',') (xs.map marks)) xs := by
  induction xs with
  | nil => exact .nil
  | cons x xs ih =>
      obtain ⟨hx, hxs⟩ := List.forall_mem_cons.1 h
      cases xs with
      | nil => exact .one hx
      | cons y xs =>
          rw [List.map_cons, separatedMarks_cons _ (by simp)]
          exact .cons hx rfl (ih hxs)

theorem joined_separated (hne : xs ≠ []) (h : ∀ x ∈ xs, P (marks x) x) :
    Joined m.kind P (separatedMarks m (xs.map marks)) xs := by
  induction xs with
  | nil => exact absurd rfl hne
  | cons x xs ih =>
      obtain ⟨hx, hxs⟩ := List.forall_mem_cons.1 h
      cases xs with
      | nil => exact .one hx
      | cons y xs =>
          rw [List.map_cons, separatedMarks_cons _ (by simp)]
          exact .cons hx rfl (ih (by simp) hxs)

end

namespace TypeNode

/-- A type that is written as its marks. -/
def phrase (t : TypeNode) : Phrase := ⟨t.marks, t, fun _ => t.marks⟩

/-- What the form of a type allows it to be a part of. -/
def Fits (t : TypeNode) : Level → Prop
  | .operand => t.IsOperand
  | .part => ¬ t.IsUnion
  | .whole => True

end TypeNode

theorem Written.of_operand {scope : List String} {p : Phrase}
    (h : Written scope .operand p) : ∀ level, Written scope level p
  | .operand => h
  | .part => h.operand
  | .whole => h.operand.part

theorem map_marks_phrase (types : List TypeNode) :
    (types.map TypeNode.phrase).map Phrase.marks = typeMarks types := by
  rw [typeMarks_eq, List.map_map]
  rfl

theorem map_plain_phrase (types : List TypeNode) (keep : Bool) :
    ((types.map TypeNode.phrase).map fun p => p.plain keep) = typeMarks types := by
  rw [typeMarks_eq, List.map_map]
  rfl

theorem map_type_phrase (types : List TypeNode) :
    (types.map TypeNode.phrase).map Phrase.type = types := by
  rw [List.map_map]
  exact List.map_id types

/-- The type as an element without a label and without marks of its own. -/
def TypeNode.element (t : TypeNode) : Element := ⟨none, none, t.phrase, none⟩

theorem map_marks_element (types : List TypeNode) :
    (types.map TypeNode.element).map Element.marks = typeMarks types := by
  have hmarks : ∀ t : TypeNode, t.element.marks = t.marks := fun t => by
    simp [TypeNode.element, Element.marks, someMark, TypeNode.phrase]
  rw [typeMarks_eq, List.map_map]
  exact List.map_congr_left fun t _ => hmarks t

theorem map_plain_element (types : List TypeNode) (keep : Bool) :
    (types.map TypeNode.element).map (Element.plain keep) = typeMarks types := by
  have hplain : ∀ t : TypeNode, t.element.plain keep = t.marks := fun t => by
    simp [TypeNode.element, Element.plain, Element.isOptional, optionalMarks, TypeNode.phrase]
  rw [typeMarks_eq, List.map_map]
  exact List.map_congr_left fun t _ => hplain t

theorem map_type_element (types : List TypeNode) :
    ((types.map TypeNode.element).map fun e => e.phrase.type) = types := by
  rw [List.map_map]
  exact List.map_id types

theorem LiteralType.Canonical.written {value : LiteralType} (h : value.Canonical) :
    Written [] .operand (TypeNode.literal value).phrase := by
  cases value with
  | bool value => exact .bool value false
  | string value =>
      have hstring : Written [] .operand _ := .string ⟨⟨.string, Text.quote value, false⟩, rfl⟩
        (by simpa only [unquote_quote] using h.oneLine value rfl)
      simpa only [TypeNode.phrase, TypeNode.marks, LiteralType.marks, unquote_quote] using hstring
  | number text =>
      obtain hnumeral | ⟨n, hnumeral, rfl⟩ := h.regular
      · have hnumber : Written [] .operand _ := .number ⟨⟨.number, text, false⟩, rfl⟩ hnumeral
        simpa only [TypeNode.phrase, TypeNode.marks, LiteralType.marks, hnumeral.numberMarks]
          using hnumber
      · have hnumber : Written [] .operand _ :=
          .negative ⟨sign '-', rfl⟩ ⟨⟨.number, n, false⟩, rfl⟩ hnumeral
        simpa only [TypeNode.phrase, TypeNode.marks, LiteralType.marks, numberMarks_minus]
          using hnumber

theorem IsTypeName.isPath {w : String} (h : IsTypeName w) : IsPath [name w] [] w := by
  refine ⟨.one ⟨false, rfl⟩, h.word, ?_, fun _ => h.keyword⟩
  rintro _ ⟨⟩
  simp [h.bool, h.reserved]

theorem nameMark_kind (name : String) (line : Bool) :
    ((nameMark name).onLine line).kind ∈ [Token.Kind.word, .string] := by
  rw [nameMark]
  split <;> simp

theorem nameText_nameMark (name : String) (line : Bool) :
    nameText ((nameMark name).onLine line) = name := by
  rw [nameText, nameMark]
  split <;> simp [unquote_quote]

/-- A member that holds data is written as its marks, up to the semicolon behind it. -/
theorem TypeMember.Plain.written {member : TypeMember} (hm : member.Plain) (line : Bool) :
    ∃ p : MemberPhrase, p.member = member ∧ p.marks ++ [sign ';'] = member.marks line ∧
      (∀ keep, p.plain keep = member.marks false) ∧
      p.phrases = member.types.map TypeNode.phrase := by
  cases member with
  | property name optional type =>
      obtain ⟨t, rfl⟩ := Option.isSome_iff_exists.1 hm.2
      have hkind : ((nameMark name).onLine line).kind ∈ [.word, .string, .number] := by
        have hsubset : [Token.Kind.word, .string] ⊆ [.word, .string, .number] := by decide
        exact hsubset (nameMark_kind name line)
      refine ⟨.property ((nameMark name).onLine line) hkind
        (if optional then some ⟨sign '?', rfl⟩ else none) ⟨sign ':', rfl⟩ t.phrase, ?_, ?_,
        fun keep => ?_, rfl⟩
      · cases optional <;> simp [MemberPhrase.member, nameText_nameMark, TypeNode.phrase]
      · cases optional <;> simp [MemberPhrase.marks, TypeMember.marks, optionalMarks,
          optionalTypeMarks, TypeNode.phrase, someMark]
      · cases optional <;> simp [MemberPhrase.plain, TypeMember.marks, nameText_nameMark,
          optionalTypeMarks, TypeNode.phrase, nameMark_onLine]
  | index keyName keyType type =>
      exact ⟨.index ⟨(sign '[').onLine line, rfl⟩ ⟨name keyName, rfl⟩ ⟨sign ':', rfl⟩
        keyType.phrase ⟨sign ']', rfl⟩ ⟨sign ':', rfl⟩ type.phrase, rfl,
        by simp [MemberPhrase.marks, TypeMember.marks, TypeNode.phrase], fun _ => rfl, rfl⟩
  | method => exact hm.elim

/-- The members of a shape are written as their marks, which all start a line or do not. -/
theorem members_written (line : Bool) {members : List TypeMember}
    (hplain : ∀ m ∈ members, m.Plain) :
    ∃ ps : List MemberPhrase, ps.map MemberPhrase.member = members ∧
      Members (memberMarks line members).flatten ps ∧
      (∀ keep, (ps.map (MemberPhrase.plain keep)).flatten = (memberMarks false members).flatten) ∧
      ∀ p ∈ ps, ∀ q ∈ p.phrases, ∃ m ∈ members, ∃ t ∈ m.types, q = t.phrase := by
  rw [memberMarks_eq line hplain, memberMarks_eq false hplain]
  induction members with
  | nil => exact ⟨[], rfl, .nil, fun _ => rfl, List.forall_mem_nil _⟩
  | cons m members ih =>
      obtain ⟨hm, hplain⟩ := List.forall_mem_cons.1 hplain
      obtain ⟨ps, hps, hwritten, hplains, htypes⟩ := ih hplain
      obtain ⟨p, hp, hmarks, hkept, hphrases⟩ := hm.written line
      refine ⟨p :: ps, by rw [List.map_cons, hp, hps], ?_, fun keep => ?_,
        List.forall_mem_cons.2 ⟨fun q hq => ?_, fun p hp q hq => ?_⟩⟩
      · rw [List.map_cons, List.flatten_cons, ← hmarks, List.append_assoc, List.singleton_append]
        refine .cons ?_ (.separator (by decide) hwritten)
        rintro _ ⟨⟩
        exact .inl (by decide)
      · rw [List.map_cons, List.flatten_cons, hplains, hkept, List.map_cons, List.flatten_cons]
      · rw [hphrases] at hq
        obtain ⟨t, ht, rfl⟩ := List.mem_map.1 hq
        exact ⟨m, List.mem_cons_self, t, ht, rfl⟩
      · obtain ⟨m', hm', hq⟩ := htypes p hp q hq
        exact ⟨m', List.mem_cons_of_mem _ hm', hq⟩

/-- Every canonical type is written as its marks. -/
theorem TypeNode.Canonical.written (ht : t.Canonical) :
    ∀ level, t.Fits level → Written [] level t.phrase := by
  have hlisted : ∀ types : List TypeNode, Listed (fun ks p => ks = p.marks)
      (separatedMarks (sign ',') (typeMarks types)) (types.map TypeNode.phrase) := fun types => by
    rw [← map_marks_phrase]
    exact listed_separated fun _ _ => rfl
  have hjoined : ∀ m types, types ≠ [] → Joined m.kind (fun ks p => ks = p.marks)
      (separatedMarks m (typeMarks types)) (types.map TypeNode.phrase) := fun m types hne => by
    rw [← map_marks_phrase]
    exact joined_separated (by simpa using hne) fun _ _ => rfl
  induction ht with
  | keyword word => exact fun level _ => Written.of_operand (.keyword word false) level
  | literal hvalue => exact fun level _ => hvalue.written.of_operand level
  | @reference w args hname hargs ih =>
      intro level _
      refine Written.of_operand ?_ level
      obtain rfl | hne := eq_or_ne args []
      · exact .reference hname.isPath
      · have happlied : Written [] .operand _ := .applied hname.isPath (fun _ => by simp)
          ⟨sign '<', rfl⟩ ⟨sign '>', rfl⟩ (by simpa using hne) (hlisted args)
          (List.forall_mem_map.2 fun t ht => ih t ht .whole trivial)
        simp only [map_type_phrase, map_plain_phrase] at happlied
        simpa [TypeNode.phrase, TypeNode.marks, hne] using happlied
  | @array element hoperand _ ih =>
      intro level _
      exact Written.of_operand (.array (ih .operand hoperand) ⟨sign '[', rfl⟩ rfl
        ⟨sign ']', rfl⟩) level
  | @tuple elements _ ih =>
      intro level _
      have hlist : Listed (fun ks e => ks = e.marks)
          (separatedMarks (sign ',') (typeMarks elements)) (elements.map TypeNode.element) := by
        rw [← map_marks_element]
        exact listed_separated fun _ _ => rfl
      have htuple : Written [] .operand _ := .tuple ⟨sign '[', rfl⟩ ⟨sign ']', rfl⟩ hlist
        (List.forall_mem_map.2 fun t ht => ih t ht .whole trivial)
      simp only [map_type_element, map_plain_element] at htuple
      exact htuple.of_operand level
  | @union arms hlength hparts _ ih =>
      intro level hfits
      have hunion : Written [] .whole _ := .union (by simpa using hlength)
        (hjoined (sign '|') arms (List.ne_nil_of_length_pos (by omega)))
        (List.forall_mem_map.2 fun t ht => ih t ht .part (hparts t ht))
      simp only [map_type_phrase, map_plain_phrase] at hunion
      cases level with
      | operand => exact hfits.elim
      | part => exact absurd trivial hfits
      | whole => exact hunion
  | @intersection parts hlength hparts _ ih =>
      intro level hfits
      have hintersection : Written [] .part _ := .intersection (by simpa using hlength)
        (hjoined (sign '&') parts (List.ne_nil_of_length_pos (by omega)))
        (List.forall_mem_map.2 fun t ht => ih t ht .operand (hparts t ht))
      simp only [map_type_phrase, map_plain_phrase] at hintersection
      cases level with
      | operand => exact hfits.elim
      | part => exact hintersection
      | whole => exact hintersection.part
  | parenthesized _ ih =>
      intro level _
      exact Written.of_operand (.parenthesized ⟨sign '(', rfl⟩ ⟨sign ')', rfl⟩
        (ih .whole trivial)) level
  | @shape members hplain _ ih =>
      intro level _
      obtain ⟨ps, hps, hmembers, hplains, htypes⟩ := members_written false hplain
      have hall : ∀ p ∈ ps, ∀ q ∈ p.phrases, Written [] .whole q := fun p hp q hq => by
        obtain ⟨m, hm, t, ht, rfl⟩ := htypes p hp q hq
        exact ih m hm t ht .whole trivial
      have hshape : Written [] .operand _ := .shape ⟨sign '\x7b', rfl⟩ ⟨sign '\x7d', rfl⟩
        hmembers (List.forall_mem_map.1 (by rwa [hps])) hall
      simp only [hps, hplains] at hshape
      exact hshape.of_operand level

theorem TypeNode.Canonical.arrowFree (ht : t.Canonical) : ArrowFree t.marks :=
  (ht.written .whole trivial).arrowFree

/-- The grammar gives the type again for its marks, with the end of a type behind them. -/
def TypeNode.ReadBy (g : Grammar) (t : TypeNode) : Prop := t.phrase.ReadBy g

theorem TypeNode.ReadBy.takes (h : t.ReadBy g) (rest : List Mark)
    (hrest : (markAt rest 0).endsType = true) : Takes g.type (t.marks ++ rest) t rest :=
  Phrase.ReadBy.takes h rest (.of_endsType hrest)

/-- A canonical type is read again by every grammar with a level for each of its marks. -/
theorem TypeNode.Canonical.readBy (ht : t.Canonical) (hn : t.marks.length ≤ n) :
    t.ReadBy (withLevels n) := (ht.written .whole trivial).readBy hn

theorem listed_types {types : List TypeNode} (h : ∀ t ∈ types, t.ReadBy g) :
    Listed (ReadsPart g.type [.comma, .greater])
      (separatedMarks (sign ',') (typeMarks types)) types := by
  rw [typeMarks_eq]
  exact listed_separated fun t ht => Phrase.ReadBy.part (h t ht) (by decide)

theorem memberMarks_takes {members : List TypeMember} (line : Bool)
    (hplain : ∀ m ∈ members, m.Plain) (h : ∀ m ∈ members, ∀ t ∈ m.types, t.ReadBy g) :
    Takes g.typeMembers (sign '\x7b' :: ((memberMarks line members).flatten ++
      (sign '\x7d').onLine line :: rest)) members rest := by
  obtain ⟨ps, hps, hmembers, -, htypes⟩ := members_written line hplain
  have hread : ∀ p ∈ ps, ∀ q ∈ p.phrases, q.ReadBy g := fun p hp q hq => by
    obtain ⟨m, hm, t, ht, rfl⟩ := htypes p hp q hq
    exact h m hm t ht
  have htakes : Takes g.typeMembers (sign '\x7b' :: ((memberMarks line members).flatten ++
      (sign '\x7d').onLine line :: rest)) (ps.map MemberPhrase.member) rest :=
    typeMembers_takes ⟨_, rfl⟩ ⟨_, rfl⟩ hmembers hread
  rwa [hps] at htakes

end HandlerWeave.Source
