import HandlerWeave.Literal.Evaluate
import HandlerWeave.Proofs.Literal.Entries

/-!
What evaluation does not understand. A part of an expression that has no value is given by the
indices of the parts that lead to it. Evaluation lists each of these parts once, in the order of the
source, whatever becomes of the value that it stands in.
-/
namespace HandlerWeave

open Source

namespace Source.Expr

def isContainer : Expr → Bool
  | .array _ | .object _ => true
  | _ => false

/-- What holds of an expression if it holds of the parts that are evaluated for it. -/
@[elab_as_elim]
theorem parts_induction {motive : Expr → Prop}
    (array : ∀ items, (∀ e ∈ items, motive e) → motive (.array items))
    (object : ∀ members, (∀ key e, .property key e ∈ members → motive e) → motive (.object members))
    (plain : ∀ e, e.isContainer = false → motive e) (e : Expr) : motive e :=
  match e with
  | .array items => array items fun e _ => parts_induction array object plain e
  | .object members => object members fun _ e _ => parts_induction array object plain e
  | .string _ | .number _ | .bool _ | .null | .template _ _ | .name _ | .construct _ _ | .call _ _
  | .member _ _ | .negate _ | .verbatim _ => plain _ rfl
termination_by e
decreasing_by
  · have := List.sizeOf_lt_of_mem ‹e ∈ items›
    simp only [Expr.array.sizeOf_spec]
    omega
  · have := List.sizeOf_lt_of_mem ‹_ ∈ members›
    simp only [ObjectMember.property.sizeOf_spec, Expr.object.sizeOf_spec] at this ⊢
    omega

/-- A numeral with or without a sign in front of it. -/
def numeral? : Expr → Option String
  | .number text | .negate (.number text) => some text
  | _ => none

/-- The expression is written as a literal, whatever its numerals and parts are. -/
def IsLiteral : Expr → Prop
  | .object _ | .array _ | .string _ | .bool _ | .template _ false => True
  | e => e.numeral?.isSome

/-- At this position, given by the indices of the parts that lead there, stands a part that has no
value: an expression of another form, a numeral that is no number, or a member that is more or less
than a key with its value. No part of an unsupported part is listed. -/
inductive Unsupported : Expr → List Nat → String → Prop
  | form {e : Expr} (h : ¬ e.IsLiteral) : Unsupported e [] e.describe
  | numeral {e : Expr} {text : String} (h : e.numeral? = some text)
      (hvalue : Literal.numberValue? text = none) : Unsupported e [] e.describe
  | item {items : List Expr} {n : Nat} {e : Expr} {p : List Nat} {text : String}
      (hitem : items[n]? = some e) (h : Unsupported e p text) :
      Unsupported (.array items) (n :: p) text
  | value {members : List ObjectMember} {n : Nat} {key : String} {e : Expr} {p : List Nat}
      {text : String} (hmember : members[n]? = some (.property key e)) (h : Unsupported e p text) :
      Unsupported (.object members) (n :: p) text
  | shorthand {members : List ObjectMember} {n : Nat} {name : String}
      (h : members[n]? = some (.shorthand name)) : Unsupported (.object members) [n] name
  | verbatim {members : List ObjectMember} {n : Nat} {text : String}
      (h : members[n]? = some (.verbatim text)) : Unsupported (.object members) [n] text

end Source.Expr

namespace Literal

/-- The excerpts are those of the texts that occur, one for each place, in the order of places. -/
def Lists (occurs : List Nat → String → Prop) (excerpts : List String) : Prop :=
  ∃ found : List (List Nat × String), found.Pairwise (fun x y => x.1 < y.1) ∧
    (∀ p text, (p, text) ∈ found ↔ occurs p text) ∧ excerpts = found.map fun x => excerpt x.2

namespace Lists

variable {P Q : List Nat → String → Prop} {xs ys : List String} {text : String}

theorem congr (h : Lists P xs) (hiff : ∀ p text, P p text ↔ Q p text) : Lists Q xs := by
  obtain ⟨found, horder, hmem, hxs⟩ := h
  exact ⟨found, horder, fun p text => (hmem p text).trans (hiff p text), hxs⟩

theorem none (h : ∀ p text, ¬ P p text) : Lists P [] :=
  ⟨[], .nil, by simpa using h, rfl⟩

theorem one (h : ∀ p t, P p t ↔ p = [] ∧ t = text) : Lists P [excerpt text] :=
  ⟨[([], text)], List.pairwise_singleton .., by simpa using fun p t => (h p t).symm, rfl⟩

/-- What occurs in the part at an index occurs behind that index. -/
theorem under (h : Lists P xs) (n : Nat) :
    Lists (fun p text => ∃ q, p = n :: q ∧ P q text) xs := by
  obtain ⟨found, horder, hmem, rfl⟩ := h
  refine ⟨found.map fun x => (n :: x.1, x.2), ?_, fun p text => ?_, by simp⟩
  · rw [List.pairwise_map]
    exact horder.imp fun h => List.cons_lt_cons_iff.2 (.inr ⟨rfl, h⟩)
  · simp only [List.mem_map, ← hmem]
    grind

theorem append (hP : Lists P xs) (hQ : Lists Q ys)
    (hlt : ∀ p text q text', P p text → Q q text' → p < q) :
    Lists (fun p text => P p text ∨ Q p text) (xs ++ ys) := by
  obtain ⟨found, horder, hmem, rfl⟩ := hP
  obtain ⟨found', horder', hmem', rfl⟩ := hQ
  refine ⟨found ++ found', List.pairwise_append.2 ⟨horder, horder', ?_⟩, fun p text => ?_,
    (List.map_append ..).symm⟩
  · rintro ⟨p, text⟩ hp ⟨q, text'⟩ hq
    exact hlt p text q text' ((hmem p text).1 hp) ((hmem' q text').1 hq)
  · rw [List.mem_append, hmem, hmem']

/-- What occurs in the parts at indices from `n` on. -/
theorem from_index {α : Type} {inPart : α → List Nat → String → Prop} {excerpts : α → List String}
    {parts : List α} (h : ∀ x ∈ parts, Lists (inPart x) (excerpts x)) (n : Nat) :
    Lists (fun p text => ∃ i x q, parts[i]? = some x ∧ p = (n + i) :: q ∧ inPart x q text)
      (parts.flatMap excerpts) := by
  induction parts generalizing n with
  | nil => exact .none (by simp)
  | cons x parts ih =>
      obtain ⟨hx, hparts⟩ := List.forall_mem_cons.1 h
      refine ((hx.under n).append (ih hparts (n + 1)) ?_).congr fun p text => ⟨?_, ?_⟩
      · rintro _ text _ text' ⟨q, rfl, -⟩ ⟨i, y, q', -, rfl, -⟩
        exact List.cons_lt_cons_iff.2 (.inl (by omega))
      · rintro (⟨q, rfl, hq⟩ | ⟨i, y, q, hy, rfl, hq⟩)
        · exact ⟨0, x, q, rfl, rfl, hq⟩
        · exact ⟨i + 1, y, q, by simpa using hy, by congr 1; omega, hq⟩
      · rintro ⟨i, y, q, hy, rfl, hq⟩
        cases i with
        | zero =>
            cases hy
            exact .inl ⟨q, rfl, hq⟩
        | succ i => exact .inr ⟨i, y, q, by simpa using hy, by congr 1; omega, hq⟩

/-- What occurs in the parts. -/
theorem parts {α : Type} {inPart : α → List Nat → String → Prop} {excerpts : α → List String}
    {parts : List α} (h : ∀ x ∈ parts, Lists (inPart x) (excerpts x)) :
    Lists (fun p text => ∃ i x q, parts[i]? = some x ∧ p = i :: q ∧ inPart x q text)
      (parts.flatMap excerpts) := by
  simpa only [Nat.zero_add] using from_index h 0

end Lists

/-- What a member is listed for. -/
def memberExcerpts : ObjectMember → List String
  | .property _ e => (evaluate e).2
  | .shorthand name => [excerpt name]
  | .verbatim text => [excerpt text]

/-- The entry that a member writes. -/
def memberPair? : ObjectMember → Option (String × Literal)
  | .property key e => some (key, (evaluate e).1)
  | .shorthand name => some (name, .unknown (excerpt name))
  | .verbatim _ => none

theorem evaluateItems_cons (e : Expr) (items : List Expr) :
    evaluateItems (e :: items) =
      ((evaluate e).1 :: (evaluateItems items).1, (evaluate e).2 ++ (evaluateItems items).2) := rfl

theorem evaluateItems_eq (items : List Expr) :
    evaluateItems items =
      (items.map fun e => (evaluate e).1, items.flatMap fun e => (evaluate e).2) := by
  induction items with
  | nil => rfl
  | cons e items ih => rw [evaluateItems_cons, ih, List.map_cons, List.flatMap_cons]

/-- A member adds its entry to those before it, and is listed in front of those behind it. -/
theorem evaluateMembers_cons (entries : List (String × Literal)) (member : ObjectMember)
    (members : List ObjectMember) :
    let rest := evaluateMembers (insertAll entries (memberPair? member).toList) members
    evaluateMembers entries (member :: members) = (rest.1, memberExcerpts member ++ rest.2) := by
  cases member <;> rfl

theorem evaluateMembers_eq (entries : List (String × Literal)) (members : List ObjectMember) :
    evaluateMembers entries members =
      (insertAll entries (members.filterMap memberPair?), members.flatMap memberExcerpts) := by
  induction members generalizing entries with
  | nil => rfl
  | cons member members ih =>
      rw [evaluateMembers_cons, ih]
      cases member <;> rfl

theorem evaluate_array (items : List Expr) :
    evaluate (.array items) =
      (.array (items.map fun e => (evaluate e).1), items.flatMap fun e => (evaluate e).2) := by
  change (Literal.array (evaluateItems items).1, (evaluateItems items).2) = _
  rw [evaluateItems_eq]

theorem evaluate_object (members : List ObjectMember) :
    evaluate (.object members) =
      (.object (lastEntries (members.filterMap memberPair?)),
        members.flatMap memberExcerpts) := by
  change (Literal.object (evaluateMembers [] members).1, (evaluateMembers [] members).2) = _
  rw [evaluateMembers_eq, insertAll_nil]

/-- What occurs in a member. -/
def MemberUnsupported : ObjectMember → List Nat → String → Prop
  | .property _ e => e.Unsupported
  | .shorthand name => fun p text => p = [] ∧ text = name
  | .verbatim text => fun p t => p = [] ∧ t = text

theorem unsupported_object {members : List ObjectMember} {p : List Nat} {text : String} :
    (Expr.object members).Unsupported p text ↔
      ∃ i member q, members[i]? = some member ∧ p = i :: q ∧ MemberUnsupported member q text := by
  constructor
  · rintro (⟨h⟩ | ⟨h⟩ | _ | ⟨hmember, h⟩ | h | h)
    · exact absurd trivial h
    · cases h
    · exact ⟨_, _, _, hmember, rfl, h⟩
    · exact ⟨_, _, _, h, rfl, rfl, rfl⟩
    · exact ⟨_, _, _, h, rfl, rfl, rfl⟩
  · rintro ⟨i, member, q, hmember, rfl, h⟩
    cases member with
    | property key e => exact .value hmember h
    | shorthand name =>
        obtain ⟨rfl, rfl⟩ := h
        exact .shorthand hmember
    | verbatim text =>
        obtain ⟨rfl, rfl⟩ := h
        exact .verbatim hmember

theorem unsupported_array {items : List Expr} {p : List Nat} {text : String} :
    (Expr.array items).Unsupported p text ↔
      ∃ i e q, items[i]? = some e ∧ p = i :: q ∧ e.Unsupported q text := by
  constructor
  · rintro (⟨h⟩ | ⟨h⟩ | ⟨hitem, h⟩)
    · exact absurd trivial h
    · cases h
    · exact ⟨_, _, _, hitem, rfl, h⟩
  · rintro ⟨i, e, q, hitem, rfl, h⟩
    exact .item hitem h

theorem evaluate_number (text : String) : evaluate (.number text) =
    match numberValue? text with
    | some f => (.number f, [])
    | none => unsupported text := rfl

theorem evaluate_negate (text : String) : evaluate (.negate (.number text)) =
    match numberValue? text with
    | some f => (.number (-f), [])
    | none => unsupported ("-" ++ text) := rfl

theorem evaluate_of_not_isLiteral {e : Expr} (h : ¬ e.IsLiteral) :
    evaluate e = unsupported e.describe := by
  cases e with
  | object | array | string | bool => exact absurd trivial h
  | number => exact absurd rfl h
  | template text substitutions =>
      cases substitutions with
      | true => rfl
      | false => exact absurd trivial h
  | negate inner =>
      cases inner with
      | number => exact absurd rfl h
      | _ => rfl
  | _ => rfl

theorem evaluate_of_unreadable {e : Expr} {text : String} (h : e.numeral? = some text)
    (hvalue : numberValue? text = none) : evaluate e = unsupported e.describe := by
  cases e with
  | number => cases h; rw [evaluate_number, hvalue]; rfl
  | negate inner =>
      cases inner with
      | number => cases h; rw [evaluate_negate, hvalue]; rfl
      | _ => cases h
  | _ => cases h

theorem lists_unsupported {e : Expr} (heval : evaluate e = unsupported e.describe)
    (h : e.Unsupported [] e.describe) (hpart : ∀ n p text, ¬ e.Unsupported (n :: p) text) :
    Lists e.Unsupported (evaluate e).2 := by
  rw [heval]
  refine .one fun p text => ⟨fun hp => ?_, ?_⟩
  · cases p with
    | nil => cases hp <;> exact ⟨rfl, rfl⟩
    | cons n p => exact absurd hp (hpart n p text)
  · rintro ⟨rfl, rfl⟩
    exact h

theorem numeral_cases {e : Expr} {text : String} (h : e.numeral? = some text) :
    e = .number text ∨ e = .negate (.number text) := by
  cases e with
  | number => cases h; exact .inl rfl
  | negate inner =>
      cases inner with
      | number => cases h; exact .inr rfl
      | _ => cases h
  | _ => cases h

theorem lists_numeral {e : Expr} {text : String} (h : e.numeral? = some text) :
    Lists e.Unsupported (evaluate e).2 := by
  have hpart : ∀ n p t, ¬ e.Unsupported (n :: p) t := by
    rintro n p t hp
    obtain rfl | rfl := numeral_cases h <;> cases hp
  cases hvalue : numberValue? text with
  | none => exact lists_unsupported (evaluate_of_unreadable h hvalue) (.numeral h hvalue) hpart
  | some f =>
      have hexcerpts : (evaluate e).2 = [] := by
        obtain rfl | rfl := numeral_cases h
        · rw [evaluate_number, hvalue]
        · rw [evaluate_negate, hvalue]
      rw [hexcerpts]
      refine .none fun p t hp => ?_
      cases hp with
      | form hform => exact hform (by obtain rfl | rfl := numeral_cases h <;> rfl)
      | numeral hnumeral hnone =>
          cases h.symm.trans hnumeral
          cases hvalue.symm.trans hnone
      | item | value | shorthand | verbatim => cases h

theorem evaluate_plain {e : Expr} (hplain : e.isContainer = false) (hliteral : e.IsLiteral)
    (hnumeral : e.numeral? = none) : (evaluate e).2 = [] := by
  cases e with
  | string | bool => rfl
  | template text substitutions =>
      cases substitutions with
      | false => rfl
      | true => cases hliteral
  | negate inner =>
      rw [Expr.IsLiteral, hnumeral] at hliteral
      · cases hliteral
      all_goals nofun
  | array | object => cases hplain
  | number => cases hnumeral
  | null | name | construct | call | member | verbatim => cases hliteral

/-- Each unsupported part is listed once, in the order of the source. -/
theorem evaluate_lists (e : Expr) : Lists e.Unsupported (evaluate e).2 := by
  induction e using Expr.parts_induction with
  | array items ih =>
      rw [evaluate_array]
      exact (Lists.parts ih).congr fun p text => unsupported_array.symm
  | object members ih =>
      have hmembers : ∀ member ∈ members,
          Lists (MemberUnsupported member) (memberExcerpts member) := by
        intro member hmember
        cases member with
        | property key e => exact ih key e hmember
        | shorthand name => exact .one fun _ _ => Iff.rfl
        | verbatim text => exact .one fun _ _ => Iff.rfl
      rw [evaluate_object]
      exact (Lists.parts hmembers).congr fun p text => unsupported_object.symm
  | plain e hplain =>
      have hpart : ∀ n p text, ¬ e.Unsupported (n :: p) text := by
        rintro n p text (_ | _ | _) <;> cases hplain
      by_cases hliteral : e.IsLiteral
      · cases hnumeral : e.numeral? with
        | some text => exact lists_numeral hnumeral
        | none =>
            rw [evaluate_plain hplain hliteral hnumeral]
            refine .none fun p text h => ?_
            cases p with
            | cons n p => exact hpart n p text h
            | nil =>
                cases h with
                | form hform => exact hform hliteral
                | numeral h => cases hnumeral.symm.trans h
      · exact lists_unsupported (evaluate_of_not_isLiteral hliteral) (.form hliteral) hpart

end Literal

end HandlerWeave
