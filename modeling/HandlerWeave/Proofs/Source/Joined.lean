import HandlerWeave.Proofs.Source.Spelling
import HandlerWeave.Proofs.Source.Takes
import Mathlib.Data.List.Forall2

/-!
Parts with a separator between any two of them. The marks of the separators may stand anywhere on
their lines.
-/
namespace HandlerWeave.Source

open Source.Parser

variable {α β : Type} {P : List Mark → α → Prop} {as : List α} {m : Mark} {ms ns rest : List Mark}
  {separator closer : Token.Kind} {p : Parser α}

/-- The marks of one part or more, each of them read as its own result. -/
inductive Joined (separator : Token.Kind) (P : List Mark → α → Prop) : List Mark → List α → Prop
  | one {ms : List Mark} {a : α} (h : P ms a) : Joined separator P ms [a]
  | cons {ms ns : List Mark} {m : Mark} {a : α} {as : List α} (h : P ms a)
      (hm : m.kind = separator) (hrest : Joined separator P ns as) :
      Joined separator P (ms ++ m :: ns) (a :: as)

/-- What is known of each part may rest on its being no longer than the whole. -/
theorem Joined.map {Q : List Mark → β → Prop} {f : α → β} (h : Joined separator P ms as)
    (hmap : ∀ ns, ∀ a ∈ as, ns.length ≤ ms.length → P ns a → Q ns (f a)) :
    Joined separator Q ms (as.map f) := by
  induction h with
  | one h => exact .one (hmap _ _ List.mem_cons_self (Nat.le_refl _) h)
  | @cons ms ns m a as h hm _ ih =>
      have hlength : (ms ++ m :: ns).length = ms.length + (ns.length + 1) := by
        rw [List.length_append, List.length_cons]
      exact .cons (hmap _ _ List.mem_cons_self (by omega) h) hm
        (ih fun ks b hb hks => hmap ks b (List.mem_cons_of_mem _ hb) (by omega))

theorem Joined.imp {Q : List Mark → α → Prop} (h : Joined separator P ms as)
    (himp : ∀ ns a, ns.length ≤ ms.length → P ns a → Q ns a) : Joined separator Q ms as := by
  have hmap := h.map (f := id) fun ns a _ => himp ns a
  rwa [List.map_id] at hmap

/-- Parts with commas between them and perhaps one behind the last. There may be no part. -/
inductive Listed (P : List Mark → α → Prop) : List Mark → List α → Prop
  | nil : Listed P [] []
  | one {ms : List Mark} {a : α} (h : P ms a) : Listed P ms [a]
  | cons {ms ns : List Mark} {m : Mark} {a : α} {as : List α} (h : P ms a) (hm : m.kind = .comma)
      (hrest : Listed P ns as) : Listed P (ms ++ m :: ns) (a :: as)

theorem Joined.listed (h : Joined .comma P ms as) : Listed P ms as := by
  induction h with
  | one h => exact .one h
  | cons h hm _ ih => exact .cons h hm ih

theorem Listed.map {Q : List Mark → β → Prop} {f : α → β} (h : Listed P ms as)
    (hmap : ∀ ns, ∀ a ∈ as, ns.length ≤ ms.length → P ns a → Q ns (f a)) :
    Listed Q ms (as.map f) := by
  induction h with
  | nil => exact .nil
  | one h => exact .one (hmap _ _ List.mem_cons_self (Nat.le_refl _) h)
  | @cons ms ns m a as h hm _ ih =>
      have hlength : (ms ++ m :: ns).length = ms.length + (ns.length + 1) := by
        rw [List.length_append, List.length_cons]
      exact .cons (hmap _ _ List.mem_cons_self (by omega) h) hm
        (ih fun ks b hb hks => hmap ks b (List.mem_cons_of_mem _ hb) (by omega))

/-- The part is read by `p` in front of any mark of the kinds, and it does not start with one. -/
structure ReadsPart (p : Parser α) (ends : List Token.Kind) (ms : List Mark) (a : α) : Prop where
  starts : ∀ rest, (markAt (ms ++ rest) 0).kind ∉ ends
  takes : ∀ m rest, m.kind ∈ ends → Takes p (ms ++ m :: rest) a (m :: rest)

theorem ReadsPart.ne_nil {ends : List Token.Kind} {a : α} (h : ReadsPart p ends ms a)
    (hends : closer ∈ ends) : ms ≠ [] := by
  rintro rfl
  exact h.starts [⟨closer, "", false⟩] hends

theorem Listed.lists (h : Listed (ReadsPart p [.comma, closer]) ms as) (hm : m.kind = closer)
    (hcloser : closer ≠ .comma) : Lists closer p (ms ++ m :: rest) as (m :: rest) := by
  have hfirst : ∀ {ms : List Mark} {a : α} {rest : List Mark},
      ReadsPart p [.comma, closer] ms a → (markAt (ms ++ rest) 0).kind ≠ closer := by
    intro ms a rest h heq
    exact h.starts rest (by simp [heq])
  induction h with
  | nil => exact .nil hm
  | one h => exact .one (hfirst h) (h.takes m rest (by simp [hm])) (by simpa [hm] using hcloser)
  | @cons ms ns comma a as h hcomma _ ih =>
      rw [List.append_assoc, List.cons_append]
      refine .cons (hfirst h) (h.takes comma _ (by simp [hcomma])) hcomma ?_ ih
      have hpos := List.length_pos_iff.2 (h.ne_nil List.mem_cons_self)
      simp only [List.length_append, List.length_cons]
      omega

/-- The part is read in front of a separator and in front of what stands behind the last part. -/
theorem Joined.separates (h : Joined separator (fun ns a => ∀ tail,
      (markAt tail 0).kind = separator ∨ tail = rest → Takes p (ns ++ tail) a tail) ms as)
    (hrest : (markAt rest 0).kind ≠ separator) : Separates separator p (ms ++ rest) as rest := by
  induction h with
  | one h => exact .one (h rest (.inr rfl)) hrest
  | @cons ms ns m a as h hm _ ih =>
      rw [List.append_assoc, List.cons_append]
      refine .cons (h _ (.inl hm)) hm ?_ ih
      simp only [List.length_append, List.length_cons]
      omega

/-- Texts with commas between them are read as the marks of the texts, one behind the other. -/
theorem Lexes.joined {ι : Type} {items : List ι} {text : ι → List Char} {R : ι → α → Prop}
    (hne : items ≠ []) (h : ∀ i ∈ items, ∀ line, ∃ ms last a,
      Lexes line (text i) ms last ∧ P ms a ∧ R i a) (line : Bool) :
    ∃ ms last as, Lexes line ([','].intercalate (items.map text)) ms last ∧
      Joined .comma P ms as ∧ List.Forall₂ R items as := by
  induction items generalizing line with
  | nil => exact absurd rfl hne
  | cons i items ih =>
      obtain ⟨hi, hitems⟩ := List.forall_mem_cons.1 h
      obtain ⟨ms, mid, a, hms, hP, hR⟩ := hi line
      cases items with
      | nil =>
          refine ⟨ms, mid, [a], ?_, .one hP, .cons hR .nil⟩
          simpa using hms
      | cons j items =>
          obtain ⟨ns, last, as, hns, hjoined, hall⟩ := ih (List.cons_ne_nil _ _) hitems false
          have hcomma : Lexes mid (',' :: [','].intercalate ((j :: items).map text))
              (⟨.comma, ",", mid⟩ :: ns) last := .mark rfl hns
          refine ⟨ms ++ ⟨.comma, ",", mid⟩ :: ns, last, a :: as, ?_, .cons hP rfl hjoined,
            .cons hR hall⟩
          rw [List.map_cons, List.map_cons, List.intercalate_cons_cons, ← List.map_cons,
            List.append_assoc]
          exact hms.append (fun _ _ => edge_cons.2 (by decide)) hcomma

end HandlerWeave.Source
