import HandlerWeave.Yaml.Read
import HandlerWeave.Yaml.Writer
import HandlerWeave.Text.Letters
import Mathlib.Data.List.Infix

/-!
What is written of a document. A page only grows, so that a mapping with an entry leaves a colon on
it, and is no blank text. Whether it is read back as the same document can be computed where no
floating numbers are in it.
-/
namespace HandlerWeave.Yaml.Writer

/-- One page goes on where the other ends. -/
def Page.Extends (q p : Page) : Prop := p.written <:+ q.written

namespace Page

variable {p q r : Page}

theorem Extends.refl : p.Extends p := List.suffix_rfl

theorem Extends.trans (hqp : q.Extends p) (hrq : r.Extends q) : r.Extends p :=
  List.IsSuffix.trans hqp hrq

theorem Extends.mem {c : Char} (h : q.Extends p) (hc : c ∈ p.written) : c ∈ q.written :=
  h.subset hc

theorem Extends.ite {b : Prop} [Decidable b] (h : q.Extends p) :
    (if b then q else p).Extends p := by
  split
  · exact h
  · exact .refl

theorem extends_put (c : Char) : (p.put c).Extends p := List.suffix_cons c p.written

theorem extends_putAll (cs : List Char) : (p.putAll cs).Extends p := by
  induction cs generalizing p with
  | nil => exact .refl
  | cons c cs ih => exact (extends_put c).trans ih

theorem mem_putAll {c : Char} {cs : List Char} (hc : c ∈ cs) : c ∈ (p.putAll cs).written := by
  induction cs generalizing p with
  | nil => cases hc
  | cons d cs ih =>
      obtain rfl | hc := List.mem_cons.1 hc
      · exact (extends_putAll cs).mem List.mem_cons_self
      · exact ih hc

theorem extends_space : p.space.Extends p := by
  unfold space
  split
  · exact .refl
  · exact extends_put ' '

theorem extends_newLine (indent : Nat) : (p.newLine indent).Extends p := by
  unfold newLine
  exact (extends_put '\n').ite.trans (extends_putAll _)

theorem extends_indicator (text : String) : (p.indicator text).Extends p :=
  extends_space.trans (extends_putAll text.toList)

theorem extends_word (cs : List Char) : (p.word cs).Extends p := extends_putAll cs

theorem extends_tag (tag : Option String) : (p.tag tag).Extends p := by
  cases tag with
  | none => exact .refl
  | some tag => exact extends_space.trans (extends_word _)

end Page

open Page

variable {p : Page}

theorem extends_singleQuotedBody (indent : Nat) (broken : Bool) (cs : List Char) :
    (singleQuotedBody indent broken cs p).Extends p := by
  induction cs generalizing broken p with
  | nil =>
      unfold singleQuotedBody
      split
      · exact extends_newLine indent
      · exact .refl
  | cons c cs ih =>
      unfold singleQuotedBody
      dsimp only
      split
      · refine Extends.trans ?_ (ih true)
        exact (extends_put '\n').ite.trans (extends_put c)
      split
      · exact (extends_put c).trans (ih broken)
      · refine Extends.trans ?_ (ih false)
        exact ((extends_newLine indent).ite.trans (extends_put c).ite).trans (extends_put c)

theorem extends_literalBody (indent : Nat) (broken : Bool) (cs : List Char) :
    (literalBody indent broken cs p).Extends p := by
  induction cs generalizing broken p with
  | nil => exact .refl
  | cons c cs ih =>
      unfold literalBody
      dsimp only
      split
      · refine Extends.trans ?_ (ih true)
        exact extends_put c
      · refine Extends.trans ?_ (ih false)
        exact (extends_newLine indent).ite.trans (extends_put c)

theorem extends_scalar (style : Style) (indent : Nat) (cs : List Char) :
    (scalar style indent cs p).Extends p := by
  cases style with
  | plain =>
      refine Extends.trans ?_ (extends_word cs)
      split
      · exact .refl
      · exact extends_space
  | singleQuoted =>
      exact ((extends_space.trans (extends_word _)).trans
        (extends_singleQuotedBody indent false cs)).trans (extends_word _)
  | doubleQuoted => exact extends_space.trans (extends_word _)
  | literal =>
      refine Extends.trans ?_ (extends_literalBody indent true cs)
      exact (extends_space.trans (extends_putAll _)).trans (extends_put '\n')

theorem extends_leaf (tag : Option String) (place : Place) (indent : Option Nat) (wanted : Style)
    (text : String) : (leaf tag place indent wanted text p).Extends p :=
  (extends_tag tag).trans (extends_scalar _ _ _)

mutual

theorem extends_node (tag : Option String) (place : Place) (indent : Option Nat) :
    ∀ (value : Yaml) (p : Page), (node tag place indent value p).Extends p
  | .tagged tag value, p => by
      rw [node]
      exact extends_node (some tag) place indent value p
  | .sequence items, p => by
      rw [node]
      dsimp only
      split
      · exact (extends_tag tag).trans (extends_space.trans (extends_word _))
      · exact (extends_tag tag).trans (extends_sequenceItems _ items _)
  | .mapping entries, p => by
      rw [node]
      split
      · exact (extends_tag tag).trans (extends_space.trans (extends_word _))
      · exact (extends_tag tag).trans (extends_mappingEntries _ entries _)
  | .null, p => extends_leaf tag place indent .plain "null"
  | .bool b, p => extends_leaf tag place indent .plain _
  | .number n, p => extends_leaf tag place indent .plain _
  | .string s, p => extends_leaf tag place indent _ s

theorem extends_sequenceItems (indent : Nat) :
    ∀ (items : List Yaml) (p : Page), (sequenceItems indent items p).Extends p
  | [], p => .refl
  | value :: rest, p => by
      rw [sequenceItems]
      exact ((extends_newLine indent).trans (extends_indicator "-")).trans
        ((extends_node none .item (some indent) value _).trans
          (extends_sequenceItems indent rest _))

theorem extends_mappingEntries (indent : Nat) :
    ∀ (entries : List (Yaml × Yaml)) (p : Page), (mappingEntries indent entries p).Extends p
  | [], p => .refl
  | (key, value) :: rest, p => by
      rw [mappingEntries]
      dsimp only
      refine Extends.trans ?_ ((extends_node none .value (some indent) value _).trans
        (extends_mappingEntries indent rest _))
      split
      · exact (extends_newLine indent).trans
          ((extends_node none .simpleKey (some indent) key _).trans (extends_word _))
      · exact (extends_newLine indent).trans ((extends_indicator "?").trans
          ((extends_node none .value (some indent) key _).trans
            ((extends_newLine indent).trans (extends_indicator ":"))))

end

/-- Behind the key of an entry a colon is written. -/
theorem colon_mem_mappingEntries (indent : Nat) (entry : Yaml × Yaml) (rest : List (Yaml × Yaml)) :
    ':' ∈ (mappingEntries indent (entry :: rest) p).written := by
  obtain ⟨key, value⟩ := entry
  rw [mappingEntries]
  dsimp only
  refine ((extends_node none .value (some indent) value _).trans
    (extends_mappingEntries indent rest _)).mem ?_
  split
  · exact mem_putAll (List.mem_singleton_self _)
  · exact mem_putAll (List.mem_singleton_self _)

end HandlerWeave.Yaml.Writer

namespace HandlerWeave

theorem Text.trim_ne_empty {text : String} {c : Char} (hc : c ∈ text.toList)
    (hblank : isBlank c = false) : trim text ≠ "" := by
  have htrim : ∀ cs : List Char, c ∈ cs → c ∈ cs.dropWhile isBlank := by
    intro cs hc
    induction cs with
    | nil => cases hc
    | cons d cs ih =>
        by_cases hd : isBlank d = true
        · rw [List.dropWhile_cons_of_pos hd]
          obtain rfl | hc := List.mem_cons.1 hc
          · rw [hblank] at hd
            cases hd
          · exact ih hc
        · rwa [List.dropWhile_cons_of_neg hd]
  have hmem : c ∈ trimList text.toList :=
    List.mem_reverse.2 (htrim _ (List.mem_reverse.2 (htrim _ hc)))
  intro hempty
  rw [trim, String.ofList_eq_empty_iff] at hempty
  rw [hempty] at hmem
  cases hmem

theorem Yaml.trim_write {entries : List (Yaml × Yaml)} (hne : entries ≠ []) :
    (Text.trim (write (.mapping entries))).isEmpty = false := by
  obtain ⟨entry, rest, rfl⟩ := List.exists_cons_of_ne_nil hne
  have hcolon : ':' ∈ (write (.mapping (entry :: rest))).toList := by
    rw [write, String.toList_ofList, List.mem_reverse]
    refine (Writer.Page.extends_newLine 0).mem ?_
    rw [Writer.node]
    exact Writer.colon_mem_mappingEntries _ entry rest
  simpa using Text.trim_ne_empty hcolon (by decide)

namespace Yaml

mutual

/-- Equality of values in all their parts, the order of entries included. Of floating numbers it
says nothing. -/
def agrees : Yaml → Yaml → Bool
  | .null, .null => true
  | .bool a, .bool b => a == b
  | .number (.int a), .number (.int b) => a == b
  | .string a, .string b => a == b
  | .sequence as, .sequence bs => agreesItems as bs
  | .mapping as, .mapping bs => agreesEntries as bs
  | .tagged s a, .tagged t b => s == t && agrees a b
  | _, _ => false

def agreesItems : List Yaml → List Yaml → Bool
  | [], [] => true
  | a :: as, b :: bs => agrees a b && agreesItems as bs
  | _, _ => false

def agreesEntries : List (Yaml × Yaml) → List (Yaml × Yaml) → Bool
  | [], [] => true
  | (k, v) :: as, (l, w) :: bs => agrees k l && agrees v w && agreesEntries as bs
  | _, _ => false

end

mutual

theorem eq_of_agrees : ∀ {a b : Yaml}, agrees a b = true → a = b
  | .null, b, h | .bool _, b, h | .string _, b, h => by cases b <;> simp_all [agrees]
  | .number (.int _), b, h | .number (.float _), b, h => by
      cases b with
      | number n => cases n <;> simp_all [agrees]
      | null | bool | string | sequence | mapping | tagged => simp [agrees] at h
  | .sequence as, b, h => by
      cases b with
      | sequence bs =>
          have hitems : agreesItems as bs = true := by simpa [agrees] using h
          rw [eq_of_agreesItems hitems]
      | null | bool | number | string | mapping | tagged => simp [agrees] at h
  | .mapping as, b, h => by
      cases b with
      | mapping bs =>
          have hentries : agreesEntries as bs = true := by simpa [agrees] using h
          rw [eq_of_agreesEntries hentries]
      | null | bool | number | string | sequence | tagged => simp [agrees] at h
  | .tagged s a, b, h => by
      cases b with
      | tagged t b =>
          obtain ⟨htag, hvalue⟩ : s = t ∧ agrees a b = true := by simpa [agrees] using h
          rw [htag, eq_of_agrees hvalue]
      | null | bool | number | string | sequence | mapping => simp [agrees] at h

theorem eq_of_agreesItems : ∀ {as bs : List Yaml}, agreesItems as bs = true → as = bs
  | [], [], _ => rfl
  | [], _ :: _, h | _ :: _, [], h => by simp [agreesItems] at h
  | a :: as, b :: bs, h => by
      obtain ⟨hhead, htail⟩ : agrees a b = true ∧ agreesItems as bs = true := by
        simpa [agreesItems] using h
      rw [eq_of_agrees hhead, eq_of_agreesItems htail]

theorem eq_of_agreesEntries :
    ∀ {as bs : List (Yaml × Yaml)}, agreesEntries as bs = true → as = bs
  | [], [], _ => rfl
  | [], _ :: _, h | _ :: _, [], h => by simp [agreesEntries] at h
  | (k, v) :: as, (l, w) :: bs, h => by
      obtain ⟨⟨hkey, hvalue⟩, htail⟩ :
          (agrees k l = true ∧ agrees v w = true) ∧ agreesEntries as bs = true := by
        simpa [agreesEntries] using h
      rw [eq_of_agrees hkey, eq_of_agrees hvalue, eq_of_agreesEntries htail]

end

/-- The document is read back from the text that is written of it. -/
def readsBack (document : Yaml) : Bool :=
  match read (write document) with
  | .ok again => agrees again document
  | .error _ => false

theorem read_write_of_readsBack {document : Yaml} (h : readsBack document = true) :
    read (write document) = .ok document := by
  unfold readsBack at h
  split at h
  next again heq => rw [heq, eq_of_agrees h]
  · cases h

end Yaml

end HandlerWeave
