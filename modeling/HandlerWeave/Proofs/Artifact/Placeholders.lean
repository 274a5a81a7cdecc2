import HandlerWeave.Proofs.Artifact.Methods
import Mathlib.Data.List.TakeWhile

/-!
The address that a client method calls. A path is text with placeholders between it. Text stays as
it is, and a placeholder is filled if its key is made of word characters; any other key is left
standing in its braces.
-/
namespace HandlerWeave.Artifact

inductive PathPart
  | plain (text : String)
  | placeholder (key : String)
deriving DecidableEq, Repr

def HasNoBrace (s : String) : Prop := '\x7b' ∉ s.toList ∧ '\x7d' ∉ s.toList

instance (s : String) : Decidable (HasNoBrace s) := inferInstanceAs (Decidable (_ ∧ _))

/-- Only word characters, so that the text can be the key of a placeholder. -/
def IsKey (s : String) : Prop := ∀ c ∈ s.toList, Text.isWordChar c = true

instance (s : String) : Decidable (IsKey s) :=
    List.decidableBAll (Text.isWordChar · = true) s.toList

namespace PathPart

/-- Braces stand around keys only. -/
def Plain : PathPart → Prop
  | plain text => HasNoBrace text
  | placeholder key => HasNoBrace key ∧ key ≠ ""

/-- The part as the path has it. -/
def written : PathPart → String
  | plain text => text
  | placeholder key => "\x7b" ++ key ++ "\x7d"

/-- The value of a parameter within a template. -/
def substitution (name : String) : String := "$\x7bencodeURIComponent(" ++ name ++ ")\x7d"

/-- The part with the parameter in the place of its key. -/
def filled (h : Handler) : PathPart → String
  | plain text => text
  | placeholder key => substitution (Service.placeholderName h key)

/-- The part as the address has it. -/
def emitted (h : Handler) : PathPart → String
  | plain text => text
  | placeholder key => if IsKey key then filled h (placeholder key) else written (placeholder key)

end PathPart

namespace Service

variable {value : String → String} {cs rest : List Char} {key : String} {h : Handler}
  {parts : List PathPart}

theorem fillPlaceholders_skip (value : String → String) (n : Nat) (cs : List Char) :
    fillPlaceholders value n cs = fillPlaceholders value 0 (cs.drop n) := by
  induction n generalizing cs with
  | zero => rfl
  | succ n ih =>
      cases cs with
      | nil => rfl
      | cons c cs => rw [fillPlaceholders, ih, List.drop_succ_cons]

/-- Text without an opening brace stays. -/
theorem fillPlaceholders_plain (value : String → String) (hcs : '\x7b' ∉ cs) (rest : List Char) :
    fillPlaceholders value 0 (cs ++ rest) = cs ++ fillPlaceholders value 0 rest := by
  induction cs with
  | nil => rfl
  | cons c cs ih =>
      obtain ⟨hc, hcs⟩ := not_or.1 (mt List.mem_cons.2 hcs)
      rw [List.cons_append, fillPlaceholders, if_neg (Ne.symm hc), ih hcs]
      rfl

theorem placeholder?_key (hkey : ∀ c ∈ cs, Text.isWordChar c = true) (hne : cs ≠ []) :
    placeholder? (cs ++ '\x7d' :: rest) = some (cs, rest) := by
  have htake : (cs ++ '\x7d' :: rest).takeWhile Text.isWordChar = cs := by
    rw [List.takeWhile_append_of_pos hkey, List.takeWhile_cons_of_neg (by decide), List.append_nil]
  obtain ⟨c, cs', rfl⟩ := List.exists_cons_of_ne_nil hne
  unfold placeholder?
  simp only [htake, List.drop_left]

/-- A key with any other character in it is none: what follows its word characters is that
character and not the closing brace. -/
theorem placeholder?_other (hkey : ¬ ∀ c ∈ cs, Text.isWordChar c = true) (hbrace : '\x7d' ∉ cs) :
    placeholder? (cs ++ '\x7d' :: rest) = none := by
  obtain ⟨front, c, back, rfl, hfront, hc⟩ : ∃ front c back, cs = front ++ c :: back ∧
      (∀ x ∈ front, Text.isWordChar x = true) ∧ Text.isWordChar c = false := by
    obtain ⟨c, back, hdrop⟩ : ∃ c back, cs.dropWhile Text.isWordChar = c :: back :=
      List.exists_cons_of_ne_nil fun h => hkey (List.dropWhile_eq_nil_iff.1 h)
    have hhead := List.head?_dropWhile_not Text.isWordChar cs
    rw [hdrop] at hhead
    exact ⟨cs.takeWhile Text.isWordChar, c, back, by rw [← hdrop, List.takeWhile_append_dropWhile],
      List.all_eq_true.1 List.all_takeWhile, by simpa using hhead⟩
  have hne : c ≠ '\x7d' := by
    rintro rfl
    exact hbrace (by simp)
  have htake : (front ++ c :: (back ++ '\x7d' :: rest)).takeWhile Text.isWordChar = front := by
    rw [List.takeWhile_append_of_pos hfront, List.takeWhile_cons_of_neg (by simp [hc]),
      List.append_nil]
  rw [List.append_assoc, List.cons_append]
  unfold placeholder?
  simp only [htake, List.drop_left]
  split
  next heq => exact absurd (List.cons.inj heq).1 hne
  · rfl

theorem fillPlaceholders_part (h : Handler) {part : PathPart} (hpart : part.Plain)
    (rest : List Char) :
    let value := fun key => "$\x7bencodeURIComponent(" ++ placeholderName h key ++ ")\x7d"
    fillPlaceholders value 0 (part.written.toList ++ rest) =
      (part.emitted h).toList ++ fillPlaceholders value 0 rest := by
  intro value
  cases part with
  | plain text => exact fillPlaceholders_plain value hpart.1 rest
  | placeholder key =>
      obtain ⟨⟨hopen, hclose⟩, hne⟩ := hpart
      have hwritten : (PathPart.placeholder key).written.toList ++ rest =
          '\x7b' :: (key.toList ++ '\x7d' :: rest) := by
        simp [PathPart.written, String.toList_append]
      rw [hwritten, fillPlaceholders, if_pos rfl, PathPart.emitted]
      by_cases hkey : IsKey key
      · have hlist : key.toList ≠ [] := fun h => hne (String.toList_inj.1 h)
        rw [placeholder?_key hkey hlist, if_pos hkey]
        simp only [String.ofList_toList]
        rw [fillPlaceholders_skip, List.drop_append, List.drop_eq_nil_of_le (Nat.le_succ _),
          Nat.add_sub_cancel_left]
        rfl
      · rw [placeholder?_other hkey hclose, if_neg hkey]
        simp only
        rw [fillPlaceholders_plain value hopen, fillPlaceholders, if_neg (by decide)]
        simp [PathPart.written, String.toList_append]

/-- The address is put together from the parts of the path. -/
theorem url_eq (h : Handler) (hparts : ∀ part ∈ parts, part.Plain) :
    url h (String.join (parts.map PathPart.written)) =
      String.join (parts.map (PathPart.emitted h)) := by
  apply String.toList_inj.1
  rw [url, String.toList_ofList]
  induction parts with
  | nil => rfl
  | cons part parts ih =>
      obtain ⟨hpart, hparts⟩ := List.forall_mem_cons.1 hparts
      rw [List.map_cons, List.map_cons, String.join_cons, String.join_cons, String.toList_append,
        String.toList_append, fillPlaceholders_part h hpart, ih hparts]

theorem head?_append {s : String} {c : Char} (hs : s.toList.head? = some c) (rest : String) :
    (s ++ rest).toList.head? = some c := by
  rw [String.toList_append, List.head?_append, hs, Option.some_or]

theorem head?_written (key rest : String) :
    ((PathPart.placeholder key).written ++ rest).toList.head? = some '\x7b' := by
  have hopen : "\x7b".toList.head? = some '\x7b' := rfl
  exact head?_append (head?_append (head?_append hopen key) "\x7d") rest

theorem head?_substitution (name rest : String) :
    (PathPart.substitution name ++ rest).toList.head? = some '$' := by
  have hopen : "$\x7bencodeURIComponent(".toList.head? = some '$' := rfl
  exact head?_append (head?_append (head?_append hopen name) ")\x7d") rest

/-- The first part that is not filled shows: it goes on with another character. -/
theorem join_emitted_eq_iff (h : Handler) (parts : List PathPart) :
    String.join (parts.map (PathPart.emitted h)) = String.join (parts.map (PathPart.filled h)) ↔
      ∀ key, .placeholder key ∈ parts → IsKey key := by
  induction parts with
  | nil => simp
  | cons part parts ih =>
      rw [List.map_cons, List.map_cons, String.join_cons, String.join_cons]
      cases part with
      | plain text =>
          have hkeys : (∀ key, .placeholder key ∈ parts → IsKey key) ↔
              ∀ key, .placeholder key ∈ .plain text :: parts → IsKey key := by simp
          exact (String.append_right_inj text).trans (ih.trans hkeys)
      | placeholder key =>
          by_cases hkey : IsKey key
          · have hkeys : (∀ k, .placeholder k ∈ parts → IsKey k) ↔
                ∀ k, .placeholder k ∈ .placeholder key :: parts → IsKey k := by simp [hkey]
            rw [PathPart.emitted, if_pos hkey]
            exact (String.append_right_inj _).trans (ih.trans hkeys)
          · have hfirst : (PathPart.placeholder key).written ++
                String.join (parts.map (PathPart.emitted h)) ≠
                (PathPart.placeholder key).filled h ++
                  String.join (parts.map (PathPart.filled h)) := by
              intro heq
              have hfirst := head?_written key (String.join (parts.map (PathPart.emitted h)))
              rw [heq, PathPart.filled, head?_substitution] at hfirst
              exact absurd hfirst (by decide)
            rw [PathPart.emitted, if_neg hkey]
            exact iff_of_false hfirst fun hkeys => hkey (hkeys key List.mem_cons_self)

theorem method_address (h : Handler) (httpMethod path : String) :
    ∃ declared rest, Service.method h httpMethod path = lines (declared ::
      ("        const url = `$\x7bthis.baseUrl\x7d" ++ url h path ++ "`;") :: rest) :=
  ⟨_, _, rfl⟩

/-- A placeholder is filled with the first of the path parameters that have its key. -/
theorem placeholderName_eq (h : Handler) {p : BoundParam} (hp : p ∈ h.parametersIn .path) :
    ∃ front q back, h.parametersIn .path = front ++ q :: back ∧ q.key = p.key ∧
      (∀ r ∈ front, r.key ≠ p.key) ∧ placeholderName h p.key = q.name := by
  have hfound : ((h.parametersIn .path).find? (·.key == p.key)).isSome := by
    rw [List.find?_isSome]
    exact ⟨p, hp, by simp⟩
  obtain ⟨q, hq⟩ := Option.isSome_iff_exists.1 hfound
  obtain ⟨hkey, front, back, hsplit, hfront⟩ := List.find?_eq_some_iff_append.1 hq
  refine ⟨front, q, back, hsplit, by simpa using hkey, by simpa using hfront, ?_⟩
  rw [placeholderName, hq]
  rfl

end Service

open Service

/-- The method of a handler calls the address that is made from the parts of its path. Where every
placeholder is the key of a path parameter, the first parameter with the key fills it, and they are
all filled exactly if their keys are made of word characters. -/
theorem methodText_address {h : Handler} {httpMethod : String} {parts : List PathPart}
    (hroute : h.route? = some (httpMethod, String.join (parts.map PathPart.written)))
    (hparts : ∀ part ∈ parts, part.Plain)
    (hkeys : ∀ key, .placeholder key ∈ parts → ∃ p ∈ h.parametersIn .path, p.key = key) :
    (∃ declared rest, methodText h = lines (declared ::
      ("        const url = `$\x7bthis.baseUrl\x7d" ++
        String.join (parts.map (PathPart.emitted h)) ++ "`;") :: rest)) ∧
    (∀ key, .placeholder key ∈ parts → ∃ front p back, h.parametersIn .path = front ++ p :: back ∧
      p.key = key ∧ (∀ q ∈ front, q.key ≠ key) ∧
      (PathPart.placeholder key).filled h = PathPart.substitution p.name) ∧
    (String.join (parts.map (PathPart.emitted h)) = String.join (parts.map (PathPart.filled h)) ↔
      ∀ key, .placeholder key ∈ parts → IsKey key) := by
  refine ⟨?_, fun key hkey => ?_, join_emitted_eq_iff h parts⟩
  · obtain ⟨declared, rest, hmethod⟩ := method_address h (Text.lowercase httpMethod)
      (String.join (parts.map PathPart.written))
    refine ⟨declared, rest, ?_⟩
    rw [methodText_eq hroute, hmethod, url_eq h hparts]
  · obtain ⟨p, hp, rfl⟩ := hkeys key hkey
    obtain ⟨front, q, back, hsplit, hq, hfront, hname⟩ := placeholderName_eq h hp
    exact ⟨front, q, back, hsplit, hq, hfront, congrArg PathPart.substitution hname⟩

/-- A handler on the path of one item, with that parameter. -/
def itemHandler (key : String) : Handler where
  name := "GetItem"
  sourcePath := "/a.ts"
  exported := "a"
  metadata := .unknown ""
  parameters := [⟨.path, key, "id", "string"⟩]
  returnType := "any"
  httpMethod := some "get"
  httpPath := some ("/items/\x7b" ++ key ++ "\x7d")
  references := []

theorem methodText_address_item :
    let parts := [.plain "/items/", .placeholder "id"]
    (itemHandler "id").route? = some ("get", String.join (parts.map PathPart.written)) ∧
      (∀ part ∈ parts, part.Plain) ∧
      (∀ key, .placeholder key ∈ parts →
        ∃ p ∈ (itemHandler "id").parametersIn .path, p.key = key) ∧
      String.join (parts.map (PathPart.emitted (itemHandler "id"))) =
        "/items/$\x7bencodeURIComponent(id)\x7d" := by
  intro parts
  have hroute : (itemHandler "id").route? =
      some ("get", String.join (parts.map PathPart.written)) := by decide
  have hparts : ∀ part ∈ parts, part.Plain := by simp [parts, PathPart.Plain]; decide
  have hkeys : ∀ key, .placeholder key ∈ parts →
      ∃ p ∈ (itemHandler "id").parametersIn .path, p.key = key := by
    intro key hkey
    obtain rfl : key = "id" := by simpa [parts] using hkey
    decide
  obtain ⟨-, -, hfilled⟩ := methodText_address hroute hparts hkeys
  refine ⟨hroute, hparts, hkeys, (hfilled.2 fun key hkey => ?_).trans (by decide)⟩
  obtain rfl : key = "id" := by simpa [parts] using hkey
  decide

/-- A hyphen in the key leaves the placeholder in the address. -/
theorem hyphen_not_filled :
    let h := itemHandler "item-id"
    let parts := [.plain "/items/", .placeholder "item-id"]
    h.route? = some ("get", String.join (parts.map PathPart.written)) ∧
      (h.parametersIn .path).map (·.key) = ["item-id"] ∧
      url h "/items/\x7bitem-id\x7d" = "/items/\x7bitem-id\x7d" ∧
      String.join (parts.map (PathPart.filled h)) = "/items/$\x7bencodeURIComponent(id)\x7d" := by
  decide +kernel

end HandlerWeave.Artifact
