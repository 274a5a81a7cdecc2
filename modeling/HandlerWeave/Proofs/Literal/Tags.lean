import HandlerWeave.Literal.Value
import HandlerWeave.Proofs.Source.Lexemes

/-!
Strings that stand for tagged values. A string is split behind a tag name and white space; only the
text behind them decides whether there is a tag at all, since it has to stand on one line.
-/
namespace HandlerWeave.Literal

open Source

variable {s t v : List Char} {c : Char}

namespace Tag

/-- A letter, and behind it letters, digits, colons, points, underscores and hyphens. -/
def IsName (t : List Char) : Prop :=
  ∃ c cs, t = c :: cs ∧ c.isAlpha = true ∧ ∀ d ∈ cs, isPart d = true

theorem toNat_of_isPart (h : isPart c = true) : 45 ≤ c.toNat ∧ c.toNat ≤ 122 := by
  simp only [isPart, Bool.or_eq_true, List.contains_iff_mem] at h
  obtain h | h := h
  · simp only [Char.isAlphanum, Lexer.isAlpha_eq, Lexer.isUpper_eq, Lexer.isLower_eq, Char.isDigit,
      Bool.or_eq_true, Bool.and_eq_true, decide_eq_true_eq, UInt32.le_iff_toNat_le, ge_iff_le] at h
    have hvalue : c.toNat = c.val.toNat := rfl
    have hbounds : 'A'.val.toNat = 65 ∧ 'Z'.val.toNat = 90 ∧ 'a'.val.toNat = 97 ∧
      'z'.val.toNat = 122 ∧ '0'.val.toNat = 48 ∧ '9'.val.toNat = 57 := by decide
    omega
  · have hbounds : ∀ c ∈ [':', '.', '_', '-'], 45 ≤ c.toNat ∧ c.toNat ≤ 122 := by simp
    exact hbounds c h

/-- White space ends a tag name. -/
theorem isPart_of_isBlank (h : Text.isBlank c = true) : isPart c = false := by
  simp only [Text.isBlank, Text.inRanges, Text.blankRanges, List.any_cons, List.any_nil,
    Bool.or_eq_true, Bool.and_eq_true, decide_eq_true_eq, Bool.or_false] at h
  rw [Bool.eq_false_iff]
  intro hpart
  have hbounds := toNat_of_isPart hpart
  omega

/-- Behind a tag name as long as it can be, the string is split where the white space ends. -/
theorem split?_parts {cs gap : List Char} (hc : c.isAlpha = true) (hcs : ∀ d ∈ cs, isPart d = true)
    (hname : Starts (isPart · = false) (gap ++ v)) (hgap : ∀ d ∈ gap, Text.isBlank d = true)
    (hv : Starts (Text.isBlank · = false) v) :
    split? ('!' :: c :: (cs ++ (gap ++ v))) =
      if (gap = [] → v = []) ∧ '\n' ∉ v then some (c :: cs, v) else none := by
  have hends : ((gap ++ v).isEmpty || (gap ++ v).length ≠ v.length) = true ↔
      (gap = [] → v = []) := by
    cases gap with
    | nil => simp
    | cons d gap =>
        have hlonger : gap.length + v.length + 1 ≠ v.length := by omega
        simp [hlonger]
  have hcondition : (((gap ++ v).isEmpty || (gap ++ v).length ≠ v.length) &&
      !v.contains '\n') = true ↔ (gap = [] → v = []) ∧ '\n' ∉ v := by
    rw [Bool.and_eq_true, hends]
    simp
  simp only [split?, hc, if_true, hname.takeWhile_append hcs, hname.dropWhile_append hcs,
    hv.dropWhile_append hgap, hcondition]

/-- Any text is the longest part of a tag name, white space, and a text behind it. -/
theorem exists_parts (cs : List Char) : ∃ name gap text, cs = name ++ (gap ++ text) ∧
    (∀ d ∈ name, isPart d = true) ∧ Starts (isPart · = false) (gap ++ text) ∧
    (∀ d ∈ gap, Text.isBlank d = true) ∧ Starts (Text.isBlank · = false) text := by
  refine ⟨cs.takeWhile isPart, (cs.dropWhile isPart).takeWhile Text.isBlank,
    (cs.dropWhile isPart).dropWhile Text.isBlank, ?_, List.all_eq_true.1 List.all_takeWhile, ?_,
    List.all_eq_true.1 List.all_takeWhile, starts_dropWhile _ _⟩
  · rw [List.takeWhile_append_dropWhile, List.takeWhile_append_dropWhile]
  · rw [List.takeWhile_append_dropWhile]
    exact starts_dropWhile _ _

/-- A string is split into a tag name and a text that stands behind it on one line, with white space
between them unless the text is empty. -/
theorem split?_eq_some : split? s = some (t, v) ↔
    IsName t ∧ '\n' ∉ v ∧ Starts (Text.isBlank · = false) v ∧
      ∃ gap, (∀ d ∈ gap, Text.isBlank d = true) ∧ (gap = [] → v = []) ∧
        s = '!' :: (t ++ (gap ++ v)) := by
  constructor
  · intro h
    unfold split? at h
    split at h
    next c cs =>
      split at h
      next hc =>
        obtain ⟨name, gap, text, rfl, hname, hends, hgap, htext⟩ := exists_parts cs
        have hsplit := split?_parts hc hname hends hgap htext
        rw [split?, if_pos hc] at hsplit
        rw [hsplit] at h
        split at h
        next hwhole =>
          cases h
          exact ⟨⟨c, name, rfl, hc, hname⟩, hwhole.2, htext, gap, hgap, hwhole.1, rfl⟩
        · cases h
      · cases h
    · cases h
  · rintro ⟨⟨c, cs, rfl, hc, hcs⟩, hline, hv, gap, hgap, hempty, rfl⟩
    have hname : Starts (isPart · = false) (gap ++ v) := by
      cases gap with
      | nil => simp [hempty rfl]
      | cons d gap => exact starts_cons.2 (isPart_of_isBlank (hgap d List.mem_cons_self))
    rw [List.cons_append, split?_parts hc hcs hname hgap hv, if_pos ⟨hempty, hline⟩]

/-- A string without the front of a tagged one is not split. -/
theorem split?_eq_none (h : ¬ ∃ t rest, IsName t ∧ Starts (Text.isBlank · = true) rest ∧
    s = '!' :: (t ++ rest)) : split? s = none := by
  cases hsplit : split? s with
  | none => rfl
  | some parts =>
      obtain ⟨hname, -, -, gap, hgap, hempty, rfl⟩ := split?_eq_some.1 hsplit
      refine absurd ⟨parts.1, gap ++ parts.2, hname, ?_, rfl⟩ h
      cases gap with
      | nil => simp [hempty rfl]
      | cons d gap => exact starts_cons.2 (hgap d List.mem_cons_self)

/-- Behind a tag name and a blank, the text makes the tag exactly if it stands on one line. -/
theorem split?_blank (ht : IsName t) (hv : Starts (Text.isBlank · = false) v) :
    split? ('!' :: (t ++ ' ' :: v)) = if '\n' ∈ v then none else some (t, v) := by
  obtain ⟨c, cs, rfl, hc, hcs⟩ := ht
  have hblank : ∀ d ∈ [' '], Text.isBlank d = true := List.forall_mem_singleton.2 (by decide)
  have hname : Starts (isPart · = false) ([' '] ++ v) := starts_cons.2 (by decide)
  have hparts := split?_parts hc hcs hname hblank hv
  rw [List.singleton_append] at hparts
  rw [List.cons_append, hparts]
  by_cases hline : '\n' ∈ v <;> simp [hline]

end Tag

/-- A string made of a mark, a tag name, a blank and a text is that text under that tag exactly if
no line break stands in the text, and a plain string otherwise; so is every string that does not
start with a mark and a tag name at whose end it ends or has white space. -/
theorem string_tagged_iff (s : String) :
    (∀ t v : String, s = "!" ++ t ++ " " ++ v → Tag.IsName t.toList →
      Starts (Text.isBlank · = false) v.toList →
      (toYaml? (.string s) = some (.tagged t (.string v)) ↔ '\n' ∉ v.toList) ∧
      ('\n' ∈ v.toList → toYaml? (.string s) = some (.string s))) ∧
    ((¬ ∃ t rest, Tag.IsName t ∧ Starts (Text.isBlank · = true) rest ∧
      s.toList = '!' :: (t ++ rest)) → toYaml? (.string s) = some (.string s)) := by
  constructor
  · rintro t v rfl ht hv
    have hlist : ("!" ++ t ++ " " ++ v).toList = '!' :: (t.toList ++ ' ' :: v.toList) := by
      simp [String.toList_append]
    have hsplit := Tag.split?_blank ht hv
    rw [← hlist] at hsplit
    by_cases hline : '\n' ∈ v.toList
    · rw [if_pos hline] at hsplit
      simp only [toYaml?, stringToYaml, hsplit]
      simp [hline]
    · rw [if_neg hline] at hsplit
      simp only [toYaml?, stringToYaml, hsplit, String.ofList_toList]
      simp [hline]
  · intro hs
    rw [toYaml?, stringToYaml, Tag.split?_eq_none hs]

theorem string_tagged_iff_reference :
    "!GetAtt Jobs.Arn" = "!" ++ "GetAtt" ++ " " ++ "Jobs.Arn" ∧ Tag.IsName "GetAtt".toList ∧
      Starts (Text.isBlank · = false) "Jobs.Arn".toList ∧ '\n' ∉ "Jobs.Arn".toList ∧
      toYaml? (.string "!GetAtt Jobs.Arn") = some (.tagged "GetAtt" (.string "Jobs.Arn")) ∧
      toYaml? (.string "! not a tag") = some (.string "! not a tag") := by
  have hparts : "!GetAtt Jobs.Arn" = "!" ++ "GetAtt" ++ " " ++ "Jobs.Arn" := by decide
  have hname : Tag.IsName "GetAtt".toList :=
    ⟨'G', ['e', 't', 'A', 't', 't'], rfl, by decide, List.all_eq_true.1 (by decide)⟩
  have htext : Starts (Text.isBlank · = false) "Jobs.Arn".toList :=
    starts_cons.2 (by decide : Text.isBlank 'J' = false)
  have hline : '\n' ∉ "Jobs.Arn".toList := by decide
  have hplain : ¬ ∃ t rest, Tag.IsName t ∧ Starts (Text.isBlank · = true) rest ∧
      "! not a tag".toList = '!' :: (t ++ rest) := by
    rintro ⟨-, rest, ⟨c, cs, rfl, hc, -⟩, -, heq⟩
    have hfront : "! not a tag".toList = '!' :: ' ' :: "not a tag".toList := by decide
    rw [hfront] at heq
    injection heq with _ heq
    injection heq with heq
    rw [← heq] at hc
    cases hc
  exact ⟨hparts, hname, htext, hline,
    ((string_tagged_iff _).1 "GetAtt" "Jobs.Arn" hparts hname htext).1.2 hline,
    (string_tagged_iff _).2 hplain⟩

/-- A text over two lines makes no tag, whatever stands in front of it. -/
theorem lineBreak_not_tagged :
    Tag.IsName "Sub".toList ∧ Starts (Text.isBlank · = false) "a\nb".toList ∧
      toYaml? (.string "!Sub a\nb") = some (.string "!Sub a\nb") ∧
      toYaml? (.string "!Sub a\nb") ≠ some (.tagged "Sub" (.string "a\nb")) := by
  have hname : Tag.IsName "Sub".toList :=
    ⟨'S', ['u', 'b'], rfl, by decide, List.all_eq_true.1 (by decide)⟩
  have htext : Starts (Text.isBlank · = false) "a\nb".toList :=
    starts_cons.2 (by decide : Text.isBlank 'a' = false)
  have hplain : toYaml? (.string "!Sub a\nb") = some (.string "!Sub a\nb") := by
    have hsplit : Tag.split? "!Sub a\nb".toList = none := by decide
    rw [toYaml?, stringToYaml, hsplit]
  refine ⟨hname, htext, hplain, ?_⟩
  rw [hplain]
  exact nofun

end HandlerWeave.Literal
