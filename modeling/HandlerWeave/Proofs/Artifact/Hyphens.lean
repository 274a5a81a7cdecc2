import HandlerWeave.Artifact.TypeFiles
import HandlerWeave.Proofs.Artifact.Slugs

/-!
What a slug keeps of a name. It is the name in lower case with hyphens between some of its
characters, so two names that differ in more than case have slugs that differ.
-/
namespace HandlerWeave.Artifact

open Source

/-- The second text is the first one, which has no hyphens, with a hyphen in front of some of its
characters. -/
inductive Hyphenated : List Char → List Char → Prop
  | nil : Hyphenated [] []
  | plain {c cs ds} (hc : c ≠ '-') (h : Hyphenated cs ds) : Hyphenated (c :: cs) (c :: ds)
  | hyphen {c cs ds} (hc : c ≠ '-') (h : Hyphenated cs ds) :
    Hyphenated (c :: cs) ('-' :: c :: ds)

variable {c : Char} {cs ds : List Char} {name other : String}

namespace Hyphenated

theorem map {f : Char → Char} (hf : f '-' = '-') (hcs : ∀ c ∈ cs, f c ≠ '-')
    (h : Hyphenated cs ds) : Hyphenated (cs.map f) (ds.map f) := by
  induction h with
  | nil => exact .nil
  | plain _ _ ih =>
      obtain ⟨hc, hcs⟩ := List.forall_mem_cons.1 hcs
      exact .plain hc (ih hcs)
  | hyphen _ _ ih =>
      obtain ⟨hc, hcs⟩ := List.forall_mem_cons.1 hcs
      rw [List.map_cons, List.map_cons, List.map_cons, hf]
      exact .hyphen hc (ih hcs)

/-- Without the hyphens it is the first text again. -/
theorem filter_eq (h : Hyphenated cs ds) : ds.filter (· != '-') = cs := by
  induction h with
  | nil => rfl
  | plain hc _ ih => rw [List.filter_cons_of_pos (by simpa using hc), ih]
  | hyphen hc _ ih =>
      rw [List.filter_cons_of_neg (by simp), List.filter_cons_of_pos (by simpa using hc), ih]

theorem notMem (h : Hyphenated cs ds) : '-' ∉ cs := by
  rw [← h.filter_eq]
  simp

theorem getLast?_eq (h : Hyphenated cs ds) : ds.getLast? = cs.getLast? := by
  induction h with
  | nil => rfl
  | plain _ _ ih => rw [List.getLast?_cons, List.getLast?_cons, ih]
  | hyphen _ _ ih =>
      rw [List.getLast?_cons_cons, List.getLast?_cons, List.getLast?_cons, ih]

theorem not_doubled (h : Hyphenated cs ds) : ¬ ['-', '-'] <:+: ds := by
  have hplain : ∀ {c ds}, c ≠ '-' → ¬ ['-', '-'] <:+: ds → ¬ ['-', '-'] <:+: c :: ds := by
    intro c ds hc hds hinfix
    obtain hprefix | hinfix := List.infix_cons_iff.1 hinfix
    · exact hc (List.cons_prefix_cons.1 hprefix).1.symm
    · exact hds hinfix
  induction h with
  | nil => simp
  | plain hc _ ih => exact hplain hc ih
  | @hyphen c _ ds hc _ ih =>
      intro hinfix
      obtain hprefix | hinfix := List.infix_cons_iff.1 hinfix
      · obtain ⟨-, hprefix⟩ := List.cons_prefix_cons.1 hprefix
        exact hc (List.cons_prefix_cons.1 hprefix).1.symm
      · exact hplain hc ih hinfix

/-- Only the hyphen in front of the first character stands at the front of the text. -/
theorem dropHyphen (h : Hyphenated cs ds) :
    Hyphenated cs (Slug.dropHyphen ds) ∧ (Slug.dropHyphen ds).head? = cs.head? := by
  cases h with
  | nil => exact ⟨.nil, rfl⟩
  | plain hc h =>
      rw [Slug.dropHyphen]
      · exact ⟨.plain hc h, rfl⟩
      · simpa using hc
  | hyphen hc h => exact ⟨.plain hc h, rfl⟩

end Hyphenated

namespace Slug

theorem isDigit_of_isAlpha (h : c.isAlpha = true) : Text.isDigit c = false := by
  have hstart : isWordStart c = true := by rw [isWordStart, h, Bool.true_or, Bool.true_or]
  have hascii : c.toNat < 128 :=
    toNat_lt_of_isStemChar (by rw [isStemChar, isWordPart_of_isWordStart hstart]; rfl)
  rw [Text.isDigit, if_pos hascii]
  refine Bool.eq_false_iff.2 fun hdigit => ?_
  rw [Lexer.isWordStart_digit hdigit] at hstart
  cases hstart

theorem splitDigits_other (hc : Text.isDigit c = false) (inside : Bool) (cs : List Char) :
    splitDigits inside (c :: cs) = c :: splitDigits false cs := by
  simp [splitDigits, hc]

theorem splitDigits_cons (hc : c ≠ '-') (h : ∀ inside, Hyphenated cs (splitDigits inside ds))
    (inside : Bool) : Hyphenated (c :: cs) (splitDigits inside (c :: ds)) := by
  rw [splitDigits]
  split
  · cases inside with
    | true => exact .plain hc (h true)
    | false => exact .hyphen hc (h true)
  · exact .plain hc (h false)

/-- The hyphens of the first split stand in front of capitals and those of the second in front of
digits, so none stands in front of a hyphen. -/
theorem splitDigits_splitHumps (hcs : '-' ∉ cs) (inside : Bool) :
    Hyphenated cs (splitDigits inside (splitHumps cs)) := by
  induction cs using splitHumps.induct generalizing inside with
  | case1 a b cs hhump ih =>
      simp only [List.mem_cons, not_or] at hcs
      obtain ⟨ha, hb, hcs⟩ := hcs
      have hupper : a.isUpper = true := (Bool.and_eq_true_iff.1 hhump).1
      have halpha : a.isAlpha = true := by rw [Lexer.isAlpha_eq, hupper, Bool.true_or]
      rw [splitHumps, if_pos hhump, splitDigits_other rfl,
        splitDigits_other (isDigit_of_isAlpha halpha)]
      exact .hyphen (Ne.symm ha) (splitDigits_cons (Ne.symm hb) (ih hcs) false)
  | case2 a b cs hhump ih =>
      obtain ⟨ha, hcs⟩ := not_or.1 (mt List.mem_cons.2 hcs)
      rw [splitHumps, if_neg hhump]
      exact splitDigits_cons (Ne.symm ha) (ih hcs) inside
  | case3 cs hshort =>
      rw [splitHumps]
      · cases cs with
        | nil => exact .nil
        | cons c cs =>
            cases cs with
            | nil => exact splitDigits_cons (by simpa [eq_comm] using hcs) (fun _ => .nil) inside
            | cons d cs => exact (hshort c d cs rfl).elim
      · exact hshort

end Slug

theorem isStem_of_isWordPart (h : ∀ c ∈ name.toList, isWordPart c = true) : IsStem name :=
  fun c hc => by rw [isStemChar, h c hc, Bool.true_or, Bool.true_or]

theorem toList_lowercase (h : IsStem name) :
    (Text.lowercase name).toList = name.toList.map Char.toLower := by
  rw [Text.lowercase, String.toList_ofList, lowerList_stem h]

theorem toLower_ne_hyphen (h : isWordPart c = true) : c.toLower ≠ '-' := by
  have hascii : c.toNat < 128 := toNat_lt_of_isStemChar (by simp [isStemChar, h])
  have hlower : isWordPart c.toLower = true := toLower_keeps (by decide) hascii h
  intro hc
  rw [hc] at hlower
  cases hlower

/-- A slug is the name in lower case, with hyphens between some of its characters. -/
theorem slug_hyphenated (h : ∀ c ∈ name.toList, isWordPart c = true) :
    Hyphenated (name.toList.map Char.toLower) (slug name).toList ∧
      (slug name).toList.head? = (name.toList.map Char.toLower).head? := by
  have hname : '-' ∉ name.toList := fun hmem => nomatch h '-' hmem
  obtain ⟨hsplit, hhead⟩ := (Slug.splitDigits_splitHumps hname false).dropHyphen
  have hstem : ∀ c ∈ Slug.dropHyphen (Slug.splitDigits false (Slug.splitHumps name.toList)),
      isStemChar c = true := fun c hc => stemChar_of_mem_split (isStem_of_isWordPart h) hc
  rw [slug, Text.lowercase, String.toList_ofList, String.toList_ofList, lowerList_stem hstem]
  exact ⟨hsplit.map rfl fun c hc => toLower_ne_hyphen (h c hc), by
    rw [List.head?_map, List.head?_map, hhead]⟩

theorem eq_of_slug_eq (h : ∀ c ∈ name.toList, isWordPart c = true)
    (hother : ∀ c ∈ other.toList, isWordPart c = true) (heq : slug name = slug other) :
    name.toList.map Char.toLower = other.toList.map Char.toLower := by
  rw [← (slug_hyphenated h).1.filter_eq, heq, (slug_hyphenated hother).1.filter_eq]

theorem typeFile_name (types : Types.Table) (d : Types.Definition) :
    (typeFile types d).name = slug d.name ++ ".ts" := rfl

/-- A slug loses nothing of a name but its case. Without the hyphens it is the name in lower case,
and a hyphen stands alone between two other characters, so types share a file only where their names
are the same in lower case. -/
theorem slug_keeps_letters (h : ∀ c ∈ name.toList, isWordPart c = true) :
    (slug name).toList.filter (· != '-') = (Text.lowercase name).toList ∧
    (Text.lowercase name).toList = name.toList.map Char.toLower ∧
    (slug name).toList.head? ≠ some '-' ∧ (slug name).toList.getLast? ≠ some '-' ∧
    ¬ ['-', '-'] <:+: (slug name).toList ∧
    ∀ (types types' : Types.Table) (d d' : Types.Definition), d.name = name →
      (∀ c ∈ d'.name.toList, isWordPart c = true) →
      (typeFile types d).name = (typeFile types' d').name →
      Text.lowercase d.name = Text.lowercase d'.name := by
  obtain ⟨hslug, hhead⟩ := slug_hyphenated h
  have hlower := toList_lowercase (isStem_of_isWordPart h)
  refine ⟨hslug.filter_eq.trans hlower.symm, hlower, fun hfirst => ?_, fun hlast => ?_,
    hslug.not_doubled, ?_⟩
  · exact hslug.notMem (List.mem_of_head? (hhead ▸ hfirst))
  · exact hslug.notMem (List.mem_of_getLast? (hslug.getLast?_eq ▸ hlast))
  · rintro types types' d d' rfl hd' hfile
    have heq : slug d.name = slug d'.name := by
      rw [typeFile_name, typeFile_name] at hfile
      exact (String.append_left_inj _).1 hfile
    apply String.toList_injective
    rw [hlower, toList_lowercase (isStem_of_isWordPart hd'), eq_of_slug_eq h hd' heq]

/-- Two names that differ in the case of one letter, and have one file. -/
theorem slug_keeps_letters_itemV2 :
    let d : Types.Definition := { name := "ItemV2" }
    let d' : Types.Definition := { name := "itemV2" }
    (∀ c ∈ d.name.toList, isWordPart c = true) ∧ slug d.name = "itemv-2" ∧
      (slug d.name).toList.filter (· != '-') = (Text.lowercase d.name).toList ∧
      ¬ ['-', '-'] <:+: (slug d.name).toList ∧
      (typeFile {} d).name = (typeFile {} d').name ∧
      Text.lowercase d.name = Text.lowercase d'.name := by
  intro d d'
  have hname : ∀ c ∈ d.name.toList, isWordPart c = true := List.all_eq_true.1 (by decide +kernel)
  have hname' : ∀ c ∈ d'.name.toList, isWordPart c = true :=
    List.all_eq_true.1 (by decide +kernel)
  have hfile : (typeFile {} d).name = (typeFile {} d').name := by decide +kernel
  obtain ⟨hletters, -, -, -, hdoubled, hshared⟩ := slug_keeps_letters hname
  exact ⟨hname, by decide +kernel, hletters, hdoubled, hfile, hshared _ _ d d' rfl hname' hfile⟩

end HandlerWeave.Artifact
