import HandlerWeave.Artifact.Slug
import HandlerWeave.Proofs.Source.Lexemes

/-!
The characters of slugs. The slug of a word is made of the word's own characters in lower case and
of hyphens, so it holds none that a path, a line or an import would end at.
-/
namespace HandlerWeave.Artifact

open Source

def isStemChar (c : Char) : Bool := isWordPart c || c == '#' || c == '-'

def IsStem (s : String) : Prop := ∀ c ∈ s.toList, isStemChar c = true

variable {c x : Char} {cs before : List Char} {w s : String}

theorem IsStem.notMem (h : IsStem s) (hc : isStemChar c = false) : c ∉ s.toList := by
  intro hmem
  rw [h c hmem] at hc
  cases hc

theorem isStem_of_isWord (hw : IsWord w) : IsStem w := by
  have hidentifier : ∀ v, Text.isIdentifier v = true → ∀ c ∈ v.toList, isStemChar c = true := by
    intro v hv c hc
    obtain ⟨d, ds, hlist, hd, hds⟩ := Lexer.exists_identifier hv
    have hpart : isWordPart c = true := by
      rw [hlist] at hc
      obtain rfl | hc := List.mem_cons.1 hc
      · exact isWordPart_of_isWordStart hd
      · exact hds c hc
    simp [isStemChar, hpart]
  obtain hw | ⟨v, hv, rfl⟩ := hw
  · exact hidentifier w hw
  · intro c hc
    rw [String.toList_append] at hc
    cases List.mem_append.1 hc with
    | inl hc =>
        rw [List.mem_singleton.1 (show c ∈ ['#'] from hc)]
        rfl
    | inr hc => exact hidentifier v hv c hc

namespace Slug

theorem mem_splitHumps (h : x ∈ splitHumps cs) : x ∈ cs ∨ x = '-' := by
  induction cs using splitHumps.induct with
  | case1 a b cs hhump ih =>
      simp only [splitHumps, hhump, if_true, List.mem_cons] at h ⊢
      grind
  | case2 a b cs hhump ih =>
      simp only [splitHumps, hhump, List.mem_cons] at h ⊢
      grind
  | case3 cs hcs =>
      rw [splitHumps] at h
      · exact .inl h
      · exact hcs

theorem mem_splitDigits {inside : Bool} (h : x ∈ splitDigits inside cs) : x ∈ cs ∨ x = '-' := by
  induction cs generalizing inside with
  | nil => cases h
  | cons c cs ih =>
      simp only [splitDigits] at h
      grind

theorem mem_dropHyphen (h : x ∈ dropHyphen cs) : x ∈ cs := by
  unfold dropHyphen at h
  split at h
  · exact List.mem_cons_of_mem _ h
  · exact h

theorem mem_splitHumps_of_mem (h : x ∈ cs) : x ∈ splitHumps cs := by
  induction cs using splitHumps.induct with
  | case1 a b cs hhump ih =>
      simp only [splitHumps, hhump, if_true, List.mem_cons] at h ⊢
      grind
  | case2 a b cs hhump ih =>
      simp only [splitHumps, hhump, List.mem_cons] at h ⊢
      grind
  | case3 cs hcs =>
      rw [splitHumps]
      · exact h
      · exact hcs

theorem mem_splitDigits_of_mem {inside : Bool} (h : x ∈ cs) : x ∈ splitDigits inside cs := by
  induction cs generalizing inside with
  | nil => cases h
  | cons c cs ih =>
      simp only [splitDigits]
      grind

theorem mem_dropHyphen_of_mem (h : x ∈ cs) (hx : x ≠ '-') : x ∈ dropHyphen cs := by
  unfold dropHyphen
  split
  · simpa [hx] using h
  · exact h

end Slug

theorem toNat_lt_of_isStemChar (h : isStemChar c = true) : c.toNat < 128 := by
  simp only [isStemChar, isWordPart, Char.isAlphanum, Lexer.isAlpha_eq, Lexer.isUpper_eq,
    Lexer.isLower_eq, Char.isDigit, Bool.or_eq_true, Bool.and_eq_true, decide_eq_true_eq,
    beq_iff_eq, UInt32.le_iff_toNat_le] at h
  change c.val.toNat < 128
  obtain (((((h | h) | h) | rfl) | rfl) | rfl) | rfl := h
  · exact Nat.lt_of_le_of_lt h.2 (by decide)
  · exact Nat.lt_of_le_of_lt h.2 (by decide)
  · exact Nat.lt_of_le_of_lt h.2 (by decide)
  all_goals decide

/-- A property of characters that lower case keeps on all of ASCII. -/
theorem toLower_keeps {p : Char → Bool} (hp : ∀ n < 128, p (Char.ofNat n) = true →
    p (Char.ofNat n).toLower = true) (hascii : c.toNat < 128) (h : p c = true) :
    p c.toLower = true := by
  have hc := hp c.toNat hascii
  rw [Char.ofNat_toNat] at hc
  exact hc h

theorem isStemChar_toLower (h : isStemChar c = true) : isStemChar c.toLower = true :=
  toLower_keeps (by decide) (toNat_lt_of_isStemChar h) h

theorem lowerChar_ascii (h : c.toNat < 128) : Text.lowerChar c = [c.toLower] := if_pos h

/-- In an ASCII text each character is put in lower case by itself. -/
theorem lowerList_ascii (h : ∀ c ∈ cs, c.toNat < 128) :
    Text.lowerList before cs = cs.map Char.toLower := by
  induction cs generalizing before with
  | nil => rfl
  | cons c cs ih =>
      obtain ⟨hc, hcs⟩ := List.forall_mem_cons.1 h
      have hsigma : c ≠ 'Σ' := by
        rintro rfl
        exact absurd hc (by decide)
      rw [Text.lowerList, if_neg hsigma, lowerChar_ascii hc, ih hcs]
      rfl

theorem lowerList_stem (hcs : ∀ c ∈ cs, isStemChar c = true) :
    Text.lowerList before cs = cs.map Char.toLower :=
  lowerList_ascii fun c hc => toNat_lt_of_isStemChar (hcs c hc)

theorem mem_lowerList (hcs : ∀ c ∈ cs, isStemChar c = true) (h : x ∈ Text.lowerList before cs) :
    isStemChar x = true := by
  rw [lowerList_stem hcs] at h
  obtain ⟨c, hc, rfl⟩ := List.mem_map.1 h
  exact isStemChar_toLower (hcs c hc)

/-- What a slug is made of before it is put in lower case. -/
theorem stemChar_of_mem_split (hw : IsStem w)
    (hx : x ∈ Slug.dropHyphen (Slug.splitDigits false (Slug.splitHumps w.toList))) :
    isStemChar x = true := by
  cases Slug.mem_splitDigits (Slug.mem_dropHyphen hx) with
  | inl hx =>
      cases Slug.mem_splitHumps hx with
      | inl hx => exact hw x hx
      | inr hx => rw [hx]; rfl
  | inr hx => rw [hx]; rfl

theorem lowerList_ne_nil (hcs : ∀ c ∈ cs, isStemChar c = true) (h : cs ≠ []) :
    Text.lowerList before cs ≠ [] := by
  rw [lowerList_stem hcs]
  simpa using h

theorem slug_isStem (hw : IsWord w) : IsStem (slug w) := by
  intro c hc
  rw [slug, Text.lowercase, String.toList_ofList, String.toList_ofList] at hc
  exact mem_lowerList (fun x hx => stemChar_of_mem_split (isStem_of_isWord hw) hx) hc

theorem exists_not_hyphen (hw : IsWord w) : ∃ c ∈ w.toList, c ≠ '-' := by
  obtain hw | ⟨v, -, rfl⟩ := hw
  · obtain ⟨c, cs, hlist, hc, -⟩ := Lexer.exists_identifier hw
    refine ⟨c, hlist ▸ List.mem_cons_self, ?_⟩
    rintro rfl
    cases hc
  · exact ⟨'#', by simp, by decide⟩

/-- The slug of a word keeps what is no hyphen of it. -/
theorem slug_ne_empty (hw : IsWord w) : slug w ≠ "" := by
  obtain ⟨c, hc, hhyphen⟩ := exists_not_hyphen hw
  have hkept : c ∈ Slug.dropHyphen (Slug.splitDigits false (Slug.splitHumps w.toList)) :=
    Slug.mem_dropHyphen_of_mem (Slug.mem_splitDigits_of_mem (Slug.mem_splitHumps_of_mem hc)) hhyphen
  intro hempty
  rw [slug, Text.lowercase, String.toList_ofList, String.ofList_eq_empty_iff] at hempty
  exact lowerList_ne_nil (fun x hx => stemChar_of_mem_split (isStem_of_isWord hw) hx) (List.ne_nil_of_mem hkept) hempty

end HandlerWeave.Artifact
