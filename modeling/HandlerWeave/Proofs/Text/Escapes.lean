import HandlerWeave.Proofs.Literal.JsonLexemes

/-!
What escapes stand for. A character can be written in a literal as it is, by a letter, or by its
number in one of three forms; in the form with four digits a character above U+FFFF takes two
escapes, each of which is read for itself.
-/
namespace HandlerWeave.Text

open JsonText (hexDigits hexValue hexDigits_sound)
open Source (decode_escape unquote_delimited)

/-- The 16-bit units of a character: its number, or two surrogates. -/
def units (c : Char) : List Nat :=
  if c.toNat < 0x10000 then [c.toNat]
  else [0xd800 + (c.toNat - 0x10000) / 0x400, 0xdc00 + (c.toNat - 0x10000) % 0x400]

theorem units_lt {c : Char} : ∀ u ∈ units c, u < 0x10000 := by
  have hvalid : c.toNat.isValidChar := c.valid
  rw [Nat.isValidChar] at hvalid
  rw [units]
  split
  · simpa
  · simp only [List.forall_mem_cons]
    refine ⟨?_, ?_, by simp⟩ <;> omega

def hexDigit (n : Nat) : Char × Nat := hexDigits.getD n ('0', 0)

theorem hexDigit_sound : ∀ n < 16, hexDigit n ∈ hexDigits ∧ (hexDigit n).2 = n := by decide

/-- A number in hexadecimal. -/
structure Hexadecimal where
  digits : List (Char × Nat)
  digits_mem : ∀ d ∈ digits, d ∈ hexDigits
  digits_ne_nil : digits ≠ []

namespace Hexadecimal

variable (n : Hexadecimal)

def text : List Char := n.digits.map Prod.fst

def value : Nat := hexValue n.digits

theorem notMem_text : '\x7d' ∉ n.text := by
  intro hmem
  obtain ⟨d, hd, heq⟩ := List.mem_map.1 hmem
  exact (hexDigits_sound d (n.digits_mem d hd)).2.2 (by simp [heq])

theorem charOfHex_text : Quoted.charOfHex n.text =
    if n.value.isValidChar then [Char.ofNat n.value] else [] := by
  rw [Quoted.charOfHex, text, JsonText.naturalValue?_hex n.digits_mem n.digits_ne_nil]
  rfl

theorem charOfHex_of_value {c : Char} (h : n.value = c.toNat) : Quoted.charOfHex n.text = [c] := by
  have hvalid : n.value.isValidChar := h ▸ c.valid
  rw [charOfHex_text, if_pos hvalid, h, Char.ofNat_toNat]

/-- A surrogate is no character. -/
theorem charOfHex_of_surrogate (h : 0xd800 ≤ n.value ∧ n.value < 0xe000) :
    Quoted.charOfHex n.text = [] := by
  have hvalid : ¬ n.value.isValidChar := by
    rw [Nat.isValidChar]
    omega
  rw [charOfHex_text, if_neg hvalid]

/-- Of its units, a character is read if there is one, and nothing if there are two. -/
theorem flatMap_charOfHex {ns : List Hexadecimal} {c : Char} (h : ns.map value = units c) :
    ns.flatMap (Quoted.charOfHex ·.text) = if 0x10000 ≤ c.toNat then [] else [c] := by
  have hvalid : c.toNat.isValidChar := c.valid
  rw [units] at h
  by_cases hc : c.toNat < 0x10000
  · rw [if_pos hc] at h
    obtain ⟨n, rfl, hn⟩ := List.map_eq_singleton_iff.1 h
    rw [if_neg (Nat.not_le.2 hc), List.flatMap_singleton, n.charOfHex_of_value hn]
  · rw [if_neg hc] at h
    obtain ⟨high, ns, rfl, hhigh, hns⟩ := List.map_eq_cons_iff.1 h
    obtain ⟨low, rfl, hlow⟩ := List.map_eq_singleton_iff.1 hns
    rw [Nat.isValidChar] at hvalid
    rw [if_pos (Nat.not_lt.1 hc), List.flatMap_cons, List.flatMap_singleton,
      high.charOfHex_of_surrogate (by omega), low.charOfHex_of_surrogate (by omega),
      List.append_nil]

/-- The number in four digits. -/
def four (n : Nat) : Hexadecimal where
  digits := [n / 0x1000 % 16, n / 0x100 % 16, n / 0x10 % 16, n % 16].map hexDigit
  digits_mem := by
    simp only [List.forall_mem_map, List.forall_mem_cons]
    exact ⟨(hexDigit_sound _ (Nat.mod_lt _ (by decide))).1,
      (hexDigit_sound _ (Nat.mod_lt _ (by decide))).1,
      (hexDigit_sound _ (Nat.mod_lt _ (by decide))).1,
      (hexDigit_sound _ (Nat.mod_lt _ (by decide))).1, by simp⟩
  digits_ne_nil := by simp

theorem four_value {n : Nat} (h : n < 0x10000) : (four n).value = n := by
  have hdigit : ∀ m, (hexDigit (m % 16)).2 = m % 16 := fun m =>
    (hexDigit_sound _ (Nat.mod_lt m (by decide))).2
  simp only [value, hexValue, four, List.map_cons, List.map_nil, List.foldl_cons, List.foldl_nil,
    hdigit]
  omega

end Hexadecimal

/-- The letters with a meaning of their own behind a backslash. -/
def letterEscapes : List (Char × Char) :=
  [('n', '\n'), ('t', '\t'), ('r', '\r'), ('b', '\x08'), ('f', '\x0c'), ('v', '\x0b'),
    ('0', '\x00')]

/-- A piece of a literal's body: one character in one of the ways to write it, or a line break that
is written but not meant. -/
inductive Part
  | plain (c : Char) (hback : c ≠ '\\')
  | letter (l c : Char) (h : (l, c) ∈ letterEscapes)
  | itself (c : Char) (h : c ∉ letterEscapes.map Prod.fst ++ ['x', 'u', '\n'])
  | byte (c : Char) (n : Hexadecimal) (hlength : n.digits.length = 2) (h : n.value = c.toNat)
  | units (c : Char) (ns : List Hexadecimal) (hlength : ∀ n ∈ ns, n.digits.length = 4)
      (h : ns.map Hexadecimal.value = Text.units c)
  | braced (c : Char) (n : Hexadecimal) (h : n.value = c.toNat)
  | lineBreak

namespace Part

def text : Part → List Char
  | plain c _ => [c]
  | letter l _ _ => ['\\', l]
  | itself c _ => ['\\', c]
  | byte _ n _ _ => '\\' :: 'x' :: n.text
  | units _ ns _ _ => ns.flatMap fun n => '\\' :: 'u' :: n.text
  | braced _ n _ => '\\' :: 'u' :: '\x7b' :: (n.text ++ ['\x7d'])
  | lineBreak => ['\\', '\n']

/-- The characters that are meant. -/
def chars : Part → List Char
  | plain c _ | letter _ c _ | itself c _ | byte c _ _ _ | units c _ _ _ | braced c _ _ => [c]
  | lineBreak => []

/-- The character is written by two surrogates. -/
def isPair : Part → Bool
  | units c _ _ _ => 0x10000 ≤ c.toNat
  | _ => false

/-- What is read of the piece. -/
def read (p : Part) : List Char := if p.isPair then [] else p.chars

end Part

namespace Quoted

theorem escape_letter : ∀ e ∈ letterEscapes, ∀ cs, escape (e.1 :: cs) = ([e.2], 1) := by
  simp only [letterEscapes, List.forall_mem_cons]
  exact ⟨fun _ => rfl, fun _ => rfl, fun _ => rfl, fun _ => rfl, fun _ => rfl, fun _ => rfl,
    fun _ => rfl, by simp⟩

theorem escape_itself {c : Char} (h : c ∉ letterEscapes.map Prod.fst ++ ['x', 'u', '\n'])
    (cs : List Char) : escape (c :: cs) = ([c], 1) := by
  simp only [letterEscapes, List.map_cons, List.map_nil, List.cons_append, List.nil_append,
    List.mem_cons, List.not_mem_nil, or_false, not_or] at h
  unfold escape
  split <;> simp_all

theorem decode_byte {n : Hexadecimal} (hlength : n.digits.length = 2) (rest : List Char) :
    decode 0 ('\\' :: 'x' :: (n.text ++ rest)) = charOfHex n.text ++ decode 0 rest := by
  have htext : n.text.length = 2 := by simp [Hexadecimal.text, hlength]
  have hescape : escape ('x' :: (n.text ++ rest)) = (charOfHex n.text, 3) := by
    change (charOfHex ((n.text ++ rest).take 2), 3) = _
    rw [List.take_left' htext]
  rw [decode_escape hescape, List.drop_succ_cons, List.drop_left' htext]

theorem decode_unit {n : Hexadecimal} (hlength : n.digits.length = 4) (rest : List Char) :
    decode 0 ('\\' :: 'u' :: (n.text ++ rest)) = charOfHex n.text ++ decode 0 rest := by
  have htext : n.text.length = 4 := by simp [Hexadecimal.text, hlength]
  have hescape : escape ('u' :: (n.text ++ rest)) = (charOfHex n.text, 5) :=
    JsonText.escape_code n.digits_mem hlength rest
  rw [decode_escape hescape, List.drop_succ_cons, List.drop_left' htext]

/-- Escapes with four digits are read one by one. -/
theorem decode_units {ns : List Hexadecimal} (hlength : ∀ n ∈ ns, n.digits.length = 4)
    (rest : List Char) :
    decode 0 (ns.flatMap (fun n => '\\' :: 'u' :: n.text) ++ rest) =
      ns.flatMap (charOfHex ·.text) ++ decode 0 rest := by
  induction ns with
  | nil => rfl
  | cons n ns ih =>
      obtain ⟨hn, hns⟩ := List.forall_mem_cons.1 hlength
      rw [List.flatMap_cons, List.flatMap_cons, List.append_assoc, List.append_assoc, ← ih hns]
      exact decode_unit hn _

theorem decode_braced (n : Hexadecimal) (rest : List Char) :
    decode 0 ('\\' :: 'u' :: '\x7b' :: (n.text ++ '\x7d' :: rest)) =
      charOfHex n.text ++ decode 0 rest := by
  have hdigits : ∀ c ∈ n.text, (c != '\x7d') = true := by
    rintro c hc
    have hne : c ≠ '\x7d' := by
      rintro rfl
      exact n.notMem_text hc
    simpa using hne
  have htake : (n.text ++ '\x7d' :: rest).takeWhile (· != '\x7d') = n.text := by
    rw [List.takeWhile_append_of_pos hdigits]
    simp
  have hescape : escape ('u' :: '\x7b' :: (n.text ++ '\x7d' :: rest)) =
      (charOfHex n.text, n.text.length + 3) := by
    simp only [escape, htake]
  rw [decode_escape hescape]
  simp

end Quoted

/-- A piece is read for itself, whatever follows it. -/
theorem Part.decode (p : Part) (rest : List Char) :
    Quoted.decode 0 (p.text ++ rest) = p.read ++ Quoted.decode 0 rest := by
  cases p with
  | plain c hback =>
      change Quoted.decode 0 (c :: rest) = c :: Quoted.decode 0 rest
      rw [Quoted.decode, if_neg hback]
  | letter l c h => exact decode_escape (Quoted.escape_letter _ h rest)
  | itself c h => exact decode_escape (Quoted.escape_itself h rest)
  | byte c n hlength h =>
      change Quoted.decode 0 ('\\' :: 'x' :: (n.text ++ rest)) = [c] ++ Quoted.decode 0 rest
      rw [Quoted.decode_byte hlength, n.charOfHex_of_value h]
  | units c ns hlength h =>
      change Quoted.decode 0 (ns.flatMap (fun n => '\\' :: 'u' :: n.text) ++ rest) = _
      rw [Quoted.decode_units hlength, Hexadecimal.flatMap_charOfHex h]
      simp [read, isPair, chars]
  | braced c n h =>
      change Quoted.decode 0 ('\\' :: 'u' :: '\x7b' :: (n.text ++ ['\x7d'] ++ rest)) =
        [c] ++ Quoted.decode 0 rest
      rw [List.append_assoc, List.singleton_append, Quoted.decode_braced, n.charOfHex_of_value h]
  | lineBreak => rfl

namespace Part

variable {parts : List Part}

theorem decode_flatMap (parts : List Part) :
    Quoted.decode 0 (parts.flatMap text) = parts.flatMap read := by
  induction parts with
  | nil => rfl
  | cons p parts ih => rw [List.flatMap_cons, List.flatMap_cons, p.decode, ih]

theorem length_read (parts : List Part) :
    (parts.flatMap read).length + parts.countP isPair = (parts.flatMap chars).length := by
  induction parts with
  | nil => rfl
  | cons p parts ih =>
      have hp : p.read.length + (if p.isPair then 1 else 0) = p.chars.length := by
        cases hpair : p.isPair with
        | false => simp [read, hpair]
        | true =>
            cases p with
            | units c ns hlength h => simp [read, hpair, chars]
            | _ => cases hpair
      rw [List.flatMap_cons, List.flatMap_cons, List.length_append, List.length_append,
        List.countP_cons, ← ih, ← hp]
      omega

theorem read_eq_chars_iff :
    parts.flatMap read = parts.flatMap chars ↔ ∀ p ∈ parts, p.isPair = false := by
  constructor
  · intro h
    have hlength := length_read parts
    rw [h] at hlength
    have hnone : parts.countP isPair = 0 := by omega
    simpa using List.countP_eq_zero.1 hnone
  · intro h
    refine List.flatMap_congr fun p hp => ?_
    rw [read, h p hp]
    rfl

/-- A literal whose body consists of the pieces. -/
def literal (delimiter : Char) (parts : List Part) : String :=
  String.ofList (delimiter :: (parts.flatMap text ++ [delimiter]))

theorem unquote_literal (delimiter : Char) (parts : List Part) :
    unquote (literal delimiter parts) = String.ofList (parts.flatMap read) := by
  rw [literal, unquote_delimited, decode_flatMap]

theorem unquote_literal_iff (delimiter : Char) (parts : List Part) :
    unquote (literal delimiter parts) = String.ofList (parts.flatMap chars) ↔
      ∀ p ∈ parts, p.isPair = false := by
  rw [unquote_literal, String.ofList_inj, read_eq_chars_iff]

/-- A character by its units, each in an escape with four digits. -/
def ofUnits (c : Char) : Part :=
  .units c ((Text.units c).map .four) (by simp [Hexadecimal.four])
    (by
      rw [List.map_map]
      exact (List.map_congr_left fun u hu => Hexadecimal.four_value (units_lt u hu)).trans
        (List.map_id _))

end Part

/-- A literal is read as it is spelled, whatever way each character is written, exactly if no
character is written by two surrogates; such a character is left out. So with four-digit escapes
only, exactly the strings up to U+FFFF are read as they are spelled. -/
theorem unquote_spelled (delimiter : Char) (parts : List Part) :
    unquote (Part.literal delimiter parts) = String.ofList (parts.flatMap Part.read) ∧
    (unquote (Part.literal delimiter parts) = String.ofList (parts.flatMap Part.chars) ↔
      ∀ p ∈ parts, p.isPair = false) ∧
    ∀ s : String, unquote (Part.literal delimiter (s.toList.map Part.ofUnits)) = s ↔
      ∀ c ∈ s.toList, c.toNat < 0x10000 := by
  refine ⟨Part.unquote_literal delimiter parts, Part.unquote_literal_iff delimiter parts,
    fun s => ?_⟩
  have hspells : String.ofList ((s.toList.map Part.ofUnits).flatMap Part.chars) = s := by
    rw [List.flatMap_map]
    simp [Part.ofUnits, Part.chars]
  have h := Part.unquote_literal_iff delimiter (s.toList.map Part.ofUnits)
  rw [hspells, List.forall_mem_map] at h
  simpa [Part.ofUnits, Part.isPair] using h

/-- The two units of U+1F600 are read as nothing. -/
theorem surrogates_not_spelled :
    units '😀' = [0xd83d, 0xde00] ∧ unquote "'\\uD83D\\uDE00'" = "" ∧
      unquote "'\\uD83D\\uDE00'" ≠ "😀" := by
  decide +kernel

end HandlerWeave.Text
