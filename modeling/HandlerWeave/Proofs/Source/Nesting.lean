import HandlerWeave.Source.Group

/-!
Well-nested token lists. What stays open behind some tokens decides how a scan for the end of a
group goes on, so a scan passes over a well-nested run whatever stands in it.
-/
namespace HandlerWeave.Source.Group

variable {t : Token} {ts us rest : List Token} {w v u σ : List Token.Kind} {kind : Token.Kind}
  {n d : Nat}

/-- What is open behind a token, given what is open in front of it: the kinds that close it,
innermost first. Nothing when the token closes another bracket than the innermost one. -/
def open1? (waiting : List Token.Kind) (t : Token) : Option (List Token.Kind) :=
  match t.kind.closing? with
  | some closer => some (closer :: waiting)
  | none =>
    if t.kind.isClosing then
      if waiting.head? = some t.kind then some waiting.tail else none
    else some waiting

/-- What is open behind some tokens. -/
def open? (waiting : List Token.Kind) (ts : List Token) : Option (List Token.Kind) :=
  ts.foldlM open1? waiting

/-- Every bracket is closed, by its own kind. -/
def Nested (ts : List Token) : Prop := open? [] ts = some []

instance : Decidable (Nested ts) := inferInstanceAs (Decidable (_ = _))

theorem open?_cons : open? w (t :: ts) = (open1? w t).bind (open? · ts) := rfl

theorem open?_append : open? w (ts ++ us) = (open? w ts).bind (open? · us) := by
  rw [open?, List.foldlM_append]
  rfl

theorem open?_cons_eq_some :
    open? w (t :: ts) = some v ↔ ∃ u, open1? w t = some u ∧ open? u ts = some v := by
  rw [open?_cons, Option.bind_eq_some_iff]

theorem open1?_opens (h : t.kind.closing? = some kind) : open1? w t = some (kind :: w) := by
  rw [open1?, h]

theorem closing?_of_isClosing (h : kind.isClosing = true) : kind.closing? = none := by
  revert h
  cases kind <;> decide

theorem isClosing_of_closing? {closer : Token.Kind} (h : kind.closing? = some closer) :
    closer.isClosing = true := by
  revert h
  cases kind <;> rintro ⟨⟩ <;> rfl

theorem open1?_closes (h : t.kind.isClosing = true) : open1? (t.kind :: w) t = some w := by
  simp [open1?, closing?_of_isClosing h, h]

theorem open1?_other (hopens : t.kind.closing? = none) (hcloses : t.kind.isClosing = false) :
    open1? w t = some w := by
  simp [open1?, hopens, hcloses]

/-- The innermost bracket decides what a token does. -/
theorem open1?_append (hw : w ≠ []) (σ : List Token.Kind) :
    open1? (w ++ σ) t = (open1? w t).map (· ++ σ) := by
  cases w with
  | nil => exact absurd rfl hw
  | cons wanted outer =>
      simp only [open1?]
      split
      · rfl
      · split
        · by_cases heq : wanted = t.kind <;> simp [heq]
        · rfl

theorem open1?_weaken (h : open1? w t = some v) (σ : List Token.Kind) :
    open1? (w ++ σ) t = some (v ++ σ) := by
  cases w with
  | cons wanted outer => rw [open1?_append (List.cons_ne_nil _ _), h]; rfl
  | nil =>
      simp only [open1?, List.head?_nil, reduceCtorEq, ↓reduceIte] at h ⊢
      split at h
      · cases h
        rfl
      · split at h
        · cases h
        next hcloses =>
          cases h
          exact if_neg hcloses

theorem open?_weaken (h : open? w ts = some v) (σ : List Token.Kind) :
    open? (w ++ σ) ts = some (v ++ σ) := by
  induction ts generalizing w with
  | nil => cases h; rfl
  | cons t ts ih =>
      obtain ⟨u, hu, hts⟩ := open?_cons_eq_some.1 h
      exact open?_cons_eq_some.2 ⟨u ++ σ, open1?_weaken hu σ, ih hts⟩

theorem Nested.open? (h : Nested ts) (σ : List Token.Kind) : open? σ ts = some σ :=
  open?_weaken (w := []) h σ

/-- A fault some tokens further on. -/
def Fault.laterBy (n : Nat) : Fault → Fault
  | mismatched index => mismatched (index + n)
  | unclosed => unclosed

/-- The outcome of a scan that began some tokens earlier. -/
def shift (n : Nat) : Except Fault Nat → Except Fault Nat
  | .ok m => .ok (m + n)
  | .error fault => .error (fault.laterBy n)

theorem shift_shift (m n : Nat) (r : Except Fault Nat) :
    shift m (shift n r) = shift (n + m) r := by
  cases r with
  | ok k => simp [shift, Nat.add_assoc]
  | error fault => cases fault <;> simp [shift, Fault.laterBy, Nat.add_assoc]

theorem shift_zero (r : Except Fault Nat) : shift 0 r = r := by
  cases r with
  | ok k => rfl
  | error fault => cases fault <;> rfl

theorem length_nil_waiting (ts : List Token) : length [] ts = .ok 0 := by
  cases ts <;> rfl

theorem length_cons (hw : w ≠ []) : length w (t :: ts) = match open1? w t with
    | some v => shift 1 (length v ts)
    | none => .error (.mismatched 0) := by
  cases w with
  | nil => exact absurd rfl hw
  | cons wanted outer =>
      have hlater : ∀ r : Except Fault Nat, (match r with
          | .ok n => .ok (n + 1)
          | .error fault => .error fault.later : Except Fault Nat) = shift 1 r := by
        rintro (fault | n)
        · cases fault <;> rfl
        · rfl
      rw [length, open1?]
      cases t.kind.closing? with
      | some closer => exact hlater _
      | none =>
          cases t.kind.isClosing with
          | false => exact hlater _
          | true =>
              by_cases heq : t.kind = wanted
              · simp only [heq, ↓reduceIte, List.head?_cons, List.tail_cons]
                exact hlater _
              · simp [heq, Ne.symm heq]

/-- A scan over some tokens ends among them, whatever follows, or goes on with what they leave
open. -/
theorem length_append_cases (w : List Token.Kind) (ts : List Token) :
    (∃ n ≤ ts.length, ∀ rest, length w (ts ++ rest) = .ok n) ∨
    (∃ n < ts.length, ∀ rest, length w (ts ++ rest) = .error (.mismatched n)) ∨
    (∃ v, v ≠ [] ∧ open? w ts = some v ∧
      ∀ rest, length w (ts ++ rest) = shift ts.length (length v rest)) := by
  induction ts generalizing w with
  | nil =>
      cases w with
      | nil => exact .inl ⟨0, Nat.le_refl _, length_nil_waiting⟩
      | cons wanted outer =>
          exact .inr (.inr ⟨_, List.cons_ne_nil _ _, rfl, fun rest => (shift_zero _).symm⟩)
  | cons t ts ih =>
      by_cases hw : w = []
      · subst hw
        exact .inl ⟨0, Nat.zero_le _, fun rest => length_nil_waiting _⟩
      have hcons : ∀ rest, length w (t :: ts ++ rest) = match open1? w t with
          | some v => shift 1 (length v (ts ++ rest))
          | none => .error (.mismatched 0) := fun rest => length_cons hw
      cases hopen : open1? w t with
      | none =>
          refine .inr (.inl ⟨0, Nat.succ_pos _, fun rest => ?_⟩)
          rw [hcons, hopen]
      | some u =>
          simp only [hopen] at hcons
          obtain ⟨n, hn, hok⟩ | ⟨n, hn, hbad⟩ | ⟨v, hv, hafter, hgoes⟩ := ih u
          · exact .inl ⟨n + 1, Nat.succ_le_succ hn, fun rest => by rw [hcons, hok]; rfl⟩
          · exact .inr (.inl ⟨n + 1, Nat.succ_lt_succ hn, fun rest => by rw [hcons, hbad]; rfl⟩)
          · refine .inr (.inr ⟨v, hv, open?_cons_eq_some.2 ⟨u, hopen, hafter⟩, fun rest => ?_⟩)
            rw [hcons, hgoes, shift_shift]
            rfl

/-- What a group closes is closed behind it. -/
theorem open?_take_length (h : length w ts = .ok n) (σ : List Token.Kind) :
    n ≤ ts.length ∧ open? (w ++ σ) (ts.take n) = some σ := by
  induction ts generalizing w n with
  | nil =>
      cases w with
      | nil => cases h; exact ⟨Nat.le_refl _, rfl⟩
      | cons wanted outer => cases h
  | cons t ts ih =>
      by_cases hw : w = []
      · subst hw
        rw [length_nil_waiting] at h
        cases h
        exact ⟨Nat.zero_le _, rfl⟩
      rw [length_cons hw] at h
      split at h
      next u hopen =>
        cases hu : length u ts with
        | error fault => rw [hu] at h; cases h
        | ok m =>
            rw [hu] at h
            cases h
            obtain ⟨hm, htake⟩ := ih hu
            exact ⟨Nat.succ_le_succ hm, open?_cons_eq_some.2 ⟨_, open1?_weaken hopen σ, htake⟩⟩
      · cases h

/-- A scan passes over tokens that close what they open. -/
theorem length_append_of_open (h : open? v ts = some w) (hσ : σ ≠ []) (rest : List Token) :
    length (v ++ σ) (ts ++ rest) = shift ts.length (length (w ++ σ) rest) := by
  induction ts generalizing v with
  | nil =>
      cases h
      exact (shift_zero _).symm
  | cons t ts ih =>
      obtain ⟨u, hu, hts⟩ := open?_cons_eq_some.1 h
      have hne : v ++ σ ≠ [] := by simp [hσ]
      rw [List.cons_append, length_cons hne, open1?_weaken hu σ]
      simp only [ih hts, shift_shift, List.length_cons]

/-- Brackets that are closed in the end are closed by a scan, whatever follows. -/
theorem length_of_open (h : open? (w ++ σ) ts = some v) (hv : v.length ≤ σ.length) :
    ∃ n ≤ ts.length, (∀ rest, length w (ts ++ rest) = .ok n) ∧ open? σ (ts.drop n) = some v := by
  induction ts generalizing w with
  | nil =>
      cases h
      obtain rfl : w = [] := by
        rw [List.length_append] at hv
        exact List.length_eq_zero_iff.1 (by omega)
      exact ⟨0, Nat.le_refl _, length_nil_waiting, rfl⟩
  | cons t ts ih =>
      by_cases hw : w = []
      · subst hw
        exact ⟨0, Nat.zero_le _, fun _ => length_nil_waiting _, h⟩
      obtain ⟨u, hu, hts⟩ := open?_cons_eq_some.1 h
      rw [open1?_append hw] at hu
      obtain ⟨after, hafter, rfl⟩ := Option.map_eq_some_iff.1 hu
      obtain ⟨n, hn, hok, hdrop⟩ := ih hts
      refine ⟨n + 1, Nat.succ_le_succ hn, fun rest => ?_, hdrop⟩
      rw [List.cons_append, length_cons hw, hafter]
      simp only [hok]
      rfl

/-- How many brackets of any kind are open behind a token. -/
def depth1 (depth : Nat) (t : Token) : Nat :=
  if t.kind.closing?.isSome then depth + 1 else if t.kind.isClosing then depth - 1 else depth

theorem closingIndex?_cons (hd : 0 < d) :
    closingIndex? d (t :: ts) =
      if depth1 d t = 0 then some 0 else (closingIndex? (depth1 d t) ts).map (· + 1) := by
  match d, hd with
  | 1, _ =>
      simp only [closingIndex?, depth1]
      split
      · rfl
      · split <;> rfl
  | d + 2, _ =>
      simp only [closingIndex?, depth1]
      split
      · rfl
      · split <;> rfl

theorem depth1_of_open1? (h : open1? w t = some v) : depth1 w.length t = v.length := by
  rw [open1?] at h
  rw [depth1]
  split at h
  next closer hopens => cases h; simp [hopens]
  next hopens =>
    split at h
    next hcloses =>
      split at h
      · cases h
        simp [hopens, hcloses]
      · cases h
    next hcloses => cases h; simp [hopens, hcloses]

/-- The count over some tokens ends among them, whatever follows, or goes on behind them. -/
theorem closingIndex?_append_cases (hd : 0 < d) (ts : List Token) :
    (∃ n < ts.length, ∀ rest, closingIndex? d (ts ++ rest) = some n) ∨
    (∃ e, 0 < e ∧ ∀ rest,
      closingIndex? d (ts ++ rest) = (closingIndex? e rest).map (· + ts.length)) := by
  induction ts generalizing d with
  | nil => exact .inr ⟨d, hd, fun rest => by simp⟩
  | cons t ts ih =>
      have hcons : ∀ rest, closingIndex? d (t :: ts ++ rest) = if depth1 d t = 0 then some 0
          else (closingIndex? (depth1 d t) (ts ++ rest)).map (· + 1) :=
        fun rest => closingIndex?_cons hd
      by_cases hzero : depth1 d t = 0
      · exact .inl ⟨0, Nat.succ_pos _, fun rest => by rw [hcons, if_pos hzero]⟩
      simp only [if_neg hzero] at hcons
      obtain ⟨n, hn, hfound⟩ | ⟨e, he, hgoes⟩ := ih (Nat.pos_of_ne_zero hzero)
      · exact .inl ⟨n + 1, Nat.succ_lt_succ hn, fun rest => by rw [hcons, hfound]; rfl⟩
      · refine .inr ⟨e, he, fun rest => ?_⟩
        rw [hcons, hgoes, Option.map_map]
        rfl

theorem closingIndex?_append_of_open (h : open? v ts = some w) (hd : 0 < d) (rest : List Token) :
    closingIndex? (v.length + d) (ts ++ rest) =
      (closingIndex? (w.length + d) rest).map (· + ts.length) := by
  induction ts generalizing v with
  | nil =>
      cases h
      simp
  | cons t ts ih =>
      obtain ⟨u, hu, hts⟩ := open?_cons_eq_some.1 h
      have hdepth : depth1 (v.length + d) t = u.length + d := by
        have h := depth1_of_open1? (open1?_weaken hu (List.replicate d .rightParen))
        simpa using h
      rw [List.cons_append, closingIndex?_cons (by omega), hdepth, if_neg (by omega), ih hts,
        Option.map_map]
      rfl

theorem closingIndex?_of_open (h : open? (w ++ σ) ts = some v) (hw : w ≠ [])
    (hv : v.length ≤ σ.length) :
    ∃ n < ts.length, ∀ rest, closingIndex? w.length (ts ++ rest) = some n := by
  induction ts generalizing w with
  | nil =>
      cases h
      have hpos := List.length_pos_iff.2 hw
      rw [List.length_append] at hv
      omega
  | cons t ts ih =>
      obtain ⟨u, hu, hts⟩ := open?_cons_eq_some.1 h
      rw [open1?_append hw] at hu
      obtain ⟨after, hafter, rfl⟩ := Option.map_eq_some_iff.1 hu
      have hcons : ∀ rest, closingIndex? w.length (t :: ts ++ rest) =
          if after.length = 0 then some 0
          else (closingIndex? after.length (ts ++ rest)).map (· + 1) := fun rest => by
        rw [← depth1_of_open1? hafter]
        exact closingIndex?_cons (List.length_pos_iff.2 hw)
      by_cases hnil : after = []
      · exact ⟨0, Nat.succ_pos _, fun rest => by rw [hcons, hnil]; rfl⟩
      obtain ⟨n, hn, hfound⟩ := ih hts hnil
      refine ⟨n + 1, Nat.succ_lt_succ hn, fun rest => ?_⟩
      rw [hcons, if_neg (by simpa using hnil), hfound]
      rfl

/-- Only the kinds of the tokens matter. -/
theorem length_congr (h : ts.map Token.kind = us.map Token.kind) : length w ts = length w us := by
  induction ts generalizing us w with
  | nil =>
      obtain rfl := List.map_eq_nil_iff.1 h.symm
      rfl
  | cons t ts ih =>
      obtain ⟨t', us, rfl, ht, hts⟩ := List.map_eq_cons_iff.1 h.symm
      by_cases hw : w = []
      · rw [hw, length_nil_waiting, length_nil_waiting]
      have hopen : open1? w t' = open1? w t := by rw [open1?, open1?, ht]
      rw [length_cons hw, length_cons hw, hopen]
      split
      · rw [ih hts.symm]
      · rfl

theorem closingIndex?_congr (h : ts.map Token.kind = us.map Token.kind) :
    closingIndex? d ts = closingIndex? d us := by
  induction ts generalizing us d with
  | nil =>
      obtain rfl := List.map_eq_nil_iff.1 h.symm
      rfl
  | cons t ts ih =>
      obtain ⟨t', us, rfl, ht, hts⟩ := List.map_eq_cons_iff.1 h.symm
      simp only [closingIndex?, ht, fun d => ih (d := d) hts.symm]

end HandlerWeave.Source.Group
