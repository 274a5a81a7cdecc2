import HandlerWeave.Proofs.Seam.Rules

/-!
Groups in a text that goes on. What a parser reads in a bracketed group of the text it reads alike
when more follows behind the text.
-/
namespace HandlerWeave.Source

open Source.Parser Source.Group Seam

variable {X : Seam} {α β : Type} {c c' d d' : Cursor} {n : Nat} {kind opening closer : Token.Kind}
  {p p' : Parser α} {exprs : Prop}

/-- Both parsers read alike what stands in a group, from behind its opening bracket on, where the
expressions in it may be read. -/
def ReadsInside (exprs : Prop) (n : Nat) (opening closer : Token.Kind) (p p' : Parser α) : Prop :=
  ∀ (P : Pairing) (σ : List Token.Kind) (c c' : Cursor), P.Inside closer σ → P.near σ c c' →
    (exprs → P.exprs ∧ (opening.leads (some closer) = true → P.operand σ c)) → c.left < n →
    Agree P.faults p p' c c' (P.Kept σ (c.left + 1))

/-- The tokens of a group that the first run reads to its end are well nested. -/
theorem ReadsInside.nested {base : List Token} (hself : ReadsInside exprs n opening closer p p)
    (hexprs : exprs → Bodied X.front)
    (h : X.Along base c c') (hbase : open? [] base = some [closer])
    (hoperand : opening.leads (some closer) = true → c.OperandIn closer [.endOfFile])
    (hcloses : closer.isClosing = true) (hn : c.left < n) {a : α} (hrun : p c = .ok (a, d))
    (hclose : d.kind = closer) :
    ∃ seen z rest, d = .between (base ++ seen) (z :: rest) X.file ∧
      c.ahead = seen ++ z :: rest ∧ Nested seen ∧ z.kind = closer := by
  obtain ⟨_, _, -, ⟨-, passed, ahead, hfront, rfl, seen, τ, rfl, hseen, hτ⟩, -, -⟩ :=
    (hself (Trail.inGroup X.listing X.bodied hbase).diagonal [.endOfFile] c c
      (Trail.inGroup_inside _ _ _) ⟨rfl, base, c.ahead, h.front, h.here, .start⟩
      (fun he => ⟨hexprs he, fun hleads => ⟨hexprs he, hoperand hleads⟩⟩) hn).outcome hrun
  have hτ : [] ++ [Token.Kind.endOfFile] = τ ++ [.endOfFile] := hτ
  obtain rfl : [] = τ := List.append_cancel_right hτ
  cases ahead with
  | nil =>
      have hfile : X.file.kind = closer := hclose
      rw [← hfile, X.file_kind] at hcloses
      cases hcloses
  | cons z rest =>
      have hfront : X.front = base ++ seen ++ z :: rest := hfront
      rw [h.front, List.append_assoc] at hfront
      exact ⟨seen, z, rest, rfl, List.append_cancel_left hfront, hseen, hclose⟩

/-- A group of the text, as a group with other tokens behind it in the second run. -/
def Seam.fence (X : Seam) {base seen rest : List Token} {z : Token}
    (hfront : X.front = base ++ (seen ++ z :: rest)) (hbase : open? [] base = some [z.kind])
    (hcloses : z.kind.isClosing = true) (hseen : Nested seen) : Fence where
  front := base
  inside := seen
  closing := z
  rest := rest
  file := X.file
  rest' := rest ++ X.next :: X.more
  file' := X.last
  outer := []
  closing_closes := hcloses
  file_kind := by rw [X.file_kind]; decide
  front_open := hbase
  inside_kind t ht := X.front_kind t (by simp [hfront, ht])
  nested := hseen
  bodied := hfront ▸ X.bodied

theorem endKinds_of_closing (h : kind.isClosing = true) :
    Token.endKinds.contains kind = true := by
  revert h
  cases kind <;> rintro ⟨⟩ <;> rfl

/-- A group that the first run reads to its end is fenced in both runs, and behind its closing
bracket the text goes on. -/
theorem ReadsInside.fenced (hself : ReadsInside exprs n c.kind closer p p)
    (hexprs : exprs → Bodied X.front) (h : X.Near c c')
    (hopens : c.kind.closing? = some closer) (hn : c.left ≤ n) {a : α}
    (hrun : p c.advance = .ok (a, d)) (hclose : d.kind = closer) :
    ∃ F : Fence, F.closing.kind = closer ∧ F.Near [.endOfFile] c.advance c'.advance ∧
      F.front ++ (F.inside ++ F.closing :: F.rest) = X.front ∧ d = F.here F.inside [] ∧
      X.Meets c.left (F.here F.inside []).advance (F.there F.inside []).advance := by
  have hcloses := isClosing_of_closing? hopens
  have hne : c.ahead ≠ [] := h.stands fun hfile => by rw [hfile] at hopens; cases hopens
  have hleft := Cursor.advance_left hne
  obtain ⟨passed, halong, hnested⟩ := h
  have hadvance := halong.advance hne
  have hbase : open? [] (passed ++ [c.token]) = some [closer] :=
    Trail.open?_concat hnested (open1?_opens hopens)
  have hoperand (hleads : c.kind.leads (some closer) = true) :
      c.advance.OperandIn closer [.endOfFile] := by
    refine .inr ?_
    rw [Cursor.Operand, Cursor.advance_before hne]
    exact hleads
  obtain ⟨seen, z, rest, rfl, hahead, hseen, rfl⟩ :=
    hself.nested hexprs hadvance hbase hoperand hcloses (by omega) hrun hclose
  have hfront := hadvance.front
  rw [hahead] at hfront
  have hhere : c.advance = (X.fence hfront hbase hcloses hseen).here [] seen := by
    rw [hadvance.here, hahead, Fence.here, List.append_nil]
    rfl
  have hthere : c'.advance = (X.fence hfront hbase hcloses hseen).there [] seen := by
    rw [hadvance.there (by simp), hahead, Fence.there, List.append_nil, List.append_assoc]
    rfl
  have hdone : X.Along (passed ++ [c.token] ++ seen ++ [z])
      (Cursor.between (passed ++ [c.token] ++ seen) (z :: rest) X.file).advance
      (Cursor.between (passed ++ [c.token] ++ seen) (z :: rest ++ X.next :: X.more)
        X.last).advance :=
    Along.advance (.between (by simp [hfront])) (List.cons_ne_nil _ _)
  have hopen : open? [] (passed ++ [c.token] ++ seen) = some [z.kind] := by
    rw [open?_append, hbase]
    exact hseen.open? [z.kind]
  have hlength := congrArg List.length hahead
  rw [List.length_append, List.length_cons] at hlength
  refine ⟨X.fence hfront hbase hcloses hseen, rfl,
    ⟨[], seen, rfl, hhere, hthere, by simpa using Opened.start⟩, hfront.symm, rfl,
    ⟨_, hdone, Trail.open?_concat hopen (open1?_closes hcloses)⟩, ?_, ?_⟩
  · show rest.length < c.left
    rw [Cursor.left] at hleft
    omega
  · show (Cursor.between _ (z :: rest) _).advance.before.any _ = true
    rw [Cursor.advance_before (List.cons_ne_nil _ _)]
    exact endKinds_of_closing hcloses

/-- A parser that comes to the end of a group in the first run comes to it in the second one. -/
theorem ReadsInside.outcome (hself : ReadsInside exprs n c.kind closer p p)
    (hpair : ReadsInside exprs n c.kind closer p p')
    (hexprs : exprs → Bodied X.front) (h : X.Near c c')
    (hopens : c.kind.closing? = some closer) (hn : c.left ≤ n) {a : α}
    (hrun : p c.advance = .ok (a, d)) (hclose : d.kind = closer) :
    ∃ d', p' c'.advance = .ok (a, d') ∧ d'.kind = closer ∧ X.Meets c.left d.advance d'.advance := by
  have hne : c.ahead ≠ [] := h.stands fun hfile => by rw [hfile] at hopens; cases hopens
  have hleft := Cursor.advance_left hne
  obtain ⟨F, rfl, hnear, hfront, rfl, hmeets⟩ := hself.fenced hexprs h hopens hn hrun hclose
  have hbodied (he : exprs) : Bodied (F.front ++ (F.inside ++ F.closing :: F.rest)) :=
    hfront.symm ▸ hexprs he
  have hoperand (hleads : c.kind.leads (some F.closing.kind) = true) :
      c.advance.OperandIn F.closing.kind [.endOfFile] := by
    refine .inr ?_
    rw [Cursor.Operand, Cursor.advance_before hne]
    exact hleads
  obtain ⟨_, d', hrun', ⟨⟨seen, ahead, hinside, hd, rfl, -⟩, -, heq⟩⟩ :=
    (hpair F.pairing [.endOfFile] c.advance c'.advance F.pairing_inside hnear
      (fun he => ⟨hbodied he, fun hleads => ⟨hbodied he, hoperand hleads⟩⟩)
      (by omega)).outcome hrun
  obtain rfl := heq (Nat.zero_le _)
  obtain rfl : ahead = [] := by
    have hlength := congrArg Cursor.left hd
    simpa [Fence.here] using hlength
  rw [List.append_nil] at hinside
  rw [← hinside] at hrun'
  exact ⟨_, hrun', rfl, hmeets⟩

/-- Brackets with nothing between them. -/
theorem Seam.Near.closed (h : X.Near c c') (hopens : c.kind.closing? = some closer)
    (hclose : c.advance.kind = closer) :
    X.Meets c.left c.advance.advance c'.advance.advance := by
  have hcloses := isClosing_of_closing? hopens
  have hne : c.ahead ≠ [] := h.stands fun hfile => by rw [hfile] at hopens; cases hopens
  have hleft := Cursor.advance_left hne
  obtain ⟨passed, halong, hnested⟩ := h
  have hadvance := halong.advance hne
  have hne' : c.advance.ahead ≠ [] := fun hnil => by
    rw [← hclose, hadvance.file_iff.2 hnil] at hcloses
    cases hcloses
  have hleft' := Cursor.advance_left hne'
  have hbase : open? [] (passed ++ [c.token]) = some [c.advance.token.kind] := by
    refine Trail.open?_concat hnested ((open1?_opens hopens).trans ?_)
    rw [← hclose]
    rfl
  have hcloses' : c.advance.kind.isClosing = true := hclose ▸ hcloses
  refine ⟨⟨_, hadvance.advance hne', Trail.open?_concat hbase (open1?_closes hcloses')⟩, by omega,
    ?_⟩
  rw [Cursor.advance_before hne']
  exact endKinds_of_closing hcloses'

/-- Past an opening bracket both runs see the bracket that closes it, or neither does. -/
theorem Seam.Near.kindAhead_eq (h : X.Near c c') (hne : c.ahead ≠ [])
    (hkind : kind.isInert = true) :
    (c.kindAhead 1 == kind) = (c'.kindAhead 1 == kind) := by
  obtain ⟨passed, halong, -⟩ := h
  exact halong.kindAhead_eq hkind (List.length_pos_iff.2 hne)

variable {β : Type} {f f' : α → Parser β} {S : β → Cursor → Cursor → Prop} {what : String}

/-- What follows a group is carried over when it is carried over from behind the group on. -/
theorem Carries.inside (hself : ReadsInside exprs n c.kind closer p p)
    (hpair : ReadsInside exprs n c.kind closer p p')
    (hexprs : exprs → Bodied X.front) (h : X.Near c c')
    (hopens : c.kind.closing? = some closer) (hn : c.left ≤ n)
    (hf : ∀ a d d', X.Meets c.left d d' → Carries (f a) (f' a) d d' S) :
    Carries (do let a ← p; Parser.require closer what; f a)
      (do let a ← p'; Parser.require closer what; f' a) c.advance c'.advance S := by
  intro b e hrun
  obtain ⟨a, d, hp, hrun⟩ := bind_eq_ok.1 hrun
  obtain ⟨_, _, hrequire, hrun⟩ := bind_eq_ok.1 hrun
  obtain ⟨hclose, rfl⟩ := require_eq_ok hrequire
  obtain ⟨d', hp', hclose', hmeets⟩ := hself.outcome hpair hexprs h hopens hn hp hclose
  obtain ⟨e', hrun', hS⟩ := hf a _ _ hmeets b e hrun
  exact ⟨e', bind_eq_ok.2 ⟨a, d', hp', bind_eq_ok.2 ⟨(), _, require_of_kind hclose', hrun'⟩⟩, hS⟩

theorem length_append_of_ok {w : List Token.Kind} {ts : List Token} {m : Nat}
    (h : Group.length w ts = .ok m) (more : List Token) :
    m ≤ ts.length ∧ Group.length w (ts ++ more) = .ok m := by
  obtain ⟨k, hk, hok⟩ | ⟨k, -, hbad⟩ | ⟨v, hv, -, hgoes⟩ := length_append_cases w ts
  · have hnil := hok []
    rw [List.append_nil, h] at hnil
    cases hnil
    exact ⟨hk, hok more⟩
  · have hnil := hbad []
    rw [List.append_nil, h] at hnil
    cases hnil
  · have hnil := hgoes []
    rw [List.append_nil, h] at hnil
    cases v with
    | nil => exact absurd rfl hv
    | cons kind v => cases hnil

theorem isClosing_of_open1? {w : List Token.Kind} {t : Token} (hw : w ≠ [])
    (h : open1? w t = some []) : t.kind.isClosing = true := by
  rw [open1?] at h
  split at h
  · cases h
  · split at h
    next hcloses => exact hcloses
    · exact absurd (Option.some.inj h) hw

/-- The last token of a group closes it. -/
theorem getLast?_take_length {w : List Token.Kind} {ts : List Token} {m : Nat} (hw : w ≠ [])
    (h : Group.length w ts = .ok m) : (ts.take m).getLast?.any (·.kind.isClosing) = true := by
  induction ts generalizing w m with
  | nil =>
      cases w with
      | nil => exact absurd rfl hw
      | cons kind w => cases h
  | cons t ts ih =>
      rw [length_cons hw] at h
      split at h
      next v hopen =>
        cases hlater : Group.length v ts with
        | error fault => rw [hlater] at h; cases h
        | ok k =>
            rw [hlater] at h
            cases h
            show ((t :: ts).take (k + 1)).getLast?.any _ = true
            rw [List.take_succ_cons, List.getLast?_cons]
            cases v with
            | nil =>
                rw [length_nil_waiting] at hlater
                cases hlater
                exact isClosing_of_open1? hw hopen
            | cons kind v =>
                have hlast := ih (List.cons_ne_nil _ _) hlater
                cases hnext : (ts.take k).getLast? with
                | none => rw [hnext] at hlast; cases hlast
                | some u => rwa [hnext] at hlast
      · cases h

theorem passGroup_eq (hopens : c.kind.closing? = some closer)
    (hlength : Group.length [closer] c.advance.ahead = .ok n) :
    passGroup c = .ok ((), c.advance.advanceBy n) := by
  rw [passGroup, hopens]
  simp only [hlength]

theorem exists_length {u : Unit} (h : passGroup c = .ok (u, d)) :
    ∃ closer n, c.kind.closing? = some closer ∧ Group.length [closer] c.advance.ahead = .ok n ∧
      d = c.advance.advanceBy n := by
  unfold passGroup at h
  split at h
  · cases h
  next closer hopens =>
    split at h
    next n hlength =>
      cases h
      exact ⟨closer, n, hopens, hlength, rfl⟩
    · cases h
    · cases h

theorem passGroup_carries (h : X.Near c c') :
    Carries passGroup passGroup c c' fun _ d d' => X.Meets c.left d d' := by
  rintro u d hrun
  obtain ⟨closer, n, hopens, hlength, rfl⟩ := exists_length hrun
  have hne : c.ahead ≠ [] := h.stands fun hfile => by rw [hfile] at hopens; cases hopens
  have hleft := Cursor.advance_left hne
  have hkind := h.kind_eq hne
  obtain ⟨passed, halong, hnested⟩ := h
  have hadvance := halong.advance hne
  obtain ⟨hn, hlength'⟩ := length_append_of_ok hlength (X.next :: X.more)
  rw [← hadvance.ahead] at hlength'
  have hbase : open? [] (passed ++ [c.token]) = some [closer] :=
    Trail.open?_concat hnested (open1?_opens hopens)
  obtain ⟨hdone, hleft'⟩ := hadvance.advanceBy (by simp) hn
  refine ⟨_, passGroup_eq (hkind ▸ hopens) hlength', ⟨_, hdone, ?_⟩, ?_, ?_⟩
  · rw [Nested, open?_append, hbase]
    exact (open?_take_length hlength []).2
  · omega
  · have hlast := getLast?_take_length (List.cons_ne_nil _ _) hlength
    rw [hdone.before_eq, List.getLast?_append]
    cases hend : (c.advance.ahead.take n).getLast? with
    | none => rw [hend] at hlast; cases hlast
    | some t =>
        rw [hend] at hlast
        exact endKinds_of_closing hlast

end HandlerWeave.Source
