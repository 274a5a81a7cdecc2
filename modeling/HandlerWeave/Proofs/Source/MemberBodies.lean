import HandlerWeave.Proofs.Lockstep.Exchange
import HandlerWeave.Proofs.Source.Progress
import HandlerWeave.Proofs.Source.Sequel

/-!
The bodies of the members of a class are not read. The grammar comes to such a body by a run of
statements, the head of a class and a run of its members, and what it takes up to the brace of the
body is the same whatever stands in it.
-/
namespace HandlerWeave.Source

open Source.Parser Pairing Grammar

variable {α : Type} {step step' : Parser (Option α)} {c c' d d' e : Cursor}
  {a : α} {as : List α} {g g' : Grammar} {l : Listing} {levels levels' n : Nat}

/-- Rounds that each find something lead from one place to another. -/
inductive Rounds (step : Parser (Option α)) : Cursor → List α → Cursor → Prop
  | here (c : Cursor) : Rounds step c [] c
  | next {c d e : Cursor} {a : α} {as : List α} : step c = .ok (some a, d) → Rounds step d as e →
      Rounds step c (a :: as) e

namespace Rounds

/-- The rest of a loop behind such rounds. -/
theorem manyWithin_eq (h : Rounds step c as e) (rounds : Nat) :
    manyWithin step (rounds + as.length) c =
      (manyWithin step rounds e).map (Prod.map (as ++ ·) id) := by
  induction h with
  | here c => cases manyWithin step rounds c <;> rfl
  | next hstep _ ih =>
      rw [List.length_cons, ← Nat.add_assoc, manyWithin_cons hstep, ih]
      cases manyWithin step rounds _ <;> rfl

/-- Rounds that take tokens. -/
theorem down {S : Cursor → Prop}
    (hdown : ∀ {c a d}, S c → step c = .ok (some a, d) → S d ∧ d.left < c.left)
    (h : Rounds step c as e) (hc : S c) : S e ∧ e.left + as.length ≤ c.left := by
  induction h with
  | here c => exact ⟨hc, Nat.le_refl _⟩
  | next hstep _ ih =>
      obtain ⟨hd, hlt⟩ := hdown hc hstep
      obtain ⟨he, hle⟩ := ih hd
      exact ⟨he, by rw [List.length_cons]; omega⟩

/-- Rounds that another run follows as long as it has not come too far. -/
theorem follow {S : Cursor → Prop} {N : Cursor → Cursor → Prop} {m : Nat}
    (hdown : ∀ {c a d}, S c → step c = .ok (some a, d) → S d ∧ d.left < c.left)
    (hstep : ∀ {c c' a d}, N c c' → S c → step c = .ok (some a, d) → m ≤ d.left →
      ∃ d', step' c' = .ok (some a, d') ∧ N d d')
    (h : Rounds step c as e) (hc : S c) (hN : N c c') (hm : m ≤ e.left) :
    ∃ e', Rounds step' c' as e' ∧ N e e' := by
  induction h generalizing c' with
  | here c => exact ⟨c', .here c', hN⟩
  | next hrun hrest ih =>
      have hd := (hdown hc hrun).1
      have hle := (hrest.down hdown hd).2
      obtain ⟨d', hrun', hN'⟩ := hstep hN hc hrun (by omega)
      obtain ⟨e', hrest', hNe⟩ := ih hd hN' hm
      exact ⟨e', .next hrun' hrest', hNe⟩

end Rounds

/-- What is read on the way to the body of a member. -/
structure MemberPath where
  items : List (Option Item)
  modifiers : Modifiers
  decorators : List Decorator
  head : ClassHead
  members : List (Option ClassMember)
  member : ClassMember

/-- From the start of a text the grammar comes to the opening brace of the body of a member: the
member belongs to a class that a statement of the text declares. -/
inductive Reaches (g : Grammar) (path : MemberPath) (start body : Cursor) : Prop
  | intro (statement declaration block place : Cursor)
      (statements : Rounds g.statementRound start path.items statement)
      (begins : statement.check .endOfFile = false ∧ statement.check .semicolon = false)
      (front : g.statementHead statement =
        .ok ((false, path.modifiers, path.decorators), declaration))
      (word : declaration.seesWord "class" = true)
      (classHead : g.classHead declaration = .ok (path.head, block))
      (opens : block.check .leftBrace = true)
      (members : Rounds (g.classRound path.head.name) block.advance path.members place)
      (goes_on : place.check .rightBrace = false ∧ place.check .endOfFile = false)
      (memberHead : g.memberHead place = .ok ((some path.member, true), body))
      (brace : body.check .leftBrace = true)

theorem Agree.alone {β : Type} {p : Parser β} {b : β} {Q : β → β → Cursor → Cursor → Prop}
    (h : Agree (alone l).faults p p c c Q) (hp : p c = .ok (b, d)) : Q b b d d := by
  obtain ⟨b', d', hp', hQ⟩ := h.outcome hp
  rw [hp] at hp'
  cases hp'
  exact hQ

/-- The cursor stands in the text, and the grammar has a level for every token ahead. -/
def Standing (l : Listing) (levels : Nat) (c : Cursor) : Prop := c.StandsIn l ∧ c.left ≤ levels

namespace Standing

theorem kin (l : Listing) (levels : Nat) :
    (alone l).Kin levels (withLevels levels) (withLevels levels) :=
  withLevels_kin (alone l) (Nat.le_refl levels) (Nat.le_refl levels)

theorem standsIn {σ : List Token.Kind} (h : (alone l).near σ c c') : c.StandsIn l :=
  Trail.Near.standsIn h

theorem statementRound (h : Standing l levels c) {item : Option Item}
    (hrun : (withLevels levels).statementRound c = .ok (some item, d)) :
    Standing l levels d ∧ d.left < c.left := by
  have hd := (Grammar.statementRound_agrees (P := alone l) id id (kin l levels) trivial
    (near_alone h.1) h.2).alone hrun
  exact ⟨⟨standsIn hd.near, Nat.le_trans (Nat.le_of_lt hd.left) h.2⟩, hd.left⟩

theorem classRound (h : Standing l levels c) {name : String} {member : Option ClassMember}
    (hrun : (withLevels levels).classRound name c = .ok (some member, d)) :
    Standing l levels d ∧ d.left < c.left := by
  have hd := (classRound_agrees (kin l levels) (near_alone (σ := [.rightBrace]) h.1)
    (List.cons_ne_nil _ _) h.2 name).alone hrun
  exact ⟨⟨standsIn hd.near, Nat.le_trans (Nat.le_of_lt hd.left) h.2⟩, hd.left⟩

theorem statementHead (h : Standing l levels c) {head : Bool × Modifiers × List Decorator}
    (hrun : (withLevels levels).statementHead c = .ok (head, d)) :
    Standing l levels d ∧ d.left ≤ c.left := by
  have hd := ((statementHead_agrees (kin l levels) (near_alone h.1) h.2).alone hrun).1
  have hle := Nat.le_of_lt_succ hd.left
  exact ⟨⟨standsIn hd.near, Nat.le_trans hle h.2⟩, hle⟩

theorem classHead (h : Standing l levels c) {head : ClassHead}
    (hrun : (withLevels levels).classHead c = .ok (head, d)) :
    Standing l levels d ∧ d.left < c.left := by
  have hd := ((classHead_agrees (kin l levels) (near_alone (σ := []) h.1) h.2).alone hrun).1
  exact ⟨⟨standsIn hd.near, Nat.le_trans (Nat.le_of_lt hd.left) h.2⟩, hd.left⟩

theorem memberHead (h : Standing l levels c) {head : Option ClassMember × Bool}
    (hrun : (withLevels levels).memberHead c = .ok (head, d)) :
    Standing l levels d ∧ d.left < c.left := by
  have hd := ((memberHead_agrees (kin l levels) (near_alone (σ := [.rightBrace]) h.1)
    (List.cons_ne_nil _ _) h.2).alone hrun).1
  exact ⟨⟨standsIn hd.near, Nat.le_trans (Nat.le_of_lt hd.left) h.2⟩, hd.left⟩

theorem advance (h : Standing l levels c) (hkind : c.kind ≠ .endOfFile) :
    Standing l levels c.advance ∧ c.advance.left < c.left := by
  have near := near_alone (σ := []) h.1
  have hlt := Cursor.advance_left (stands near hkind)
  have hle := h.2
  exact ⟨⟨(near.advance (τ := []) hkind fun _ _ => trivial).standsIn, by omega⟩, by omega⟩

end Standing

/-- The rest of a class behind a body that is passed: the other members and the closing brace. -/
def classRest (g : Grammar) (path : MemberPath) (rounds : Nat) : Parser (Option Item) := do
  let more ← manyWithin (g.classRound path.head.name) rounds
  require .rightBrace "`\x7d` to close class body"
  return some <| .classDef ⟨path.head.name, path.modifiers, path.decorators, path.head.typeParams,
    path.head.base, path.head.interfaces, (path.members ++ some path.member :: more).filterMap id⟩

/-- The rest of a text behind such a body. -/
def textRest (g : Grammar) (path : MemberPath) (rounds rounds' : Nat) :
    Parser (List (Option Item)) := do
  let item ← classRest g path rounds
  return item :: (← manyWithin g.statementRound rounds')

theorem Parser.bind_run {β : Type} {p : Parser β} {b : β} (h : p c = .ok (b, d))
    (f : β → Parser α) : (p >>= f) c = f b d := by
  show p c >>= _ = _
  rw [h]
  rfl

/-- The member is read once its body is passed. -/
theorem classRound_run {path : MemberPath} {place body after : Cursor}
    (goes_on : place.check .rightBrace = false ∧ place.check .endOfFile = false)
    (memberHead : g.memberHead place = .ok ((some path.member, true), body))
    (brace : body.check .leftBrace = true) (hpass : passGroup body = .ok ((), after)) :
    g.classRound path.head.name place = .ok (some (some path.member), after) := by
  have hbody : passBody body = .ok ((), after) := by
    show (if body.check .leftBrace = true then passGroup else _ : Parser Unit) body = _
    rw [if_pos brace, hpass]
  have hmember : g.classMember place = .ok (some path.member, after) := by
    rw [classMember_eq, Parser.bind_run memberHead]
    show (passBody >>= fun _ => pure (some path.member) : Parser (Option ClassMember)) body = _
    rw [Parser.bind_run hbody]
    rfl
  show (if place.check .rightBrace = true then pure none else if place.check .endOfFile = true then
    (do fail (.unterminatedClass path.head.name); return some (← g.classMember))
    else (do return some (← g.classMember)) : Parser (Option (Option ClassMember))) place = _
  rw [goes_on.1, goes_on.2, if_neg Bool.false_ne_true, if_neg Bool.false_ne_true,
    Parser.bind_run hmember]
  rfl

/-- The class is read once the rest behind the body is. -/
theorem classBlock_run {path : MemberPath} {block after : Cursor} {rounds : Nat}
    (opens : block.check .leftBrace = true)
    (hmembers : many (g.classRound path.head.name) block.advance =
      (manyWithin (g.classRound path.head.name) rounds after).map
        (Prod.map (path.members ++ some path.member :: ·) id)) :
    (do return some (.classDef (← g.classBlock path.modifiers path.decorators path.head)) :
      Parser (Option Item)) block = classRest g path rounds after := by
  have hopens : require .leftBrace "`\x7b` to open class body" block = .ok ((), block.advance) := by
    have htake : takeKind .leftBrace block = .ok (true, block.advance) := if_pos opens
    rw [require, Parser.bind_run htake]
    rfl
  rw [classBlock, bind_assoc, Parser.bind_run hopens, classRest]
  simp only [bind_assoc, pure_bind]
  show (many (g.classRound path.head.name) block.advance >>= _) =
    (manyWithin (g.classRound path.head.name) rounds after >>= _)
  rw [hmembers]
  cases manyWithin (g.classRound path.head.name) rounds after <;> rfl

theorem statementRound_run {path : MemberPath} {statement declaration block after : Cursor}
    {rounds : Nat}
    (begins : statement.check .endOfFile = false ∧ statement.check .semicolon = false)
    (front : g.statementHead statement =
      .ok ((false, path.modifiers, path.decorators), declaration))
    (word : declaration.seesWord "class" = true)
    (classHead : g.classHead declaration = .ok (path.head, block))
    (hblock : (do
        return some (.classDef (← g.classBlock path.modifiers path.decorators path.head)) :
      Parser (Option Item)) block = classRest g path rounds after) :
    g.statementRound statement = (some <$> classRest g path rounds) after := by
  have hdeclaration : g.declaration path.modifiers path.decorators declaration =
      classRest g path rounds after := by
    have himport : declaration.seesWord "import" = false := by
      rw [Cursor.isWord_token, Cursor.text_of_seesWord word, Bool.and_eq_false_iff]
      exact .inr (by decide)
    rw [← hblock]
    show (if _ = true then _ else if declaration.seesWord "class" = true then
      (do return some (.classDef (← g.classDef path.modifiers path.decorators))) else _ :
      Parser (Option Item)) declaration = _
    rw [himport, Bool.false_and, Bool.false_and, if_neg Bool.false_ne_true, if_pos word,
      classDef_eq,
      bind_assoc, Parser.bind_run classHead]
  have hstatement : g.statement statement = classRest g path rounds after := by
    rw [statement_eq, Parser.bind_run front]
    exact hdeclaration
  have htake : takeKind .semicolon statement = .ok (false, statement) :=
    if_neg (by rw [begins.2]; exact Bool.false_ne_true)
  show (if statement.check .endOfFile = true then pure none else (do
    if ← takeKind .semicolon then return some none
    return some (← g.statement)) : Parser (Option (Option Item))) statement = _
  rw [begins.1, if_neg Bool.false_ne_true, Parser.bind_run htake, if_neg Bool.false_ne_true,
    ← map_eq_pure_bind, map_run, map_run, hstatement]

/-- A run that comes to the body of a member goes on behind the group that it passes. -/
theorem Reaches.statements_eq {path : MemberPath} {start body after : Cursor} {rounds : Nat}
    (h : Reaches (withLevels levels) path start body) (hstart : Standing l levels start)
    (hpass : passGroup body = .ok ((), after)) (hle : after.left ≤ body.left)
    (hrounds : start.left < rounds) :
    ∃ more more', after.left < more ∧ after.left < more' ∧
      manyWithin (withLevels levels).statementRound rounds start =
        (textRest (withLevels levels) path more more' after).map
            (Prod.map (path.items ++ ·) id) := by
  obtain ⟨statement, declaration, block, place, statements, begins, front, word, classHead, opens,
    members, goes_on, memberHead, brace⟩ := h
  obtain ⟨hstatement, hle₁⟩ :=
    statements.down (fun hc hrun => Standing.statementRound hc hrun) hstart
  obtain ⟨hdeclaration, hle₂⟩ := hstatement.statementHead front
  obtain ⟨hblock, hlt₃⟩ := hdeclaration.classHead classHead
  obtain ⟨hinside, hlt₄⟩ := hblock.advance (by rw [Cursor.kind_of_check opens]; decide)
  obtain ⟨hplace, hle₅⟩ := members.down (fun hc hrun => Standing.classRound hc hrun) hinside
  obtain ⟨-, hlt₆⟩ := hplace.memberHead memberHead
  obtain ⟨more, hmore⟩ : ∃ more, block.advance.left + 1 = more + 1 + path.members.length :=
    ⟨block.advance.left - path.members.length, by omega⟩
  obtain ⟨more', hmore'⟩ : ∃ more', rounds = more' + 1 + path.items.length :=
    ⟨rounds - path.items.length - 1, by omega⟩
  have hmembers : many ((withLevels levels).classRound path.head.name) block.advance =
      (manyWithin ((withLevels levels).classRound path.head.name) more after).map
        (Prod.map (path.members ++ some path.member :: ·) id) := by
    show manyWithin _ (block.advance.left + 1) block.advance = _
    rw [hmore, members.manyWithin_eq,
      manyWithin_cons (classRound_run goes_on memberHead brace hpass)]
    cases manyWithin _ more after <;> rfl
  have hround := statementRound_run begins front word classHead (classBlock_run opens hmembers)
  refine ⟨more, more', by omega, by omega, ?_⟩
  rw [hmore', statements.manyWithin_eq]
  congr 1
  rw [map_run] at hround
  show ((withLevels levels).statementRound statement >>= _) =
    (classRest (withLevels levels) path more after >>= _)
  rw [hround]
  cases classRest (withLevels levels) path more after <;> rfl

/-- Behind the bodies texts that look alike are read alike. -/
theorem textRest_agrees {top : Nat} {S : Nat → Nat → Prop} (h : c.Twins top S c')
    (hlevels : c.left ≤ levels) (hlevels' : c.left ≤ levels') (path : MemberPath)
    {more more' rounds rounds' : Nat} (hmore : c.left < more) (hmore' : c'.left < more')
    (hrounds : c.left < rounds) (hrounds' : c'.left < rounds') :
    Agree (Cursor.Twins.Fault S) (textRest (withLevels levels) path more rounds)
      (textRest (withLevels levels') path more' rounds') c c' fun items items' _ _ =>
        items = items' := by
  have hkin := withLevels_kin (Cursor.Twins.pairing top S) hlevels hlevels'
  have hnear : (Cursor.Twins.pairing top S).near [.rightBrace] c c' := h
  have hrest : Agree (Cursor.Twins.pairing top S).faults (classRest (withLevels levels) path more)
      (classRest (withLevels levels') path more') c c'
      ((Cursor.Twins.pairing top S).Kept [] (c.left + 1)) := by
    refine (manyWithin_agrees
      (fun d d' hd hle => classRound_agrees hkin hd (List.cons_ne_nil _ _) hle
      path.head.name) more more' hnear (Nat.le_refl _) hmore hmore').bind
      fun members members' d d' ⟨hd, hled, hmembers⟩ => ?_
    refine .require hd (takes_closes hd rfl) fun _ ⟨he, hlte, _⟩ => ?_
    exact .pure ⟨he, by omega, fun _ => by rw [hmembers (Nat.zero_le _)]⟩
  refine hrest.bind fun item item' d d' ⟨hd, hled, hitem⟩ => ?_
  have hle' : d'.left ≤ c'.left := by
    have hsame : c.left = c'.left := h.left
    have hsame' : d.left = d'.left := Cursor.Twins.left hd
    omega
  exact (Cursor.Twins.rounds_agree hd (by omega) (by omega) (by omega) (by omega)).bind
    fun items items' _ _ heq => .pure (by rw [hitem (Nat.zero_le _), heq])

namespace Block

def listing (X : Block) : Listing where
  front := X.front ++ (X.group ++ X.back)
  file := X.file
  file_kind := X.file_kind
  front_kind t ht := by
    simp only [group, List.mem_append, List.mem_cons, List.not_mem_nil, or_false,
      List.cons_append] at ht
    obtain ht | rfl | (ht | rfl) | ht := ht
    · exact X.front_kind t ht
    · rw [X.opening_kind]
      decide
    · exact X.inside_kind t ht
    · rw [X.closing_kind]
      decide
    · exact X.back_kind t ht

def start (X : Block) : Cursor := .between [] X.listing.front X.file

theorem start_standing (X : Block) (hlevels : X.listing.front.length ≤ levels) :
    Standing X.listing levels X.start := ⟨⟨[], _, rfl, rfl⟩, hlevels⟩

theorem hole_standsIn (X : Block) : X.hole.StandsIn X.listing := ⟨X.front, _, rfl, rfl⟩

end Block

namespace Exchange

variable {X Y : Block}

theorem enters (hx : Exchange X Y) (hn : n ≤ levels) :
    hx.pairing.Enters n (withLevels levels) := fun _ hole =>
  ⟨alone X.listing, fun _ => near_alone (hole ▸ X.hole_standsIn), id, trivial,
    withLevels_kin _ hn hn⟩

theorem near_start (hx : Exchange X Y) : hx.pairing.near [] X.start Y.start :=
  .inl ⟨[], X.front, [], Y.front, rfl, rfl, rfl, hx.front, rfl, rfl⟩

/-- A statement that ends in front of the braces. -/
theorem statementRound (hx : Exchange X Y) (hlevels : c.left ≤ levels) (hlevels' : c.left ≤ levels')
    (h : hx.pairing.near [] c c') {item : Option Item}
    (hrun : (withLevels levels).statementRound c = .ok (some item, d))
        (hfar : X.hole.left ≤ d.left) :
    ∃ d', (withLevels levels').statementRound c' = .ok (some item, d') ∧
        hx.pairing.near [] d d' := by
  have hfile : c.kind ≠ .endOfFile := fun hfile => by
    rw [statementRound_file hfile] at hrun
    cases hrun
  obtain ⟨hole, rfl, hlost⟩ | hagree := statementRound_follows
    (withLevels_kin hx.pairing hlevels hlevels') (hx.enters hlevels) trivial h (Nat.le_refl _) hfile
  · exact absurd (hlost _ _ hrun) (Nat.not_lt_of_le hfar)
  · obtain ⟨o, d', hrun', ⟨hd, -, heq⟩, -, -⟩ := hagree.outcome hrun
    exact ⟨d', by rw [hrun', heq hfar], hd⟩

/-- A member that ends in front of the braces. -/
theorem classRound (hx : Exchange X Y) (hlevels : c.left ≤ levels) (hlevels' : c.left ≤ levels')
    (h : hx.pairing.near [.rightBrace] c c') {name : String}
    {member : Option ClassMember}
    (hrun : (withLevels levels).classRound name c = .ok (some member, d))
    (hfar : X.hole.left ≤ d.left) :
    ∃ d', (withLevels levels').classRound name c' = .ok (some member, d') ∧
      hx.pairing.near [.rightBrace] d d' := by
  obtain ⟨o, d', hrun', hfound⟩ := (classRound_agrees (withLevels_kin hx.pairing hlevels hlevels') h
    (List.cons_ne_nil _ _) (Nat.le_refl _) name).outcome hrun
  cases o with
  | none => exact hfound.elim
  | some member' => exact ⟨d', by rw [hrun', hfound.eq hfar], hfound.near⟩

/-- What the first run reads on the way to the braces, the second one reads too. -/
theorem reaches (hx : Exchange X Y) {path : MemberPath} (hlevels : X.start.left ≤ levels)
    (hlevels' : X.start.left ≤ levels')
    (h : Reaches (withLevels levels) path X.start X.hole) :
    Reaches (withLevels levels') path Y.start Y.hole := by
  obtain ⟨statement, declaration, block, place, statements, begins, front, word, classHead, opens,
    members, goes_on, memberHead, brace⟩ := h
  -- where the first run stands
  have hstart := X.start_standing hlevels
  obtain ⟨hstatement, hle₁⟩ :=
    statements.down (fun hc hrun => Standing.statementRound hc hrun) hstart
  obtain ⟨hdeclaration, hle₂⟩ := hstatement.statementHead front
  obtain ⟨hblock, hlt₃⟩ := hdeclaration.classHead classHead
  obtain ⟨hinside, hlt₄⟩ := hblock.advance (by rw [Cursor.kind_of_check opens]; decide)
  obtain ⟨hplace, hle₅⟩ := members.down (fun hc hrun => Standing.classRound hc hrun) hinside
  obtain ⟨-, hlt₆⟩ := hplace.memberHead memberHead
  -- the second run follows it
  have hkin := withLevels_kin hx.pairing hlevels hlevels'
  have hhorizon : hx.pairing.horizon = X.hole.left := rfl
  have hwithin {c d : Cursor} (hc : Standing X.listing levels c ∧
      c.left ≤ levels') (hd : Standing X.listing levels d ∧ d.left < c.left) :
      (Standing X.listing levels d ∧ d.left ≤ levels') ∧ d.left < c.left :=
    ⟨⟨hd.1, Nat.le_trans (Nat.le_of_lt hd.2) hc.2⟩, hd.2⟩
  obtain ⟨statement', statements', hnear₁⟩ := statements.follow (N := hx.pairing.near [])
    (m := X.hole.left) (fun hc hrun => hwithin hc (hc.1.statementRound hrun))
    (fun hN hS => hx.statementRound hS.1.2 hS.2 hN) ⟨hstart, hlevels'⟩ hx.near_start (by omega)
  obtain ⟨front₂, declaration', front', ⟨hnear₂, -, hfront⟩, -, -⟩ :=
    (statementHead_agrees hkin hnear₁ (by omega)).outcome front
  obtain rfl := hfront (by omega)
  obtain ⟨head', block', classHead', ⟨hnear₃, -, hhead⟩, -⟩ :=
    (classHead_agrees hkin hnear₂ (by omega)).outcome classHead
  obtain rfl := hhead (by omega)
  have hbefore : ¬ hx.pairing.hole block := fun hole => by
    have hleft := congrArg Cursor.left (show block = X.hole from hole)
    omega
  have hclosing : block.kind.closing? = some .rightBrace := by
    rw [Cursor.kind_of_check opens]
    rfl
  have hinside' := hx.pairing.opens hnear₃ hclosing hbefore
  obtain ⟨place', members', hnear₄⟩ := members.follow (N := hx.pairing.near [.rightBrace])
    (m := X.hole.left) (fun hc hrun => hwithin hc (hc.1.classRound hrun))
    (fun hN hS => hx.classRound hS.1.2 hS.2 hN) ⟨hinside, by omega⟩ hinside' (by omega)
  obtain ⟨member', body', memberHead', ⟨hnear₅, -, hmember⟩, hbodied⟩ :=
    (memberHead_agrees hkin hnear₄ (List.cons_ne_nil _ _) (by omega)).outcome memberHead
  obtain rfl : member' = (some path.member, true) :=
    Prod.ext (hmember (Nat.le_refl _)).symm hbodied.symm
  obtain ⟨-, rfl⟩ : X.hole = X.hole ∧ body' = Y.hole := by
    obtain hhole | ⟨passed, t, ahead, passed', t', ahead', -, -, -, -, -, heq, -⟩ :=
      (Near.before hnear₅ (Nat.le_refl _)).cases
    · exact hhole
    · have hleft := congrArg Cursor.left heq
      simp only [Block.hole, Cursor.between_left, List.length_cons, List.length_append] at hleft
      omega
  refine ⟨statement', declaration', block', place', statements', ?_, front', ?_, classHead', ?_,
    members', ?_, memberHead', by rw [Cursor.check, Block.hole]; exact beq_iff_eq.2 Y.opening_kind⟩
  · exact ⟨by rw [← check_eq hnear₁, begins.1], by rw [← check_eq hnear₁, begins.2]⟩
  · rw [← seesWord_eq hnear₂, word]
  · rw [← check_eq hnear₃, opens]
  · exact ⟨by rw [← check_eq hnear₄, goes_on.1], by rw [← check_eq hnear₄, goes_on.2]⟩

theorem refl (hx : Exchange X Y) : Exchange X X := ⟨rfl, rfl, rfl, rfl, hx.plain⟩

/-- The statements around the braces are the same, or neither text is accepted. -/
theorem statements_agree (hx : Exchange X Y) {path : MemberPath} (hlevels : X.start.left ≤ levels)
    (hlevels' : Y.start.left ≤ levels) (h : Reaches (withLevels levels) path X.start X.hole) :
    (((withLevels levels).statements X.start).map Prod.fst).toOption =
      (((withLevels levels).statements Y.start).map Prod.fst).toOption := by
  have hpast (Z : Block) : Z.back.length ≤ Z.hole.left := Nat.le_of_lt hole_left
  obtain ⟨more, other, hmore, hother, hrun⟩ := h.statements_eq (X.start_standing hlevels)
    X.passGroup_hole (hpast X) (Nat.lt_succ_self _)
  obtain ⟨more', other', hmore', hother', hrun'⟩ := (hx.reaches hlevels hlevels h).statements_eq
    (Y.start_standing hlevels') Y.passGroup_hole (hpast Y) (Nat.lt_succ_self _)
  have hle : X.back.length ≤ levels := by
    refine Nat.le_trans ?_ hlevels
    simp only [Block.start, Block.listing, Cursor.between_left, List.length_append]
    omega
  have hagree := textRest_agrees hx.after.1 hle hle path hmore hmore' hother hother'
  have hstatements (Z : Block) : (withLevels levels).statements Z.start =
      (manyWithin (withLevels levels).statementRound (Z.start.left + 1) Z.start).map
        (Prod.map (List.filterMap id) id) := by
    rw [statements_eq]
    show (manyWithin _ (Z.start.left + 1) Z.start >>= _) = _
    cases manyWithin (withLevels levels).statementRound (Z.start.left + 1) Z.start <;> rfl
  rw [hstatements, hstatements, hrun, hrun']
  unfold Agree at hagree
  split at hagree
  next h h' => rw [h, h', hagree]; rfl
  next h h' => rw [h, h']; rfl
  · exact hagree.elim

end Exchange

/-- A pair of braces among the tokens of a text. -/
theorem Block.of_lex {s : String} {front inside back : List Token} {opening closing : Token}
    (h : lex s = front ++ opening :: inside ++ closing :: back)
      (hopening : opening.kind = .leftBrace)
    (hclosing : closing.kind = .rightBrace) (hinside : Group.Nested inside) :
    ∃ X : Block, X.front = front ∧ X.opening = opening ∧ X.back ++ [X.file] = back ∧
      lex s = X.listing.tokens := by
  obtain ⟨l, hl, -⟩ := lex_listing s
  have htokens : l.front ++ [l.file] = front ++ opening :: inside ++ closing :: back :=
    hl.symm.trans h
  have hback : back ≠ [] := by
    rintro rfl
    obtain ⟨-, hlast⟩ := List.append_inj' htokens rfl
    have hfile := l.file_kind
    rw [(List.cons.inj hlast).1, hclosing] at hfile
    cases hfile
  obtain ⟨back, file, rfl⟩ := (List.eq_nil_or_concat back).resolve_left hback
  have hfront : l.front = front ++ (opening :: inside ++ [closing] ++ back) ∧ l.file = file := by
    obtain ⟨hfront, hfile⟩ := List.append_inj'
      (htokens.trans
        (by simp : _ = (front ++ (opening :: inside ++ [closing] ++ back)) ++ [file])) rfl
    exact ⟨hfront, (List.cons.inj hfile).1⟩
  have hkind {t : Token} (ht : t ∈ front ++ (opening :: inside ++ [closing] ++ back)) :
      t.kind ≠ .endOfFile := l.front_kind t (hfront.1 ▸ ht)
  refine ⟨⟨front, opening, inside, closing, back, file, hopening, hclosing, hinside,
    hfront.2 ▸ l.file_kind, fun t ht => hkind (by simp [ht]), fun t ht => hkind (by simp [ht]),
    fun t ht => hkind (by simp [ht])⟩, rfl, rfl, by simp, ?_⟩
  simp [h, Listing.tokens, Block.listing, Block.group]

/-- What stands in the braces of a member of a class does not change what is read, whether the text
is accepted or not. -/
theorem parse_eq_of_member_body {s₁ s₂ : String}
    {front front' inside inside' back back' : List Token}
    {opening opening' closing closing' : Token} {path : MemberPath}
    (h₁ : lex s₁ = front ++ opening :: inside ++ closing :: back)
    (h₂ : lex s₂ = front' ++ opening' :: inside' ++ closing' :: back')
    (hfront : Alike front front') (hopening : opening.unplaced = opening'.unplaced)
    (hback : Alike back back') (hbrace : opening.kind = .leftBrace)
    (hclosing : closing.kind = .rightBrace) (hclosing' : closing'.kind = .rightBrace)
    (hinside : Group.Nested inside) (hinside' : Group.Nested inside')
    (hbody : Reaches (.withLevels ((lex s₁).length + 1)) path (.ofTokens (lex s₁))
      ((Cursor.ofTokens (lex s₁)).advanceBy front.length))
    (hplain : front.getLast?.any Token.heads = false) :
    (parse s₁).toOption = (parse s₂).toOption := by
  have hbrace' : opening'.kind = .leftBrace := (Token.unplaced_eq hopening).1 ▸ hbrace
  obtain ⟨X, rfl, rfl, rfl, hX⟩ := Block.of_lex h₁ hbrace hclosing hinside
  obtain ⟨Y, rfl, rfl, rfl, hY⟩ := Block.of_lex h₂ hbrace' hclosing' hinside'
  obtain ⟨hback, hfile⟩ := List.append_inj' (by simpa [Alike] using hback :
    X.back.map Token.unplaced ++ [X.file.unplaced] =
      Y.back.map Token.unplaced ++ [Y.file.unplaced]) rfl
  have hx : Exchange X Y := ⟨hfront, hopening, hback, (List.cons.inj hfile).1, hplain⟩
  have hstart (Z : Block) {s : String} (hZ : lex s = Z.listing.tokens) :
      Cursor.ofTokens (lex s) = Z.start ∧ (lex s).length = Z.start.left + 1 := by
    rw [hZ, Listing.tokens, Cursor.ofTokens_append, List.length_append]
    exact ⟨rfl, rfl⟩
  obtain ⟨hstart₁, hlength₁⟩ := hstart X hX
  obtain ⟨hstart₂, hlength₂⟩ := hstart Y hY
  have hhole : X.start.advanceBy X.front.length = X.hole :=
    Cursor.between_advanceBy [] X.front (X.group ++ X.back) X.file
  rw [hstart₁, hhole] at hbody
  -- with levels enough for both texts
  have hparse := (parse_halts s₁).2.1 ((lex s₁).length + (lex s₂).length) (Nat.le_add_right _ _)
  have hparse' := (parse_halts s₂).2.1 ((lex s₁).length + (lex s₂).length) (Nat.le_add_left _ _)
  rw [← hparse, ← hparse', hstart₁, hstart₂]
  exact hx.statements_agree (by omega) (by omega) (hx.refl.reaches (by omega) (by omega) hbody)

theorem parse_eq_of_member_body_calls :
    let first := "import 'b'; class A \x7b x; m() \x7b return 1 \x7d \x7d"
    let second := "import 'b'; class A \x7b x; m() \x7b go(\x7b\x7d) \x7d \x7d"
    (parse first).isOk ∧ (parse first).toOption = (parse second).toOption := by
  have hfirst : lex "import 'b'; class A \x7b x; m() \x7b return 1 \x7d \x7d" =
      (lex "import 'b'; class A \x7b x; m() ").dropLast ++ ⟨.leftBrace, " ", "\x7b", 29⟩ ::
      [⟨.word, " ", "return", 31⟩, ⟨.number, " ", "1", 38⟩] ++
      ⟨.rightBrace, " ", "\x7d", 40⟩ ::
          [⟨.rightBrace, " ", "\x7d", 42⟩, ⟨.endOfFile, "", "", 43⟩] := by
    decide +kernel
  have hsecond : lex "import 'b'; class A \x7b x; m() \x7b go(\x7b\x7d) \x7d \x7d" =
      (lex "import 'b'; class A \x7b x; m() ").dropLast ++ ⟨.leftBrace, " ", "\x7b", 29⟩ ::
      (lex "import 'b'; class A \x7b x; m() \x7b go(\x7b\x7d)").dropLast.drop 12 ++
      ⟨.rightBrace, " ", "\x7d", 38⟩ ::
          [⟨.rightBrace, " ", "\x7d", 40⟩, ⟨.endOfFile, "", "", 41⟩] := by
    decide +kernel
  let place (n : Nat) : Cursor :=
    (Cursor.ofTokens (lex "import 'b'; class A \x7b x; m() \x7b return 1 \x7d \x7d")).advanceBy n
  have hbody : Reaches
      (.withLevels ((lex "import 'b'; class A \x7b x; m() \x7b return 1 \x7d \x7d").length + 1))
      ⟨[some (.importStatement ⟨"b", none, .none, false⟩)], {}, [], ⟨"A", [], none, []⟩,
        [some (.property ⟨"x", none, false, false, []⟩)],
        .method ⟨"m", .method, false, [], [], none, []⟩⟩ (place 0) (place 11) := by
    refine ⟨place 3, place 3, place 5, place 8, .next (d := place 3) ?_ (.here _),
      ?_, ?_, ?_, ?_, ?_,
      .next (d := place 8) ?_ (.here _), ?_, ?_, ?_⟩
    all_goals dsimp only [place]
    · rfl
    · exact ⟨by decide +kernel, by decide +kernel⟩
    · rfl
    · decide +kernel
    · rfl
    · decide +kernel
    · rfl
    · exact ⟨by decide +kernel, by decide +kernel⟩
    · rfl
    · decide +kernel
  refine ⟨by decide +kernel, parse_eq_of_member_body hfirst hsecond rfl rfl (by decide +kernel) rfl
    rfl rfl (by decide +kernel) (by decide +kernel) hbody (by decide +kernel)⟩

set_option maxRecDepth 4000 in
/-- Behind a word that takes a type, the braces of a body may be tried as those of a type. What
stands in them then decides whether the member is read as a part of type arguments. -/
theorem parse_reads_body_behind_extends :
    let source (inside : String) :=
      "class A \x7b x = a < T extends B ? typeof\n import(): asserts extends \x7b " ++ inside ++
        " \x7d ? C : D > (1) \x7d"
    let tokens (inside : Token) := (lex (source "+")).take 18 ++
      ⟨.leftBrace, " ", "\x7b", 66⟩ :: [inside] ++ ⟨.rightBrace, " ", "\x7d", 70⟩ ::
        (lex (source "+")).drop 21
    let place (n : Nat) : Cursor := (Cursor.ofTokens (lex (source "+"))).advanceBy n
    lex (source "+") = tokens ⟨.plus, " ", "+", 68⟩ ∧
      lex (source "c") = tokens ⟨.word, " ", "c", 68⟩ ∧
      (∃ path, Reaches (.withLevels ((lex (source "+")).length + 1)) path (place 0) (place 18)) ∧
      (parse (source "+")).isOk = false ∧ (parse (source "c")).isOk = true := by
  intro source tokens place
  refine ⟨by decide +kernel, by decide +kernel, ⟨⟨[], {}, [], ⟨"A", [], none, []⟩,
    [some (.property ⟨"x", none, false, false, []⟩)],
    .method ⟨"import", .method, false, [], [], some (.verbatim .predicate "asserts extends"), []⟩⟩,
    ?_⟩, by decide +kernel, by decide +kernel⟩
  refine ⟨place 0, place 0, place 2, place 12, .here _, ?_, ?_, ?_, ?_, ?_,
    .next (d := place 12) ?_ (.here _), ?_, ?_, ?_⟩
  all_goals dsimp only [place, source]
  · exact ⟨by decide +kernel, by decide +kernel⟩
  · rfl
  · decide +kernel
  · rfl
  · decide +kernel
  · rfl
  · exact ⟨by decide +kernel, by decide +kernel⟩
  · rfl
  · decide +kernel

/-- A class in an expression is kept as text, the bodies of its members with it. -/
theorem parse_reads_class_expression :
    let source (number : String) :=
      "const x = class \x7b m() \x7b return " ++ number ++ " \x7d \x7d;"
    let around (inside : List Token) := (lex "const x = class \x7b m() ").dropLast ++
      ⟨.leftBrace, " ", "\x7b", 22⟩ :: inside ++ ⟨.rightBrace, " ", "\x7d", 33⟩ ::
        [⟨.rightBrace, " ", "\x7d", 35⟩, ⟨.semicolon, "", ";", 36⟩, ⟨.endOfFile, "", "", 37⟩]
    (∀ number ∈ ["1", "2"], ∃ inside, Group.Nested inside ∧
      lex (source number) = around inside ∧ parse (source number) = .ok [.variableStatement ⟨false,
        [⟨"x", some (.verbatim ("class \x7b m() \x7b return " ++ number ++ " \x7d \x7d"))⟩]⟩]) ∧
    (parse (source "1")).toOption ≠ (parse (source "2")).toOption := by
  intro source around
  have hparse : ∀ number ∈ ["1", "2"], ∃ inside, Group.Nested inside ∧
      lex (source number) = around inside ∧ parse (source number) = .ok [.variableStatement ⟨false,
        [⟨"x", some (.verbatim ("class \x7b m() \x7b return " ++ number ++ " \x7d \x7d"))⟩]⟩] := by
    intro number hnumber
    refine ⟨[⟨.word, " ", "return", 24⟩, ⟨.number, " ", number, 31⟩], ?_⟩
    dsimp only [source, around]
    obtain rfl | rfl := by simpa using hnumber
    · exact ⟨by decide +kernel, by decide +kernel, by rfl⟩
    · exact ⟨by decide +kernel, by decide +kernel, by rfl⟩
  refine ⟨hparse, ?_⟩
  obtain ⟨_, -, -, h₁⟩ := hparse "1" (by decide)
  obtain ⟨_, -, -, h₂⟩ := hparse "2" (by decide)
  rw [h₁, h₂]
  simp [Except.toOption]

end HandlerWeave.Source
