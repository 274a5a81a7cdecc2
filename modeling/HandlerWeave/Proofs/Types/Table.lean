import HandlerWeave.Types.Table

/-!
How the entries of the table of types change: each change is to the entry of one name, and leaves
every other one as it is.
-/
namespace HandlerWeave.Types.Table

variable {t : Table} {name other : String}

theorem get?_update (f : Definition → Definition) (hf : ∀ d, (f d).name = d.name) :
    (t.update name f).get? other =
      if other = name then (t.get? other).map f else t.get? other := by
  obtain ⟨entries⟩ := t
  simp only [update, get?]
  induction entries with
  | nil => simp
  | cons d entries ih =>
      by_cases hd : d.name = name <;> by_cases ho : d.name = other
      · subst hd ho
        simp [hf]
      · subst hd
        simpa [hf, ho] using ih
      · subst ho
        simp [hd]
      · simpa [hd, ho] using ih

theorem wanted_eq_false :
    t.wanted name = false ↔ t.status? name = some .pending ∨ t.status? name = some .rendered := by
  unfold wanted
  split <;> simp_all

theorem get?_eq_none_of_status? (h : t.status? name = none) : t.get? name = none := by
  simpa [status?] using h

theorem status?_eq_some {s : Status} :
    t.status? name = some s ↔ ∃ d, t.get? name = some d ∧ d.status = s := by
  simp [status?]

theorem mem_names : name ∈ t.entries.map (·.name) ↔ (t.get? name).isSome := by
  simp [get?]

theorem mem_rendered_of_hasText (h : t.hasText name = true) :
    ∃ D ∈ t.rendered, D.name = name := by
  obtain ⟨D, hD, hstatus⟩ := status?_eq_some.1 (beq_iff_eq.1 h)
  have hname : D.name = name := by simpa using List.find?_some hD
  exact ⟨D, List.mem_filter.2 ⟨List.mem_of_find?_eq_some hD, by simp [hstatus]⟩, hname⟩

/-- A wanted name becomes pending; what its entry held stays. -/
theorem get?_start (h : t.wanted name = true) :
    (t.start name).get? other =
      if other = name then some { (t.get? name).getD { name } with status := .pending }
      else t.get? other := by
  unfold wanted at h
  unfold start
  split at h
  next hs =>
    have hnone := get?_eq_none_of_status? hs
    simp only [hs, hnone, Option.getD_none]
    by_cases ho : other = name
    · subst ho
      simp only [get?] at hnone ⊢
      simp [List.find?_append, hnone]
    · simp [get?, List.find?_append, Ne.symm ho, ho]
  next hs =>
    obtain ⟨d, hd, -⟩ := status?_eq_some.1 hs
    simp only [hs]
    rw [get?_update]
    · by_cases ho : other = name <;> simp [ho, hd]
    · exact fun _ => rfl
  all_goals cases h

theorem get?_settle {text : String} {references : List String} {origin : String} :
    (t.settle name text references origin).get? other =
      if other = name then
        (t.get? other).map fun d =>
          { d with status := .rendered, text, references, origin := some origin }
      else t.get? other :=
  get?_update _ fun _ => rfl

theorem get?_leaveOut :
    (t.leaveOut name).get? other =
      if other = name then
        (t.get? other).map fun d =>
          { d with status := .external, text := name, failures := d.failures + 1 }
      else t.get? other :=
  get?_update _ fun _ => rfl

theorem status?_start (h : t.wanted name = true) :
    (t.start name).status? other = if other = name then some .pending else t.status? other := by
  simp only [status?, get?_start h]
  split <;> rfl

theorem status?_settle {text : String} {references : List String} {origin : String}
    (h : t.status? name = some .pending) :
    (t.settle name text references origin).status? other =
      if other = name then some .rendered else t.status? other := by
  obtain ⟨d, hd, -⟩ := status?_eq_some.1 h
  simp only [status?, get?_settle]
  split
  next ho => simp [ho, hd]
  · rfl

theorem status?_leaveOut (h : t.status? name = some .pending) :
    (t.leaveOut name).status? other =
      if other = name then some .external else t.status? other := by
  obtain ⟨d, hd, -⟩ := status?_eq_some.1 h
  simp only [status?, get?_leaveOut]
  split
  next ho => simp [ho, hd]
  · rfl

/-- How often a name was looked for in vain. -/
def failures (t : Table) (name : String) : Nat := ((t.get? name).map (·.failures)).getD 0

theorem failures_start (h : t.wanted name = true) :
    (t.start name).failures other = t.failures other := by
  rw [failures, get?_start h, failures]
  split
  next heq =>
    subst heq
    cases t.get? other <;> rfl
  · rfl

theorem failures_settle {text : String} {references : List String} {origin : String} :
    (t.settle name text references origin).failures other = t.failures other := by
  rw [failures, get?_settle, failures]
  split
  · cases t.get? other <;> rfl
  · rfl

theorem failures_leaveOut (h : t.status? name = some .pending) :
    (t.leaveOut name).failures other =
      if other = name then t.failures other + 1 else t.failures other := by
  obtain ⟨D, hD, -⟩ := status?_eq_some.1 h
  rw [failures, get?_leaveOut, failures]
  split
  next heq => simp [heq, hD]
  · rfl

theorem neverFailed_iff (h : t.status? name = some .pending) :
    t.neverFailed name = true ↔ t.failures name = 0 := by
  obtain ⟨D, hD, -⟩ := status?_eq_some.1 h
  simp [neverFailed, failures, hD]

/-- An entry without a text of its own holds no references and no origin; one that is external shows
its name. -/
def Blank (t : Table) : Prop :=
  ∀ n D, t.get? n = some D → D.status ≠ .rendered →
    D.references = [] ∧ D.origin = none ∧ (D.status = .external → D.text = n)

/-- No two entries have one name. -/
def Keyed (t : Table) : Prop := (t.entries.map (·.name)).Nodup

theorem Keyed.get? (h : t.Keyed) {d : Definition} (hd : d ∈ t.entries) :
    t.get? d.name = some d := by
  obtain ⟨entries⟩ := t
  simp only [Keyed, Table.get?] at h ⊢
  induction entries with
  | nil => cases hd
  | cons x entries ih =>
      obtain ⟨hx, hnodup⟩ := List.nodup_cons.1 h
      obtain rfl | hd := List.mem_cons.1 hd
      · simp
      · have hne : x.name ≠ d.name := fun heq => hx (List.mem_map.2 ⟨d, hd, heq.symm⟩)
        simpa [hne] using ih hnodup hd

theorem Keyed.update (h : t.Keyed) (f : Definition → Definition) (hf : ∀ d, (f d).name = d.name) :
    (t.update name f).Keyed := by
  have hnames : (t.update name f).entries.map (·.name) = t.entries.map (·.name) := by
    simp only [Table.update, List.map_map]
    apply List.map_congr_left
    intro d _
    simp only [Function.comp_apply]
    split
    · exact hf d
    · rfl
  rw [Keyed, hnames]
  exact h

theorem Keyed.start (h : t.Keyed) : (t.start name).Keyed := by
  unfold Table.start
  split
  next hnone =>
    have hnew : name ∉ t.entries.map (·.name) := by
      intro hmem
      obtain ⟨d, hd, rfl⟩ := List.mem_map.1 hmem
      rw [status?, h.get? hd] at hnone
      cases hnone
    simp only [Keyed, List.map_append, List.map_cons, List.map_nil, List.nodup_append]
    refine ⟨h, by simp, ?_⟩
    intro n hn m hm
    rw [List.mem_singleton.1 hm]
    exact fun heq => hnew (heq ▸ hn)
  · exact h.update _ fun _ => rfl
  · exact h

theorem Keyed.settle (h : t.Keyed) {text : String} {references : List String} {origin : String} :
    (t.settle name text references origin).Keyed := h.update _ fun _ => rfl

theorem Keyed.leaveOut (h : t.Keyed) : (t.leaveOut name).Keyed := h.update _ fun _ => rfl

end HandlerWeave.Types.Table
