import HandlerWeave.Project
import HandlerWeave.Proofs.FileTree.Programs
import HandlerWeave.Proofs.FileTree.Writes

/-!
Replacing the generated files. No step of it makes a link, so that every file written keeps its
contents until another one of its name is written.
-/
namespace HandlerWeave

namespace FileTree

/-- Every link is one of an earlier tree. -/
def LinksFrom (tree after : FileTree) : Prop :=
  ∀ place target, after.node? place = some (.link target) → tree.node? place = some (.link target)

theorem NoLink.of_linksFrom {tree after : FileTree} {name : String} (h : tree.NoLink name)
    (hlinks : LinksFrom tree after) : after.NoLink name := fun place target hnode =>
  h place target (hlinks _ target hnode)

namespace LinksFrom

variable {a b c : FileTree} {place : Place} {node : Node} {path : String}

theorem refl : LinksFrom a a := fun _ _ => id

theorem trans (hab : LinksFrom a b) (hbc : LinksFrom b c) : LinksFrom a c :=
  fun place target hnode => hab place target (hbc place target hnode)

theorem set (hnode : ∀ target, node ≠ .link target) : LinksFrom a (a.set place node) := by
  intro other target hother
  rw [node?_set] at hother
  split at hother
  · exact absurd (Option.some.inj hother) (hnode target)
  · exact hother

theorem erase : LinksFrom a (a.erase place) := by
  intro other target hother
  rw [node?_erase] at hother
  split at hother
  · cases hother
  · exact hother

theorem makeDirectory (h : a.makeDirectory path = .ok b) : LinksFrom a b := by
  unfold FileTree.makeDirectory add at h
  split at h
  · cases h
  · cases h
    exact set fun _ => by simp
  · cases h

theorem remove (h : a.remove path = .ok b) : LinksFrom a b := by
  obtain ⟨_, _, -, -, rfl⟩ := remove_eq h
  exact erase

theorem write {text : String} (h : a.write path text = .ok b) : LinksFrom a b := by
  obtain ⟨target, -, -, rfl⟩ := write_eq h
  exact set fun _ => nofun

end LinksFrom

instance : IsPreorder FileTree LinksFrom where
  refl _ := .refl
  trans _ _ _ := .trans

end FileTree

namespace Project

open FileTree

variable {tree after : FileTree} {output : String} {files : List Artifact.File}

section

variable {R : FileTree → FileTree → Prop}

theorem makeOutput_respects (h : Respects R (makeAll output)) : Respects R (makeOutput output) := by
  intro tree
  have hmake := h tree
  unfold makeOutput
  revert hmake
  cases makeAll output tree with
  | mk outcome after => cases outcome <;> exact id

variable [IsPreorder FileTree R]

theorem change_respects {path : String} {f : FileTree → FileTree.Changed}
    (hf : ∀ {tree after}, f tree = .ok after → R tree after) : Respects R (change path f) := by
  intro tree
  unfold change
  split
  next h => exact hf h
  · exact refl_of R tree

theorem purge_respects (hremove : ∀ {a b : FileTree} {path}, a.remove path = .ok b → R a b)
    (output : String) : Respects R (purge output) := by
  refine .bind .get fun tree => .bind (fun now => refl_of R now) fun names => ?_
  refine .bind (.forIn (fun name => .bind .get fun now => ?_) names) fun _ => .pure _
  split
  · exact change_respects hremove
  · exact .pure _

end

theorem makeOutput_linksFrom (output : String) : Respects LinksFrom (makeOutput output) :=
  makeOutput_respects (makeDirectories_respects (P := fun _ => True) (fun _ _ => trivial)
    (fun _ => .makeDirectory) _ trivial)

theorem bind_ok {α β : Type} {x : RunM α} {f : α → RunM β} {w : β}
    (h : (x >>= f) tree = (.ok w, after)) :
    ∃ v mid, x tree = (.ok v, mid) ∧ f v mid = (.ok w, after) := by
  obtain ⟨_, _, heq⟩ | hrest := bind_cases h
  · cases heq
  · exact hrest

/-- The last part of replacing the files. -/
def writes (output : String) (files : List Artifact.File) : RunM PUnit :=
  forIn files PUnit.unit fun f _ => do
    writeFile (Path.join output f.name) f.contents
    return .yield PUnit.unit

theorem writes_respects {R : FileTree → FileTree → Prop} [IsPreorder FileTree R]
    (hwrite : ∀ {a b : FileTree} {path text}, a.write path text = .ok b → R a b) (output : String)
    (files : List Artifact.File) : Respects R (writes output files) := by
  have hbody : ∀ f : Artifact.File, Respects R (writeFile (Path.join output f.name) f.contents) :=
    fun f => change_respects hwrite
  exact .forIn hbody files

/-- The files are written to a tree all of whose links were there before. -/
theorem replaceOutputs_ok (h : replaceOutputs output files tree = (.ok (), after)) :
    ∃ mid, LinksFrom tree mid ∧ writes output files mid = (.ok (), after) := by
  obtain ⟨_, made, hmake, h⟩ := bind_ok h
  obtain ⟨_, purged, hpurge, h⟩ := bind_ok h
  obtain ⟨_, _, hwrites, h⟩ := bind_ok h
  cases h
  have hmade := makeOutput_linksFrom output tree
  have hpurged := purge_respects LinksFrom.remove output made
  rw [hmake] at hmade
  rw [hpurge] at hpurged
  exact ⟨purged, hmade.trans hpurged, hwrites⟩

theorem writes_cons_ok {f : Artifact.File}
    (h : writes output (f :: files) tree = (.ok (), after)) :
    ∃ mid, tree.write (Path.join output f.name) f.contents = .ok mid ∧
      writes output files mid = (.ok (), after) := by
  rw [writes, List.forIn_cons] at h
  obtain ⟨step, mid, hstep, h⟩ := bind_ok h
  obtain ⟨_, _, hwrite, hstep⟩ := bind_ok hstep
  cases hstep
  unfold writeFile change at hwrite
  split at hwrite
  next hwritten =>
    cases hwrite
    exact ⟨_, hwritten, h⟩
  · cases hwrite

theorem writes_append_ok {before rest : List Artifact.File}
    (h : writes output (before ++ rest) tree = (.ok (), after)) :
    ∃ mid, LinksFrom tree mid ∧ writes output rest mid = (.ok (), after) := by
  induction before generalizing tree with
  | nil => exact ⟨tree, .refl, h⟩
  | cons f before ih =>
      obtain ⟨mid, hwrite, h⟩ := writes_cons_ok h
      obtain ⟨later, hlinks, h⟩ := ih h
      exact ⟨later, .trans (.write hwrite) hlinks, h⟩

/-- A file can be written by its name: the name is plain and no link has it. -/
structure Nameable (tree : FileTree) (name : String) : Prop where
  plain : PlainName name
  no_link : tree.NoLink name

theorem Nameable.of_linksFrom {name : String} (h : Nameable tree name)
    (hlinks : LinksFrom tree after) : Nameable after name :=
  ⟨h.plain, h.no_link.of_linksFrom hlinks⟩

theorem writes_read_other {name text : String} (hname : Nameable tree name)
    (hfiles : ∀ g ∈ files, Nameable tree g.name ∧ g.name ≠ name)
    (hread : tree.read (Path.join output name) = .ok text)
    (h : writes output files tree = (.ok (), after)) :
    after.read (Path.join output name) = .ok text := by
  induction files generalizing tree with
  | nil =>
      cases h
      exact hread
  | cons g files ih =>
      obtain ⟨mid, hwrite, h⟩ := writes_cons_ok h
      have hlinks : LinksFrom tree mid := .write hwrite
      obtain ⟨⟨hg, hne⟩, hfiles⟩ := List.forall_mem_cons.1 hfiles
      refine ih (hname.of_linksFrom hlinks) ?_ ?_ h
      · exact fun x hx => ⟨(hfiles x hx).1.of_linksFrom hlinks, (hfiles x hx).2⟩
      · exact read_write_other hg.plain hname.plain hne.symm hg.no_link hname.no_link hread hwrite

/-- What is read at a name is the last file of that name. -/
theorem replaceOutputs_read {before rest : List Artifact.File} {f : Artifact.File}
    (hnames : ∀ g ∈ f :: rest, Nameable tree g.name) (hlast : ∀ g ∈ rest, g.name ≠ f.name)
    (h : replaceOutputs output (before ++ f :: rest) tree = (.ok (), after)) :
    after.read (Path.join output f.name) = .ok f.contents := by
  obtain ⟨start, hstart, h⟩ := replaceOutputs_ok h
  obtain ⟨mid, hmid, h⟩ := writes_append_ok h
  obtain ⟨next, hwrite, h⟩ := writes_cons_ok h
  have hlinks : LinksFrom tree next := (hstart.trans hmid).trans (.write hwrite)
  obtain ⟨hf, hrest⟩ := List.forall_mem_cons.1 hnames
  refine writes_read_other (hf.of_linksFrom hlinks) ?_ (read_write hwrite) h
  exact fun g hg => ⟨(hrest g hg).of_linksFrom hlinks, hlast g hg⟩

end Project

end HandlerWeave
