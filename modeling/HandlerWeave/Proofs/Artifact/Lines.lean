import HandlerWeave.Artifact.Service
import HandlerWeave.Artifact.TypeFiles
import HandlerWeave.Proofs.Artifact.Slugs

/-!
The lines at the top of a generated file, up to the first blank one. They are where a file imports
or exports what stands in others, and what they name can be read off them.
-/
namespace HandlerWeave.Artifact

open Source

/-- A line that imports or exports a name from the file with that stem beside it. -/
def linkLine (keyword name stem : String) : String :=
  keyword ++ " \x7b " ++ name ++ " \x7d from './" ++ stem ++ "';"

theorem toList_linkLine (keyword name stem : String) :
    (linkLine keyword name stem).toList = keyword.toList ++ " \x7b ".toList ++ name.toList ++
      " \x7d from './".toList ++ stem.toList ++ "';".toList := by
  simp only [linkLine, String.toList_append]

def importLine (name : String) : String := linkLine "import" name (slug name)

theorem importOf_eq (name : String) : importOf name = importLine name ++ "\n" := by
  simp [importOf, importLine, linkLine, String.append_assoc]

theorem exportLine_eq (name : String) :
    exportLine name = linkLine "export" name (slug name) ++ "\n" := by
  simp [exportLine, linkLine, String.append_assoc]

theorem lines_nil : lines [] = "" := rfl

theorem lines_cons (l : String) (ls : List String) : lines (l :: ls) = l ++ ("\n" ++ lines ls) := by
  rw [lines, lines, List.map_cons, String.join_cons, String.append_assoc]

/-- The lines above the first blank one. -/
def opening (contents : String) : List String :=
  ((contents.toList.splitOn '\n').takeWhile (· ≠ [])).map String.ofList

/-- A text that is some lines, and then nothing or a blank line. -/
theorem opening_lines {texts : List String} {rest : String}
    (h : ∀ l ∈ texts, l ≠ "" ∧ '\n' ∉ l.toList) (hrest : rest = "" ∨ ∃ r, rest = "\n" ++ r) :
    opening (lines texts ++ rest) = texts := by
  induction texts with
  | nil =>
      obtain rfl | ⟨r, rfl⟩ := hrest
      · rfl
      · simp [opening, lines_nil, List.splitOn_cons_eq_if_modifyHead]
  | cons l texts ih =>
      obtain ⟨⟨hne, hbreak⟩, h⟩ := List.forall_mem_cons.1 h
      have hlist : (lines (l :: texts) ++ rest).toList =
          l.toList ++ '\n' :: (lines texts ++ rest).toList := by
        simp [lines_cons]
      rw [opening, hlist, List.splitOn_append_cons_self_of_not_mem hbreak,
        List.takeWhile_cons_of_pos (by simpa using hne), List.map_cons, String.ofList_toList]
      exact congrArg _ (ih h)

variable {keyword kw name stem n m : String} {names : List String}

theorem linkLine_line (hkeyword : '\n' ∉ keyword.toList) (hname : '\n' ∉ name.toList)
    (hstem : '\n' ∉ stem.toList) :
    linkLine keyword name stem ≠ "" ∧ '\n' ∉ (linkLine keyword name stem).toList := by
  refine ⟨fun h => ?_, ?_⟩
  · have hlist := congrArg String.toList h
    simp [toList_linkLine] at hlist
  · simp [toList_linkLine, hkeyword, hname, hstem]

/-- Every such line holds the point that its path starts with. -/
theorem point_mem_linkLine : '.' ∈ (linkLine keyword name stem).toList := by
  simp [toList_linkLine]

/-- Where neither part holds a blank, the line determines both. -/
theorem linkLine_inj (hn : ' ' ∉ n.toList) (hm : ' ' ∉ m.toList)
    (h : linkLine keyword name stem = linkLine keyword n m) : name = n ∧ stem = m := by
  have hlist : name.toList ++ (" \x7d from './".toList ++ (stem.toList ++ "';".toList)) =
      n.toList ++ (" \x7d from './".toList ++ (m.toList ++ "';".toList)) := by
    have hparts := congrArg String.toList h
    simpa only [toList_linkLine, List.append_assoc, List.append_cancel_left_eq] using hparts
  have hcount := congrArg (List.count ' ') hlist
  simp only [List.count_append, List.count_eq_zero.2 hn, List.count_eq_zero.2 hm] at hcount
  have hname : ' ' ∉ name.toList := List.count_eq_zero.1 (by omega)
  have hfirst : name.toList = n.toList := by
    have hblank : " \x7d from './".toList = ' ' :: "\x7d from './".toList := rfl
    have hsplit := congrArg (List.splitOn ' ') hlist
    rw [hblank, List.cons_append, List.splitOn_append_cons_self_of_not_mem hname,
      List.cons_append, List.splitOn_append_cons_self_of_not_mem hn] at hsplit
    exact (List.cons.inj hsplit).1
  rw [hfirst, List.append_cancel_left_eq, List.append_cancel_left_eq,
    List.append_cancel_right_eq] at hlist
  exact ⟨String.toList_inj.1 hfirst, String.toList_inj.1 hlist⟩

theorem import_ne_export : linkLine "import" name stem ≠ linkLine "export" n m := by
  intro h
  have hlist := congrArg String.toList h
  simp [toList_linkLine] at hlist

theorem lines_append (xs ys : List String) : lines (xs ++ ys) = lines xs ++ lines ys := by
  induction xs with
  | nil => rw [List.nil_append, lines_nil, String.empty_append]
  | cons l xs ih => rw [List.cons_append, lines_cons, lines_cons, ih, String.append_assoc,
      String.append_assoc]

theorem lines_blank (texts : List String) : lines ("" :: texts) = "\n" ++ lines texts := by
  rw [lines_cons, String.empty_append]

theorem join_map_eq_lines {f g : String → String} (h : ∀ n, f n = g n ++ "\n")
    (names : List String) : String.join (names.map f) = lines (names.map g) := by
  induction names with
  | nil => rfl
  | cons n names ih =>
      rw [List.map_cons, List.map_cons, String.join_cons, lines_cons, h, ih, String.append_assoc]

/-- The types that a type's file imports. -/
def imported (types : Types.Table) (D : Types.Definition) : List String :=
  D.references.filter fun r => r != D.name && types.hasText r

variable {types : Types.Table} {D : Types.Definition} {handlers : List Handler}

theorem link_line {keyword : String} (hkeyword : '\n' ∉ keyword.toList) {names : List String}
    (h : ∀ n ∈ names, IsWord n) :
    ∀ l ∈ names.map fun n => linkLine keyword n (slug n), l ≠ "" ∧ '\n' ∉ l.toList := by
  intro l hl
  obtain ⟨n, hn, rfl⟩ := List.mem_map.1 hl
  exact linkLine_line hkeyword ((isStem_of_isWord (h n hn)).notMem (by decide))
    ((slug_isStem (h n hn)).notMem (by decide))

theorem typeFile_contents (types : Types.Table) (D : Types.Definition) :
    (typeFile types D).contents =
      lines ((imported types D).map importLine) ++ ("\n" ++ D.text ++ "\n") := by
  rw [← join_map_eq_lines importOf_eq, ← String.append_assoc, ← String.append_assoc]
  rfl

theorem opening_typeFile (h : ∀ n ∈ imported types D, IsWord n) :
    opening (typeFile types D).contents = (imported types D).map importLine := by
  rw [typeFile_contents]
  exact opening_lines (link_line (by decide) h) (.inr ⟨D.text ++ "\n", by rw [String.append_assoc]⟩)

theorem opening_clientService (h : ∀ n ∈ typesNamed handlers types, IsWord n) :
    opening (clientService handlers types).contents =
      Service.header ++ (typesNamed handlers types).map importLine := by
  have hheader : ∀ l ∈ Service.header, l ≠ "" ∧ '\n' ∉ l.toList := by simp [Service.header]
  have hblank : lines Service.classOpening = "\n" ++ lines Service.classOpening.tail :=
    lines_blank Service.classOpening.tail
  simp only [clientService, join_map_eq_lines importOf_eq, hblank, ← lines_append,
    String.append_assoc]
  refine opening_lines (fun l hl => ?_) (.inr ⟨_, rfl⟩)
  cases List.mem_append.1 hl with
  | inl hl => exact hheader l hl
  | inr hl => exact link_line (by decide) h l hl

/-- The names that the client itself provides, and the stems of the files they stand in. -/
def clientLinks : List (String × String) :=
  [("ApiModule", "api.module"), ("ApiService", "api.service"), ("BASE_URL", "baseurl.token")]

theorem opening_clientIndex (h : ∀ n ∈ typesNamed handlers types, IsWord n) :
    opening (clientIndex handlers types).contents =
      clientLinks.map (fun (name, stem) => linkLine "export" name stem) ++
        (typesNamed handlers types).map fun n => linkLine "export" n (slug n) := by
  have hbreaks : ∀ link ∈ clientLinks, '\n' ∉ link.1.toList ∧ '\n' ∉ link.2.toList := by decide
  have hfixed : ∀ l ∈ clientLinks.map fun (name, stem) => linkLine "export" name stem,
      l ≠ "" ∧ '\n' ∉ l.toList := by
    intro l hl
    obtain ⟨link, hlink, rfl⟩ := List.mem_map.1 hl
    exact linkLine_line (by decide) (hbreaks link hlink).1 (hbreaks link hlink).2
  have hlines : (clientIndex handlers types).contents =
      lines (clientLinks.map (fun (name, stem) => linkLine "export" name stem) ++
        (typesNamed handlers types).map fun n => linkLine "export" n (slug n)) ++ "" := by
    rw [lines_append, ← join_map_eq_lines exportLine_eq, String.append_empty]
    rfl
  rw [hlines]
  refine opening_lines (fun l hl => ?_) (.inl rfl)
  cases List.mem_append.1 hl with
  | inl hl => exact hfixed l hl
  | inr hl => exact link_line (by decide) h l hl

/-- Lines without a point hold no link. -/
theorem notMem_opening_of_lines {texts rest : List String}
    (h : ∀ l ∈ texts, l ≠ "" ∧ '\n' ∉ l.toList ∧ '.' ∉ l.toList) :
    linkLine keyword name stem ∉ opening (lines (texts ++ "" :: rest)) := by
  rw [lines_append, lines_blank,
    opening_lines (fun l hl => ⟨(h l hl).1, (h l hl).2.1⟩) (.inr ⟨_, rfl⟩)]
  exact fun hmem => (h _ hmem).2.2 point_mem_linkLine

theorem notMem_opening_addressToken :
    linkLine keyword name stem ∉ opening addressToken.contents := by
  have hcontents : addressToken.contents = lines (
      ["import \x7b InjectionToken \x7d from '@angular/core';"] ++ "" ::
        ["export const BASE_URL = new InjectionToken<string>('BASE_URL');"]) := rfl
  rw [hcontents]
  exact notMem_opening_of_lines (by simp)

theorem notMem_opening_clientModule :
    linkLine keyword name stem ∉ opening clientModule.contents := by
  obtain ⟨rest, hcontents⟩ : ∃ rest, clientModule.contents = lines (
      ["import \x7b HttpClientModule \x7d from '@angular/common/http';",
        "import \x7b NgModule \x7d from '@angular/core';"] ++ "" :: rest) := ⟨_, rfl⟩
  rw [hcontents]
  exact notMem_opening_of_lines (by simp)

theorem linkLine_inj_of_mem (hkeyword : keyword ∈ ["import", "export"])
    (hkw : kw ∈ ["import", "export"]) (hn : ' ' ∉ n.toList) (hm : ' ' ∉ m.toList)
    (h : linkLine keyword name stem = linkLine kw n m) : name = n ∧ stem = m := by
  simp only [List.mem_cons, List.not_mem_nil, or_false] at hkeyword hkw
  obtain rfl | rfl := hkeyword <;> obtain rfl | rfl := hkw
  · exact linkLine_inj hn hm h
  · exact absurd h import_ne_export
  · exact absurd h.symm import_ne_export
  · exact linkLine_inj hn hm h

theorem mem_links (hkeyword : keyword ∈ ["import", "export"]) (hkw : kw ∈ ["import", "export"])
    (hwords : ∀ n ∈ names, IsWord n)
    (h : linkLine keyword name stem ∈ names.map fun n => linkLine kw n (slug n)) :
    name ∈ names ∧ stem = slug name := by
  obtain ⟨n, hn, heq⟩ := List.mem_map.1 h
  obtain ⟨rfl, rfl⟩ := linkLine_inj_of_mem hkeyword hkw
    ((isStem_of_isWord (hwords n hn)).notMem (by decide))
    ((slug_isStem (hwords n hn)).notMem (by decide)) heq.symm
  exact ⟨hn, rfl⟩

theorem mem_clientLinks (hkeyword : keyword ∈ ["import", "export"])
    (hkw : kw ∈ ["import", "export"])
    (h : linkLine keyword name stem ∈ clientLinks.map fun (n, m) => linkLine kw n m) :
    (name, stem) ∈ clientLinks := by
  have hblanks : ∀ link ∈ clientLinks, ' ' ∉ link.1.toList ∧ ' ' ∉ link.2.toList := by decide
  obtain ⟨⟨n, m⟩, hlink, heq⟩ := List.mem_map.1 h
  obtain ⟨hn, hm⟩ := hblanks _ hlink
  obtain ⟨rfl, rfl⟩ := linkLine_inj_of_mem hkeyword hkw hn hm heq.symm
  exact hlink

theorem mem_header (hkeyword : keyword ∈ ["import", "export"])
    (h : linkLine keyword name stem ∈ Service.header) : (name, stem) ∈ clientLinks := by
  have hothers : ∀ l ∈ Service.header.tail, '.' ∉ l.toList := by simp [Service.header]
  cases List.mem_cons.1 h with
  | inl heq =>
      have htoken : linkLine keyword name stem = linkLine "import" "BASE_URL" "baseurl.token" := heq
      obtain ⟨rfl, rfl⟩ :=
        linkLine_inj_of_mem hkeyword (by simp) (by decide) (by decide) htoken
      simp [clientLinks]
  | inr h => exact absurd point_mem_linkLine (hothers _ h)

end HandlerWeave.Artifact
