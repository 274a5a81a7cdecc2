import HandlerWeave.Handler.Find
import Mathlib.Data.List.Nodup

/-!
Where a request carries a parameter. The decorators are looked up by the names of class and method
and by the place of the parameter, so every member named like the entry method has a say, and the
first of them in the class decides. The decorators on the parameter itself decide where no other
member of that name binds the same place.
-/
namespace HandlerWeave

open Source

namespace Source

/-- The class members of that name that take parameters, whether instance methods or not. -/
def ClassDef.methodsNamed (c : ClassDef) (name : String) : List Method :=
  c.members.filterMap fun
    | .method m => if m.name = name then some m else none
    | _ => none

def Method.decoratorsAt (m : Method) (index : Nat) : List Decorator :=
  ((m.params[index]?).map (·.decorators)).getD []

end Source

namespace Handler

def bindingDecorator? (decorators : List Decorator) : Option (RequestPart × Decorator) :=
  decorators.findSome? fun d => (RequestPart.ofDecorator? d.name).map (·, d)

/-- Source and key that decorators give a parameter of that name. -/
def boundBy (decorators : List Decorator) (name : String) : RequestPart × String :=
  match bindingDecorator? decorators with
  | none => (.query, name)
  | some (source, d) =>
    match d.arguments.head? with
    | some (.string key) => (source, if key.isEmpty then name else key)
    | _ => (source, name)

/-- The member leaves the parameter at that place unbound. -/
def LeavesUnbound (index : Nat) (member : ClassMember) : Prop :=
  ∀ m, member = .method m → m.name = entryName → bindingDecorator? (m.decoratorsAt index) = none

theorem bindingDecorator?_append (xs ys : List Decorator) :
    bindingDecorator? (xs ++ ys) = (bindingDecorator? xs).or (bindingDecorator? ys) :=
  List.findSome?_append

theorem bindingDecorator?_flatMap_none {α : Type} {f : α → List Decorator} {xs : List α}
    (h : ∀ x ∈ xs, bindingDecorator? (f x) = none) : bindingDecorator? (xs.flatMap f) = none := by
  induction xs with
  | nil => rfl
  | cons x xs ih =>
      obtain ⟨hx, hxs⟩ := List.forall_mem_cons.1 h
      rw [List.flatMap_cons, bindingDecorator?_append, hx, ih hxs]
      rfl

end Handler

namespace Decoration

variable {className method name : String} {index : Nat}

theorem ofDecorators_append (target : DecorationSite) (xs ys : List Decorator) :
    ofDecorators target (xs ++ ys) = ofDecorators target xs ++ ofDecorators target ys :=
  List.map_append

theorem filter_ofDecorators (site target : DecorationSite) (decorators : List Decorator) :
    (ofDecorators site decorators).filter (·.target == target) =
      if site = target then ofDecorators target decorators else [] := by
  by_cases h : site = target
  · rw [if_pos h, h, List.filter_eq_self]
    simp [ofDecorators]
  · rw [if_neg h, List.filter_eq_nil_iff]
    simp [ofDecorators, h]

/-- Of the parameters of one member, only the one at the place counts. -/
theorem filter_ofParams (member : String) (params : List Param) :
    (ofParams className member params).filter (·.target == .parameter className method index) =
      if member = method then
        ofDecorators (.parameter className method index)
          (((params[index]?).map (·.decorators)).getD [])
      else [] := by
  have hplaces : ∀ start, (params.zipIdx start).flatMap (fun p =>
      (ofDecorators (.parameter className member p.2) p.1.decorators).filter
        (·.target == .parameter className method index)) =
      if member = method ∧ start ≤ index then
        ofDecorators (.parameter className method index)
          (((params[index - start]?).map (·.decorators)).getD [])
      else [] := by
    induction params with
    | nil =>
        intro start
        simp [ofDecorators]
    | cons p params ih =>
        intro start
        rw [List.zipIdx_cons, List.flatMap_cons, ih]
        simp only [filter_ofDecorators]
        by_cases hmember : member = method
        · obtain hlt | rfl | hgt := Nat.lt_trichotomy start index
          · obtain ⟨k, rfl⟩ := Nat.exists_eq_add_of_lt hlt
            have hk : start + k + 1 - start = k + 1 := by omega
            have hk' : start + k + 1 - (start + 1) = k := by omega
            simp [hmember, hk, hk', show start ≠ start + k + 1 by omega,
              show start + 1 ≤ start + k + 1 by omega, show start ≤ start + k + 1 by omega]
          · simp [hmember, show ¬ start + 1 ≤ start by omega]
          · simp [hmember, show start ≠ index by omega, show ¬ start + 1 ≤ index by omega,
              show ¬ start ≤ index by omega]
        · simp [hmember]
  simpa [ofParams, List.filter_flatMap] using hplaces 0

/-- Of the decorations of a class, those at a place of its methods of that name. -/
theorem filter_ofClass (hmethod : method ≠ "constructor") (c : ClassDef) :
    (ofClass c).filter (·.target == .parameter c.name method index) =
      ofDecorators (.parameter c.name method index)
        ((c.methodsNamed method).flatMap (·.decoratorsAt index)) := by
  rw [ofClass, List.filter_append, filter_ofDecorators, if_neg (by simp), List.nil_append,
    List.filter_flatMap, ClassDef.methodsNamed]
  induction c.members with
  | nil => rfl
  | cons member members ih =>
      rw [List.flatMap_cons, ih]
      cases member with
      | method m =>
          by_cases hm : m.name = method <;>
            simp [filter_ofParams, hm, Method.decoratorsAt, ofDecorators_append]
      | constructor params => simp [filter_ofParams, hmethod.symm]
      | property | index => simp

theorem filter_ofClass_other {c : ClassDef} (hc : c.name ≠ className) :
    (ofClass c).filter (·.target == .parameter className method index) = [] := by
  rw [List.filter_eq_nil_iff]
  intro d hd
  have htarget :
    d.target = .ofClass c.name ∨ ∃ member i, d.target = .parameter c.name member i := by
    simp only [ofClass, ofDecorators, ofParams, List.mem_append, List.mem_map,
      List.mem_flatMap] at hd
    obtain ⟨_, -, rfl⟩ | ⟨member, -, hmember⟩ := hd
    · exact .inl rfl
    · cases member with
      | method | constructor =>
          simp only [List.mem_flatMap, List.mem_map] at hmember
          obtain ⟨⟨p, i⟩, -, _, -, rfl⟩ := hmember
          exact .inr ⟨_, _, rfl⟩
      | property | index => cases hmember
  obtain htarget | ⟨member, i, htarget⟩ := htarget <;> simp [htarget, hc]

end Decoration

namespace Module

def classes (m : Module) : List ClassDef := m.declarations.filterMap Declaration.asClass?

variable {path : String} {items : List Item} {c : ClassDef} {method : String}

/-- Where class names are distinct, what is found at a place was written on the methods of that name
in that class. -/
theorem parameterDecorations_eq (hmethod : method ≠ "constructor")
    (hnames : ((ofItems path items).classes.map (·.name)).Nodup)
    (hc : c ∈ (ofItems path items).classes) (index : Nat) :
    (ofItems path items).parameterDecorations c.name method index =
      Decoration.ofDecorators (.parameter c.name method index)
        ((c.methodsNamed method).flatMap (·.decoratorsAt index)) := by
  have hattributes : (ofItems path items).attributes =
      (ofItems path items).classes.flatMap Decoration.ofClass := rfl
  rw [parameterDecorations, hattributes, List.filter_flatMap]
  obtain ⟨front, back, hclasses⟩ := List.append_of_mem hc
  rw [hclasses, List.map_append, List.map_cons, List.nodup_middle, List.nodup_cons,
    ← List.map_append] at hnames
  have hothers : ∀ ds : List ClassDef, ds ⊆ front ++ back → ds.flatMap (fun d =>
      (Decoration.ofClass d).filter (·.target == .parameter c.name method index)) = [] := by
    intro ds hds
    rw [List.flatMap_eq_nil_iff]
    exact fun d hd => Decoration.filter_ofClass_other fun h =>
      hnames.1 (h ▸ List.mem_map_of_mem (hds hd))
  rw [hclasses, List.flatMap_append, List.flatMap_cons, Decoration.filter_ofClass hmethod,
    hothers front (List.subset_append_left ..), hothers back (List.subset_append_right ..),
    List.nil_append, List.append_nil]

end Module

namespace Handler

variable {path : String} {items : List Item} {c : ClassDef}

theorem findSome?_ofDecorators (target : DecorationSite) (decorators : List Decorator) :
    (Decoration.ofDecorators target decorators).findSome?
        (fun a => (RequestPart.ofDecorator? a.name).map (·, a)) =
      (bindingDecorator? decorators).map
        fun (source, d) => (source, ⟨target, d.name, d.arguments⟩) := by
  induction decorators with
  | nil => rfl
  | cons d decorators ih =>
      rw [bindingDecorator?] at ih ⊢
      rw [Decoration.ofDecorators, List.map_cons, List.findSome?_cons, List.findSome?_cons]
      cases RequestPart.ofDecorator? d.name with
      | none => exact ih
      | some source => rfl

/-- The methods named like the entry method bind a place in common. -/
theorem bindingOf_eq (hnames : ((Module.ofItems path items).classes.map (·.name)).Nodup)
    (hc : c ∈ (Module.ofItems path items).classes) (index : Nat) (p : Param) :
    bindingOf (Module.ofItems path items) c index p =
      boundBy ((c.methodsNamed entryName).flatMap (·.decoratorsAt index)) p.name := by
  rw [bindingOf, Module.parameterDecorations_eq (by decide) hnames hc, findSome?_ofDecorators,
    boundBy]
  cases bindingDecorator? ((c.methodsNamed entryName).flatMap (·.decoratorsAt index)) with
  | none => rfl
  | some bound => rfl

/-- Members that leave a place unbound have no say in what binds it. -/
theorem boundBy_methodsNamed {method : Method} {front back : List ClassMember} {index : Nat}
    (hmembers : c.members = front ++ .method method :: back) (hmethod : method.name = entryName)
    (hfront : ∀ member ∈ front, LeavesUnbound index member)
    (hback : bindingDecorator? (method.decoratorsAt index) ≠ none ∨
      ∀ member ∈ back, LeavesUnbound index member) (name : String) :
    boundBy ((c.methodsNamed entryName).flatMap (·.decoratorsAt index)) name =
      boundBy (method.decoratorsAt index) name := by
  have hunbound : ∀ members : List ClassMember, (∀ member ∈ members, LeavesUnbound index member) →
      bindingDecorator? (({ c with members } : ClassDef).methodsNamed entryName |>.flatMap
        (·.decoratorsAt index)) = none := by
    intro members hmembers
    refine bindingDecorator?_flatMap_none fun m hm => ?_
    obtain ⟨member, hmember, hsome⟩ := List.mem_filterMap.1 hm
    cases member with
    | method m' =>
        obtain ⟨hname, rfl⟩ : m'.name = entryName ∧ m' = m := by simpa using hsome
        exact hmembers _ hmember _ rfl hname
    | property | constructor | index => cases hsome
  have hsplit : c.methodsNamed entryName =
      ({ c with members := front } : ClassDef).methodsNamed entryName ++
        method :: ({ c with members := back } : ClassDef).methodsNamed entryName := by
    simp [ClassDef.methodsNamed, hmembers, hmethod]
  have hbinding : bindingDecorator? ((c.methodsNamed entryName).flatMap (·.decoratorsAt index)) =
      bindingDecorator? (method.decoratorsAt index) := by
    rw [hsplit, List.flatMap_append, List.flatMap_cons, bindingDecorator?_append,
      bindingDecorator?_append, hunbound front hfront, Option.none_or]
    obtain hbound | hback := hback
    · obtain ⟨bound, hbound⟩ := Option.ne_none_iff_exists'.1 hbound
      rw [hbound, Option.some_or]
    · rw [hunbound back hback, Option.or_none]
  rw [boundBy, hbinding, boundBy]

/-- In a module with distinct class names, the parameters described are those of the entry method.
Each is bound by the first binding decorator that the methods of that name have at its place, and
so by its own decorators where the members in front leave the place unbound and, unless it has a
binding decorator itself, those behind do too. -/
theorem describe_bindings (hnames : ((Module.ofItems path items).classes.map (·.name)).Nodup)
    (hc : c ∈ (Module.ofItems path items).classes) {method : Method}
    (hmethod : c.method? entryName = some method) (exported : String) {index : Nat} {p : Param}
    (hp : method.params[index]? = some p) :
    ∃ q, (describe (Module.ofItems path items) c method exported).parameters[index]? = some q ∧
      q.name = p.name ∧
      (q.source, q.key) =
        boundBy ((c.methodsNamed entryName).flatMap (·.decoratorsAt index)) p.name ∧
      ∀ front back, c.members = front ++ .method method :: back →
        (∀ member ∈ front, LeavesUnbound index member) →
        (bindingDecorator? p.decorators ≠ none ∨ ∀ member ∈ back, LeavesUnbound index member) →
        (q.source, q.key) = boundBy p.decorators p.name := by
  have hname : method.name = entryName := by
    obtain ⟨member, -, hmember⟩ := List.exists_of_findSome?_eq_some hmethod
    cases member with
    | method m =>
        obtain ⟨⟨hm, -⟩, rfl⟩ : (m.name = entryName ∧ _) ∧ m = method := by simpa using hmember
        exact hm
    | property | constructor | index => cases hmember
  have hown : method.decoratorsAt index = p.decorators := by rw [Method.decoratorsAt, hp]; rfl
  have hbinding := bindingOf_eq hnames hc index p
  refine ⟨⟨(bindingOf (Module.ofItems path items) c index p).1,
    (bindingOf (Module.ofItems path items) c index p).2, p.name,
    optionalTypeText (scopeOf c method) p.type⟩, ?_, rfl, hbinding, ?_⟩
  · simp [describe, List.getElem?_map, List.getElem?_zipIdx, hp]
  · intro front back hmembers hfront hback
    rw [← hown] at hback ⊢
    exact hbinding.trans (boundBy_methodsNamed hmembers hname hfront hback p.name)

/-- The parameter `x: string`. -/
def textParam (decorators : List Decorator) : Param :=
  ⟨"x", some (.keyword .string), false, false, false, decorators⟩

/-- A method `handle` of one parameter. -/
def entryMethod (isStatic : Bool) (decorators : List Decorator) : Method :=
  ⟨entryName, .method, isStatic, [], [textParam decorators], none, []⟩

/-- A class that holds nothing but these methods. -/
def classOf (methods : List Method) : ClassDef := ⟨"A", {}, [], [], none, [], methods.map .method⟩

/-- A static method behind the entry method has no say in what the entry method binds itself. -/
theorem describe_bindings_path :
    let p := textParam [⟨["FromPath"], [.string "id"]⟩]
    let method := entryMethod false p.decorators
    let c := classOf [method, entryMethod true [⟨["FromBody"], []⟩]]
    let m := Module.ofItems "a.ts" [.classDef c]
    (m.classes.map (·.name)).Nodup ∧ c ∈ m.classes ∧ c.method? entryName = some method ∧
      method.params[0]? = some p ∧
      ∃ q, (describe m c method "a").parameters[0]? = some q ∧
        (q.source, q.key) = (.path, "id") := by
  intro p method c m
  have hnames : (m.classes.map (·.name)).Nodup := by decide
  have hc : c ∈ m.classes := List.mem_singleton_self c
  have hmethod : c.method? entryName = some method := rfl
  have hp : method.params[0]? = some p := rfl
  obtain ⟨q, hq, -, -, hown⟩ := describe_bindings hnames hc hmethod "a" hp
  refine ⟨hnames, hc, hmethod, hp, q, hq, ?_⟩
  exact hown [] [.method (entryMethod true [⟨["FromBody"], []⟩])] rfl nofun (.inl nofun)

/-- A static method in front of the entry method binds a parameter that has no decorator. -/
theorem static_method_binds :
    let method := entryMethod false []
    let c := classOf [entryMethod true [⟨["FromBody"], []⟩], method]
    let m := Module.ofItems "a.ts" [.classDef c]
    parse "class A { static handle(@FromBody() x: string) {} handle(x: string) {} }" =
        .ok [.classDef c] ∧
      c.method? entryName = some method ∧
      (describe m c method "a").parameters.map (fun q => (q.source, q.key)) = [(.body, "x")] ∧
      method.params.map (fun p => boundBy p.decorators p.name) = [(.query, "x")] := by
  exact ⟨by rfl, rfl, by decide +kernel, by decide +kernel⟩

end Handler

end HandlerWeave
