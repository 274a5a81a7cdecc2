/-!
The named types met so far, in the order they were first asked for.
-/
namespace HandlerWeave.Types

inductive Status
  /-- Asked for; the text is not known yet. -/
  | pending
  | rendered
  /-- Not found in the project: written as it stands, without a file of its own. -/
  | external
deriving DecidableEq, Repr

structure Definition where
  name : String
  status : Status := .pending
  /-- The text of the declaration. -/
  text : String := ""
  /-- The types that the declaration names, each once. -/
  references : List String := []
  /-- The path of the module that declares it. -/
  origin : Option String := none
  /-- How often the name was looked for in vain. A search adds one at most, so a run with fewer than
  `2 ^ 32` references stays below the wrap of a count in 32 bits. -/
  failures : Nat := 0
deriving DecidableEq, Repr

structure Table where
  entries : List Definition := []
deriving DecidableEq, Repr

namespace Table

def get? (t : Table) (name : String) : Option Definition := t.entries.find? (·.name == name)

def status? (t : Table) (name : String) : Option Status := (t.get? name).map (·.status)

def hasText (t : Table) (name : String) : Bool := t.status? name == some .rendered

def update (t : Table) (name : String) (f : Definition → Definition) : Table :=
  ⟨t.entries.map fun d => if d.name = name then f d else d⟩

/-- Whether a name has to be resolved now: it is new, or was not found before. -/
def wanted (t : Table) (name : String) : Bool :=
  match t.status? name with
  | none | some .external => true
  | some .pending | some .rendered => false

def start (t : Table) (name : String) : Table :=
  match t.status? name with
  | none => ⟨t.entries ++ [{ name }]⟩
  | some .external => t.update name fun d => { d with status := .pending }
  | some _ => t

def settle (t : Table) (name text : String) (references : List String) (origin : String) : Table :=
  t.update name fun d =>
    { d with status := .rendered, text, references, origin := some origin }

def leaveOut (t : Table) (name : String) : Table :=
  t.update name fun d =>
    { d with status := .external, text := name, failures := d.failures + 1 }

/-- Whether marking the name external now would be the first time. -/
def neverFailed (t : Table) (name : String) : Bool := (t.get? name).any (·.failures == 0)

def rendered (t : Table) : List Definition := t.entries.filter (·.status == .rendered)

end Table

end HandlerWeave.Types
