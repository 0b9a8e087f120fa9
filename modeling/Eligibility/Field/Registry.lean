import Eligibility.Distinct
import Eligibility.Field.Mapping

/-!
# The field registry

A registry answers queries about the fields of a scope from a cache in front of a source. A scope
is loaded when it has no entry or its entry has expired; a failed load changes nothing but the
count of loads. A clock tells times below a horizon only: where a sum of times lies beyond it, the
step that needs it breaks off, without an answer and with what it has not changed by then.

* `FieldSource`, `RegistryError`: the definitions that can be loaded, or why they cannot;
* `sortFields`, `groupFields`: the order of fields and their groups by category;
* `Registry`, `Registry.after?`: a registry and its clock;
* **`Registry.fields`**: the fields of a scope, through the cache;
* `Query`, `Answer`, `Registry.query`; `Step`, **`Registry.step`**.
-/

namespace Eligibility

/-! ## Sources -/

/-- Why definitions cannot be loaded. -/
inductive RegistryError where
  | unavailable (reason : String)
  | invalidRecord (scope reason : String)
  deriving DecidableEq, Repr

def RegistryError.message : RegistryError → String
  | unavailable reason => s!"field source unavailable: {reason}"
  | invalidRecord scope reason => s!"invalid field record for scope '{scope}': {reason}"

/-- Where definitions are loaded from. -/
structure FieldSource where
  definitions : List FieldDefinition
  /-- Set while the source cannot be read. -/
  failure : Option RegistryError := none

/-- The definitions of a scope. -/
def FieldSource.load (s : FieldSource) (scope : String) :
    Except RegistryError (List FieldDefinition) :=
  match s.failure with
  | some e => .error e
  | none => .ok (s.definitions.filter (·.scope = scope))

/-! ## Order and groups -/

/-- The order of fields: by category, then by display order. -/
def FieldDefinition.precedes (a b : FieldDefinition) : Bool :=
  a.category < b.category || (a.category = b.category && a.displayOrder ≤ b.displayOrder)

/-- The fields in order; fields that neither precede the other keep their places. -/
def sortFields (ds : List FieldDefinition) : List FieldDefinition :=
  ds.mergeSort FieldDefinition.precedes

/-- The fields of each category, categories in order of first appearance. -/
def groupFields (ds : List FieldDefinition) : List (String × List FieldDefinition) :=
  (distinct (ds.map (·.category))).map fun c => (c, ds.filter (·.category = c))

/-! ## The cache -/

/-- Loaded fields, and the time from which they no longer count. -/
structure CacheEntry where
  fields : List FieldDefinition
  expires : Nat

/-- A cache of the fields of each scope in front of a source. -/
structure Registry where
  source : FieldSource
  /-- How long an entry counts, in milliseconds. -/
  ttl : Nat := 60000
  now : Nat := 0
  /-- The first time that the clock cannot tell, as it counts seconds in 64 bits with a sign. -/
  horizon : Nat := 2 ^ 63 * 1000
  cache : Std.TreeMap String CacheEntry := ∅
  /-- How often the source has been asked. -/
  loads : Nat := 0

namespace Registry

/-- The time after a while, if the clock can tell it. -/
def after? (r : Registry) (time : Nat) : Option Nat :=
  if r.now + time < r.horizon then some (r.now + time) else none

theorem after?_eq_some {r : Registry} {time t : Nat} :
    r.after? time = some t ↔ r.now + time < r.horizon ∧ r.now + time = t := by
  simp [after?]

theorem after?_eq_none {r : Registry} {time : Nat} :
    r.after? time = none ↔ r.horizon ≤ r.now + time := by
  simp [after?]

/-- The entry of a scope, if it still counts. -/
def live? (r : Registry) (scope : String) : Option (List FieldDefinition) :=
  r.cache[scope]?.bind fun e => if r.now < e.expires then some e.fields else none

/-- The fields of a scope, from the cache or else from the source. There is no outcome where the
time at which the loaded fields expire cannot be told. -/
def fields (r : Registry) (scope : String) :
    Option (Except RegistryError (List FieldDefinition)) × Registry :=
  match r.live? scope with
  | some ds => (some (.ok ds), r)
  | none =>
    let r := { r with loads := r.loads + 1 }
    match r.source.load scope with
    | .error e => (some (.error e), r)
    | .ok ds =>
      match r.after? r.ttl with
      | none => (none, r)
      | some expires =>
        let ds := sortFields ds
        (some (.ok ds), { r with cache := r.cache.insert scope ⟨ds, expires⟩ })

end Registry

/-! ## Queries -/

/-- What is asked about the fields of a scope. -/
inductive Query where
  | fields
  | groups
  | field (id : String)
  | isField (id : String)
  | mapping (schema : Schema)

/-- What a query is answered with. -/
inductive Answer where
  | fields (ds : List FieldDefinition)
  | groups (gs : List (String × List FieldDefinition))
  | field (d : Option FieldDefinition)
  | isField (b : Bool)
  | mapping (m : Mapping)

/-- The first field with an id. -/
def findField (ds : List FieldDefinition) (id : String) : Option FieldDefinition :=
  ds.find? (·.id = id)

/-- The answer to a query about the fields of a scope. -/
def Query.answer (scope : String) (ds : List FieldDefinition) : Query → Answer
  | fields => .fields ds
  | groups => .groups (groupFields ds)
  | field id => .field (findField ds id)
  | isField id => .isField (findField ds id).isSome
  | mapping schema => .mapping (.ofDefinitions scope schema ds)

/-- The outcome of a query about a scope. -/
def Registry.query (r : Registry) (scope : String) (q : Query) :
    Option (Except RegistryError Answer) × Registry :=
  let (outcome, r) := r.fields scope
  (outcome.map fun ds => ds.map fun ds => q.answer scope ds, r)

/-! ## Steps -/

/-- What happens to a registry. -/
inductive Step where
  /-- Time goes by. -/
  | advance (time : Nat)
  /-- The source gets other definitions. -/
  | replace (ds : List FieldDefinition)
  /-- The source fails from now on. -/
  | fail (e : RegistryError)
  /-- The source works again. -/
  | recover
  /-- The cache is emptied. -/
  | clear
  | query (scope : String) (q : Query)

/-- The registry after a step, and the outcome where the step is a query that does not break off.
Time that cannot be told does not go by. -/
def Registry.step (r : Registry) : Step → Option (Except RegistryError Answer) × Registry
  | .advance time => (none, { r with now := (r.after? time).getD r.now })
  | .replace ds => (none, { r with source := { r.source with definitions := ds } })
  | .fail e => (none, { r with source := { r.source with failure := some e } })
  | .recover => (none, { r with source := { r.source with failure := none } })
  | .clear => (none, { r with cache := ∅ })
  | .query scope q => r.query scope q

end Eligibility
