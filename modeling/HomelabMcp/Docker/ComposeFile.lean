import HomelabMcp.Lib.Json
import HomelabMcp.Lib.KeyedList
import HomelabMcp.Lib.SortKey

/-!
# Compose files (composePreflight.ts)

`parseCompose` reads the services of a file from what the YAML library makes of its
text; that library is a parameter.

- `parseCompose_names_nodup`: no two services of a file have one name.
-/

namespace HomelabMcp.Docker

open SlashPath Text KeyedList SortKey

/-- composePreflight.ts:21. The environment is in the order of its properties. -/
structure ComposeService where
  name : Str
  image : Option Str
  networkMode : Option Str
  ports : List Str
  expose : List Str
  environment : List (Str × Str)
  rawKeys : List Str
  deriving DecidableEq

abbrev ComposeModel := List ComposeService

/-! ## Values -/

/-- The member of an object, when it is a string. -/
def stringMember (name : Str) (v : Json) : Option Str :=
  match v.get? name with
  | some (.str s) => some s
  | _ => none

/-- The keys of an object; a key that is repeated counts once. -/
def keysOf : Json → List Str
  | .obj members => (members.map Prod.fst).eraseDups
  | _ => []

/-- `Object.keys(value)`, as a set; an array has its indices. -/
def ownKeys : Json → List Str
  | .arr elements => (List.range elements.length).map numeral
  | v => keysOf v

/-- The number that a property name is the decimal numeral of, when it is an array index. -/
def arrayIndex (name : Str) : Option Nat :=
  let n := Nat.ofDigitChars 10 name 0
  if numeral n = name ∧ n < 2 ^ 32 - 1 then some n else none

/-- The order in which an object has its properties: array indices come first. -/
def ownOrder (properties : List (Str × Str)) : List (Str × Str) :=
  sortOn (fun m => (arrayIndex m.1).toList) (properties.filter fun m => (arrayIndex m.1).isSome) ++
    properties.filter fun m => (arrayIndex m.1).isNone

/-- `out[name] = value`, for a string; the property `__proto__` does not take one. -/
def assign (out : List (Str × Str)) (name value : Str) : List (Str × Str) :=
  if name = "__proto__".toList then out else upsert Prod.fst (name, value) out

mutual

/-- `String(value)`. -/
def stringOf : Json → Str
  | .null => "null".toList
  | .bool true => "true".toList
  | .bool false => "false".toList
  | .num literal => literal
  | .str s => s
  | .arr elements => [','].intercalate (elementTexts elements)
  | .obj _ => "[object Object]".toList

def elementTexts : List Json → List Str
  | [] => []
  | .null :: l => [] :: elementTexts l
  | v :: l => stringOf v :: elementTexts l

end

/-- One entry of `ports:` (composePreflight.ts:168). -/
def normalizePort : Json → Option Str
  | .str s => some s
  | .num literal => some literal
  | .obj members =>
    let e := Json.obj members
    let target := ((e.get? "target".toList).map stringOf).getD []
    let published := ((e.get? "published".toList).map stringOf).getD []
    let proto := ((stringMember "protocol".toList e).map fun p => '/' :: p).getD []
    if published ≠ [] ∧ target ≠ [] then some (published ++ ':' :: (target ++ proto))
    else if target ≠ [] then some (target ++ proto)
    else none
  | _ => none

/-- composePreflight.ts:165. -/
def normalizePorts : Option Json → List Str
  | some (.arr entries) => entries.filterMap normalizePort
  | _ => []

def normalizeExposed : Json → Option Str
  | .str s => some s
  | .num literal => some literal
  | _ => none

/-- composePreflight.ts:184. -/
def normalizeExpose : Option Json → List Str
  | some (.arr entries) => entries.filterMap normalizeExposed
  | _ => []

/-- One line of `environment:`, written as `K=V`. -/
def assignEntry (out : List (Str × Str)) : Json → List (Str × Str)
  | .str entry =>
    assign out (entry.takeWhile (· ≠ '=')) ((entry.dropWhile (· ≠ '=')).drop 1)
  | _ => out

def assignMember (definition : Json) (out : List (Str × Str)) (name : Str) : List (Str × Str) :=
  match definition.get? name with
  | none | some .null => assign out name []
  | some v => assign out name (stringOf v)

/-- composePreflight.ts:190; an array is folded into a map. -/
def normalizeEnvironment : Option Json → List (Str × Str)
  | some (.arr entries) => ownOrder (entries.foldl assignEntry [])
  | some (.obj members) =>
    ownOrder ((keysOf (.obj members)).foldl (assignMember (.obj members)) [])
  | _ => []

/-- A service by its name and definition. -/
def toService (name : Str) (definition : Json) : ComposeService where
  name := name
  image := stringMember "image".toList definition
  networkMode := stringMember "network_mode".toList definition
  ports := normalizePorts (definition.get? "ports".toList)
  expose := normalizeExpose (definition.get? "expose".toList)
  environment := normalizeEnvironment (definition.get? "environment".toList)
  rawKeys := ownKeys definition

/-- composePreflight.ts:130; the error is the reason of a `ComposeParseError`. -/
def parseCompose (parseYaml : Str → Except Str Json) (text : Str) : Except Str ComposeModel :=
  match parseYaml text with
  | .error e => .error ("could not parse compose YAML: ".toList ++ e)
  | .ok (.arr _) => .ok []
  | .ok (.obj members) =>
    match (Json.obj members).get? "services".toList with
    | none | some .null => .ok []
    | some (.obj services) =>
      .ok ((keysOf (.obj services)).map fun name =>
        toService name (((Json.obj services).get? name).getD .null))
    | some _ => .error "\x60services\x60 must be a mapping of service name → definition".toList
  | .ok _ => .error "compose file is empty or not a mapping".toList

theorem nodup_eraseDups : ∀ l : List Str, l.eraseDups.Nodup
  | [] => List.nodup_nil
  | s :: l => by
    rw [List.eraseDups_cons, List.nodup_cons]
    refine ⟨fun hmem => ?_, nodup_eraseDups _⟩
    have hfilter := List.mem_filter.mp (List.mem_eraseDups.mp hmem)
    simp at hfilter
termination_by l => l.length
decreasing_by exact Nat.lt_succ_of_le (List.length_filter_le _ _)

/-- The services of a file are the members of one object. -/
theorem parseCompose_names_nodup {parseYaml : Str → Except Str Json} {text : Str}
    {model : ComposeModel} (h : parseCompose parseYaml text = .ok model) :
    (model.map fun s => s.name).Nodup := by
  have hnil : (([] : ComposeModel).map fun s => s.name).Nodup := List.nodup_nil
  unfold parseCompose at h
  split at h
  · cases h
  · cases h
    exact hnil
  · split at h
    · cases h
      exact hnil
    · cases h
      exact hnil
    · next services _ =>
      cases h
      rw [List.map_map]
      have hid : (fun s : ComposeService => s.name) ∘ (fun name : Str =>
          toService name (((Json.obj services).get? name).getD .null)) = id := rfl
      rw [hid, List.map_id]
      exact nodup_eraseDups _
    · cases h
  · cases h

/-! ## Network namespaces -/

structure NetnsGroup where
  key : Str
  provider : Option Str
  members : List Str
  dependents : List Str
  external : Bool
  deriving DecidableEq

/-- composePreflight.ts:260. -/
def netnsOwner (networkMode : Option Str) : Option Str :=
  match networkMode with
  | none => none
  | some mode =>
    let rest :=
      if "service:".toList.isPrefixOf mode then mode.drop 8
      else if "container:".toList.isPrefixOf mode then mode.drop 10
      else []
    if rest.any isLineTerminator ∨ trim rest = [] then none else some (trim rest)

/-- A service joins the group of its namespace (composePreflight.ts:293). -/
def joinGroup (names : List Str) (groups : List NetnsGroup) (svc : ComposeService) :
    List NetnsGroup :=
  let owner := netnsOwner svc.networkMode
  let key := owner.getD svc.name
  let g := (lookup NetnsGroup.key key groups).getD
    ⟨key, if key ∈ names then some key else none, [], [], decide (key ∉ names)⟩
  upsert NetnsGroup.key
    { g with
      members := if svc.name ∈ g.members then g.members else g.members ++ [svc.name]
      dependents := if owner = none then g.dependents else g.dependents ++ [svc.name] } groups

/-- A provider is a member of its own group. -/
def addProvider (names : List Str) (g : NetnsGroup) : NetnsGroup :=
  match g.provider with
  | some p => if p ∉ g.members ∧ p ∈ names then { g with members := p :: g.members } else g
  | none => g

/-- composePreflight.ts:272. -/
def groupByNetns (model : ComposeModel) : List NetnsGroup :=
  let names := model.map fun s => s.name
  (model.foldl (joinGroup names) []).map (addProvider names)

end HomelabMcp.Docker
