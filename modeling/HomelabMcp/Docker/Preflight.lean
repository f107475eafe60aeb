import HomelabMcp.Docker.ComposeFile

/-!
# The preflight of a compose change (composePreflight.ts)

What the services of a file claim, the namespaces they share, and the hazards that are
reported of them. The probes of the guest are read elsewhere; here their result is an
argument.

`analyzeCompose` is split at the claims: `analyzeClaims` is what comes after them.
-/

namespace HomelabMcp.Docker

open SlashPath Text KeyedList SortKey

/-- `list.join(sep)`. -/
def joinOn (sep : Str) (l : List Str) : Str :=
  sep.intercalate l

/-! ## Ports -/

inductive PortSource
  | ports
  | expose
  | envHint
  deriving DecidableEq, Repr

def PortSource.text : PortSource → Str
  | .ports => "ports".toList
  | .expose => "expose".toList
  | .envHint => "env-hint".toList

/-- composePreflight.ts:40. -/
structure PortClaim where
  service : Str
  port : Nat
  source : PortSource
  raw : Str
  deriving DecidableEq

/-- composePreflight.ts:99. -/
def portEnvHints : List Str :=
  ["PORT".toList, "WEBUI_PORT".toList, "WEB_PORT".toList, "UI_PORT".toList, "HTTP_PORT".toList,
    "HTTPS_PORT".toList, "SERVER_PORT".toList, "LISTEN_PORT".toList, "HTTP_PROXY_PORT".toList,
    "HTTPS_PROXY_PORT".toList]

/-- The port that a trimmed text is the decimal numeral of. -/
def portNumber (t : Str) : Option Nat :=
  let n := Nat.ofDigitChars 10 (t.takeWhile Char.isDigit) 0
  if 0 < n ∧ n ≤ 65535 ∧ numeral n = t then some n else none

/-- composePreflight.ts:219. -/
def containerPortOf (spec : Str) : Option Nat :=
  let noProto := (List.splitOn '/' spec).headD []
  let target := (List.splitOn ':' noProto).getLastD []
  if '-' ∈ target then none else portNumber (trim target)

/-- composePreflight.ts:228. -/
def portFromScalar (raw : Str) : Option Nat :=
  let noProto := trim ((List.splitOn '/' raw).headD [])
  if '-' ∈ noProto then none else portNumber noProto

def portsClaim (svc : ComposeService) (p : Str) : Option PortClaim :=
  (containerPortOf p).map fun port => ⟨svc.name, port, .ports, p⟩

def exposeClaim (svc : ComposeService) (e : Str) : Option PortClaim :=
  (portFromScalar e).map fun port => ⟨svc.name, port, .expose, e⟩

def hintClaim (svc : ComposeService) (hint : Str) : Option PortClaim :=
  match (lookup Prod.fst hint svc.environment).map Prod.snd with
  | some v => (portFromScalar v).map fun port => ⟨svc.name, port, .envHint, hint ++ '=' :: v⟩
  | none => none

/-- composePreflight.ts:236. -/
def extractPortClaims (svc : ComposeService) : List PortClaim :=
  svc.ports.filterMap (portsClaim svc) ++ svc.expose.filterMap (exposeClaim svc) ++
    portEnvHints.filterMap (hintClaim svc)

/-! ## Hazards -/

inductive HazardKind
  | portCollision
  | dependentPublishes
  | netnsRecreate
  | portBoundElsewhere
  deriving DecidableEq, Repr

inductive HazardSeverity
  | error
  | warn
  | info
  deriving DecidableEq, Repr

/-- composePreflight.ts:61. -/
structure Hazard where
  kind : HazardKind
  severity : HazardSeverity
  services : List Str
  port : Option Nat
  detail : Str
  recommendation : Str
  deriving DecidableEq

/-- The service of a name; the last one counts. -/
def serviceNamed (model : ComposeModel) (name : Str) : Option ComposeService :=
  model.reverse.find? fun s => s.name == name

/-! ### Collisions -/

/-- Docker ignores the ports of a dependent. -/
def dependentPublishes (g : NetnsGroup) (dep : Str) : Hazard where
  kind := .dependentPublishes
  severity := .error
  services := [dep]
  port := none
  detail := dep ++ " declares ports: but attaches to ".toList ++ g.key ++
    "'s network namespace (network_mode). Published ports must live on the netns owner (".toList ++
    g.key ++ "); Docker ignores a dependent's ports:.".toList
  recommendation := "Move ".toList ++ dep ++ "'s published ports onto the ".toList ++ g.key ++
    " service definition.".toList

/-- The dependent publishes ports of its own. -/
def publishes (model : ComposeModel) (dep : Str) : Bool :=
  match serviceNamed model dep with
  | some svc => decide (svc.ports ≠ [])
  | none => false

def publishHazards (model : ComposeModel) (g : NetnsGroup) : List Hazard :=
  (g.dependents.filter (publishes model)).map (dependentPublishes g)

/-- What the members of a group claim, member by member. -/
def memberClaims (claims : List PortClaim) (g : NetnsGroup) : List PortClaim :=
  g.members.flatMap fun member => claims.filter fun c => c.service == member

/-- The claims of a group for one port. -/
def portClaims (claims : List PortClaim) (g : NetnsGroup) (port : Nat) : List PortClaim :=
  (memberClaims claims g).filter fun c => c.port == port

/-- The services that claim a port in a group. -/
def claimants (claims : List PortClaim) (g : NetnsGroup) (port : Nat) : List Str :=
  ((portClaims claims g port).map fun c => c.service).eraseDups

def anyEnvHint (list : List PortClaim) : Bool :=
  list.any fun c => c.source == .envHint

def portCollision (claims : List PortClaim) (g : NetnsGroup) (port : Nat) : Hazard :=
  let list := portClaims claims g port
  let services := claimants claims g port
  { kind := .portCollision
    severity := if anyEnvHint list then .warn else .error
    services := services
    port := some port
    detail := "internal port ".toList ++ numeral port ++ " is claimed by ".toList ++
      joinOn " and ".toList services ++ " inside ".toList ++ g.key ++
      "'s shared network namespace (".toList ++
      joinOn ", ".toList (list.map fun c => c.service ++ ':' :: c.source.text) ++ ").".toList ++
      (if anyEnvHint list then
        " (one or more claims derive from an env hint — lower confidence.)".toList else [])
    recommendation := "Assign a distinct internal port to one of: ".toList ++
      joinOn ", ".toList services ++ ['.'] }

def collisionHazards (claims : List PortClaim) (g : NetnsGroup) : List Hazard :=
  if g.members.length < 2 then []
  else (((memberClaims claims g).map fun c => c.port).eraseDups.filter fun port =>
    decide (2 ≤ (claimants claims g port).length)).map (portCollision claims g)

/-- composePreflight.ts:311. -/
def detectPortCollisions (groups : List NetnsGroup) (claims : List PortClaim)
    (model : ComposeModel) : List Hazard :=
  groups.flatMap (publishHazards model) ++ groups.flatMap (collisionHazards claims)

/-! ### Recreates -/

/-- composePreflight.ts:383. -/
def providersWithDependents (groups : List NetnsGroup) : List NetnsGroup :=
  groups.filter fun g => g.provider.isSome && decide (g.dependents ≠ [])

/-- composePreflight.ts:388. -/
def providerChanged (prev next : ComposeService) : Bool :=
  decide (prev.image ≠ next.image) || decide (prev.networkMode ≠ next.networkMode) ||
    decide (joinOn [','] prev.ports ≠ joinOn [','] next.ports) ||
    decide (joinOn [','] prev.expose ≠ joinOn [','] next.expose) ||
    -- The text of an object of strings tells its properties and their order.
    decide (prev.environment ≠ next.environment) ||
    decide (joinOn [','] (sortOn codeUnits prev.rawKeys) ≠
      joinOn [','] (sortOn codeUnits next.rawKeys))

/-- A provider that is new, gone or has a changed definition forces a recreate. -/
def providerTouched (next prev : ComposeModel) (provider : Str) : Bool :=
  match serviceNamed prev provider, serviceNamed next provider with
  | some before, some after => providerChanged before after
  | _, _ => true

def recreateError (g : NetnsGroup) (provider : Str) : Hazard where
  kind := .netnsRecreate
  severity := .error
  services := provider :: g.dependents
  port := none
  detail := "the netns provider ".toList ++ provider ++
    " changed; recreating it will wedge while its ".toList ++ numeral g.dependents.length ++
    " dependent(s) (".toList ++ joinOn ", ".toList g.dependents ++
    ") are attached — an in-place \x60up -d\x60 deadlocks (HTTP 500).".toList
  recommendation := ("Do a full \x60down\x60 then \x60up\x60 (or stop the dependents first): " ++
    "\x60compose_redeploy\x60 (up -d) alone will not suffice.").toList

def recreateReminder (g : NetnsGroup) (provider : Str) : Hazard where
  kind := .netnsRecreate
  severity := .info
  services := provider :: g.dependents
  port := none
  detail := provider ++ " is a netns provider with ".toList ++ numeral g.dependents.length ++
    " dependent(s) (".toList ++ joinOn ", ".toList g.dependents ++ "). Any change to ".toList ++
    provider ++ ("'s definition forces a recreate that wedges while dependents are attached. " ++
      "(No previous version supplied, so this is a reminder, not a detected change.)").toList
  recommendation := "If this deploy edits ".toList ++ provider ++
    ", do a full \x60down\x60/\x60up\x60 rather than an in-place \x60up -d\x60.".toList

def recreateHazard (next : ComposeModel) (prev : Option ComposeModel) (g : NetnsGroup) :
    Option Hazard :=
  match g.provider, prev with
  | none, _ => none
  | some provider, some before =>
    if providerTouched next before provider then some (recreateError g provider) else none
  | some provider, none => some (recreateReminder g provider)

/-- composePreflight.ts:399. -/
def detectNetnsRecreate (next : ComposeModel) (prev : Option ComposeModel) : List Hazard :=
  (providersWithDependents (groupByNetns next)).filterMap (recreateHazard next prev)

/-! ### Bound ports -/

/-- composePreflight.ts:70. -/
structure BoundPort where
  port : Nat
  holder : Option Str := none
  container : Option Str := none
  project : Option Str := none
  deriving DecidableEq

/-- composePreflight.ts:443. -/
structure BoundPortAttribution where
  ownProjects : List Str := []
  netnsAllOwn : Bool := false

/-- A string that counts as true. -/
def named (s : Option Str) : Option Str :=
  s.filter fun t => decide (t ≠ [])

def heldByOwnProject (attribution : BoundPortAttribution) (b : BoundPort) : Bool :=
  b.container.isSome && b.project.any fun p => attribution.ownProjects.contains p

/-- Who holds a port, as far as it is known. -/
def holderOf (b : BoundPort) : Option Str :=
  match named b.container with
  | some c => some (c ++ ((named b.project).map fun p =>
      " (project ".toList ++ p ++ [')']).getD [])
  | none => b.holder

def isOwnInstance (attribution : BoundPortAttribution) (b : BoundPort) : Bool :=
  heldByOwnProject attribution b || (b.container.isNone && attribution.netnsAllOwn)

def boundElsewhere (attribution : BoundPortAttribution) (c : PortClaim) (b : BoundPort) : Hazard :=
  if isOwnInstance attribution b then
    { kind := .portBoundElsewhere
      severity := .info
      services := [c.service]
      port := some c.port
      detail :=
        if heldByOwnProject attribution b then
          "port ".toList ++ numeral c.port ++ " is held by ".toList ++ b.container.getD [] ++
            " of this same project (".toList ++ b.project.getD [] ++
            ") — its running instance, which a redeploy replaces.".toList
        else "port ".toList ++ numeral c.port ++
          (" is bound in the stack's shared network namespace, whose running members all " ++
            "belong to this project — its running instance.").toList
      recommendation := "None needed for a redeploy of this stack.".toList }
  else
    { kind := .portBoundElsewhere
      severity := if (named (holderOf b)).isSome then .error else .warn
      services := [c.service]
      port := some c.port
      detail := c.service ++ " wants internal port ".toList ++ numeral c.port ++
        ", but it is already bound in the guest".toList ++
        ((named (holderOf b)).map fun who => " by ".toList ++ who).getD
          " (holder unknown — possibly your own running instance)".toList ++
        " — the deploy may fail to bind (the 500 you'd otherwise debug by hand).".toList
      recommendation := "Pick a free internal port for ".toList ++ c.service ++
        " (current binding holder: ".toList ++ (holderOf b).getD "unknown".toList ++ ").".toList }

/-- What is bound to the port of a claim, unless a service of the file holds it. -/
def foreignBinding (bound : List BoundPort) (ownNames : List Str) (c : PortClaim) :
    Option BoundPort :=
  match bound.find? fun b => b.port == c.port with
  | none => none
  | some b => if (named b.holder).any fun h => ownNames.contains h then none else some b

/-- The claims in turn; a port is reported once. -/
def crossCheck (bound : List BoundPort) (ownNames : List Str) (attribution : BoundPortAttribution) :
    List Nat → List PortClaim → List Hazard
  | _, [] => []
  | seen, c :: claims =>
    match foreignBinding bound ownNames c with
    | none => crossCheck bound ownNames attribution seen claims
    | some b =>
      if c.port ∈ seen then crossCheck bound ownNames attribution seen claims
      else boundElsewhere attribution c b ::
        crossCheck bound ownNames attribution (c.port :: seen) claims

/-- composePreflight.ts:459. -/
def crossCheckBoundPorts (claims : List PortClaim) (bound : List BoundPort) (ownNames : List Str)
    (attribution : BoundPortAttribution) : List Hazard :=
  crossCheck bound ownNames attribution [] claims

/-! ## The report -/

/-- composePreflight.ts:632. -/
structure AnalyzeOptions extends BoundPortAttribution where
  prev : Option ComposeModel := none
  bound : Option (List BoundPort) := none
  boundPortsChecked : Bool := false

/-- composePreflight.ts:80. -/
structure PreflightReport where
  ok : Bool
  provider : Option Str
  services : List Str
  netnsGroups : List NetnsGroup
  hazards : List Hazard
  boundPortsChecked : Bool

/-- What is bound, when it was looked at. -/
def AnalyzeOptions.checked (opts : AnalyzeOptions) : Option (List BoundPort) :=
  if opts.boundPortsChecked then opts.bound else none

def boundHazards (next : ComposeModel) (claims : List PortClaim) (opts : AnalyzeOptions) :
    List Hazard :=
  match opts.checked with
  | some bound =>
    crossCheckBoundPorts claims bound (next.map fun s => s.name) opts.toBoundPortAttribution
  | none => []

/-- The hazards, from the claims on. -/
def hazardsOf (next : ComposeModel) (claims : List PortClaim) (opts : AnalyzeOptions) :
    List Hazard :=
  detectPortCollisions (groupByNetns next) claims next ++ detectNetnsRecreate next opts.prev ++
    boundHazards next claims opts

/-- `analyzeCompose`, from the claims on. -/
def analyzeClaims (next : ComposeModel) (claims : List PortClaim) (opts : AnalyzeOptions) :
    PreflightReport :=
  let groups := groupByNetns next
  let hazards := hazardsOf next claims opts
  -- A stable sort: of the groups with the most dependents the first counts.
  let providerGroups := (providersWithDependents groups).mergeSort fun a b =>
    decide (b.dependents.length ≤ a.dependents.length)
  { ok := !hazards.any fun h => h.severity == .error
    provider := providerGroups.head?.bind fun g => g.provider
    services := next.map fun s => s.name
    netnsGroups := groups
    hazards := hazards
    boundPortsChecked := opts.checked.isSome }

/-- composePreflight.ts:639. -/
def analyzeCompose (next : ComposeModel) (opts : AnalyzeOptions) : PreflightReport :=
  analyzeClaims next (next.flatMap extractPortClaims) opts

end HomelabMcp.Docker
