import HomelabMcp.Docker.Containers

/-!
# The health gate (dockerUpdate.ts)

Samples of one container over time, and the verdict on those taken so far.

- `evaluateHealthPoll_pass`: a pass is never given on an exited or restarted container.
-/

namespace HomelabMcp.Docker

open SlashPath Text

structure HealthSample where
  /-- Milliseconds since the gate started. -/
  t : Int
  status : Str
  health : Str
  restartCount : Int
  restarting : Bool
  imageId : Str
  deriving DecidableEq

/-- `parseInt(s, 10) || 0`. -/
def parseIntOrZero (s : Str) : Int :=
  match s with
  | '-' :: rest => -(parseInt rest : Int)
  | '+' :: rest => parseInt rest
  | _ => parseInt s

/-- dockerUpdate.ts:765. -/
def parseHealthSample (output : Str) (t : Int) : Option HealthSample :=
  let f := List.splitOn tab (trim output)
  if f.length < 5 then none
  else
    let health := clean f[1]?
    some { t, status := clean f[0]?, health := if health = [] then "none".toList else health
           restartCount := parseIntOrZero (clean f[2]?)
           restarting := clean f[3]? == "true".toList, imageId := clean f[4]? }

inductive HealthState
  | pass
  | fail
  | pending
  deriving DecidableEq, Repr

inductive HealthMode
  | healthcheck
  | stability
  deriving DecidableEq, Repr

def HealthMode.text : HealthMode → Str
  | .healthcheck => "healthcheck".toList
  | .stability => "stability".toList

structure HealthVerdict where
  state : HealthState
  mode : HealthMode
  detail : Str
  deriving DecidableEq

def isUp (s : HealthSample) : Bool :=
  s.status == "running".toList && !s.restarting

/-- Since when the container has been up without a break. -/
def upSince (samples : List HealthSample) : Option Int :=
  samples.foldl (fun since s => if isUp s then some (since.getD s.t) else none) none

def hasExited (s : HealthSample) : Bool :=
  s.status == "exited".toList || s.status == "dead".toList

/-- `Math.round(ms / 1000)`. -/
def roundedSeconds (ms : Int) : Int :=
  (ms + 500) / 1000

/-- dockerUpdate.ts:787. -/
def evaluateHealthPoll (samples : List HealthSample) (stableMs : Int) : HealthVerdict :=
  match samples.head?, samples.getLast? with
  | some first, some last =>
    let mode :=
      if samples.any fun s => s.health != "none".toList then .healthcheck else .stability
    if samples.any hasExited then
      ⟨.fail, mode, "container ".toList ++
        if last.status = "running".toList then "exited during the window".toList else last.status⟩
    else if first.restartCount < last.restartCount then
      ⟨.fail, mode, "restart count rose ".toList ++ signedNumeral first.restartCount ++
        " → ".toList ++ signedNumeral last.restartCount ++ " (crash loop)".toList⟩
    else
      match mode with
      | .healthcheck =>
        if last.health = "healthy".toList then
          ⟨.pass, mode, "HEALTHCHECK reports healthy".toList⟩
        else if last.health = "unhealthy".toList then
          ⟨.fail, mode, "HEALTHCHECK reports unhealthy".toList⟩
        else ⟨.pending, mode, "HEALTHCHECK ".toList ++ last.health⟩
      | .stability =>
        match upSince samples with
        | some since =>
          if stableMs ≤ last.t - since then
            ⟨.pass, mode, "running and stable for ".toList ++
              signedNumeral (roundedSeconds (last.t - since)) ++ ['s']⟩
          else ⟨.pending, mode, last.status ++
            if last.restarting then " (restarting)".toList else []⟩
        | none => ⟨.pending, mode, last.status ++
            if last.restarting then " (restarting)".toList else []⟩
  | _, _ => ⟨.pending, .stability, "no samples yet".toList⟩

/-- A container that exited in the window, or whose restart count rose, does not pass. -/
theorem evaluateHealthPoll_pass {samples : List HealthSample} {stableMs : Int}
    (h : (evaluateHealthPoll samples stableMs).state = .pass) :
    (∀ s ∈ samples, hasExited s = false) ∧ ∃ first last, samples.head? = some first ∧
      samples.getLast? = some last ∧ last.restartCount ≤ first.restartCount := by
  unfold evaluateHealthPoll at h
  cases hfirst : samples.head? with
  | none =>
    rw [hfirst] at h
    cases h
  | some first =>
    cases hlast : samples.getLast? with
    | none =>
      rw [hfirst, hlast] at h
      cases h
    | some last =>
      rw [hfirst, hlast] at h
      dsimp only at h
      by_cases hexited : samples.any hasExited = true
      · rw [if_pos hexited] at h
        cases h
      rw [if_neg hexited] at h
      by_cases hrose : first.restartCount < last.restartCount
      · rw [if_pos hrose] at h
        cases h
      refine ⟨fun s hs => ?_, first, last, rfl, rfl, not_lt.mp hrose⟩
      rw [List.any_eq_true, not_exists] at hexited
      exact Bool.eq_false_iff.mpr fun hs' => hexited s ⟨hs, hs'⟩

end HomelabMcp.Docker
