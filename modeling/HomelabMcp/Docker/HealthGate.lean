import HomelabMcp.Docker.ComposeUpdate

/-!
# What a health gate has seen (composeUpdate.ts)

The gate looks at the new container until a verdict is there or time is over, and the clock and
the daemon decide how often that is.

- `healthGate_passed`: whatever they answer, a gate that passes looked at no other container and
  found this one neither exited nor restarted.
-/

namespace HomelabMcp.Docker

open SlashPath Text Integrity Audit Program Tools

/-- A sample, whenever it was taken. -/
def HealthSample.untimed (s : HealthSample) : HealthSample :=
  { s with t := 0 }

theorem parseHealthSample_untimed (output : Str) (t : Int) :
    (parseHealthSample output t).map HealthSample.untimed = parseHealthSample output 0 := by
  unfold parseHealthSample
  dsimp only
  split
  · rfl
  · rfl

/-- The container has been looked at, never was exited or dead, and was not restarted from the
first look to the last. -/
def StayedUp (seen : List HealthSample) : Prop :=
  (∀ s ∈ seen, hasExited s = false) ∧ ∃ first last, seen.head? = some first ∧
    seen.getLast? = some last ∧ last.restartCount ≤ first.restartCount

theorem StayedUp.untimed {samples : List HealthSample} (h : StayedUp samples) :
    StayedUp (samples.map HealthSample.untimed) := by
  obtain ⟨hup, first, last, hfirst, hlast, hcount⟩ := h
  refine ⟨?_, first.untimed, last.untimed, ?_, ?_, hcount⟩
  · rintro s hs
    obtain ⟨sample, hsample, rfl⟩ := List.mem_map.mp hs
    exact hup sample hsample
  · rw [List.head?_map, hfirst]
    rfl
  · rw [List.getLast?_map, hlast]
    rfl

/-! ## Looks -/

/-- What an answered look shows. -/
def shownBy : Except Str ExecResult → Option HealthSample
  | .ok res => if res.exitCode = some 0 then parseHealthSample res.stdout 0 else none
  | .error _ => none

def seenNext (seen : List HealthSample) : (c : DockerCall) → DockerAnswer c → List HealthSample
  | .op (.healthSample _), answer => seen ++ (shownBy answer).toList
  | _, _ => seen

/-- The samples so far; no other container is looked at. -/
def gateMonitor (container : Str) : Monitor DockerCall DockerAnswer (List HealthSample) where
  next := seenNext
  allowed
    | _, .op (.healthSample other) => other = container
    | _, _ => True

section
variable {container : Str} {seen : List HealthSample}

theorem gate_ignores_clock : (gateMonitor container).Ignores False seen clock :=
  Monitor.ignores_ask trivial fun _ => rfl

theorem gate_ignores_runProbe {cfg : ComposeConfig} {probe : UpdateProbe} :
    (gateMonitor container).Ignores False seen (runProbe cfg probe) := by
  refine Monitor.Ignores.bind ?_ fun _ => Monitor.ignores_pure _
  exact meets_perform.mpr ⟨trivial, fun _ => ⟨rfl, nofun⟩, fun _ => ⟨rfl, nofun⟩⟩

theorem sampleHealth_seen (start : Int) :
    (gateMonitor container).Meets (fun seen' o => ∀ sample, o = .returned sample →
      seen' = seen ++ (sample.map HealthSample.untimed).toList) seen
      (sampleHealth container start) := by
  refine Monitor.meets_bind.mpr (meets_perform.mpr ⟨rfl, fun res => ?_, fun e => nofun⟩)
  refine Monitor.meets_ite.mpr ⟨fun hexit => ?_, fun hexit => ?_⟩
  · refine gate_ignores_clock.meets_bind (fun t => ?_) (fun _ => nofun) nofun
    rintro _ ⟨⟩
    rw [parseHealthSample_untimed]
    show seen ++ (if res.exitCode = some 0 then _ else none : Option HealthSample).toList = _
    rw [if_pos hexit]
  · rintro _ ⟨⟩
    show seen ++ (if res.exitCode = some 0 then _ else none : Option HealthSample).toList = _
    rw [if_neg hexit]
    rfl

/-- A verdict that is a pass is of samples that show the container up; one that comes too late
is none. -/
theorem pollHealth_seen {times : GateTimes} {expectImageId : Str} {start : Int} (fuel : Nat)
    (samples : List HealthSample) (verdict : HealthVerdict) (warnings : List Str)
    (hseen : seen = samples.map HealthSample.untimed)
    (hverdict : verdict.state = .pass → StayedUp seen) :
    (gateMonitor container).Meets (fun seen' o => ∀ v timedOut ws,
        o = .returned (v, timedOut, ws) → (v.state = .pass → StayedUp seen') ∧
          ∀ report, timedOut = some report → report.passed = false) seen
      (pollHealth times container expectImageId start fuel samples verdict warnings) := by
  induction fuel generalizing seen samples verdict warnings with
  | zero => exact nofun
  | succ fuel ih =>
    unfold pollHealth
    refine Monitor.meets_bind.mpr ((sampleHealth_seen start).mono fun seen' o h => ?_)
    cases o with
    | thrown e => exact nofun
    | unfinished => exact nofun
    | returned sample =>
      have hseen' : seen' = (samples ++ sample.toList).map HealthSample.untimed := by
        rw [h sample rfl, hseen, List.map_append]
        cases sample <;> rfl
      -- A look that shows nothing leaves the verdict as it was, and the samples too.
      have hup : (if sample.isSome then evaluateHealthPoll (samples ++ sample.toList) times.stableMs
          else verdict).state = .pass → StayedUp seen' := by
        intro hpass
        cases sample with
        | none =>
          rw [h none rfl]
          simpa using hverdict hpass
        | some s =>
          rw [hseen']
          exact StayedUp.untimed (evaluateHealthPoll_pass hpass)
      show (gateMonitor container).Meets _ seen' (if _ then _ else _)
      refine Monitor.meets_ite.mpr ⟨fun _ => ?_, fun hpending => ?_⟩
      · rintro _ _ _ ⟨⟩
        exact ⟨hup, nofun⟩
      · refine gate_ignores_clock.meets_bind (fun t => ?_) (fun _ => nofun) nofun
        refine Monitor.meets_ite.mpr ⟨fun _ => ?_, fun _ => ih _ _ _ hseen' hup⟩
        refine gate_ignores_clock.meets_bind (fun t' => ?_) (fun _ => nofun) nofun
        rintro _ _ _ ⟨⟩
        refine ⟨hup, ?_⟩
        rintro _ ⟨⟩
        rfl

theorem healthGate_seen {cfg : ComposeConfig} {input : ComposeUpdateInput} {fuel : Nat}
    {expectImageId : Str} {warnings : List Str} :
    (gateMonitor container).Meets (fun seen' o => ∀ report ws, o = .returned (report, ws) →
        report.passed = true → StayedUp seen') []
      (healthGate cfg input fuel container expectImageId warnings) := by
  have hfirst (times : GateTimes) :
      (evaluateHealthPoll [] times.stableMs).state = .pass → StayedUp [] := nofun
  unfold healthGate
  refine gate_ignores_clock.meets_bind (fun start => ?_) (fun _ => nofun) nofun
  refine Monitor.meets_bind.mpr ((pollHealth_seen fuel [] _ warnings rfl (hfirst _)).mono
    fun seen' o h => ?_)
  cases o with
  | thrown e => exact nofun
  | unfinished => exact nofun
  | returned polled =>
    obtain ⟨verdict, timedOut, ws⟩ := polled
    obtain ⟨hup, hlate⟩ := h _ _ _ rfl
    cases timedOut with
    | some report =>
      rintro _ _ ⟨⟩ hpassed
      rw [hlate report rfl] at hpassed
      cases hpassed
    | none =>
      dsimp only [Monitor.andThen]
      split
      · next probe hstate _ =>
        refine gate_ignores_runProbe.meets_bind (fun pr => ?_) (fun _ => nofun) nofun
        refine gate_ignores_clock.meets_bind (fun t => ?_) (fun _ => nofun) nofun
        refine Monitor.meets_ite.mpr ⟨fun _ => ?_, fun _ => ?_⟩
        · rintro _ _ ⟨⟩ hpassed
          cases hpassed
        · rintro _ _ ⟨⟩ -
          exact hup hstate
      · refine gate_ignores_clock.meets_bind (fun t => ?_) (fun _ => nofun) nofun
        rintro _ _ ⟨⟩ hpassed
        exact hup (of_decide_eq_true hpassed)

/-- The samples that the events of a run show. -/
def looked : Event DockerCall DockerAnswer → Option HealthSample
  | ⟨.op (.healthSample _), answer⟩ => shownBy answer
  | _ => none

theorem after_gateMonitor (events : List (Event DockerCall DockerAnswer)) :
    (gateMonitor container).after seen events = seen ++ events.filterMap looked := by
  induction events generalizing seen with
  | nil => exact (List.append_nil _).symm
  | cons e events ih =>
    have hnext : (gateMonitor container).next seen e.call e.answer = seen ++ (looked e).toList := by
      obtain ⟨call, answer⟩ := e
      cases call with
      | op cmd => cases cmd <;> simp [gateMonitor, seenNext, looked]
      | _ => simp [gateMonitor, seenNext, looked]
    rw [Monitor.after, List.foldl_cons, hnext]
    show (gateMonitor container).after _ events = _
    rw [ih, List.append_assoc, List.filterMap_cons]
    cases looked e <;> rfl

end

/-- However the daemon and the clock answer, a gate that passes has only looked at its
container, and what it saw of it stayed up. -/
theorem healthGate_passed (w : Nat → (c : DockerCall) → DockerAnswer c) {cfg : ComposeConfig}
    {input : ComposeUpdateInput} {fuel : Nat} {container expectImageId : Str}
    {warnings ws : List Str} {report : HealthReport}
    {events : List (Event DockerCall DockerAnswer)}
    (hrun : run w 0 (healthGate cfg input fuel container expectImageId warnings) =
      (events, .returned (report, ws))) (hpassed : report.passed = true) :
    StayedUp (events.filterMap looked) ∧
      ∀ e ∈ events, ∀ other, e.call = .op (.healthSample other) → other = container := by
  obtain ⟨hallows, hends⟩ := Monitor.Meets.run (M := gateMonitor container) healthGate_seen w 0
  rw [hrun] at hallows hends
  refine ⟨?_, fun e he other hcall => ?_⟩
  · have hup := hends report ws rfl hpassed
    rwa [after_gateMonitor, List.nil_append] at hup
  · obtain ⟨seen, hallowed⟩ := hallows.of_mem he
    rw [hcall] at hallowed
    exact hallowed

end HomelabMcp.Docker
