import Mathlib.Algebra.Order.Group.Int
import HomelabMcp.Audit.Record
import HomelabMcp.Backup.Names
import HomelabMcp.Lib.KeyedList
import HomelabMcp.Lib.SlidingWindow

/-!
# The rollback circuit breaker (ADR-021)

A map from target keys to the times of recent attempts. `check` records the
attempt, drops what has left the window and counts the rest; `peek` counts
without recording. `checkUnpruned` is the breaker with a memory that never
forgets.

- `trace_eq_unpruned`: with a clock that does not go back, forgetting changes no
  verdict.
- `rollbackBreaker_bounds`: what the breaker promises over a whole run.
-/

namespace HomelabMcp.Guardrails

open SlashPath SlidingWindow KeyedList Text Backup Audit

/-- Settings for the breaker (rollbackBreaker.ts:29). -/
structure RollbackBreakerConfig where
  enabled : Bool
  limit : Int
  windowMs : Int

/-- The verdict for one attempt, with the parameters for the audit row. -/
structure BreakerVerdict where
  tripped : Bool
  recentCount : Nat
  limit : Int
  windowMs : Int
  deriving DecidableEq

/-- rollbackBreaker.ts:48. -/
def evaluateRollbackBreaker (history : List Int) (now windowMs limit : Int) : Bool × Nat :=
  let cutoff := now - windowMs
  let recentCount : Nat := history.foldl (fun n t => if t ≥ cutoff then n + 1 else n) 0
  (decide ((recentCount : Int) ≥ limit), recentCount)

/-- The breaker's memory: a `Map<string, number[]>`. -/
abbrev History := List (Str × List Int)

/-- `history.get(key) ?? []`. -/
def History.times (key : Str) (h : History) : List Int :=
  ((lookup Prod.fst key h).map Prod.snd).getD []

/-- `history.set(key, times)`. -/
def History.set (key : Str) (times : List Int) (h : History) : History :=
  upsert Prod.fst (key, times) h

/-- What a disabled breaker answers. -/
def passThrough (cfg : RollbackBreakerConfig) : BreakerVerdict :=
  { tripped := false, recentCount := 0, limit := cfg.limit, windowMs := cfg.windowMs }

/-- rollbackBreaker.ts:129. -/
def peek (cfg : RollbackBreakerConfig) (key : Str) (now : Int) (h : History) : BreakerVerdict :=
  if cfg.enabled then
    let (_, recentCount) := evaluateRollbackBreaker (h.times key) now cfg.windowMs cfg.limit
    { tripped := decide ((recentCount : Int) ≥ cfg.limit), recentCount
      limit := cfg.limit, windowMs := cfg.windowMs }
  else passThrough cfg

/-- rollbackBreaker.ts:138. -/
def check (cfg : RollbackBreakerConfig) (key : Str) (now : Int) (h : History) :
    BreakerVerdict × History :=
  if cfg.enabled then
    let cutoff := now - cfg.windowMs
    -- This attempt counts toward the window.
    let pruned := (h.times key).filter (fun t => decide (t ≥ cutoff)) ++ [now]
    let (tripped, recentCount) := evaluateRollbackBreaker pruned now cfg.windowMs cfg.limit
    ({ tripped, recentCount, limit := cfg.limit, windowMs := cfg.windowMs }, h.set key pruned)
  else (passThrough cfg, h)

/-- The breaker that keeps every attempt it was ever asked about. -/
def checkUnpruned (cfg : RollbackBreakerConfig) (key : Str) (now : Int) (h : History) :
    BreakerVerdict × History :=
  if cfg.enabled then
    let full := h.times key ++ [now]
    let (tripped, recentCount) := evaluateRollbackBreaker full now cfg.windowMs cfg.limit
    ({ tripped, recentCount, limit := cfg.limit, windowMs := cfg.windowMs }, h.set key full)
  else (passThrough cfg, h)

/-! ## Keys and refusals -/

/-- What can be rolled back: a file, a guest, a compose service. -/
inductive RollbackTarget
  | file (target : BackupTarget)
  | guest (vmid : Nat)
  | compose (vmid : Nat) (service : Str)
  deriving DecidableEq

/-- rollbackBreaker.ts:65. -/
def rollbackTargetKey : RollbackTarget → Str
  | .file t =>
    match t.kind with
    | .host => "host/".toList ++ t.remotePath
    | .pct => "pct/".toList ++ vmidText t.vmid ++ '/' :: t.remotePath
    | .qm => "qm:".toList ++ vmidText t.vmid ++ ':' :: t.remotePath
    | .docker =>
      "docker:".toList ++ vmidText t.vmid ++
        ':' :: (t.container.getD "undefined".toList ++ ':' :: t.remotePath)
  | .guest vmid => "guest/".toList ++ numeral vmid
  | .compose vmid service => "compose/".toList ++ numeral vmid ++ '/' :: service

/-- rollbackBreaker.ts:91: the message, and the fields of the audit row. -/
def breakerRefusal (key : Str) (verdict : BreakerVerdict) : Str × BreakerFields :=
  -- `Math.round` rounds half up.
  let mins := max 1 ((verdict.windowMs + 30000) / 60000)
  ("Rollback circuit breaker tripped for ".toList ++ key ++ ": ".toList ++
      numeral verdict.recentCount ++ " rollbacks within ".toList ++ signedNumeral mins ++
      " min (limit ".toList ++ signedNumeral verdict.limit ++
      ("). Stop and hand back to a human, wait for the window to clear, or re-issue with " ++
        "overrideCircuitBreaker: true.").toList,
    ⟨verdict.recentCount, verdict.limit, verdict.windowMs⟩)

/-! ## Runs -/

inductive Call
  | check (key : Str) (now : Int)
  | peek (key : Str) (now : Int)
  deriving DecidableEq

def Call.key : Call → Str
  | .check key _ => key
  | .peek key _ => key

def Call.now : Call → Int
  | .check _ now => now
  | .peek _ now => now

/-- One call of the breaker. -/
def step (cfg : RollbackBreakerConfig) (c : Call) (h : History) : BreakerVerdict × History :=
  match c with
  | .check key now => check cfg key now h
  | .peek key now => (peek cfg key now h, h)

/-- One call of the breaker that forgets nothing. -/
def stepUnpruned (cfg : RollbackBreakerConfig) (c : Call) (h : History) :
    BreakerVerdict × History :=
  match c with
  | .check key now => checkUnpruned cfg key now h
  | .peek key now => (peek cfg key now h, h)

/-- The verdicts of a run, each with its call. -/
def trace (next : Call → History → BreakerVerdict × History) :
    History → List Call → List (Call × BreakerVerdict)
  | _, [] => []
  | h, c :: cs => (c, (next c h).1) :: trace next (next c h).2 cs

/-- The memory after a run. -/
def memory (next : Call → History → BreakerVerdict × History) (h : History)
    (calls : List Call) : History :=
  calls.foldl (fun h c => (next c h).2) h

section
variable {next : Call → History → BreakerVerdict × History}

theorem trace_append (h : History) (cs ds : List Call) :
    trace next h (cs ++ ds) = trace next h cs ++ trace next (memory next h cs) ds := by
  induction cs generalizing h with
  | nil => rfl
  | cons c cs ih =>
    show _ :: trace next _ (cs ++ ds) = _
    rw [ih]
    rfl

theorem memory_snoc (h : History) (cs : List Call) (c : Call) :
    memory next h (cs ++ [c]) = (next c (memory next h cs)).2 := by
  unfold memory
  rw [List.foldl_append]
  rfl

@[simp] theorem length_trace (h : History) (cs : List Call) :
    (trace next h cs).length = cs.length := by
  induction cs generalizing h with
  | nil => rfl
  | cons c cs ih => exact congrArg (· + 1) (ih _)

end

/-! ## One call -/

theorem History.times_set (key k : Str) (l : List Int) (h : History) :
    (h.set key l).times k = if key = k then l else h.times k := by
  unfold History.times History.set
  rw [lookup_upsert]
  split <;> rfl

/-- The count that decides is the length of the window. -/
theorem evaluateRollbackBreaker_eq (history : List Int) (now windowMs limit : Int) :
    evaluateRollbackBreaker history now windowMs limit =
      (decide (((recent windowMs now history).length : Int) ≥ limit),
        (recent windowMs now history).length) := by
  have hcount : ∀ (l : List Int) (n : Nat),
      l.foldl (fun n t => if t ≥ now - windowMs then n + 1 else n) n =
        n + (recent windowMs now l).length := by
    intro l
    induction l with
    | nil => intro n; rfl
    | cons t l ih =>
      intro n
      rw [List.foldl_cons, ih]
      unfold recent
      by_cases ht : t ≥ now - windowMs
      · rw [if_pos ht, List.filter_cons_of_pos (by simpa using ht), List.length_cons]
        omega
      · rw [if_neg ht, List.filter_cons_of_neg (by simpa using ht)]
  simp only [evaluateRollbackBreaker, hcount, Nat.zero_add]

/-- The verdict on a window with these attempts in it. -/
def verdictOn (cfg : RollbackBreakerConfig) (window : List Int) : BreakerVerdict :=
  { tripped := decide ((window.length : Int) ≥ cfg.limit), recentCount := window.length
    limit := cfg.limit, windowMs := cfg.windowMs }

variable {cfg : RollbackBreakerConfig}

theorem peek_enabled (hon : cfg.enabled = true) (key : Str) (now : Int) (h : History) :
    peek cfg key now h = verdictOn cfg (recent cfg.windowMs now (h.times key)) := by
  simp only [peek, hon, if_true, evaluateRollbackBreaker_eq]
  rfl

theorem check_enabled (hon : cfg.enabled = true) (key : Str) (now : Int) (h : History) :
    check cfg key now h =
      (verdictOn cfg (recent cfg.windowMs now (h.times key ++ [now])),
        h.set key (recent cfg.windowMs now (h.times key) ++ [now])) := by
  have hpruned : recent cfg.windowMs now (recent cfg.windowMs now (h.times key) ++ [now]) =
      recent cfg.windowMs now (h.times key ++ [now]) := by
    rw [recent_append, recent_recent (le_refl now), ← recent_append]
  rw [← hpruned]
  simp only [check, hon, if_true, evaluateRollbackBreaker_eq]
  rfl

theorem checkUnpruned_enabled (hon : cfg.enabled = true) (key : Str) (now : Int) (h : History) :
    checkUnpruned cfg key now h =
      (verdictOn cfg (recent cfg.windowMs now (h.times key ++ [now])),
        h.set key (h.times key ++ [now])) := by
  simp only [checkUnpruned, hon, if_true, evaluateRollbackBreaker_eq]
  rfl

/-! ## Forgetting -/

/-- Two memories that no window from `now` on tells apart. -/
def SameFrom (cfg : RollbackBreakerConfig) (now : Int) (h full : History) : Prop :=
  ∀ key, recent cfg.windowMs now (h.times key) = recent cfg.windowMs now (full.times key)

theorem SameFrom.mono {now now' : Int} {h full : History} (hsame : SameFrom cfg now h full)
    (hle : now ≤ now') : SameFrom cfg now' h full :=
  fun key => recent_congr hle (hsame key)

/-- One call answers the same from both memories, and keeps them alike. -/
theorem step_eq_stepUnpruned (hon : cfg.enabled = true) {c : Call} {h full : History}
    (hsame : SameFrom cfg c.now h full) :
    (step cfg c h).1 = (stepUnpruned cfg c full).1 ∧
      SameFrom cfg c.now (step cfg c h).2 (stepUnpruned cfg c full).2 := by
  cases c with
  | check key now =>
    replace hsame : SameFrom cfg now h full := hsame
    have hwindow : recent cfg.windowMs now (h.times key ++ [now]) =
        recent cfg.windowMs now (full.times key ++ [now]) := by
      rw [recent_append, recent_append, hsame key]
    show (check cfg key now h).1 = (checkUnpruned cfg key now full).1 ∧
      SameFrom cfg now (check cfg key now h).2 (checkUnpruned cfg key now full).2
    rw [check_enabled hon, checkUnpruned_enabled hon]
    refine ⟨congrArg (verdictOn cfg) hwindow, fun k => ?_⟩
    rw [History.times_set, History.times_set]
    split
    · rw [← hwindow, recent_append, recent_append, recent_recent (le_refl now)]
    · exact hsame k
  | peek key now =>
    replace hsame : SameFrom cfg now h full := hsame
    show peek cfg key now h = peek cfg key now full ∧ SameFrom cfg now h full
    rw [peek_enabled hon, peek_enabled hon, hsame key]
    exact ⟨rfl, hsame⟩

/-- With a clock that does not go back, forgetting changes no verdict. -/
theorem trace_eq_unpruned (hon : cfg.enabled = true) {calls : List Call}
    (hclock : calls.Pairwise fun c d => c.now ≤ d.now) {h full : History}
    (hsame : ∀ c ∈ calls, SameFrom cfg c.now h full) :
    trace (step cfg) h calls = trace (stepUnpruned cfg) full calls := by
  induction calls generalizing h full with
  | nil => rfl
  | cons c calls ih =>
    obtain ⟨hlater, hclock⟩ := List.pairwise_cons.mp hclock
    obtain ⟨hverdict, hnext⟩ := step_eq_stepUnpruned hon (hsame c List.mem_cons_self)
    have htail := ih hclock fun d hd => hnext.mono (hlater d hd)
    show (c, _) :: trace (step cfg) _ calls = (c, _) :: trace (stepUnpruned cfg) _ calls
    rw [hverdict, htail]

/-! ## Other keys and peeks -/

theorem times_step_of_ne {c : Call} {key : Str} (hne : c.key ≠ key) (h : History) :
    (step cfg c h).2.times key = h.times key := by
  cases c with
  | check k now =>
    replace hne : k ≠ key := hne
    show (check cfg k now h).2.times key = h.times key
    unfold check
    split
    · show (h.set k _).times key = _
      rw [History.times_set, if_neg hne]
    · rfl
  | peek k now => rfl

/-- A call looks at its own key only. -/
theorem step_congr {c : Call} {h h' : History} (heq : h.times c.key = h'.times c.key) :
    (step cfg c h).1 = (step cfg c h').1 ∧
      (step cfg c h).2.times c.key = (step cfg c h').2.times c.key := by
  cases c with
  | check key now =>
    replace heq : h.times key = h'.times key := heq
    show (check cfg key now h).1 = (check cfg key now h').1 ∧
      (check cfg key now h).2.times key = (check cfg key now h').2.times key
    unfold check
    rw [heq]
    split
    · refine ⟨rfl, ?_⟩
      show (h.set key _).times key = (h'.set key _).times key
      rw [History.times_set, History.times_set, if_pos rfl, if_pos rfl]
    · exact ⟨rfl, heq⟩
  | peek key now =>
    replace heq : h.times key = h'.times key := heq
    show peek cfg key now h = peek cfg key now h' ∧ h.times key = h'.times key
    unfold peek
    rw [heq]
    exact ⟨rfl, rfl⟩

/-- What one key is answered does not depend on the calls for the others. -/
theorem trace_filter_key (key : Str) {calls : List Call} {h h' : History}
    (heq : h.times key = h'.times key) :
    (trace (step cfg) h calls).filter (fun x => decide (x.1.key = key)) =
      trace (step cfg) h' (calls.filter fun c => decide (c.key = key)) := by
  induction calls generalizing h h' with
  | nil => rfl
  | cons c calls ih =>
    show List.filter _ ((c, _) :: trace (step cfg) _ calls) = _
    by_cases hc : c.key = key
    · subst hc
      obtain ⟨hverdict, htimes⟩ := @step_congr cfg _ _ _ heq
      rw [List.filter_cons_of_pos (by simp), List.filter_cons_of_pos (by simp), ih htimes,
        hverdict]
      rfl
    · rw [List.filter_cons_of_neg (by simpa using hc), List.filter_cons_of_neg (by simpa using hc)]
      exact ih ((times_step_of_ne hc h).trans heq)

/-- A run without one of its peeks has the other verdicts of the run with it. -/
theorem trace_eraseIdx_peek (h : History) (before after : List Call) (key : Str) (now : Int) :
    (trace (step cfg) h (before ++ .peek key now :: after)).eraseIdx before.length =
      trace (step cfg) h (before ++ after) := by
  rw [trace_append, trace_append]
  -- The peek is the first call after `before`, and leaves the memory as it was.
  show (trace (step cfg) h before ++
    (_ :: trace (step cfg) (memory (step cfg) h before) after)).eraseIdx before.length = _
  rw [List.eraseIdx_append_of_length_le (by rw [length_trace]), length_trace, Nat.sub_self]
  rfl

/-! ## The bound -/

/-- The attempts on a key, as the run saw them. -/
def attemptsOn (key : Str) (tr : List (Call × BreakerVerdict)) : List (Attempt Int) :=
  tr.filterMap fun x =>
    match x.1 with
    | .check k now => if k = key then some ⟨now, !x.2.tripped⟩ else none
    | .peek _ _ => none

/-- The `check` calls on a key from `a` to `b` that returned `tripped: false`. -/
def letThrough (key : Str) (a b : Int) (tr : List (Call × BreakerVerdict)) :
    List (Call × BreakerVerdict) :=
  tr.filter fun x =>
    match x.1 with
    | .check k now => decide (k = key) && !x.2.tripped && decide (a ≤ now ∧ now ≤ b)
    | .peek _ _ => false

theorem length_letThrough (key : Str) (a b : Int) (tr : List (Call × BreakerVerdict)) :
    (letThrough key a b tr).length = (admittedIn a b (attemptsOn key tr)).length := by
  induction tr with
  | nil => rfl
  | cons x tr ih =>
    obtain ⟨c, v⟩ := x
    unfold letThrough attemptsOn admittedIn at ih ⊢
    cases c with
    | peek k now => simpa using ih
    | check k now =>
      by_cases hk : k = key
      · simp only [List.filterMap_cons, List.filter_cons, hk, if_true, decide_true, Bool.true_and]
        split
        · simpa using ih
        · simpa using ih
      · rw [List.filterMap_cons_none (by simp [hk]), List.filter_cons_of_neg (by simp [hk])]
        exact ih

theorem attemptsOn_append (key : Str) (tr tr' : List (Call × BreakerVerdict)) :
    attemptsOn key (tr ++ tr') = attemptsOn key tr ++ attemptsOn key tr' :=
  List.filterMap_append ..

/-- A memory that never forgets is the list of the attempts. -/
theorem times_memory_unpruned (hon : cfg.enabled = true) (key : Str) (calls : List Call) :
    (memory (stepUnpruned cfg) [] calls).times key =
      (attemptsOn key (trace (stepUnpruned cfg) [] calls)).map Attempt.time := by
  induction calls using List.reverseRecOn with
  | nil => rfl
  | append_singleton calls c ih =>
    rw [memory_snoc, trace_append, attemptsOn_append, List.map_append, ← ih]
    cases c with
    | check k now =>
      show (checkUnpruned cfg k now _).2.times key = _
      rw [checkUnpruned_enabled hon]
      show (History.set k _ _).times key = _
      rw [History.times_set]
      by_cases hk : k = key
      · rw [if_pos hk]
        simp [attemptsOn, trace, hk]
      · rw [if_neg hk]
        simp [attemptsOn, trace, hk]
    | peek k now => exact (List.append_nil _).symm

/-- An attempt that the breaker lets through found fewer than `limit` in its
window. -/
theorem sparse_attemptsOn (hon : cfg.enabled = true) (key : Str) (calls : List Call) :
    Sparse cfg.windowMs cfg.limit.toNat
      (attemptsOn key (trace (stepUnpruned cfg) [] calls)) := by
  induction calls using List.reverseRecOn with
  | nil => exact sparse_nil
  | append_singleton calls c ih =>
    rw [trace_append, attemptsOn_append]
    cases c with
    | peek k now => exact (List.append_nil _).symm ▸ ih
    | check k now =>
      by_cases hk : k = key
      · have hlast : attemptsOn key (trace (stepUnpruned cfg)
            (memory (stepUnpruned cfg) [] calls) [.check k now]) =
            [⟨now, !(checkUnpruned cfg k now (memory (stepUnpruned cfg) [] calls)).1.tripped⟩] := by
          simp [attemptsOn, trace, stepUnpruned, hk]
        rw [hlast]
        refine ih.snoc fun hadmitted => ?_
        rw [checkUnpruned_enabled hon, hk, times_memory_unpruned hon] at hadmitted
        simp only [verdictOn, Bool.not_eq_true', decide_eq_false_iff_not, not_le, ge_iff_le] at hadmitted
        rw [List.map_append]
        show (recent cfg.windowMs now (_ ++ [now])).length < _
        omega
      · have hlast : attemptsOn key (trace (stepUnpruned cfg)
            (memory (stepUnpruned cfg) [] calls) [.check k now]) = [] := by
          simp [attemptsOn, trace, hk]
        rw [hlast, List.append_nil]
        exact ih

theorem pairwise_attemptsOn {next : Call → History → BreakerVerdict × History} (key : Str)
    {calls : List Call} (hclock : calls.Pairwise fun c d => c.now ≤ d.now) (h : History) :
    (attemptsOn key (trace next h calls)).Pairwise fun x y => x.time ≤ y.time := by
  have hcalls : ∀ (h : History) (cs : List Call), (trace next h cs).map Prod.fst = cs := by
    intro h cs
    induction cs generalizing h with
    | nil => rfl
    | cons c cs ih => exact congrArg (c :: ·) (ih _)
  rw [← hcalls h calls, List.pairwise_map] at hclock
  refine List.Pairwise.filterMap _ ?_ hclock
  rintro ⟨c, v⟩ ⟨d, u⟩ hle x hx y hy
  cases c with
  | peek k now => cases hx
  | check k now =>
    cases d with
    | peek k' now' => cases hy
    | check k' now' =>
      simp only [Option.ite_none_right_eq_some, Option.some.injEq] at hx hy
      obtain ⟨-, rfl⟩ := hx
      obtain ⟨-, rfl⟩ := hy
      exact hle

/-- No closed window lets `limit` attempts on one key through; the keys do not
affect each other; forgetting changes no verdict; and neither does a peek. -/
theorem rollbackBreaker_bounds (cfg : RollbackBreakerConfig) (calls : List Call)
    (hon : cfg.enabled = true) (hlimit : 1 ≤ cfg.limit)
    (hclock : calls.Pairwise fun c d => c.now ≤ d.now) :
    (∀ key a, ((letThrough key a (a + cfg.windowMs) (trace (step cfg) [] calls)).length : Int) ≤
      cfg.limit - 1) ∧
    (∀ key, (trace (step cfg) [] calls).filter (fun x => decide (x.1.key = key)) =
      trace (step cfg) [] (calls.filter fun c => decide (c.key = key))) ∧
    trace (step cfg) [] calls = trace (stepUnpruned cfg) [] calls ∧
    ∀ before key now after, calls = before ++ .peek key now :: after →
      (trace (step cfg) [] calls).eraseIdx before.length =
        trace (step cfg) [] (before ++ after) := by
  have hpruned : trace (step cfg) [] calls = trace (stepUnpruned cfg) [] calls :=
    trace_eq_unpruned hon hclock fun _ _ _ => rfl
  refine ⟨fun key a => ?_, fun key => trace_filter_key key rfl, hpruned, ?_⟩
  · rw [hpruned, length_letThrough]
    have hcard := card_lt_of_sparse (by omega) (sparse_attemptsOn hon key calls)
      (pairwise_attemptsOn key hclock []) a
    omega
  · rintro before key now after rfl
    exact trace_eraseIdx_peek [] before after key now

/-- Two reverts of one file are let through, the third is refused until the first
has left the window. -/
theorem rollbackBreaker_bounds_run :
    let cfg : RollbackBreakerConfig := { enabled := true, limit := 3, windowMs := 600000 }
    let calls : List Call := [.check "host//etc/motd".toList 0, .peek "guest/105".toList 1,
      .check "host//etc/motd".toList 2, .check "host//etc/motd".toList 3,
      .check "guest/105".toList 3, .check "host//etc/motd".toList 600003]
    (∀ key a, ((letThrough key a (a + 600000) (trace (step cfg) [] calls)).length : Int) ≤ 2) ∧
      (trace (step cfg) [] calls).map (fun x => x.2.tripped) =
        [false, false, false, true, false, false] := by
  intro cfg calls
  exact ⟨(rollbackBreaker_bounds cfg calls rfl (by decide) (by decide)).1, by decide⟩

end HomelabMcp.Guardrails
