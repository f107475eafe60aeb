import HomelabMcp.Audit.Record
import HomelabMcp.Guardrails.RollbackBreaker
import HomelabMcp.Integrity.Transport
import HomelabMcp.Lib.Program

/-!
# Tool handlers as programs

A handler performs operations of some type on its transport or node, each of which
may throw, appends to the audit log and asks the rollback breaker. What
`buildAuditRecord` adds to the fields it is given (an id, the time, redaction of
`cmd` and `note`) is not part of the programs.
-/

namespace HomelabMcp.Tools

open SlashPath Audit Guardrails Program Integrity

variable {κ : Type} {ρ : κ → Type} {α σ : Type}

inductive ToolCall (κ : Type)
  | op (c : κ)
  /-- `audit.append(buildAuditRecord(record))`. -/
  | append (record : AuditFields)
  /-- `breaker.check(key, Date.now())`. -/
  | check (key : Str)
  /-- `breaker.peek(key, now())`. -/
  | peek (key : Str)
  /-- `now()`, in milliseconds. -/
  | clock

/-- An operation yields a `ρ c` or throws; the log, the breaker and the clock do
not fail. -/
@[reducible] def ToolAnswer (ρ : κ → Type) : ToolCall κ → Type
  | .op c => Except Str (ρ c)
  | .append _ => Unit
  | .check _ => BreakerVerdict
  | .peek _ => BreakerVerdict
  | .clock => Int

abbrev Tool (ρ : κ → Type) := Prog (ToolCall κ) (ToolAnswer ρ) Str

def perform (c : κ) : Tool ρ (ρ c) :=
  ask (ToolCall.op c) >>= orThrow

/-- `transport.exec(…)`: an operation that yields an exit code and output. -/
def exec (cmd : κ) : Tool (fun _ : κ => ExecResult) ExecResult :=
  perform cmd

def append (record : AuditFields) : Tool ρ Unit :=
  ask (ToolCall.append record)

def check (key : Str) : Tool ρ BreakerVerdict :=
  ask (ToolCall.check key)

def peek (key : Str) : Tool ρ BreakerVerdict :=
  ask (ToolCall.peek key)

def clock : Tool ρ Int :=
  ask ToolCall.clock

/-- A tripped breaker: the refusal is audited, and thrown. -/
def refuseTripped (key : Str) (base : AuditFields) (verdict : BreakerVerdict) : Tool ρ Unit :=
  if verdict.tripped then do
    append { base with
      refused := some true, circuitBreaker := some (breakerRefusal key verdict).2
      note := some (breakerRefusal key verdict).1 }
    throw (breakerRefusal key verdict).1
  else pure ()

/-- The breaker at the head of the three rollback verbs (revertFile.ts:139,
snapshotTools.ts:251, backupTools.ts:391). -/
def breakerGate (useBreaker : Bool) (key : Str) (base : AuditFields) : Tool ρ Unit :=
  if useBreaker then do
    let verdict ← check key
    refuseTripped key base verdict
  else pure ()

section
variable {M : Monitor (ToolCall κ) (ToolAnswer ρ) σ} {s : σ}

theorem meets_perform {c : κ} {post : σ → Outcome Str (ρ c) → Prop} :
    M.Meets post s (perform c) ↔
      M.allowed s (.op c) ∧
        (∀ a, post (M.next s (.op c) (.ok a)) (.returned a)) ∧
        ∀ e, post (M.next s (.op c) (.error e)) (.thrown e) := by
  unfold perform
  rw [Monitor.meets_bind, Monitor.meets_ask]
  refine and_congr_right fun _ => ⟨fun h => ⟨fun a => h (.ok a), fun e => h (.error e)⟩, ?_⟩
  rintro ⟨hok, herror⟩ r
  cases r with
  | ok a => exact hok a
  | error e => exact herror e

theorem meets_exec {M : Monitor (ToolCall κ) (ToolAnswer fun _ => ExecResult) σ} {cmd : κ}
    {post : σ → Outcome Str ExecResult → Prop} :
    M.Meets post s (exec cmd) ↔
      M.allowed s (.op cmd) ∧
        (∀ res, post (M.next s (.op cmd) (.ok res)) (.returned res)) ∧
        ∀ e, post (M.next s (.op cmd) (.error e)) (.thrown e) :=
  meets_perform

theorem meets_append {record : AuditFields} {post : σ → Outcome Str Unit → Prop} :
    M.Meets post s (append record) ↔
      M.allowed s (.append record) ∧ post (M.next s (.append record) ()) (.returned ()) :=
  and_congr_right fun _ => ⟨fun h => h (), fun h _ => h⟩

theorem meets_check {key : Str} {post : σ → Outcome Str BreakerVerdict → Prop} :
    M.Meets post s (check key) ↔
      M.allowed s (.check key) ∧ ∀ v, post (M.next s (.check key) v) (.returned v) :=
  Iff.rfl

theorem meets_peek {key : Str} {post : σ → Outcome Str BreakerVerdict → Prop} :
    M.Meets post s (peek key) ↔
      M.allowed s (.peek key) ∧ ∀ v, post (M.next s (.peek key) v) (.returned v) :=
  Iff.rfl

theorem meets_clock {post : σ → Outcome Str Int → Prop} :
    M.Meets post s clock ↔
      M.allowed s .clock ∧ ∀ t, post (M.next s .clock t) (.returned t) :=
  Iff.rfl

end

end HomelabMcp.Tools
