import HomelabMcp.Guardrails.PathValidation
import HomelabMcp.Guardrails.RollbackBreaker
import Mathlib.Data.Set.Function

/-!
# Keys tell targets apart (store.ts, rollbackBreaker.ts)

A target's descriptor joins its kind, its guest, its container and its path with
separators that may occur in the path. Only the path is free, and it comes last.

- `targetKeyString_injOn`, `rollbackTargetKey_injOn`: accepted targets with one
  key are one target.
- `target_keys_injective`: so versions do not share a directory, nor attempts a
  count.
-/

namespace HomelabMcp.Backup

open SlashPath Text Guardrails Integrity

/-- `DOCKER_NAME_RE` (dockerHelpers.ts:23). -/
def validateDockerName (name : Str) : Bool :=
  match name with
  | [] => false
  | c :: rest => c.isAlphanum && rest.all fun c => c.isAlphanum || ['_', '.', '-'].contains c

/-- A path that passes under some lists. -/
def AcceptedPath (path : Str) : Prop :=
  ∃ allowlist denylist, validatePath path allowlist denylist = none

/-- A target with the fields of its kind, each of which passes its check. -/
inductive BackupTarget.Accepted : BackupTarget → Prop
  | host {path} : AcceptedPath path → Accepted ⟨.host, none, none, path⟩
  | pct {vmid path} : 0 < vmid → AcceptedPath path → Accepted ⟨.pct, some vmid, none, path⟩
  | qm {vmid path} : 0 < vmid → AcceptedPath path → Accepted ⟨.qm, some vmid, none, path⟩
  | docker {vmid container path} : 0 < vmid → validateDockerName container = true →
      AcceptedPath path → Accepted ⟨.docker, some vmid, some container, path⟩

/-- The same for what can be rolled back; the service of a compose file may have
any name. -/
def AcceptedRollback : RollbackTarget → Prop
  | .file t => t.Accepted
  | .guest vmid => 0 < vmid
  | .compose vmid _ => 0 < vmid

/-! ## Separators -/

/-- What stands before the first separator, and what stands after it. -/
theorem append_cons_inj {sep : Char} {a b s t : Str} (ha : sep ∉ a) (hb : sep ∉ b)
    (h : a ++ sep :: s = b ++ sep :: t) : a = b ∧ s = t := by
  induction a generalizing b with
  | nil =>
    cases b with
    | nil => exact ⟨rfl, List.tail_eq_of_cons_eq h⟩
    | cons c b =>
      rw [List.nil_append, List.cons_append, List.cons.injEq] at h
      exact absurd (h.1 ▸ List.mem_cons_self) hb
  | cons c a ih =>
    cases b with
    | nil =>
      rw [List.nil_append, List.cons_append, List.cons.injEq] at h
      exact absurd (h.1 ▸ List.mem_cons_self) ha
    | cons d b =>
      rw [List.cons_append, List.cons_append, List.cons.injEq] at h
      rw [List.mem_cons, not_or] at ha hb
      obtain ⟨hab, hst⟩ := ih ha.2 hb.2 h.2
      exact ⟨by rw [h.1, hab], hst⟩

theorem notMem_numeral {sep : Char} (hsep : sep.isDigit = false) (n : Nat) : sep ∉ numeral n := by
  intro h
  rw [isDigit_of_mem_numeral h] at hsep
  cases hsep

theorem colon_notMem_of_validateDockerName {name : Str} (h : validateDockerName name = true) :
    ':' ∉ name := by
  cases name with
  | nil => exact List.not_mem_nil
  | cons c rest =>
    rw [validateDockerName, Bool.and_eq_true, List.all_eq_true] at h
    rw [List.mem_cons]
    rintro (rfl | hmem)
    · exact absurd h.1 (by decide)
    · exact absurd (h.2 _ hmem) (by decide)

/-! ## Descriptors -/

theorem AcceptedPath.slash {path : Str} (h : AcceptedPath path) : ∃ rest, path = '/' :: rest := by
  obtain ⟨allowlist, denylist, hvalid⟩ := h
  obtain ⟨rest, hrest⟩ := (validatePath_eq_none_iff.mp hvalid).1
  exact ⟨rest, hrest.symm⟩

/-- A tag, a guest id and what follows a separator that is no digit. -/
theorem guest_key_inj (tag : Str) {sep : Char} {v w : Nat} {p q : Str} (hsep : sep.isDigit = false)
    (h : tag ++ numeral v ++ sep :: p = tag ++ numeral w ++ sep :: q) : v = w ∧ p = q := by
  rw [List.append_assoc, List.append_assoc] at h
  obtain ⟨hvmid, hrest⟩ := append_cons_inj (notMem_numeral hsep v) (notMem_numeral hsep w)
    (List.append_cancel_left h)
  exact ⟨numeral_injective hvmid, hrest⟩

/-- A docker descriptor has the container between the guest and the path. -/
theorem docker_key_inj (tag : Str) {v w : Nat} {c d p q : Str}
    (hc : validateDockerName c = true) (hd : validateDockerName d = true)
    (h : tag ++ numeral v ++ ':' :: (c ++ ':' :: p) = tag ++ numeral w ++ ':' :: (d ++ ':' :: q)) :
    v = w ∧ c = d ∧ p = q := by
  obtain ⟨hvmid, hrest⟩ := guest_key_inj tag (by decide) h
  exact ⟨hvmid, append_cons_inj (colon_notMem_of_validateDockerName hc)
    (colon_notMem_of_validateDockerName hd) hrest⟩

/-- The first character of a descriptor, which tells the kind. -/
def keyInitial : BackupTargetKind → Char
  | .host => '/'
  | .pct => 'p'
  | .qm => 'q'
  | .docker => 'd'

theorem keyInitial_injective : Function.Injective keyInitial := by
  intro k l h
  cases k <;> cases l <;> first | rfl | exact absurd h (by decide)

theorem head_targetKeyString {t : BackupTarget} (h : t.Accepted) :
    (targetKeyString t).head? = some (keyInitial t.kind) := by
  cases h with
  | host hpath =>
    obtain ⟨rest, rfl⟩ := hpath.slash
    rfl
  | pct _ _ => rfl
  | qm _ _ => rfl
  | docker _ _ _ => rfl

theorem targetKeyString_injOn : Set.InjOn targetKeyString {t | t.Accepted} := by
  intro t ht u hu h
  have hkind : t.kind = u.kind := keyInitial_injective (Option.some.inj
    ((head_targetKeyString ht).symm.trans ((congrArg List.head? h).trans (head_targetKeyString hu))))
  cases ht with
  | host _ =>
    cases hu with
    | host _ => exact congrArg (BackupTarget.mk .host none none) h
    | pct _ _ | qm _ _ | docker _ _ _ => cases hkind
  | pct _ _ =>
    cases hu with
    | pct _ _ =>
      obtain ⟨rfl, rfl⟩ := guest_key_inj "pct:".toList (by decide) h
      rfl
    | host _ | qm _ _ | docker _ _ _ => cases hkind
  | qm _ _ =>
    cases hu with
    | qm _ _ =>
      obtain ⟨rfl, rfl⟩ := guest_key_inj "qm:".toList (by decide) h
      rfl
    | host _ | pct _ _ | docker _ _ _ => cases hkind
  | docker _ hc _ =>
    cases hu with
    | docker _ hd _ =>
      obtain ⟨rfl, rfl, rfl⟩ := docker_key_inj "docker:".toList hc hd h
      rfl
    | host _ | pct _ _ | qm _ _ => cases hkind

/-- The first character of the breaker key of a file. -/
def fileInitial : BackupTargetKind → Char
  | .host => 'h'
  | .pct => 'p'
  | .qm => 'q'
  | .docker => 'd'

theorem fileInitial_injective : Function.Injective fileInitial := by
  intro k l h
  cases k <;> cases l <;> first | rfl | exact absurd h (by decide)

/-- The first character of a breaker key. -/
def rollbackInitial : RollbackTarget → Char
  | .file t => fileInitial t.kind
  | .guest _ => 'g'
  | .compose _ _ => 'c'

theorem fileInitial_ne (k : BackupTargetKind) : fileInitial k ≠ 'g' ∧ fileInitial k ≠ 'c' := by
  cases k <;> decide

theorem head_rollbackTargetKey (t : RollbackTarget) :
    (rollbackTargetKey t).head? = some (rollbackInitial t) := by
  cases t with
  | file t =>
    obtain ⟨kind, vmid, container, path⟩ := t
    cases kind <;> rfl
  | guest vmid => rfl
  | compose vmid service => rfl

/-- Files with one breaker key. -/
theorem eq_of_file_key {t u : BackupTarget} (ht : t.Accepted) (hu : u.Accepted)
    (hkind : t.kind = u.kind) (h : rollbackTargetKey (.file t) = rollbackTargetKey (.file u)) :
    t = u := by
  cases ht with
  | host _ =>
    cases hu with
    | host _ => exact congrArg (BackupTarget.mk .host none none) (List.append_cancel_left h)
    | pct _ _ | qm _ _ | docker _ _ _ => cases hkind
  | pct _ _ =>
    cases hu with
    | pct _ _ =>
      obtain ⟨rfl, rfl⟩ := guest_key_inj "pct/".toList (by decide) h
      rfl
    | host _ | qm _ _ | docker _ _ _ => cases hkind
  | qm _ _ =>
    cases hu with
    | qm _ _ =>
      obtain ⟨rfl, rfl⟩ := guest_key_inj "qm:".toList (by decide) h
      rfl
    | host _ | pct _ _ | docker _ _ _ => cases hkind
  | docker _ hc _ =>
    cases hu with
    | docker _ hd _ =>
      obtain ⟨rfl, rfl, rfl⟩ := docker_key_inj "docker:".toList hc hd h
      rfl
    | host _ | pct _ _ | qm _ _ => cases hkind

theorem rollbackTargetKey_injOn : Set.InjOn rollbackTargetKey {t | AcceptedRollback t} := by
  intro t ht u hu h
  have hinitial : rollbackInitial t = rollbackInitial u := Option.some.inj
    ((head_rollbackTargetKey t).symm.trans
      ((congrArg List.head? h).trans (head_rollbackTargetKey u)))
  cases t with
  | file t =>
    cases u with
    | file u => exact congrArg _ (eq_of_file_key ht hu (fileInitial_injective hinitial) h)
    | guest w => exact absurd hinitial (fileInitial_ne t.kind).1
    | compose w other => exact absurd hinitial (fileInitial_ne t.kind).2
  | guest v =>
    cases u with
    | file u => exact absurd hinitial.symm (fileInitial_ne u.kind).1
    | guest w => exact congrArg _ (numeral_injective (List.append_cancel_left h))
    | compose w other => exact absurd hinitial (show 'g' ≠ 'c' by decide)
  | compose v service =>
    cases u with
    | file u => exact absurd hinitial.symm (fileInitial_ne u.kind).2
    | guest w => exact absurd hinitial (show 'c' ≠ 'g' by decide)
    | compose w other =>
      obtain ⟨rfl, rfl⟩ := guest_key_inj "compose/".toList (by decide) h
      rfl

/-! ## Directories and counts -/

/-- The directory of a descriptor. -/
def directoryHash (sha256 : Bytes → Bytes) (key : Str) : Str :=
  (hashHex (sha256 (Utf8.encode key))).take 16

/-- A recorded attempt on a target. -/
abbrev Attempt := RollbackTarget × Int

def Attempt.call (a : Attempt) : Call :=
  .check (rollbackTargetKey a.1) a.2

/-- What an attempt leaves under its own key. -/
theorem times_check_self (cfg : RollbackBreakerConfig) (key : Str) (now : Int) (h : History) :
    (check cfg key now h).2.times key =
      if cfg.enabled then
        (h.times key).filter (fun t => decide (t ≥ now - cfg.windowMs)) ++ [now]
      else h.times key := by
  unfold check
  split
  · exact (History.times_set _ _ _ _).trans (if_pos rfl)
  · rfl

/-- An attempt on another key leaves what is under this one. -/
theorem times_check_of_ne {cfg : RollbackBreakerConfig} {key other : Str} {now : Int} {h : History}
    (hne : other ≠ key) : (check cfg other now h).2.times key = h.times key := by
  unfold check
  split
  · exact (History.times_set _ _ _ _).trans (if_neg hne)
  · rfl

/-- A target's memory is that of its own attempts. -/
theorem times_memory_filter {cfg : RollbackBreakerConfig} {t : RollbackTarget}
    (ht : AcceptedRollback t) {attempts : List Attempt}
    (hattempts : ∀ a ∈ attempts, AcceptedRollback a.1) {h k : History}
    (heq : h.times (rollbackTargetKey t) = k.times (rollbackTargetKey t)) :
    (memory (step cfg) h (attempts.map Attempt.call)).times (rollbackTargetKey t) =
      (memory (step cfg) k ((attempts.filter fun a => decide (a.1 = t)).map Attempt.call)).times
        (rollbackTargetKey t) := by
  induction attempts generalizing h k with
  | nil => exact heq
  | cons a attempts ih =>
    have hrest : ∀ b ∈ attempts, AcceptedRollback b.1 := fun b hb =>
      hattempts b (List.mem_cons_of_mem a hb)
    by_cases hown : a.1 = t
    · rw [List.filter_cons_of_pos (by simpa using hown)]
      refine ih hrest ?_
      show (check cfg (rollbackTargetKey a.1) a.2 h).2.times _ =
        (check cfg (rollbackTargetKey a.1) a.2 k).2.times _
      rw [hown, times_check_self, times_check_self, heq]
    · rw [List.filter_cons_of_neg (by simpa using hown)]
      refine ih hrest (Eq.trans ?_ heq)
      exact times_check_of_ne fun hkey =>
        hown (rollbackTargetKey_injOn (hattempts a List.mem_cons_self) ht hkey)

/-- Keys tell accepted targets apart. So versions of different targets are in
different directories, as far as the truncated digests of their descriptors
differ, and what the breaker remembers of a target is what it would remember had
there been no attempts on others. -/
theorem target_keys_injective :
    Set.InjOn targetKeyString {t | t.Accepted} ∧
    Set.InjOn rollbackTargetKey {t | AcceptedRollback t} ∧
    (∀ (sha256 : Bytes → Bytes) (used : Set BackupTarget), (∀ t ∈ used, t.Accepted) →
      Set.InjOn (directoryHash sha256) (targetKeyString '' used) →
        Set.InjOn (fileKey sha256) used) ∧
    ∀ (cfg : RollbackBreakerConfig) (h : History) (t : RollbackTarget) (attempts : List Attempt),
      AcceptedRollback t → (∀ a ∈ attempts, AcceptedRollback a.1) →
        (memory (step cfg) h (attempts.map Attempt.call)).times (rollbackTargetKey t) =
          (memory (step cfg) h ((attempts.filter fun a => decide (a.1 = t)).map
            Attempt.call)).times (rollbackTargetKey t) := by
  refine ⟨targetKeyString_injOn, rollbackTargetKey_injOn, ?_, ?_⟩
  · intro sha256 used haccepted hdigest t ht u hu heq
    have hkeys := hdigest (Set.mem_image_of_mem _ ht) (Set.mem_image_of_mem _ hu) heq
    exact targetKeyString_injOn (haccepted t ht) (haccepted u hu) hkeys
  · intro cfg h t attempts ht hattempts
    exact times_memory_filter ht hattempts rfl

end HomelabMcp.Backup
