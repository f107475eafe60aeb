import HomelabMcp.Trust.PinnedTrust
import Mathlib.Data.List.TakeWhile

/-!
# Recorded keys over a run of connections

What a connection does to the recorded fingerprints, and when a recorded key is kept by
every run.

- `verify_of_recorded`: a lookup that succeeds decides by the record and changes nothing.
- `recorded_keys_kept_iff`: the runs in which no recorded key is replaced.
-/

namespace HomelabMcp.Trust

open SlashPath Text KeyedList

variable {file : PinFile} {key fingerprint : Str} {c d : Connection}

/-! ## One connection -/

theorem given_presented (c : Connection) : given (some c.presented) = some c.presented := by
  have hhead : isSpace 'S' = false := by decide
  have hne : trim c.presented ≠ [] := by
    intro h
    -- The head of the tag is no white space, so trimming keeps it.
    have hcons : c.presented = 'S' :: ("HA256:".toList ++ c.digest) := rfl
    unfold trim at h
    rw [hcons, List.dropWhile_cons, hhead, List.reverse_eq_nil_iff,
      List.dropWhile_eq_nil_iff] at h
    have hall := h 'S' (List.mem_reverse.mpr List.mem_cons_self)
    rw [hhead] at hall
    cases hall
  exact if_pos (decide_eq_true hne)

theorem recorded_eq_some_iff :
    recorded file key = some fingerprint ↔
      ∃ data, file = some data ∧ lookup Prod.fst key data = some (key, fingerprint) := by
  unfold recorded
  constructor
  · intro h
    obtain ⟨data, hfile, hdata⟩ := Option.bind_eq_some_iff.mp h
    obtain ⟨⟨k, f⟩, hlookup, rfl⟩ := Option.map_eq_some_iff.mp hdata
    have hkey : k = key := key_of_lookup hlookup
    exact ⟨data, hfile, hkey ▸ hlookup⟩
  · rintro ⟨data, rfl, hlookup⟩
    show (lookup Prod.fst key data).map Prod.snd = _
    rw [hlookup]
    rfl

/-- The connection finds no fingerprint under its key. -/
def FirstUse (file : PinFile) (c : Connection) : Prop :=
  (PinRecords.get (readFile file c.lookupFails) c.key).given = .ok none

/-- A first use is accepted and recorded; otherwise the file stays. -/
theorem verify_of_firstUse (h : FirstUse file c) :
    verify file c =
      (.accepted, PinRecords.set (readFile file c.updateFails) c.key c.presented) := by
  unfold FirstUse at h
  unfold verify decidePin
  rw [h]
  rfl

theorem verify_file_of_not_firstUse (h : ¬FirstUse file c) : (verify file c).2 = file := by
  unfold FirstUse at h
  unfold verify decidePin
  cases hgiven : (PinRecords.get (readFile file c.lookupFails) c.key).given with
  | error e => rfl
  | ok recorded =>
    cases recorded with
    | none => exact absurd hgiven h
    | some fingerprint =>
      by_cases heq : c.presented = fingerprint
      · simp [given, heq]
      · simp [given, heq]

theorem recorded_nil : recorded (some []) key = none := rfl

/-- What a write records: the new fingerprint, unless it is under the inherited `__proto__`. -/
theorem recorded_set {read : PinFile} {k : Str} :
    recorded (PinRecords.set read k fingerprint) key =
      if k = key ∧ (k = "__proto__".toList → recorded (some (read.getD [])) k ≠ none)
      then some fingerprint else recorded (some (read.getD [])) key := by
  have hnone : (lookup Prod.fst k (read.getD [])).isNone = true ↔
      recorded (some (read.getD [])) k = none := by
    show _ ↔ Option.map Prod.snd (lookup Prod.fst k (read.getD [])) = none
    rw [Option.isNone_iff_eq_none, Option.map_eq_none_iff]
  unfold PinRecords.set PinRecords.put
  split
  · next h =>
    rw [hnone] at h
    rw [if_neg]
    rintro ⟨-, hkept⟩
    exact hkept h.1 h.2
  · next h =>
    rw [hnone, not_and] at h
    show Option.map Prod.snd (lookup Prod.fst key (upsert Prod.fst _ _)) = _
    rw [lookup_upsert]
    by_cases hk : k = key
    · rw [if_pos hk, if_pos ⟨hk, h⟩]
      rfl
    · rw [if_neg hk, if_neg fun hboth => hk hboth.1]
      rfl

theorem firstUse_of_lookupFails (h : c.lookupFails = true) : FirstUse file c := by
  unfold FirstUse readFile
  rw [h]
  rfl

/-- A lookup that succeeds answers with the record. -/
theorem get_of_recorded (hrecorded : recorded file c.key = some fingerprint)
    (hlookup : c.lookupFails = false) :
    PinRecords.get (readFile file c.lookupFails) c.key = .text fingerprint := by
  obtain ⟨data, rfl, hdata⟩ := recorded_eq_some_iff.mp hrecorded
  rw [hlookup]
  show PinRecords.get (some data) c.key = _
  unfold PinRecords.get
  simp only [hdata]

/-- A lookup that succeeds refuses another key than the recorded one. -/
theorem verify_of_recorded (hrecorded : recorded file d.key = some c.presented)
    (hlookup : d.lookupFails = false) (hne : d.presented ≠ c.presented) :
    ∃ reason, (verify file d).1 = .refused reason := by
  refine ⟨mismatch d.channel.labels.tofu c.presented d.presented, ?_⟩
  have hgiven : (Stored.text c.presented).given = .ok (some c.presented) := by
    show Except.ok (given (some c.presented)) = _
    rw [given_presented]
  unfold verify decidePin
  rw [get_of_recorded hrecorded hlookup, hgiven]
  simp [given, hne]

/-! ## Runs -/

/-- The connection loses a record: its lookup fails and the host presents another key, or
it takes itself for a first use and the read of its update fails. -/
def Loses (file : PinFile) (key fingerprint : Str) (d : Connection) : Prop :=
  (d.lookupFails = true ∧ d.key = key ∧ d.presented ≠ fingerprint) ∨
  (d.updateFails = true ∧ FirstUse file d ∧ (d.key ≠ key ∨ key = "__proto__".toList))

/-- The record is kept, and another key refused under it. -/
def Keeps (file : PinFile) (key fingerprint : Str) (d : Connection) : Prop :=
  (d.key = key → d.presented ≠ fingerprint → ∃ reason, (verify file d).1 = .refused reason) ∧
  recorded (verify file d).2 key = some fingerprint

/-- The step: a record is kept by exactly the connections that do not lose it. -/
theorem keeps_iff (hrecorded : recorded file key = some c.presented) :
    Keeps file key c.presented d ↔ ¬Loses file key c.presented d := by
  constructor
  · rintro ⟨hrefused, hkept⟩ (⟨hlookup, hkey, hne⟩ | ⟨hupdate, hfirst, hkey⟩)
    · obtain ⟨reason, hreason⟩ := hrefused hkey hne
      rw [verify_of_firstUse (firstUse_of_lookupFails hlookup)] at hreason
      cases hreason
    · have hread : (readFile file d.updateFails).getD [] = [] := by
        rw [hupdate]
        rfl
      rw [verify_of_firstUse hfirst, recorded_set, hread, recorded_nil, recorded_nil] at hkept
      split at hkept
      · next h =>
        rcases hkey with hkey | hkey
        · exact hkey h.1
        · exact h.2 (h.1.trans hkey) rfl
      · cases hkept
  · intro hlose
    unfold Loses at hlose
    rw [not_or] at hlose
    obtain ⟨hlookup, hupdate⟩ := hlose
    constructor
    · rintro rfl hne
      refine verify_of_recorded hrecorded ?_ hne
      exact Bool.eq_false_iff.mpr fun hfails => hlookup ⟨hfails, rfl, hne⟩
    · by_cases hfirst : FirstUse file d
      · rw [verify_of_firstUse hfirst, recorded_set]
        have hread : d.key ≠ key ∨ key = "__proto__".toList →
            recorded (some ((readFile file d.updateFails).getD [])) key = some c.presented := by
          intro hkey
          have hupdates : d.updateFails = false :=
            Bool.eq_false_iff.mpr fun hfails => hupdate ⟨hfails, hfirst, hkey⟩
          obtain ⟨data, rfl, hdata⟩ := recorded_eq_some_iff.mp hrecorded
          rw [hupdates]
          exact hrecorded
        by_cases hkey : d.key = key
        · -- Its lookup has failed, so what it records is what was recorded.
          have hlookups : d.lookupFails = true := by
            by_contra hsucceeds
            rw [Bool.not_eq_true] at hsucceeds
            have hget := get_of_recorded (hkey ▸ hrecorded) hsucceeds
            unfold FirstUse at hfirst
            rw [hget] at hfirst
            cases (given_presented c).symm.trans (Except.ok.inj hfirst)
          have hsame : d.presented = c.presented := by
            by_contra hne
            exact hlookup ⟨hlookups, hkey, hne⟩
          rw [hsame]
          split
          · rfl
          · next h =>
            refine absurd ⟨hkey, fun hproto => ?_⟩ h
            rw [hkey, hread (Or.inr (hkey.symm.trans hproto))]
            exact Option.some_ne_none _
        · rw [if_neg fun h => hkey h.1, hread (Or.inl hkey)]
      · rw [verify_file_of_not_firstUse hfirst]
        exact hrecorded

theorem fileAfter_append (run₁ run₂ : List Connection) :
    fileAfter file (run₁ ++ run₂) = fileAfter (fileAfter file run₁) run₂ :=
  List.foldl_append

/-- In a run, `c` was accepted and its fingerprint recorded, and `d` comes later, when the
file is `current`. -/
def Follows (file : PinFile) (run : List Connection) (c d : Connection) (current : PinFile) :
    Prop :=
  ∃ before mid after, run = before ++ c :: (mid ++ d :: after) ∧
    (verify (fileAfter file before) c).1 = .accepted ∧
    recorded (fileAfter file (before ++ [c])) c.key = some c.presented ∧
    current = fileAfter file (before ++ c :: mid)

/-- A recorded key is never replaced. -/
def KeysKept (file : PinFile) (run : List Connection) : Prop :=
  ∀ c d current, Follows file run c d current → Keeps current c.key c.presented d

/-- What each connection keeps is kept by a run of them. -/
theorem recorded_run {mid : List Connection} (h : recorded file key = some fingerprint)
    (hstep : ∀ l d rest, mid = l ++ d :: rest →
      recorded (fileAfter file l) key = some fingerprint →
      recorded (verify (fileAfter file l) d).2 key = some fingerprint) :
    recorded (fileAfter file mid) key = some fingerprint := by
  induction mid using List.reverseRecOn with
  | nil => exact h
  | append_singleton mid d ih =>
    have hmid := ih fun l e rest hl => by
      exact hstep l e (rest ++ [d]) (by rw [hl, List.append_assoc, List.cons_append])
    rw [fileAfter_append]
    exact hstep mid d [] rfl hmid

/-- A run keeps its recorded keys exactly when no connection of it loses one. -/
theorem recorded_keys_kept_iff (file : PinFile) (run : List Connection) :
    KeysKept file run ↔
      ∀ c d current, Follows file run c d current → ¬Loses current c.key c.presented d := by
  have hrecorded : ∀ {before c mid}, recorded (fileAfter file (before ++ [c])) c.key =
      some c.presented → (∀ l d rest, mid = l ++ d :: rest →
        recorded (fileAfter file (before ++ c :: l)) c.key = some c.presented →
        recorded (verify (fileAfter file (before ++ c :: l)) d).2 c.key = some c.presented) →
      recorded (fileAfter file (before ++ c :: mid)) c.key = some c.presented := by
    intro before c mid hc hstep
    have hsplit : ∀ l, fileAfter file (before ++ c :: l) =
        fileAfter (fileAfter file (before ++ [c])) l := by
      intro l
      rw [← fileAfter_append, List.append_assoc]
      rfl
    rw [hsplit mid]
    refine recorded_run hc fun l d rest hl hrest => ?_
    rw [← hsplit l] at hrest ⊢
    exact hstep l d rest hl hrest
  constructor
  · rintro hkept c d current ⟨before, mid, after, rfl, haccepted, hc, rfl⟩
    refine (keeps_iff (hrecorded hc ?_)).mp
      (hkept c d _ ⟨before, mid, after, rfl, haccepted, hc, rfl⟩)
    rintro l e rest rfl -
    refine (hkept c e _ ⟨before, l, rest ++ d :: after, ?_, haccepted, hc, rfl⟩).2
    rw [List.append_assoc, List.cons_append]
  · rintro hnone c d current ⟨before, mid, after, rfl, haccepted, hc, rfl⟩
    refine (keeps_iff (hrecorded hc ?_)).mpr
      (hnone c d _ ⟨before, mid, after, rfl, haccepted, hc, rfl⟩)
    rintro l e rest rfl hl
    refine ((keeps_iff hl).mpr (hnone c e _ ⟨before, l, rest ++ d :: after, ?_, haccepted, hc,
      rfl⟩)).2
    rw [List.append_assoc, List.cons_append]

/-! ## A lookup that fails -/

/-- A connection to one host, which presents a key of some digest. -/
def pveConnection (digest : Str) (lookupFails : Bool) : Connection where
  channel := .ssh
  key := "pve:22".toList
  digest := digest
  lookupFails := lookupFails
  updateFails := false

/-- The lookup of the second connection fails, and another key is accepted. -/
theorem not_recorded_keys_kept :
    ¬KeysKept none [pveConnection ['A'] false, pveConnection ['B'] true] := by
  intro hkept
  have hkeeps := hkept (pveConnection ['A'] false) (pveConnection ['B'] true) _
    ⟨[], [], [], rfl, by decide +kernel, by decide +kernel, rfl⟩
  have hrecorded : recorded (fileAfter none [pveConnection ['A'] false]) "pve:22".toList =
      some (pveConnection ['A'] false).presented := by decide +kernel
  exact (keeps_iff hrecorded).mp hkeeps (Or.inl ⟨rfl, rfl, by decide +kernel⟩)

end HomelabMcp.Trust
