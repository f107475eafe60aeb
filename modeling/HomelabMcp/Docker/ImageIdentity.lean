import HomelabMcp.Docker.ImageRef
import HomelabMcp.Lib.FilePath
import HomelabMcp.Lib.Trim

/-!
# Image names by identity (dockerUpdate.ts)

Docker reads a reference as a registry, a path, a tag and a digest. Two spellings name
one repository when they agree on the registry (`docker.io` when none is written, and
under its old name) and on the path (`library/` goes before a single component there).

- `normalizeImageName_text`: what `normalizeImageName` makes of a reference, by how its
  registry is spelled.
- `normalizeImageName_eq_iff`: when two references get one name.
- `images_by_identity_iff`: when names are compared by identity, and when an image is
  found up to date by what its own repository has.
-/

namespace HomelabMcp.Docker

open SlashPath Text FilePath

/-! ## References -/

def hub : Str := "docker.io".toList

def legacyHub : Str := "index.docker.io".toList

def libraryName : Str := "library".toList

/-- What `parseImageRef` takes for a registry, where a slash follows. -/
def looksLikeHost (first : Str) : Bool :=
  first.contains '.' || first.contains ':' || first == "localhost".toList

/-- What Docker takes for a registry there. -/
def isHost (first : Str) : Bool :=
  looksLikeHost first || first.any Char.isUpper

def isPathChar (c : Char) : Bool :=
  c.isLower || c.isDigit || c == '.' || c == '_' || c == '-'

def isHostChar (c : Char) : Bool :=
  c.isAlphanum || c == '.' || c == ':' || c == '-' || c == '[' || c == ']'

def isTagChar (c : Char) : Bool :=
  c.isAlphanum || c == '_' || c == '.' || c == '-'

def isDigestChar (c : Char) : Bool :=
  c.isAlphanum || c == ':' || c == '+' || c == '.' || c == '_' || c == '-' || c == '='

/-- The components of a name, one behind the other. -/
def joined (parts : List Str) : Str :=
  ['/'].intercalate parts

/-- A reference in Docker's grammar, by its parts. -/
structure DockerRef where
  registry : Option Str
  path : List Str
  tag : Option Str
  digest : Option Str
  path_ne : path ≠ []
  path_ok : ∀ p ∈ path, p.all isPathChar = true
  registry_ok : ∀ d ∈ registry, isHost d = true ∧ d.all isHostChar = true
  /-- Without a registry, the path does not begin with what reads as one. -/
  unread : registry = none → path.length = 1 ∨ ∀ p ∈ path.head?, isHost p = false
  tag_ok : ∀ t ∈ tag, t.all isTagChar = true
  digest_ok : ∀ d ∈ digest, d.all isDigestChar = true
  deriving DecidableEq

namespace DockerRef

variable (r : DockerRef)

def parts : List Str :=
  r.registry.toList ++ r.path

/-- The reference without its digest. -/
def tagged : Str :=
  joined r.parts ++ r.tag.elim [] (':' :: ·)

def text : Str :=
  r.tagged ++ r.digest.elim [] ('@' :: ·)

/-- The registry that Docker goes to. -/
def host : Str :=
  let d := (r.registry.map toLowerCase).getD hub
  if d = legacyHub then hub else d

/-- The repository: its registry, and its path there. -/
def repository : List Str :=
  if r.host = hub ∧ r.path.length = 1 then hub :: libraryName :: r.path else r.host :: r.path

end DockerRef

/-! ## The verdict -/

inductive UpdateStatus
  | upToDate
  | updateAvailable
  | pinned
  | unknown
  deriving DecidableEq

/-- dockerUpdate.ts:365. -/
structure RemoteDigestResult where
  ref : Str
  digest : Option Str
  error : Option Str

/-- dockerUpdate.ts:421. -/
def classifyImageUpdate (ref : Str) (localDigest : Option Str)
    (remote : Option RemoteDigestResult) : UpdateStatus × Option Str :=
  if isDigestPinned ref then
    (.pinned, some "ref is digest-pinned; change it by editing the compose file".toList)
  else if isDigest ref then
    (.unknown, some "container was created from a bare image id (no ref to check)".toList)
  else if localDigest.getD [] = [] then
    (.unknown, some "local-image (no registry digest; built or loaded locally)".toList)
  else
    match remote with
    | none => (.unknown, some "registry not checked".toList)
    | some result =>
      if result.digest.getD [] = [] then
        (.unknown, some ("registry check failed: ".toList ++
          result.error.getD "no digest".toList))
      else if result.digest = localDigest then (.upToDate, none)
      else (.updateAvailable, none)

/-! ## How a registry is spelled -/

/-- How a reference spells its registry, as far as `parseImageRef` treats it
differently from Docker. -/
inductive Spelling
  /-- Read as Docker reads it. -/
  | plain
  /-- Docker Hub by name, with a single component behind it. -/
  | short
  /-- Docker Hub by its old name, not in lower case. -/
  | legacy
  /-- ... with a single component behind it. -/
  | legacyShort
  /-- A host that only its upper case tells from a path. -/
  | bareHost
  deriving DecidableEq

namespace DockerRef

variable (r : DockerRef)

/-- Without a registry there is nothing to misread. -/
def spelling : Spelling :=
  match r.registry with
  | none => .plain
  | some d =>
    if looksLikeHost d = false then .bareHost
    else if toLowerCase d = legacyHub ∧ d ≠ legacyHub then
      if r.path.length = 1 then .legacyShort else .legacy
    else if r.host = hub ∧ r.path.length = 1 then .short
    else .plain

/-- `r` is taken for `s`: its host is read as the first component of a path on Docker
Hub, and `s` is the repository of that path. -/
def Captures (r s : DockerRef) : Prop :=
  r.spelling = .bareHost ∧ s.spelling = .plain ∧ s.repository = hub :: r.repository

/-- One repository in one spelling, or one taken for the other. -/
def ReadAlike (r s : DockerRef) : Prop :=
  (r.repository = s.repository ∧ r.spelling = s.spelling) ∨ Captures r s ∨ Captures s r

instance : DecidableRel Captures := fun r s =>
  inferInstanceAs (Decidable (r.spelling = .bareHost ∧ s.spelling = .plain ∧
    s.repository = hub :: r.repository))

instance : DecidableRel ReadAlike := fun r s =>
  inferInstanceAs (Decidable ((r.repository = s.repository ∧ r.spelling = s.spelling) ∨
    Captures r s ∨ Captures s r))

/-- An entry with a digest as registries give it. -/
def hasDigest : Bool :=
  (r.digest.map isDigest).getD false

/-- The entries that are read as entries of the reference; a bare image id has none. -/
def alike (entries : List DockerRef) : List DockerRef :=
  if isDigest r.text then [] else entries.filter fun e => decide (ReadAlike e r) && e.hasDigest

/-- The entries of the reference's repository. -/
def own (entries : List DockerRef) : List DockerRef :=
  entries.filter fun e => decide (e.repository = r.repository) && e.hasDigest

/-- The verdict is "up to date" exactly when the digest that the registry gives is among
those of the reference's repository. -/
def UpToDateExactly (entries : List DockerRef) : Prop :=
  ∀ remote : Option RemoteDigestResult, (∀ x ∈ remote, ∀ d ∈ x.digest, isDigest d = true) →
    ((classifyImageUpdate r.text (localDigestFor r.text (entries.map text)) remote).1 = .upToDate ↔
      ∃ d, remote.bind (fun x => x.digest) = some d ∧
        ∃ e ∈ entries, e.repository = r.repository ∧ e.digest = some d)

/-- The repository has an entry exactly when one is read as its own, and then all its
entries have the digest of the first of these. -/
def OneDigest (entries : List DockerRef) : Prop :=
  (r.own entries = [] ↔ r.alike entries = []) ∧
    ∀ a ∈ (r.alike entries).head?, ∀ e ∈ r.own entries, e.digest = a.digest

end DockerRef

/-- The components that `parseImageRef` makes of a repository spelled so. -/
def Spelling.reads : Spelling → List Str → List Str
  | .plain, repository => repository
  | .short, repository => hub :: repository.drop 2
  | .legacy, repository => legacyHub :: repository.drop 1
  | .legacyShort, repository => legacyHub :: repository.drop 2
  | .bareHost, repository => hub :: repository

/-- The path and the repository of a reference whose registry is spelled so. -/
inductive Spelled : Spelling → List Str → List Str → Prop
  | plain {host : Str} {path : List Str} : looksLikeHost host = true → host ≠ legacyHub →
      path ≠ [] → (host = hub → path.length ≠ 1) → Spelled .plain path (host :: path)
  | implied (p : Str) : Spelled .plain [p] [hub, libraryName, p]
  | short (p : Str) : Spelled .short [p] [hub, libraryName, p]
  | legacy {path : List Str} : path ≠ [] → path.length ≠ 1 → Spelled .legacy path (hub :: path)
  | legacyShort (p : Str) : Spelled .legacyShort [p] [hub, libraryName, p]
  | bareHost {host : Str} {path : List Str} : host ≠ hub → path ≠ [] →
      Spelled .bareHost path (host :: path)

/-! ## Characters -/

/-- The characters of a reference without a digest, save its separators. -/
structure PlainChar (c : Char) : Prop where
  range : 45 ≤ c.toNat ∧ c.toNat ≤ 122
  slash : c ≠ '/'
  commat : c ≠ '@'

theorem PlainChar.isSpace {c : Char} (h : PlainChar c) : isSpace c = false := by
  have := h.range
  unfold Text.isSpace
  simp only [Bool.or_eq_false_iff, Bool.and_eq_false_iff, decide_eq_false_iff_not,
    beq_eq_false_iff_ne]
  omega

theorem isAlphanum_range {c : Char} (h : c.isAlphanum = true) :
    (48 ≤ c.toNat ∧ c.toNat ≤ 57) ∨ (65 ≤ c.toNat ∧ c.toNat ≤ 90) ∨
      (97 ≤ c.toNat ∧ c.toNat ≤ 122) := by
  unfold Char.isAlphanum Char.isAlpha Char.isUpper Char.isLower Char.isDigit at h
  simp only [Bool.or_eq_true, Bool.and_eq_true, decide_eq_true_eq, ge_iff_le,
    UInt32.le_iff_toNat_le] at h
  rcases h with (h | h) | h
  · exact Or.inr (Or.inl h)
  · exact Or.inr (Or.inr h)
  · exact Or.inl h

theorem plainChar_of_isAlphanum {c : Char} (h : c.isAlphanum = true) : PlainChar c := by
  have hrange := isAlphanum_range h
  refine ⟨by omega, ?_, ?_⟩
  · rintro rfl
    exact absurd hrange (by decide)
  · rintro rfl
    exact absurd hrange (by decide)

theorem plainChar_of_isPathChar {c : Char} (h : isPathChar c = true) : PlainChar c := by
  unfold isPathChar at h
  simp only [Bool.or_eq_true, beq_iff_eq] at h
  rcases h with (((h | h) | rfl) | rfl) | rfl
  · refine plainChar_of_isAlphanum ?_
    show (c.isUpper || c.isLower || c.isDigit) = true
    rw [h, Bool.or_true, Bool.true_or]
  · refine plainChar_of_isAlphanum ?_
    show (c.isAlpha || c.isDigit) = true
    rw [h, Bool.or_true]
  all_goals exact ⟨by decide, by decide, by decide⟩

theorem plainChar_of_isHostChar {c : Char} (h : isHostChar c = true) : PlainChar c := by
  unfold isHostChar at h
  simp only [Bool.or_eq_true, beq_iff_eq] at h
  rcases h with ((((h | rfl) | rfl) | rfl) | rfl) | rfl
  · exact plainChar_of_isAlphanum h
  all_goals exact ⟨by decide, by decide, by decide⟩

theorem plainChar_of_isTagChar {c : Char} (h : isTagChar c = true) : PlainChar c ∧ c ≠ ':' := by
  unfold isTagChar at h
  simp only [Bool.or_eq_true, beq_iff_eq] at h
  rcases h with ((h | rfl) | rfl) | rfl
  · refine ⟨plainChar_of_isAlphanum h, ?_⟩
    rintro rfl
    exact absurd h (by decide)
  all_goals exact ⟨⟨by decide, by decide, by decide⟩, by decide⟩

theorem isSpace_of_isDigestChar {c : Char} (h : isDigestChar c = true) : isSpace c = false := by
  unfold isDigestChar at h
  simp only [Bool.or_eq_true, beq_iff_eq] at h
  rcases h with (((((h | rfl) | rfl) | rfl) | rfl) | rfl) | rfl
  · exact (plainChar_of_isAlphanum h).isSpace
  all_goals decide

theorem toLower_cases (c : Char) : c.toLower = c ∧ ¬ (65 ≤ c.toNat ∧ c.toNat ≤ 90) ∨
    65 ≤ c.toNat ∧ c.toNat ≤ 90 ∧ c.toLower.toNat = c.toNat + 32 := by
  unfold Char.toLower
  split
  · rename_i hupper
    have hlo : 65 ≤ c.val.toNat := UInt32.le_iff_toNat_le.mp hupper.1
    have hhi : c.val.toNat ≤ 90 := UInt32.le_iff_toNat_le.mp hupper.2
    refine Or.inr ⟨hlo, hhi, ?_⟩
    show (c.val + ('a'.val - 'A'.val)).toNat = c.val.toNat + 32
    rw [UInt32.toNat_add, show ('a'.val - 'A'.val).toNat = 32 from rfl]
    omega
  · rename_i hupper
    refine Or.inl ⟨rfl, fun h => hupper ?_⟩
    exact ⟨UInt32.le_iff_toNat_le.mpr h.1, UInt32.le_iff_toNat_le.mpr h.2⟩

/-- No letter becomes a character that stands before the small letters. -/
theorem toLower_eq_iff {c e : Char} (he : e.toNat < 97) (hupper : ¬ (65 ≤ e.toNat ∧ e.toNat ≤ 90)) :
    c.toLower = e ↔ c = e := by
  rcases toLower_cases c with ⟨h, -⟩ | ⟨hlo, hhi, h⟩
  · rw [h]
  · refine iff_of_false ?_ ?_
    · rintro rfl
      omega
    · rintro rfl
      exact hupper ⟨hlo, hhi⟩

theorem mem_toLowerCase_iff {s : Str} {e : Char} (he : e.toNat < 97)
    (hupper : ¬ (65 ≤ e.toNat ∧ e.toNat ≤ 90)) : e ∈ toLowerCase s ↔ e ∈ s := by
  unfold toLowerCase
  simp only [List.mem_map, toLower_eq_iff he hupper, exists_eq_right]

theorem looksLikeHost_toLowerCase {d : Str} (h : looksLikeHost d = true) :
    looksLikeHost (toLowerCase d) = true := by
  unfold looksLikeHost at h ⊢
  simp only [Bool.or_eq_true, List.contains_iff_mem, beq_iff_eq] at h ⊢
  rcases h with (h | h) | h
  · exact Or.inl (Or.inl ((mem_toLowerCase_iff (by decide) (by decide)).mpr h))
  · exact Or.inl (Or.inr ((mem_toLowerCase_iff (by decide) (by decide)).mpr h))
  · exact Or.inr (by rw [h]; decide)

/-- A host without a dot is no name of Docker Hub. -/
theorem bare_ne_hub {d : Str} (h : looksLikeHost d = false) :
    toLowerCase d ≠ hub ∧ toLowerCase d ≠ legacyHub := by
  have hdot : '.' ∉ toLowerCase d := by
    rw [mem_toLowerCase_iff (by decide) (by decide)]
    have := (Bool.or_eq_false_iff.mp (Bool.or_eq_false_iff.mp h).1).1
    rwa [List.contains_eq_mem, decide_eq_false_iff_not] at this
  exact ⟨fun h => hdot (h ▸ by decide), fun h => hdot (h ▸ by decide)⟩

theorem hub_ne_legacyHub : hub ≠ legacyHub := by decide

/-- A path is in lower case, and has no colon. -/
theorem isPathChar_lower {c : Char} (h : isPathChar c = true) : c.toLower = c ∧ c ≠ ':' := by
  have hupper : ¬ (65 ≤ c.toNat ∧ c.toNat ≤ 90) ∧ c ≠ ':' := by
    unfold isPathChar Char.isLower Char.isDigit at h
    simp only [Bool.or_eq_true, Bool.and_eq_true, decide_eq_true_eq, beq_iff_eq, ge_iff_le,
      UInt32.le_iff_toNat_le] at h
    rcases h with (((h | h) | rfl) | rfl) | rfl
    · have hlo : 97 ≤ c.toNat := h.1
      refine ⟨by omega, ?_⟩
      rintro rfl
      exact absurd hlo (by decide)
    · have hhi : c.toNat ≤ 57 := h.2
      refine ⟨by omega, ?_⟩
      rintro rfl
      exact absurd hhi (by decide)
    all_goals decide
  refine ⟨?_, hupper.2⟩
  rcases toLower_cases c with h | h
  · exact h.1
  · exact absurd ⟨h.1, h.2.1⟩ hupper.1

theorem toLowerCase_path {p : Str} (h : p.all isPathChar = true) : toLowerCase p = p := by
  refine (List.map_congr_left fun c hc => ?_).trans (List.map_id p)
  exact (isPathChar_lower (List.all_eq_true.mp h c hc)).1

theorem toLowerCase_joined (l : List Str) : toLowerCase (joined l) = joined (l.map toLowerCase) := by
  unfold toLowerCase joined
  induction l with
  | nil => rfl
  | cons p l ih =>
    cases l with
    | nil => simp
    | cons q l =>
      rw [List.intercalate_cons_cons, List.map_append, List.map_append, ih]
      exact (List.intercalate_cons_cons).symm

theorem joined_injective {l m : List Str} (hl : l ≠ []) (hm : m ≠ []) (hls : ∀ p ∈ l, '/' ∉ p)
    (hms : ∀ p ∈ m, '/' ∉ p) (h : joined l = joined m) : l = m := by
  have hsplit := congrArg (List.splitOn '/') h
  unfold joined at hsplit
  rwa [List.splitOn_intercalate '/' hls hl, List.splitOn_intercalate '/' hms hm] at hsplit

/-! ## Parsing a reference -/

theorem splitTag_joined {parts : List Str} (hne : parts ≠ [])
    (hlast : ':' ∉ parts.getLast hne ∧ '/' ∉ parts.getLast hne) :
    splitTag (joined parts) = (joined parts, none) := by
  obtain ⟨init, last, rfl⟩ : ∃ init last, parts = init ++ [last] :=
    ⟨parts.dropLast, parts.getLast hne, (List.dropLast_concat_getLast hne).symm⟩
  rw [List.getLast_concat] at hlast
  have hplain : ∀ c ∈ last.reverse, (c != ':' && c != '/') = true := by
    intro c hc
    have hcl := List.mem_reverse.mp hc
    have hcolon : c ≠ ':' := fun h => hlast.1 (h ▸ hcl)
    have hslash : c ≠ '/' := fun h => hlast.2 (h ▸ hcl)
    simp [hcolon, hslash]
  -- what stands before the last component is nothing, or ends in a slash
  obtain ⟨front, hfront, hjoin⟩ : ∃ front, (front = [] ∨ ∃ rest, front = '/' :: rest) ∧
      (joined (init ++ [last])).reverse = last.reverse ++ front := by
    by_cases hinit : init = []
    · subst hinit
      exact ⟨[], Or.inl rfl, by simp [joined]⟩
    · refine ⟨'/' :: (joined init).reverse, Or.inr ⟨_, rfl⟩, ?_⟩
      unfold joined
      rw [intercalate_append hinit (List.cons_ne_nil last []), List.intercalate_singleton]
      simp
  have hsegment : (last.reverse ++ front).takeWhile (fun c => c != ':' && c != '/') =
      last.reverse := by
    rw [List.takeWhile_append_of_pos hplain]
    rcases hfront with rfl | ⟨rest, rfl⟩
    · rw [List.takeWhile_nil, List.append_nil]
    · rw [List.takeWhile_cons_of_neg (by decide), List.append_nil]
  unfold splitTag
  dsimp only
  rw [hjoin, hsegment, List.drop_left]
  rcases hfront with rfl | ⟨rest, rfl⟩
  · rfl
  · rfl

theorem mem_joined {l : List Str} {c : Char} (h : c ∈ joined l) : c = '/' ∨ ∃ p ∈ l, c ∈ p := by
  unfold joined at h
  induction l with
  | nil => cases h
  | cons p l ih =>
    cases l with
    | nil =>
      rw [List.intercalate_singleton] at h
      exact Or.inr ⟨p, List.mem_cons_self, h⟩
    | cons q l =>
      rw [List.intercalate_cons_cons, List.append_assoc, List.mem_append] at h
      rcases h with h | h
      · exact Or.inr ⟨p, List.mem_cons_self, h⟩
      · rcases List.mem_append.mp h with h | h
        · exact Or.inl (List.mem_singleton.mp h)
        · exact (ih h).imp_right fun ⟨t, ht, hc⟩ => ⟨t, List.mem_cons_of_mem p ht, hc⟩

theorem trim_of_noSpace {s : Str} (h : ∀ c ∈ s, isSpace c = false) : trim s = s := by
  have hdrop : ∀ t : Str, (∀ c ∈ t, isSpace c = false) → t.dropWhile isSpace = t := by
    intro t ht
    cases t with
    | nil => rfl
    | cons c t =>
      exact List.dropWhile_cons_of_neg (by rw [ht c List.mem_cons_self]; exact Bool.false_ne_true)
  unfold trim
  rw [hdrop s h, hdrop s.reverse fun c hc => h c (List.mem_reverse.mp hc), List.reverse_reverse]

/-- A name without a tag and a digest is completed as it is. -/
theorem normalizeImageName_joined {parts : List Str} (hne : parts ≠ [])
    (hchar : ∀ p ∈ parts, ∀ c ∈ p, PlainChar c) (hlast : ':' ∉ parts.getLast hne) :
    normalizeImageName (joined parts) = toLowerCase (qualify (joined parts)) := by
  have hname : ∀ c ∈ joined parts, isSpace c = false ∧ c ≠ '@' := by
    intro c hc
    rcases mem_joined hc with rfl | ⟨p, hp, hcp⟩
    · decide
    · exact ⟨(hchar p hp c hcp).isSpace, (hchar p hp c hcp).commat⟩
  have hnamed : (joined parts).takeWhile (fun c => c != '@') = joined parts :=
    List.takeWhile_eq_self_iff.mpr fun c hc => by simpa using (hname c hc).2
  have hslash : '/' ∉ parts.getLast hne := fun hc =>
    (hchar _ (List.getLast_mem hne) _ hc).slash rfl
  unfold normalizeImageName parseImageRef
  dsimp only
  rw [trim_of_noSpace fun c hc => (hname c hc).1, hnamed, splitTag_joined hne ⟨hlast, hslash⟩]

namespace DockerRef

variable (r : DockerRef)

theorem parts_ne : r.parts ≠ [] := by
  unfold parts
  exact List.append_ne_nil_of_right_ne_nil _ r.path_ne

theorem plainChar_of_mem_parts {p : Str} (hp : p ∈ r.parts) {c : Char} (hc : c ∈ p) :
    PlainChar c := by
  rcases List.mem_append.mp hp with hp | hp
  · have hreg := (r.registry_ok p (Option.mem_toList.mp hp)).2
    exact plainChar_of_isHostChar (List.all_eq_true.mp hreg c hc)
  · exact plainChar_of_isPathChar (List.all_eq_true.mp (r.path_ok p hp) c hc)

theorem slash_notMem_parts {p : Str} (hp : p ∈ r.parts) : '/' ∉ p := fun hc =>
  (r.plainChar_of_mem_parts hp hc).slash rfl

theorem tagged_char {c : Char} (h : c ∈ r.tagged) : isSpace c = false ∧ c ≠ '@' := by
  rcases List.mem_append.mp h with h | h
  · rcases mem_joined h with rfl | ⟨p, hp, hc⟩
    · decide
    · have hplain := r.plainChar_of_mem_parts hp hc
      exact ⟨hplain.isSpace, hplain.commat⟩
  · cases htag : r.tag with
    | none =>
      rw [htag] at h
      cases h
    | some t =>
      rw [htag] at h
      rcases List.mem_cons.mp h with rfl | h
      · decide
      · have hplain := plainChar_of_isTagChar (List.all_eq_true.mp (r.tag_ok t htag) c h)
        exact ⟨hplain.1.isSpace, hplain.1.commat⟩

theorem text_noSpace {c : Char} (h : c ∈ r.text) : isSpace c = false := by
  rcases List.mem_append.mp h with h | h
  · exact (r.tagged_char h).1
  · cases hdigest : r.digest with
    | none =>
      rw [hdigest] at h
      cases h
    | some d =>
      rw [hdigest] at h
      rcases List.mem_cons.mp h with rfl | h
      · decide
      · exact isSpace_of_isDigestChar (List.all_eq_true.mp (r.digest_ok d hdigest) c h)

theorem splitTag_tagged : splitTag r.tagged = (joined r.parts, r.tag) := by
  unfold tagged
  cases htag : r.tag with
  | some t =>
    refine splitTag_append _ t fun c hc => ?_
    have hplain := plainChar_of_isTagChar (List.all_eq_true.mp (r.tag_ok t htag) c hc)
    exact ⟨hplain.2, hplain.1.slash⟩
  | none =>
    show splitTag (joined r.parts ++ []) = _
    rw [List.append_nil]
    refine splitTag_joined r.parts_ne ⟨fun hc => ?_, r.slash_notMem_parts (List.getLast_mem _)⟩
    have hlast : r.parts.getLast r.parts_ne = r.path.getLast r.path_ne :=
      List.getLast_append_of_ne_nil r.parts_ne r.path_ne
    rw [hlast] at hc
    exact (isPathChar_lower
      (List.all_eq_true.mp (r.path_ok _ (List.getLast_mem r.path_ne)) _ hc)).2 rfl

/-- A reference comes apart into its parts. -/
theorem parseImageRef_text : parseImageRef r.text =
    ⟨toLowerCase (qualify (joined r.parts)), joined r.parts, r.tag, r.digest⟩ := by
  have htrim : trim r.text = r.text := trim_of_noSpace fun c hc => r.text_noSpace hc
  have hnamed : r.text.takeWhile (fun c => c != '@') = r.tagged := by
    unfold text
    rw [List.takeWhile_append_of_pos fun c hc => by simpa using (r.tagged_char hc).2]
    cases r.digest with
    | none => exact List.append_nil _
    | some d =>
      show r.tagged ++ ('@' :: d).takeWhile _ = _
      rw [List.takeWhile_cons_of_neg (by decide), List.append_nil]
  have hdigest : (r.text.drop r.tagged.length).tail? = r.digest := by
    unfold text
    rw [List.drop_left]
    cases r.digest with
    | none => rfl
    | some d => rfl
  unfold parseImageRef
  dsimp only
  rw [htrim, hnamed, splitTag_tagged, hdigest]

end DockerRef

/-! ## Completing a name -/

theorem joined_cons {p : Str} {l : List Str} (hl : l ≠ []) :
    joined (p :: l) = p ++ '/' :: joined l := by
  unfold joined
  rw [List.intercalate_cons_of_ne_nil hl, List.append_assoc]
  rfl

theorem slash_prefix_iff {a d l : Str} (ha : '/' ∉ a) (hd : '/' ∉ d) :
    a ++ ['/'] <+: d ++ '/' :: l ↔ a = d := by
  constructor
  · rintro ⟨rest, hrest⟩
    rw [List.append_assoc] at hrest
    have hsegments := congrArg segments hrest
    rw [List.singleton_append, segments_slash, segments_slash, segments_of_notMem ha,
      segments_of_notMem hd] at hsegments
    exact (List.cons.inj hsegments).1
  · rintro rfl
    exact ⟨l, by simp⟩

/-- The last step of `qualify`: the old name of Docker Hub is replaced. -/
theorem replace_legacy {d : Str} {rest : List Str} (hd : '/' ∉ d) (hrest : rest ≠ []) :
    (if "index.docker.io/".toList.isPrefixOf (joined (d :: rest)) then
        "docker.io/".toList ++ (joined (d :: rest)).drop 16
      else joined (d :: rest)) = joined ((if d = legacyHub then hub else d) :: rest) := by
  have hlegacyStart : "index.docker.io/".toList.isPrefixOf (joined (d :: rest)) = true ↔
      d = legacyHub := by
    rw [List.isPrefixOf_iff_prefix, joined_cons hrest,
      show "index.docker.io/".toList = legacyHub ++ ['/'] by decide,
      slash_prefix_iff (by decide) hd, eq_comm]
  by_cases hlegacy : d = legacyHub
  · rw [if_pos (hlegacyStart.mpr hlegacy), if_pos hlegacy, joined_cons hrest, joined_cons hrest, hlegacy]
    rfl
  · rw [if_neg (fun h => hlegacy (hlegacyStart.mp h)), if_neg hlegacy]

/-- `qualify`, once the name is known that it completes the repository to. -/
theorem qualify_of_name {repo d : Str} {rest : List Str} (hd : '/' ∉ d) (hrest : rest ≠ [])
    (hname : (if (decide (1 < (List.splitOn '/' repo).length) &&
          looksLikeHost ((List.splitOn '/' repo).headD [])) = true then repo
        else if (List.splitOn '/' repo).length = 1 then "docker.io/library/".toList ++ repo
        else "docker.io/".toList ++ repo) = joined (d :: rest)) :
    qualify repo = joined ((if d = legacyHub then hub else d) :: rest) :=
  (congrArg (fun name => if "index.docker.io/".toList.isPrefixOf name then
    "docker.io/".toList ++ name.drop 16 else name) hname).trans (replace_legacy hd hrest)

theorem splitOn_joined {parts : List Str} (hne : parts ≠ []) (hslash : ∀ q ∈ parts, '/' ∉ q) :
    List.splitOn '/' (joined parts) = parts :=
  List.splitOn_intercalate '/' hslash hne

theorem qualify_single {p : Str} (hp : '/' ∉ p) :
    qualify (joined [p]) = joined [hub, libraryName, p] := by
  have hsplit := splitOn_joined (List.cons_ne_nil p []) (by simpa using hp)
  refine (qualify_of_name (d := hub) (by decide) (List.cons_ne_nil libraryName [p]) ?_).trans ?_
  · have hshort : ¬ (decide (1 < [p].length) && looksLikeHost ([p].headD [])) = true :=
      fun h => Bool.false_ne_true h
    rw [hsplit, if_neg hshort]
    rfl
  · rw [if_neg (by decide)]

theorem qualify_host {d : Str} {rest : List Str} (hslash : ∀ q ∈ d :: rest, '/' ∉ q)
    (hrest : rest ≠ []) (hhost : looksLikeHost d = true) :
    qualify (joined (d :: rest)) = joined ((if d = legacyHub then hub else d) :: rest) := by
  have hsplit := splitOn_joined (List.cons_ne_nil d rest) hslash
  have hlong : 1 < (d :: rest).length := Nat.succ_lt_succ (List.length_pos_iff.mpr hrest)
  refine qualify_of_name (hslash d List.mem_cons_self) hrest ?_
  rw [hsplit, List.headD_cons, hhost, Bool.and_true, if_pos (decide_eq_true hlong)]

theorem qualify_path {p : Str} {rest : List Str} (hslash : ∀ q ∈ p :: rest, '/' ∉ q)
    (hrest : rest ≠ []) (hhost : looksLikeHost p = false) :
    qualify (joined (p :: rest)) = joined (hub :: p :: rest) := by
  have hsplit := splitOn_joined (List.cons_ne_nil p rest) hslash
  have hlong : (p :: rest).length ≠ 1 := by
    have := List.length_pos_iff.mpr hrest
    rw [List.length_cons]
    omega
  refine (qualify_of_name (d := hub) (by decide) (List.cons_ne_nil p rest) ?_).trans ?_
  · rw [hsplit, List.headD_cons, hhost, Bool.and_false, if_neg Bool.false_ne_true, if_neg hlong,
      joined_cons (p := hub) (List.cons_ne_nil p rest)]
    rfl
  · rw [if_neg (by decide)]

theorem toLowerCase_hub : toLowerCase hub = hub := by decide

theorem toLowerCase_legacyHub : toLowerCase legacyHub = legacyHub := by decide

theorem toLowerCase_libraryName : toLowerCase libraryName = libraryName := by decide

namespace DockerRef

variable (r : DockerRef)

theorem toLowerCase_path : r.path.map toLowerCase = r.path :=
  (List.map_congr_left fun p hp => Docker.toLowerCase_path (r.path_ok p hp)).trans (List.map_id _)

theorem spelling_of_none (hreg : r.registry = none) : r.spelling = .plain := by
  unfold spelling
  rw [hreg]

theorem host_of_none (hreg : r.registry = none) : r.host = hub := by
  unfold host
  rw [hreg]
  decide

theorem parts_of_none (hreg : r.registry = none) : r.parts = r.path := by
  unfold parts
  rw [hreg]
  rfl

theorem parts_of_some {d : Str} (hreg : r.registry = some d) : r.parts = d :: r.path := by
  unfold parts
  rw [hreg]
  rfl

theorem host_of_some {d : Str} (hreg : r.registry = some d) :
    r.host = if toLowerCase d = legacyHub then hub else toLowerCase d := by
  unfold host
  rw [hreg]
  rfl

/-- A path component without upper case that is no host is none for `parseImageRef`. -/
theorem looksLikeHost_of_isHost {p : Str} (h : isHost p = false) : looksLikeHost p = false :=
  (Bool.or_eq_false_iff.mp h).1

/-- Without a registry, Docker Hub is supplied as Docker does. -/
theorem read_of_none (hreg : r.registry = none) : Spelled .plain r.path r.repository ∧
    toLowerCase (qualify (joined r.parts)) = joined r.repository := by
  have hslash : ∀ q ∈ r.parts, '/' ∉ q := fun q hq => r.slash_notMem_parts hq
  have hlower := r.toLowerCase_path
  have hunread := r.unread hreg
  unfold repository
  rw [host_of_none r hreg]
  rw [parts_of_none r hreg] at hslash ⊢
  obtain ⟨p, rest, hpath⟩ := List.exists_cons_of_ne_nil r.path_ne
  rw [hpath] at hslash hlower hunread ⊢
  by_cases hrest : rest = []
  · subst hrest
    rw [if_pos ⟨rfl, rfl⟩, qualify_single (hslash p List.mem_cons_self), toLowerCase_joined,
      List.map_cons, List.map_cons, hlower, toLowerCase_hub, toLowerCase_libraryName]
    exact ⟨.implied p, rfl⟩
  · have hlong : (p :: rest).length ≠ 1 := by
      have := List.length_pos_iff.mpr hrest
      rw [List.length_cons]
      omega
    have hhost := looksLikeHost_of_isHost (hunread.resolve_left hlong p rfl)
    rw [if_neg fun h => hlong h.2, qualify_path hslash hrest hhost, toLowerCase_joined,
      List.map_cons, hlower, toLowerCase_hub]
    exact ⟨.plain (by decide) hub_ne_legacyHub (List.cons_ne_nil p rest) fun _ => hlong, rfl⟩

/-- What is made of a reference, by how its registry is spelled. -/
theorem read_spec : Spelled r.spelling r.path r.repository ∧
    toLowerCase (qualify (joined r.parts)) = joined (r.spelling.reads r.repository) := by
  cases hreg : r.registry with
  | none =>
    rw [spelling_of_none r hreg]
    exact r.read_of_none hreg
  | some d =>
    have hslash : ∀ q ∈ r.parts, '/' ∉ q := fun q hq => r.slash_notMem_parts hq
    have hhost := r.host_of_some hreg
    have honly : ∀ {P : Prop}, r.path.length ≠ 1 → ¬ (P ∧ r.path.length = 1) := fun h h' => h h'.2
    rw [parts_of_some r hreg] at hslash ⊢
    unfold spelling
    rw [hreg]
    dsimp only
    unfold repository
    by_cases hlooks : looksLikeHost d = true
    · have hread : ¬ looksLikeHost d = false := by rw [hlooks]; decide
      rw [qualify_host hslash r.path_ne hlooks, toLowerCase_joined, List.map_cons, toLowerCase_path,
        if_neg hread]
      by_cases hold : toLowerCase d = legacyHub
      · rw [if_pos hold] at hhost
        rw [hhost]
        by_cases hlegacy : d = legacyHub
        · have hplain : ¬ (toLowerCase d = legacyHub ∧ d ≠ legacyHub) := fun h => h.2 hlegacy
          rw [if_neg hplain, if_pos hlegacy, toLowerCase_hub]
          by_cases hone : r.path.length = 1
          · obtain ⟨p, hp⟩ := List.length_eq_one_iff.mp hone
            rw [if_pos ⟨rfl, hone⟩, if_pos ⟨rfl, hone⟩, hp]
            exact ⟨.short p, rfl⟩
          · rw [if_neg (honly hone), if_neg (honly hone)]
            exact ⟨.plain (by decide) hub_ne_legacyHub r.path_ne fun _ => hone, rfl⟩
        · rw [if_neg hlegacy, if_pos ⟨hold, hlegacy⟩, hold]
          by_cases hone : r.path.length = 1
          · obtain ⟨p, hp⟩ := List.length_eq_one_iff.mp hone
            rw [if_pos hone, if_pos ⟨rfl, hone⟩, hp]
            exact ⟨.legacyShort p, rfl⟩
          · rw [if_neg hone, if_neg (honly hone)]
            exact ⟨.legacy r.path_ne hone, rfl⟩
      · have hlegacy : d ≠ legacyHub := fun h => hold (h ▸ toLowerCase_legacyHub)
        have hplain : ¬ (toLowerCase d = legacyHub ∧ d ≠ legacyHub) := fun h => hold h.1
        rw [if_neg hold] at hhost
        rw [if_neg hplain, if_neg hlegacy, hhost]
        by_cases hone : toLowerCase d = hub ∧ r.path.length = 1
        · obtain ⟨p, hp⟩ := List.length_eq_one_iff.mp hone.2
          rw [if_pos hone, if_pos hone, hone.1, hp]
          exact ⟨.short p, rfl⟩
        · rw [if_neg hone, if_neg hone]
          exact ⟨.plain (looksLikeHost_toLowerCase hlooks) hold r.path_ne
            fun hh hlen => hone ⟨hh, hlen⟩, rfl⟩
    · have hbare := Bool.eq_false_iff.mpr hlooks
      obtain ⟨hnothub, hnotlegacy⟩ := bare_ne_hub hbare
      rw [if_neg hnotlegacy] at hhost
      -- the host is read as the first component of a path on Docker Hub
      rw [qualify_path hslash r.path_ne hbare, toLowerCase_joined, List.map_cons, List.map_cons,
        toLowerCase_path, if_pos hbare, toLowerCase_hub, hhost,
        if_neg fun h : toLowerCase d = hub ∧ r.path.length = 1 => hnothub h.1]
      exact ⟨.bareHost hnothub r.path_ne, rfl⟩

/-- The name that a reference gets. -/
theorem normalizeImageName_text :
    normalizeImageName r.text = joined (r.spelling.reads r.repository) := by
  unfold normalizeImageName
  rw [parseImageRef_text]
  exact r.read_spec.2

/-- A small plain character, as normalized names have. -/
def IsNameChar (c : Char) : Prop :=
  PlainChar c ∧ c.toLower = c

theorem isNameChar_toLower {c : Char} (h : PlainChar c) : IsNameChar c.toLower := by
  rcases toLower_cases c with ⟨hsame, -⟩ | ⟨hlo, hhi, hval⟩
  · rw [hsame]
    exact ⟨h, hsame⟩
  · have hrange : 97 ≤ c.toLower.toNat ∧ c.toLower.toNat ≤ 122 := by omega
    refine ⟨⟨by omega, ?_, ?_⟩, ?_⟩
    · intro hc
      rw [hc] at hrange
      exact absurd hrange (by decide)
    · intro hc
      rw [hc] at hrange
      exact absurd hrange (by decide)
    · rcases toLower_cases c.toLower with h' | h'
      · exact h'.1
      · omega

theorem isNameChar_hub {c : Char} (h : c ∈ hub ∨ c ∈ legacyHub ∨ c ∈ libraryName) :
    IsNameChar c := by
  have hletters : ∀ e ∈ hub ++ legacyHub ++ libraryName, isPathChar e = true :=
    fun e he => List.all_eq_true.mp (by decide) e he
  have hc : isPathChar c = true := hletters c (by simpa [or_assoc] using h)
  exact ⟨plainChar_of_isPathChar hc, (isPathChar_lower hc).1⟩

theorem repository_char {p : Str} (hp : p ∈ r.repository) {c : Char} (hc : c ∈ p) :
    IsNameChar c := by
  have hpath : ∀ q ∈ r.path, c ∈ q → IsNameChar c := by
    intro q hq hcq
    have hchar := List.all_eq_true.mp (r.path_ok q hq) c hcq
    exact ⟨plainChar_of_isPathChar hchar, (isPathChar_lower hchar).1⟩
  have hhost : ∀ q, q = r.host → c ∈ q → IsNameChar c := by
    rintro q rfl hcq
    cases hreg : r.registry with
    | none =>
      rw [host_of_none r hreg] at hcq
      exact isNameChar_hub (Or.inl hcq)
    | some d =>
      rw [host_of_some r hreg] at hcq
      split at hcq
      · exact isNameChar_hub (Or.inl hcq)
      · obtain ⟨e, he, rfl⟩ := List.mem_map.mp hcq
        have hreg' := (r.registry_ok d hreg).2
        exact isNameChar_toLower (plainChar_of_isHostChar (List.all_eq_true.mp hreg' e he))
  unfold repository at hp
  split at hp
  · rcases List.mem_cons.mp hp with rfl | hp
    · exact isNameChar_hub (Or.inl hc)
    · rcases List.mem_cons.mp hp with rfl | hp
      · exact isNameChar_hub (Or.inr (Or.inr hc))
      · exact hpath p hp hc
  · rcases List.mem_cons.mp hp with hp | hp
    · exact hhost p hp hc
    · exact hpath p hp hc

end DockerRef

/-! ## Names of one repository -/

theorem mem_reads {k : Spelling} {l : List Str} {p : Str} (h : p ∈ k.reads l) :
    p = hub ∨ p = legacyHub ∨ p ∈ l := by
  cases k with
  | plain => exact Or.inr (Or.inr h)
  | short => exact (List.mem_cons.mp h).imp_right fun h => Or.inr (List.mem_of_mem_drop h)
  | legacy => exact Or.inr ((List.mem_cons.mp h).imp_right List.mem_of_mem_drop)
  | legacyShort => exact Or.inr ((List.mem_cons.mp h).imp_right List.mem_of_mem_drop)
  | bareHost => exact (List.mem_cons.mp h).imp_right Or.inr

/-- A name that is read off a repository ends in the path, and begins with a host: with the
old name of Docker Hub, where that was not in lower case. -/
theorem Spelled.reads_eq {k : Spelling} {path l : List Str} (h : Spelled k path l) :
    ∃ d front, k.reads l = d :: (front ++ path) ∧ path ≠ [] ∧ looksLikeHost d = true ∧
      (d = legacyHub ↔ k = .legacy ∨ k = .legacyShort) := by
  have hhub : looksLikeHost hub = true := by decide
  have hlegacy : looksLikeHost legacyHub = true := by decide
  cases h with
  | @plain host _ hlooks hne hpath _ => exact ⟨host, [], rfl, hpath, hlooks, by simpa using hne⟩
  | implied p =>
    exact ⟨hub, [libraryName], rfl, List.cons_ne_nil p [], hhub, by simpa using hub_ne_legacyHub⟩
  | short p => exact ⟨hub, [], rfl, List.cons_ne_nil p [], hhub, by simpa using hub_ne_legacyHub⟩
  | legacy hpath _ => exact ⟨legacyHub, [], rfl, hpath, hlegacy, by simp⟩
  | legacyShort p => exact ⟨legacyHub, [], rfl, List.cons_ne_nil p [], hlegacy, by simp⟩
  | @bareHost host _ _ hpath =>
    exact ⟨hub, [host], rfl, hpath, hhub, by simpa using hub_ne_legacyHub⟩

/-- What is read off tells repository and spelling, save where a host is taken for the
first component of a path. -/
theorem reads_eq_iff {k k' : Spelling} {path path' l l' : List Str} (h : Spelled k path l)
    (h' : Spelled k' path' l') : k.reads l = k'.reads l' ↔ (l = l' ∧ k = k') ∨
      (k = .bareHost ∧ k' = .plain ∧ l' = hub :: l) ∨
        (k' = .bareHost ∧ k = .plain ∧ l = hub :: l') := by
  have hne := hub_ne_legacyHub
  -- the hosts tell most pairs of spellings apart, the lengths of the paths the others
  cases h <;> cases h' <;> simp [Spelling.reads] <;> grind

namespace DockerRef

variable (r s : DockerRef)

theorem reads_char {p : Str} (hp : p ∈ r.spelling.reads r.repository) {c : Char} (hc : c ∈ p) :
    IsNameChar c := by
  rcases mem_reads hp with rfl | rfl | hp
  · exact isNameChar_hub (Or.inl hc)
  · exact isNameChar_hub (Or.inr (Or.inl hc))
  · exact r.repository_char hp hc

/-- Two references get one name exactly when they are read alike. -/
theorem normalizeImageName_eq_iff :
    normalizeImageName r.text = normalizeImageName s.text ↔ ReadAlike r s := by
  have hslash : ∀ t : DockerRef, ∀ p ∈ t.spelling.reads t.repository, '/' ∉ p :=
    fun t p hp hc => (t.reads_char hp hc).1.slash rfl
  have hne : ∀ t : DockerRef, t.spelling.reads t.repository ≠ [] := fun t => by
    obtain ⟨d, front, hreads, -⟩ := t.read_spec.1.reads_eq
    rw [hreads]
    exact List.cons_ne_nil _ _
  rw [normalizeImageName_text, normalizeImageName_text]
  refine Iff.trans ⟨joined_injective (hne r) (hne s) (hslash r) (hslash s), congrArg joined⟩ ?_
  exact reads_eq_iff r.read_spec.1 s.read_spec.1

/-- Normalizing again changes a name exactly when Docker Hub was written by its old name,
and not in lower case. -/
theorem normalizeImageName_idempotent_iff :
    normalizeImageName (normalizeImageName r.text) = normalizeImageName r.text ↔
      ¬ (r.spelling = .legacy ∨ r.spelling = .legacyShort) := by
  obtain ⟨d, front, hreads, hpath, hlooks, hlegacy⟩ := r.read_spec.1.reads_eq
  have hchar : ∀ p ∈ d :: (front ++ r.path), ∀ c ∈ p, IsNameChar c :=
    fun p hp c hc => r.reads_char (hreads ▸ hp) hc
  have hslash : ∀ p ∈ d :: (front ++ r.path), '/' ∉ p := fun p hp hc => (hchar p hp _ hc).1.slash rfl
  have hrest : front ++ r.path ≠ [] := List.append_ne_nil_of_right_ne_nil front hpath
  have hlower : (d :: (front ++ r.path)).map toLowerCase = d :: (front ++ r.path) := by
    refine (List.map_congr_left fun p hp => ?_).trans (List.map_id _)
    exact (List.map_congr_left fun c hc => (hchar p hp c hc).2).trans (List.map_id _)
  rw [normalizeImageName_text, hreads, ← hlegacy]
  have hparse : normalizeImageName (joined (d :: (front ++ r.path))) =
      joined ((if d = legacyHub then hub else d) :: (front ++ r.path)) := by
    have hlast : ':' ∉ (d :: (front ++ r.path)).getLast (List.cons_ne_nil _ _) := by
      rw [List.getLast_cons hrest, List.getLast_append_of_ne_nil hrest hpath]
      intro hc
      exact (isPathChar_lower (List.all_eq_true.mp (r.path_ok _ (List.getLast_mem hpath)) _ hc)).2 rfl
    rw [normalizeImageName_joined (List.cons_ne_nil _ _) (fun p hp c hc => (hchar p hp c hc).1) hlast,
      qualify_host hslash hrest hlooks, toLowerCase_joined, List.map_cons, (List.cons.inj hlower).2]
    split
    · rw [toLowerCase_hub]
    · rw [(List.cons.inj hlower).1]
  rw [hparse]
  by_cases hd : d = legacyHub
  · rw [if_pos hd]
    refine iff_of_false (fun h => ?_) (fun h => h hd)
    have := joined_injective (List.cons_ne_nil _ _) (List.cons_ne_nil _ _) ?_ hslash h
    · exact hub_ne_legacyHub ((List.cons.inj this).1.trans hd)
    · intro p hp
      rcases List.mem_cons.mp hp with rfl | hp
      · decide
      · exact hslash p (List.mem_cons_of_mem d hp)
  · rw [if_neg hd]
    exact iff_of_true rfl hd

/-! ## The verdict -/

theorem hasDigest_iff : r.hasDigest = true ↔ ∃ d, r.digest = some d ∧ isDigest d = true := by
  unfold hasDigest
  cases r.digest with
  | none => simp
  | some d => simp

theorem isDigest_ne_nil {d : Str} (h : isDigest d = true) : d ≠ [] := by
  rintro rfl
  exact absurd h (by decide)

theorem find_map_bind {α β γ : Type} {f : α → β} {p : β → Bool} {q : α → Bool}
    {g : β → Option γ} {g' : α → Option γ} (hp : ∀ a, p (f a) = q a) (hg : ∀ a, g (f a) = g' a)
    (l : List α) : ((l.map f).find? p).bind g = (l.filter q).head?.bind g' := by
  induction l with
  | nil => rfl
  | cons a l ih =>
    rw [List.map_cons]
    by_cases h : q a = true
    · rw [List.find?_cons_of_pos ((hp a).trans h), List.filter_cons_of_pos h]
      exact hg a
    · rw [List.find?_cons_of_neg (by rw [hp a]; exact h), List.filter_cons_of_neg h]
      exact ih

/-- The local digest of a reference is that of the first entry read alike. -/
theorem localDigestFor_text (entries : List DockerRef) :
    localDigestFor r.text (entries.map text) =
      (entries.filter fun e => decide (ReadAlike e r) && e.hasDigest).head?.bind
        fun e => e.digest := by
  unfold localDigestFor
  rw [List.map_map]
  refine find_map_bind (fun e => ?_) (fun e => ?_) entries
  · show ((parseImageRef e.text).name == normalizeImageName r.text &&
      ((parseImageRef e.text).digest.map isDigest).getD false) = _
    have hname : ((parseImageRef e.text).name == normalizeImageName r.text) =
        decide (ReadAlike e r) := by
      rw [beq_eq_decide]
      exact decide_eq_decide.mpr (normalizeImageName_eq_iff e r)
    rw [hname, parseImageRef_text]
    rfl
  · show (parseImageRef e.text).digest = e.digest
    rw [parseImageRef_text]

/-- When a reference without a digest is found up to date. -/
theorem classify_upToDate_iff (htag : r.digest = none) (entries : List DockerRef)
    {remote : Option RemoteDigestResult}
    (hremote : ∀ x ∈ remote, ∀ d ∈ x.digest, isDigest d = true) :
    (classifyImageUpdate r.text (localDigestFor r.text (entries.map text)) remote).1 = .upToDate ↔
      ∃ d, remote.bind (fun x => x.digest) = some d ∧
        ∃ a ∈ (r.alike entries).head?, a.digest = some d := by
  have hpin : isDigestPinned r.text = false := by
    unfold isDigestPinned
    rw [parseImageRef_text, htag]
    rfl
  unfold classifyImageUpdate alike
  rw [hpin, if_neg Bool.false_ne_true]
  by_cases hid : isDigest r.text = true
  · rw [if_pos hid, if_pos hid]
    simp
  rw [if_neg hid, if_neg hid, localDigestFor_text]
  cases hhead : (entries.filter fun e => decide (ReadAlike e r) && e.hasDigest).head? with
  | none => simp
  | some a =>
    have hmem := List.mem_of_mem_head? (Option.mem_def.mpr hhead)
    obtain ⟨d, hd, hdigest⟩ := a.hasDigest_iff.mp
      (Bool.and_eq_true_iff.mp (List.mem_filter.mp hmem).2).2
    rw [Option.bind_some, hd, Option.getD_some, if_neg (isDigest_ne_nil hdigest)]
    cases remote with
    | none => simp
    | some result =>
      dsimp only
      cases hres : result.digest with
      | none => simp [hres]
      | some e =>
        have hne := isDigest_ne_nil (hremote result rfl e hres)
        rw [Option.getD_some, if_neg hne, Option.bind_some, hres]
        by_cases heq : some e = some d
        · rw [if_pos heq]
          simp only [true_iff]
          exact ⟨d, heq, a, rfl, hd⟩
        · rw [if_neg heq]
          refine iff_of_false (fun h => by cases h) ?_
          rintro ⟨x, hx, y, hy, hyd⟩
          cases hy
          exact heq (hx.trans (hyd.symm.trans hd))

/-- Among the entries of the repository, by their digest. -/
theorem mem_own_iff {entries : List DockerRef} {d : Str} (hd : isDigest d = true) :
    (∃ e ∈ entries, e.repository = r.repository ∧ e.digest = some d) ↔
      ∃ e ∈ r.own entries, e.digest = some d := by
  unfold own
  constructor
  · rintro ⟨e, he, hrep, hed⟩
    refine ⟨e, List.mem_filter.mpr ⟨he, ?_⟩, hed⟩
    rw [decide_eq_true hrep, Bool.true_and]
    exact e.hasDigest_iff.mpr ⟨d, hed, hd⟩
  · rintro ⟨e, he, hed⟩
    obtain ⟨hmem, hown⟩ := List.mem_filter.mp he
    exact ⟨e, hmem, of_decide_eq_true (Bool.and_eq_true_iff.mp hown).1, hed⟩

theorem digest_of_mem_own {entries : List DockerRef} {e : DockerRef} (he : e ∈ r.own entries) :
    ∃ d, e.digest = some d ∧ isDigest d = true :=
  e.hasDigest_iff.mp (Bool.and_eq_true_iff.mp (List.mem_filter.mp he).2).2

theorem digest_of_mem_alike {entries : List DockerRef} {e : DockerRef}
    (he : e ∈ (r.alike entries).head?) : ∃ d, e.digest = some d ∧ isDigest d = true := by
  have hmem := List.mem_of_mem_head? he
  unfold alike at hmem
  split at hmem
  · cases hmem
  · exact e.hasDigest_iff.mp (Bool.and_eq_true_iff.mp (List.mem_filter.mp hmem).2).2

theorem upToDateExactly_iff (htag : r.digest = none) (entries : List DockerRef) :
    r.UpToDateExactly entries ↔ r.OneDigest entries := by
  have hreduce : r.UpToDateExactly entries ↔ ∀ d, isDigest d = true →
      ((∃ a ∈ (r.alike entries).head?, a.digest = some d) ↔
        ∃ e ∈ r.own entries, e.digest = some d) := by
    constructor
    · intro h d hd
      have hremote : ∀ x ∈ some (⟨[], some d, none⟩ : RemoteDigestResult), ∀ e ∈ x.digest,
          isDigest e = true := by
        rintro x hx e he
        cases hx
        cases he
        exact hd
      have hd' := (classify_upToDate_iff r htag entries hremote).symm.trans (h _ hremote)
      rw [← mem_own_iff r hd]
      simpa using hd'
    · intro h remote hremote
      rw [classify_upToDate_iff r htag entries hremote]
      refine exists_congr fun d => and_congr_right fun hd => ?_
      obtain ⟨x, hx, hxd⟩ := Option.bind_eq_some_iff.mp hd
      have hdigest := hremote x hx d hxd
      rw [h d hdigest, mem_own_iff r hdigest]
  rw [hreduce]
  constructor
  · intro h
    refine ⟨⟨fun hown => ?_, fun halike => ?_⟩, fun a ha e he => ?_⟩
    · by_contra hne
      obtain ⟨a, l, hl⟩ := List.exists_cons_of_ne_nil hne
      have ha : a ∈ (r.alike entries).head? := by rw [hl]; rfl
      obtain ⟨d, hd, hdigest⟩ := r.digest_of_mem_alike ha
      obtain ⟨e, he, -⟩ := (h d hdigest).mp ⟨a, ha, hd⟩
      rw [hown] at he
      cases he
    · rw [List.eq_nil_iff_forall_not_mem]
      intro e he
      obtain ⟨d, hd, hdigest⟩ := r.digest_of_mem_own he
      obtain ⟨a, ha, -⟩ := (h d hdigest).mpr ⟨e, he, hd⟩
      rw [halike] at ha
      cases ha
    · obtain ⟨d, hd, hdigest⟩ := r.digest_of_mem_own he
      obtain ⟨b, hb, hbd⟩ := (h d hdigest).mpr ⟨e, he, hd⟩
      rw [Option.mem_unique ha hb, hd, hbd]
  · rintro ⟨hnil, hdigests⟩ d hd
    constructor
    · rintro ⟨a, ha, had⟩
      have hne : r.own entries ≠ [] := fun hown => by
        rw [hnil.mp hown] at ha
        cases ha
      obtain ⟨e, l, hl⟩ := List.exists_cons_of_ne_nil hne
      have he : e ∈ r.own entries := hl ▸ List.mem_cons_self
      exact ⟨e, he, (hdigests a ha e he).trans had⟩
    · rintro ⟨e, he, hed⟩
      have hne : r.alike entries ≠ [] := fun halike => by
        rw [hnil.mpr halike] at he
        cases he
      obtain ⟨a, l, hl⟩ := List.exists_cons_of_ne_nil hne
      have ha : a ∈ (r.alike entries).head? := by rw [hl]; rfl
      exact ⟨a, ha, (hdigests a ha e he).symm.trans hed⟩

end DockerRef

/-- Names are compared by identity exactly between references of one repository that are
spelled alike and references none of which captures the other; a name is settled unless
Docker Hub was written by its old name in upper case; and an image is found up to date by its
own repository's entries exactly when these have one digest, which is read as its own. -/
theorem images_by_identity_iff (r s : DockerRef) :
    ((normalizeImageName r.text = normalizeImageName s.text ↔ r.repository = s.repository) ↔
        (r.repository = s.repository → r.spelling = s.spelling) ∧
          ¬ r.Captures s ∧ ¬ s.Captures r) ∧
      (normalizeImageName (normalizeImageName r.text) = normalizeImageName r.text ↔
        ¬ (r.spelling = .legacy ∨ r.spelling = .legacyShort)) ∧
      (r.digest = none → ∀ entries, r.UpToDateExactly entries ↔ r.OneDigest entries) := by
  refine ⟨?_, r.normalizeImageName_idempotent_iff, fun htag => r.upToDateExactly_iff htag⟩
  have hdistinct : ∀ {a b : DockerRef}, a.Captures b → a.repository ≠ b.repository := by
    intro a b h heq
    have hlen := congrArg List.length (heq.trans h.2.2)
    rw [List.length_cons] at hlen
    omega
  rw [DockerRef.normalizeImageName_eq_iff]
  unfold DockerRef.ReadAlike
  constructor
  · intro h
    refine ⟨fun hrep => ?_, fun hc => ?_, fun hc => ?_⟩
    · rcases h.mpr hrep with hsame | hc | hc
      · exact hsame.2
      · exact absurd hrep (hdistinct hc)
      · exact absurd hrep.symm (hdistinct hc)
    · exact hdistinct hc (h.mp (Or.inr (Or.inl hc)))
    · exact hdistinct hc (h.mp (Or.inr (Or.inr hc))).symm
  · rintro ⟨hspelled, hrs, hsr⟩
    constructor
    · rintro (hsame | hc | hc)
      · exact hsame.1
      · exact absurd hc hrs
      · exact absurd hc hsr
    · exact fun hrep => Or.inl ⟨hrep, hspelled hrep⟩

/-- `nginx`. -/
def nginxRef : DockerRef where
  registry := none
  path := ["nginx".toList]
  tag := none
  digest := none
  path_ne := by decide
  path_ok := by decide
  registry_ok := by simp
  unread := by decide
  tag_ok := by simp
  digest_ok := by simp

/-- `docker.io/nginx`. -/
def hubNginxRef : DockerRef where
  registry := some hub
  path := ["nginx".toList]
  tag := none
  digest := none
  path_ne := by decide
  path_ok := by decide
  registry_ok := by decide
  unread := by simp
  tag_ok := by simp
  digest_ok := by simp

/-- Docker Hub written out, before a name of one component, is another repository. -/
theorem not_images_by_identity :
    ¬ ((∀ r s : DockerRef,
          normalizeImageName r.text = normalizeImageName s.text ↔ r.repository = s.repository) ∧
        (∀ r : DockerRef,
          normalizeImageName (normalizeImageName r.text) = normalizeImageName r.text) ∧
        ∀ (r : DockerRef) (entries : List DockerRef),
          r.digest = none → r.UpToDateExactly entries) := by
  rintro ⟨hnames, -, -⟩
  have hsame := (hnames nginxRef hubNginxRef).mpr (by decide +kernel)
  exact absurd hsame (by decide +kernel)

end HomelabMcp.Docker
