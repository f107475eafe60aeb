import HomelabMcp.Lib.Json
import HomelabMcp.Lib.Shell

/-!
# Image references (dockerUpdate.ts)

A reference is a repository with an optional tag and an optional digest. A tag is
what stands behind the last colon, unless a slash follows that.

- `splitTag_append`: a repository with a tag comes apart again.
-/

namespace HomelabMcp.Docker

open SlashPath Text

/-- Docker's `--format` prints `<no value>` for a missing key. -/
def clean (v : Option Str) : Str :=
  let s := trim (v.getD [])
  if s = "<no value>".toList then [] else s

/-- `IMAGE_REF_RE.test(ref)`, and the bound on its length. -/
def isImageRef (ref : Str) : Bool :=
  (ref.head?.map Char.isAlphanum).getD false &&
    (ref.all fun c => c.isAlphanum || c == '.' || c == '_' || c == '/' || c == ':' || c == '@' ||
      c == '-') && decide (ref.length ≤ 512)

/-- dockerUpdate.ts:36. -/
def assertImageRef (ref : Str) : Except Str Unit :=
  if isImageRef ref then .ok ()
  else .error ("Invalid image reference: ".toList ++ Json.quote ref ++ ['.'])

/-- `DIGEST_RE.test`. -/
def isDigest (s : Str) : Bool :=
  "sha256:".toList.isPrefixOf s && decide (s.length = 71) &&
    (s.drop 7).all fun c => c.isDigit || ('a' ≤ c && c ≤ 'f')

structure ParsedImageRef where
  /-- Fully qualified, in lower case. -/
  name : Str
  /-- As written. -/
  repo : Str
  tag : Option Str
  digest : Option Str
  deriving DecidableEq

/-- What is left of the tag, and the tag. -/
def splitTag (rest : Str) : Str × Option Str :=
  let segment := rest.reverse.takeWhile fun c => c != ':' && c != '/'
  match rest.reverse.drop segment.length with
  | ':' :: repo => (repo.reverse, some segment.reverse)
  | _ => (rest, none)

/-- The default registry, and its `library/` for names of one segment. -/
def qualify (repo : Str) : Str :=
  let parts := List.splitOn '/' repo
  let first := parts.headD []
  let hasRegistry := decide (1 < parts.length) &&
    (first.contains '.' || first.contains ':' || first == "localhost".toList)
  let name :=
    if hasRegistry then repo
    else if parts.length = 1 then "docker.io/library/".toList ++ repo
    else "docker.io/".toList ++ repo
  if "index.docker.io/".toList.isPrefixOf name then "docker.io/".toList ++ name.drop 16 else name

/-- dockerUpdate.ts:56. -/
def parseImageRef (ref : Str) : ParsedImageRef :=
  let trimmed := trim ref
  let named := trimmed.takeWhile fun c => c != '@'
  let (repo, tag) := splitTag named
  { name := toLowerCase (qualify repo), repo, tag
    digest := (trimmed.drop named.length).tail? }

/-- dockerUpdate.ts:88. -/
def normalizeImageName (ref : Str) : Str :=
  (parseImageRef ref).name

/-- dockerUpdate.ts:93. -/
def isDigestPinned (ref : Str) : Bool :=
  (parseImageRef ref).digest.isSome

/-- dockerUpdate.ts:98. -/
def localDigestFor (ref : Str) (repoDigests : List Str) : Option Str :=
  ((repoDigests.map parseImageRef).find? fun p =>
    p.name == normalizeImageName ref && (p.digest.map isDigest).getD false).bind fun p => p.digest

/-- `version:-` and the word behind it, the first time there is one. -/
def versionSegment (s : Str) : Option Str :=
  s.tails.findSome? fun t =>
    if "version:-".toList.isPrefixOf t then
      match ((t.drop 9).dropWhile isSpace).takeWhile fun c => !isSpace c with
      | [] => none
      | word => some word
    else none

/-- dockerUpdate.ts:116. -/
def extractImageVersion (ociVersion buildVersion : Option Str) : Option Str :=
  if clean ociVersion ≠ [] then some (clean ociVersion)
  else versionSegment (clean buildVersion)

/-- dockerUpdate.ts:731: the tag that holds the image a service ran. -/
def holdTagFor (ref service : Str) : Str :=
  (parseImageRef ref).repo ++ ":mcp-hold-".toList ++ service

example : parseImageRef "localhost:5000/App/web:1.2".toList =
    ⟨"localhost:5000/app/web".toList, "localhost:5000/App/web".toList, some "1.2".toList, none⟩ := by
  decide

/-- A tag is read off again. -/
theorem splitTag_append (repo tag : Str) (htag : ∀ c ∈ tag, c ≠ ':' ∧ c ≠ '/') :
    splitTag (repo ++ ':' :: tag) = (repo, some tag) := by
  have hrev : (repo ++ ':' :: tag).reverse = tag.reverse ++ ':' :: repo.reverse := by simp
  have hsegment : (tag.reverse ++ ':' :: repo.reverse).takeWhile (fun c => c != ':' && c != '/') =
      tag.reverse := by
    rw [List.takeWhile_append_of_pos]
    · rw [List.takeWhile_cons_of_neg (by decide), List.append_nil]
    · intro c hc
      obtain ⟨hcolon, hslash⟩ := htag c (List.mem_reverse.mp hc)
      simp [hcolon, hslash]
  unfold splitTag
  dsimp only
  rw [hrev, hsegment, List.drop_left]
  simp

end HomelabMcp.Docker
