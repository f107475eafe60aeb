import HomelabMcp.Lib.SortKey
import HomelabMcp.Lib.Text
import HomelabMcp.Lib.Utf8

/-!
# The Merkle folding core (folding.ts, leafHash.ts)

A file's hash folds its leaf payload, a directory's hash its name-sorted
children, each behind its own domain byte. The digest is a parameter.

- `foldNode_inj`: equal directory hashes fold the same named hashes.
- `foldNode_perm`: the order in which children are listed is immaterial.
- `foldNode_ne_foldLeaf` and its siblings: the three domains are disjoint.
-/

namespace HomelabMcp.Integrity

open Text SortKey

def LEAF_DOMAIN : UInt8 := 0x00

def NODE_DOMAIN : UInt8 := 0x01

def UNREADABLE_DOMAIN : UInt8 := 0x02

/-- The delimiter between a child's name and its hash. -/
def NAME_TERMINATOR : UInt8 := 0x00

/-- folding.ts:40. -/
inductive NodeState
  | present
  | emptyDir
  | unavailable
  | unreadable
  deriving DecidableEq, Repr

@[ext] structure ChildRef where
  name : Str
  hash : Bytes
  deriving DecidableEq, Repr

/-! ## Hexadecimal -/

def hexByte (b : UInt8) : Str :=
  [Nat.digitChar (b.toNat / 16), Nat.digitChar (b.toNat % 16)]

/-- `h.toString("hex")` (folding.ts:98). -/
def hashHex (h : Bytes) : Str :=
  h.flatMap hexByte

def hexValue (c : Char) : Option Nat :=
  let n := c.toNat
  if 48 ≤ n ∧ n ≤ 57 then some (n - 48)
  else if 97 ≤ n ∧ n ≤ 102 then some (n - 87)
  else if 65 ≤ n ∧ n ≤ 70 then some (n - 55)
  else none

/-- `Buffer.from(s, "hex")`: pairs of digits up to the first that is not one. -/
def fromHex : Str → Bytes
  | a :: b :: l =>
    match hexValue a, hexValue b with
    | some x, some y => UInt8.ofNat (16 * x + y) :: fromHex l
    | _, _ => []
  | _ => []

theorem hexValue_digitChar : ∀ {n : Nat}, n < 16 → hexValue (Nat.digitChar n) = some n := by
  decide

@[simp] theorem fromHex_hashHex (h : Bytes) : fromHex (hashHex h) = h := by
  induction h with
  | nil => rfl
  | cons b h ih =>
    have hb : b.toNat < 256 := b.toNat_lt
    show fromHex (Nat.digitChar (b.toNat / 16) :: Nat.digitChar (b.toNat % 16) :: hashHex h) = _
    rw [fromHex, hexValue_digitChar (by omega), hexValue_digitChar (by omega)]
    show UInt8.ofNat (16 * (b.toNat / 16) + b.toNat % 16) :: fromHex (hashHex h) = _
    rw [Nat.div_add_mod, ih, UInt8.ofNat_toNat]

theorem hashHex_injective : Function.Injective hashHex := fun a b h => by
  rw [← fromHex_hashHex a, h, fromHex_hashHex]

theorem length_hashHex (b : Bytes) : (hashHex b).length = 2 * b.length := by
  induction b with
  | nil => rfl
  | cons x b ih =>
    show (hexByte x ++ hashHex b).length = _
    rw [List.length_append, ih, List.length_cons]
    show 2 + 2 * b.length = _
    omega

theorem mem_hashHex {b : Bytes} {c : Char} (h : c ∈ hashHex b) : ∃ n < 16, c = Nat.digitChar n := by
  obtain ⟨x, -, hc⟩ := List.mem_flatMap.mp h
  have hx : x.toNat < 256 := x.toNat_lt
  rcases List.mem_cons.mp hc with rfl | hc
  · exact ⟨x.toNat / 16, by omega, rfl⟩
  · exact ⟨x.toNat % 16, by omega, List.mem_singleton.mp hc⟩

/-! ## Folding -/

/-- `compareNameBytes` (folding.ts:91), as a sort key. -/
def nameKey (name : Str) : List Nat :=
  byteKey (Utf8.encode name)

theorem nameKey_injective : Function.Injective nameKey :=
  byteKey_injective.comp Utf8.encode_injective

section

variable (sha256 : Bytes → Bytes)

/-- folding.ts:50. -/
def foldLeaf (payload : Bytes) : Bytes :=
  sha256 (LEAF_DOMAIN :: payload)

/-- folding.ts:59. -/
def foldNode (children : List ChildRef) : Bytes :=
  sha256 (NODE_DOMAIN :: Digest.frame NAME_TERMINATOR
    ((sortOn (fun c => nameKey c.name) children).map fun c => (Utf8.encode c.name, c.hash)))

/-- folding.ts:71. -/
def emptyDirHash : Bytes :=
  foldNode sha256 []

/-- folding.ts:81. -/
def unreadableHash : Bytes :=
  sha256 [UNREADABLE_DOMAIN]

end

/-- folding.ts:86. -/
def mtimePayload (mtimeSecs : Int) : Bytes :=
  Utf8.encode (signedNumeral mtimeSecs)

/-- The L2/L3 leaf payload: the characters of the content's hex digest
(tree.ts:141). -/
def contentBuffer (hex : Str) : Bytes :=
  Utf8.encode hex

/-- leafHash.ts:26. -/
def contentLeafHash (sha256 : Bytes → Bytes) (content : Bytes) : Str :=
  hashHex (foldLeaf sha256 (contentBuffer (hashHex (sha256 content))))

/-! ## What a hash says -/

section

variable {sha256 : Bytes → Bytes}

/-- A reference that `foldNode` frames unambiguously. -/
def ChildRef.Sound (sha256 : Bytes → Bytes) (c : ChildRef) : Prop :=
  Char.ofNat 0 ∉ c.name ∧ ∃ x, c.hash = sha256 x

theorem nul_notMem_encode {name : Str} (h : Char.ofNat 0 ∉ name) :
    (0 : UInt8) ∉ Utf8.encode name := fun hmem => by
  obtain ⟨c, hc, hzero⟩ := Utf8.zero_mem_encode hmem
  have : c = Char.ofNat 0 := Char.toNat_inj.mp hzero
  exact h (this ▸ hc)

theorem foldNode_perm {a b : List ChildRef} (hperm : a.Perm b) (hnd : (a.map (·.name)).Nodup) :
    foldNode sha256 a = foldNode sha256 b := by
  unfold foldNode
  rw [sortOn_eq_of_perm (fun c : ChildRef => nameKey c.name) hperm]
  have := hnd.map nameKey_injective
  rwa [List.map_map] at this

/-- Equal directory hashes fold the same references. -/
theorem foldNode_inj (hsha : Digest.CollisionFree sha256) {a b : List ChildRef}
    (ha : ∀ c ∈ a, c.Sound sha256) (hb : ∀ c ∈ b, c.Sound sha256)
    (h : foldNode sha256 a = foldNode sha256 b) : a.Perm b := by
  have hframe := (List.cons.injEq _ _ _ _ ▸ hsha.injective h).2
  have hsound : ∀ l : List ChildRef, (∀ c ∈ l, c.Sound sha256) →
      ∀ p ∈ (sortOn (fun c => nameKey c.name) l).map fun c => (Utf8.encode c.name, c.hash),
        NAME_TERMINATOR ∉ p.1 ∧ ∃ x, p.2 = sha256 x := by
    intro l hl p hp
    obtain ⟨c, hc, rfl⟩ := List.mem_map.mp hp
    have := hl c ((mem_sortOn _).mp hc)
    exact ⟨nul_notMem_encode this.1, this.2⟩
  have hlist := Digest.frame_injective hsha (hsound a ha) (hsound b hb) hframe
  have hinj : Function.Injective fun c : ChildRef => (Utf8.encode c.name, c.hash) := by
    rintro ⟨n, x⟩ ⟨m, y⟩ heq
    obtain ⟨hn, hx⟩ := Prod.mk.inj heq
    rw [ChildRef.mk.injEq]
    exact ⟨Utf8.encode_injective hn, hx⟩
  have hsorted := List.map_injective_iff.mpr hinj hlist
  exact (sortOn_perm _ a).symm.trans (hsorted ▸ sortOn_perm _ b)

theorem foldNode_ne_foldLeaf (hsha : Digest.CollisionFree sha256) (c : List ChildRef)
    (payload : Bytes) : foldNode sha256 c ≠ foldLeaf sha256 payload := fun h =>
  absurd (List.cons.inj (hsha.injective h)).1 (by decide)

theorem foldNode_ne_unreadable (hsha : Digest.CollisionFree sha256) (c : List ChildRef) :
    foldNode sha256 c ≠ unreadableHash sha256 := fun h =>
  absurd (List.cons.inj (hsha.injective h)).1 (by decide)

theorem foldLeaf_ne_unreadable (hsha : Digest.CollisionFree sha256) (payload : Bytes) :
    foldLeaf sha256 payload ≠ unreadableHash sha256 := fun h =>
  absurd (List.cons.inj (hsha.injective h)).1 (by decide)

theorem foldLeaf_injective (hsha : Digest.CollisionFree sha256) :
    Function.Injective (foldLeaf sha256) := fun _ _ h =>
  (List.cons.inj (hsha.injective h)).2

/-- The content leaf determines the content. -/
theorem contentLeafHash_injective (hsha : Digest.CollisionFree sha256) :
    Function.Injective (contentLeafHash sha256) := fun _ _ h =>
  hsha.injective (hashHex_injective (Utf8.encode_injective
    (foldLeaf_injective hsha (hashHex_injective h))))

end

end HomelabMcp.Integrity
