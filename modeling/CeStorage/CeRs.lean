import CeStorage.Lib.Chunks
import CeStorage.Lib.Code
import CeStorage.Multipart

/-!
# What `ce_rs` promises

`CeRs` (in `Multipart`) names what the sources use of the `ce_rs` crate, which is
not part of this repository. `CeRs.Lawful` states its documented behaviour:
distinct contents have distinct CIDs, an object is cut into consecutive chunks
of the given size, and a manifest can be read back from its JSON text.

`CeRs.plain` keeps these promises with the simplest functions that do: the CID
of a byte string is the byte string, and a manifest is written field by field.
-/

namespace CeStorage

open Lib

/-- The manifest of a byte string cut into chunks of `size`. -/
def CeRs.manifestOf (ce : CeRs) (bytes : Bytes) (size : Nat) : Manifest :=
  { kind := ce.manifestKindV1, chunkSize := size, totalSize := bytes.length
    chunks := (chunks size bytes).map ce.cid }

structure CeRs.Lawful (ce : CeRs) : Prop where
  cid_injective : Function.Injective ce.cid
  chunk_pos : 0 < ce.defaultChunkSize
  chunkObject_eq : ∀ bytes size, 0 < size →
    ce.chunkObject bytes size
      = (ce.manifestOf bytes size, (chunks size bytes).map fun c => (ce.cid c, c))
  parse_json : ∀ m, ce.parseManifest (ce.manifestJson m) = .ok m

/-- The JSON text of a manifest determines it. -/
theorem CeRs.Lawful.json_injective {ce : CeRs} (h : ce.Lawful) :
    Function.Injective ce.manifestJson := by
  intro m n hmn
  have hm := h.parse_json m
  rw [hmn, h.parse_json n] at hm
  cases hm
  rfl

/-! ## A lawful instance -/

/-- Strings, character by character. -/
def stringCode : Code String :=
  (Code.list Code.nat).via (fun s => s.toList.map Char.toNat)
    (fun ns => String.ofList (ns.map Char.ofNat)) fun s => by
      rw [List.map_map]
      have h : (Char.ofNat ∘ Char.toNat) = id := funext fun c => Char.ofNat_toNat c
      rw [h, List.map_id, String.ofList_toList]

def manifestCode : Code Manifest :=
  (stringCode.pair (Code.nat.pair (Code.nat.pair (Code.list stringCode)))).via
    (fun m => (m.kind, m.chunkSize, m.totalSize, m.chunks)) (fun p => ⟨p.1, p.2.1, p.2.2.1, p.2.2.2⟩)
    fun _ => rfl

/-- Contents are their own CIDs; chunks of two bytes. -/
def CeRs.plain : CeRs where
  cid bytes := String.ofList (bytes.map fun b => Char.ofNat b.toNat)
  manifestKindV1 := "v1"
  defaultChunkSize := 2
  chunkObject bytes size :=
    let cid (bytes : Bytes) := String.ofList (bytes.map fun b => Char.ofNat b.toNat)
    ({ kind := "v1", chunkSize := size, totalSize := bytes.length
       chunks := (chunks size bytes).map cid },
      (chunks size bytes).map fun c => (cid c, c))
  manifestJson := manifestCode.enc
  parseManifest bytes :=
    match manifestCode.decAll bytes with
    | some m => .ok m
    | none => .error "expected value"

/-- A byte is told from the character with its number. -/
theorem charOfByte_injective : Function.Injective fun b : UInt8 => Char.ofNat b.toNat := by
  intro a b h
  have hv : ∀ c : UInt8, (Char.ofNat c.toNat).toNat = c.toNat := by
    intro c
    have hc : c.toNat < 256 := c.toNat_lt
    unfold Char.ofNat
    rw [dif_pos (by unfold Nat.isValidChar; omega)]
    rfl
  have := congrArg Char.toNat h
  dsimp only at this
  rw [hv, hv] at this
  exact UInt8.toNat_inj.mp this

theorem CeRs.plain_lawful : CeRs.plain.Lawful where
  cid_injective := by
    intro a b h
    have hl := congrArg String.toList h
    simp only [CeRs.plain, String.toList_ofList] at hl
    exact (List.map_inj_right fun _ _ h => charOfByte_injective h).mp hl
  chunk_pos := by decide
  chunkObject_eq _ _ _ := rfl
  parse_json m := by
    show (match manifestCode.decAll (manifestCode.enc m) with | some m => _ | none => _) = _
    rw [Code.decAll_enc]

end CeStorage
