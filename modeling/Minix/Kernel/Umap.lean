/-
  Kernel/Umap.lean --- address translation: `umap_local`, `umap_remote` and `umap_bios`.

  Each of the three returns the physical address of the first byte of a range, or zero.
  `umap_local` picks the segment by the last byte and never asks whether the first byte is
  below that segment; the other two add the length of the range to its address in 32 bits.
  What they return lies inside the segment exactly if the range neither starts below the
  segment nor wraps.
-/
import Mathlib.Algebra.Ring.Nat
import Mathlib.Tactic.Common

set_option autoImplicit false

namespace Minix.Kernel.Umap

/-- `struct mem_map`, in clicks of 4096 bytes. -/
structure MemMap where
  memVir : BitVec 32
  memPhys : BitVec 32
  memLen : BitVec 32

/-- `struct far_mem` -/
structure FarMem where
  inUse : Bool
  memPhys : BitVec 32
  memLen : BitVec 32

variable (memmap : Fin 3 → MemMap) (farmem : Fin 3 → FarMem) (seg : Int) (virAddr bytes : BitVec 32)

/-- The click of the last byte. -/
def lastClick : BitVec 32 := (virAddr + bytes - 1#32) >>> 12

/-- The segment that `umap_local` uses, out of T, D and S (0, 1 and 2). -/
def usedSeg : Fin 3 :=
  if seg ≠ 0 then
    if lastClick virAddr bytes < (memmap 1).memVir + (memmap 1).memLen then 1 else 2
  else if (memmap 0).memLen = 0#32 then 1
  else 0

/-- `umap_local(rp, seg, vir_addr, bytes)`; nothing if it panics. -/
def umapLocal : Option (BitVec 32) :=
  if seg ≠ 0 ∧ seg ≠ 1 ∧ seg ≠ 2 then none
  else if bytes = 0#32 then some 0#32
  else if virAddr + bytes ≤ virAddr then some 0#32
  else
    let m := memmap (usedSeg memmap seg virAddr bytes)
    if m.memVir + m.memLen ≤ virAddr >>> 12 then some 0#32
    else if m.memVir + m.memLen ≤ lastClick virAddr bytes then some 0#32
    else some (m.memPhys <<< 12 + (virAddr - m.memVir <<< 12))

/-- `umap_remote(rp, seg, vir_addr, bytes)` -/
def umapRemote : BitVec 32 :=
  if bytes = 0#32 then 0#32
  else if h : 0 ≤ seg ∧ seg < 3 then
    let fm := farmem ⟨seg.toNat, by omega⟩
    if !fm.inUse then 0#32
    else if fm.memLen < virAddr + bytes then 0#32
    else fm.memPhys + virAddr
  else 0#32

/-- `BIOS_MEM_BEGIN`, `BIOS_MEM_END` and `BASE_MEM_TOP`, `UPPER_MEM_END` -/
def biosWindows : List (BitVec 32 × BitVec 32) := [(0x00000, 0x004FF), (0x090000, 0x0FFFFF)]

/-- `umap_bios(vir_addr, bytes)` -/
def umapBios : BitVec 32 :=
  if biosWindows.any fun w => w.1 ≤ virAddr && virAddr + bytes ≤ w.2 then virAddr else 0#32

/-! ## What a translation should be -/

/-- Every byte of the range is in the segment, and the address is where the segment has the
first byte. -/
def LocalInside : Prop :=
  ∀ pa, umapLocal memmap seg virAddr bytes = some pa → pa ≠ 0#32 →
    let m := memmap (usedSeg memmap seg virAddr bytes)
    (∀ a, virAddr.toNat ≤ a → a < virAddr.toNat + bytes.toNat →
      m.memVir.toNat ≤ a / 4096 ∧ a / 4096 < m.memVir.toNat + m.memLen.toNat) ∧
      pa.toNat + m.memVir.toNat * 4096 = m.memPhys.toNat * 4096 + virAddr.toNat

def RemoteInside : Prop :=
  umapRemote farmem seg virAddr bytes ≠ 0#32 → ∃ i : Fin 3, seg = i.val ∧
    (∀ a, virAddr.toNat ≤ a → a < virAddr.toNat + bytes.toNat → a < (farmem i).memLen.toNat) ∧
    (umapRemote farmem seg virAddr bytes).toNat = (farmem i).memPhys.toNat + virAddr.toNat

def BiosInside : Prop :=
  umapBios virAddr bytes ≠ 0#32 → (∃ w ∈ biosWindows,
    ∀ a, virAddr.toNat ≤ a → a < virAddr.toNat + bytes.toNat → w.1.toNat ≤ a ∧ a < w.2.toNat) ∧
    umapBios virAddr bytes = virAddr

/-! ## When it is -/

/-- The range does not start below the segment, and the segment has physical addresses of 32
bits. -/
def LocalFits : Prop :=
  ∀ pa, umapLocal memmap seg virAddr bytes = some pa → pa ≠ 0#32 →
    let m := memmap (usedSeg memmap seg virAddr bytes)
    m.memVir.toNat * 4096 ≤ virAddr.toNat ∧
      m.memPhys.toNat * 4096 + (virAddr.toNat - m.memVir.toNat * 4096) < 2 ^ 32

def RemoteFits : Prop :=
  umapRemote farmem seg virAddr bytes ≠ 0#32 → virAddr.toNat + bytes.toNat < 2 ^ 32 ∧
    ∀ i : Fin 3, seg = i.val → (farmem i).memPhys.toNat + virAddr.toNat < 2 ^ 32

def BiosFits : Prop :=
  umapBios virAddr bytes ≠ 0#32 → virAddr.toNat + bytes.toNat < 2 ^ 32

variable {memmap farmem seg virAddr bytes}

/-- What `umap_local` has checked when it returns an address. -/
theorem umapLocal_spec {pa : BitVec 32} (h : umapLocal memmap seg virAddr bytes = some pa)
    (hpa : pa ≠ 0#32) : let m := memmap (usedSeg memmap seg virAddr bytes)
    0 < bytes.toNat ∧ virAddr.toNat + bytes.toNat < 2 ^ 32 ∧
      (virAddr.toNat + bytes.toNat - 1) / 4096 < (m.memVir.toNat + m.memLen.toNat) % 2 ^ 32 ∧
      pa = m.memPhys <<< 12 + (virAddr - m.memVir <<< 12) := by
  unfold umapLocal at h
  dsimp only at h
  have hne : some 0#32 ≠ some pa := fun heq => hpa (Option.some.inj heq).symm
  split at h
  · simp at h
  split at h
  · exact absurd h hne
  split at h
  · exact absurd h hne
  split at h
  · exact absurd h hne
  split_ifs at h with hlast
  · exact absurd h hne
  have hsum : virAddr.toNat + bytes.toNat < 2 ^ 32 := by bv_omega
  have hend : (virAddr + bytes - 1#32).toNat = virAddr.toNat + bytes.toNat - 1 := by bv_omega
  refine ⟨by bv_omega, hsum, ?_, (Option.some.inj h).symm⟩
  rw [BitVec.le_def, Nat.not_le, lastClick, BitVec.toNat_ushiftRight, BitVec.toNat_add, hend,
    Nat.shiftRight_eq_div_pow] at hlast
  exact hlast

/-- The address that `umap_local` computes, if the range does not start below the segment. -/
theorem toNat_image {m : MemMap} (h : m.memVir.toNat * 4096 ≤ virAddr.toNat) :
    (m.memPhys <<< 12 + (virAddr - m.memVir <<< 12)).toNat =
      (m.memPhys.toNat * 4096 + (virAddr.toNat - m.memVir.toNat * 4096)) % 2 ^ 32 := by
  have hvir := virAddr.isLt
  rw [BitVec.toNat_add, BitVec.toNat_sub, BitVec.toNat_shiftLeft, BitVec.toNat_shiftLeft,
    Nat.shiftLeft_eq, Nat.shiftLeft_eq]
  omega

theorem localInside_iff : LocalInside memmap seg virAddr bytes ↔ LocalFits memmap seg virAddr bytes := by
  refine forall_congr' fun pa => forall_congr' fun h => forall_congr' fun hpa => ?_
  obtain ⟨hbytes, hsum, hlast, heq⟩ := umapLocal_spec h hpa
  dsimp only
  generalize memmap (usedSeg memmap seg virAddr bytes) = m at hlast heq ⊢
  constructor
  · rintro ⟨hinside, himage⟩
    obtain ⟨hfirst, -⟩ := hinside virAddr.toNat (Nat.le_refl _) (by omega)
    have hpa := pa.isLt
    omega
  · rintro ⟨hfirst, hfits⟩
    refine ⟨fun a ha ha' => ?_, ?_⟩
    · -- the end of the segment may have wrapped, but then it is below the last click
      have hend := Nat.mod_le (m.memVir.toNat + m.memLen.toNat) (2 ^ 32)
      omega
    · rw [heq, toNat_image hfirst, Nat.mod_eq_of_lt hfits]
      omega

theorem umapRemote_spec (h : umapRemote farmem seg virAddr bytes ≠ 0#32) :
    ∃ i : Fin 3, seg = i.val ∧ 0 < bytes.toNat ∧
      (virAddr.toNat + bytes.toNat) % 2 ^ 32 ≤ (farmem i).memLen.toNat ∧
      (umapRemote farmem seg virAddr bytes).toNat =
        ((farmem i).memPhys.toNat + virAddr.toNat) % 2 ^ 32 := by
  unfold umapRemote at h ⊢
  split at h
  · exact absurd rfl h
  rename_i hbytes
  rw [if_neg hbytes]
  split_ifs at h with hseg
  · rw [dif_pos hseg]
    dsimp only at h ⊢
    split at h
    · exact absurd rfl h
    rename_i huse
    split_ifs at h with hlen
    · exact absurd rfl h
    rw [if_neg huse, if_neg hlen]
    refine ⟨⟨seg.toNat, by omega⟩, (Int.toNat_of_nonneg hseg.1).symm, by bv_omega, ?_, BitVec.toNat_add ..⟩
    rwa [BitVec.lt_def, Nat.not_lt, BitVec.toNat_add] at hlen
  · exact absurd rfl h

theorem remoteInside_iff : RemoteInside farmem seg virAddr bytes ↔ RemoteFits farmem seg virAddr bytes := by
  refine forall_congr' fun h => ?_
  obtain ⟨i, hi, hbytes, hlen, himage⟩ := umapRemote_spec h
  have hunique : ∀ j : Fin 3, seg = j.val → j = i := fun j hj => Fin.ext (by omega)
  constructor
  · rintro ⟨j, hj, hinside, hexact⟩
    obtain rfl := hunique j hj
    have hbelow := hinside (virAddr.toNat + bytes.toNat - 1) (by omega) (by omega)
    have hword := (farmem j).memLen.isLt
    refine ⟨?_, fun k hk => ?_⟩
    · omega
    · obtain rfl := hunique k hk
      omega
  · rintro ⟨hwrap, hfits⟩
    have hfits := hfits i hi
    rw [Nat.mod_eq_of_lt hwrap] at hlen
    rw [Nat.mod_eq_of_lt hfits] at himage
    exact ⟨i, hi, fun a _ ha => by omega, himage⟩

theorem biosInside_iff : BiosInside virAddr bytes ↔ BiosFits virAddr bytes := by
  refine forall_congr' fun h => ?_
  unfold umapBios at h ⊢
  split_ifs at h with hany
  · rw [if_pos hany]
    obtain ⟨w, hw, hcheck⟩ := List.any_eq_true.mp hany
    rw [Bool.and_eq_true, decide_eq_true_eq, decide_eq_true_eq] at hcheck
    constructor
    · rintro ⟨⟨w', hw', hinside⟩, -⟩
      by_contra hwrap
      have hend := w'.2.isLt
      have hbyte := bytes.isLt
      have hlast := hinside (virAddr.toNat + bytes.toNat - 1) (by omega) (by omega)
      omega
    · intro hwrap
      exact ⟨⟨w, hw, fun a ha ha' => by bv_omega⟩, rfl⟩
  · exact absurd rfl h

/-- A translated range lies inside the segment exactly if it fits: it does not start below
the segment, it does not wrap, and its physical addresses have 32 bits. -/
theorem translation_inside_iff (memmap : Fin 3 → MemMap) (farmem : Fin 3 → FarMem) (seg : Int)
    (virAddr bytes : BitVec 32) :
    (LocalInside memmap seg virAddr bytes ↔ LocalFits memmap seg virAddr bytes) ∧
      (RemoteInside farmem seg virAddr bytes ↔ RemoteFits farmem seg virAddr bytes) ∧
      (BiosInside virAddr bytes ↔ BiosFits virAddr bytes) :=
  ⟨localInside_iff, remoteInside_iff, biosInside_iff⟩

/-- Data at clicks 0 to 15 and a stack at clicks 32 to 47. -/
def gapMap : Fin 3 → MemMap
  | 0 => ⟨0, 0, 0⟩
  | 1 => ⟨0, 0x100, 16⟩
  | 2 => ⟨32, 0x200, 16⟩

/-- A range that starts in the gap and ends in the stack is translated to memory below the
stack; a range that wraps passes for a range in the first BIOS window. -/
theorem umap_outside :
    umapLocal gapMap 1 0x1F000 0x1001 = some 0x1FF000 ∧ ¬ LocalInside gapMap 1 0x1F000 0x1001 ∧
      umapBios 0xFFFFF000 0x1001 = 0xFFFFF000 ∧ ¬ BiosInside 0xFFFFF000 0x1001 := by
  refine ⟨by decide, fun hinside => ?_, by decide, fun hinside => ?_⟩
  · obtain ⟨hbytes, -⟩ := hinside 0x1FF000 (by decide) (by decide)
    exact absurd (hbytes 0x1F000 (by decide) (by decide)).1 (by decide)
  · exact absurd (biosInside_iff.mp hinside (by decide)) (by decide)

end Minix.Kernel.Umap
