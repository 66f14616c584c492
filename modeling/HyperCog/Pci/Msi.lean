import HyperCog.Lib.Bytes
import HyperCog.Pci.Basic
import Mathlib.Data.List.Nodup

/-! The MSI and MSI-X capabilities in the config space, the guest's writes to them, and what the device keeps. -/
namespace HyperCog.Msi

open Machine Bytes List Option
open Pci (pciRegmax pcirCommand)
open BitVec hiding replicate append_assoc

def capStartOffset : ℕ := 0x40
def pcirStatus : ℕ := 0x06
def pcirCapPtr : ℕ := 0x34
def pcirIntline : ℕ := 0x3c
def pcimStatusCappresent : BitVec 16 := 0x0010
def pciyMsi : BitVec 8 := 0x05
def pciyExpress : BitVec 8 := 0x10
def pciyMsix : BitVec 8 := 0x11
def pcimMsictrl64bit : BitVec 16 := 0x0080
def pcimMsictrlMmeMask : BitVec 16 := 0x0070
def pcimMsictrlMsiEnable : BitVec 16 := 0x0001
def pcimMsixctrlMsixEnable : BitVec 16 := 0x8000
def pcimMsixctrlFunctionMask : BitVec 16 := 0x4000
def pcimMsixBirMask : ℕ := 0x7
def msixTableEntrySize : ℕ := 16
def maxMsixTableEntries : ℕ := 2048
def pcirMaxBar0 : ℕ := 5

/-- The bits of the two control words that the guest may change. -/
def msiRwmask : BitVec 16 := pcimMsictrlMmeMask ||| pcimMsictrlMsiEnable

@[inherit_doc msiRwmask]
def msixRwmask : BitVec 16 := pcimMsixctrlMsixEnable ||| pcimMsixctrlFunctionMask

/-- `pi_msi` -/
structure PiMsi where
  enabled : Bool
  addr : BitVec 64
  msgData : BitVec 64
  maxmsgnum : ℕ
  deriving DecidableEq, Repr

/-- The flags of `pi_msix`. -/
structure PiMsix where
  enabled : BitVec 16
  functionMask : BitVec 16
  deriving DecidableEq, Repr

/-- What `struct pci_devinst` has of the capabilities; what it has of the BARs is `Pci.Devinst`. -/
structure Devinst where
  cfgdata : ℕ → BitVec 8
  prevcap : ℕ
  capend : ℕ
  msi : PiMsi
  msix : PiMsix

def getCfgdata16 (cfg : ℕ → BitVec 8) (offset : ℕ) : BitVec 16 := BitVec.ofNat 16 (value cfg offset 2)

def getCfgdata32 (cfg : ℕ → BitVec 8) (offset : ℕ) : BitVec 32 := BitVec.ofNat 32 (value cfg offset 4)

/-- `CFGWRITE` byte by byte; the BARs and the command register take it by doublewords. -/
def cfgWrite (cfg : ℕ → BitVec 8) (coff : ℕ) (val : BitVec 32) (bytes : ℕ) : ℕ → BitVec 8 :=
  put cfg coff (if bytes = 1 then 1 else if bytes = 2 then 2 else 4) val.toNat

section Capabilities

/-- The capabilities that are set up, with the arguments of the call that does it. -/
inductive Cap
  | msi (msgnum : ℕ)
  | msix (msgnum barnum : ℕ)
  | pcie
  deriving DecidableEq, Repr

def Cap.capid : Cap → BitVec 8
  | .msi _ => pciyMsi
  | .msix _ _ => pciyMsix
  | .pcie => pciyExpress

/-- The bytes of a number, the lowest first. -/
def bytesOf (v : ℕ) : ℕ → List (BitVec 8)
  | 0 => []
  | n + 1 => BitVec.ofNat 8 v :: bytesOf (v / 256) n

def populateMsicap (msgnum : ℕ) : List (BitVec 8) :=
  let mmc := Nat.log2 msgnum
  pciyMsi :: 0 :: (bytesOf (pcimMsictrl64bit ||| BitVec.ofNat 16 mmc <<< 1).toNat 2 ++ replicate 10 0)

def populateMsixcap (msgnum barnum msixTabSize : ℕ) : List (BitVec 8) :=
  pciyMsix :: 0 :: (bytesOf (msgnum - 1) 2 ++ bytesOf (barnum &&& pcimMsixBirMask) 4 ++
    bytesOf (msixTabSize ||| barnum &&& pcimMsixBirMask) 4)

/-- A root port of version 2, generation 1 and one lane. -/
def populatePciecap : List (BitVec 8) :=
  pciyExpress :: 0 :: (bytesOf 0x42 2 ++ replicate 8 0 ++ bytesOf 0x411 4 ++ replicate 2 0 ++
    bytesOf 0x11 2 ++ replicate 40 0)

/-- The bytes of the capability, from its offset on. -/
def copyCap (cfg : ℕ → BitVec 8) (capoff : ℕ) (capdata : List (BitVec 8)) (q : ℕ) : BitVec 8 :=
  if capoff ≤ q ∧ q < capoff + capdata.length then capdata.getD (q - capoff) 0 else cfg q

/-- The capability is copied, and its own pointer cleared. -/
def placeCap (cfg : ℕ → BitVec 8) (capoff : ℕ) (capdata : List (BitVec 8)) : ℕ → BitVec 8 :=
  put (copyCap cfg capoff capdata) (capoff + 1) 1 0

/-- `none` where the capability does not fit. -/
def addCapability (d : Devinst) (capdata : List (BitVec 8)) : Option Devinst :=
  let reallen := (capdata.length + 3) / 4 * 4
  let sts := getCfgdata16 d.cfgdata pcirStatus
  let capoff := if sts &&& pcimStatusCappresent = 0 then capStartOffset else d.capend + 1
  if capoff + reallen > pciRegmax + 1 then none
  else
    let cfg :=
      if sts &&& pcimStatusCappresent = 0 then
        put (put d.cfgdata pcirCapPtr 1 capoff) pcirStatus 2 (sts ||| pcimStatusCappresent).toNat
      else put d.cfgdata (d.prevcap + 1) 1 capoff
    some { d with
      cfgdata := placeCap cfg capoff capdata
      prevcap := capoff
      capend := capoff + reallen - 1 }

/-- `none` also where an assertion about the arguments fails. -/
def addCap (d : Devinst) : Cap → Option Devinst
  | .msi msgnum =>
    if msgnum &&& (msgnum - 1) = 0 ∧ 1 ≤ msgnum ∧ msgnum ≤ 32 then addCapability d
      (populateMsicap msgnum) else none
  | .msix msgnum barnum =>
    if 1 ≤ msgnum ∧ msgnum ≤ maxMsixTableEntries ∧ barnum ≤ pcirMaxBar0 then
      addCapability d (populateMsixcap msgnum barnum ((msgnum * msixTableEntrySize + 4095) / 4096 * 4096))
    else none
  | .pcie => addCapability d populatePciecap

/-- A device before its capabilities, as `pci_emul_init` makes it. -/
def blank : Devinst where
  cfgdata := put (put (fun _ => 0) pcirIntline 1 255) pcirCommand 1 0x7
  prevcap := 0
  capend := 0
  msi := ⟨false, 0, 0, 0⟩
  msix := ⟨0, 0⟩

/-- The device with the capabilities, in this order. -/
def build (caps : List Cap) : Option Devinst := caps.foldlM addCap blank

end Capabilities

section Writes

variable (d : Devinst)

/-- A write by the guest. -/
structure Write where
  offset : ℕ
  bytes : ℕ
  val : BitVec 32
  deriving DecidableEq, Repr

inductive Stop
  /-- the offset is in no capability -/
  | notCap
  /-- `assert(offset >= capoff)` -/
  | capoff
  /-- the walk along the capabilities does not end -/
  | endless
  deriving DecidableEq, Repr

def msixcapCfgwrite (capoff offset bytes : ℕ) (val : BitVec 32) : Devinst :=
  if offset - capoff = 2 ∧ bytes = 2 then
    let msgctrl := getCfgdata16 d.cfgdata offset &&& ~~~msixRwmask ||| val.setWidth 16 &&& msixRwmask
    { d with
      msix := ⟨msgctrl &&& pcimMsixctrlMsixEnable, msgctrl &&& pcimMsixctrlFunctionMask⟩
      cfgdata := cfgWrite d.cfgdata offset (msgctrl.setWidth 32) bytes }
  else { d with cfgdata := cfgWrite d.cfgdata offset val bytes }

/-- The data register comes after both halves of the address in the 64-bit layout. -/
def msgdataOf (cfg : ℕ → BitVec 8) (capoff : ℕ) (msgctrl : BitVec 16) : BitVec 16 :=
  if msgctrl &&& pcimMsictrl64bit ≠ 0 then getCfgdata16 cfg (capoff + 12) else getCfgdata16 cfg (capoff + 8)

def msicapCfgwrite (capoff offset bytes : ℕ) (val : BitVec 32) : Devinst :=
  if offset - capoff = 2 ∧ bytes = 2 then
    let msgctrl := getCfgdata16 d.cfgdata offset &&& ~~~msiRwmask ||| val.setWidth 16 &&& msiRwmask
    let addrlo := getCfgdata32 d.cfgdata (capoff + 4)
    let msgdata := msgdataOf d.cfgdata capoff msgctrl
    let mme := msgctrl &&& pcimMsictrlMmeMask
    { d with
      msi :=
        if msgctrl &&& pcimMsictrlMsiEnable ≠ 0 then
          ⟨true, addrlo.setWidth 64, msgdata.setWidth 64, 1 <<< (mme >>> 4).toNat⟩
        else { d.msi with enabled := false, maxmsgnum := 0 }
      cfgdata := cfgWrite d.cfgdata offset (msgctrl.setWidth 32) bytes }
  else { d with cfgdata := cfgWrite d.cfgdata offset val bytes }

def pciecapCfgwrite (offset bytes : ℕ) (val : BitVec 32) : Devinst :=
  { d with cfgdata := cfgWrite d.cfgdata offset val bytes }

/-- The capability that the offset is in. -/
def findCap (cfg : ℕ → BitVec 8) (offset : ℕ) : ℕ → ℕ → Option ℕ
  | 0, _ => none
  | fuel + 1, capoff =>
    let nextoff := (cfg (capoff + 1)).toNat
    if nextoff = 0 then some capoff
    else if capoff ≤ offset ∧ offset < nextoff then some capoff
    else findCap cfg offset fuel nextoff

/-- A write past the header of the capability. -/
def capDispatch (capoff offset bytes : ℕ) (val : BitVec 32) : Devinst :=
  let capid := d.cfgdata capoff
  if capid = pciyMsi then msicapCfgwrite d capoff offset bytes val
  else if capid = pciyMsix then msixcapCfgwrite d capoff offset bytes val
  else if capid = pciyExpress then pciecapCfgwrite d offset bytes val
  else d

def emulCapwrite (a : Write) : Except Stop Devinst :=
  if a.offset &&& (a.bytes - 1) ≠ 0 then .ok d
  else
    match findCap d.cfgdata a.offset (pciRegmax + 1) capStartOffset with
    | none => .error .endless
    | some capoff =>
      if a.offset < capoff then .error .capoff
      -- the header is read-only; a write of four bytes from it on is cut down to the control word
      else if a.offset = capoff ∨ a.offset = capoff + 1 then
        if a.offset = capoff ∧ a.bytes = 4 then .ok (capDispatch d capoff (a.offset + 2) 2 (a.val >>> 16)) else .ok d
      else .ok (capDispatch d capoff a.offset a.bytes a.val)

def emulIscap (offset : ℕ) : Bool :=
  getCfgdata16 d.cfgdata pcirStatus &&& pcimStatusCappresent ≠ 0 ∧ capStartOffset ≤ offset ∧ offset ≤ d.capend

/-- `pci_cfgrw` for a write to a capability. -/
def step (a : Write) : Except Stop Devinst :=
  if (a.bytes ≠ 1 ∧ a.bytes ≠ 2 ∧ a.bytes ≠ 4) ∨ a.offset &&& (a.bytes - 1) ≠ 0 then .ok d
  else if emulIscap d a.offset then emulCapwrite d a
  else .error .notCap

end Writes

/-- The offsets of the capabilities, along the pointers. -/
def capOffsets (cfg : ℕ → BitVec 8) : ℕ → ℕ → List ℕ
  | 0, _ => []
  | fuel + 1, capoff =>
    let nextoff := (cfg (capoff + 1)).toNat
    capoff :: if nextoff = 0 then [] else capOffsets cfg fuel nextoff

def Devinst.caps (d : Devinst) : List ℕ := capOffsets d.cfgdata (pciRegmax + 1) capStartOffset

/-- The control word of a capability. -/
def Devinst.msgctrl (d : Devinst) (capoff : ℕ) : BitVec 16 := getCfgdata16 d.cfgdata (capoff + 2)

/-- What is kept of an MSI capability is what its bytes say: the address and the data while it is enabled. -/
structure MsiMirrors (d₀ d : Devinst) (capoff : ℕ) : Prop where
  enabled : d.msi.enabled = decide (d.msgctrl capoff &&& pcimMsictrlMsiEnable ≠ 0)
  maxmsgnum : d.msi.maxmsgnum =
    if d.msi.enabled then 1 <<< ((d.msgctrl capoff &&& pcimMsictrlMmeMask) >>> 4).toNat else 0
  addr : d.msi.enabled = true → d.msi.addr = (getCfgdata32 d.cfgdata (capoff + 4)).setWidth 64
  msgData : d.msi.enabled = true → d.msi.msgData = (msgdataOf d.cfgdata capoff (d.msgctrl capoff)).setWidth 64
  readonly : d.msgctrl capoff &&& ~~~msiRwmask = d₀.msgctrl capoff &&& ~~~msiRwmask

structure MsixMirrors (d₀ d : Devinst) (capoff : ℕ) : Prop where
  enabled : d.msix.enabled = d.msgctrl capoff &&& pcimMsixctrlMsixEnable
  functionMask : d.msix.functionMask = d.msgctrl capoff &&& pcimMsixctrlFunctionMask
  readonly : d.msgctrl capoff &&& ~~~msixRwmask = d₀.msgctrl capoff &&& ~~~msixRwmask

/-- The control word is written as a whole, and the address and the data only while MSI is disabled. -/
def Orderly (d : Devinst) (a : Write) : Prop :=
  ∀ c ∈ d.caps, (d.cfgdata c = pciyMsi ∨ d.cfgdata c = pciyMsix → a.bytes = 1 → a.offset ≠ c + 2 ∧
    a.offset ≠ c + 3) ∧
    (d.cfgdata c = pciyMsi → d.msi.enabled = true → ¬(c + 4 ≤ a.offset ∧ a.offset < c + 14))

instance (d : Devinst) (a : Write) : Decidable (Orderly d a) := inferInstanceAs (Decidable (∀ c ∈ d.caps, _ ∧ _))

variable {cfg cfg' : ℕ → BitVec 8} {c offset n bytes q prev stop fuel capoff msgnum : ℕ} {blocks : List Extent}
  {b b' : Extent} {d d' d₀ : Devinst} {val : BitVec 32} {a : Write} {capdata : List (BitVec 8)} {capid : BitVec 8}
  {cap : Cap} {caps done : List Cap}

/-- The blocks of the capabilities follow one another along the pointers, from `c` on, the last one from `prev` to
`stop`. -/
inductive Linked (cfg : ℕ → BitVec 8) : ℕ → ℕ → ℕ → List Extent → Prop
  | last {c n : ℕ} (hnext : cfg (c + 1) = 0) (hpos : 0 < n) : Linked cfg c (c + n) c [⟨c, n⟩]
  | cons {c n prev stop : ℕ} {blocks : List Extent} (hnext : (cfg (c + 1)).toNat = c + n) (hpos : 0 < n)
      (rest : Linked cfg prev stop (c + n) blocks) : Linked cfg prev stop c (⟨c, n⟩ :: blocks)

namespace Linked

variable (h : Linked cfg prev stop c blocks)

include h

theorem prev_bounds : c ≤ prev ∧ prev < stop := by
  induction h with
  | last | cons => omega

theorem mem_bounds (hb : b ∈ blocks) : c ≤ b.base ∧ 0 < b.len ∧ b.base + b.len ≤ stop := by
  induction h with
  | last hnext hpos =>
    obtain rfl := mem_singleton.mp hb
    dsimp only
    omega
  | cons hnext hpos rest ih =>
    rcases mem_cons.mp hb with rfl | hb
    · have hprev := rest.prev_bounds
      dsimp only
      omega
    · have hrest := ih hb
      omega

theorem exists_last : ∃ b ∈ blocks, b.base = prev ∧ b.base + b.len = stop := by
  induction h with
  | last hnext hpos => exact ⟨_, mem_singleton_self _, rfl, rfl⟩
  | cons hnext hpos rest ih =>
    obtain ⟨b, hb, hlast⟩ := ih
    exact ⟨b, mem_cons_of_mem _ hb, hlast⟩

theorem length_le : c + blocks.length ≤ stop := by
  induction h with
  | last hnext hpos =>
    rw [length_singleton]
    omega
  | cons hnext hpos rest ih =>
    rw [length_cons]
    omega

/-- Two blocks are one or have no byte in common. -/
theorem apart (hb : b ∈ blocks) (hb' : b' ∈ blocks) (hne : b ≠ b') : b.Apart b' := by
  induction h with
  | last hnext hpos => exact absurd ((mem_singleton.mp hb).trans (mem_singleton.mp hb').symm) hne
  | cons hnext hpos rest ih =>
    rcases mem_cons.mp hb with rfl | hmem <;> rcases mem_cons.mp hb' with rfl | hmem'
    · exact absurd rfl hne
    · exact .inl (rest.mem_bounds hmem').1
    · exact .inr (rest.mem_bounds hmem).1
    · exact ih hmem hmem'

theorem congr (hnext : ∀ b ∈ blocks, cfg' (b.base + 1) = cfg (b.base + 1)) :
    Linked cfg' prev stop c blocks := by
  induction h with
  | last h hpos => exact .last ((hnext _ (mem_singleton_self _)).trans h) hpos
  | cons h hpos rest ih =>
    refine .cons ?_ hpos (ih fun b hb => hnext b (mem_cons_of_mem _ hb))
    have hhead := hnext _ mem_cons_self
    rw [hhead, h]

/-- A block is linked in behind the last one. -/
theorem snoc (hother : ∀ b ∈ blocks, b.base ≠ prev → cfg' (b.base + 1) = cfg (b.base + 1))
    (hprev : (cfg' (prev + 1)).toNat = stop) (hlast : cfg' (stop + 1) = 0) (hpos : 0 < n) :
    Linked cfg' stop (stop + n) c (blocks ++ [⟨stop, n⟩]) := by
  induction h with
  | last h hn => exact .cons hprev hn (.last hlast hpos)
  | cons h hn rest ih =>
    have hbounds := rest.prev_bounds
    have hhead := hother _ mem_cons_self
    dsimp only at hhead
    refine .cons ?_ hn (ih (fun b hb => hother b (mem_cons_of_mem _ hb)) hprev hlast)
    rw [hhead (by omega), h]

/-- The walk ends in the block that the offset is in. -/
theorem findCap_eq (hlow : c ≤ offset) (hhigh : offset < stop) (hfuel : blocks.length ≤ fuel) :
    ∃ b ∈ blocks, b.covers offset = true ∧ findCap cfg offset fuel c = some b.base := by
  induction h generalizing fuel with
  | @last c n hnext hpos =>
    obtain ⟨fuel, rfl⟩ := Nat.exists_eq_add_of_lt (Nat.lt_of_lt_of_le Nat.one_pos hfuel)
    refine ⟨⟨c, n⟩, mem_singleton_self _, Extent.covers_iff.mpr ⟨hlow, hhigh⟩, ?_⟩
    rw [findCap, hnext]
    rfl
  | @cons c n prev stop blocks hnext hpos rest ih =>
    rw [length_cons] at hfuel
    obtain ⟨fuel, rfl⟩ := Nat.exists_eq_add_of_lt (Nat.lt_of_lt_of_le (Nat.succ_pos _) hfuel)
    rw [Nat.zero_add, findCap, hnext, if_neg (by omega)]
    by_cases hin : offset < c + n
    · rw [if_pos ⟨hlow, hin⟩]
      exact ⟨⟨c, n⟩, mem_cons_self, Extent.covers_iff.mpr ⟨hlow, hin⟩, rfl⟩
    · rw [if_neg fun h => hin h.2]
      have hrest : blocks.length ≤ fuel := by omega
      obtain ⟨b, hb, hcov, heq⟩ := ih (Nat.le_of_not_lt hin) hhigh hrest
      exact ⟨b, mem_cons_of_mem _ hb, hcov, heq⟩

theorem capOffsets_eq (hfuel : blocks.length ≤ fuel) : capOffsets cfg fuel c = blocks.map Extent.base := by
  induction h generalizing fuel with
  | last hnext hpos =>
    obtain ⟨fuel, rfl⟩ := Nat.exists_eq_add_of_lt (Nat.lt_of_lt_of_le Nat.one_pos hfuel)
    rw [capOffsets, hnext]
    rfl
  | cons hnext hpos rest ih =>
    rw [length_cons] at hfuel
    obtain ⟨fuel, rfl⟩ := Nat.exists_eq_add_of_lt (Nat.lt_of_lt_of_le (Nat.succ_pos _) hfuel)
    rw [capOffsets, hnext, if_neg (by omega), ih (by omega), map_cons]

end Linked

/-- A block is aligned, and one of MSI has room for the address and the data. -/
structure Room (cfg : ℕ → BitVec 8) (b : Extent) : Prop where
  base : b.base % 4 = 0
  len : b.len % 4 = 0
  msi : cfg b.base = pciyMsi → 16 ≤ b.len

structure Layout (d : Devinst) (blocks : List Extent) : Prop where
  linked : Linked d.cfgdata d.prevcap (d.capend + 1) capStartOffset blocks
  room : ∀ b ∈ blocks, Room d.cfgdata b
  unique : ∀ b ∈ blocks, ∀ b' ∈ blocks, d.cfgdata b.base = d.cfgdata b'.base → b = b'
  fits : d.capend ≤ pciRegmax

section

variable (h : Layout d blocks)

include h

theorem Layout.length_le : blocks.length ≤ pciRegmax + 1 := by
  have hlen := h.linked.length_le
  have hfits := h.fits
  omega

theorem Layout.caps_eq : d.caps = blocks.map Extent.base :=
  h.linked.capOffsets_eq h.length_le

theorem Layout.mem_caps (hb : b ∈ blocks) : b.base ∈ d.caps := by
  rw [h.caps_eq]
  exact mem_map_of_mem hb

/-- The layout is in the headers of the capabilities. -/
theorem Layout.congr (hhead : ∀ b ∈ blocks, d'.cfgdata b.base = d.cfgdata b.base ∧
      d'.cfgdata (b.base + 1) = d.cfgdata (b.base + 1))
    (hprev : d'.prevcap = d.prevcap) (hend : d'.capend = d.capend) : Layout d' blocks where
  linked := by
    rw [hprev, hend]
    exact h.linked.congr fun b hb => (hhead b hb).2
  room b hb := by
    have hroom := h.room b hb
    exact ⟨hroom.base, hroom.len, fun hid => hroom.msi ((hhead b hb).1.symm.trans hid)⟩
  unique b hb b' hb' hid := h.unique b hb b' hb' (by rw [← (hhead b hb).1, hid, (hhead b' hb').1])
  fits := hend ▸ h.fits

end

/-- The write is past the header of the block and does not leave it. -/
structure Placed (b : Extent) (offset bytes : ℕ) : Prop where
  low : b.base + 2 ≤ offset
  high : offset + bytes ≤ b.base + b.len
  size : bytes = 1 ∨ bytes = 2 ∨ bytes = 4
  aligned : offset % bytes = 0

theorem and_pred_eq_mod (hsize : bytes = 1 ∨ bytes = 2 ∨ bytes = 4) : offset &&& (bytes - 1) = offset % bytes := by
  rcases hsize with rfl | rfl | rfl
  · exact Nat.and_two_pow_sub_one_eq_mod offset 0
  · exact Nat.and_two_pow_sub_one_eq_mod offset 1
  · exact Nat.and_two_pow_sub_one_eq_mod offset 2

/-- An aligned write that starts in a block ends in it. -/
theorem Room.placed (h : Room cfg b) (hcov : b.covers offset = true) (hlow : b.base + 2 ≤ offset)
    (hsize : bytes = 1 ∨ bytes = 2 ∨ bytes = 4) (haligned : offset % bytes = 0) : Placed b offset bytes := by
  refine ⟨hlow, ?_, hsize, haligned⟩
  have hbase := h.base
  have hlen := h.len
  have hin := Extent.covers_iff.mp hcov
  rcases hsize with rfl | rfl | rfl <;> omega

/-- What a write does: nothing, or a write past the header of one block, as it is or cut down to the control word. -/
inductive Effect (d : Devinst) (blocks : List Extent) (a : Write) : Devinst → Prop
  | ignored : Effect d blocks a d
  | written {b : Extent} {offset bytes : ℕ} (val : BitVec 32) (mem : b ∈ blocks) (placed : Placed b offset bytes)
      (source : offset = a.offset ∧ bytes = a.bytes ∨ offset = b.base + 2 ∧ bytes = 2) :
      Effect d blocks a (capDispatch d b.base offset bytes val)

theorem Layout.capwrite_effect (h : Layout d blocks) (hlow : capStartOffset ≤ a.offset)
    (hhigh : a.offset ≤ d.capend)
    (hsize : a.bytes = 1 ∨ a.bytes = 2 ∨ a.bytes = 4) (haligned : a.offset % a.bytes = 0) :
    ∃ d', emulCapwrite d a = .ok d' ∧ Effect d blocks a d' := by
  obtain ⟨b, hb, hcov, hfind⟩ := h.linked.findCap_eq hlow (Nat.lt_succ_of_le hhigh) h.length_le
  have hin := Extent.covers_iff.mp hcov
  have hroom := h.room b hb
  rw [emulCapwrite, and_pred_eq_mod hsize, if_neg (not_not_intro haligned), hfind]
  dsimp only
  rw [if_neg (Nat.not_lt_of_le hin.1)]
  split_ifs with hhead hfour
  · rw [hfour.1]
    have hbase := hroom.base
    have hlen := hroom.len
    exact ⟨_, rfl, .written _ hb ⟨Nat.le_refl _, by omega, by omega, by omega⟩ (.inr ⟨rfl, rfl⟩)⟩
  · exact ⟨d, rfl, .ignored⟩
  · exact ⟨_, rfl, .written _ hb (hroom.placed hcov (by omega) hsize haligned) (.inl ⟨rfl, rfl⟩)⟩

/-- Every write to a capability goes through. -/
theorem Layout.step_effect (h : Layout d blocks) (hcap : emulIscap d a.offset = true) :
    ∃ d', step d a = .ok d' ∧ Effect d blocks a d' := by
  rw [step]
  split_ifs with hpass
  · exact ⟨d, rfl, .ignored⟩
  · rw [emulIscap, decide_eq_true_eq] at hcap
    have hsize : a.bytes = 1 ∨ a.bytes = 2 ∨ a.bytes = 4 := by omega
    have haligned : a.offset % a.bytes = 0 := by
      rw [← and_pred_eq_mod hsize]
      by_contra hnot
      exact hpass (.inr hnot)
    exact h.capwrite_effect hcap.2.1 hcap.2.2 hsize haligned

theorem Layout.effect_of_step (h : Layout d blocks) (hs : step d a = .ok d') : Effect d blocks a d' := by
  by_cases hcap : emulIscap d a.offset = true
  · obtain ⟨d'', hok, heffect⟩ := h.step_effect hcap
    rw [hok] at hs
    cases hs
    exact heffect
  · rw [step] at hs
    split_ifs at hs
    cases hs
    exact .ignored

theorem cfgWrite_of_not (hsize : bytes = 1 ∨ bytes = 2 ∨ bytes = 4) (hq : q < offset ∨ offset + bytes ≤ q) :
    cfgWrite cfg offset val bytes q = cfg q := by
  rcases hsize with rfl | rfl | rfl <;> exact put_of_not hq

/-- A write changes no other byte. -/
theorem capDispatch_of_not (hsize : bytes = 1 ∨ bytes = 2 ∨ bytes = 4) (hq : q < offset ∨ offset + bytes ≤ q) :
    (capDispatch d c offset bytes val).cfgdata q = d.cfgdata q := by
  rw [capDispatch, msicapCfgwrite, msixcapCfgwrite]
  split_ifs <;> first | exact cfgWrite_of_not hsize hq | rfl

theorem capDispatch_ends : (capDispatch d c offset bytes val).prevcap = d.prevcap ∧
    (capDispatch d c offset bytes val).capend = d.capend := by
  rw [capDispatch, msicapCfgwrite, msixcapCfgwrite]
  split_ifs <;> exact ⟨rfl, rfl⟩

/-- The state of MSI changes with a write of its control word only. -/
theorem capDispatch_msi (h : d.cfgdata c = pciyMsi → ¬(offset - c = 2 ∧ bytes = 2)) :
    (capDispatch d c offset bytes val).msi = d.msi := by
  rw [capDispatch]
  split_ifs with hmsi
  · rw [msicapCfgwrite, if_neg (h hmsi)]
  · rw [msixcapCfgwrite]
    split_ifs <;> rfl
  · rfl
  · rfl

theorem capDispatch_msix (h : d.cfgdata c = pciyMsix → ¬(offset - c = 2 ∧ bytes = 2)) :
    (capDispatch d c offset bytes val).msix = d.msix := by
  rw [capDispatch]
  split_ifs with hmsi hmsix
  · rw [msicapCfgwrite]
    split_ifs <;> rfl
  · rw [msixcapCfgwrite, if_neg (h hmsix)]
  · rfl
  · rfl

theorem getCfgdata16_cfgWrite (cfg : ℕ → BitVec 8) (offset : ℕ) (w : BitVec 16) :
    getCfgdata16 (cfgWrite cfg offset (w.setWidth 32) 2) offset = w := by
  rw [getCfgdata16, cfgWrite, if_neg (by decide), if_pos rfl, value_put, toNat_setWidth]
  apply eq_of_toNat_eq
  rw [toNat_ofNat]
  omega

theorem getCfgdata16_congr (h : ∀ q, c ≤ q → q < c + 2 → cfg' q = cfg q) :
    getCfgdata16 cfg' c = getCfgdata16 cfg c := by rw [getCfgdata16, getCfgdata16, value_congr h]

theorem getCfgdata32_congr (h : ∀ q, c ≤ q → q < c + 4 → cfg' q = cfg q) :
    getCfgdata32 cfg' c = getCfgdata32 cfg c := by rw [getCfgdata32, getCfgdata32, value_congr h]

theorem msgdataOf_congr {msgctrl : BitVec 16} (h : ∀ q, c + 8 ≤ q → q < c + 14 → cfg' q = cfg q) :
    msgdataOf cfg' c msgctrl = msgdataOf cfg c msgctrl := by
  rw [msgdataOf, msgdataOf, getCfgdata16_congr fun q hq hlt => h q (by omega) (by omega),
    getCfgdata16_congr fun q hq hlt => h q (by omega) (by omega)]

/-- Merging under a mask leaves what is outside the mask. -/
theorem merge_and_not (x y mask : BitVec 16) : (x &&& ~~~mask ||| y &&& mask) &&& ~~~mask = x &&& ~~~mask := by
  ext i hi
  simp only [getElem_and, getElem_or, getElem_not]
  cases mask[i] <;> simp

/-- After a write of the control word the state is the one that the bytes say. -/
theorem msicapCfgwrite_mirrors (hro : d.msgctrl c &&& ~~~msiRwmask = d₀.msgctrl c &&& ~~~msiRwmask) :
    MsiMirrors d₀ (msicapCfgwrite d c (c + 2) 2 val) c := by
  have hbody {q : ℕ} (msgctrl : BitVec 16) (hq : c + 4 ≤ q) :
      cfgWrite d.cfgdata (c + 2) (msgctrl.setWidth 32) 2 q = d.cfgdata q := cfgWrite_of_not (by omega) (by omega)
  rw [msicapCfgwrite, if_pos ⟨by omega, rfl⟩]
  dsimp only
  generalize hctrl : getCfgdata16 d.cfgdata (c + 2) &&& ~~~msiRwmask ||| val.setWidth 16 &&& msiRwmask = msgctrl
  have haddr : getCfgdata32 (cfgWrite d.cfgdata (c + 2) (msgctrl.setWidth 32) 2) (c + 4) =
      getCfgdata32 d.cfgdata (c + 4) :=
    getCfgdata32_congr fun q hq _ => hbody msgctrl hq
  have hdata : msgdataOf (cfgWrite d.cfgdata (c + 2) (msgctrl.setWidth 32) 2) c msgctrl =
      msgdataOf d.cfgdata c msgctrl :=
    msgdataOf_congr fun q hq _ => hbody msgctrl (by omega)
  have hword := getCfgdata16_cfgWrite d.cfgdata (c + 2) msgctrl
  by_cases hen : msgctrl &&& pcimMsictrlMsiEnable = 0
  · rw [if_neg (not_not_intro hen)]
    refine ⟨?_, rfl, fun h => ?_, fun h => ?_, ?_⟩
    · rw [Devinst.msgctrl, hword, hen]
      rfl
    · cases h
    · cases h
    · rw [Devinst.msgctrl, hword, ← hctrl, merge_and_not]
      exact hro
  · rw [if_pos hen]
    refine ⟨?_, ?_, fun _ => ?_, fun _ => ?_, ?_⟩
    · rw [Devinst.msgctrl, hword]
      exact (decide_eq_true hen).symm
    · rw [Devinst.msgctrl, hword]
      rfl
    · rw [haddr]
    · rw [Devinst.msgctrl, hword, hdata]
    · rw [Devinst.msgctrl, hword, ← hctrl, merge_and_not]
      exact hro

theorem msixcapCfgwrite_mirrors (hro : d.msgctrl c &&& ~~~msixRwmask = d₀.msgctrl c &&& ~~~msixRwmask) :
    MsixMirrors d₀ (msixcapCfgwrite d c (c + 2) 2 val) c := by
  rw [msixcapCfgwrite, if_pos ⟨by omega, rfl⟩]
  refine ⟨?_, ?_, ?_⟩
  · rw [Devinst.msgctrl, getCfgdata16_cfgWrite]
  · rw [Devinst.msgctrl, getCfgdata16_cfgWrite]
  · rw [Devinst.msgctrl, getCfgdata16_cfgWrite, merge_and_not]
    exact hro

theorem MsiMirrors.congr (h : MsiMirrors d₀ d c) (hmsi : d'.msi = d.msi)
    (hctrl : ∀ q, c + 2 ≤ q → q < c + 4 → d'.cfgdata q = d.cfgdata q)
    (hbody : d.msi.enabled = true → ∀ q, c + 4 ≤ q → q < c + 14 → d'.cfgdata q = d.cfgdata q) :
    MsiMirrors d₀ d' c := by
  have hword : d'.msgctrl c = d.msgctrl c := getCfgdata16_congr hctrl
  refine ⟨?_, ?_, fun hen => ?_, fun hen => ?_, ?_⟩
  · rw [hmsi, hword, h.enabled]
  · rw [hmsi, hword, h.maxmsgnum]
  · rw [hmsi] at hen
    rw [hmsi, h.addr hen, getCfgdata32_congr fun q hq hlt => hbody hen q hq (by omega)]
  · rw [hmsi] at hen
    rw [hmsi, hword, h.msgData hen, msgdataOf_congr fun q hq hlt => hbody hen q (by omega) hlt]
  · rw [hword, h.readonly]

theorem MsixMirrors.congr (h : MsixMirrors d₀ d c) (hmsix : d'.msix = d.msix)
    (hctrl : ∀ q, c + 2 ≤ q → q < c + 4 → d'.cfgdata q = d.cfgdata q) : MsixMirrors d₀ d' c := by
  have hword : d'.msgctrl c = d.msgctrl c := getCfgdata16_congr hctrl
  refine ⟨?_, ?_, ?_⟩
  · rw [hmsix, hword, h.enabled]
  · rw [hmsix, hword, h.functionMask]
  · rw [hword, h.readonly]

structure Mirrored (d₀ : Devinst) (blocks : List Extent) (d : Devinst) : Prop where
  layout : Layout d blocks
  msi : ∀ b ∈ blocks, d.cfgdata b.base = pciyMsi → MsiMirrors d₀ d b.base
  msix : ∀ b ∈ blocks, d.cfgdata b.base = pciyMsix → MsixMirrors d₀ d b.base

/-- A write to a block is outside every other one. -/
theorem Placed.outside (h : Placed b offset bytes) (hapart : b.Apart b')
    (hlow : b'.base ≤ q) (hhigh : q < b'.base + b'.len) :
    q < offset ∨ offset + bytes ≤ q := by
  have hl := h.low
  have hh := h.high
  rcases hapart with hap | hap <;> omega

theorem Layout.four_le (h : Layout d blocks) (hb : b ∈ blocks) : 4 ≤ b.len := by
  have hpos := (h.linked.mem_bounds hb).2.1
  have hlen := (h.room b hb).len
  omega

section Written

variable (h : Layout d blocks) (hb : b ∈ blocks) (hp : Placed b offset bytes)

include h hb hp

/-- Nothing in another block changes. -/
theorem Layout.other_block (hb' : b' ∈ blocks) (hne : b' ≠ b) (hlow : b'.base ≤ q)
    (hhigh : q < b'.base + b'.len) :
    (capDispatch d b.base offset bytes val).cfgdata q = d.cfgdata q :=
  capDispatch_of_not hp.size (hp.outside (h.linked.apart hb hb' hne.symm) hlow hhigh)

theorem Layout.header (hb' : b' ∈ blocks) (hlow : b'.base ≤ q) (hhigh : q < b'.base + 2) :
    (capDispatch d b.base offset bytes val).cfgdata q = d.cfgdata q := by
  by_cases hne : b' = b
  · subst hne
    have hl := hp.low
    exact capDispatch_of_not hp.size (.inl (by omega))
  · have hfour := h.four_le hb'
    exact h.other_block hb hp hb' hne hlow (by omega)

theorem Layout.dispatch : Layout (capDispatch d b.base offset bytes val) blocks :=
  h.congr (fun _ hb' => ⟨h.header hb hp hb' (Nat.le_refl _) (by omega), h.header hb hp hb' (by omega) (by omega)⟩)
    capDispatch_ends.1 capDispatch_ends.2

/-- Where a write comes from: the guest's own, or cut down to the control word. -/
abbrev Source (a : Write) (b : Extent) (offset bytes : ℕ) : Prop :=
  offset = a.offset ∧ bytes = a.bytes ∨ offset = b.base + 2 ∧ bytes = 2

/-- To a block whose control word is written as a whole, a write is one of that word, or it leaves the word alone. -/
theorem Layout.control_cases (hb' : b' ∈ blocks)
    (hwhole : a.bytes = 1 → a.offset ≠ b'.base + 2 ∧ a.offset ≠ b'.base + 3)
    (hsource : Source a b offset bytes) :
    b' = b ∧ offset = b'.base + 2 ∧ bytes = 2 ∨
      (d.cfgdata b.base = d.cfgdata b'.base → b.base + 4 ≤ offset) ∧
        ∀ q, b'.base ≤ q → q < b'.base + 4 →
          (capDispatch d b.base offset bytes val).cfgdata q = d.cfgdata q := by
  by_cases hne : b' = b
  · subst hne
    have hl := hp.low
    have hal := hp.aligned
    have hbase := (h.room b' hb').base
    have hcases : offset = b'.base + 2 ∧ bytes = 2 ∨ b'.base + 4 ≤ offset := by
      rcases hsource with ⟨rfl, rfl⟩ | hctrl
      · rcases hp.size with hsize | hsize | hsize
        · omega
        all_goals
          rw [hsize] at hal
          omega
      · exact .inl hctrl
    rcases hcases with hctrl | hbehind
    · exact .inl ⟨rfl, hctrl⟩
    · exact .inr ⟨fun _ => hbehind, fun q _ hq => capDispatch_of_not hp.size (.inl (by omega))⟩
  · have hfour := h.four_le hb'
    exact .inr ⟨fun heq => absurd (h.unique b' hb' b hb heq.symm) hne,
      fun q hlow hq => h.other_block hb hp hb' hne hlow (by omega)⟩

end Written

section Mirrored

variable (h : Mirrored d₀ blocks d) (horder : Orderly d a)

include h horder

section Block

variable (hb : b ∈ blocks) (hp : Placed b offset bytes) (hsource : Source a b offset bytes) (hb' : b' ∈ blocks)

include hb hp hsource hb'

theorem Mirrored.msi_step (hid : d.cfgdata b'.base = pciyMsi) :
    MsiMirrors d₀ (capDispatch d b.base offset bytes val) b'.base := by
  have hmirror := h.msi b' hb' hid
  obtain ⟨hwhole, hstill⟩ := horder b'.base (h.layout.mem_caps hb')
  rcases h.layout.control_cases hb hp hb' (hwhole (.inl hid)) hsource with ⟨rfl, rfl, rfl⟩ | ⟨hbehind, hkeep⟩
  · rw [capDispatch, if_pos hid]
    exact msicapCfgwrite_mirrors hmirror.readonly
  · refine hmirror.congr (capDispatch_msi fun heq hctrl => ?_) (fun q hlow hq => hkeep q (by omega) hq)
      fun hen q hlow hq => ?_
    · have hfar := hbehind (heq.trans hid.symm)
      omega
    · by_cases hne : b' = b
      · subst hne
        have hfar := hbehind rfl
        have hstays := hstill hid hen
        exact capDispatch_of_not hp.size (.inl (by omega))
      · have hlen := (h.layout.room b' hb').msi hid
        exact h.layout.other_block hb hp hb' hne (by omega) (by omega)

theorem Mirrored.msix_step (hid : d.cfgdata b'.base = pciyMsix) :
    MsixMirrors d₀ (capDispatch d b.base offset bytes val) b'.base := by
  have hmirror := h.msix b' hb' hid
  have hwhole := (horder b'.base (h.layout.mem_caps hb')).1 (.inr hid)
  rcases h.layout.control_cases hb hp hb' hwhole hsource with ⟨rfl, rfl, rfl⟩ | ⟨hbehind, hkeep⟩
  · rw [capDispatch, hid]
    exact msixcapCfgwrite_mirrors hmirror.readonly
  · refine hmirror.congr (capDispatch_msix fun heq hctrl => ?_) fun q hlow hq => hkeep q (by omega) hq
    have hfar := hbehind (heq.trans hid.symm)
    omega

end Block

theorem Mirrored.step (hs : Msi.step d a = .ok d') : Mirrored d₀ blocks d' := by
  cases h.layout.effect_of_step hs with
  | ignored => exact h
  | written val hb hp hsource =>
    have hid {b' : Extent} (hb' : b' ∈ blocks) : (capDispatch d _ _ _ val).cfgdata b'.base = d.cfgdata b'.base :=
      h.layout.header hb hp hb' (Nat.le_refl _) (by omega)
    exact ⟨h.layout.dispatch hb hp,
      fun b' hb' heq => h.msi_step horder hb hp hsource hb' ((hid hb').symm.trans heq),
      fun b' hb' heq => h.msix_step horder hb hp hsource hb' ((hid hb').symm.trans heq)⟩

end Mirrored

/-- The control word in the bytes of a capability. -/
def ctrlOf (capdata : List (BitVec 8)) : BitVec 16 := getCfgdata16 (fun i => capdata.getD i 0) 2

/-- What the guest may change in the control word. -/
def rwmask (capid : BitVec 8) : BitVec 16 :=
  if capid = pciyMsi then msiRwmask else if capid = pciyMsix then msixRwmask else 0

/-- What a capability brings along: its id, room for its registers, and a control word with everything off. -/
structure Proper (capid : BitVec 8) (capdata : List (BitVec 8)) : Prop where
  head : capdata.getD 0 0 = capid
  length : 4 ≤ capdata.length
  msi : capid = pciyMsi → 13 ≤ capdata.length
  idle : ctrlOf capdata &&& rwmask capid = 0

theorem placeCap_below (h : q < capoff) : placeCap cfg capoff capdata q = cfg q := by
  rw [placeCap, put_of_not (by omega), copyCap, if_neg (by omega)]

theorem placeCap_head (h : 4 ≤ capdata.length) : placeCap cfg capoff capdata capoff = capdata.getD 0 0 := by
  rw [placeCap, put_of_not (by omega), copyCap, if_pos (by omega), Nat.sub_self]

theorem placeCap_next : placeCap cfg capoff capdata (capoff + 1) = 0 := by
  rw [placeCap, put, if_pos (by omega), Nat.zero_div]
  rfl

theorem placeCap_ctrl (h : 4 ≤ capdata.length) :
    getCfgdata16 (placeCap cfg capoff capdata) (capoff + 2) = ctrlOf capdata := by
  have hbyte {i : ℕ} (hlow : 2 ≤ i) (hhigh : i < 4) : placeCap cfg capoff capdata
    (capoff + i) = capdata.getD i 0 := by
    rw [placeCap, put_of_not (by omega), copyCap, if_pos (by omega), Nat.add_sub_cancel_left]
  rw [ctrlOf, getCfgdata16, getCfgdata16, value, value, hbyte (Nat.le_refl 2) (by omega), Nat.add_assoc,
    hbyte (by omega) (by omega)]
  rfl

/-- The capabilities are set up in the blocks, and nothing is enabled. -/
structure Built (caps : List Cap) (blocks : List Extent) (d : Devinst) : Prop where
  linked : Linked d.cfgdata d.prevcap (d.capend + 1) capStartOffset blocks
  room : ∀ b ∈ blocks, Room d.cfgdata b
  fits : d.capend ≤ pciRegmax
  present : getCfgdata16 d.cfgdata pcirStatus &&& pcimStatusCappresent ≠ 0
  ids : blocks.map (fun b => d.cfgdata b.base) = caps.map Cap.capid
  idle : ∀ b ∈ blocks, d.msgctrl b.base &&& rwmask (d.cfgdata b.base) = 0
  msi : d.msi = ⟨false, 0, 0, 0⟩
  msix : d.msix = ⟨0, 0⟩

/-- The block of a capability that is put in. -/
def blockOf (capoff : ℕ) (capdata : List (BitVec 8)) : Extent := ⟨capoff, (capdata.length + 3) / 4 * 4⟩

section

variable (h : Proper capid capdata)

include h

theorem Proper.len_pos : 0 < (blockOf capoff capdata).len := by
  have hlen := h.length
  change 0 < (capdata.length + 3) / 4 * 4
  omega

theorem Proper.placeCap_id (cfg : ℕ → BitVec 8) (capoff : ℕ) :
    placeCap cfg capoff capdata capoff = capid := (placeCap_head h.length).trans h.head

theorem Proper.room (cfg : ℕ → BitVec 8) (hcapoff : capoff % 4 = 0) :
    Room (placeCap cfg capoff capdata) (blockOf capoff capdata) := by
  refine ⟨hcapoff, Nat.mul_mod_left _ _, fun hid => ?_⟩
  have hlen := h.msi ((h.placeCap_id cfg capoff).symm.trans hid)
  change 16 ≤ (capdata.length + 3) / 4 * 4
  omega

theorem Proper.placeCap_idle (cfg : ℕ → BitVec 8) (capoff : ℕ) :
    getCfgdata16 (placeCap cfg capoff capdata) (capoff + 2) &&& rwmask (placeCap cfg capoff capdata capoff) = 0 := by
  rw [placeCap_ctrl h.length, h.placeCap_id, h.idle]

end

theorem addCapability_blank (h : addCapability blank capdata = some d') :
    capStartOffset + (blockOf capStartOffset capdata).len ≤ pciRegmax + 1 ∧
      ∃ cfg, getCfgdata16 cfg pcirStatus &&& pcimStatusCappresent ≠ 0 ∧ d' = { blank with
          cfgdata := placeCap cfg capStartOffset capdata
          prevcap := capStartOffset
          capend := capStartOffset + (blockOf capStartOffset capdata).len - 1 } := by
  have hsts : getCfgdata16 blank.cfgdata pcirStatus &&& pcimStatusCappresent = 0 := by decide
  rw [addCapability, if_pos hsts] at h
  split at h
  · cases h
  · next hfits =>
    refine ⟨Nat.le_of_not_lt hfits, _, ?_, (Option.some.inj h).symm⟩
    decide

/-- The pointer of the last capability leads to the next one. -/
def pointed (d : Devinst) : ℕ → BitVec 8 := put d.cfgdata (d.prevcap + 1) 1 (d.capend + 1)

theorem addCapability_present (hsts : getCfgdata16 d.cfgdata pcirStatus &&& pcimStatusCappresent ≠ 0)
    (h : addCapability d capdata = some d') :
    d.capend + 1 + (blockOf (d.capend + 1) capdata).len ≤ pciRegmax + 1 ∧ d' = { d with
        cfgdata := placeCap (pointed d) (d.capend + 1) capdata
        prevcap := d.capend + 1
        capend := d.capend + 1 + (blockOf (d.capend + 1) capdata).len - 1 } := by
  rw [addCapability, if_neg hsts] at h
  split_ifs at h
  next hfits => exact ⟨Nat.le_of_not_lt hfits, (Option.some.inj h).symm⟩

theorem Built.first (hcap : Proper cap.capid capdata) (h : addCapability blank capdata = some d') :
    Built [cap] [blockOf capStartOffset capdata] d' := by
  obtain ⟨hfits, cfg, hsts, rfl⟩ := addCapability_blank h
  have hpos : 0 < (blockOf capStartOffset capdata).len := hcap.len_pos
  have hend : capStartOffset + (blockOf capStartOffset capdata).len - 1 + 1 =
      capStartOffset + (blockOf capStartOffset capdata).len := by omega
  constructor
  case linked =>
    dsimp only
    rw [hend]
    exact .last placeCap_next hpos
  case room => exact forall_mem_singleton.mpr (hcap.room cfg rfl)
  case fits => exact Nat.sub_le_of_le_add hfits
  case present =>
    rwa [getCfgdata16_congr fun q _ hq => placeCap_below (Nat.lt_trans hq (by decide))]
  case ids => exact congrArg (fun x => [x]) (hcap.placeCap_id cfg capStartOffset)
  case idle => exact forall_mem_singleton.mpr (hcap.placeCap_idle cfg _)
  case msi => rfl
  case msix => rfl

/-- Only the pointer of the last block changes, and it stays apart from every id and control word. -/
theorem Built.kept (h : Built caps blocks d) (hb : b ∈ blocks) (hlow : b.base ≤ q) (hhigh : q < b.base + 4)
    (hnext : q = b.base + 1 → b.base ≠ d.prevcap) :
    placeCap (pointed d) (d.capend + 1) capdata q = d.cfgdata q := by
  obtain ⟨last, hlast, hprev, -⟩ := h.linked.exists_last
  have halign := (h.room b hb).base
  have hlen := (h.room b hb).len
  have hlastAlign := (h.room last hlast).base
  obtain ⟨hbase, hpos, hstop⟩ := h.linked.mem_bounds hb
  rw [placeCap_below (by omega), pointed, put_of_not]
  by_cases hq : q = b.base + 1
  · omega
  · omega

theorem Built.snoc (h : Built caps blocks d) (hcap : Proper cap.capid capdata)
    (hs : addCapability d capdata = some d') :
    Built (caps ++ [cap]) (blocks ++ [blockOf (d.capend + 1) capdata]) d' := by
  obtain ⟨hfits, rfl⟩ := addCapability_present h.present hs
  have hpos : 0 < (blockOf (d.capend + 1) capdata).len := hcap.len_pos
  have hend : d.capend + 1 + (blockOf (d.capend + 1) capdata).len - 1 + 1 =
      d.capend + 1 + (blockOf (d.capend + 1) capdata).len := by omega
  obtain ⟨last, hlast, hprev, hstop⟩ := h.linked.exists_last
  have halign : (d.capend + 1) % 4 = 0 := by
    have hbase := (h.room last hlast).base
    have hlen := (h.room last hlast).len
    omega
  have hlastLen := (h.room last hlast).len
  obtain ⟨hlow, hwide, -⟩ := h.linked.mem_bounds hlast
  have hid {b : Extent} (hb : b ∈ blocks) : placeCap (pointed d) (d.capend + 1) capdata b.base = d.cfgdata b.base :=
    h.kept hb (Nat.le_refl _) (by omega) (by omega)
  have hctrl {b : Extent} (hb : b ∈ blocks) :
      getCfgdata16 (placeCap (pointed d) (d.capend + 1) capdata) (b.base + 2) = d.msgctrl b.base :=
    getCfgdata16_congr fun q hq hlt => h.kept hb (by omega) (by omega) (by omega)
  constructor
  case linked =>
    dsimp only
    rw [hend]
    refine h.linked.snoc (fun b hb hne => h.kept hb (by omega) (by omega) fun _ => hne) ?_ placeCap_next hpos
    have hfit : d.capend + 1 < 256 := by
      have hmax : pciRegmax = 255 := rfl
      omega
    rw [placeCap_below (by omega), pointed, put, if_pos (by omega), Nat.sub_self, Nat.pow_zero, Nat.div_one,
      toNat_ofNat, Nat.mod_eq_of_lt hfit]
  case room =>
    refine forall_mem_append.mpr ⟨fun b hb => ?_, forall_mem_singleton.mpr (hcap.room _ halign)⟩
    have hold := h.room b hb
    exact ⟨hold.base, hold.len, fun heq => hold.msi ((hid hb).symm.trans heq)⟩
  case fits => exact Nat.sub_le_of_le_add hfits
  case present =>
    have hbelow {q : ℕ} (hq : q < pcirStatus + 2) : placeCap (pointed d) (d.capend + 1) capdata q = d.cfgdata q := by
      have hsmall : pcirStatus + 2 ≤ capStartOffset := by decide
      rw [placeCap_below (by omega), pointed, put_of_not (by omega)]
    rw [getCfgdata16_congr fun q _ hq => hbelow hq]
    exact h.present
  case ids =>
    rw [map_append, map_append, ← h.ids]
    exact congrArg₂ (· ++ ·) (map_congr_left fun b hb => hid hb) (congrArg (fun x => [x]) (hcap.placeCap_id _ _))
  case idle =>
    refine forall_mem_append.mpr ⟨fun b hb => ?_, forall_mem_singleton.mpr (hcap.placeCap_idle _ _)⟩
    have hold := h.idle b hb
    rwa [← hctrl hb, ← hid hb] at hold
  case msi => exact h.msi
  case msix => exact h.msix

theorem proper_msicap (hpow : msgnum &&& (msgnum - 1) = 0) (hmax : msgnum ≤ 32) :
    Proper pciyMsi (populateMsicap msgnum) := by
  have hctrl : ∀ n : Fin 33, n.val &&& (n.val - 1) = 0 → ctrlOf (populateMsicap n.val) &&& rwmask pciyMsi = 0 := by
    decide +kernel
  exact ⟨rfl, Nat.le_add_left 4 10, fun _ => Nat.le_add_left 13 1, hctrl ⟨msgnum, Nat.lt_succ_of_le hmax⟩ hpow⟩

/-- The table size of MSI-X stays below the bits that the guest may change. -/
theorem ofNat_and_msixRwmask (h : n < 2 ^ 14) : BitVec.ofNat 16 n &&& msixRwmask = 0 := by
  have hmask : ∀ i : Fin 14, msixRwmask.getLsbD i = false := by decide
  apply eq_of_getLsbD_eq
  intro i hi
  rw [getLsbD_and, getLsbD_ofNat]
  by_cases hlow : i < 14
  · rw [hmask ⟨i, hlow⟩, Bool.and_false]
    exact BitVec.getLsbD_zero.symm
  · have hbit : n.testBit i = false :=
      Nat.testBit_lt_two_pow (Nat.lt_of_lt_of_le h (Nat.pow_le_pow_right (by decide) (by omega)))
    rw [hbit, Bool.and_false]
    exact BitVec.getLsbD_zero.symm

theorem proper_msixcap {barnum size : ℕ} (hmax : msgnum ≤ maxMsixTableEntries) :
    Proper pciyMsix (populateMsixcap msgnum barnum size) := by
  have hsmall : msgnum ≤ 2048 := hmax
  have hctrl : ctrlOf (populateMsixcap msgnum barnum size) = BitVec.ofNat 16 (msgnum - 1) := by
    change BitVec.ofNat 16 ((BitVec.ofNat 8 (msgnum - 1)).toNat +
      256 * ((BitVec.ofNat 8 ((msgnum - 1) / 256)).toNat + 256 * 0)) = _
    apply eq_of_toNat_eq
    rw [toNat_ofNat, toNat_ofNat, toNat_ofNat, toNat_ofNat]
    omega
  refine ⟨rfl, Nat.le_add_left 4 8, fun h => absurd h (by decide), ?_⟩
  rw [hctrl]
  exact ofNat_and_msixRwmask (by omega)

theorem proper_pciecap : Proper pciyExpress populatePciecap :=
  ⟨rfl, by decide, fun h => absurd h (by decide), by decide⟩

theorem addCap_eq (h : addCap d cap = some d') :
    ∃ capdata, Proper cap.capid capdata ∧ addCapability d capdata = some d' := by
  cases cap with
  | msi msgnum =>
    rw [addCap] at h
    split_ifs at h
    next hargs => exact ⟨_, proper_msicap hargs.1 hargs.2.2, h⟩
  | msix msgnum barnum =>
    rw [addCap] at h
    split_ifs at h
    next hargs => exact ⟨_, proper_msixcap hargs.2.1, h⟩
  | pcie => exact ⟨_, proper_pciecap, h⟩

theorem Built.fold (h : Built done blocks d) (hs : caps.foldlM addCap d = some d') :
    ∃ blocks', Built (done ++ caps) blocks' d' := by
  induction caps generalizing done blocks d with
  | nil =>
    cases hs
    exact ⟨blocks, by rwa [append_nil]⟩
  | cons cap caps ih =>
    rw [foldlM_cons, bind_eq_bind, bind_eq_some_iff] at hs
    obtain ⟨mid, hcap, hrest⟩ := hs
    obtain ⟨capdata, hproper, hadd⟩ := addCap_eq hcap
    obtain ⟨blocks', hbuilt⟩ := ih (h.snoc hproper hadd) hrest
    exact ⟨blocks', by rwa [append_assoc] at hbuilt⟩

theorem built_of_build (h : build (cap :: caps) = some d') : ∃ blocks, Built (cap :: caps) blocks d' := by
  rw [build, foldlM_cons, bind_eq_bind, bind_eq_some_iff] at h
  obtain ⟨d, hcap, hrest⟩ := h
  obtain ⟨capdata, hproper, hadd⟩ := addCap_eq hcap
  exact (Built.first hproper hadd).fold hrest

theorem and_eq_zero_of_mask {x mask y : BitVec 16} (h : x &&& mask = 0) (hy : mask &&& y = y) : x &&& y = 0 := by
  rw [← hy, ← BitVec.and_assoc, h]
  exact zero_and

/-- Before the first write the device mirrors its bytes: everything is off. -/
theorem Built.mirrored (h : Built caps blocks d) (hdistinct : (caps.map Cap.capid).Nodup) : Mirrored d blocks d := by
  rw [← h.ids] at hdistinct
  refine ⟨⟨h.linked, h.room, fun b hb b' hb' => inj_on_of_nodup_map hdistinct hb hb', h.fits⟩,
    fun b hb hid => ?_, fun b hb hid => ?_⟩
  · have hidle := h.idle b hb
    rw [hid] at hidle
    have hen : d.msgctrl b.base &&& pcimMsictrlMsiEnable = 0 := and_eq_zero_of_mask hidle (by decide)
    have hoff : d.msi.enabled = false := by rw [h.msi]
    refine ⟨?_, ?_, fun hon => ?_, fun hon => ?_, rfl⟩
    · rw [hoff, hen]
      rfl
    · rw [h.msi]
      rfl
    all_goals exact absurd (hoff.symm.trans hon) Bool.false_ne_true
  · have hidle := h.idle b hb
    rw [hid] at hidle
    refine ⟨?_, ?_, rfl⟩
    all_goals rw [h.msix, and_eq_zero_of_mask hidle (by decide)]

theorem step_blank (h : step blank a = .ok d) : d = blank := by
  have hcap : emulIscap blank a.offset = false := by
    rw [emulIscap, decide_eq_false_iff_not]
    exact fun h => absurd h.1 (by decide)
  rw [step] at h
  split at h
  · cases h
    rfl
  · cases h

theorem step_disabled (h : step d a = .ok d') (hoff : d'.msi.enabled = false) :
    d'.msi.addr = d.msi.addr ∧ d'.msi.msgData = d.msi.msgData := by
  have hcap (c o n : ℕ) (v : BitVec 32) : (capDispatch d c o n v).msi.enabled = false →
      (capDispatch d c o n v).msi.addr = d.msi.addr ∧ (capDispatch d c o n v).msi.msgData = d.msi.msgData := by
    unfold capDispatch msicapCfgwrite msixcapCfgwrite pciecapCfgwrite
    dsimp only
    split_ifs <;> simp
  unfold step emulCapwrite at h
  repeat' split at h
  all_goals cases h
  all_goals first
    | exact ⟨rfl, rfl⟩
    | exact hcap _ _ _ _ hoff

/-- The state of MSI and MSI-X follows the bytes that the guest reads back, in every run in which the control words are
written as a whole and the address and the data of MSI only while it is disabled. While it is disabled, what is kept of
them stays. -/
theorem writes_mirrored {caps : List Cap} {d₀ d : Devinst} {as : List Write} (hbuild : build caps = some d₀)
    (hdistinct : (caps.map Cap.capid).Nodup) (hrun : Run step Orderly d₀ as d) :
    d.caps = d₀.caps ∧ (∀ c ∈ d.caps, (d.cfgdata c = pciyMsi → MsiMirrors d₀ d c) ∧
      (d.cfgdata c = pciyMsix → MsixMirrors d₀ d c)) ∧
      (∀ a, emulIscap d a.offset = true → ∃ d', step d a = .ok d') ∧
      ∀ a d', step d a = .ok d' → d'.msi.enabled = false →
        d'.msi.addr = d.msi.addr ∧ d'.msi.msgData = d.msi.msgData := by
  cases caps with
  | nil =>
    cases hbuild
    have heq : d = blank := hrun.invariant (I := fun d => d = blank) (fun s a t _ hs heq => step_blank (heq ▸ hs)) rfl
    subst heq
    have hcaps : blank.caps = [capStartOffset] := by decide
    refine ⟨rfl, ?_, fun a hcap => ?_, fun _ _ => step_disabled⟩
    · refine forall_mem_singleton.mpr ⟨fun h => absurd h (by decide), fun h => absurd h (by decide)⟩
    · rw [emulIscap, decide_eq_true_eq] at hcap
      exact absurd hcap.1 (by decide)
  | cons cap caps =>
    obtain ⟨blocks, hbuilt⟩ := built_of_build hbuild
    have hstart := hbuilt.mirrored hdistinct
    have hend : Mirrored d₀ blocks d := hrun.invariant (fun s a t horder hs h => h.step horder hs) hstart
    refine ⟨?_, fun c hc => ?_, fun a hcap => ?_, fun _ _ => step_disabled⟩
    · rw [hend.layout.caps_eq, hstart.layout.caps_eq]
    · rw [hend.layout.caps_eq] at hc
      obtain ⟨b, hb, rfl⟩ := mem_map.mp hc
      exact ⟨hend.msi b hb, hend.msix b hb⟩
    · obtain ⟨d', hok, -⟩ := hend.layout.step_effect hcap
      exact ⟨d', hok⟩

/-- A device with both, as `build` leaves it. -/
def both : Devinst := (build [.msi 4, .msix 3 1]).getD blank

/-- Address and data, a write of all ones from the header on, MSI with two messages, then MSI-X. -/
def setUp : List Write :=
  [⟨0x44, 4, 0xfee00000⟩, ⟨0x4c, 2, 0x4041⟩, ⟨0x40, 4, 0xffffffff⟩, ⟨0x42, 2, 0x11⟩, ⟨0x52, 2, 0xc7ff⟩]

theorem build_both : build [.msi 4, .msix 3 1] = some both := by
  have hsome : (build [.msi 4, .msix 3 1]).isSome = true := rfl
  rw [both]
  cases hbuild : build [.msi 4, .msix 3 1] with
  | none =>
    rw [hbuild] at hsome
    cases hsome
  | some d => rfl

theorem writes_mirrored_both : ∃ d, Run step Orderly both setUp d ∧ MsiMirrors both d 0x40 ∧
    MsixMirrors both d 0x50 ∧
    d.msi = ⟨true, 0xfee00000, 0x4041, 2⟩ ∧ d.msix = ⟨0x8000, 0x4000⟩ ∧ d.msgctrl 0x40 = 0x95 := by
  have hrun := run_of_checked (d := blank) (show checked step Orderly both setUp = true by decide +kernel)
  obtain ⟨-, hmirror, -⟩ := writes_mirrored build_both (by decide) hrun
  refine ⟨_, hrun, (hmirror 0x40 ?_).1 ?_, (hmirror 0x50 ?_).2 ?_, ?_, ?_, ?_⟩
  all_goals decide +kernel

/-- An address that is written while MSI is disabled is not taken over, one that is written while it is enabled neither,
and a write of one byte sets what is read-only. -/
theorem cache_differs : (∃ d, Run step Any both [⟨0x44, 4, 0xfee00000⟩] d ∧
      d.msi.enabled = false ∧ d.msi.addr ≠ (getCfgdata32 d.cfgdata 0x44).setWidth 64) ∧
    (∃ d, Run step Any both [⟨0x42, 2, 1⟩, ⟨0x44, 4, 0xfee00000⟩] d ∧
      d.msi.enabled = true ∧ d.msi.addr ≠ (getCfgdata32 d.cfgdata 0x44).setWidth 64) ∧
    ∃ d, Run step Any both [⟨0x42, 1, 0xff⟩] d ∧
      d.msgctrl 0x40 &&& ~~~msiRwmask ≠ both.msgctrl 0x40 &&& ~~~msiRwmask := by
  refine ⟨⟨_, run_of_isOk (d := blank) ?_, ?_, ?_⟩, ⟨_, run_of_isOk (d := blank) ?_, ?_, ?_⟩,
    ⟨_, run_of_isOk (d := blank) ?_, ?_⟩⟩
  all_goals decide +kernel

end HyperCog.Msi
