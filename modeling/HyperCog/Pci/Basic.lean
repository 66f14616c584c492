import HyperCog.Lib.Extent
import HyperCog.Lib.Run
import Mathlib.Algebra.Group.Nat.Defs

/-! The BARs of the emulated PCI devices, and the tables of I/O ports and memory ranges that they are
registered in. -/
namespace HyperCog.Pci

def pciBarmax : ℕ := 5
def pciRegmax : ℕ := 255
def pcirCommand : ℕ := 0x04
def pcirRevid : ℕ := 0x08
def pcirBars : ℕ := 0x10
def pcirBar (x : ℕ) : ℕ := pcirBars + x * 4
def pcimCmdPorten : BitVec 16 := 0x0001
def pcimCmdMemen : BitVec 16 := 0x0002
def pcimBarIoSpace : BitVec 64 := 0x1
def pcimBarMemSpace : BitVec 64 := 0x0
def pcimBarMem32 : BitVec 64 := 0x0
def pcimBarMem64 : BitVec 64 := 0x4
def pcimBarMemPrefetch : BitVec 64 := 0x8
def maxIoports : ℕ := 65536

inductive BarType
  | none
  | io
  | mem32
  | mem64
  | memhi64
  deriving DecidableEq, Repr

/-- The address spaces that a BAR may decode. -/
inductive Space
  | io
  | mem
  deriving DecidableEq, Repr

def BarType.space : BarType → Option Space
  | .io => some .io
  | .mem32 | .mem64 => some .mem
  | .none | .memhi64 => .none

structure Pcibar where
  type : BarType
  size : BitVec 64
  addr : BitVec 64
  deriving DecidableEq, Repr

def Pcibar.extent (b : Pcibar) : Extent := ⟨b.addr.toNat, b.size.toNat⟩

/-- The BARs of a device and the registers of its config space that they depend on. -/
structure Devinst where
  bar : ℕ → Pcibar
  barReg : ℕ → BitVec 32
  /-- `PCIR_COMMAND` and `PCIR_STATUS` -/
  cmdsts : BitVec 32

def Devinst.command (d : Devinst) : BitVec 16 := d.cmdsts.setWidth 16

def porten (d : Devinst) : Bool := d.command &&& pcimCmdPorten ≠ 0

def memen (d : Devinst) : Bool := d.command &&& pcimCmdMemen ≠ 0

def Devinst.enabled (d : Devinst) : Space → Bool
  | .io => porten d
  | .mem => memen d

/-- The extent that a BAR describes. -/
def barExtent {ι : Type} (devs : ι → Devinst) (i : ι) (j : ℕ) : Extent :=
  ((devs i).bar j).extent

/-- An entry of the tree of memory ranges. Those that are not a device's have no name here. -/
structure MemRange (ι : Type) where
  name : Option ι
  /-- the BAR -/
  arg2 : ℕ
  extent : Extent
  immutable : Bool
  deriving DecidableEq

/-- An entry of `inout_handlers`. -/
inductive Port (ι : Type)
  | default
  /-- registered by something else than a BAR -/
  | fixed
  | device (i : ι)
  deriving DecidableEq

structure World (ι : Type) where
  devs : ι → Devinst
  mem : List (MemRange ι)
  io : ℕ → Port ι

inductive Errno
  | ENOMEM
  | ENOENT
  | EEXIST
  | EINVAL
  /-- -1 -/
  | failed
  deriving DecidableEq, Repr

/-- The assertions. -/
inductive Abort
  /-- of `modify_bar_registration` -/
  | registration
  /-- `VERIFY_IOPORT` -/
  | verifyIoport
  /-- the names in `unregister_inout` and `unregister_mem` -/
  | name
  /-- the range in `unregister_mem` -/
  | range
  | immutable
  /-- `assert(0)` in `update_bar_address` -/
  | barType
  deriving DecidableEq, Repr

section Tables

variable {ι : Type} [DecidableEq ι]

/-- `register_mem_int`, with the outcome of `malloc`. A range whose base is taken is left out without an
error. -/
def registerMem (malloc : Bool) (t : List (MemRange ι)) (r : MemRange ι) :
    Option Errno × List (MemRange ι) :=
  if malloc = false then (some .ENOMEM, t)
  else if (Extent.lookup MemRange.extent t r.extent.base).isSome then (none, t)
  else if Extent.clashes MemRange.extent t r.extent then (some .EEXIST, t)
  else (none, r :: t)

def unregisterMem (t : List (MemRange ι)) (r : MemRange ι) :
    Except Abort (Option Errno × List (MemRange ι)) :=
  match Extent.lookup MemRange.extent t r.extent.base with
  | none => .ok (some .ENOENT, t)
  | some e =>
    if e.name ≠ r.name then .error .name
    else if e.extent ≠ r.extent then .error .range
    else if e.immutable then .error .immutable
    else .ok (none, t.filter fun e' => e' ≠ e)

def verifyIoport (r : Extent) : Bool := 0 < r.len ∧ r.base + r.len ≤ maxIoports

def registerInout (g : ℕ → Port ι) (i : ι) (r : Extent) : Except Abort (Option Errno × (ℕ → Port ι)) :=
  if !verifyIoport r then .error .verifyIoport
  else if (List.range r.len).any fun k => g (r.base + k) ≠ .default then .ok (some .failed, g)
  else .ok (none, Extent.paint g r (.device i))

def unregisterInout (g : ℕ → Port ι) (i : ι) (r : Extent) :
    Except Abort (Option Errno × (ℕ → Port ι)) :=
  if !verifyIoport r then .error .verifyIoport
  else if g r.base ≠ .device i then .error .name
  else .ok (none, Extent.paint g r .default)

end Tables

section Writes

-- `malloc` tells for each BAR whether its range can be allocated
variable {ι : Type} [DecidableEq ι] (s : World ι) (i : ι) (malloc : ℕ → Bool)

def World.setDev (d : Devinst) : World ι := { s with devs := Function.update s.devs i d }

def Devinst.setAddr (d : Devinst) (idx : ℕ) (addr : BitVec 64) : Devinst :=
  { d with bar := Function.update d.bar idx { d.bar idx with addr := addr } }

def Devinst.setBarReg (d : Devinst) (idx : ℕ) (val : BitVec 32) : Devinst :=
  { d with barReg := Function.update d.barReg idx val }

/-- The range that a BAR describes, as `modify_bar_registration` fills it in. -/
def memRange (devs : ι → Devinst) (i : ι) (idx : ℕ) : MemRange ι :=
  ⟨some i, idx, barExtent devs i idx, false⟩

def assertIo : Option Errno × (ℕ → Port ι) → Except Abort (World ι)
  | (none, g) => .ok { s with io := g }
  | (some _, _) => .error .registration

def assertMem : Option Errno × List (MemRange ι) → Except Abort (World ι)
  | (none, t) => .ok { s with mem := t }
  | (some _, _) => .error .registration

def modifyBarRegistration (idx : ℕ) (registration : Bool) : Except Abort (World ι) :=
  match ((s.devs i).bar idx).type with
  | .io =>
    let iop := barExtent s.devs i idx
    if registration then registerInout s.io i iop >>= assertIo s
    else unregisterInout s.io i iop >>= assertIo s
  | .mem32 | .mem64 =>
    let mr := memRange s.devs i idx
    if registration then assertMem s (registerMem (malloc idx) s.mem mr)
    else unregisterMem s.mem mr >>= assertMem s
  | .none | .memhi64 => .error .registration

def unregisterBar (idx : ℕ) : Except Abort (World ι) := modifyBarRegistration s i malloc idx false

def registerBar (idx : ℕ) : Except Abort (World ι) := modifyBarRegistration s i malloc idx true

/-- The address of a BAR after the part of it that the type names is written. -/
def partAddr (old addr : BitVec 64) : BarType → Option (BitVec 64)
  | .io | .mem32 => some addr
  | .mem64 => some (old &&& ~~~0xffffffff ||| addr)
  | .memhi64 => some (old &&& 0xffffffff ||| addr)
  | .none => none

/-- Runs `f` if the condition holds. -/
def onlyIf (b : Bool) (f : World ι → Except Abort (World ι)) (s : World ι) : Except Abort (World ι) :=
  if b then f s else .ok s

def updateBarAddress (addr : BitVec 64) (idx : ℕ) (type : BarType) : Except Abort (World ι) :=
  let decode := if ((s.devs i).bar idx).type = .io then porten (s.devs i) else memen (s.devs i)
  match partAddr ((s.devs i).bar idx).addr addr type with
  | none => .error .barType
  | some addr' => do
    let s ← onlyIf decode (unregisterBar · i malloc idx) s
    let s := s.setDev i ((s.devs i).setAddr idx addr')
    onlyIf decode (registerBar · i malloc idx) s

/-- What a write to a BAR register asks for: the BAR that moves, the part of its address written, whether
that differs from the present one, and the new contents of the register. -/
structure BarWrite where
  target : ℕ
  part : BarType
  addr : BitVec 64
  moves : Bool
  reg : BitVec 32

def barRequest (d : Devinst) (idx : ℕ) (eax : BitVec 32) : Option BarWrite :=
  let b := d.bar idx
  let mask := ~~~(b.size - 1)
  let val : BitVec 64 := eax.setWidth 64
  match b.type with
  | .none => none
  | .io =>
    let addr := val &&& mask &&& 0xffff
    some ⟨idx, .io, addr, addr ≠ b.addr, (addr ||| pcimBarIoSpace).setWidth 32⟩
  | .mem32 =>
    let addr := val &&& mask
    some ⟨idx, .mem32, addr, addr ≠ b.addr, (addr ||| (pcimBarMemSpace ||| pcimBarMem32)).setWidth 32⟩
  | .mem64 =>
    let addr := val &&& mask
    some ⟨idx, .mem64, addr, addr ≠ b.addr &&& 0xffffffff,
      (addr ||| (pcimBarMemSpace ||| pcimBarMem64 ||| pcimBarMemPrefetch)).setWidth 32⟩
  | .memhi64 =>
    let b := d.bar (idx - 1)
    let addr := val <<< 32 &&& ~~~(b.size - 1)
    some ⟨idx - 1, .memhi64, addr, addr >>> 32 ≠ b.addr >>> 32, (addr >>> 32).setWidth 32⟩

def barWrite (idx : ℕ) (eax : BitVec 32) : Except Abort (World ι) :=
  match barRequest (s.devs i) idx eax with
  | none => .ok (s.setDev i (((s.devs i).setAddr idx 0).setBarReg idx 0))
  | some q => do
    let s ← onlyIf q.moves (updateBarAddress · i malloc q.addr q.target q.part) s
    .ok (s.setDev i ((s.devs i).setBarReg idx q.reg))

def byteMask : ℕ → BitVec 32
  | 1 => 0xff
  | 2 => 0xffff
  | _ => 0xffffffff

/-- `CFGREAD` and `CFGWRITE` within one doubleword, at a byte offset. -/
def cfgRead (w : BitVec 32) (off bytes : ℕ) : BitVec 32 := w >>> (8 * off) &&& byteMask bytes

@[inherit_doc cfgRead]
def cfgWrite (w : BitVec 32) (off bytes : ℕ) (val : BitVec 32) : BitVec 32 :=
  w &&& ~~~(byteMask bytes <<< (8 * off)) ||| (val &&& byteMask bytes) <<< (8 * off)

/-- The command and status registers after a write to them. -/
def cmdstsValue (w : BitVec 32) (coff bytes : ℕ) (new : BitVec 32) : BitVec 32 :=
  let off := coff % 4
  let readonly : BitVec 32 := 0xFFFFF880 >>> (8 * off)
  let old := cfgRead w off bytes
  cfgWrite w off bytes (new &&& ~~~readonly ||| old &&& readonly)

/-- One turn of the loop over the BARs in `pci_emul_cmdsts_write`. -/
def settleBar (changed : BitVec 16) (idx : ℕ) (s : World ι) : Except Abort (World ι) :=
  match ((s.devs i).bar idx).type with
  | .none | .memhi64 => .ok s
  | .io =>
    if changed &&& pcimCmdPorten ≠ 0 then
      if porten (s.devs i) then registerBar s i malloc idx else unregisterBar s i malloc idx
    else .ok s
  | .mem32 | .mem64 =>
    if changed &&& pcimCmdMemen ≠ 0 then
      if memen (s.devs i) then registerBar s i malloc idx else unregisterBar s i malloc idx
    else .ok s

def settleBars (changed : BitVec 16) : List ℕ → World ι → Except Abort (World ι)
  | [], s => .ok s
  | idx :: idxs, s => settleBar i malloc changed idx s >>= settleBars changed idxs

def cmdstsWrite (coff bytes : ℕ) (new : BitVec 32) : Except Abort (World ι) :=
  let d := s.devs i
  let d' := { d with cmdsts := cmdstsValue d.cmdsts coff bytes new }
  settleBars i malloc (d.command ^^^ d'.command) (List.range (pciBarmax + 1)) (s.setDev i d')

/-- `pci_cfgrw` for a write to a device whose emulation leaves it to the default. A write to any other
register than these changes neither the BARs nor the tables. -/
def cfgrw (coff bytes : ℕ) (eax : BitVec 32) : Except Abort (World ι) :=
  if bytes ≠ 1 ∧ bytes ≠ 2 ∧ bytes ≠ 4 ∨ coff % bytes ≠ 0 then .ok s
  else if coff ≥ pciRegmax + 1 then .ok s
  else if pcirBar 0 ≤ coff ∧ coff < pcirBar (pciBarmax + 1) then
    if bytes ≠ 4 ∨ coff % 4 ≠ 0 then .ok s else barWrite s i malloc ((coff - pcirBar 0) / 4) eax
  else if pcirCommand ≤ coff ∧ coff < pcirRevid then cmdstsWrite s i malloc coff bytes eax
  else .ok s

end Writes

/-- A write of the guest to the config space of a device. -/
structure Action (ι : Type) where
  dev : ι
  coff : ℕ
  bytes : ℕ
  eax : BitVec 32
  malloc : ℕ → Bool

def step {ι : Type} [DecidableEq ι] (s : World ι) (a : Action ι) : Except Abort (World ι) :=
  cfgrw s a.dev a.malloc a.coff a.bytes a.eax

end HyperCog.Pci
