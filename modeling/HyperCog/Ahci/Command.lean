import HyperCog.Ahci.Basic

/-! What a command table asks for: immediate answers, transfers and trims. -/
namespace HyperCog.Ahci

open Virtio Blockif

section Opcodes

def ataNop : UInt8 := 0x00
def ataDataSetManagement : UInt8 := 0x06
def ataRead : UInt8 := 0x20
def ataRead48 : UInt8 := 0x24
def ataReadDma48 : UInt8 := 0x25
def ataReadMul48 : UInt8 := 0x29
def ataReadLogExt : UInt8 := 0x2f
def ataWrite : UInt8 := 0x30
def ataWrite48 : UInt8 := 0x34
def ataWriteDma48 : UInt8 := 0x35
def ataWriteMul48 : UInt8 := 0x39
def ataReadLogDmaExt : UInt8 := 0x47
def ataReadFpdmaQueued : UInt8 := 0x60
def ataWriteFpdmaQueued : UInt8 := 0x61
def ataSendFpdmaQueued : UInt8 := 0x64
def ataPacketCmd : UInt8 := 0xa0
def ataAtapiIdentify : UInt8 := 0xa1
def ataReadMul : UInt8 := 0xc4
def ataWriteMul : UInt8 := 0xc5
def ataSetMulti : UInt8 := 0xc6
def ataReadDma : UInt8 := 0xc8
def ataWriteDma : UInt8 := 0xca
def ataStandbyImmediate : UInt8 := 0xe0
def ataIdleImmediate : UInt8 := 0xe1
def ataStandbyCmd : UInt8 := 0xe2
def ataIdleCmd : UInt8 := 0xe3
def ataSleep : UInt8 := 0xe6
def ataFlushcache : UInt8 := 0xe7
def ataFlushcache48 : UInt8 := 0xea
def ataAtaIdentify : UInt8 := 0xec
def ataSetfeatures : UInt8 := 0xef

def ataDsmTrim : UInt8 := 0x01
def ataSfpdmaDsm : UInt8 := 0x00

def testUnitReady : UInt8 := 0x00
def requestSense : UInt8 := 0x03
def inquiry : UInt8 := 0x12
def startStopUnit : UInt8 := 0x1b
def preventAllow : UInt8 := 0x1e
def readCapacity : UInt8 := 0x25
def read10 : UInt8 := 0x28
def readToc : UInt8 := 0x43
def getEventStatusNotification : UInt8 := 0x4a
def modeSense10 : UInt8 := 0x5a
def reportLuns : UInt8 := 0xa0
def read12 : UInt8 := 0xa8

end Opcodes

/-- The three values of `tfd` that a command can be answered with. -/
inductive Answer
  | good
  | abort
  | illegalRequest
  deriving DecidableEq, Repr

def Answer.tfd : Answer → BitVec 32
  | .good => ataSReady ||| ataSDsc
  | .abort => (ataEAbort <<< 8) ||| ataSReady ||| ataSError
  | .illegalRequest => (ataSenseIllegalRequest <<< 12) ||| ataSReady ||| ataSError

/-- An answer given at once: a PIO setup FIS before the data, the bytes of data, whether the
interrupt reason in `cfis[4]` is set, whether the block context is asked, and the status. -/
structure Reply where
  pio : Bool
  payload : Option ℕ
  reason : Bool
  usesDisk : Bool
  answer : Answer
  deriving DecidableEq, Repr

def Reply.aborted : Reply := ⟨false, none, false, false, .abort⟩
def Reply.plain : Reply := ⟨false, none, false, false, .good⟩

/-- Answers to packets set the interrupt reason. -/
def Reply.packet (payload : Option ℕ) (usesDisk : Bool) (a : Answer) : Reply :=
  ⟨false, payload, true, usesDisk, a⟩

/-- `be16dec` -/
def be16dec (b : ℕ → UInt8) (k : ℕ) : ℕ := (b k).toNat * 256 + (b (k + 1)).toNat

/-- `be32dec` -/
def be32dec (b : ℕ → UInt8) (k : ℕ) : ℕ := be16dec b k * 65536 + be16dec b (k + 2)

section Replies

variable (atapi : Bool) (c : Command)

def handleIdentify : Reply :=
  if atapi ∨ c.prdt.length = 0 then .aborted
  else ⟨true, some 512, false, true, .good⟩

def handleAtapiIdentify : Reply :=
  if !atapi then .aborted else ⟨true, some 512, false, false, .good⟩

def ahciHandleReadLog : Reply :=
  if atapi ∨ c.prdt.length = 0 ∨ c.cfis 5 ≠ 0 ∨ c.cfis 9 ≠ 0 ∨ c.cfis 12 ≠ 1 ∨ c.cfis 13 ≠ 0 then
    .aborted
  else
    let pio := decide (c.cfis 2 = ataReadLogExt)
    if c.cfis 4 = 0x00 ∨ c.cfis 4 = 0x10 then ⟨pio, some 512, false, false, .good⟩
    else if c.cfis 4 = 0x13 then ⟨pio, some 512, false, true, .good⟩
    else .aborted

/-- The inner switch on `ATA_SETFEATURES`. The transfer mode plays no part. -/
def setfeatures : Reply :=
  if c.cfis 3 = 0x10 then
    if c.cfis 12 = 0x05 then .plain else .aborted
  else if c.cfis 3 = 0x02 ∨ c.cfis 3 = 0x82 ∨ c.cfis 3 = 0xaa ∨ c.cfis 3 = 0x55 ∨ c.cfis 3 = 0x03 then
    .plain
  else .aborted

def setMulti : Reply :=
  if c.cfis 12 ≠ 0 ∧ (c.cfis 12 > 128 ∨ c.cfis 12 &&& (c.cfis 12 - 1) ≠ 0) then .aborted
  else .plain

def atapiInquiry : Reply :=
  if c.acmd 1 &&& 1 ≠ 0 then
    if c.acmd 2 = 0 then .packet (some (min 5 (c.acmd 4).toNat)) false .good
    else .packet none false .illegalRequest
  else .packet (some (min 36 (c.acmd 4).toNat)) false .good

def atapiReadCapacity : Reply := .packet (some 8) true .good

def atapiReadToc : Reply :=
  let len := be16dec c.acmd 7
  let format := c.acmd 9 >>> 6
  if format = 0 then
    if c.acmd 6 > 1 ∧ c.acmd 6 ≠ 0xaa then .packet none false .illegalRequest
    else .packet (some (min len (if c.acmd 6 ≤ 1 then 20 else 12))) true .good
  else if format = 1 then .packet (some (min len 12)) false .good
  else if format = 2 then .packet (some (min len 48)) true .good
  else .packet none false .illegalRequest

def atapiReportLuns : Reply := .packet (some 16) false .good

def atapiRequestSense : Reply := .packet (some (min (c.acmd 4).toNat 64)) false .good

def atapiStartStopUnit : Reply :=
  if c.acmd 4 &&& 3 = 2 then .packet none false .illegalRequest else .packet none false .good

def atapiModeSense : Reply :=
  let len := be16dec c.acmd 7
  if c.acmd 2 >>> 6 = 0 then
    if c.acmd 2 &&& 0x3f = 0x01 then .packet (some (min len 16)) false .good
    else if c.acmd 2 &&& 0x3f = 0x2a then .packet (some (min len 30)) false .good
    else .packet none false .illegalRequest
  else .packet none false .illegalRequest

def atapiGetEventStatusNotification : Reply :=
  if c.acmd 1 &&& 1 = 0 then .packet none false .illegalRequest
  else .packet (some (min (be16dec c.acmd 7) 8)) false .good

end Replies

/-- Which handler a command goes to; an answer given at once is computed here. -/
inductive Handler
  | reply (r : Reply)
  | rw
  | flush
  | trim
  | read
  deriving DecidableEq, Repr

def handlePacketCmd (c : Command) : Handler :=
  let op := c.acmd 0
  if op = testUnitReady then .reply (.packet none false .good)
  else if op = inquiry then .reply (atapiInquiry c)
  else if op = readCapacity then .reply atapiReadCapacity
  else if op = preventAllow then .reply (.packet none false .good)
  else if op = readToc then .reply (atapiReadToc c)
  else if op = reportLuns then .reply atapiReportLuns
  else if op = read10 ∨ op = read12 then .read
  else if op = requestSense then .reply (atapiRequestSense c)
  else if op = startStopUnit then .reply (atapiStartStopUnit c)
  else if op = modeSense10 then .reply (atapiModeSense c)
  else if op = getEventStatusNotification then .reply (atapiGetEventStatusNotification c)
  else .reply (.packet none false .illegalRequest)

def Command.isWrite (c : Command) : Bool :=
  c.cfis 2 ∈ [ataWrite, ataWrite48, ataWriteMul, ataWriteMul48, ataWriteDma, ataWriteDma48,
    ataWriteFpdmaQueued]

/-- The queued reads and writes. -/
def Command.isFpdma (c : Command) : Bool :=
  c.cfis 2 ∈ [ataReadFpdmaQueued, ataWriteFpdmaQueued]

def Command.is48 (c : Command) : Bool :=
  c.cfis 2 ∈ [ataRead48, ataWrite48, ataReadMul48, ataWriteMul48, ataReadDma48, ataWriteDma48]

def Command.is28 (c : Command) : Bool :=
  c.cfis 2 ∈ [ataRead, ataWrite, ataReadMul, ataWriteMul, ataReadDma, ataWriteDma]

/-- The test for queued commands in the callback and in `ahci_port_stop`. -/
def Command.isNcq (c : Command) : Bool :=
  c.cfis 2 ∈ [ataWriteFpdmaQueued, ataReadFpdmaQueued, ataSendFpdmaQueued]

def Command.isDsm (c : Command) : Bool :=
  c.cfis 2 = ataDataSetManagement ∨ (c.cfis 2 = ataSendFpdmaQueued ∧ c.cfis 13 &&& 0x1f = ataSfpdmaDsm)

/-- The switch of `ahci_handle_cmd`. -/
def commandHandler (atapi : Bool) (c : Command) : Handler :=
  let op := c.cfis 2
  if op = ataAtaIdentify then .reply (handleIdentify atapi c)
  else if op = ataSetfeatures then .reply (setfeatures c)
  else if op = ataSetMulti then .reply (setMulti c)
  else if c.is28 ∨ c.is48 ∨ c.isFpdma then .rw
  else if op = ataFlushcache ∨ op = ataFlushcache48 then .flush
  else if op = ataDataSetManagement then
    if c.cfis 11 = 0 ∧ c.cfis 3 = ataDsmTrim ∧ c.cfis 13 = 0 ∧ c.cfis 12 = 1 then .trim
    else .reply .aborted
  else if op = ataSendFpdmaQueued then
    if c.cfis 13 &&& 0x1f = ataSfpdmaDsm ∧ c.cfis 17 = 0 ∧ c.cfis 16 = ataDsmTrim ∧
        c.cfis 11 = 0 ∧ c.cfis 3 = 1 then .trim
    else .reply .aborted
  else if op = ataReadLogExt ∨ op = ataReadLogDmaExt then .reply (ahciHandleReadLog atapi c)
  else if op = ataNop then .reply .aborted
  else if op = ataStandbyCmd ∨ op = ataStandbyImmediate ∨ op = ataIdleCmd ∨
      op = ataIdleImmediate ∨ op = ataSleep then .reply .plain
  else if op = ataAtapiIdentify then .reply (handleAtapiIdentify atapi)
  else if op = ataPacketCmd then if !atapi then .reply .aborted else handlePacketCmd c
  else .reply .aborted

section Transfers

variable (ram : GuestRam)

/-- The loop of `ahci_build_iov`: the segments it fills, and the entries it leaves. -/
def walkPrdt : List PrdtEntry → ℕ → ℕ → ℕ → List Iovec × List PrdtEntry
  | [], _, _, _ => ([], [])
  | e :: es, skip, left, room =>
    if room = 0 ∨ left = 0 then ([], e :: es)
    else if e.size ≤ skip then walkPrdt es (skip - e.size) left room
    else
      let n := min (e.size - skip) left
      let r := walkPrdt es 0 (left - n) (room - 1)
      (⟨paddrGuest2host ram (e.dba + .ofNat skip) n, n⟩ :: r.1, r.2)

/-- Takes `extra` bytes off the end, given the segments from the last. -/
def chopBack : List Iovec → ℕ → List Iovec
  | [], _ => []
  | v :: vs, extra =>
    if extra = 0 then v :: vs
    else if v.iovLen > extra then { v with iovLen := v.iovLen - extra } :: vs
    else chopBack vs (extra - v.iovLen)

/-- What `ahci_build_iov` leaves in the request and its element. -/
structure Part where
  iov : List Iovec
  todo : ℕ
  done : UInt32
  more : Bool
  deriving DecidableEq, Repr

/-- `left` is an `int`: nothing is done of a length from 2^31 on. -/
def leftOf (len done : UInt32) : ℕ :=
  if (len - done).toNat < 2 ^ 31 then (len - done).toNat else 0

/-- The end of `ahci_build_iov`; `es` are the entries not yet looked at. -/
def Part.of (len done : UInt32) (es : List PrdtEntry) (iov : List Iovec) (todo : ℕ) : Part :=
  ⟨iov, todo, done + .ofNat todo, done + .ofNat todo < len && !es.isEmpty⟩

/-- Only when the segments run out is the part rounded down to whole sectors. -/
def ahciBuildIov (sectsz : ℕ) (prdt : List PrdtEntry) (len done : UInt32) : Except Fault Part :=
  let r := walkPrdt ram prdt done.toNat (leftOf len done) blockifIovMax
  let todo := iovecLen r.1
  if r.1.length = blockifIovMax then
    let extra := todo % sectsz
    if 0 < todo - extra then
      .ok (.of len done r.2 (chopBack r.1.reverse extra).reverse (todo - extra))
    else .error .partialSector
  else .ok (.of len done r.2 r.1 todo)

/-- `read_prdt` into a buffer, from `off` on. -/
def readPrdt (m : HostMem) : List PrdtEntry → ℕ → ℕ → (ℕ → UInt8) → Except Fault (ℕ → UInt8)
  | [], _, _, buf => .ok buf
  | e :: es, off, len, buf =>
    if len = 0 then .ok buf
    else
      match paddrGuest2host ram e.dba e.size with
      | none => .error .segfault
      | some ptr =>
        let sublen := min len e.size
        readPrdt m es (off + sublen) (len - sublen) fun k =>
          if off ≤ k ∧ k < off + sublen then m (ptr + (k - off)) else buf k

/-- The pointers that `write_prdt` copies to. -/
def writePrdt : List PrdtEntry → ℕ → Except Fault Unit
  | [], _ => .ok ()
  | e :: es, len =>
    if len = 0 then .ok ()
    else
      match paddrGuest2host ram e.dba e.size with
      | none => .error .segfault
      | some _ => writePrdt es (len - min len e.size)

end Transfers

/-- Sectors and bytes of `ahci_handle_rw`, before the byte scaling. -/
def Command.lba (c : Command) : UInt64 :=
  if c.isFpdma ∨ c.is48 then
    .ofNat ((c.cfis 10).toNat * 2 ^ 40 + (c.cfis 9).toNat * 2 ^ 32 + (c.cfis 8).toNat * 2 ^ 24 +
      (c.cfis 6).toNat * 2 ^ 16 + (c.cfis 5).toNat * 2 ^ 8 + (c.cfis 4).toNat)
  else
    .ofNat ((c.cfis 7 &&& 0xf).toNat * 2 ^ 24 + (c.cfis 6).toNat * 2 ^ 16 +
      (c.cfis 5).toNat * 2 ^ 8 + (c.cfis 4).toNat)

/-- A count of zero stands for the largest. -/
def Command.sectors (c : Command) : UInt32 :=
  if c.isFpdma then
    let n := (c.cfis 11).toNat * 2 ^ 8 + (c.cfis 3).toNat
    if n = 0 then 65536 else .ofNat n
  else if c.is48 then
    let n := (c.cfis 13).toNat * 2 ^ 8 + (c.cfis 12).toNat
    if n = 0 then 65536 else .ofNat n
  else
    let n := (c.cfis 12).toNat
    if n = 0 then 256 else .ofNat n

def Command.rwOffset (c : Command) (sectsz : ℕ) : UInt64 := c.lba * .ofNat sectsz
def Command.rwLen (c : Command) (sectsz : ℕ) : UInt32 := c.sectors * .ofNat sectsz

/-- The count of a packet read, in sectors of 2048 bytes. -/
def Command.readSectors (c : Command) : UInt32 :=
  if c.acmd 0 = read10 then .ofNat (be16dec c.acmd 7) else .ofNat (be32dec c.acmd 6)

def Command.readOffset (c : Command) : UInt64 := .ofNat (be32dec c.acmd 2) * 2048
def Command.readLen (c : Command) : UInt32 := c.readSectors * 2048

/-- The length of a trim list. -/
def Command.trimLen (c : Command) : UInt32 :=
  if c.cfis 2 = ataDataSetManagement then
    .ofNat ((c.cfis 13).toNat * 2 ^ 8 + (c.cfis 12).toNat) * 512
  else .ofNat ((c.cfis 11).toNat * 2 ^ 8 + (c.cfis 3).toNat) * 512

/-- An entry of a trim list, and where the scan goes on behind it. -/
structure TrimEntry where
  elba : UInt64
  elen : UInt32
  done : UInt32
  deriving DecidableEq, Repr

/-- The `next:` loop of `ahci_handle_dsm_trim`: the next entry that is not empty. Every turn
reads eight bytes of a buffer of 512, so 65 turns are enough. -/
def trimScan (buf : ℕ → UInt8) (len : UInt32) : ℕ → UInt32 → Except Fault (Option TrimEntry)
  | 0, _ => .error .overread
  | fuel + 1, done =>
    if done.toNat + 8 ≤ 512 then
      let entry (k : ℕ) := (buf (done.toNat + k)).toNat
      let elba : UInt64 := .ofNat (entry 5 * 2 ^ 40 + entry 4 * 2 ^ 32 + entry 3 * 2 ^ 24 +
        entry 2 * 2 ^ 16 + entry 1 * 2 ^ 8 + entry 0)
      let elen : UInt32 := .ofNat (entry 7 * 2 ^ 8 + entry 6)
      let done := done + 8
      if elen = 0 then if len ≤ done then .ok none else trimScan buf len fuel done
      else .ok (some ⟨elba, elen, done⟩)
    else .error .overread

end HyperCog.Ahci
