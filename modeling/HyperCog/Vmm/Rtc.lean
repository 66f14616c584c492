import HyperCog.Lib.Calendar
import HyperCog.Lib.Run
import Mathlib.Tactic.IntervalCases

/-! The real-time clock of the guest: its registers, the time it keeps, its alarm and its interrupt flags. -/
namespace HyperCog.Rtc

open Machine Calendar Function

def sbt1s : ℕ := 2 ^ 32
def vrtcBrokenTime : ℤ := -1
def posixBaseYear : ℕ := 1970
def february : ℕ := 2
def secday : ℕ := 24 * 60 * 60

/-! The offsets in `struct rtcdev`. -/
def secOff : ℕ := 0
def alarmSecOff : ℕ := 1
def minOff : ℕ := 2
def alarmMinOff : ℕ := 3
def hourOff : ℕ := 4
def alarmHourOff : ℕ := 5
def dayOfWeekOff : ℕ := 6
def dayOfMonthOff : ℕ := 7
def monthOff : ℕ := 8
def yearOff : ℕ := 9
def regAOff : ℕ := 10
def regBOff : ℕ := 11
def regCOff : ℕ := 12
def regDOff : ℕ := 13
def rtcCentury : ℕ := 0x32
def rtcdevSize : ℕ := 128

def rtcsaTup : BitVec 8 := 0x80
def rtcsb24hr : BitVec 8 := 0x02
def rtcsbBin : BitVec 8 := 0x04
def rtcsbUintr : BitVec 8 := 0x10
def rtcsbAintr : BitVec 8 := 0x20
def rtcsbPintr : BitVec 8 := 0x40
def rtcsbHalt : BitVec 8 := 0x80
def rtcsbAllIntrs : BitVec 8 := rtcsbUintr ||| rtcsbAintr ||| rtcsbPintr
def rtcirUpdate : BitVec 8 := 0x10
def rtcirAlarm : BitVec 8 := 0x20
def rtcirPeriod : BitVec 8 := 0x40
def rtcirInt : BitVec 8 := 0x80
def rtcsdPwr : BitVec 8 := 0x80

structure Vrtc where
  addr : ℕ
  baseUptime : ℕ
  baseRtctime : ℤ
  rtcdev : ℕ → BitVec 8
  /-- `callout_active` -/
  active : Bool

inductive Stop
  /-- a failed `KASSERT` -/
  | kassert
  /-- the handler returns -1 -/
  | refused
  /-- the seconds up to a time that is past are visited -/
  | endless
  deriving DecidableEq, Repr

namespace Vrtc

variable (v : Vrtc)

def regA : BitVec 8 := v.rtcdev regAOff
def regB : BitVec 8 := v.rtcdev regBOff
def regC : BitVec 8 := v.rtcdev regCOff

def set (offset : ℕ) (val : BitVec 8) : Vrtc := { v with rtcdev := Function.update v.rtcdev offset val }

def rtcHalted : Bool := v.regB &&& rtcsbHalt ≠ 0
def aintrEnabled : Bool := v.regB &&& rtcsbAintr ≠ 0
def pintrEnabled : Bool := v.regB &&& rtcsbPintr ≠ 0
def uintrEnabled : Bool := v.regB &&& rtcsbUintr ≠ 0

end Vrtc

section Clock

/-- `struct clocktime` -/
structure Clocktime where
  year : ℕ
  mon : ℕ
  day : ℕ
  hour : ℕ
  min : ℕ
  sec : ℕ
  dow : ℕ
  deriving DecidableEq, Repr

def monthDaysTable : List ℕ := [31, 28, 31, 30, 31, 30, 31, 31, 30, 31, 30, 31]

def leapyear (year : ℕ) : ℕ :=
  if year &&& 3 = 0 then
    if year % 100 = 0 then
      if year % 400 = 0 then 1 else 0
    else 1
  else 0

def daysInYear (y : ℕ) : ℕ := if leapyear y ≠ 0 then 366 else 365

def daysInMonth (y m : ℕ) : ℕ := monthDaysTable.getD (m - 1) 0 + if m = february then leapyear y else 0

def dayOfWeek (days : ℕ) : ℕ := (days + 4) % 7

/-- `none` for `EINVAL`. -/
def clockCtToTs (ct : Clocktime) : Option ℕ :=
  if ct.mon < 1 ∨ 12 < ct.mon ∨ ct.day < 1 ∨ daysInMonth ct.year ct.mon < ct.day ∨ 23 < ct.hour ∨
    59 < ct.min ∨ 59 < ct.sec then none
  else
    let days := (List.range' posixBaseYear (ct.year - posixBaseYear)).foldl (fun days i => days + daysInYear i) 0
    let days := (List.range' 1 (ct.mon - 1)).foldl (fun days i => days + daysInMonth ct.year i) days
    let days := days + (ct.day - 1)
    some (((days * 24 + ct.hour) * 60 + ct.min) * 60 + ct.sec)

/-- Subtract out whole years. -/
def subYears : ℕ → ℕ → ℕ → ℕ × ℕ
  | 0, year, days => (year, days)
  | fuel + 1, year, days =>
    if daysInYear year ≤ days then subYears fuel (year + 1) (days - daysInYear year) else (year, days)

/-- Subtract out whole months. -/
def subMonths (year : ℕ) : ℕ → ℕ → ℕ → ℕ × ℕ
  | 0, mon, days => (mon, days)
  | fuel + 1, mon, days =>
    if daysInMonth year mon ≤ days then subMonths year fuel (mon + 1) (days - daysInMonth year mon) else (mon, days)

def clockTsToCt (secs : ℕ) : Clocktime :=
  let days := secs / secday
  let rsec := secs % secday
  let (year, rest) := subYears (days + 1) posixBaseYear days
  let (mon, rest) := subMonths year 12 1 rest
  ⟨year, mon, rest + 1, rsec / 3600, rsec % 3600 / 60, rsec % 3600 % 60, dayOfWeek days⟩

end Clock

def dividerEnabled (regA : BitVec 8) : Bool := regA &&& 0x70 = 0x20

section Time

variable (v : Vrtc)

def updateEnabled : Bool := dividerEnabled v.regA ∧ ¬v.rtcHalted ∧ v.baseRtctime ≠ vrtcBrokenTime

/-- The time, and the uptime at which its second began. -/
def vrtcCurtime (now : ℕ) : Except Stop (ℤ × ℕ) :=
  if updateEnabled v then
    if now < v.baseUptime then .error .kassert
    else
      let secs := (now - v.baseUptime) / sbt1s
      .ok (v.baseRtctime + secs, v.baseUptime + secs * sbt1s)
  else .ok (v.baseRtctime, v.baseUptime)

def bin2bcdData : List (BitVec 8) :=
  [0x00, 0x01, 0x02, 0x03, 0x04, 0x05, 0x06, 0x07, 0x08, 0x09,
    0x10, 0x11, 0x12, 0x13, 0x14, 0x15, 0x16, 0x17, 0x18, 0x19,
    0x20, 0x21, 0x22, 0x23, 0x24, 0x25, 0x26, 0x27, 0x28, 0x29,
    0x30, 0x31, 0x32, 0x33, 0x34, 0x35, 0x36, 0x37, 0x38, 0x39,
    0x40, 0x41, 0x42, 0x43, 0x44, 0x45, 0x46, 0x47, 0x48, 0x49,
    0x50, 0x51, 0x52, 0x53, 0x54, 0x55, 0x56, 0x57, 0x58, 0x59,
    0x60, 0x61, 0x62, 0x63, 0x64, 0x65, 0x66, 0x67, 0x68, 0x69,
    0x70, 0x71, 0x72, 0x73, 0x74, 0x75, 0x76, 0x77, 0x78, 0x79,
    0x80, 0x81, 0x82, 0x83, 0x84, 0x85, 0x86, 0x87, 0x88, 0x89,
    0x90, 0x91, 0x92, 0x93, 0x94, 0x95, 0x96, 0x97, 0x98, 0x99]

/-- A number in the format that register B selects. -/
def rtcVal (regB : BitVec 8) (val : ℕ) : BitVec 8 :=
  if regB &&& rtcsbBin ≠ 0 then BitVec.ofNat 8 val else bin2bcdData.getD val 0

def rtcset (regB : BitVec 8) (val : ℕ) : Except Stop (BitVec 8) :=
  if val < 100 then .ok (rtcVal regB val) else .error .kassert

/-- The date and time registers. -/
structure DateRegs where
  sec : BitVec 8
  min : BitVec 8
  hour : BitVec 8
  dayOfWeek : BitVec 8
  dayOfMonth : BitVec 8
  month : BitVec 8
  year : BitVec 8
  century : BitVec 8
  deriving DecidableEq, Repr

def dateOffsets : List ℕ := [secOff, minOff, hourOff, dayOfWeekOff, dayOfMonthOff, monthOff, yearOff, rtcCentury]

def DateRegs.store (r : DateRegs) (dev : ℕ → BitVec 8) (offset : ℕ) : BitVec 8 :=
  if offset = secOff then r.sec
  else if offset = minOff then r.min
  else if offset = hourOff then r.hour
  else if offset = dayOfWeekOff then r.dayOfWeek
  else if offset = dayOfMonthOff then r.dayOfMonth
  else if offset = monthOff then r.month
  else if offset = yearOff then r.year
  else if offset = rtcCentury then r.century
  else dev offset

/-- The hour in the 12-hour or the 24-hour format. -/
def hourFormat (regB : BitVec 8) (hour : ℕ) : ℕ :=
  if regB &&& rtcsb24hr ≠ 0 then hour else if hour = 0 ∨ hour = 12 then 12 else hour % 12

def inRange (ct : Clocktime) : Prop :=
  ct.sec ≤ 59 ∧ ct.min ≤ 59 ∧ ct.hour ≤ 23 ∧ ct.dow ≤ 6 ∧ 1 ≤ ct.day ∧ ct.day ≤ 31 ∧
    1 ≤ ct.mon ∧ ct.mon ≤ 12 ∧ 1900 ≤ ct.year

instance (ct : Clocktime) : Decidable (inRange ct) := inferInstanceAs (Decidable (_ ∧ _))

def encodeDate (regB : BitVec 8) (ct : Clocktime) : Except Stop DateRegs := do
  let sec ← rtcset regB ct.sec
  let min ← rtcset regB ct.min
  let hour ← rtcset regB (hourFormat regB ct.hour)
  let dayOfWeek ← rtcset regB (ct.dow + 1)
  let dayOfMonth ← rtcset regB ct.day
  let month ← rtcset regB ct.mon
  let year ← rtcset regB (ct.year % 100)
  let century ← rtcset regB (ct.year / 100)
  .ok ⟨sec, min, if regB &&& rtcsb24hr = 0 ∧ 12 ≤ ct.hour then hour ||| 0x80 else hour, dayOfWeek,
    dayOfMonth, month, year,
    century⟩

/-- The date and time registers are set from the calendar clock of the host, `cal`. -/
def secsToRtc (rtctime : ℤ) (forceUpdate : Bool) (cal : BitVec 32) : Except Stop Vrtc :=
  if rtctime < 0 then
    if rtctime = vrtcBrokenTime then .ok v else .error .kassert
  else if v.rtcHalted && !forceUpdate then .ok v
  else
    let ct := clockTsToCt cal.toNat
    if inRange ct then do
      let regs ← encodeDate v.regB ct
      .ok { v with rtcdev := regs.store v.rtcdev }
    else .error .kassert

def rtcget (regB : BitVec 8) (val : BitVec 8) : Option ℕ :=
  if regB &&& rtcsbBin ≠ 0 then some val.toNat
  else
    let lower := (val &&& 0xf).toNat
    let upper := ((val >>> 4) &&& 0xf).toNat
    if 9 < lower ∨ 9 < upper then none else some (upper * 10 + lower)

/-- The hour from the 12-hour or the 24-hour format. -/
def hourOf (regB : BitVec 8) (hour : BitVec 8) : Option ℕ :=
  if regB &&& rtcsb24hr = 0 then
    let pm := hour &&& 0x80 ≠ 0
    let hour := if pm then hour &&& ~~~0x80 else hour
    match rtcget regB hour with
    | none => none
    | some hour =>
      if 1 ≤ hour ∧ hour ≤ 12 then
        let hour := if hour = 12 then 0 else hour
        some (if pm then hour + 12 else hour)
      else none
  else rtcget regB hour

/-- The value of a register that must be in a range. -/
def rtcgetIn (regB : BitVec 8) (val : BitVec 8) (low high : ℕ) : Option ℕ :=
  (rtcget regB val).filter fun n => low ≤ n ∧ n ≤ high

def rtcClocktime : Option Clocktime := do
  let sec ← rtcgetIn v.regB (v.rtcdev secOff) 0 59
  let min ← rtcgetIn v.regB (v.rtcdev minOff) 0 59
  let hour ← (hourOf v.regB (v.rtcdev hourOff)).filter fun hour => hour ≤ 23
  let day ← rtcgetIn v.regB (v.rtcdev dayOfMonthOff) 1 31
  let mon ← rtcgetIn v.regB (v.rtcdev monthOff) 1 12
  let year ← rtcgetIn v.regB (v.rtcdev yearOff) 0 99
  let century ← rtcget v.regB (v.rtcdev rtcCentury)
  let year := century * 100 + year
  -- the day of the week is ignored
  if year < 1900 then none else some ⟨year, mon, day, hour, min, sec, 0⟩

def rtcToSecs : ℤ :=
  match rtcClocktime v with
  | none => vrtcBrokenTime
  | some ct =>
    match clockCtToTs ct with
    | none => vrtcBrokenTime
    | some secs => secs

end Time

section Update

variable (v : Vrtc)

def vrtcSetRegC (newval : BitVec 8) : Vrtc :=
  let newval := newval &&& (rtcirAlarm ||| rtcirPeriod ||| rtcirUpdate)
  let irqf := v.aintrEnabled ∧ newval &&& rtcirAlarm ≠ 0 ∨ v.pintrEnabled ∧ newval &&& rtcirPeriod ≠ 0 ∨
    v.uintrEnabled ∧ newval &&& rtcirUpdate ≠ 0
  v.set regCOff (if irqf then rtcirInt ||| newval else newval)

def alarmMatches (alarm reg : BitVec 8) : Bool := 0xC0 ≤ alarm.toNat ∨ alarm = reg

/-- The date and time registers are brought up to date, and the alarm is checked. -/
def alarmCheck (cal : BitVec 32) : Except Stop Vrtc := do
  let v ← secsToRtc v v.baseRtctime false cal
  .ok (if alarmMatches (v.rtcdev alarmSecOff) (v.rtcdev secOff) ∧
    alarmMatches (v.rtcdev alarmMinOff) (v.rtcdev minOff) ∧
      alarmMatches (v.rtcdev alarmHourOff) (v.rtcdev hourOff) then vrtcSetRegC v (v.regC ||| rtcirAlarm) else v)

/-- The alarm is checked in each of the next seconds. -/
def visitSeconds (cal : BitVec 32) : ℕ → Vrtc → Except Stop Vrtc
  | 0, v => .ok v
  | n + 1, v => do
    let v ← alarmCheck { v with baseRtctime := v.baseRtctime + 1 } cal
    visitSeconds cal n v

def moveTo (newtime : ℤ) (cal : BitVec 32) : Except Stop Vrtc :=
  if v.aintrEnabled then
    if v.baseRtctime ≠ vrtcBrokenTime then
      if newtime < v.baseRtctime then .error .endless
      else visitSeconds cal (newtime - v.baseRtctime).toNat v
    else alarmCheck { v with baseRtctime := newtime } cal
  else .ok { v with baseRtctime := newtime }

/-- The flag is for `EBUSY`. -/
def vrtcTimeUpdate (newtime : ℤ) (newbase : ℕ) (cal : BitVec 32) : Except Stop (Vrtc × Bool) :=
  let v' := { v with baseUptime := newbase }
  if newtime = v.baseRtctime then .ok (v', false)
  else if newtime = vrtcBrokenTime then .ok ({ v' with baseRtctime := vrtcBrokenTime }, false)
  else if v.rtcHalted then .ok (v', true)
  else do
    let v ← moveTo v' newtime cal
    .ok (if v.uintrEnabled then vrtcSetRegC v (v.regC ||| rtcirUpdate) else v, false)

def notBusy : Vrtc × Bool → Except Stop Vrtc
  | (v, false) => .ok v
  | (_, true) => .error .kassert

/-- The periods of the rates of register A. -/
def pf : List ℕ :=
  [0, sbt1s / 256, sbt1s / 128, sbt1s / 8192, sbt1s / 4096, sbt1s / 2048, sbt1s / 1024, sbt1s / 512, sbt1s / 256,
    sbt1s / 128, sbt1s / 64, sbt1s / 32, sbt1s / 16, sbt1s / 8, sbt1s / 4, sbt1s / 2]

def vrtcFreq : ℕ :=
  if v.pintrEnabled ∧ dividerEnabled v.regA then pf.getD (v.regA &&& 0xf).toNat 0
  else if v.aintrEnabled ∧ updateEnabled v then sbt1s
  else if v.uintrEnabled ∧ updateEnabled v then sbt1s
  else 0

def vrtcCalloutReset (freqsbt : ℕ) : Vrtc := { v with active := freqsbt ≠ 0 }

def vrtcCalloutCheck (freq : ℕ) : Except Stop Vrtc :=
  if freq = 0 ∧ v.active = false ∨ freq ≠ 0 ∧ v.active = true then .ok v else .error .kassert

/-- The callout follows its frequency. -/
def retime (oldfreq : ℕ) : Except Stop Vrtc :=
  if vrtcFreq v ≠ oldfreq then .ok (vrtcCalloutReset v (vrtcFreq v)) else vrtcCalloutCheck v (vrtcFreq v)

/-- `HALT` is cleared: the guest hands over the date and time. -/
def clearHalt (now : ℕ) (cal : BitVec 32) : Except Stop Vrtc :=
  if rtcToSecs v = vrtcBrokenTime then .error .refused
  else do
    let r ← vrtcTimeUpdate v (rtcToSecs v) now cal
    notBusy r

/-- `HALT` is set: the registers stay at the time before. -/
def setHalt (now : ℕ) (cal : BitVec 32) : Except Stop Vrtc := do
  let (curtime, basetime) ← vrtcCurtime v now
  if curtime ≠ v.baseRtctime then .error .kassert
  else do
    let v ← secsToRtc v curtime true cal
    let r ← vrtcTimeUpdate (v.set regBOff (v.regB &&& ~~~rtcsbUintr)) vrtcBrokenTime basetime cal
    notBusy r

def haltChange (changed newval : BitVec 8) (now : ℕ) (cal : BitVec 32) : Except Stop Vrtc :=
  if changed &&& rtcsbHalt ≠ 0 then
    if newval &&& rtcsbHalt = 0 then clearHalt v now cal else setHalt v now cal
  else .ok v

def vrtcSetRegB (newval : BitVec 8) (now : ℕ) (cal : BitVec 32) : Except Stop Vrtc := do
  let changed := v.regB ^^^ newval
  let w ← haltChange (v.set regBOff newval) changed newval now cal
  retime (if changed &&& rtcsbAllIntrs ≠ 0 then vrtcSetRegC w w.regC else w) (vrtcFreq v)

def vrtcSetRegA (newval : BitVec 8) (now : ℕ) : Except Stop Vrtc :=
  let newval := newval &&& ~~~rtcsaTup
  let w := if !dividerEnabled v.regA && dividerEnabled newval then { v with baseUptime := now } else v
  retime (w.set regAOff newval) (vrtcFreq v)

end Update

section Handlers

variable (v : Vrtc)

/-- What every access to the data register begins with. -/
def refresh (now : ℕ) (cal : BitVec 32) : Except Stop Vrtc :=
  if rtcdevSize ≤ v.addr then .error .refused
  else do
    let (curtime, basetime) ← vrtcCurtime v now
    let (v, _) ← vrtcTimeUpdate v curtime basetime cal
    if v.addr < 10 ∨ v.addr = rtcCentury then secsToRtc v curtime false cal else .ok v

def vrtcDataIn (now : ℕ) (cal : BitVec 32) : Except Stop (BitVec 8 × Vrtc) := do
  let v ← refresh v now cal
  .ok (v.rtcdev v.addr, if v.addr = regCOff then vrtcSetRegC v 0 else v)

/-- A write of the century outside `HALT` sets the time again. -/
def centuryWritten (now : ℕ) (cal : BitVec 32) : Except Stop Vrtc := do
  let r ← vrtcTimeUpdate v (rtcToSecs v) now cal
  let w ← notBusy r
  if rtcToSecs v = vrtcBrokenTime then .error .refused else .ok w

def vrtcDataOut (val : BitVec 8) (now : ℕ) (cal : BitVec 32) : Except Stop Vrtc := do
  let v ← refresh v now cal
  if v.addr = regAOff then vrtcSetRegA v val now
  else if v.addr = regBOff then vrtcSetRegB v val now cal
  else if v.addr = regCOff ∨ v.addr = regDOff then .ok v
  -- the highest bit of the seconds is read-only
  else if v.addr = secOff then .ok (v.set secOff (val &&& 0x7f))
  else if v.addr = rtcCentury ∧ v.rtcHalted = false then centuryWritten (v.set rtcCentury val) now cal
  else .ok (v.set v.addr val)

def vrtcAddrOut (val : BitVec 8) : Vrtc := { v with addr := (val &&& 0x7f).toNat }

/-- The alarm and the update interrupt need the time. -/
def calloutUpdate (now : ℕ) (cal : BitVec 32) : Except Stop Vrtc :=
  if v.aintrEnabled ∨ v.uintrEnabled then do
    let (rtctime, basetime) ← vrtcCurtime v now
    let r ← vrtcTimeUpdate v rtctime basetime cal
    notBusy r
  else .ok v

/-- The callout, once it is deactivated. -/
def calloutFired (now : ℕ) (cal : BitVec 32) : Except Stop Vrtc :=
  if v.regB &&& rtcsbAllIntrs = 0 then .error .kassert
  else do
    let v ← calloutUpdate (if v.pintrEnabled then vrtcSetRegC v (v.regC ||| rtcirPeriod) else v) now cal
    if vrtcFreq v = 0 then .error .kassert else .ok (vrtcCalloutReset v (vrtcFreq v))

def vrtcCalloutHandler (now : ℕ) (cal : BitVec 32) : Except Stop Vrtc :=
  if v.active then calloutFired { v with active := false } now cal else .ok v

def vrtcGetTime (now : ℕ) : Except Stop ℤ := do
  let (t, _) ← vrtcCurtime v now
  .ok t

end Handlers

/-- The clock of the guest, and the uptime of the host in units of 2⁻³² seconds. -/
structure Sys where
  vrtc : Vrtc
  uptime : ℕ

/-- What can happen, with the seconds of the host's calendar clock at the time. -/
inductive Act
  | pass (dt : ℕ)
  | addrOut (val : BitVec 8)
  | dataIn (cal : BitVec 32)
  | dataOut (val : BitVec 8) (cal : BitVec 32)
  | callout (cal : BitVec 32)
  deriving DecidableEq, Repr

def step (s : Sys) : Act → Except Stop Sys
  | .pass dt => .ok { s with uptime := s.uptime + dt }
  | .addrOut val => .ok { s with vrtc := vrtcAddrOut s.vrtc val }
  | .dataIn cal => do
    let (_, v) ← vrtcDataIn s.vrtc s.uptime cal
    .ok { s with vrtc := v }
  | .dataOut val cal => do
    let v ← vrtcDataOut s.vrtc val s.uptime cal
    .ok { s with vrtc := v }
  | .callout cal => do
    let v ← vrtcCalloutHandler s.vrtc s.uptime cal
    .ok { s with vrtc := v }

/-- The registers as `vrtc_init` sets them. -/
def rtcdevInit (offset : ℕ) : BitVec 8 :=
  if offset = regAOff then 0x20 else if offset = regBOff then rtcsb24hr else if offset = regDOff then rtcsdPwr else 0

/-- `vrtc_init`, and `vrtc_set_time` as `rtc_init` calls it. -/
def init (now secs : ℕ) (cal : BitVec 32) : Except Stop Sys := do
  let (v, _) ← vrtcTimeUpdate ⟨regDOff, 0, vrtcBrokenTime, rtcdevInit, false⟩ 0 now cal
  let v ← secsToRtc v 0 false cal
  let (v, _) ← vrtcTimeUpdate v secs now cal
  .ok ⟨v, now⟩

variable {secs offset newbase year mon days fuel now dt oldfreq : ℕ} {v v' w u : Vrtc} {cal : BitVec 32}
  {newtime : ℤ}
  {val newval : BitVec 8} {s : Sys}

theorem leapyear_eq (year : ℕ) : leapyear year = if leap year then 1 else 0 := by
  have hand : year &&& 3 = year % 4 := Nat.and_two_pow_sub_one_eq_mod year 2
  simp only [leapyear, leap, hand, decide_eq_true_eq]
  split_ifs <;> first | rfl | omega

theorem daysInYear_eq (year : ℕ) : daysInYear year = yearDays year := by
  rw [daysInYear, yearDays, leapyear_eq]
  cases leap year <;> rfl

theorem daysInMonth_eq (hlow : 1 ≤ mon) (hhigh : mon ≤ 12) : daysInMonth year mon = monthDays year mon := by
  rw [daysInMonth, leapyear_eq]
  interval_cases mon <;> first | rfl | (cases hleap : leap year <;> simp [monthDaysTable, february, monthDays, hleap])

/-- The years that are taken off and the days that are left make up the days. -/
theorem subYears_spec (year : ℕ) (hfuel : days < fuel) :
    daysBeforeYear (subYears fuel year days).1 + (subYears fuel year days).2 = daysBeforeYear year + days ∧
      (subYears fuel year days).2 < yearDays (subYears fuel year days).1 ∧ year ≤ (subYears fuel year days).1 := by
  induction fuel generalizing year days with
  | zero => exact absurd hfuel (Nat.not_lt_zero _)
  | succ fuel ih =>
    rw [subYears, daysInYear_eq]
    by_cases hle : yearDays year ≤ days
    · have hge := yearDays_ge year
      rw [if_pos hle]
      have hrest : days - yearDays year < fuel := by omega
      obtain ⟨hsum, hlt, hyear⟩ := ih (year + 1) hrest
      rw [daysBeforeYear] at hsum
      exact ⟨by omega, hlt, by omega⟩
    · rw [if_neg hle]
      exact ⟨rfl, Nat.lt_of_not_le hle, Nat.le_refl _⟩

theorem subMonths_spec (hmon : 1 ≤ mon) (hfuel : mon + fuel = 13)
    (hdays : daysBeforeMonth year mon + days < yearDays year) :
    daysBeforeMonth year (subMonths year fuel mon days).1 + (subMonths year fuel mon days).2 =
        daysBeforeMonth year mon + days ∧
      (subMonths year fuel mon days).2 < monthDays year (subMonths year fuel mon days).1 ∧
      1 ≤ (subMonths year fuel mon days).1 ∧ (subMonths year fuel mon days).1 ≤ 12 := by
  induction fuel generalizing mon days with
  | zero =>
    have hlast : mon = 13 := by omega
    rw [hlast, daysBeforeMonth_thirteen] at hdays
    omega
  | succ fuel ih =>
    rw [subMonths, daysInMonth_eq hmon (by omega)]
    split_ifs with hle
    · have hsucc : daysBeforeMonth year (mon + 1) = daysBeforeMonth year mon + monthDays year mon :=
        daysBeforeMonth_succ hmon
      have hrest : daysBeforeMonth year (mon + 1) + (days - monthDays year mon) < yearDays year := by omega
      obtain ⟨hsum, hbounds⟩ := ih (by omega) (by omega) hrest
      exact ⟨by omega, hbounds⟩
    · exact ⟨rfl, Nat.lt_of_not_le hle, hmon, by omega⟩

def Clocktime.civil (ct : Clocktime) : Civil := ⟨ct.year, ct.mon, ct.day, ct.hour, ct.min, ct.sec⟩

/-- 00:00:00 Jan 1, 1970 -/
def epoch : ℕ := (⟨posixBaseYear, 1, 1, 0, 0, 0⟩ : Civil).seconds

theorem daysBeforeYear_posix : daysBeforeYear posixBaseYear = 719528 := by decide +kernel

theorem epoch_eq : epoch = 719528 * 86400 := by
  rw [epoch, Civil.seconds, Civil.dayNumber, daysBeforeYear_posix]
  rfl

/-- The fields are those of the date and time that many seconds after the epoch. -/
theorem clockTsToCt_spec (secs : ℕ) :
    (clockTsToCt secs).civil.Valid ∧ (clockTsToCt secs).civil.seconds = secs + epoch ∧
      (clockTsToCt secs).dow = (clockTsToCt secs).civil.weekday ∧ posixBaseYear ≤ (clockTsToCt secs).year := by
  obtain ⟨hyears, hrest, hyear⟩ := subYears_spec posixBaseYear (Nat.lt_add_one (secs / secday))
  rw [daysBeforeYear_posix] at hyears
  obtain ⟨hmonths, hday, hmon, hmon'⟩ :=
    subMonths_spec (Nat.le_refl 1) (rfl : 1 + 12 = 13) ((Nat.zero_add _).trans_lt hrest)
  rw [daysBeforeMonth] at hmonths
  have hnumber : (clockTsToCt secs).civil.dayNumber = secs / secday + 719528 := by
    simp only [clockTsToCt, Clocktime.civil, Civil.dayNumber]
    omega
  have hmod : secs % secday < 86400 := Nat.mod_lt _ (by decide)
  have hsplit : secs / secday * 86400 + secs % secday = secs := Nat.div_add_mod' secs secday
  refine ⟨⟨hmon, hmon', Nat.le_add_left 1 _, hday, ?_, ?_, ?_⟩, ?_, ?_, hyear⟩
  any_goals
    simp only [clockTsToCt, Clocktime.civil]
    omega
  · rw [Civil.seconds, hnumber, epoch_eq]
    simp only [clockTsToCt, Clocktime.civil]
    omega
  · rw [Civil.weekday, hnumber]
    simp only [clockTsToCt, dayOfWeek]
    omega

/-- The calendar clock of the host ends in 2106. -/
theorem clockTsToCt_bounds (cal : BitVec 32) :
    inRange (clockTsToCt cal.toNat) ∧ (clockTsToCt cal.toNat).year < 10000 := by
  obtain ⟨⟨hmon, hmon', hday, hday', hhour, hmin, hsec⟩, hseconds, hdow, hyear⟩ := clockTsToCt_spec cal.toNat
  have hlow : daysBeforeYear (clockTsToCt cal.toNat).year ≤ (clockTsToCt cal.toNat).civil.dayNumber :=
    (clockTsToCt cal.toNat).civil.dayNumber_ge
  have hdays := le_daysBeforeYear (clockTsToCt cal.toNat).year
  have hlong := monthDays_le (clockTsToCt cal.toNat).civil.year (clockTsToCt cal.toNat).civil.month
  have hposix : posixBaseYear = 1970 := rfl
  rw [Civil.seconds, epoch_eq] at hseconds
  rw [Civil.weekday] at hdow
  simp only [Clocktime.civil] at *
  exact ⟨⟨by omega, by omega, by omega, by omega, hday, by omega, hmon, hmon', by omega⟩, by omega⟩

variable {b : BitVec 8} {ct : Clocktime} {t : ℤ} {force : Bool} {n : ℕ}

/-- The registers that a date and time is written to. -/
def dateRegs (regB : BitVec 8) (ct : Clocktime) : DateRegs where
  sec := rtcVal regB ct.sec
  min := rtcVal regB ct.min
  hour :=
    if regB &&& rtcsb24hr = 0 ∧ 12 ≤ ct.hour then rtcVal regB (hourFormat regB ct.hour) ||| 0x80
    else rtcVal regB (hourFormat regB ct.hour)
  dayOfWeek := rtcVal regB (ct.dow + 1)
  dayOfMonth := rtcVal regB ct.day
  month := rtcVal regB ct.mon
  year := rtcVal regB (ct.year % 100)
  century := rtcVal regB (ct.year / 100)

theorem rtcset_ok (h : n < 100) : rtcset b n = .ok (rtcVal b n) := if_pos h

theorem hourFormat_le (h : n ≤ 23) : hourFormat b n ≤ 23 := by
  rw [hourFormat]
  split_ifs <;> omega

theorem encodeDate_ok (hct : inRange ct) (hyear : ct.year < 10000) : encodeDate b ct = .ok (dateRegs b ct) := by
  obtain ⟨hsec, hmin, hhour, hdow, -, hday, -, hmon, -⟩ := hct
  have hformat : hourFormat b ct.hour ≤ 23 := hourFormat_le hhour
  rw [encodeDate, rtcset_ok (by omega), rtcset_ok (by omega), rtcset_ok (by omega), rtcset_ok (by omega),
    rtcset_ok (by omega), rtcset_ok (by omega), rtcset_ok (by omega), rtcset_ok (by omega)]
  rfl

/-- The clock's own time says whether the registers are written, never what. -/
theorem secsToRtc_of_running (cal : BitVec 32) (ht : 0 ≤ t) (hrun : v.rtcHalted = false ∨ force = true) :
    secsToRtc v t force cal = .ok { v with rtcdev := (dateRegs v.regB (clockTsToCt cal.toNat)).store v.rtcdev } := by
  obtain ⟨hct, hyear⟩ := clockTsToCt_bounds cal
  have hwrite : (v.rtcHalted && !force) = false := by
    rcases hrun with h | h <;> rw [h]
    · rfl
    · exact Bool.and_false _
  rw [secsToRtc, if_neg (Int.not_lt.mpr ht), if_neg (Bool.not_eq_true _ ▸ hwrite)]
  rw [if_pos hct, encodeDate_ok hct hyear]
  rfl

/-- Everything but the date and time registers and register C stays. -/
structure Frame (v v' : Vrtc) : Prop where
  addr : v'.addr = v.addr
  active : v'.active = v.active
  regs : ∀ offset, offset ∉ dateOffsets → offset ≠ regCOff → v'.rtcdev offset = v.rtcdev offset

/-- So does the time that is kept. -/
structure Refreshed (v v' : Vrtc) : Prop extends Frame v v' where
  baseUptime : v'.baseUptime = v.baseUptime
  baseRtctime : v'.baseRtctime = v.baseRtctime

theorem Frame.refl (v : Vrtc) : Frame v v := ⟨rfl, rfl, fun _ _ _ => rfl⟩

theorem Refreshed.refl (v : Vrtc) : Refreshed v v := ⟨Frame.refl v, rfl, rfl⟩

theorem Frame.trans (h : Frame v w) (h' : Frame w v') : Frame v v' :=
  ⟨h'.addr.trans h.addr, h'.active.trans h.active,
    fun offset hdate hc => (h'.regs offset hdate hc).trans (h.regs offset hdate hc)⟩

theorem Refreshed.trans (h : Refreshed v w) (h' : Refreshed w v') : Refreshed v v' :=
  ⟨h.toFrame.trans h'.toFrame, h'.baseUptime.trans h.baseUptime, h'.baseRtctime.trans h.baseRtctime⟩

theorem Frame.regA (h : Frame v v') : v'.regA = v.regA := h.regs regAOff (by decide) (by decide)

theorem Frame.regB (h : Frame v v') : v'.regB = v.regB := h.regs regBOff (by decide) (by decide)

theorem Frame.rtcHalted (h : Frame v v') : v'.rtcHalted = v.rtcHalted := by rw [Vrtc.rtcHalted, Vrtc.rtcHalted, h.regB]

theorem store_of_not_mem {r : DateRegs} {dev : ℕ → BitVec 8} (h : offset ∉ dateOffsets) :
    r.store dev offset = dev offset := by
  simp only [dateOffsets, List.mem_cons, List.not_mem_nil, or_false, not_or] at h
  obtain ⟨h₁, h₂, h₃, h₄, h₅, h₆, h₇, h₈⟩ := h
  rw [DateRegs.store, if_neg h₁, if_neg h₂, if_neg h₃, if_neg h₄, if_neg h₅, if_neg h₆, if_neg h₇,
    if_neg h₈]

/-- The registers are written or nothing happens. -/
theorem secsToRtc_ok (v : Vrtc) (force : Bool) (cal : BitVec 32) (ht : -1 ≤ t) :
    ∃ v', secsToRtc v t force cal = .ok v' ∧ Refreshed v v' := by
  by_cases hneg : t < 0
  · have hbroken : t = vrtcBrokenTime := Int.le_antisymm (Int.le_of_lt_add_one hneg) ht
    exact ⟨v, by rw [secsToRtc, if_pos hneg, if_pos hbroken], Refreshed.refl v⟩
  · by_cases hrun : v.rtcHalted = false ∨ force = true
    · exact ⟨_, secsToRtc_of_running cal (Int.not_lt.mp hneg) hrun,
        ⟨rfl, rfl, fun offset hdate _ => store_of_not_mem hdate⟩, rfl, rfl⟩
    · have hskip : (v.rtcHalted && !force) = true := by
        cases hh : v.rtcHalted <;> simp_all
      exact ⟨v, by rw [secsToRtc, if_neg hneg, if_pos hskip], Refreshed.refl v⟩

theorem vrtcSetRegC_refreshed (v : Vrtc) (val : BitVec 8) : Refreshed v (vrtcSetRegC v val) :=
  ⟨⟨rfl, rfl, fun _ _ hc => update_of_ne hc _ _⟩, rfl, rfl⟩

theorem flagged_refreshed (v : Vrtc) (val : BitVec 8) (c : Prop) [Decidable c] :
    Refreshed v (if c then vrtcSetRegC v val else v) := by
  split
  · exact vrtcSetRegC_refreshed v val
  · exact Refreshed.refl v

theorem alarmCheck_ok (cal : BitVec 32) (ht : -1 ≤ v.baseRtctime) :
    ∃ v', alarmCheck v cal = .ok v' ∧ Refreshed v v' := by
  obtain ⟨w, hw, hframe⟩ := secsToRtc_ok v false cal ht
  rw [alarmCheck, hw]
  exact ⟨_, rfl, hframe.trans (flagged_refreshed _ _ _)⟩

theorem visitSeconds_ok (cal : BitVec 32) (n : ℕ) (ht : -1 ≤ v.baseRtctime) :
    ∃ v', visitSeconds cal n v = .ok v' ∧ Frame v v' ∧
    v'.baseUptime = v.baseUptime ∧ v'.baseRtctime = v.baseRtctime + n := by
  induction n generalizing v with
  | zero => exact ⟨v, rfl, Frame.refl v, rfl, (Int.add_zero _).symm⟩
  | succ n ih =>
    have hnext : -1 ≤ { v with baseRtctime := v.baseRtctime + 1 }.baseRtctime := by
      dsimp only
      omega
    obtain ⟨w, hw, hframe⟩ := alarmCheck_ok cal hnext
    have hbase : w.baseRtctime = v.baseRtctime + 1 := hframe.baseRtctime
    have hw' : -1 ≤ w.baseRtctime := by omega
    obtain ⟨v', hv', hframe', huptime, htime⟩ := ih hw'
    refine ⟨v', ?_, ?_, huptime.trans hframe.baseUptime, by omega⟩
    · rw [visitSeconds, hw]
      exact hv'
    · exact Frame.trans { hframe with } hframe'

/-- The time is set, or the guest holds the registers. -/
structure Updated (v : Vrtc) (newtime : ℤ) (newbase : ℕ) (v' : Vrtc) (busy : Bool) : Prop extends Frame v v' where
  baseUptime : v'.baseUptime = newbase
  done : busy = false → v'.baseRtctime = newtime
  held : busy = true → v.rtcHalted = true ∧ newtime ≠ v.baseRtctime ∧ newtime ≠ -1 ∧
    v'.baseRtctime = v.baseRtctime

/-- No second is visited on the way back. -/
def Forward (v : Vrtc) (newtime : ℤ) : Prop :=
  v.aintrEnabled = true → v.baseRtctime = -1 ∨ v.baseRtctime ≤ newtime ∨ newtime = -1

theorem moveTo_ok (cal : BitVec 32) (ht : -1 ≤ v.baseRtctime) (hnew : -1 ≤ newtime)
    (hforward : v.aintrEnabled = true → v.baseRtctime = -1 ∨ v.baseRtctime ≤ newtime) :
    ∃ v', moveTo v newtime cal = .ok v' ∧ Frame v v' ∧ v'.baseUptime = v.baseUptime ∧
      v'.baseRtctime = newtime := by
  rw [moveTo]
  split_ifs with haintr hbroken
  · have hle : v.baseRtctime ≤ newtime := (hforward haintr).resolve_left hbroken
    omega
  · obtain ⟨v', hv', hframe, huptime, htime⟩ := visitSeconds_ok cal (newtime - v.baseRtctime).toNat ht
    exact ⟨v', hv', hframe, huptime, by omega⟩
  · have hnext : -1 ≤ { v with baseRtctime := newtime }.baseRtctime := hnew
    obtain ⟨v', hv', hframe⟩ := alarmCheck_ok cal hnext
    exact ⟨v', hv', { hframe with }, hframe.baseUptime, hframe.baseRtctime⟩
  · exact ⟨_, rfl, ⟨rfl, rfl, fun _ _ _ => rfl⟩, rfl, rfl⟩

theorem vrtcTimeUpdate_ok (newbase : ℕ) (cal : BitVec 32) (ht : -1 ≤ v.baseRtctime)
    (hnew : -1 ≤ newtime) (hforward : Forward v newtime) :
    ∃ v' busy, vrtcTimeUpdate v newtime newbase cal = .ok (v', busy) ∧ Updated v newtime newbase v' busy := by
  rw [vrtcTimeUpdate]
  split_ifs with hsame hbroken hhalted
  · exact ⟨_, false, rfl, ⟨rfl, rfl, fun _ _ _ => rfl⟩, rfl, fun _ => hsame.symm, nofun⟩
  · exact ⟨_, false, rfl, ⟨rfl, rfl, fun _ _ _ => rfl⟩, rfl, fun _ => hbroken.symm, nofun⟩
  · exact ⟨_, true, rfl, ⟨rfl, rfl, fun _ _ _ => rfl⟩, rfl, nofun, fun _ => ⟨hhalted, hsame, hbroken, rfl⟩⟩
  · have hon : v.aintrEnabled = true → v.baseRtctime = -1 ∨ v.baseRtctime ≤ newtime := by
      intro haintr
      rcases hforward haintr with h | h | h
      · exact .inl h
      · exact .inr h
      · exact absurd h hbroken
    have hmoved : ∃ w, moveTo { v with baseUptime := newbase } newtime cal = .ok w ∧ Frame v w ∧
        w.baseUptime = newbase ∧ w.baseRtctime = newtime := by
      obtain ⟨w, hw, hframe, hrest⟩ := moveTo_ok (v := { v with baseUptime := newbase }) cal ht hnew hon
      exact ⟨w, hw, { hframe with }, hrest⟩
    obtain ⟨w, hw, hframe, huptime, htime⟩ := hmoved
    rw [hw]
    have hafter := flagged_refreshed w (w.regC ||| rtcirUpdate) (w.uintrEnabled = true)
    exact ⟨_, false, rfl, hframe.trans hafter.toFrame, hafter.baseUptime.trans huptime,
      fun _ => hafter.baseRtctime.trans htime, nofun⟩

/-- With the alarm on, the way back to an earlier time does not end. -/
theorem forward_of_ok {r : Vrtc × Bool} (hrun : v.rtcHalted = false)
    (h : vrtcTimeUpdate v newtime newbase cal = .ok r) : Forward v newtime := by
  intro haintr
  by_contra hback
  simp only [not_or, Int.not_le] at hback
  obtain ⟨hvalid, hlt, hnew⟩ := hback
  have hbroken : newtime ≠ vrtcBrokenTime := hnew
  have hmove : moveTo { v with baseUptime := newbase } newtime cal = .error .endless := by
    have haintr' : { v with baseUptime := newbase }.aintrEnabled = true := haintr
    have hvalid' : { v with baseUptime := newbase }.baseRtctime ≠ vrtcBrokenTime := hvalid
    rw [moveTo, if_pos haintr', if_pos hvalid', if_pos hlt]
  rw [vrtcTimeUpdate, if_neg (by omega), if_neg hbroken, hrun, hmove] at h
  cases h

/-- The time is marked as broken exactly while the guest holds the registers. -/
structure Steady (v : Vrtc) (now : ℕ) : Prop where
  addr : v.addr < rtcdevSize
  broken : v.baseRtctime = -1 ↔ v.rtcHalted = true
  low : -1 ≤ v.baseRtctime
  uptime : v.baseUptime ≤ now

/-- Besides, the callout is active exactly where it has a frequency. -/
structure Sound (v : Vrtc) (now : ℕ) : Prop extends Steady v now where
  callout : v.active = true ↔ vrtcFreq v ≠ 0

theorem Steady.running (h : Steady v now) (hrun : v.rtcHalted = false) : 0 ≤ v.baseRtctime := by
  have hlow := h.low
  have hne : v.baseRtctime ≠ -1 := fun heq => absurd (hrun.symm.trans (h.broken.mp heq)) Bool.false_ne_true
  omega

theorem updateEnabled_congr (hregA : w.regA = v.regA) (hregB : w.regB = v.regB)
    (hbroken : w.baseRtctime = -1 ↔ v.baseRtctime = -1) : updateEnabled w = updateEnabled v := by
  have hhalted : w.rtcHalted = v.rtcHalted := by rw [Vrtc.rtcHalted, Vrtc.rtcHalted, hregB]
  rw [updateEnabled, updateEnabled, hregA, hhalted, decide_eq_decide]
  exact and_congr_right' (and_congr_right' (not_congr hbroken))

theorem vrtcFreq_congr (hregA : w.regA = v.regA) (hregB : w.regB = v.regB)
    (hbroken : w.baseRtctime = -1 ↔ v.baseRtctime = -1) : vrtcFreq w = vrtcFreq v := by
  have hpintr : w.pintrEnabled = v.pintrEnabled := by rw [Vrtc.pintrEnabled, Vrtc.pintrEnabled, hregB]
  have haintr : w.aintrEnabled = v.aintrEnabled := by rw [Vrtc.aintrEnabled, Vrtc.aintrEnabled, hregB]
  have huintr : w.uintrEnabled = v.uintrEnabled := by rw [Vrtc.uintrEnabled, Vrtc.uintrEnabled, hregB]
  rw [vrtcFreq, vrtcFreq, hpintr, haintr, huintr, hregA, updateEnabled_congr hregA hregB hbroken]

theorem Frame.freq (h : Frame v w) (hbroken : w.baseRtctime = -1 ↔ v.baseRtctime = -1) :
    vrtcFreq w = vrtcFreq v :=
  vrtcFreq_congr h.regA h.regB hbroken

/-- An update that is not held up starts the clock at the new time. -/
theorem Updated.steady (hu : Updated v newtime newbase w false) (haddr : v.addr < rtcdevSize)
    (hbroken : newtime = -1 ↔ v.rtcHalted = true) (hlow : -1 ≤ newtime) (hle : newbase ≤ now) :
    Steady w now := by
  have htime := hu.done rfl
  refine ⟨hu.addr.trans_lt haddr, ?_, by omega, hu.baseUptime.trans_le hle⟩
  rw [htime, hu.toFrame.rtcHalted]
  exact hbroken

/-- Only a guest that holds the registers holds an update up. -/
theorem Updated.not_busy {busy : Bool} (hu : Updated v newtime newbase w busy)
    (hrun : v.rtcHalted = false) : busy = false := by
  cases busy with
  | true => exact absurd (hrun.symm.trans (hu.held rfl).1) Bool.false_ne_true
  | false => rfl

/-- The clock has moved on by a number of whole seconds. -/
structure Advanced (v : Vrtc) (now : ℕ) (w : Vrtc) : Prop extends Frame v w where
  time : ∃ k : ℕ, w.baseRtctime = v.baseRtctime + k ∧ w.baseUptime = v.baseUptime + k * sbt1s
  steady : Steady w now

theorem Advanced.freq (h : Steady v now) (hadv : Advanced v now w) : vrtcFreq w = vrtcFreq v := by
  apply hadv.toFrame.freq
  rw [hadv.steady.broken, hadv.toFrame.rtcHalted, h.broken]

theorem Advanced.sound (h : Sound v now) (hadv : Advanced v now w) : Sound w now where
  toSteady := hadv.steady
  callout := by
    rw [hadv.active, hadv.freq h.toSteady]
    exact h.callout

theorem Steady.refreshed (h : Steady v now) (hw : Refreshed v w) : Steady w now where
  addr := by
    rw [hw.addr]
    exact h.addr
  broken := by
    rw [hw.baseRtctime, hw.toFrame.rtcHalted]
    exact h.broken
  low := hw.baseRtctime ▸ h.low
  uptime := hw.baseUptime ▸ h.uptime

theorem Advanced.refreshed (h : Advanced v now w) (hu : Refreshed w u) : Advanced v now u where
  toFrame := h.toFrame.trans hu.toFrame
  time := by
    rw [hu.baseRtctime, hu.baseUptime]
    exact h.time
  steady := h.steady.refreshed hu

theorem Advanced.of_refreshed (h : Steady v now) (hw : Refreshed v w) : Advanced v now w where
  toFrame := hw.toFrame
  time := ⟨0, by rw [hw.baseRtctime, Int.natCast_zero, Int.add_zero],
    by rw [hw.baseUptime, Nat.zero_mul, Nat.add_zero]⟩
  steady := h.refreshed hw

theorem intrs_of_freq (h : vrtcFreq v ≠ 0) : v.regB &&& rtcsbAllIntrs ≠ 0 := by
  have hbits : ∀ b : BitVec 8, b &&& rtcsbAllIntrs = 0 →
      b &&& rtcsbPintr = 0 ∧ b &&& rtcsbAintr = 0 ∧ b &&& rtcsbUintr = 0 := by decide
  intro hnone
  obtain ⟨hp, ha, hu⟩ := hbits _ hnone
  apply h
  rw [vrtcFreq, Vrtc.pintrEnabled, Vrtc.aintrEnabled, Vrtc.uintrEnabled, hp, ha, hu]
  rfl

theorem vrtcCurtime_halted (hhalted : v.rtcHalted = true) : vrtcCurtime v now = .ok (v.baseRtctime, v.baseUptime) := by
  rw [vrtcCurtime, if_neg]
  rw [updateEnabled, decide_eq_true_eq]
  exact fun hen => hen.2.1 hhalted

section Steady

variable (h : Steady v now)

include h

theorem Steady.curtime : ∃ k : ℕ,
    vrtcCurtime v now = .ok (v.baseRtctime + k, v.baseUptime + k * sbt1s) ∧ v.baseUptime + k * sbt1s ≤ now ∧
      (updateEnabled v = true → k = (now - v.baseUptime) / sbt1s) ∧ (v.rtcHalted = true → k = 0) := by
  have huptime := h.uptime
  rw [vrtcCurtime]
  by_cases hen : updateEnabled v = true
  · rw [if_pos hen, if_neg (Nat.not_lt.mpr huptime)]
    have hmul := Nat.div_mul_le_self (now - v.baseUptime) sbt1s
    refine ⟨_, rfl, by omega, fun _ => rfl, fun hhalted => ?_⟩
    rw [updateEnabled, decide_eq_true_eq] at hen
    exact absurd hhalted hen.2.1
  · rw [if_neg hen]
    refine ⟨0, ?_, by omega, fun h => absurd h hen, fun _ => rfl⟩
    rw [Int.natCast_zero, Int.add_zero, Nat.zero_mul, Nat.add_zero]

variable (cal : BitVec 32)

/-- Every access first brings the time up to date, and the guest never gets in the way of it. -/
theorem Steady.catchUp : ∃ t bt w, vrtcCurtime v now = .ok (t, bt) ∧
    vrtcTimeUpdate v t bt cal = .ok (w, false) ∧ w.baseRtctime = t ∧ Advanced v now w := by
  obtain ⟨k, hcur, hle, -, hhalted⟩ := h.curtime
  have hlow := h.low
  have hbroken := h.broken
  obtain ⟨w, busy, hw, hupdated⟩ := vrtcTimeUpdate_ok (v.baseUptime + k * sbt1s) cal hlow
    (show -1 ≤ v.baseRtctime + k by omega) (fun _ => by omega)
  cases busy with
  | true =>
    obtain ⟨hh, hne, -⟩ := hupdated.held rfl
    rw [hhalted hh] at hne
    exact absurd (Int.add_zero _) hne
  | false =>
    have htime := hupdated.done rfl
    refine ⟨_, _, w, hcur, hw, htime, hupdated.toFrame, ⟨k, htime, hupdated.baseUptime⟩,
      hupdated.steady h.addr ?_ (by omega) hle⟩
    rw [← hbroken]
    constructor
    · intro heq
      omega
    · intro heq
      have hk := hhalted (hbroken.mp heq)
      omega

theorem Steady.refresh : ∃ w, refresh v now cal = .ok w ∧ Advanced v now w := by
  obtain ⟨t, bt, w, hcur, hw, htime, hadv⟩ := h.catchUp cal
  rw [Rtc.refresh, if_neg (Nat.not_le.mpr h.addr), hcur]
  dsimp only [bind, Except.bind]
  rw [hw]
  dsimp only
  split_ifs
  · obtain ⟨u, hu, hfresh⟩ := secsToRtc_ok w false cal (htime ▸ hadv.steady.low)
    exact ⟨u, hu, hadv.refreshed hfresh⟩
  · exact ⟨w, rfl, hadv⟩

theorem Steady.dataIn : ∃ val w, vrtcDataIn v now cal = .ok (val, w) ∧ Advanced v now w := by
  obtain ⟨w, hw, hadv⟩ := h.refresh cal
  rw [vrtcDataIn, hw]
  exact ⟨_, _, rfl, hadv.refreshed (flagged_refreshed _ _ _)⟩

theorem Steady.calloutUpdate : ∃ w, calloutUpdate v now cal = .ok w ∧ Advanced v now w := by
  rw [Rtc.calloutUpdate]
  split_ifs
  · obtain ⟨t, bt, w, hcur, hw, -, hadv⟩ := h.catchUp cal
    rw [hcur]
    dsimp only [bind, Except.bind]
    rw [hw]
    exact ⟨w, rfl, hadv⟩
  · exact ⟨v, rfl, Advanced.of_refreshed h (Refreshed.refl v)⟩

/-- The callout never fires for nothing. -/
theorem Steady.calloutFired (hfreq : vrtcFreq v ≠ 0) :
    ∃ w, calloutFired v now cal = .ok (vrtcCalloutReset w (vrtcFreq w)) ∧ vrtcFreq w ≠ 0 ∧
      Advanced v now w := by
  have hx := flagged_refreshed v (v.regC ||| rtcirPeriod) (v.pintrEnabled = true)
  obtain ⟨w, hw, hadv⟩ := (h.refreshed hx).calloutUpdate cal
  obtain ⟨k, htime, huptime⟩ := hadv.time
  rw [hx.baseRtctime] at htime
  rw [hx.baseUptime] at huptime
  have hall : Advanced v now w := ⟨hx.toFrame.trans hadv.toFrame, ⟨k, htime, huptime⟩, hadv.steady⟩
  have hfreq' : vrtcFreq w ≠ 0 := by
    rw [hall.freq h]
    exact hfreq
  refine ⟨w, ?_, hfreq', hall⟩
  rw [Rtc.calloutFired, if_neg (intrs_of_freq hfreq), hw]
  exact if_neg hfreq'

end Steady

theorem Sound.calloutHandler (h : Sound v now) (cal : BitVec 32) :
    ∃ w, vrtcCalloutHandler v now cal = .ok w ∧ Advanced v now w := by
  rw [vrtcCalloutHandler]
  split_ifs with hactive
  · have hoff : Steady { v with active := false } now := { h with }
    obtain ⟨w, hw, hfreq, hadv⟩ := hoff.calloutFired cal (h.callout.mp hactive)
    refine ⟨_, hw, ⟨hadv.addr, ?_, hadv.regs⟩, hadv.time, ?_⟩
    · rw [hactive]
      exact decide_eq_true hfreq
    · exact { hadv.steady with }
  · exact ⟨v, rfl, Advanced.of_refreshed h.toSteady (Refreshed.refl v)⟩

/-- The callout was right for the old frequency, and is for the new one. -/
theorem retime_eq (h : u.active = true ↔ oldfreq ≠ 0) : retime u oldfreq = .ok
    (vrtcCalloutReset u (vrtcFreq u)) := by
  rw [retime]
  by_cases hfreq : vrtcFreq u = oldfreq
  · rw [if_neg (not_not_intro hfreq), vrtcCalloutCheck, vrtcCalloutReset, hfreq]
    have hactive : decide (oldfreq ≠ 0) = u.active := by
      rw [Bool.eq_iff_iff, decide_eq_true_eq]
      exact h.symm
    rw [hactive, if_pos]
    by_cases hzero : oldfreq = 0
    · exact .inl ⟨hzero, Bool.eq_false_iff.mpr fun hon => h.mp hon hzero⟩
    · exact .inr ⟨hzero, h.mpr hzero⟩
  · rw [if_pos hfreq]

theorem Steady.reset (h : Steady u now) : Sound (vrtcCalloutReset u (vrtcFreq u)) now where
  toSteady := { h with }
  callout := by
    have hsame : vrtcFreq (vrtcCalloutReset u (vrtcFreq u)) = vrtcFreq u := vrtcFreq_congr rfl rfl Iff.rfl
    exact decide_eq_true_iff

theorem set_regA (h : offset ≠ regAOff) : (v.set offset val).regA = v.regA := update_of_ne h.symm _ _

theorem set_regB (h : offset ≠ regBOff) : (v.set offset val).regB = v.regB := update_of_ne h.symm _ _

theorem set_regB_self : (v.set regBOff val).regB = val := by
  change Function.update v.rtcdev regBOff val regBOff = val
  exact update_self _ _ _

theorem set_rtcHalted (h : offset ≠ regBOff) : (v.set offset val).rtcHalted = v.rtcHalted := by
  rw [Vrtc.rtcHalted, Vrtc.rtcHalted, set_regB h]

theorem Sound.setRegA (h : Sound v now) (val : BitVec 8) : ∃ w, vrtcSetRegA v val now = .ok w ∧ Sound w now := by
  rw [vrtcSetRegA]
  generalize hx : (if (!dividerEnabled v.regA && dividerEnabled (val &&& ~~~rtcsaTup)) = true then
    { v with baseUptime := now } else v) = x
  have hsteady : Steady x now ∧ x.active = v.active := by
    rw [← hx]
    split_ifs
    · exact ⟨⟨h.addr, h.broken, h.low, Nat.le_refl _⟩, rfl⟩
    · exact ⟨h.toSteady, rfl⟩
  have hset : Steady (x.set regAOff (val &&& ~~~rtcsaTup)) now := by
    refine ⟨hsteady.1.addr, ?_, hsteady.1.low, hsteady.1.uptime⟩
    exact hsteady.1.broken
  refine ⟨_, retime_eq ?_, hset.reset⟩
  change x.active = true ↔ vrtcFreq v ≠ 0
  rw [hsteady.2]
  exact h.callout

/-- Whether a value of register B has `HALT`. -/
def haltBit (b : BitVec 8) : Bool := b &&& rtcsbHalt ≠ 0

theorem xor_halt (x y : BitVec 8) : (x ^^^ y) &&& rtcsbHalt ≠ 0 ↔ haltBit x ≠ haltBit y := by
  have hbit : ∀ x : BitVec 8, haltBit x = x.getLsbD 7 := by decide
  have hxor : (x ^^^ y) &&& rtcsbHalt ≠ 0 ↔ haltBit (x ^^^ y) = true := decide_eq_true_iff.symm
  rw [hxor, hbit, hbit, hbit, BitVec.getLsbD_xor]
  cases x.getLsbD 7 <;> cases y.getLsbD 7 <;> decide

/-- `HALT` matters to a write to register B where it changes. -/
theorem haltChange_eq : haltChange u (v.regB ^^^ newval) newval now cal =
    if v.rtcHalted = haltBit newval then .ok u
    else if haltBit newval = true then setHalt u now cal else clearHalt u now cal := by
  have hset : haltBit newval = true ↔ newval &&& rtcsbHalt ≠ 0 := decide_eq_true_iff
  rw [haltChange]
  simp only [xor_halt, hset, ite_not]
  rfl

theorem set_regB_halted : (v.set regBOff val).rtcHalted = haltBit val := by rw [Vrtc.rtcHalted, set_regB_self, haltBit]

theorem rtcToSecs_ge (v : Vrtc) : -1 ≤ rtcToSecs v := by
  rw [rtcToSecs]
  split
  · exact Int.le_refl _
  · split
    · exact Int.le_refl _
    · omega

section Sound

variable (h : Sound v now)

include h

/-- The end of every write to register B. -/
theorem Sound.finish (hu : Steady u now) (hactive : u.active = v.active) (hregA : u.regA = v.regA) (changed : Prop)
    [Decidable changed] :
    ∃ w, retime (if changed then vrtcSetRegC u u.regC else u) (vrtcFreq v) = .ok w ∧ Sound w now ∧
      w.regB = u.regB ∧
      w.regA = v.regA ∧ w.baseRtctime = u.baseRtctime ∧ w.baseUptime = u.baseUptime := by
  have hx := flagged_refreshed u u.regC changed
  refine ⟨_, retime_eq ?_, (hu.refreshed hx).reset, hx.toFrame.regB, hx.toFrame.regA.trans hregA, hx.baseRtctime,
    hx.baseUptime⟩
  rw [hx.active, hactive]
  exact h.callout

/-- A write to register B that leaves `HALT` as it is. -/
theorem Sound.setRegB_keep (cal : BitVec 32) (hkeep : v.rtcHalted = haltBit newval) :
    ∃ w, vrtcSetRegB v newval now cal = .ok w ∧ Sound w now ∧ w.regB = newval ∧ w.regA = v.regA ∧
      w.baseRtctime = v.baseRtctime ∧ w.baseUptime = v.baseUptime := by
  have hset : Steady (v.set regBOff newval) now := by
    refine ⟨h.addr, ?_, h.low, h.uptime⟩
    rw [set_regB_halted, ← hkeep]
    exact h.broken
  rw [vrtcSetRegB, haltChange_eq, if_pos hkeep]
  obtain ⟨w, hw, hsound, hregB, hrest⟩ := h.finish hset rfl (set_regA (by decide))
    ((v.regB ^^^ newval) &&& rtcsbAllIntrs ≠ 0)
  exact ⟨w, hw, hsound, hregB.trans set_regB_self, hrest⟩

/-- `HALT` is cleared: the time is the one in the registers, from now on. -/
theorem Sound.setRegB_clear (cal : BitVec 32) (hold : v.rtcHalted = true) (hnew : haltBit newval = false) :
    (rtcToSecs (v.set regBOff newval) = -1 ∧ vrtcSetRegB v newval now cal = .error .refused) ∨
      (rtcToSecs (v.set regBOff newval) ≠ -1 ∧ ∃ w, vrtcSetRegB v newval now cal = .ok w ∧ Sound w now ∧
        w.regB = newval ∧
        w.regA = v.regA ∧ w.baseRtctime = rtcToSecs (v.set regBOff newval) ∧ w.baseUptime = now) := by
  rw [vrtcSetRegB, haltChange_eq, hold, hnew, clearHalt]
  by_cases hbroken : rtcToSecs (v.set regBOff newval) = vrtcBrokenTime
  · rw [if_pos hbroken]
    exact .inl ⟨hbroken, rfl⟩
  · refine .inr ⟨hbroken, ?_⟩
    rw [if_neg hbroken]
    have hrun : (v.set regBOff newval).rtcHalted = false := set_regB_halted.trans hnew
    obtain ⟨u, busy, hu, hupdated⟩ := vrtcTimeUpdate_ok (v := v.set regBOff newval) now cal h.low
      (rtcToSecs_ge (v.set regBOff newval))
      (fun _ => .inl (h.broken.mpr hold))
    obtain rfl := hupdated.not_busy hrun
    have hsteady : Steady u now := by
      refine hupdated.steady h.addr ?_ (rtcToSecs_ge _) (Nat.le_refl _)
      rw [hrun]
      exact iff_of_false hbroken Bool.false_ne_true
    rw [hu]
    obtain ⟨w, hw, hsound, hregB, hregA, hbase, hup⟩ := h.finish hsteady hupdated.active
      (hupdated.toFrame.regA.trans (set_regA (by decide))) ((v.regB ^^^ newval) &&& rtcsbAllIntrs ≠ 0)
    exact ⟨w, hw, hsound, (hregB.trans hupdated.toFrame.regB).trans set_regB_self, hregA,
      hbase.trans (hupdated.done rfl), hup.trans hupdated.baseUptime⟩

/-- `HALT` is set: the guest holds the registers. -/
theorem Sound.setRegB_halt (cal : BitVec 32) (hold : v.rtcHalted = false) (hnew : haltBit newval = true) :
    ∃ w, vrtcSetRegB v newval now cal = .ok w ∧ Sound w now := by
  have hhalted : (v.set regBOff newval).rtcHalted = true := set_regB_halted.trans hnew
  have hcur : vrtcCurtime (v.set regBOff newval) now = .ok (v.baseRtctime, v.baseUptime) := vrtcCurtime_halted hhalted
  obtain ⟨x, hx, hfresh⟩ := secsToRtc_ok (v.set regBOff newval) true cal h.low
  have hlow : -1 ≤ (x.set regBOff (x.regB &&& ~~~rtcsbUintr)).baseRtctime := hfresh.baseRtctime ▸ h.low
  obtain ⟨u, busy, hu, hupdated⟩ := vrtcTimeUpdate_ok v.baseUptime cal hlow (Int.le_refl (-1)) (fun _ => by omega)
  have hbusy : busy = false := Bool.eq_false_iff.mpr fun hbusy => (hupdated.held hbusy).2.2.1 rfl
  subst hbusy
  have hbit : ∀ b : BitVec 8, haltBit (b &&& ~~~rtcsbUintr) = haltBit b := by decide
  have hsteady : Steady u now := by
    refine hupdated.steady (hfresh.addr.trans_lt h.addr) ?_ (Int.le_refl _) h.uptime
    rw [set_regB_halted, hbit, hfresh.toFrame.regB, set_regB_self, hnew]
    exact iff_of_true rfl rfl
  have hset : setHalt (v.set regBOff newval) now cal = .ok u := by
    rw [setHalt, hcur]
    have hsame : v.baseRtctime = (v.set regBOff newval).baseRtctime := rfl
    dsimp only [bind, Except.bind]
    rw [if_neg (not_not_intro hsame), hx]
    dsimp only [vrtcBrokenTime]
    rw [hu]
    rfl
  have hregA : u.regA = v.regA := by
    rw [hupdated.toFrame.regA, set_regA (by decide), hfresh.toFrame.regA, set_regA (by decide)]
  rw [vrtcSetRegB, haltChange_eq, hold, hnew, hset]
  obtain ⟨w, hw, hsound, -⟩ := h.finish hsteady (hupdated.active.trans hfresh.active) hregA
    ((v.regB ^^^ newval) &&& rtcsbAllIntrs ≠ 0)
  exact ⟨w, hw, hsound⟩

theorem Sound.setRegB (hs : vrtcSetRegB v newval now cal = .ok w) : Sound w now := by
  by_cases hkeep : v.rtcHalted = haltBit newval
  · obtain ⟨u, hu, hsound, -⟩ := h.setRegB_keep cal hkeep
    cases hu.symm.trans hs
    exact hsound
  cases hnew : haltBit newval with
  | true =>
    obtain ⟨u, hu, hsound⟩ := h.setRegB_halt cal (Bool.eq_false_iff.mpr (hnew ▸ hkeep)) hnew
    cases hu.symm.trans hs
    exact hsound
  | false =>
    rcases h.setRegB_clear cal (Bool.eq_true_of_not_eq_false (hnew ▸ hkeep)) hnew with ⟨-, herror⟩ |
      ⟨-, u, hu, hsound, -⟩
    · cases herror.symm.trans hs
    · cases hu.symm.trans hs
      exact hsound

/-- A write to a register that is not a control register. -/
theorem Sound.set (hA : offset ≠ regAOff) (hB : offset ≠ regBOff) : Sound (v.set offset val) now where
  addr := h.addr
  broken := by
    rw [set_rtcHalted hB]
    exact h.broken
  low := h.low
  uptime := h.uptime
  callout := by
    rw [vrtcFreq_congr (set_regA hA) (set_regB hB) Iff.rfl]
    exact h.callout

theorem Sound.centuryWritten (hrun : v.rtcHalted = false) (hs : centuryWritten v now cal = .ok w) : Sound w now := by
  obtain ⟨r, hr, hs⟩ := bind_eq_ok.mp hs
  obtain ⟨w', hw', hs⟩ := bind_eq_ok.mp hs
  split at hs
  · cases hs
  · next hbroken =>
    cases hs
    have hvalid : rtcToSecs v ≠ -1 := hbroken
    obtain ⟨u, busy, hu, hupdated⟩ := vrtcTimeUpdate_ok now cal h.low (rtcToSecs_ge v) (forward_of_ok hrun hr)
    cases hu.symm.trans hr
    obtain rfl := hupdated.not_busy hrun
    cases hw'
    have hbroken' : rtcToSecs v = -1 ↔ v.rtcHalted = true := by
      rw [hrun]
      exact iff_of_false hvalid Bool.false_ne_true
    refine ⟨hupdated.steady h.addr hbroken' (rtcToSecs_ge v) (Nat.le_refl _), ?_⟩
    rw [hupdated.active, hupdated.toFrame.freq]
    · exact h.callout
    · rw [hupdated.done rfl, hbroken', h.broken]

theorem Sound.dataOut (hs : vrtcDataOut v val now cal = .ok w) : Sound w now := by
  obtain ⟨x, hx, hadv⟩ := h.toSteady.refresh cal
  have hsound : Sound x now := hadv.sound h
  rw [vrtcDataOut, hx] at hs
  dsimp only [bind, Except.bind] at hs
  split_ifs at hs with hA hB hC hsec hcentury
  · obtain ⟨u, hu, hw⟩ := hsound.setRegA val
    cases hu.symm.trans hs
    exact hw
  · exact hsound.setRegB hs
  · cases hs
    exact hsound
  · cases hs
    exact hsound.set (by decide) (by decide)
  · exact (hsound.set (by decide) (by decide)).centuryWritten ((set_rtcHalted (by decide)).trans hcentury.2) hs
  · cases hs
    exact hsound.set hA hB

theorem Sound.addrOut : Sound (vrtcAddrOut v val) now where
  addr := by
    change (val &&& 0x7f).toNat < 128
    exact Nat.lt_of_le_of_lt Nat.and_le_right (by decide)
  broken := h.broken
  low := h.low
  uptime := h.uptime
  callout := h.callout

theorem Sound.pass : Sound v (now + dt) :=
  ⟨⟨h.addr, h.broken, h.low, Nat.le_add_right_of_le h.uptime⟩, h.callout⟩

end Sound

theorem step_sound {s' : Sys} {a : Act} (h : Sound s.vrtc s.uptime) (hs : step s a = .ok s') :
    Sound s'.vrtc s'.uptime := by
  cases a with
  | pass dt =>
    cases hs
    exact h.pass
  | addrOut val =>
    cases hs
    exact h.addrOut
  | dataIn cal =>
    obtain ⟨val, w, hw, hadv⟩ := h.toSteady.dataIn cal
    rw [step, hw] at hs
    cases hs
    exact hadv.sound h
  | dataOut val cal =>
    obtain ⟨w, hw, hs⟩ := bind_eq_ok.mp hs
    cases hs
    exact h.dataOut hw
  | callout cal =>
    obtain ⟨w, hw, hadv⟩ := h.calloutHandler cal
    rw [step, hw] at hs
    cases hs
    exact hadv.sound h

/-- The clock starts with a time, and with no callout. -/
theorem init_ok (now secs : ℕ) (cal : BitVec 32) : ∃ s, init now secs cal = .ok s ∧ Sound s.vrtc s.uptime := by
  obtain ⟨v, busy, hv, hupdated⟩ := vrtcTimeUpdate_ok (v := ⟨regDOff, 0, vrtcBrokenTime, rtcdevInit,
    false⟩) now cal
    (Int.le_refl (-1)) (by decide : -1 ≤ 0) (fun _ => .inl rfl)
  have hregB : v.regB = rtcsb24hr := hupdated.toFrame.regB
  have hhalted : v.rtcHalted = false := by
    rw [Vrtc.rtcHalted, hregB]
    rfl
  obtain rfl := hupdated.not_busy (by decide)
  have htime := hupdated.done rfl
  obtain ⟨x, hx, hfresh⟩ := secsToRtc_ok v false cal (by decide : -1 ≤ 0)
  have hxtime : x.baseRtctime = 0 := hfresh.baseRtctime.trans htime
  obtain ⟨w, busy, hw, hset⟩ := vrtcTimeUpdate_ok now cal (show -1 ≤ x.baseRtctime by omega)
    (show -1 ≤ (secs : ℤ) by omega) (fun _ => by omega)
  have hrun : x.rtcHalted = false := hfresh.toFrame.rtcHalted.trans hhalted
  obtain rfl := hset.not_busy hrun
  have hwB : w.regB = rtcsb24hr := (hset.toFrame.regB.trans hfresh.toFrame.regB).trans hregB
  refine ⟨⟨w, now⟩, ?_, hset.steady ?_ ?_ (by omega) (Nat.le_refl _), ?_⟩
  · rw [init, hv]
    dsimp only [bind, Except.bind]
    rw [hx]
    dsimp only
    rw [hw]
  · rw [hfresh.addr, hupdated.addr]
    decide
  · rw [hrun]
    exact iff_of_false (by omega) Bool.false_ne_true
  · have hfreq : vrtcFreq w = 0 := by
      rw [vrtcFreq, Vrtc.pintrEnabled, Vrtc.aintrEnabled, Vrtc.uintrEnabled, hwB]
      rfl
    rw [hset.active, hfresh.active, hupdated.active, hfreq]
    decide

/-- Every state that is reached is sound. -/
theorem run_sound {s₀ : Sys} {as : List Act}
    (hinit : init now secs cal = .ok s₀) (hrun : Run step Any s₀ as s) : Sound s.vrtc s.uptime := by
  obtain ⟨s', hs', hsound⟩ := init_ok now secs cal
  cases hs'.symm.trans hinit
  exact hrun.invariant (I := fun s => Sound s.vrtc s.uptime) (fun s a t _ hs h => step_sound h hs) hsound

end HyperCog.Rtc
