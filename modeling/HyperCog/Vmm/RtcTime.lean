import HyperCog.Vmm.Rtc

/-! The date and time that the guest sets and reads back, in the formats of register B. -/
namespace HyperCog.Rtc

open Machine Calendar List

/-- The format of the registers. -/
structure Format where
  binary : Bool
  hours24 : Bool
  deriving DecidableEq, Repr

def formatOf (regB : BitVec 8) : Format := ⟨regB &&& rtcsbBin ≠ 0, regB &&& rtcsb24hr ≠ 0⟩

namespace Format

variable (f : Format)

/-- A number in binary or in two decimal digits. -/
def number (n : ℕ) : ℕ := if f.binary then n else n / 10 * 16 + n % 10

/-- The hour, on a clock with two halves with 128 for the second one. -/
def hour (h : ℕ) : ℕ :=
  if f.hours24 then f.number h else f.number (if h % 12 = 0 then 12 else h % 12) + if 12 ≤ h then 128 else 0

/-- What the registers hold for a date and time. -/
def registers (c : Civil) : List ℕ :=
  [f.number c.second, f.number c.minute, f.hour c.hour, f.number (c.weekday + 1), f.number c.day, f.number c.month,
    f.number (c.year % 100), f.number (c.year / 100)]

/-- A year has four decimal digits. -/
def Fits (c : Civil) : Prop := f.binary = false → c.year < 10000

end Format

/-- The guest has written the date and time; the day of the week is up to it. -/
structure Holds (v : Vrtc) (f : Format) (c : Civil) : Prop where
  sec : (v.rtcdev secOff).toNat = f.number c.second
  min : (v.rtcdev minOff).toNat = f.number c.minute
  hour : (v.rtcdev hourOff).toNat = f.hour c.hour
  day : (v.rtcdev dayOfMonthOff).toNat = f.number c.day
  month : (v.rtcdev monthOff).toNat = f.number c.month
  year : (v.rtcdev yearOff).toNat = f.number (c.year % 100)
  century : (v.rtcdev rtcCentury).toNat = f.number (c.year / 100)

/-- The registers at the offsets, read one after the other. -/
def readDate (now : ℕ) (cal : BitVec 32) : List ℕ → Vrtc → Except Stop (List ℕ × Vrtc)
  | [], v => .ok ([], v)
  | offset :: offsets, v => do
    let (val, v) ← vrtcDataIn (vrtcAddrOut v (BitVec.ofNat 8 offset)) now cal
    let (vals, v) ← readDate now cal offsets v
    .ok (val.toNat :: vals, v)

variable {f : Format} {b x regA newval : BitVec 8} {c c' : Civil} {n now m h h' low high offset u₀ : ℕ}
  {ct : Clocktime}
  {v w : Vrtc} {cal : BitVec 32} {offsets : List ℕ} {r : DateRegs} {dev dev' : ℕ → BitVec 8} {s s' s₀ : Sys}
  {a : Act}
  {as : List Act} {t₀ : ℤ}

theorem number_inj (heq : f.number n = f.number m) : n = m := by
  rw [Format.number, Format.number] at heq
  split at heq
  · exact heq
  · omega

theorem hour_inj (hlt : h < 24) (hlt' : h' < 24) (heq : f.hour h = f.hour h') : h = h' := by
  have hfinite : ∀ binary hours24 : Bool, ∀ h h' : Fin 24,
      (⟨binary, hours24⟩ : Format).hour h = (⟨binary, hours24⟩ : Format).hour h' → h = h' := by decide +kernel
  exact congrArg Fin.val (hfinite f.binary f.hours24 ⟨h, hlt⟩ ⟨h', hlt'⟩ heq)

/-- The registers tell the date and time. -/
theorem registers_inj (hc : c.Valid) (hc' : c'.Valid) (heq : f.registers c = f.registers c') : c = c' := by
  simp only [Format.registers, List.cons.injEq, and_true] at heq
  obtain ⟨hsec, hmin, hhour, -, hday, hmonth, hyear, hcentury⟩ := heq
  have hyear := number_inj hyear
  have hcentury := number_inj hcentury
  exact Civil.ext (by omega) (number_inj hmonth) (number_inj hday) (hour_inj hc.hour_lt hc'.hour_lt hhour)
    (number_inj hmin) (number_inj hsec)

theorem formatOf_binary : (formatOf b).binary = true ↔ b &&& rtcsbBin ≠ 0 := decide_eq_true_iff

theorem formatOf_hours24 : (formatOf b).hours24 = true ↔ b &&& rtcsb24hr ≠ 0 := decide_eq_true_iff

theorem rtcVal_toNat (hlt : n < 100) : (rtcVal b n).toNat = (formatOf b).number n := by
  have htable : ∀ n : Fin 100, (bin2bcdData.getD n 0).toNat = n / 10 * 16 + n % 10 := by decide +kernel
  rw [rtcVal, Format.number]
  by_cases hbin : b &&& rtcsbBin ≠ 0
  · rw [if_pos hbin, if_pos (formatOf_binary.mpr hbin), BitVec.toNat_ofNat]
    omega
  · rw [if_neg hbin, if_neg fun h => hbin (formatOf_binary.mp h)]
    exact htable ⟨n, hlt⟩

theorem dateRegs_hour (hlt : ct.hour < 24) :
    ((dateRegs b ct).hour).toNat = (formatOf b).hour ct.hour := by
  have hor : ∀ x : BitVec 8, x.toNat < 128 → (x ||| 0x80).toNat = x.toNat + 128 := by decide
  rw [dateRegs, Format.hour]
  dsimp only
  by_cases h24 : b &&& rtcsb24hr = 0
  · have hformat : ¬(formatOf b).hours24 = true := fun h => formatOf_hours24.mp h h24
    have hhour : hourFormat b ct.hour = if ct.hour % 12 = 0 then 12 else ct.hour % 12 := by
      rw [hourFormat, if_neg (not_not_intro h24)]
      split_ifs <;> omega
    have hsmall : hourFormat b ct.hour ≤ 12 := by
      rw [hhour]
      split_ifs <;> omega
    have hval := rtcVal_toNat (b := b) (show hourFormat b ct.hour < 100 by omega)
    have hlow : (rtcVal b (hourFormat b ct.hour)).toNat < 128 := by
      rw [hval, Format.number]
      split_ifs <;> omega
    rw [if_neg hformat, ← hhour, ← hval]
    by_cases hpm : 12 ≤ ct.hour
    · rw [if_pos ⟨h24, hpm⟩, if_pos hpm, hor _ hlow]
    · rw [if_neg fun h => hpm h.2, if_neg hpm, Nat.add_zero]
  · rw [if_pos (formatOf_hours24.mpr h24), if_neg fun h => h24 h.1, hourFormat, if_pos h24, rtcVal_toNat (by omega)]

theorem rtcget_number (hx : x.toNat = (formatOf b).number n) (hfits : (formatOf b).binary = false → n < 100) :
    rtcget b x = some n := by
  rw [rtcget]
  by_cases hbin : b &&& rtcsbBin ≠ 0
  · rw [if_pos hbin, hx, Format.number, if_pos (formatOf_binary.mpr hbin)]
  · have hformat : ¬(formatOf b).binary = true := fun h => hbin (formatOf_binary.mp h)
    have hlt := hfits (Bool.eq_false_iff.mpr hformat)
    rw [Format.number, if_neg hformat] at hx
    have hlower : (x &&& 0xf).toNat = n % 10 := by
      have hand : x.toNat &&& 15 = x.toNat % 16 := Nat.and_two_pow_sub_one_eq_mod x.toNat 4
      exact hand.trans (by omega)
    have hupper : ((x >>> 4) &&& 0xf).toNat = n / 10 := by
      have hand : x.toNat / 16 &&& 15 = x.toNat / 16 % 16 := Nat.and_two_pow_sub_one_eq_mod (x.toNat / 16) 4
      rw [BitVec.toNat_and, BitVec.toNat_ushiftRight, Nat.shiftRight_eq_div_pow]
      exact hand.trans (by omega)
    rw [if_neg hbin]
    rw [if_neg (by omega), Option.some.injEq]
    omega

theorem hourOf_hour (hlt : h < 24) (hx : x.toNat = (formatOf b).hour h) : hourOf b x = some h := by
  rw [hourOf]
  by_cases h24 : b &&& rtcsb24hr = 0
  · have hpm : ∀ x : BitVec 8, x &&& 0x80 ≠ 0 ↔ 128 ≤ x.toNat := by decide
    have hclear : ∀ x : BitVec 8, (x &&& ~~~0x80).toNat = x.toNat % 128 := by decide
    rw [Format.hour, if_neg fun h => formatOf_hours24.mp h h24] at hx
    generalize hhalf : (if h % 12 = 0 then 12 else h % 12) = n at hx
    have hn : 1 ≤ n ∧ n ≤ 12 ∧ n % 12 = h % 12 := by
      rw [← hhalf]
      split_ifs <;> omega
    have hsmall : (formatOf b).number n < 128 := by
      rw [Format.number]
      split_ifs <;> omega
    have hget : rtcget b (if x &&& 0x80 ≠ 0 then x &&& ~~~0x80 else x) = some n := by
      refine rtcget_number ?_ fun _ => by omega
      split_ifs with hbit <;> rw [hpm] at hbit
      · rw [hclear]
        split_ifs at hx <;> omega
      · split_ifs at hx <;> omega
    rw [if_pos h24]
    dsimp only
    rw [hget]
    dsimp only
    rw [if_pos ⟨hn.1, hn.2.1⟩, Option.some.injEq]
    simp only [hpm]
    split_ifs at hx ⊢ <;> omega
  · rw [Format.hour, if_pos (formatOf_hours24.mpr h24)] at hx
    rw [if_neg h24]
    exact rtcget_number hx fun _ => by omega

theorem rtcgetIn_number (hx : x.toNat = (formatOf b).number n) (hlt : n < 100) (hlow : low ≤ n) (hhigh : n ≤ high) :
    rtcgetIn b x low high = some n := by
  rw [rtcgetIn, rtcget_number hx fun _ => hlt, Option.filter_some, if_pos (decide_eq_true ⟨hlow, hhigh⟩)]

/-- The date and time is taken from the registers, unless it is before 1900. -/
theorem Holds.clocktime (h : Holds v (formatOf v.regB) c) (hc : c.Valid) (hfits : (formatOf v.regB).Fits c) :
    rtcClocktime v =
      if c.year < 1900 then none else some ⟨c.year, c.month, c.day, c.hour, c.minute, c.second, 0⟩ := by
  obtain ⟨hmonth, hmonth', hday, hday', hhour, hminute, hsecond⟩ := hc
  have hlong := monthDays_le c.year c.month
  have hcentury : rtcget v.regB (v.rtcdev rtcCentury) = some (c.year / 100) :=
    rtcget_number h.century fun hbcd => by
      have := hfits hbcd
      omega
  rw [rtcClocktime, rtcgetIn_number h.sec (by omega) (Nat.zero_le _) (by omega),
    rtcgetIn_number h.min (by omega) (Nat.zero_le _) (by omega), hourOf_hour hhour h.hour, Option.filter_some,
    if_pos (decide_eq_true (Nat.le_of_lt_succ hhour)), rtcgetIn_number h.day (by omega) hday (by omega),
    rtcgetIn_number h.month (by omega) hmonth hmonth',
    rtcgetIn_number h.year (by omega) (Nat.zero_le _) (by omega), hcentury]
  have hyear : c.year / 100 * 100 + c.year % 100 = c.year := Nat.div_add_mod' c.year 100
  change (if c.year / 100 * 100 + c.year % 100 < 1900 then _ else
    some (Clocktime.mk (c.year / 100 * 100 + c.year % 100) _ _ _ _ _ _)) = _
  rw [hyear]

theorem foldl_years (year n days : ℕ) :
    (range' year n).foldl (fun days i => days + daysInYear i) days + daysBeforeYear year =
      days + daysBeforeYear (year + n) := by
  induction n generalizing year days with
  | zero => rfl
  | succ n ih =>
    have hrest := ih (year + 1) (days + daysInYear year)
    have hstep : daysBeforeYear (year + 1) = daysBeforeYear year + yearDays year := rfl
    have hindex : year + 1 + n = year + (n + 1) := by omega
    rw [hindex, daysInYear_eq] at hrest
    rw [range'_succ, foldl_cons, daysInYear_eq]
    omega

theorem foldl_months {year mon : ℕ} (days : ℕ) (hmon : 1 ≤ mon) (hle : mon + n ≤ 13) :
    (range' mon n).foldl (fun days i => days + daysInMonth year i) days + daysBeforeMonth year mon =
      days + daysBeforeMonth year (mon + n) := by
  induction n generalizing mon days with
  | zero => rfl
  | succ n ih =>
    have hmonth : daysInMonth year mon = monthDays year mon := daysInMonth_eq hmon (by omega)
    have hrest := ih (days + daysInMonth year mon) (Nat.le_add_left 1 mon) (by omega)
    have hindex : mon + 1 + n = mon + (n + 1) := by omega
    rw [hindex, daysBeforeMonth_succ hmon, hmonth] at hrest
    rw [range'_succ, foldl_cons, hmonth]
    omega

/-- From 1970 on, the seconds since then. -/
theorem clockCtToTs_eq (hc : c.Valid) :
    ∃ secs, clockCtToTs ⟨c.year, c.month, c.day, c.hour, c.minute, c.second, 0⟩ = some secs ∧
      (posixBaseYear ≤ c.year → secs + epoch = c.seconds) := by
  obtain ⟨hmonth, hmonth', hday, hday', hhour, hminute, hsecond⟩ := hc
  have hlong : daysInMonth c.year c.month = monthDays c.year c.month := daysInMonth_eq hmonth hmonth'
  rw [clockCtToTs, if_neg (by dsimp only; omega)]
  refine ⟨_, rfl, fun hyear => ?_⟩
  have hyears := foldl_years posixBaseYear (c.year - posixBaseYear) 0
  rw [Nat.add_sub_of_le hyear, daysBeforeYear_posix] at hyears
  generalize hd : (range' posixBaseYear (c.year - posixBaseYear)).foldl (fun days i => days + daysInYear i) 0 = days
    at hyears
  have hmonths : (range' 1 (c.month - 1)).foldl (fun days i => days + daysInMonth c.year i) days + _ = _ :=
    foldl_months days (Nat.le_refl 1) (by omega)
  rw [Nat.add_sub_of_le hmonth, daysBeforeMonth] at hmonths
  rw [Civil.seconds, Civil.dayNumber, epoch_eq]
  dsimp only
  omega

/-- A date before 1900 is refused. -/
theorem Holds.secs (h : Holds v (formatOf v.regB) c) (hc : c.Valid) (hfits : (formatOf v.regB).Fits c) :
    (rtcToSecs v ≠ -1 ↔ 1900 ≤ c.year) ∧ (posixBaseYear ≤ c.year → rtcToSecs v + epoch = c.seconds) := by
  obtain ⟨secs, hsecs, hposix⟩ := clockCtToTs_eq hc
  have hbase : posixBaseYear = 1970 := rfl
  rw [rtcToSecs, h.clocktime hc hfits]
  split_ifs with hyear
  · exact ⟨⟨fun hne => absurd rfl hne, fun hge => absurd hge (Nat.not_le.mpr hyear)⟩, fun hge => by omega⟩
  · dsimp only
    rw [hsecs]
    dsimp only
    refine ⟨⟨fun _ => Nat.le_of_not_lt hyear, fun _ => by omega⟩, fun hge => ?_⟩
    omega

theorem store_congr (h : offset ∈ dateOffsets) : r.store dev offset = r.store dev' offset := by
  simp only [dateOffsets, mem_cons, not_mem_nil, or_false] at h
  rcases h with rfl | rfl | rfl | rfl | rfl | rfl | rfl | rfl <;> rfl

/-- What a read of one of the registers returns, and that the clock stays sound. -/
theorem Sound.read (h : Sound v now) (hrun : v.rtcHalted = false) (hdate : offset ∈ dateOffsets) (cal : BitVec 32) :
    ∃ w, vrtcDataIn (vrtcAddrOut v (BitVec.ofNat 8 offset)) now cal =
        .ok ((dateRegs v.regB (clockTsToCt cal.toNat)).store v.rtcdev offset, w) ∧
      Sound w now ∧ w.regB = v.regB := by
  obtain ⟨haddr, hregister, hnotC⟩ : (vrtcAddrOut v (BitVec.ofNat 8 offset)).addr = offset ∧
      (offset < 10 ∨ offset = rtcCentury) ∧ offset ≠ regCOff := by
    simp only [dateOffsets, mem_cons, not_mem_nil, or_false] at hdate
    rcases hdate with rfl | rfl | rfl | rfl | rfl | rfl | rfl | rfl <;> exact ⟨rfl, by decide, by decide⟩
  have hsound : Sound (vrtcAddrOut v (BitVec.ofNat 8 offset)) now := h.addrOut
  obtain ⟨t, bt, x, hcur, hx, htime, hadv⟩ := hsound.toSteady.catchUp cal
  have hxrun : x.rtcHalted = false := hadv.toFrame.rtcHalted.trans hrun
  have hxB : x.regB = v.regB := hadv.toFrame.regB
  have hpos : 0 ≤ t := htime ▸ hadv.steady.running hxrun
  have hwrite := secsToRtc_of_running cal hpos (.inl hxrun : x.rtcHalted = false ∨ false = true)
  have hfresh : Refreshed x { x with rtcdev := (dateRegs x.regB (clockTsToCt cal.toNat)).store x.rtcdev } :=
    ⟨⟨rfl, rfl, fun _ hnot _ => store_of_not_mem hnot⟩, rfl, rfl⟩
  have hxaddr : x.addr = offset := hadv.addr.trans haddr
  have hrefresh : refresh (vrtcAddrOut v (BitVec.ofNat 8 offset)) now cal =
      .ok { x with rtcdev := (dateRegs x.regB (clockTsToCt cal.toNat)).store x.rtcdev } := by
    rw [refresh, if_neg (Nat.not_le.mpr hsound.addr), hcur]
    dsimp only [bind, Except.bind]
    rw [hx]
    dsimp only
    have hxregister : x.addr < 10 ∨ x.addr = rtcCentury := by rwa [hxaddr]
    rw [if_pos hxregister, hwrite]
  refine ⟨_, ?_, (hadv.refreshed hfresh).sound hsound, hfresh.toFrame.regB.trans hxB⟩
  rw [vrtcDataIn, hrefresh]
  dsimp only [bind, Except.bind]
  rw [hxaddr, if_neg hnotC, hxB, store_congr hdate]

theorem readDate_eq (cal : BitVec 32) (dev : ℕ → BitVec 8) (h : Sound v now) (hrun : v.rtcHalted = false)
    (hdate : ∀ offset ∈ offsets, offset ∈ dateOffsets) :
    ∃ w, readDate now cal offsets v =
      .ok (offsets.map fun offset => ((dateRegs v.regB (clockTsToCt cal.toNat)).store dev offset).toNat, w) := by
  induction offsets generalizing v with
  | nil => exact ⟨v, rfl⟩
  | cons offset offsets ih =>
    obtain ⟨x, hx, hsound, hregB⟩ := h.read hrun (hdate offset mem_cons_self) cal
    have hxrun : x.rtcHalted = false := (congrArg haltBit hregB).trans hrun
    obtain ⟨w, hw⟩ := ih hsound hxrun fun o ho => hdate o (mem_cons_of_mem _ ho)
    refine ⟨w, ?_⟩
    rw [readDate, hx]
    dsimp only [bind, Except.bind]
    rw [hw, hregB]
    rw [map_cons, store_congr (hdate offset mem_cons_self)]

theorem dateRegs_registers (hct : inRange ct) (hyear : ct.year < 10000)
    (hdow : ct.dow = ct.civil.weekday) :
    (dateOffsets.map fun offset => ((dateRegs b ct).store dev offset).toNat) = (formatOf b).registers ct.civil := by
  obtain ⟨hsec, hmin, hhour, hweek, -, hday, -, hmon, -⟩ := hct
  change [(rtcVal b ct.sec).toNat, (rtcVal b ct.min).toNat, ((dateRegs b ct).hour).toNat, (rtcVal b (ct.dow + 1)).toNat,
    (rtcVal b ct.day).toNat, (rtcVal b ct.mon).toNat, (rtcVal b (ct.year % 100)).toNat,
    (rtcVal b (ct.year / 100)).toNat] = _
  rw [dateRegs_hour (by omega), rtcVal_toNat (by omega), rtcVal_toNat (by omega), rtcVal_toNat (by omega),
    rtcVal_toNat (by omega), rtcVal_toNat (by omega), rtcVal_toNat (by omega), rtcVal_toNat (by omega), hdow]
  rfl

/-- The guest reads the calendar clock of the host, whatever time the clock keeps. -/
theorem readDate_host (h : Sound v now) (hrun : v.rtcHalted = false) (cal : BitVec 32) :
    ∃ w, readDate now cal dateOffsets v = .ok ((formatOf v.regB).registers (clockTsToCt cal.toNat).civil, w) := by
  obtain ⟨w, hw⟩ := readDate_eq cal v.rtcdev h hrun fun _ hmem => hmem
  obtain ⟨hct, hyear⟩ := clockTsToCt_bounds cal
  rw [dateRegs_registers hct hyear (clockTsToCt_spec cal.toNat).2.2.1] at hw
  exact ⟨w, hw⟩

/-- No further writes, except that register B may select another format or other interrupts. -/
def Idle (s : Sys) : Act → Prop
  | .dataOut val _ => s.vrtc.addr = regBOff ∧ haltBit val = false
  | _ => True

/-- The time is `t₀` at the uptime `u₀`, and runs from there on. -/
structure Ticking (t₀ : ℤ) (u₀ : ℕ) (regA : BitVec 8) (s : Sys) : Prop where
  sound : Sound s.vrtc s.uptime
  running : s.vrtc.rtcHalted = false
  regA : s.vrtc.regA = regA
  time : ∃ k : ℕ, s.vrtc.baseRtctime = t₀ + k ∧ s.vrtc.baseUptime = u₀ + k * sbt1s
  since : u₀ ≤ s.uptime

theorem Ticking.advanced (h : Ticking t₀ u₀ regA s) (hadv : Advanced s.vrtc s.uptime v) :
    Ticking t₀ u₀ regA { s with vrtc := v } where
  sound := hadv.sound h.sound
  running := hadv.toFrame.rtcHalted.trans h.running
  regA := hadv.toFrame.regA.trans h.regA
  time := by
    obtain ⟨k, htime, huptime⟩ := h.time
    obtain ⟨k', htime', huptime'⟩ := hadv.time
    refine ⟨k + k', ?_, ?_⟩
    · dsimp only
      omega
    · rw [huptime', huptime, Nat.add_mul, Nat.add_assoc]
  since := h.since

/-- Nothing stops the clock. -/
theorem Ticking.step (h : Ticking t₀ u₀ regA s) (hidle : Idle s a) :
    ∃ s', step s a = .ok s' ∧ Ticking t₀ u₀ regA s' := by
  cases a with
  | pass dt =>
    exact ⟨_, rfl, h.sound.pass, h.running, h.regA, h.time, Nat.le_add_right_of_le h.since⟩
  | addrOut val => exact ⟨_, rfl, h.sound.addrOut, h.running, h.regA, h.time, h.since⟩
  | dataIn cal =>
    obtain ⟨val, v, hv, hadv⟩ := h.sound.toSteady.dataIn cal
    refine ⟨_, ?_, h.advanced hadv⟩
    rw [Rtc.step, hv]
    rfl
  | callout cal =>
    obtain ⟨v, hv, hadv⟩ := h.sound.calloutHandler cal
    refine ⟨_, ?_, h.advanced hadv⟩
    rw [Rtc.step, hv]
    rfl
  | dataOut val cal =>
    obtain ⟨haddr, hclear⟩ := hidle
    obtain ⟨v, hv, hadv⟩ := h.sound.toSteady.refresh cal
    have hmid := h.advanced hadv
    obtain ⟨w, hw, hsound, hregB, hregA, hbase, huptime⟩ := hmid.sound.setRegB_keep cal
      (hmid.running.trans hclear.symm)
    have hvaddr : v.addr = regBOff := hadv.addr.trans haddr
    refine ⟨{ s with vrtc := w }, ?_, hsound, (congrArg haltBit hregB).trans hclear, hregA.trans hmid.regA,
      ?_, h.since⟩
    · have hout : vrtcDataOut s.vrtc val s.uptime cal = .ok w := by
        rw [vrtcDataOut, hv]
        dsimp only [bind, Except.bind]
        rw [hvaddr]
        exact hw
      rw [Rtc.step, hout]
      rfl
    · obtain ⟨k, htime, hup⟩ := hmid.time
      exact ⟨k, hbase.trans htime, huptime.trans hup⟩

theorem Ticking.run (h : Ticking t₀ u₀ regA s₀) (hrun : Run Rtc.step Idle s₀ as s) : Ticking t₀ u₀ regA s :=
  hrun.invariant (fun s a t hidle hs h => by
    obtain ⟨t', ht', hticking⟩ := h.step hidle
    cases ht'.symm.trans hs
    exact hticking) h

/-- The kept time is the one that was set, plus the seconds since then. -/
theorem Ticking.getTime (h : Ticking t₀ u₀ regA s) (hdivider : dividerEnabled regA = true) :
    vrtcGetTime s.vrtc s.uptime = .ok (t₀ + ((s.uptime - u₀) / sbt1s : ℕ)) := by
  obtain ⟨k, htime, huptime⟩ := h.time
  obtain ⟨n, hcur, -, hn, -⟩ := h.sound.toSteady.curtime
  have hen : updateEnabled s.vrtc = true := by
    have hpos := h.sound.toSteady.running h.running
    rw [updateEnabled, h.regA, hdivider, h.running]
    exact decide_eq_true ⟨rfl, Bool.false_ne_true, fun heq => by rw [heq] at hpos; exact absurd hpos (by decide)⟩
  have hle := h.sound.uptime
  have hsplit : (s.uptime - u₀) / sbt1s = k + n := by
    have hsub : s.uptime - u₀ = s.uptime - s.vrtc.baseUptime + k * sbt1s := by omega
    rw [hsub, Nat.add_mul_div_right _ _ (by decide), hn hen, Nat.add_comm]
  rw [vrtcGetTime, hcur]
  dsimp only [bind, Except.bind]
  congr 1
  omega

/-- While the guest holds the registers, an access to register B changes nothing by itself. -/
theorem refresh_halted (now : ℕ) (cal : BitVec 32) (hhalted : v.rtcHalted = true) (haddr : v.addr = regBOff) :
    refresh v now cal = .ok v := by
  have hsize : ¬rtcdevSize ≤ v.addr := by
    rw [haddr]
    decide
  have hother : ¬(v.addr < 10 ∨ v.addr = rtcCentury) := by
    rw [haddr]
    decide
  rw [refresh, if_neg hsize, vrtcCurtime_halted hhalted]
  dsimp only [bind, Except.bind]
  rw [vrtcTimeUpdate, if_pos rfl]
  dsimp only
  rw [if_neg hother]

theorem Holds.set_regB (h : Holds v f c) : Holds (v.set regBOff newval) f c :=
  { h with }

/-- `HALT` is cleared over a date and time in the registers: the clock takes it, if it is not before 1900. -/
theorem clear_halt (h : Sound s.vrtc s.uptime) (hhalted : s.vrtc.rtcHalted = true) (haddr : s.vrtc.addr = regBOff)
    (hnew : haltBit newval = false) (hc : c.Valid) (hfits : (formatOf newval).Fits c)
    (hfields : Holds s.vrtc (formatOf newval) c) (cal : BitVec 32) :
    (c.year < 1900 ∧ step s (.dataOut newval cal) = .error .refused) ∨
      (1900 ≤ c.year ∧ ∃ s' t₀, step s (.dataOut newval cal) = .ok s' ∧
        Ticking t₀ s.uptime s.vrtc.regA s' ∧
        s'.uptime = s.uptime ∧ (posixBaseYear ≤ c.year → t₀ + epoch = c.seconds)) := by
  have hout : vrtcDataOut s.vrtc newval s.uptime cal = vrtcSetRegB s.vrtc newval s.uptime cal := by
    rw [vrtcDataOut, refresh_halted s.uptime cal hhalted haddr]
    dsimp only [bind, Except.bind]
    rw [haddr, if_neg (by decide), if_pos rfl]
  have hfields' : Holds (s.vrtc.set regBOff newval) (formatOf (s.vrtc.set regBOff newval).regB) c := by
    exact hfields.set_regB
  obtain ⟨hvalid, hposix⟩ := hfields'.secs hc (by rwa [set_regB_self])
  rcases h.setRegB_clear cal hhalted hnew with ⟨hbroken, herror⟩ |
    ⟨hok, w, hw, hsound, hregB, hregA, hbase, huptime⟩
  · refine .inl ⟨Nat.lt_of_not_le fun hyear => hvalid.mpr hyear hbroken, ?_⟩
    rw [step, hout, herror]
    rfl
  · refine .inr ⟨hvalid.mp hok, { s with vrtc := w }, _, ?_,
      ⟨hsound, (congrArg haltBit hregB).trans hnew, hregA, ⟨0, ?_, huptime⟩, Nat.le_refl _⟩, rfl, hposix⟩
    · rw [step, hout, hw]
      rfl
    · rw [Int.natCast_zero, Int.add_zero]
      exact hbase

/-- The time that the clock itself keeps is the one that the guest has set, and goes on from there. -/
theorem kept_time {secs : ℕ} {s₁ s₂ s₃ : Sys} {pre idle : List Act} (hinit : init now secs cal = .ok s₀)
    (hpre : Run step Any s₀ pre s₁) (hhalted : s₁.vrtc.rtcHalted = true) (haddr : s₁.vrtc.addr = regBOff)
    (hnew : haltBit newval = false) (hc : c.Valid) (hfits : (formatOf newval).Fits c)
    (hfields : Holds s₁.vrtc (formatOf newval) c) (hyear : posixBaseYear ≤ c.year)
    (hdivider : dividerEnabled s₁.vrtc.regA = true) {cal₁ : BitVec 32}
    (hclear : step s₁ (.dataOut newval cal₁) = .ok s₂)
    (hidle : Run step Idle s₂ idle s₃) :
    ∃ t, vrtcGetTime s₃.vrtc s₃.uptime = .ok t ∧
      t + epoch = (Civil.tick^[(s₃.uptime - s₂.uptime) / sbt1s] c).seconds := by
  rcases clear_halt (run_sound hinit hpre) hhalted haddr hnew hc hfits hfields cal₁ with
    ⟨hearly, -⟩ | ⟨-, s', t₀, hs', hticking, huptime, hseconds⟩
  · exact absurd hyear (Nat.not_le.mpr (Nat.lt_trans hearly (by decide)))
  · cases hs'.symm.trans hclear
    refine ⟨_, (hticking.run hidle).getTime hdivider, ?_⟩
    rw [(hc.after _).2, huptime]
    omega

/-- The guest reads back the date and time that it has set, and the seconds since then, exactly where the
calendar clock of the host says the same. -/
theorem read_programmed_iff {now secs : ℕ} {s₀ s₁ : Sys} {pre : List Act} (hinit : init now secs cal = .ok s₀)
    (hpre : Run step Any s₀ pre s₁) (hhalted : s₁.vrtc.rtcHalted = true) (haddr : s₁.vrtc.addr = regBOff)
    (hnew : haltBit newval = false) (hc : c.Valid) (hfits : (formatOf newval).Fits c)
    (hfields : Holds s₁.vrtc (formatOf newval) c) (cal₁ : BitVec 32) :
    ((∃ s₂, step s₁ (.dataOut newval cal₁) = .ok s₂) ↔ 1900 ≤ c.year) ∧
      ∀ s₂, step s₁ (.dataOut newval cal₁) = .ok s₂ → ∀ idle s₃, Run step Idle s₂ idle s₃ →
        (∀ a, Idle s₃ a → ∃ s₄, step s₃ a = .ok s₄) ∧
        ∀ cal₃, (∃ v, readDate s₃.uptime cal₃ dateOffsets s₃.vrtc =
            .ok ((formatOf s₃.vrtc.regB).registers (Civil.tick^[(s₃.uptime - s₂.uptime) / sbt1s] c), v)) ↔
          cal₃.toNat + epoch = c.seconds + (s₃.uptime - s₂.uptime) / sbt1s := by
  have hclear := clear_halt (run_sound hinit hpre) hhalted haddr hnew hc hfits hfields cal₁
  constructor
  · rcases hclear with ⟨hearly, herror⟩ | ⟨hyear, s', t₀, hs', -⟩
    · refine ⟨fun ⟨s₂, hs₂⟩ => ?_, fun hyear => absurd hyear (Nat.not_le.mpr hearly)⟩
      cases herror.symm.trans hs₂
    · exact ⟨fun _ => hyear, fun _ => ⟨s', hs'⟩⟩
  · intro s₂ hs₂ idle s₃ hidle
    rcases hclear with ⟨-, herror⟩ | ⟨-, s', t₀, hs', hticking, -⟩
    · cases herror.symm.trans hs₂
    · cases hs'.symm.trans hs₂
      have hend := hticking.run hidle
      refine ⟨fun a ha => ?_, fun cal₃ => ?_⟩
      · obtain ⟨s₄, hs₄, -⟩ := hend.step ha
        exact ⟨s₄, hs₄⟩
      · obtain ⟨w, hw⟩ := readDate_host hend.sound hend.running cal₃
        obtain ⟨hvalid, hseconds, -⟩ := clockTsToCt_spec cal₃.toNat
        obtain ⟨hvalid', hseconds'⟩ := hc.after ((s₃.uptime - s₂.uptime) / sbt1s)
        rw [hw, ← hseconds, ← hseconds']
        constructor
        · rintro ⟨v, hv⟩
          have hregs := (Prod.mk.inj (Except.ok.inj hv)).1
          rw [registers_inj hvalid hvalid' hregs]
        · intro heq
          rw [hvalid.seconds_inj hvalid' heq]
          exact ⟨w, rfl⟩

/-- The guest sets 2020-01-02 03:04:05, in decimal digits and 24 hours. -/
def setTime : List Act :=
  [.addrOut 11, .dataOut 0x82 0, .addrOut 0, .dataOut 0x05 0, .addrOut 2, .dataOut 0x04 0, .addrOut 4, .dataOut 0x03 0,
    .addrOut 7, .dataOut 0x02 0, .addrOut 8, .dataOut 0x01 0, .addrOut 9, .dataOut 0x20 0, .addrOut 0x32,
    .dataOut 0x20 0,
    .addrOut 11]

def noClock : Sys := ⟨⟨0, 0, 0, fun _ => 0, false⟩, 0⟩

def atStart : Sys := (init 0 0 0).toOption.getD noClock

def atSet : Sys := (exec step atStart setTime).toOption.getD noClock

def atClear : Sys := (step atSet (.dataOut 0x02 0)).toOption.getD noClock

theorem init_atStart : init 0 0 0 = .ok atStart := eq_ok_of_isOk rfl

theorem run_atSet : Run step Any atStart setTime atSet := run_of_isOk rfl

theorem step_atClear : step atSet (.dataOut 0x02 0) = .ok atClear := eq_ok_of_isOk rfl

theorem kept_time_later : ∃ t, vrtcGetTime atClear.vrtc (90 * sbt1s) = .ok t ∧
    t + epoch = (Civil.tick^[90] ⟨2020, 1, 2, 3, 4, 5⟩).seconds := by
  have hrun : Run step Idle atClear [.pass (90 * sbt1s)] { atClear with uptime := _ } := .stepL trivial rfl .refl
  exact kept_time init_atStart run_atSet rfl rfl (by decide : haltBit 0x02 = false) (by constructor <;> decide)
    (fun _ => by decide) (by constructor <;> rfl) (by decide) rfl step_atClear hrun

/-- After 90 seconds, with the calendar clock of the host at 2020-01-02 03:05:35. -/
theorem read_programmed_iff_later : ∃ s, Run step Idle atClear [.pass (90 * sbt1s)] s ∧
    ∃ v, readDate s.uptime 1577934335 dateOffsets s.vrtc = .ok
      ([0x35, 0x05, 0x03, 5, 0x02, 0x01, 0x20, 0x20], v) := by
  have hread := read_programmed_iff (c := ⟨2020, 1, 2, 3, 4, 5⟩) init_atStart run_atSet rfl
    rfl
    (by decide : haltBit 0x02 = false) (by constructor <;> decide) (fun _ => by decide)
    (by constructor <;> decide +kernel) 0
  have hrun : Run step Idle atClear [.pass (90 * sbt1s)] { atClear with uptime := atClear.uptime + 90 * sbt1s } :=
    .stepL trivial rfl .refl
  obtain ⟨v, hv⟩ := ((hread.2 atClear step_atClear _ _ hrun).2 1577934335).mpr (by decide +kernel)
  have hregs : (formatOf atClear.vrtc.regB).registers
      (Civil.tick^[(atClear.uptime + 90 * sbt1s - atClear.uptime) / sbt1s] ⟨2020, 1, 2, 3, 4, 5⟩) =
        [0x35, 0x05, 0x03, 5, 0x02, 0x01, 0x20, 0x20] := by decide +kernel
  exact ⟨_, hrun, v, hregs ▸ hv⟩

/-- Right after the guest has set its time, it reads that of the host: here 1970-01-01 00:00:00. -/
theorem read_back_differs : init 0 0 0 = .ok atStart ∧ Run step Any atStart setTime atSet ∧
    step atSet (.dataOut 0x02 0) = .ok atClear ∧
    ∃ r, readDate atClear.uptime 0 dateOffsets atClear.vrtc = .ok r ∧
      r.1 = (formatOf atClear.vrtc.regB).registers ⟨1970, 1, 1, 0, 0, 0⟩ ∧
      r.1 ≠ (formatOf atClear.vrtc.regB).registers ⟨2020, 1, 2, 3, 4, 5⟩ := by
  refine ⟨init_atStart, run_atSet, step_atClear, _, eq_ok_of_isOk (d := ([], noClock.vrtc)) ?_, ?_, ?_⟩
  all_goals decide +kernel

theorem valid_of_clockCtToTs (h : clockCtToTs ct = some n) : ct.civil.Valid := by
  rw [clockCtToTs] at h
  split_ifs at h
  have hlong : daysInMonth ct.year ct.mon = monthDays ct.year ct.mon := daysInMonth_eq (by omega) (by omega)
  constructor <;> simp only [Clocktime.civil] <;> omega

theorem clockCtToTs_clockTsToCt (secs : ℕ) : clockCtToTs (clockTsToCt secs) = some secs := by
  obtain ⟨hvalid, hseconds, -, hyear⟩ := clockTsToCt_spec secs
  obtain ⟨m, hm, hposix⟩ := clockCtToTs_eq hvalid
  have heq := hposix hyear
  obtain rfl : m = secs := by omega
  exact hm

/-- A date is found again from the base year on. -/
theorem civil_clockTsToCt_iff (h : clockCtToTs ct = some n) :
    (clockTsToCt n).civil = ct.civil ↔ posixBaseYear ≤ ct.year := by
  obtain ⟨hvalid, hseconds, -, hyear⟩ := clockTsToCt_spec n
  have hct := valid_of_clockCtToTs h
  obtain ⟨m, hm, hposix⟩ := clockCtToTs_eq hct
  cases h.symm.trans hm
  constructor
  · intro heq
    have := congrArg Civil.year heq
    exact hyear.trans_eq this
  · intro hge
    exact hvalid.seconds_inj hct (hseconds.trans (hposix hge))

/-- The conversions of seconds and dates undo each other exactly for dates from the base year on. -/
theorem conversions_inverse_iff (secs : ℕ) (v : Vrtc) (ct : Clocktime) (hct : rtcClocktime v = some ct)
    (hsecs : rtcToSecs v ≠ vrtcBrokenTime) :
    clockCtToTs (clockTsToCt secs) = some secs ∧ (clockTsToCt (rtcToSecs v).toNat).civil = ct.civil ↔
      posixBaseYear ≤ ct.year := by
  rw [and_iff_right (clockCtToTs_clockTsToCt secs)]
  simp only [rtcToSecs, hct] at hsecs ⊢
  cases h : clockCtToTs ct with
  | none => simp [h] at hsecs
  | some n => exact civil_clockTsToCt_iff h

/-- The first day of a century, in decimal digits and 24 hours. -/
def newCentury (century : BitVec 8) : Vrtc :=
  { noClock.vrtc with
    rtcdev := fun r => if r = regBOff then 2 else if r = monthOff ∨ r = dayOfMonthOff then 1
      else if r = rtcCentury then century else 0 }

theorem conversions_inverse_2000 :
    (clockTsToCt (rtcToSecs (newCentury 0x20)).toNat).civil = ⟨2000, 1, 1, 0, 0, 0⟩ :=
  ((conversions_inverse_iff 0 (newCentury 0x20) ⟨2000, 1, 1, 0, 0, 0, 0⟩ rfl
    (by decide +kernel)).mpr (by decide)).2

/-- The first day of 1900 is accepted, and is then the first of 1970. -/
theorem accepted_before_base : rtcClocktime (newCentury 0x19) = some ⟨1900, 1, 1, 0, 0, 0, 0⟩ ∧
    rtcToSecs (newCentury 0x19) ≠ vrtcBrokenTime ∧
    (clockTsToCt (rtcToSecs (newCentury 0x19)).toNat).civil = ⟨1970, 1, 1, 0, 0, 0⟩ := by
  decide +kernel

section Loop

/-- The loop of `vrtc_time_update`, for so many turns. -/
def updateLoop (oldtime newtime : ℤ) (cal : BitVec 32) : ℕ → Vrtc → Except Stop Vrtc
  | 0, _ => .error .endless
  | n + 1, v => do
    let v := { v with baseRtctime :=
      if v.aintrEnabled ∧ oldtime ≠ vrtcBrokenTime then v.baseRtctime + 1 else newtime }
    let v ← if v.aintrEnabled then alarmCheck v cal else .ok v
    if v.baseRtctime = newtime then .ok v else updateLoop oldtime newtime cal n v

/-- A call that comes to the loop leaves it within the bound. -/
def Bounded (v : Vrtc) (newtime : ℤ) (cal : BitVec 32) : Prop :=
  newtime ≠ v.baseRtctime → newtime ≠ vrtcBrokenTime → v.rtcHalted = false →
    updateLoop v.baseRtctime newtime cal (max 1 (newtime - v.baseRtctime)).toNat v ≠ .error .endless

variable {oldtime newtime : ℤ}

theorem alarmCheck_cases (v : Vrtc) (cal : BitVec 32) : v.baseRtctime < -1 ∧ alarmCheck v cal = .error .kassert ∨
    -1 ≤ v.baseRtctime ∧ ∃ w, alarmCheck v cal = .ok w ∧ Refreshed v w := by
  by_cases hlow : v.baseRtctime < -1
  · have hvalid : v.baseRtctime ≠ vrtcBrokenTime := Int.ne_of_lt hlow
    refine .inl ⟨hlow, ?_⟩
    rw [alarmCheck, secsToRtc, if_pos (by omega), if_neg hvalid]
    rfl
  · exact .inr ⟨Int.not_lt.mp hlow, alarmCheck_ok cal (Int.not_lt.mp hlow)⟩

/-- Where no second is visited, one turn is enough. -/
theorem updateLoop_direct (h : ¬(v.aintrEnabled = true ∧ oldtime ≠ vrtcBrokenTime)) :
    updateLoop oldtime newtime cal (n + 1) v ≠ .error .endless := by
  simp only [updateLoop, if_neg h]
  split_ifs
  · obtain ⟨-, hw⟩ | ⟨-, w, hw, hr⟩ := alarmCheck_cases { v with baseRtctime := newtime } cal
    · simp [hw, bind, Except.bind]
    · simp [hw, bind, Except.bind, hr.baseRtctime]
  · simp [bind, Except.bind]

/-- A turn that visits a second stops at an assertion, or is one of `visitSeconds`. -/
theorem updateLoop_turn (haintr : v.aintrEnabled = true) (hold : oldtime ≠ vrtcBrokenTime) :
    v.baseRtctime < -2 ∧ updateLoop oldtime newtime cal (n + 1) v = .error .kassert ∨
      ∃ w, w.aintrEnabled = true ∧ w.baseRtctime = v.baseRtctime + 1 ∧ -1 ≤ w.baseRtctime ∧
        visitSeconds cal (n + 1) v = visitSeconds cal n w ∧ updateLoop oldtime newtime cal (n + 1) v =
          if w.baseRtctime = newtime then .ok w else updateLoop oldtime newtime cal n w := by
  have hkept : ∀ t, { v with baseRtctime := t }.aintrEnabled = true := fun _ => haintr
  simp only [updateLoop, visitSeconds, haintr, hkept, hold, ne_eq, not_false_eq_true, and_self, if_true]
  obtain ⟨hlow, hw⟩ | ⟨hge, w, hw, hr⟩ := alarmCheck_cases { v with baseRtctime := v.baseRtctime + 1 } cal
  · rw [hw]
    exact .inl ⟨by dsimp only at hlow; omega, rfl⟩
  · refine .inr ⟨w, ?_, hr.baseRtctime, hr.baseRtctime ▸ hge, ?_, ?_⟩
    · rw [Vrtc.aintrEnabled, hr.regB]
      exact haintr
    all_goals
      rw [hw]
      rfl

/-- On the way to a later time the loop visits the seconds in between, as `moveTo` does. -/
theorem updateLoop_forward (haintr : v.aintrEnabled = true) (hold : oldtime ≠ vrtcBrokenTime)
    (hlow : -2 ≤ v.baseRtctime) (hn : v.baseRtctime + (n + 1) = newtime) :
    updateLoop oldtime newtime cal (n + 1) v = visitSeconds cal (n + 1) v := by
  induction n generalizing v with
  | zero =>
    obtain ⟨hlt, -⟩ | ⟨w, -, hbase, -, hvisit, hloop⟩ := updateLoop_turn haintr hold
    · omega
    · rw [hloop, hvisit]
      exact if_pos (by omega)
  | succ n ih =>
    obtain ⟨hlt, -⟩ | ⟨w, hon, hbase, hge, hvisit, hloop⟩ := updateLoop_turn haintr hold
    · omega
    · rw [hloop, hvisit, if_neg (by omega)]
      exact ih hon (by omega) (by omega)

/-- An earlier time is not met. -/
theorem not_bounded (hnew : newtime ≠ -1) (hrun : v.rtcHalted = false) (haintr : v.aintrEnabled = true)
    (hold : v.baseRtctime ≠ -1) (hback : newtime < v.baseRtctime) (hlow : -2 ≤ v.baseRtctime) :
    ¬Bounded v newtime cal := by
  intro h
  refine h (by omega) hnew hrun ?_
  rw [show (max 1 (newtime - v.baseRtctime)).toNat = 0 + 1 by omega]
  obtain ⟨hlt, -⟩ | ⟨w, -, hbase, -, -, hloop⟩ := updateLoop_turn haintr hold
  · omega
  · rw [hloop]
    exact if_neg (by omega)

/-- From before the epoch the first turn stops at an assertion. -/
theorem update_bounded_iff (v : Vrtc) (newtime : ℤ) (cal : BitVec 32) : Bounded v newtime cal ↔
    (newtime ≠ -1 → v.rtcHalted = false → v.aintrEnabled = true →
      v.baseRtctime = -1 ∨ v.baseRtctime ≤ newtime ∨ v.baseRtctime < -2) := by
  constructor
  · intro h hnew hrun haintr
    by_contra hcon
    simp only [not_or, Int.not_le, Int.not_lt] at hcon
    exact not_bounded hnew hrun haintr hcon.1 hcon.2.1 hcon.2.2 h
  · intro h hne hnew hrun
    obtain ⟨n, hn⟩ : ∃ n : ℕ, (max 1 (newtime - v.baseRtctime)).toNat = n + 1 :=
      ⟨(newtime - v.baseRtctime - 1).toNat, by omega⟩
    rw [hn]
    by_cases hvisits : v.aintrEnabled = true ∧ v.baseRtctime ≠ vrtcBrokenTime
    · obtain ⟨haintr, hold⟩ := hvisits
      have hcases := (h hnew hrun haintr).resolve_left hold
      obtain ⟨-, hloop⟩ | ⟨w, -, hbase, hge, hvisit, -⟩ := updateLoop_turn haintr hold
      · rw [hloop]
        simp
      · obtain ⟨u, hu, -⟩ := visitSeconds_ok cal n hge
        rw [updateLoop_forward haintr hold (by omega) (by omega), hvisit, hu]
        simp
    · exact updateLoop_direct hvisits

/-- The guest has enabled the alarm interrupt and selected the century, on the first day of 2000. -/
def alarmed : Sys :=
  (init 0 946684800 946684800 >>= fun s =>
    exec step s [.addrOut 11, .dataOut 0x22 946684800, .addrOut 0x32]).toOption.getD noClock

/-- The guest writes 19 to the century. -/
theorem century_unbounded : (init 0 946684800 946684800 >>= fun s =>
      exec step s [.addrOut 11, .dataOut 0x22 946684800, .addrOut 0x32]) = .ok alarmed ∧
    ¬Bounded (alarmed.vrtc.set rtcCentury 0x19) (rtcToSecs (alarmed.vrtc.set rtcCentury 0x19)) 946684800 := by
  refine ⟨eq_ok_of_isOk rfl, not_bounded ?_ ?_ ?_ ?_ ?_ ?_⟩
  all_goals decide +kernel

end Loop

end HyperCog.Rtc
