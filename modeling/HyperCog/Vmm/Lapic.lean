import HyperCog.Lib.Bank
import HyperCog.Lib.Run
import Mathlib.Data.UInt

/-! The local APIC: its request, service and trigger-mode registers and the stack of vectors in service. -/
namespace HyperCog.Lapic

open Machine List Function Bank

def apicSvrVector : UInt32 := 0x000000ff
def apicSvrEnable : UInt32 := 0x00000100
def apicLvtVector : UInt32 := 0x000000ff
def apicLvtDm : UInt32 := 0x00000700
def apicLvtDmFixed : UInt32 := 0x00000000
def apicLvtDs : UInt32 := 0x00001000
def apicLvtM : UInt32 := 0x00010000
def apicEsrSendIllegalVector : UInt32 := 0x00000020
def apicEsrReceiveIllegalVector : UInt32 := 0x00000040
def apicLdrReserved : UInt32 := 0x00ffffff
def apicDfrReserved : UInt32 := 0x0fffffff
def apicDfrModelMask : UInt32 := 0xf0000000
def apicDfrModelFlat : UInt32 := 0xf0000000
def apicDfrModelCluster : UInt32 := 0x00000000

/-- 16 priority levels with at most one vector injected per level, above a placeholder. -/
def isrvecStkSize : ℕ := 16 + 1

/-- The words of a register bank. -/
def words : ℕ := 8

/-- The vectors. -/
def vectors : ℕ := 256

def prio (x : ℕ) : ℕ := x >>> 4

/-- The registers and the stack of a `vlapic`. The priorities hold 8-bit values. -/
structure Vlapic where
  vcpuid : ℕ
  x2apic : Bool
  tpr : ℕ
  ppr : ℕ
  ldr : UInt32
  dfr : UInt32
  svr : UInt32
  isr : Bank 32
  tmr : Bank 32
  irr : Bank 32
  lvtError : UInt32
  esrPending : UInt32
  esrFiring : Bool
  isrvecStk : ℕ → ℕ
  isrvecStkTop : ℕ

/-- The calls of `xhyve_abort`. -/
inductive Abort
  | stackCorrupted
  | notIncreasing
  | outOfSync
  | invalidTop
  | overflow
  deriving DecidableEq, Repr

section Registers

variable (l : Vlapic)

def enabled : Bool := l.svr &&& apicSvrEnable ≠ 0

/-- `vlapic_set_intr_ready` for a vector that the APIC can hold. -/
def requestVector (vector : ℕ) : Vlapic := { l with irr := l.irr.set vector }

/-- `vlapic_fire_lvt` for the error entry, whose failure is recorded while `esr_firing` is set. The other
delivery modes leave the local APIC as it is. -/
def fireErrorLvt (lvt : UInt32) : Vlapic :=
  if lvt &&& apicLvtM ≠ 0 then l
  else if lvt &&& apicLvtDm = apicLvtDmFixed then
    if (lvt &&& apicLvtVector).toNat < 16 then
      { l with esrPending := l.esrPending ||| apicEsrSendIllegalVector }
    else if enabled l then requestVector l (lvt &&& apicLvtVector).toNat
    else l
  else l

def setError (mask : UInt32) : Vlapic :=
  let l := { l with esrPending := l.esrPending ||| mask }
  if l.esrFiring then l
  else { fireErrorLvt { l with esrFiring := true } (l.lvtError ||| apicLvtDmFixed) with
    esrFiring := false }

/-- The trigger mode is only compared with the TMR for a trace message. -/
def setIntrReady (vector : ℕ) (_level : Bool) : Vlapic × Bool :=
  if !enabled l then (l, false)
  else if vector < 16 then (setError l apicEsrReceiveIllegalVector, true)
  else (requestVector l vector, true)

/-- `vlapic_lvt_write_handler` for the error entry. -/
def lvtErrorWrite (val : UInt32) : Vlapic :=
  let val := if enabled l then val else val ||| apicLvtM
  { l with lvtError := val &&& (apicLvtM ||| apicLvtDs ||| apicLvtVector) }

/-- `vlapic_svr_write_handler`, without the timer and the other local vectors. -/
def svrWrite (val : UInt32) : Vlapic :=
  let old := l.svr
  let l := { l with svr := val }
  if (old ^^^ val) &&& apicSvrEnable ≠ 0 ∧ val &&& apicSvrEnable = 0 then
    lvtErrorWrite l (l.lvtError ||| apicLvtM)
  else l

def dfrWrite (val : UInt32) : Vlapic :=
  if l.x2apic then { l with dfr := 0 }
  else { l with dfr := (val &&& apicDfrModelMask) ||| apicDfrReserved }

def x2apicLdr : UInt32 :=
  (1 <<< (l.vcpuid.toUInt32 &&& 0xf)) ||| ((l.vcpuid.toUInt32 &&& 0xffff0) <<< 12)

def ldrWrite (val : UInt32) : Vlapic :=
  if l.x2apic then { l with ldr := x2apicLdr l }
  else { l with ldr := val &&& ~~~apicLdrReserved }

/-- What `vlapic_init` leaves, and `vlapic_set_x2apic_state` after it. -/
def init (vcpuid : ℕ) (x2apic : Bool) : Vlapic :=
  let l : Vlapic :=
    { vcpuid := vcpuid
      x2apic := x2apic
      tpr := 0
      ppr := 0
      ldr := 0
      dfr := 0xffffffff
      svr := apicSvrVector
      isr := .empty
      tmr := .empty
      irr := .empty
      lvtError := apicLvtM
      esrPending := 0
      esrFiring := false
      isrvecStk := fun _ => 0
      isrvecStkTop := 0 }
  if x2apic then { l with ldr := x2apicLdr l, dfr := 0 } else l

end Registers

section Service

variable (l : Vlapic)

/-- The vectors on the stack above the placeholder, bottom first. -/
def inService : List ℕ := (range l.isrvecStkTop).map fun i => l.isrvecStk (i + 1)

/-- The first check of `vlapic_update_ppr`: the priorities on the stack increase. -/
def increasing : ℤ → List ℕ → Bool
  | _, [] => true
  | lastprio, v :: vs => if (prio v : ℤ) ≤ lastprio then false else increasing (prio v) vs

/-- The second check of `vlapic_update_ppr`: each bit set in the ISR has its entry on the stack, from
index `i` on. -/
def inSync : List ℕ → ℕ → Bool
  | [], _ => true
  | vector :: vs, i =>
    if l.isr.test vector then
      if i > l.isrvecStkTop ∨ l.isrvecStk i ≠ vector then false else inSync vs (i + 1)
    else inSync vs i

def updatePpr : Except Abort Vlapic :=
  let isrvec := l.isrvecStk l.isrvecStkTop
  if l.isrvecStkTop = 0 ∧ isrvec ≠ 0 then .error .stackCorrupted
  else if !increasing (-1) (inService l) then .error .notIncreasing
  else if !inSync l (range vectors) 1 then .error .outOfSync
  else .ok { l with ppr := if prio l.tpr ≥ prio isrvec then l.tpr else isrvec &&& 0xf0 }

/-- The vector leaves the ISR and the top of the stack. -/
def pop (vector : ℕ) : Vlapic :=
  { l with isr := l.isr.clear vector, isrvecStkTop := l.isrvecStkTop - 1 }

/-- The vector goes from the IRR to the ISR and on top of the stack. -/
def push (vector : ℕ) : Vlapic :=
  { l with
    irr := l.irr.clear vector
    isr := l.isr.set vector
    isrvecStkTop := l.isrvecStkTop + 1
    isrvecStk := update l.isrvecStk (l.isrvecStkTop + 1) (vector % vectors) }

/-- Gives back the vector whose EOI goes on to the I/O APIC. -/
def processEoi : Except Abort (Vlapic × Option ℕ) :=
  match l.isr.highest words with
  | none => .ok (l, none)
  | some vector =>
    if l.isrvecStkTop = 0 then .error .invalidTop
    else do
      let l ← updatePpr (pop l vector)
      .ok (l, if l.tmr.test vector then some vector else none)

def setTpr (val : UInt8) : Except Abort Vlapic :=
  if l.tpr ≠ val.toNat then updatePpr { l with tpr := val.toNat } else .ok l

/-- Also tells whether a #GP is injected. -/
def setCr8 (val : UInt64) : Except Abort (Vlapic × Bool) :=
  if val &&& ~~~0xf ≠ 0 then .ok (l, true)
  else do .ok (← setTpr l (val <<< 4).toUInt8, false)

def pendingIntr : Option ℕ :=
  match l.irr.highest words with
  | some vector => if prio vector > prio l.ppr then some vector else none
  | none => none

def intrAccepted (vector : ℕ) : Except Abort Vlapic :=
  if l.isrvecStkTop + 1 ≥ isrvecStkSize then .error .overflow
  else updatePpr (push l vector)

end Service

/-- The vCPU's own local APIC, and the vector that its last look for a pending interrupt returned. -/
structure World where
  lapic : Vlapic
  offered : Option ℕ

instance neZeroVectors : NeZero 256 := ⟨by decide⟩

inductive Action
  /-- from any thread -/
  | setIntrReady (vector : Fin 256) (level : Bool)
  | setTpr (val : UInt8)
  | setCr8 (val : UInt64)
  | eoi
  | svrWrite (val : UInt32)
  | lvtErrorWrite (val : UInt32)
  | pendingIntr
  /-- of the vector just returned -/
  | intrAccepted
  deriving DecidableEq, Repr

/-- Why a step is not taken: no vector was offered, or the code aborts. -/
inductive Stop
  | disabled
  | abort (a : Abort)
  deriving DecidableEq, Repr

/-- The vCPU goes on with its own next call, if this one does not abort. -/
def proceed : Except Abort Vlapic → Except Stop World
  | .ok l => .ok ⟨l, none⟩
  | .error a => .error (.abort a)

def step (s : World) : Action → Except Stop World
  | .setIntrReady vector level =>
    .ok { s with lapic := (setIntrReady s.lapic vector level).1 }
  | .setTpr val => proceed (setTpr s.lapic val)
  | .setCr8 val => proceed ((setCr8 s.lapic val).map Prod.fst)
  | .eoi => proceed ((processEoi s.lapic).map Prod.fst)
  | .svrWrite val => .ok ⟨svrWrite s.lapic val, none⟩
  | .lvtErrorWrite val => .ok ⟨lvtErrorWrite s.lapic val, none⟩
  | .pendingIntr => .ok { s with offered := pendingIntr s.lapic }
  | .intrAccepted =>
    match s.offered with
    | some vector => proceed (intrAccepted s.lapic vector)
    | none => .error .disabled

/-- The processor priority as the SDM defines it: the task priority or the class of the highest vector in
service, whichever is higher. -/
def sdmPpr (l : Vlapic) : ℕ := max l.tpr (16 * (((l.isr.highest words).getD 0) / 16))

/-- The invariant of the vectors in service. -/
structure InService (l : Vlapic) : Prop where
  /-- the stack holds the vectors of the ISR, in ascending order -/
  members : inService l = l.isr.members vectors
  classes : (inService l).Pairwise fun u v => prio u < prio v
  top : l.isrvecStkTop < isrvecStkSize
  ppr : l.ppr = sdmPpr l

/-- The invariant with the facts that it rests on. -/
structure Stacked (l : Vlapic) : Prop where
  members : inService l = l.isr.members vectors
  classes : (inService l).Pairwise fun u v => prio u < prio v
  bottom : l.isrvecStk 0 = 0

variable {l l' : Vlapic} {v i : ℕ} {vs : List ℕ} {s s' : World}

theorem prio_eq (x : ℕ) : prio x = x / 16 := Nat.shiftRight_eq_div_pow x 4

theorem length_inService (l : Vlapic) : (inService l).length = l.isrvecStkTop := by
  simp [inService]

theorem getElem?_inService (hi : i < l.isrvecStkTop) :
    (inService l)[i]? = some (l.isrvecStk (i + 1)) := by
  simp [inService, hi]

theorem and_class : ∀ v < 256, v &&& 0xf0 = 16 * (v / 16) := by decide +kernel

theorem increasing_of_pairwise {p : ℤ} (h : vs.Pairwise fun u v => prio u < prio v)
    (hp : ∀ v ∈ vs, p < prio v) : increasing p vs = true := by
  induction vs generalizing p with
  | nil => rfl
  | cons v vs ih =>
    obtain ⟨hv, hvs⟩ := pairwise_cons.mp h
    rw [increasing, if_neg (not_le.mpr (hp v mem_cons_self))]
    exact ih hvs (fun u hu => by exact_mod_cast hv u hu)

/-- The walk over the vectors meets the entries from index `i` on in turn. -/
theorem inSync_of_filter (hi : 1 ≤ i)
    (h : vs.filter l.isr.test = (inService l).drop (i - 1)) : inSync l vs i = true := by
  induction vs generalizing i with
  | nil => rfl
  | cons v vs ih =>
    rw [inSync]
    by_cases hv : l.isr.test v = true
    · rw [if_pos hv]
      rw [filter_cons_of_pos hv] at h
      have hlt : i - 1 < (inService l).length := by
        by_contra hge
        rw [drop_eq_nil_of_le (not_lt.mp hge)] at h
        cases h
      rw [drop_eq_getElem_cons hlt] at h
      obtain ⟨hhead, htail⟩ := List.cons.inj h
      have htop : i ≤ l.isrvecStkTop := by rw [length_inService] at hlt; omega
      have hentry : l.isrvecStk i = v := by
        have hget := getElem?_inService (l := l) (i := i - 1) (by omega)
        rw [List.getElem?_eq_getElem hlt, ← hhead, Nat.sub_add_cancel hi] at hget
        exact (Option.some.inj hget).symm
      rw [if_neg (by simp [hentry, not_lt.mpr htop])]
      exact ih (by omega) (by rw [htail, Nat.sub_add_cancel hi, Nat.add_sub_cancel])
    · rw [if_neg hv]
      rw [filter_cons_of_neg hv] at h
      exact ih hi h

section

variable (h : Stacked l)

include h

/-- The top of the stack is the highest vector in service, or the placeholder. -/
theorem stk_top : l.isrvecStk l.isrvecStkTop = (l.isr.highest words).getD 0 := by
  cases hh : l.isr.highest words with
  | none =>
    have hnone := highest_eq_none hh
    have hnil : inService l = [] := by
      rw [h.members, members, filter_eq_nil_iff]
      intro u hu
      rw [hnone u (mem_range.mp hu)]
      simp
    have htop : l.isrvecStkTop = 0 := by rw [← length_inService, hnil]; rfl
    rw [htop, h.bottom, Option.getD_none]
  | some v =>
    obtain ⟨hlt, hset, htop⟩ := highest_eq_some hh
    have happ : inService l = l.isr.members v ++ [v] := by
      rw [h.members]
      exact members_eq_append hlt hset htop
    have hlen : (l.isr.members v).length + 1 = l.isrvecStkTop := by
      rw [← length_inService, happ, length_append]
      rfl
    have hlast : (inService l)[l.isrvecStkTop - 1]? = some v := by
      rw [happ, ← hlen, Nat.add_sub_cancel, List.getElem?_concat_length]
    rw [getElem?_inService (by omega), Nat.sub_add_cancel (by omega)] at hlast
    exact Option.some.inj hlast

theorem top_lt_vectors : l.isrvecStk l.isrvecStkTop < vectors := by
  rw [stk_top h]
  cases hh : l.isr.highest words with
  | none => exact Nat.succ_pos 255
  | some v => exact (highest_eq_some hh).1

/-- No check of `vlapic_update_ppr` fails, and what it computes is the priority of the SDM. -/
theorem updatePpr_of_stacked : updatePpr l = .ok { l with ppr := sdmPpr l } := by
  unfold updatePpr
  have hbottom : ¬ (l.isrvecStkTop = 0 ∧ l.isrvecStk l.isrvecStkTop ≠ 0) := by
    rintro ⟨h0, hne⟩
    rw [h0] at hne
    exact hne h.bottom
  have hinc : increasing (-1) (inService l) = true :=
    increasing_of_pairwise h.classes (fun v _ => by omega)
  have hsync : inSync l (range vectors) 1 = true :=
    inSync_of_filter (Nat.le_refl 1) (by rw [h.members]; rfl)
  rw [if_neg hbottom, hinc, hsync, if_neg (by simp), if_neg (by simp)]
  congr 2
  rw [sdmPpr, ← stk_top h, prio_eq, prio_eq, and_class _ (top_lt_vectors h)]
  split <;> omega

/-- At most one vector of each of the 16 classes is in service. -/
theorem top_le : l.isrvecStkTop ≤ 16 := by
  have hnodup : ((inService l).map prio).Nodup := by
    rw [List.Nodup, pairwise_map]
    exact h.classes.imp fun hlt => Nat.ne_of_lt hlt
  have hsub : (inService l).map prio ⊆ range 16 := by
    intro p hp
    obtain ⟨v, hv, rfl⟩ := mem_map.mp hp
    rw [h.members, mem_members] at hv
    have hlt : v < 256 := hv.1
    rw [mem_range, prio_eq]
    omega
  have hlen := (hnodup.subperm hsub).length_le
  rwa [length_map, length_inService] at hlen

theorem Stacked.inService (hp : l.ppr = sdmPpr l) : InService l :=
  ⟨h.members, h.classes, Nat.lt_succ_of_le (top_le h), hp⟩

end

/-- Each class in service is below the processor priority. -/
theorem prio_le_ppr (hp : l.ppr = sdmPpr l) {u : ℕ} (hu : u < vectors) (hset : l.isr.test u = true) :
    prio u ≤ prio l.ppr := by
  have hle : u ≤ (l.isr.highest words).getD 0 := by
    cases hh : l.isr.highest words with
    | none =>
      rw [highest_eq_none hh u hu] at hset
      cases hset
    | some v =>
      by_contra hlt
      rw [(highest_eq_some hh).2.2 u (not_le.mp hlt) hu] at hset
      cases hset
  rw [hp, sdmPpr, prio_eq, prio_eq]
  omega

theorem inService_push (hv : v < vectors) : inService (push l v) = inService l ++ [v] := by
  simp only [inService, push, range_succ, map_append, map_cons, map_nil,
    update_self, Nat.mod_eq_of_lt hv]
  congr 1
  apply map_congr_left
  intro i hi
  have : i < l.isrvecStkTop := mem_range.mp hi
  rw [update_of_ne (by omega)]

theorem inService_pop (h : 0 < l.isrvecStkTop) :
    inService l = inService (pop l v) ++ [l.isrvecStk l.isrvecStkTop] := by
  obtain ⟨k, hk⟩ : ∃ k, l.isrvecStkTop = k + 1 := ⟨l.isrvecStkTop - 1, by omega⟩
  simp [inService, pop, hk, range_succ]

/-- A vector of a class above the processor priority may go on top of the stack. -/
theorem stacked_push (h : Stacked l) (hp : l.ppr = sdmPpr l) (hv : v < vectors)
    (hprio : prio l.ppr < prio v) : Stacked (push l v) := by
  have hbelow : ∀ u, u < vectors → l.isr.test u = true → prio u < prio v := fun u hu hset =>
    Nat.lt_of_le_of_lt (prio_le_ppr hp hu hset) hprio
  have hfree : ∀ u, v ≤ u → u < vectors → l.isr.test u = false := by
    intro u hvu hu
    rw [← Bool.not_eq_true]
    intro hset
    have := hbelow u hu hset
    rw [prio_eq, prio_eq] at this
    omega
  constructor
  · rw [inService_push hv, h.members]
    exact (members_set (by decide) hv hfree).symm
  · rw [inService_push hv, pairwise_append]
    refine ⟨h.classes, pairwise_singleton _ _, ?_⟩
    intro u hu w hw
    rw [mem_singleton] at hw
    subst hw
    rw [h.members, mem_members] at hu
    exact hbelow u hu.1 hu.2
  · simp [push, h.bottom]

/-- The highest vector in service is the one to go from the top of the stack. -/
theorem stacked_pop (h : Stacked l) (hh : l.isr.highest words = some v) :
    0 < l.isrvecStkTop ∧ Stacked (pop l v) := by
  obtain ⟨hlt, hset, htop⟩ := highest_eq_some hh
  have hmem : inService l = (l.isr.clear v).members vectors ++ [v] := by
    rw [h.members]
    exact members_clear (by decide) hlt hset htop
  have hpos : 0 < l.isrvecStkTop := by
    rw [← length_inService, hmem, length_append]
    exact Nat.succ_pos _
  have hstk : inService (pop l v) = (l.isr.clear v).members vectors :=
    (append_inj' ((inService_pop hpos).symm.trans hmem) rfl).1
  refine ⟨hpos, hstk, ?_, h.bottom⟩
  have hcl := h.classes
  rw [inService_pop hpos, pairwise_append] at hcl
  exact hcl.1

/-- Whatever the state, an update changes the processor priority only. -/
theorem updatePpr_eq_ok (h : updatePpr l = .ok l') : ∃ p, l' = { l with ppr := p } := by
  unfold updatePpr at h
  dsimp only at h
  split at h
  · cases h
  · split at h
    · cases h
    · split at h
      · cases h
      · cases h
        exact ⟨_, rfl⟩

theorem intrAccepted_eq_ok (h : intrAccepted l v = .ok l') : ∃ p, l' = { push l v with ppr := p } := by
  unfold intrAccepted at h
  split_ifs at h
  exact updatePpr_eq_ok h

theorem setTpr_eq_ok {val : UInt8} (h : setTpr l val = .ok l') :
    ∃ t p, l' = { l with tpr := t, ppr := p } := by
  unfold setTpr at h
  split at h
  · obtain ⟨p, rfl⟩ := updatePpr_eq_ok h
    exact ⟨_, p, rfl⟩
  · cases h
    exact ⟨_, _, rfl⟩

/-- An EOI ends the highest interrupt in service, if there is one. -/
theorem processEoi_eq_ok {o : Option ℕ} (h : processEoi l = .ok (l', o)) :
    (l.isr.highest words = none ∧ l' = l ∧ o = none) ∨
    ∃ v p, l.isr.highest words = some v ∧ l' = { pop l v with ppr := p } ∧
      o = if l.tmr.test v then some v else none := by
  unfold processEoi at h
  split at h
  · rename_i hn
    cases h
    exact .inl ⟨hn, rfl, rfl⟩
  · rename_i v hv
    split_ifs at h
    obtain ⟨l₁, hu, hr⟩ := bind_eq_ok.mp h
    obtain ⟨p, rfl⟩ := updatePpr_eq_ok hu
    cases hr
    exact .inr ⟨v, p, hv, rfl, rfl⟩

section

variable (h : Stacked l)

include h

theorem Stacked.withPpr (p : ℕ) : Stacked { l with ppr := p } :=
  { h with }

theorem intrAccepted_eq (hp : l.ppr = sdmPpr l) (hv : v < vectors) (hprio : prio l.ppr < prio v) :
    intrAccepted l v = .ok { push l v with ppr := sdmPpr (push l v) } := by
  have hpush := stacked_push h hp hv hprio
  have hroom : ¬ l.isrvecStkTop + 1 ≥ isrvecStkSize :=
    Nat.not_le.mpr (Nat.lt_succ_of_le (top_le hpush))
  rw [intrAccepted, if_neg hroom, updatePpr_of_stacked hpush]

theorem intrAccepted_ok (hp : l.ppr = sdmPpr l) (hv : v < vectors) (hprio : prio l.ppr < prio v) :
    ∃ l', intrAccepted l v = .ok l' ∧ Stacked l' ∧ l'.ppr = sdmPpr l' :=
  ⟨_, intrAccepted_eq h hp hv hprio, (stacked_push h hp hv hprio).withPpr _, rfl⟩

theorem processEoi_ok (hp : l.ppr = sdmPpr l) :
    ∃ r, processEoi l = .ok r ∧ Stacked r.1 ∧ r.1.ppr = sdmPpr r.1 := by
  unfold processEoi
  cases hh : l.isr.highest words with
  | none => exact ⟨_, rfl, h, hp⟩
  | some v =>
    obtain ⟨hpos, hpop⟩ := stacked_pop h hh
    dsimp only
    rw [if_neg (by omega), updatePpr_of_stacked hpop]
    exact ⟨_, rfl, hpop.withPpr _, rfl⟩

theorem setTpr_ok (hp : l.ppr = sdmPpr l) (val : UInt8) :
    ∃ l', setTpr l val = .ok l' ∧ Stacked l' ∧ l'.ppr = sdmPpr l' := by
  unfold setTpr
  split
  · have hset : Stacked { l with tpr := val.toNat } := { h with }
    exact ⟨_, updatePpr_of_stacked hset, hset.withPpr _, rfl⟩
  · exact ⟨l, rfl, h, hp⟩

theorem setCr8_ok (hp : l.ppr = sdmPpr l) (val : UInt64) :
    ∃ r, setCr8 l val = .ok r ∧ Stacked r.1 ∧ r.1.ppr = sdmPpr r.1 := by
  unfold setCr8
  split
  · exact ⟨_, rfl, h, hp⟩
  · obtain ⟨l', hl, h', hp'⟩ := setTpr_ok h hp (val <<< 4).toUInt8
    rw [hl]
    exact ⟨_, rfl, h', hp'⟩

end

/-- The call leaves the priorities and what is in service as they are. -/
structure Aside (l l' : Vlapic) : Prop where
  tpr : l'.tpr = l.tpr
  ppr : l'.ppr = l.ppr
  isr : l'.isr = l.isr
  stk : l'.isrvecStk = l.isrvecStk
  top : l'.isrvecStkTop = l.isrvecStkTop

theorem Aside.stacked (ha : Aside l l') (h : Stacked l) : Stacked l' := by
  have hstk : Lapic.inService l' = Lapic.inService l := by
    rw [Lapic.inService, Lapic.inService, ha.stk, ha.top]
  exact ⟨by rw [hstk, ha.isr]; exact h.members, by rw [hstk]; exact h.classes,
    by rw [ha.stk]; exact h.bottom⟩

theorem Aside.sdmPpr (ha : Aside l l') : Lapic.sdmPpr l' = Lapic.sdmPpr l := by
  rw [Lapic.sdmPpr, Lapic.sdmPpr, ha.tpr, ha.isr]

theorem aside_setError (l : Vlapic) (mask : UInt32) : Aside l (setError l mask) := by
  unfold setError
  dsimp only
  split
  · exact ⟨rfl, rfl, rfl, rfl, rfl⟩
  · unfold fireErrorLvt
    repeat' split
    all_goals exact ⟨rfl, rfl, rfl, rfl, rfl⟩

theorem aside_setIntrReady (l : Vlapic) (vector : ℕ) (level : Bool) :
    Aside l (setIntrReady l vector level).1 := by
  unfold setIntrReady
  split_ifs
  · exact ⟨rfl, rfl, rfl, rfl, rfl⟩
  · exact aside_setError l _
  · exact ⟨rfl, rfl, rfl, rfl, rfl⟩

theorem aside_lvtErrorWrite (l : Vlapic) (val : UInt32) : Aside l (lvtErrorWrite l val) :=
  ⟨rfl, rfl, rfl, rfl, rfl⟩

theorem aside_svrWrite (l : Vlapic) (val : UInt32) : Aside l (svrWrite l val) := by
  unfold svrWrite
  dsimp only
  split
  all_goals exact ⟨rfl, rfl, rfl, rfl, rfl⟩

theorem pendingIntr_iff : pendingIntr l = some v ↔
    l.irr.highest words = some v ∧ prio l.ppr < prio v := by
  rw [pendingIntr]
  cases l.irr.highest words with
  | none => simp
  | some u =>
    by_cases hu : prio u > prio l.ppr
    · simp only [if_pos hu, Option.some.injEq]
      exact ⟨fun h => ⟨h, h ▸ hu⟩, And.left⟩
    · simp only [if_neg hu, reduceCtorEq, Option.some.injEq, false_iff, not_and]
      rintro rfl
      exact hu

/-- What a look for a pending interrupt returns can be nested. -/
theorem pendingIntr_eq_some (h : pendingIntr l = some v) : v < vectors ∧ prio l.ppr < prio v := by
  obtain ⟨hh, hprio⟩ := pendingIntr_iff.mp h
  exact ⟨(highest_eq_some hh).1, hprio⟩

/-- Whatever the state, the priority is at least that of the vector on top of the stack. -/
theorem prio_le_of_updatePpr (h : updatePpr l = .ok l') (ht : l.isrvecStk l.isrvecStkTop < vectors) :
    prio (l.isrvecStk l.isrvecStkTop) ≤ prio l'.ppr := by
  unfold updatePpr at h
  dsimp only at h
  split_ifs at h with hb hi hs hp
  · cases h
    exact hp
  · cases h
    dsimp only
    rw [and_class _ ht, prio_eq, prio_eq]
    omega

/-- Once the vector is accepted, nothing that was pending with it can be delivered. -/
theorem pendingIntr_intrAccepted (hp : pendingIntr l = some v) (h : intrAccepted l v = .ok l') :
    pendingIntr l' = none := by
  obtain ⟨hv, htop⟩ := pendingIntr_iff.mp hp
  obtain ⟨hlt, -, habove⟩ := highest_eq_some hv
  obtain ⟨p, hl'⟩ := intrAccepted_eq_ok h
  have hprio : prio v ≤ prio l'.ppr := by
    rw [intrAccepted] at h
    split_ifs at h
    have hmod : (push l v).isrvecStk (push l v).isrvecStkTop = v := by
      simp only [push, update_self]
      exact Nat.mod_eq_of_lt hlt
    have := prio_le_of_updatePpr h (by rw [hmod]; exact hlt)
    rwa [hmod] at this
  rw [Option.eq_none_iff_forall_ne_some]
  intro u hu
  obtain ⟨hhigh, hgt⟩ := pendingIntr_iff.mp hu
  obtain ⟨hult, hset, -⟩ := highest_eq_some hhigh
  rw [hl'] at hset
  simp only [push, test_clear (by decide : 0 < 32), Bool.and_eq_true] at hset
  have huv : u ≤ v := by
    by_contra hlt'
    rw [habove u (not_le.mp hlt') hult] at hset
    cases hset.2
  rw [prio_eq, prio_eq] at *
  omega

/-- The vector accepted is the one that moves from the IRR to the ISR. -/
theorem moved_intrAccepted (hp : pendingIntr l = some v) (h : intrAccepted l v = .ok l') (u : ℕ) :
    l.irr.test u = true ∧ l'.irr.test u = false ∧ l'.isr.test u = true ↔ u = v := by
  have hset := (highest_eq_some (pendingIntr_iff.mp hp).1).2.1
  obtain ⟨p, rfl⟩ := intrAccepted_eq_ok h
  simp only [push, test_clear (by decide : 0 < 32), test_set (by decide : 0 < 32)]
  constructor
  · rintro ⟨hu, hclear, -⟩
    by_contra hne
    rw [hu, decide_eq_false hne] at hclear
    cases hclear
  · rintro rfl
    simp [hset]

/-- The invariant of the vCPU's use of its local APIC. -/
structure World.Ok (s : World) : Prop where
  stacked : Stacked s.lapic
  ppr : s.lapic.ppr = sdmPpr s.lapic
  offered : ∀ v, s.offered = some v → v < vectors ∧ prio s.lapic.ppr < prio v

theorem ok_of_aside (hok : s.Ok) (ha : Aside s.lapic l) : World.Ok { s with lapic := l } where
  stacked := ha.stacked hok.stacked
  ppr := by rw [ha.ppr, hok.ppr, ha.sdmPpr]
  offered := by rw [ha.ppr]; exact hok.offered

theorem World.Ok.withdraw (hs : Stacked l) (hp : l.ppr = sdmPpr l) : World.Ok ⟨l, none⟩ :=
  ⟨hs, hp, nofun⟩

/-- Every action is taken and keeps the invariant, or is the acceptance of a vector not offered. -/
theorem step_ok (hok : s.Ok) (a : Action) :
    (∃ s', step s a = .ok s' ∧ s'.Ok) ∨ step s a = .error .disabled := by
  cases a with
  | setIntrReady vector level =>
    exact .inl ⟨_, rfl, ok_of_aside hok (aside_setIntrReady _ _ _)⟩
  | setTpr val =>
    obtain ⟨l, hl, hs, hp⟩ := setTpr_ok hok.stacked hok.ppr val
    exact .inl ⟨_, by rw [step, hl]; rfl, .withdraw hs hp⟩
  | setCr8 val =>
    obtain ⟨r, hr, hs, hp⟩ := setCr8_ok hok.stacked hok.ppr val
    exact .inl ⟨_, by rw [step, hr]; rfl, .withdraw hs hp⟩
  | eoi =>
    obtain ⟨r, hr, hs, hp⟩ := processEoi_ok hok.stacked hok.ppr
    exact .inl ⟨_, by rw [step, hr]; rfl, .withdraw hs hp⟩
  | svrWrite val =>
    have h := ok_of_aside hok (aside_svrWrite s.lapic val)
    exact .inl ⟨_, rfl, .withdraw h.stacked h.ppr⟩
  | lvtErrorWrite val =>
    have h := ok_of_aside hok (aside_lvtErrorWrite s.lapic val)
    exact .inl ⟨_, rfl, .withdraw h.stacked h.ppr⟩
  | pendingIntr =>
    exact .inl ⟨_, rfl, hok.stacked, hok.ppr, fun v hv => pendingIntr_eq_some hv⟩
  | intrAccepted =>
    cases ho : s.offered with
    | none => exact .inr (by rw [step, ho])
    | some v =>
      obtain ⟨hv, hprio⟩ := hok.offered v ho
      obtain ⟨l, hl, hs, hp⟩ := intrAccepted_ok hok.stacked hok.ppr hv hprio
      exact .inl ⟨_, by simp only [step, ho]; rw [hl]; rfl, .withdraw hs hp⟩

theorem ok_init (vcpuid : ℕ) (x2apic : Bool) : World.Ok ⟨init vcpuid x2apic, none⟩ := by
  have hempty : (empty : Bank 32).highest words = none := rfl
  have hmem : (empty : Bank 32).members vectors = [] := by
    rw [members]
    simp
  cases x2apic with
  | false | true =>
    exact .withdraw ⟨by rw [init]; simp [inService, hmem], by rw [init]; simp [inService], rfl⟩
      (by simp [init, sdmPpr, hempty])

theorem ok_run {vcpuid : ℕ} {x2apic : Bool} {as : List Action}
    (h : Run step Any ⟨init vcpuid x2apic, none⟩ as s) : s.Ok := by
  refine h.invariant (fun s a s' _ hs hok => ?_) (ok_init vcpuid x2apic)
  rcases step_ok hok a with ⟨t, ht, hok'⟩ | hd
  · rw [ht] at hs
    cases hs
    exact hok'
  · rw [hd] at hs
    cases hs

/-- However interrupts arrive, nest and end, the stack is the ISR in order of class, the processor
priority is that of the SDM, and no call aborts next. -/
theorem in_service_exact {vcpuid : ℕ} {x2apic : Bool} {as : List Action}
    (h : Run step Any ⟨init vcpuid x2apic, none⟩ as s) :
    InService s.lapic ∧ ∀ a e, step s a ≠ .error (.abort e) := by
  have hok := ok_run h
  refine ⟨hok.stacked.inService hok.ppr, fun a e he => ?_⟩
  rcases step_ok hok a with ⟨t, ht, -⟩ | hd
  · rw [ht] at he
    cases he
  · rw [hd] at he
    cases he

/-- Two interrupts nest and the second one ends. -/
def nestedRun : List Action :=
  [.svrWrite 0x1ff, .setIntrReady 0x31 false, .pendingIntr, .intrAccepted, .setIntrReady 0x52 true,
    .setIntrReady 0x38 false, .pendingIntr, .intrAccepted, .setTpr 0x20, .eoi, .eoi, .eoi]

theorem in_service_exact_nested :
    ∃ s, Run step Any ⟨init 0 false, none⟩ nestedRun s ∧ s.lapic.ppr = 0x20 ∧
      InService s.lapic ∧ ∀ a e, step s a ≠ .error (.abort e) := by
  have hrun : Run step Any ⟨init 0 false, none⟩ nestedRun _ :=
    run_of_isOk (d := ⟨init 0 false, none⟩) (by decide +kernel)
  exact ⟨_, hrun, by decide +kernel, in_service_exact hrun⟩

end HyperCog.Lapic
