import HyperCog.Virtio.Queue

/-! Which guest memory a chain of descriptors gives to a device. -/
namespace HyperCog.Virtio

/-- The range lies wholly inside one of the two segments of guest RAM. -/
def InRam (ram : GuestRam) (gpa len : ℕ) : Prop :=
  gpa < ram.lowmem.toNat ∧ gpa + len ≤ ram.lowmem.toNat ∨
    2 ^ 32 ≤ gpa ∧ gpa - 2 ^ 32 < ram.highmem.toNat ∧ gpa - 2 ^ 32 + len ≤ ram.highmem.toNat

def VirtioDesc.InRam (ram : GuestRam) (vd : VirtioDesc) : Prop :=
  Virtio.InRam ram vd.vdAddr.toNat vd.vdLen.toNat

/-- The host memory of the iovec is the image of a range of guest RAM. -/
def Iovec.InRam (ram : GuestRam) (iov : Iovec) : Prop :=
  ∃ gpa, iov.iovBase = some gpa ∧ Virtio.InRam ram gpa iov.iovLen

/-- The translation fails exactly for the ranges outside guest RAM. -/
def Translates (ram : GuestRam) : Prop :=
  ∀ (gpa : UInt64) (len : ℕ), paddrGuest2host ram gpa len = none ↔ ¬ InRam ram gpa.toNat len

variable {m : HostMem} {vq : VqueueInfo} {i room : ℕ} {vds vds' ts ts' : List VirtioDesc} {table : ℕ → VirtioDesc}
  {vd : VirtioDesc} {vs : VirtioSoftc} {ram : GuestRam} {head : UInt16}

/-- The descriptors that the guest links in one indirect table, from entry `i` on. -/
inductive TableLinked (table : ℕ → VirtioDesc) : ℕ → List VirtioDesc → Prop
  | last {i : ℕ} (hlast : (table i).vdFlags &&& vringDescFNext = 0) : TableLinked table i [table i]
  | next {i : ℕ} {vds : List VirtioDesc} (hnext : (table i).vdFlags &&& vringDescFNext ≠ 0)
      (hrest : TableLinked table (table i).vdNext.toNat vds) : TableLinked table i (table i :: vds)

/-- The real descriptors that one descriptor stands for, and the indirect tables that it names. -/
inductive Stands (m : HostMem) (vd : VirtioDesc) : List VirtioDesc → List VirtioDesc → Prop
  | direct (hflag : vd.vdFlags &&& vringDescFIndirect = 0) : Stands m vd [vd] []
  | indirect {vds : List VirtioDesc} (hflag : vd.vdFlags &&& vringDescFIndirect ≠ 0)
      (htable : TableLinked (indirectDesc m vd.vdAddr.toNat) 0 vds) :
      Stands m vd vds [vd]

/-- The real descriptors and the indirect tables that the guest links from index `i` of the descriptor
table on. -/
inductive Linked (m : HostMem) (vq : VqueueInfo) : ℕ → List VirtioDesc → List VirtioDesc → Prop
  | last {i : ℕ} {vds ts : List VirtioDesc} (hstands : Stands m (vq.vqDesc i) vds ts)
      (hlast : (vq.vqDesc i).vdFlags &&& vringDescFNext = 0) : Linked m vq i vds ts
  | next {i : ℕ} {vds ts vds' ts' : List VirtioDesc} (hstands : Stands m (vq.vqDesc i) vds ts)
      (hnext : (vq.vqDesc i).vdFlags &&& vringDescFNext ≠ 0)
      (hrest : Linked m vq (vq.vqDesc i).vdNext.toNat vds' ts') :
      Linked m vq i (vds ++ vds') (ts ++ ts')

theorem TableLinked.unique (h : TableLinked table i vds)
    (h' : TableLinked table i vds') : vds = vds' := by
  induction h generalizing vds' with
  | last hlast =>
    cases h' with
    | last _ => rfl
    | next hnext _ => exact absurd hlast hnext
  | next hnext _ ih =>
    cases h' with
    | last hlast => exact absurd hlast hnext
    | next _ hrest => rw [ih hrest]

theorem Stands.unique (h : Stands m vd vds ts) (h' : Stands m vd vds' ts') :
    vds = vds' ∧ ts = ts' := by
  cases h with
  | direct hflag =>
    cases h' with
    | direct _ => exact ⟨rfl, rfl⟩
    | indirect hflag' _ => exact absurd hflag hflag'
  | indirect hflag htable =>
    cases h' with
    | direct hflag' => exact absurd hflag' hflag
    | indirect _ htable' => exact ⟨htable.unique htable', rfl⟩

/-- The guest's memory determines the chain. -/
theorem Linked.unique (h : Linked m vq i vds ts) (h' : Linked m vq i vds' ts') :
    vds = vds' ∧ ts = ts' := by
  induction h generalizing vds' ts' with
  | last hstands hlast =>
    cases h' with
    | last hstands' _ => exact hstands.unique hstands'
    | next _ hnext _ => exact absurd hlast hnext
  | next hstands hnext _ ih =>
    cases h' with
    | last _ hlast => exact absurd hlast hnext
    | next hstands' _ hrest =>
      obtain ⟨rfl, rfl⟩ := hstands.unique hstands'
      obtain ⟨rfl, rfl⟩ := ih hrest
      exact ⟨rfl, rfl⟩

theorem paddrGuest2host_eq_some {gpa : UInt64} {len b : ℕ}
    (h : paddrGuest2host ram gpa len = some b) : b = gpa.toNat := by
  rw [paddrGuest2host, xhVmMapGpa, mapGpa] at h
  split_ifs at h
  all_goals
    have hb := Option.some.inj h
    omega

/-- With segments of at most half the address space the sums do not wrap. -/
theorem translates (hlow : ram.lowmem.toNat ≤ 2 ^ 63) (hhigh : ram.highmem.toNat ≤ 2 ^ 63) :
    Translates ram := by
  intro gpa len
  have hbase : highmemBase = 2 ^ 32 := rfl
  simp only [paddrGuest2host, xhVmMapGpa, mapGpa, InRam]
  split_ifs
  all_goals
    simp only [false_iff, not_not, true_iff]
    omega

/-- A walk over an indirect table follows the links of the guest. -/
theorem walkIndirect_linked {n : ℕ}
    (h : walkIndirect table n room i = .ok vds) : TableLinked table i vds := by
  induction room generalizing i vds with
  | zero =>
    rw [walkIndirect] at h
    split at h <;> cases h
  | succ room ih =>
    rw [walkIndirect] at h
    split_ifs at h with hind hlast
    · cases h
      exact .last hlast
    · cases hrest : walkIndirect table n room (table i).vdNext.toNat with
      | error e =>
        rw [hrest] at h
        cases h
      | ok rest =>
        rw [hrest] at h
        cases h
        exact .next hlast (ih hrest)

/-- What one turn of the outer loop of `vq_getchain` counts. -/
def walkTurn (vs : VirtioSoftc) (ram : GuestRam) (m : HostMem) (vdir : VirtioDesc) (room : ℕ) :
    Except WalkStop (List VirtioDesc) :=
  if vdir.vdFlags &&& vringDescFIndirect = 0 then .ok [vdir]
  else if vs.vcHvCaps &&& virtioRingFIndirectDesc = 0 then .error (.invalid .forbiddenIndirect)
  else if vdir.vdLen.toNat % 16 ≠ 0 ∨ vdir.vdLen.toNat / 16 = 0 then
    .error (.invalid .invalidIndirLen)
  else match paddrGuest2host ram vdir.vdAddr vdir.vdLen.toNat with
    | none => .error .segfault
    | some base => walkIndirect (indirectDesc m base) (vdir.vdLen.toNat / 16) room 0

theorem walkChain_succ (fuel room next : ℕ) : walkChain vs ram m vq (fuel + 1) room next =
    if room = 0 then .error (.invalid .descriptorLoop)
    else if vq.vqQsize.toNat ≤ next then .error (.invalid .descriptorOutOfRange)
    else match walkTurn vs ram m (vq.vqDesc next) room with
      | .error e => .error e
      | .ok vds =>
        if (vq.vqDesc next).vdFlags &&& vringDescFNext = 0 then .ok vds
        else (walkChain vs ram m vq fuel (room - vds.length) (vq.vqDesc next).vdNext.toNat).map
          (vds ++ ·) := rfl

theorem walkTurn_stands {vdir : VirtioDesc} (h : walkTurn vs ram m vdir room = .ok vds) :
    ∃ ts, Stands m vdir vds ts ∧ ∀ t ∈ ts, paddrGuest2host ram t.vdAddr t.vdLen.toNat ≠ none := by
  rw [walkTurn] at h
  split_ifs at h with hdirect
  · cases h
    exact ⟨[], .direct hdirect, by simp⟩
  · cases hbase : paddrGuest2host ram vdir.vdAddr vdir.vdLen.toNat with
    | none =>
      rw [hbase] at h
      cases h
    | some base =>
      rw [hbase] at h
      cases paddrGuest2host_eq_some hbase
      refine ⟨[vdir], .indirect hdirect (walkIndirect_linked h), fun t ht => ?_⟩
      rw [List.mem_singleton.mp ht, hbase]
      exact Option.some_ne_none _

/-- The whole walk follows the links of the guest, and the tables it reads could be translated. -/
theorem walkChain_linked {fuel : ℕ} (h : walkChain vs ram m vq fuel room i = .ok vds) :
    ∃ ts, Linked m vq i vds ts ∧ ∀ t ∈ ts, paddrGuest2host ram t.vdAddr t.vdLen.toNat ≠ none := by
  induction fuel generalizing room i vds with
  | zero => cases h
  | succ fuel ih =>
    rw [walkChain_succ] at h
    by_cases hroom : room = 0
    · rw [if_pos hroom] at h
      cases h
    by_cases hrange : vq.vqQsize.toNat ≤ i
    · rw [if_neg hroom, if_pos hrange] at h
      cases h
    rw [if_neg hroom, if_neg hrange] at h
    cases hturn : walkTurn vs ram m (vq.vqDesc i) room with
    | error e =>
      rw [hturn] at h
      cases h
    | ok vds₁ =>
      rw [hturn] at h
      dsimp only at h
      obtain ⟨ts₁, hstands, hram₁⟩ := walkTurn_stands hturn
      split_ifs at h with hlast
      · cases h
        exact ⟨ts₁, .last hstands hlast, hram₁⟩
      · cases hrest : walkChain vs ram m vq fuel (room - vds₁.length)
            (vq.vqDesc i).vdNext.toNat with
        | error e =>
          rw [hrest] at h
          cases h
        | ok vds₂ =>
          rw [hrest] at h
          cases h
          obtain ⟨ts₂, hlinked, hram₂⟩ := ih hrest
          refine ⟨ts₁ ++ ts₂, .next hstands hlast hlinked, fun t ht => ?_⟩
          exact (List.mem_append.mp ht).elim (hram₁ t) (hram₂ t)

/-- The descriptor that the next entry of the avail ring names. -/
def nextHead (vq : VqueueInfo) : UInt16 :=
  vq.vqAvail.vaRing (vq.vqLastAvail &&& (vq.vqQsize - 1)).toNat

theorem vqGetchain_linked (h : (vqGetchain vs ram m vq).1 = .descs head vds) :
    head = nextHead vq ∧ ∃ ts, Linked m vq head.toNat vds ts ∧
      ∀ t ∈ ts, paddrGuest2host ram t.vdAddr t.vdLen.toNat ≠ none := by
  rw [vqGetchain] at h
  dsimp only at h
  split_ifs at h
  split at h
  · cases h
  · rename_i hwalk
    cases h
    exact ⟨rfl, walkChain_linked hwalk⟩

theorem Stands.ne_nil (h : Stands m vd vds ts) : vds ≠ [] := by
  cases h with
  | direct hflag => exact List.cons_ne_nil _ _
  | indirect hflag htable =>
    cases htable with
    | last | next => exact List.cons_ne_nil _ _

/-- A chain has at least one real descriptor. -/
theorem vqGetchain_ne_nil (h : (vqGetchain vs ram m vq).1 = .descs head vds) : vds ≠ [] := by
  obtain ⟨-, ts, hlinked, -⟩ := vqGetchain_linked h
  cases hlinked with
  | last hstands hlast => exact hstands.ne_nil
  | next hstands hnext hrest =>
    intro hnil
    exact hstands.ne_nil (List.append_eq_nil_iff.mp hnil).1

/-- The entries of the caller's array of `nIov` iovecs that a chain fills. -/
def recorded (ram : GuestRam) (nIov : ℕ) (vds : List VirtioDesc) : List Iovec :=
  (vds.take nIov).map (vqRecord ram)

theorem vqRecord_inRam_iff (ht : Translates ram) (vd : VirtioDesc) :
    (vqRecord ram vd).InRam ram ↔ vd.InRam ram := by
  rw [vqRecord]
  constructor
  · rintro ⟨gpa, hbase, hin⟩
    cases paddrGuest2host_eq_some hbase
    exact hin
  · intro hin
    cases hbase : paddrGuest2host ram vd.vdAddr vd.vdLen.toNat with
    | none => exact absurd hin ((ht _ _).mp hbase)
    | some b =>
      cases paddrGuest2host_eq_some hbase
      exact ⟨_, rfl, hin⟩

/-- A chain that is returned gives the device guest RAM alone if and only if the guest links no
descriptor outside RAM into the part that the caller's array takes. -/
theorem recorded_in_ram_iff {head : UInt16} (ht : Translates ram) (nIov : ℕ)
    (h : (vqGetchain vs ram m vq).1 = .descs head vds) :
    ∃ ts, Linked m vq head.toNat vds ts ∧
      (((∀ iov ∈ recorded ram nIov vds, iov.InRam ram) ∧ ∀ t ∈ ts, t.InRam ram) ↔
        ∀ vds' ts', Linked m vq (nextHead vq).toNat vds' ts' →
          ∀ vd ∈ vds'.take nIov, vd.InRam ram) := by
  obtain ⟨rfl, ts, hlinked, hram⟩ := vqGetchain_linked h
  have htables : ∀ t ∈ ts, t.InRam ram := by
    intro t hmem
    by_contra hout
    exact hram t hmem ((ht _ _).mpr hout)
  refine ⟨ts, hlinked, ?_⟩
  constructor
  · rintro ⟨hiov, -⟩ vds' ts' hlinked' vd hvd
    obtain ⟨rfl, -⟩ := hlinked.unique hlinked'
    exact (vqRecord_inRam_iff ht vd).mp (hiov _ (List.mem_map_of_mem hvd))
  · intro hguest
    refine ⟨fun iov hiov => ?_, htables⟩
    obtain ⟨vd, hvd, rfl⟩ := List.mem_map.mp hiov
    exact (vqRecord_inRam_iff ht vd).mpr (hguest vds ts hlinked vd hvd)

/-- A queue of one entry with the descriptor `vd` available. -/
def oneDesc (vd : VirtioDesc) : VqueueInfo where
  vqQsize := 1
  vqFlags := vqAlloc
  vqLastAvail := 0
  vqSaveUsed := 0
  vqMsixIdx := 0
  vqDesc := fun _ => vd
  vqAvail := ⟨0, 1, fun _ => 0⟩
  vqUsed := ⟨0, 0, fun _ => ⟨0, 0⟩⟩

/-- A page that is linked to an indirect table of two more pages. -/
theorem recorded_in_ram_page :
    let vs : VirtioSoftc := ⟨virtioRingFIndirectDesc, 0, 0, false, []⟩
    let ram : GuestRam := ⟨0x100000, 0⟩
    let page : VirtioDesc := ⟨0x1000, 0x1000, vringDescFNext, 1⟩
    let table : VirtioDesc := ⟨0x2000, 0x20, vringDescFIndirect, 0⟩
    let mem : HostMem := fun a =>
      if a = 0x2001 then 0x30 else if a = 0x2011 then 0x40
      else if a = 0x2009 ∨ a = 0x2019 then 0x10 else if a = 0x200c ∨ a = 0x200e then 1 else 0
    let vq := { oneDesc page with vqQsize := 2, vqDesc := fun i => if i = 0 then page else table }
    let vds : List VirtioDesc := [page, ⟨0x3000, 0x1000, vringDescFNext, 1⟩, ⟨0x4000, 0x1000, 0, 0⟩]
    (vqGetchain vs ram mem vq).1 = .descs 0 vds ∧ ∀ iov ∈ recorded ram 3 vds, iov.InRam ram := by
  intro vs ram page table mem vq vds
  have h : (vqGetchain vs ram mem vq).1 = .descs 0 vds := by decide +kernel
  obtain ⟨ts, hlinked, hiff⟩ := recorded_in_ram_iff (translates (by decide) (by decide)) 3 h
  refine ⟨h, (hiff.mpr ?_).1⟩
  intro vds' ts' hlinked' vd' hvd'
  obtain ⟨rfl, -⟩ := hlinked.unique hlinked'
  have hlow : ∀ vd ∈ vds, vd.vdAddr.toNat < 0x100000 ∧
      vd.vdAddr.toNat + vd.vdLen.toNat ≤ 0x100000 := by decide
  exact .inl (hlow vd' (List.mem_of_mem_take hvd'))

/-- A descriptor outside guest RAM is counted and recorded, with a null base. -/
theorem null_iovec_recorded :
    let vs : VirtioSoftc := ⟨0, 0, 0, false, []⟩
    let ram : GuestRam := ⟨0x100000, 0⟩
    let vd : VirtioDesc := ⟨0xfffffffff000, 0x1000, 0, 0⟩
    Translates ram ∧ (vqGetchain vs ram (fun _ => 0) (oneDesc vd)).1 = .descs 0 [vd] ∧
      recorded ram 1 [vd] = [⟨none, 0x1000⟩] ∧ ¬ ∀ iov ∈ recorded ram 1 [vd], iov.InRam ram := by
  intro vs ram vd
  have hnull : recorded ram 1 [vd] = [⟨none, 0x1000⟩] := rfl
  refine ⟨translates (by decide) (by decide), by decide +kernel, hnull, ?_⟩
  intro hall
  obtain ⟨gpa, hbase, -⟩ := hall _ (List.mem_singleton_self _)
  cases hbase

end HyperCog.Virtio
