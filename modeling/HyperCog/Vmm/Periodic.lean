import HyperCog.Vmm.Hpet

/-! The schedule of a periodic timer. -/
namespace HyperCog.Hpet

open Machine Function

variable {v v' : Vhpet} {n : TimerId} {t : Timer} {counter : BitVec 32}

/-- The timer is programmed to `t`: the guest changes its comparator or its rate while the counter runs, or it starts
the counter. -/
inductive Programs (n : TimerId) (v v' : Vhpet) : BitVec 32 → Timer → Prop
  | comparator (data mask : BitVec 64) {counter : BitVec 32} {t : Timer}
      (written : (v.timer n).comparatorWritten data mask = .ok t)
      (changed : t.compval ≠ (v.timer n).compval ∨ t.comprate ≠ (v.timer n).comprate)
      (running : v.counter true = .ok counter) (write : v.comparatorWrite n data mask = .ok v') :
      Programs n v v' counter t
  | start {data mask : BitVec 64} (stopped : v.counterEnabled = false)
      (enabled : { v with config := updateRegister v.config data mask &&& ~~~hpetCnfLegRt }.counterEnabled = true)
      (write : v.configWrite data mask = .ok v') : Programs n v v' v.countbase (v.timer n)

/-- The comparator moves on by as few periods as put it ahead of the counter. -/
def NextAhead (n : TimerId) (v v' : Vhpet) : Prop :=
  let c := (v.timer n).compval
  let p := (v.timer n).comprate.toNat
  ∃ counter k, v.counter true = .ok counter ∧ IsLeast {k | (counter - c).toNat < k * p} k ∧
    (v'.timer n).compval = c + BitVec.ofNat 32 (k * p)

theorem counterEnabled_of_counter (h : v.counter true = .ok counter) : v.counterEnabled = true := by
  by_contra hoff
  simp [Vhpet.counter, hoff] at h

theorem startCounting_timer (n : TimerId) (h : v.startCounting = .ok v') :
    v'.timer n = (v.timer n).armed v.countbase v.now := by
  -- the loop meets each timer once
  have hloop := foldlM_ok (b := { v with countbaseSbt := v.now })
    (f := fun w i => w.startTimer i w.countbase w.countbaseSbt) (P := fun is w => is.Nodup ∧
      w.countbase = v.countbase ∧ w.countbaseSbt = v.now ∧
      w.timer n = if n ∈ is then v.timer n else (v.timer n).armed v.countbase v.now) ?_
    (List.finRange vhpetNumTimers) ⟨List.nodup_finRange _, rfl, rfl, by simp⟩
  · obtain ⟨w, hw, -, -, -, ht⟩ := hloop
    cases hw.symm.trans h
    simpa using ht
  · rintro i is w ⟨hnodup, hbase, hsbt, ht⟩
    refine ⟨_, startTimer_eq i _ _, hnodup.of_cons, hbase, hsbt, ?_⟩
    by_cases hi : n = i
    · subst hi
      simp [Vhpet.setTimer, ht, hbase, hsbt, hnodup.notMem]
    · simp [Vhpet.setTimer, ht, hi]

theorem Programs.timer_eq (h : Programs n v v' counter t) : v'.timer n = t.armed counter v.now := by
  cases h with
  | comparator data mask written changed running write =>
    have hcounter : (v.setTimer n t).counter true = .ok counter := running
    have hon : (v.setTimer n t).counterEnabled = true := counterEnabled_of_counter running
    simp only [Vhpet.comparatorWrite, written, bind, Except.bind, if_pos (And.intro changed hon), hcounter,
      startTimer_eq] at write
    cases write
    simp [Vhpet.setTimer]
  | start stopped enabled write =>
    simp only [Vhpet.configWrite, stopped, Vhpet.counter, bind, Except.bind, Bool.false_eq_true, if_false] at write
    split_ifs at write with hchanged
    · rw [startCounting_timer n write]
    · rw [Vhpet.counterEnabled, and_eq_of_xor (not_not.mp hchanged)] at enabled
      cases stopped.symm.trans enabled

theorem timerInterrupt_timer (h : v.timerInterrupt n = .ok v') : v'.timer = v.timer := by
  unfold Vhpet.timerInterrupt at h
  dsimp only at h
  split_ifs at h
  all_goals try cases h; rfl
  obtain ⟨edge, -, h⟩ := bind_eq_ok.mp h
  split_ifs at h <;> cases h <;> rfl

theorem armed_compval (hp : t.comprate ≠ 0) (now : ℕ) : (t.armed counter now).compval = t.compval + BitVec.ofNat 32
    (((counter - t.compval).toNat / t.comprate.toNat + 1) * t.comprate.toNat) := by
  simp only [Timer.armed, if_neg hp]
  congr 1
  apply BitVec.eq_of_toNat_eq
  simp [BitVec.toNat_mul, BitVec.toNat_add, BitVec.toNat_udiv]

/-- The rounding goes once around the range of the counter. -/
theorem dvd_rounded_iff {m p : ℕ} (hpos : 0 < p) (hp : p < 2 ^ 32) (hm : m < 2 ^ 32) :
    2 ^ 32 ∣ (m / p + 1) * p ↔ 2 ^ 32 ≤ m + p ∧ p ∣ 2 ^ 32 := by
  have hle := Nat.div_mul_le_self m p
  constructor
  · rintro ⟨j, hj⟩
    have hone : j = 1 := by
      have hlt := Nat.lt_div_mul_add hpos (a := m)
      rw [Nat.add_mul, Nat.one_mul] at hj
      omega
    rw [hone, Nat.mul_one] at hj
    exact ⟨by rw [← hj, Nat.add_mul, Nat.one_mul]; omega, _, hj.symm.trans (Nat.mul_comm _ _)⟩
  · rintro ⟨hge, q, hq⟩
    have hdiv : (m + p) / p = q := Nat.div_eq_of_lt_le (by rw [Nat.mul_comm, ← hq]; exact hge)
      (by rw [Nat.succ_mul, Nat.mul_comm, ← hq]; omega)
    rw [← Nat.add_div_right m hpos, hdiv, Nat.mul_comm, ← hq]

/-- Armed for the comparator that was written. -/
theorem armed_calloutSbt_iff (hp : t.comprate ≠ 0) (now : ℕ) :
    (t.armed counter now).calloutSbt = now + (t.compval - counter).toNat * freqSbt ↔
      0 < (t.compval - counter).toNat ∧ (t.compval - counter).toNat ≤ t.comprate.toNat ∧
        t.comprate.toNat ∣ 2 ^ 32 := by
  have hpos : 0 < t.comprate.toNat := Nat.pos_of_ne_zero (BitVec.toNat_ne.mp hp)
  have hsbt : (t.armed counter now).calloutSbt = now + ((t.armed counter now).compval - counter).toNat * freqSbt := rfl
  have hahead : 0 < (t.compval - counter).toNat ∧ (t.compval - counter).toNat ≤ t.comprate.toNat ↔
      2 ^ 32 ≤ (counter - t.compval).toNat + t.comprate.toNat := by bv_omega
  rw [hsbt, Nat.add_left_cancel_iff, Nat.mul_left_inj (by decide), BitVec.toNat_inj, armed_compval hp, sub_left_inj,
    add_eq_left, ← BitVec.toNat_inj, BitVec.toNat_ofNat, ← and_assoc, hahead,
    ← dvd_rounded_iff hpos t.comprate.isLt (counter - t.compval).isLt, Nat.dvd_iff_mod_eq_zero]
  rfl

theorem handler_next (hdue : (v.timer n).pending = false) (hactive : (v.timer n).active = true)
    (hp : (v.timer n).comprate ≠ 0) (h : v.handler n = .ok v') : NextAhead n v v' := by
  have hpos : 0 < (v.timer n).comprate.toNat := Nat.pos_of_ne_zero (BitVec.toNat_ne.mp hp)
  simp only [Vhpet.handler, hdue, hactive, Bool.not_true, Bool.false_eq_true, if_false] at h
  split_ifs at h
  obtain ⟨counter, hcounter, h⟩ := bind_eq_ok.mp h
  rw [startTimer_eq] at h
  obtain ⟨w, hw, h⟩ := bind_eq_ok.mp h
  cases hw
  refine ⟨counter, _, hcounter, ⟨(Nat.div_lt_iff_lt_mul hpos).mp (Nat.lt_succ_self _),
    fun k hk => (Nat.div_lt_iff_lt_mul hpos).mpr hk⟩, ?_⟩
  rw [timerInterrupt_timer h]
  simp only [Vhpet.setTimer, update_self]
  exact armed_compval hp _

/-- The first interrupt of a timer that is programmed comes when the counter gets to the comparator, and each later one
a whole number of periods after it, exactly if the period divides the range of the counter and the comparator is at
most one period ahead. -/
theorem schedule_kept_iff (h : Programs n v v' counter t) (hp : t.comprate ≠ 0) :
    (v'.timer n).calloutSbt = v.now + (t.compval - counter).toNat * freqSbt ∧
        (∀ w w', (w.timer n).pending = false → (w.timer n).active = true → (w.timer n).comprate ≠ 0 →
          w.handler n = .ok w' → NextAhead n w w') ↔
      0 < (t.compval - counter).toNat ∧ (t.compval - counter).toNat ≤ t.comprate.toNat ∧
        t.comprate.toNat ∣ 2 ^ 32 := by
  rw [h.timer_eq, armed_calloutSbt_iff hp, and_iff_left]
  exact fun w w' hdue hactive hp h => handler_next hdue hactive hp h

/-- The counter runs, and the next value for a periodic timer sets its comparator as well. -/
def running : Vhpet :=
  { init 24 0 with
    config := hpetCnfEnable
    timer := fun n =>
      let t := (init 24 0).timer n
      { t with capConfig := t.capConfig ||| hpetTcnfType ||| hpetTcnfValSet } }

theorem schedule_kept_4096 : ∃ v', (v'.timer 0).calloutSbt = 4096 * freqSbt ∧
    running.comparatorWrite 0 4096 0xffffffff = .ok v' := by
  have h : Programs 0 running _ 0 _ := .comparator 4096 0xffffffff rfl (.inl (by decide)) rfl rfl
  exact ⟨_, ((schedule_kept_iff h (by decide)).mpr (by decide)).1, rfl⟩

/-- A period of 100 ticks: the first interrupt comes after 4. -/
theorem armed_early : running.counter true = .ok 0 ∧ (running.comparatorWrite 0 100 0xffffffff).map
    (fun v => ((v.timer 0).comprate, (v.timer 0).calloutSbt)) = .ok (100, 4 * freqSbt) := by
  constructor <;> rfl

end HyperCog.Hpet
