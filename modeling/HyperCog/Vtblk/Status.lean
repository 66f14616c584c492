import HyperCog.Blockif.Store
import HyperCog.Vtblk.Device

/-! When the status byte of a read or a write vouches for every byte of its segments. -/
namespace HyperCog.Vtblk

open Machine Virtio Blockif List

/-- The call that moves `iov` at `offset` on the handle of the context. -/
def transferCall (bc : BlockifCtxt) (op : Blockop) (offset : Int64) (iov : List Iovec) : StoreCall :=
  if op = .write then
    if 0 ≤ bc.bcFd then .writev offset iov else .miragePwritev offset iov
  else if 0 ≤ bc.bcFd then .readv offset iov else .miragePreadv offset iov

/-- How the bounce buffer cuts a residue up, as offsets into the request and lengths. -/
def chunks (maxphys : ℕ) : ℕ → ℕ → ℕ → List (ℕ × ℕ)
  | 0, _, _ => []
  | fuel + 1, off, resid =>
    if resid = 0 then []
    else
      let len := min resid maxphys
      (off, len) :: chunks maxphys fuel (off + len) (resid - len)

/-- The calls of a buffered transfer of what is left of a request. -/
def chunkCalls (b : Build) (bc : BlockifCtxt) (op : Blockop) (br : BlockifReq)
    (fuel off : ℕ) : List StoreCall :=
  (chunks b.maxphys fuel off br.brResid.toNat).map fun c =>
    transferCall bc op (br.brOffset + .ofNat c.1) (bounce c.2)

/-- All the transfers a read or a write needs. -/
def transfers (b : Build) (bc : BlockifCtxt) (op : Blockop) (br : BlockifReq) : List StoreCall :=
  if buffered bc br then chunkCalls b bc op br br.brResid.toNat 0
  else [transferCall bc op br.brOffset br.brIov]

/-- Bytes moved by the calls of a log. -/
def moved : List (StoreCall × StoreResult) → ℕ
  | [] => 0
  | (_, .count n) :: log => n + moved log
  | (_, .fail _) :: log => moved log

/-- Either a transfer fails or none is cut short; a forbidden write makes none. -/
def NoShortCount (b : Build) (bc : BlockifCtxt) (h : Host) (op : Blockop) (br : BlockifReq) : Prop :=
  (op = .write ∧ bc.bcRdonly = true) ∨ (∃ c ∈ transfers b bc op br, ∃ e, h.answer c = .fail e) ∨
    ∀ c ∈ transfers b bc op br, h.answer c = .count c.size

/-- Making calls one after another up to the first that fails. -/
def play (h : Host) : List StoreCall → Store → Option Errno × Store
  | [], s => (none, s)
  | c :: cs, s =>
    match h.answer c with
    | .fail e => (some e, ⟨s.log ++ [(c, .fail e)], some e⟩)
    | .count n => play h cs ⟨s.log ++ [(c, .count n)], s.errno⟩

variable {h : Host} {c : StoreCall} {cs : List StoreCall} {s s' st : Store} {b : Build} {br br' : BlockifReq}
  {err e : Option Errno} {op : Blockop} {bc : BlockifCtxt} {offset : Int64} {iov : List Iovec} {r : Option ℕ}
  {voff n fuel off : ℕ} {sc sc₁ sc₂ sc₃ : PciVtblkSoftc} {idx : UInt16}

@[simp] theorem moved_append (l₁ l₂ : List (StoreCall × StoreResult)) :
    moved (l₁ ++ l₂) = moved l₁ + moved l₂ := by
  induction l₁ with
  | nil => simp [moved]
  | cons p l ih =>
    obtain ⟨c, r⟩ := p
    cases r with
    | fail e => simp [moved, ih]
    | count n => simp [moved, ih, Nat.add_assoc]

/-- The calls end without an error exactly when each returns a count. -/
theorem play_none_iff : (play h cs s).1 = none ↔ ∀ c ∈ cs, ∃ n, h.answer c = .count n := by
  induction cs generalizing s with
  | nil => simp [play]
  | cons c cs ih =>
    cases hc : h.answer c with
    | fail e => simp [play, hc]
    | count n => simp [play, hc, ih]

/-- Without an error, everything was moved exactly when no count was short. -/
theorem play_moved (hnone : (play h cs s).1 = none) :
    moved (play h cs s).2.log ≤ moved s.log + (cs.map StoreCall.size).sum ∧
      (moved (play h cs s).2.log = moved s.log + (cs.map StoreCall.size).sum ↔
        ∀ c ∈ cs, h.answer c = .count c.size) := by
  induction cs generalizing s with
  | nil => simp [play]
  | cons c cs ih =>
    cases hc : h.answer c with
    | fail e => simp [play, hc] at hnone
    | count n =>
      have hle := h.count_le c n hc
      simp only [play, hc] at hnone ⊢
      obtain ⟨hbound, hiff⟩ := ih hnone
      simp only [moved_append, moved, Nat.add_zero] at hbound hiff
      simp only [map_cons, sum_cons, forall_mem_cons, hc]
      refine ⟨by omega, ?_⟩
      constructor
      · intro heq
        have hn : n = c.size := by omega
        exact ⟨by rw [hn], hiff.mp (by omega)⟩
      · rintro ⟨hn, hall⟩
        cases hn
        have := hiff.mpr hall
        omega

/-- On either handle a call that returns has been issued. -/
theorem handle_issue {fd mbh : Prop} [Decidable fd] [Decidable mbh] {c' : StoreCall}
    (hr : (if fd then seekThen h offset c else if mbh then issue h c' else fault .noHandle) s = .ok (r, s')) :
    issue h (if fd then c else c') s = .ok (r, s') := by
  unfold seekThen at hr
  by_cases hfd : fd
  · rw [if_pos hfd] at hr ⊢
    split at hr
    · exact hr
    · cases hr
  · rw [if_neg hfd] at hr ⊢
    split at hr
    · exact hr
    · cases hr

theorem blockPreadv_issue (hr : blockPreadv b bc h iov offset s = .ok (r, s')) :
    issue h (transferCall bc .read offset iov) s = .ok (r, s') := by
  rw [transferCall, if_neg (by decide)]
  exact handle_issue hr

theorem blockPwritev_issue (hr : blockPwritev b bc h iov offset s = .ok (r, s')) :
    issue h (transferCall bc .write offset iov) s = .ok (r, s') := by
  rw [transferCall, if_pos rfl]
  exact handle_issue hr

/-- A call either fails with its `errno`, or returns its count and leaves `errno` alone. -/
theorem issue_cases (hr : issue h c s = .ok (r, s')) :
    (∃ e, h.answer c = .fail e ∧ r = none ∧ s' = ⟨s.log ++ [(c, .fail e)], some e⟩) ∨
      ∃ n, h.answer c = .count n ∧ r = some n ∧ s' = ⟨s.log ++ [(c, .count n)], s.errno⟩ := by
  unfold issue at hr
  split at hr
  · rename_i e he
    cases hr
    exact .inl ⟨e, he, rfl, rfl⟩
  · rename_i n hn
    cases hr
    exact .inr ⟨n, hn, rfl, rfl⟩

theorem copyChunkM_store {p : List Iovec × ℕ} (hr : copyChunkM iov voff n s = .ok (p, s')) :
    s' = s := by
  unfold copyChunkM at hr
  split at hr
  · cases hr
  · cases hr
    rfl

/-- One more chunk of a residue that is not used up. -/
theorem chunkCalls_succ (hpos : ¬ br.brResid ≤ 0) (fuel off : ℕ) :
    chunkCalls b bc op br (fuel + 1) off =
      transferCall bc op (br.brOffset + .ofNat off) (bounce (min br.brResid.toNat b.maxphys)) ::
        chunkCalls b bc op { br with brResid := br.brResid - (min br.brResid.toNat b.maxphys : ℕ) }
          fuel (off + min br.brResid.toNat b.maxphys) := by
  have hne : br.brResid.toNat ≠ 0 := by omega
  have hrest : (br.brResid - min br.brResid.toNat b.maxphys).toNat =
      br.brResid.toNat - min br.brResid.toNat b.maxphys := by omega
  simp only [chunkCalls, hrest, chunks, hne, if_false, map_cons]

/-- What a loop over chunks does to the store and the residue. -/
structure Played (h : Host) (cs : List StoreCall) (s : Store) (err : Option Errno)
    (br' : BlockifReq) (s' : Store) : Prop where
  play : play h cs s = (err, s')
  resid : err = none → br'.brResid = 0

/-- A chunk that was moved, followed by the rest. -/
theorem played_count (hn : h.answer c = .count n)
    (hp : Played h cs ⟨s.log ++ [(c, .count n)], s.errno⟩ err br' s') :
    Played h (c :: cs) s err br' s' :=
  ⟨by simpa [Vtblk.play, hn] using hp.play, hp.resid⟩

/-- A residue that is used up needs no call. -/
theorem played_done (hresid : br.brResid = 0) (fuel off : ℕ) :
    Played h (chunkCalls b bc op br fuel off) s none br s := by
  refine ⟨?_, fun _ => hresid⟩
  cases fuel with
  | zero => simp [chunkCalls, chunks, Vtblk.play]
  | succ fuel => simp [chunkCalls, chunks, hresid, Vtblk.play]

/-- What one turn of a loop over chunks does: its call fails and ends the loop, or the loop goes on with
the rest. -/
def Turn (b : Build) (bc : BlockifCtxt) (h : Host) (op : Blockop)
    (loop : List Iovec → ℕ → ℕ → BlockifReq → StoreM (Option Errno × BlockifReq)) (off : ℕ)
    (br : BlockifReq) (s : Store) (r : (Option Errno × BlockifReq) × Store) : Prop :=
  let len := min br.brResid.toNat b.maxphys
  let c := transferCall bc op (br.brOffset + .ofNat off) (bounce len)
  (∃ e, h.answer c = .fail e ∧ r = ((some e, br), ⟨s.log ++ [(c, .fail e)], some e⟩)) ∨
    ∃ n iov voff, h.answer c = .count n ∧
      loop iov voff (off + len) { br with brResid := br.brResid - len }
        ⟨s.log ++ [(c, .count n)], s.errno⟩ = .ok r

theorem readLoop_turn {r : (Option Errno × BlockifReq) × Store} (hpos : ¬ br.brResid ≤ 0)
    (hr : readLoop b bc h (fuel + 1) iov voff off br s = .ok r) :
    Turn b bc h .read (readLoop b bc h fuel) off br s r := by
  rw [readLoop, if_neg hpos] at hr
  obtain ⟨x, u, hcall, hr⟩ := bind_run_eq_ok.mp hr
  rcases issue_cases (blockPreadv_issue hcall) with ⟨e, he, rfl, rfl⟩ | ⟨n, hn, rfl, rfl⟩
  · exact .inl ⟨e, he, (Except.ok.inj hr).symm⟩
  · obtain ⟨p, _, hcopy, hr⟩ := bind_run_eq_ok.mp hr
    cases copyChunkM_store hcopy
    exact .inr ⟨n, p.1, p.2, hn, hr⟩

theorem writeLoop_turn {r : (Option Errno × BlockifReq) × Store} (hpos : ¬ br.brResid ≤ 0)
    (hr : writeLoop b bc h (fuel + 1) iov voff off br s = .ok r) :
    Turn b bc h .write (writeLoop b bc h fuel) off br s r := by
  rw [writeLoop, if_neg hpos] at hr
  obtain ⟨p, _, hcopy, hr⟩ := bind_run_eq_ok.mp hr
  cases copyChunkM_store hcopy
  obtain ⟨x, u, hcall, hr⟩ := bind_run_eq_ok.mp hr
  rcases issue_cases (blockPwritev_issue hcall) with ⟨e, he, rfl, rfl⟩ | ⟨n, hn, rfl, rfl⟩
  · exact .inl ⟨e, he, (Except.ok.inj hr).symm⟩
  · exact .inr ⟨n, p.1, p.2, hn, hr⟩

/-- A loop that is made of such turns makes the calls of the chunks. -/
theorem loop_played {loop : ℕ → List Iovec → ℕ → ℕ → BlockifReq → StoreM (Option Errno × BlockifReq)}
    (hzero : ∀ iov voff off br, loop 0 iov voff off br = pure (none, br))
    (hdone : ∀ fuel iov voff off br, br.brResid ≤ 0 → loop (fuel + 1) iov voff off br = pure (none, br))
    (hturn : ∀ fuel iov voff off br s r, ¬ br.brResid ≤ 0 → loop (fuel + 1) iov voff off br s = .ok r →
      Turn b bc h op (loop fuel) off br s r)
    (hnn : 0 ≤ br.brResid) (hf : br.brResid.toNat ≤ fuel)
    (hr : loop fuel iov voff off br s = .ok ((err, br'), s')) :
    Played h (chunkCalls b bc op br fuel off) s err br' s' := by
  induction fuel generalizing iov voff off br s with
  | zero =>
    rw [hzero] at hr
    cases hr
    exact played_done (by omega) _ _
  | succ fuel ih =>
    by_cases hpos : br.brResid ≤ 0
    · rw [hdone _ _ _ _ _ hpos] at hr
      cases hr
      exact played_done (by omega) _ _
    · have hmax := b.maxphys_pos
      rw [chunkCalls_succ hpos]
      rcases hturn _ _ _ _ _ _ _ hpos hr with ⟨e, he, heq⟩ | ⟨n, iov', voff', hn, hr'⟩
      · cases heq
        exact ⟨by simp [Vtblk.play, he], by simp⟩
      · refine played_count hn (ih ?_ ?_ hr')
        all_goals
          dsimp only
          omega

/-- An unbuffered transfer is its one call; its count comes off the residue. -/
theorem transfer_played {call : StoreM (Option ℕ)}
    (hcall : ∀ {r s s'}, call s = .ok (r, s') → issue h c s = .ok (r, s'))
    (hr : transfer call br ⟨[], e⟩ = .ok ((err, br'), s')) :
    play h [c] ⟨[], e⟩ = (err, s') ∧ (err = none → br'.brResid = br.brResid - moved s'.log) := by
  obtain ⟨x, u, hx, hr⟩ := bind_run_eq_ok.mp hr
  rcases issue_cases (hcall hx) with ⟨e', he, rfl, rfl⟩ | ⟨n, hn, rfl, rfl⟩
  · obtain ⟨_, _, hget, hr⟩ := bind_run_eq_ok.mp hr
    obtain ⟨hp, rfl⟩ := pure_run_eq_ok.mp hr
    cases hget
    cases hp
    exact ⟨by simp [play, he], by simp⟩
  · obtain ⟨hp, rfl⟩ := pure_run_eq_ok.mp hr
    cases hp
    exact ⟨by simp [play, hn], fun _ => by simp [moved]⟩

/-- Without an error the residue is zero, or what the one call left of it. -/
theorem blockifProc_played (hop : op = .read ∨ op = .write)
    (hro : ¬ (op = .write ∧ bc.bcRdonly = true)) (hresid : br.brResid = iovecLen br.brIov)
    (hr : blockifProc b bc h op br ⟨[], e⟩ = .ok ((err, br'), s')) :
    play h (transfers b bc op br) ⟨[], e⟩ = (err, s') ∧
      (err = none → br'.brResid = 0 ∨ br'.brResid = br.brResid - moved s'.log) := by
  have hnn : 0 ≤ br.brResid := by omega
  unfold transfers
  cases hb : buffered bc br with
  | true =>
    rcases hop with rfl | rfl
    · have hp := loop_played (fun _ _ _ _ => rfl) (fun _ _ _ _ _ h => if_pos h)
        (fun _ _ _ _ _ _ _ => readLoop_turn) hnn le_rfl (by simpa [blockifProc, hb] using hr)
      exact ⟨hp.play, fun hnone => .inl (hp.resid hnone)⟩
    · have hrd : bc.bcRdonly = false := by simpa using hro
      have hp := loop_played (fun _ _ _ _ => rfl) (fun _ _ _ _ _ h => if_pos h)
        (fun _ _ _ _ _ _ _ => writeLoop_turn) hnn le_rfl (by simpa [blockifProc, hb, hrd] using hr)
      exact ⟨hp.play, fun hnone => .inl (hp.resid hnone)⟩
  | false =>
    rcases hop with rfl | rfl
    · obtain ⟨hp, hres⟩ := transfer_played blockPreadv_issue (by simpa [blockifProc, hb] using hr)
      exact ⟨hp, fun hnone => .inr (hres hnone)⟩
    · have hrd : bc.bcRdonly = false := by simpa using hro
      obtain ⟨hp, hres⟩ :=
        transfer_played blockPwritev_issue (by simpa [blockifProc, hb, hrd] using hr)
      exact ⟨hp, fun hnone => .inr (hres hnone)⟩

@[simp] theorem transferCall_size : (transferCall bc op offset iov).size = iovecLen iov := by
  unfold transferCall
  split
  all_goals split <;> rfl

/-- The chunks of a residue add up to it. -/
theorem chunks_sum {maxphys resid : ℕ} (hm : 0 < maxphys) (hf : resid ≤ fuel) (off : ℕ) :
    ((chunks maxphys fuel off resid).map Prod.snd).sum = resid := by
  induction fuel generalizing off resid with
  | zero => simp [chunks, Nat.le_zero.mp hf]
  | succ fuel ih =>
    unfold chunks
    split
    · rename_i h0
      simp [h0]
    · have hrest := ih (by omega : resid - min resid maxphys ≤ fuel) (off + min resid maxphys)
      simp only [map_cons, sum_cons, hrest]
      omega

theorem transfers_size (hresid : br.brResid = iovecLen br.brIov) :
    ((transfers b bc op br).map StoreCall.size).sum = iovecLen br.brIov := by
  unfold transfers
  split
  · have hsum := chunks_sum b.maxphys_pos (le_refl br.brResid.toNat) 0
    have hmap : (chunkCalls b bc op br br.brResid.toNat 0).map StoreCall.size =
        (chunks b.maxphys br.brResid.toNat 0 br.brResid.toNat).map Prod.snd := by
      rw [chunkCalls, map_map]
      apply map_congr_left
      intro c _
      simp [bounce]
    rw [hmap]
    omega
  · simp

/-- A read or write that ends without an error moved every byte, and says so in its residue,
unless a count was short. -/
theorem proc_whole_iff (hop : op = .read ∨ op = .write) (hresid : br.brResid = iovecLen br.brIov)
    (hr : blockifProc b bc h op br ⟨[], e⟩ = .ok ((err, br'), s')) :
    (err = none → br'.brResid = 0 ∧ moved s'.log = iovecLen br.brIov) ↔ NoShortCount b bc h op br := by
  by_cases hro : op = .write ∧ bc.bcRdonly = true
  · obtain ⟨rfl, hrd⟩ := hro
    simp only [blockifProc, hrd, if_true] at hr
    obtain ⟨hp, rfl⟩ := pure_run_eq_ok.mp hr
    cases hp
    exact iff_of_true (by simp) (.inl ⟨rfl, hrd⟩)
  obtain ⟨hplay, hres⟩ := blockifProc_played hop hro hresid hr
  cases err with
  | some e' =>
    -- an error reached the callback, so some transfer failed
    refine iff_of_true (by simp) (.inr (.inl ?_))
    by_contra hno
    have hnone : (play h (transfers b bc op br) ⟨[], e⟩).1 = none := by
      rw [play_none_iff]
      intro c hc
      cases hans : h.answer c with
      | fail e₁ => exact absurd ⟨c, hc, e₁, hans⟩ hno
      | count n => exact ⟨n, rfl⟩
    simp [hplay] at hnone
  | none =>
    have hnone : (play h (transfers b bc op br) ⟨[], e⟩).1 = none := by rw [hplay]
    obtain ⟨hle, hiff⟩ := play_moved hnone
    rw [hplay, transfers_size hresid] at hle hiff
    simp only [moved, Nat.zero_add] at hle hiff
    constructor
    · intro hall
      exact .inr (.inr (hiff.mp (hall rfl).2))
    · rintro (hbad | ⟨c, hc, e₁, hfail⟩ | hfull) _
      · exact absurd hbad hro
      · obtain ⟨n, hn⟩ := play_none_iff.mp hnone c hc
        rw [hfail] at hn
        cases hn
      · have hmoved := hiff.mpr hfull
        refine ⟨?_, hmoved⟩
        rcases hres rfl with h0 | hsub
        · exact h0
        · omega

theorem vtblkStatus_ok_iff : vtblkStatus err = vtblkSOk ↔ err = none := by
  cases err with
  | none => simp [vtblkStatus]
  | some e => cases e <;> simp [vtblkStatus] <;> decide

/-- A completed request has its status where the chain asked for it. -/
theorem done_status (hd : pciVtblkDoneLocked sc idx err = .ok sc₁) :
    ∃ a, (sc.vbscIos idx).ioStatus = some a ∧ sc₁.mem a = vtblkStatus err := by
  unfold pciVtblkDoneLocked at hd
  split at hd
  · cases hd
  · rename_i a ha
    cases hd
    exact ⟨a, ha, by simp [storeBytes]⟩

/-- A transfer is handed over with the sum of its segments as the residue. -/
theorem proc_resid (hproc : pciVtblkProc sc = .ok (sc₁, some (op, idx)))
    (hop : op = .read ∨ op = .write) :
    (sc₁.vbscIos idx).ioReq.brResid = iovecLen (sc₁.vbscIos idx).ioReq.brIov := by
  obtain ⟨c, _, -, rfl, hd⟩ := pciVtblkProc_some hproc
  cases hd with
  | read | write => simp [VtblkChain.request]
  | delete | flush => simp at hop

/-- The status byte of a read or a write vouches for a complete transfer exactly when the
host cuts no transfer short, or one of them fails. -/
theorem status_ok_whole (hproc : pciVtblkProc sc = .ok (sc₁, some (op, idx)))
    (hop : op = .read ∨ op = .write)
    (hserve : blockifProc b sc.bc h op (sc₁.vbscIos idx).ioReq ⟨[], e⟩ = .ok ((err, br), st))
    (hios : (sc₂.vbscIos idx).ioStatus = (sc₁.vbscIos idx).ioStatus)
    (hdone : pciVtblkDoneLocked sc₂ idx err = .ok sc₃) :
    ∃ a, (sc₁.vbscIos idx).ioStatus = some a ∧ ((sc₃.mem a = vtblkSOk → br.brResid = 0 ∧
          moved st.log = iovecLen (sc₁.vbscIos idx).ioReq.brIov) ↔
        NoShortCount b sc.bc h op (sc₁.vbscIos idx).ioReq) := by
  obtain ⟨a, ha, hmem⟩ := done_status hdone
  rw [hios] at ha
  refine ⟨a, ha, ?_⟩
  rw [hmem, vtblkStatus_ok_iff]
  exact proc_whole_iff hop (proc_resid hproc hop) hserve

/-- A host that moves at most 100 bytes a call. -/
def stingy : Host where
  seek := id
  answer c := .count (min 100 c.size)
  count_le := by
    rintro c n hn
    cases hn
    exact Nat.min_le_right _ _

theorem status_ok_whole_write : ∃ sc₁ br st sc₃,
      pciVtblkProc (oneChain writeMem 2097152 512) = .ok (sc₁, some (.write, 0)) ∧
      blockifProc macBuild (oneChain writeMem 2097152 512).bc willing .write
        (sc₁.vbscIos 0).ioReq ⟨[], none⟩ = .ok ((none, br), st) ∧
      pciVtblkDoneLocked sc₁ 0 none = .ok sc₃ ∧ sc₃.mem 8192 = vtblkSOk ∧
      br.brResid = 0 ∧ moved st.log = 512 := by
  have hproc : pciVtblkProc (oneChain writeMem 2097152 512) = .ok (_, some (.write, 0)) := rfl
  obtain ⟨a, ha, hiff⟩ := status_ok_whole (b := macBuild) (h := willing) hproc
    (.inr rfl) rfl rfl rfl
  cases ha
  have hfull := hiff.mpr (.inr (.inr fun _ _ => rfl)) rfl
  exact ⟨_, _, _, _, hproc, rfl, rfl, rfl, hfull⟩

/-- A write of 512 bytes of which the host takes 100 is reported as done. -/
theorem short_write_reported_ok : ∃ sc₁ br st sc₃,
      pciVtblkProc (oneChain writeMem 2097152 512) = .ok (sc₁, some (.write, 0)) ∧
      blockifProc macBuild (oneChain writeMem 2097152 512).bc stingy .write
        (sc₁.vbscIos 0).ioReq ⟨[], none⟩ = .ok ((none, br), st) ∧
      pciVtblkDoneLocked sc₁ 0 none = .ok sc₃ ∧ sc₃.mem 8192 = vtblkSOk ∧
      br.brResid = 412 ∧ moved st.log = 100 :=
  ⟨_, _, _, _, rfl, rfl, rfl, rfl, rfl, rfl⟩

end HyperCog.Vtblk
