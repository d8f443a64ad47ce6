import LinuxLikeKernel.PcbChanges
import LinuxLikeKernel.RtcClock

/-!
# Frequencies of the clock

`execute` leaves the frequency in a new PCB as it finds it, and `rtc_read` divides by it. What keeps
the division exact is that the driver is reached through a descriptor only: `rtc_open` has set the
frequency then, and `rtc_write` changes it only to another power of two.

## Main definitions

- `RightFreq` — the powers of two from 2 to 1024
- `Pcb.ClockRight` — a PCB with a descriptor of the driver has such a frequency
- `freshStep` — a step, with a record of the PCBs that have been those of new processes

## Main results

- `rtcFreqValid_iff` — the test that `rtc_write` makes
- `clockRight_step` — every step keeps `Pcb.ClockRight`
- `rtc_right` — the calls of the driver, in every run
-/

namespace LinuxLikeKernel
open Kernel Transition

variable {img : Image} {s s' : Kernel} {e : Event} {id : Nat}

def RightFreq (freq : Nat) : Prop := ∃ k, 1 ≤ k ∧ k ≤ 10 ∧ freq = 2 ^ k

/-- A descriptor of the PCB goes to the RTC driver. -/
def Pcb.HasRtc (p : Pcb) : Prop := ∃ fd, (p.fds fd).optable = .rtc

def Pcb.ClockRight (p : Pcb) : Prop := p.HasRtc → RightFreq p.rtcFreq

/-! ### Frequencies -/

theorem rightFreq_two : RightFreq 2 := ⟨1, by decide, by decide, rfl⟩

/-- The division by it is not by zero, and exact. -/
theorem RightFreq.div {freq : Nat} (h : RightFreq freq) : freq ≠ 0 ∧ 1024 / freq * freq = 1024 := by
  obtain ⟨k, -, hk, rfl⟩ := h
  have hdvd : 2 ^ k ∣ 2 ^ 10 := Nat.pow_dvd_pow 2 hk
  exact ⟨Nat.ne_of_gt (Nat.two_pow_pos k), Nat.div_mul_cancel hdvd⟩

theorem rightFreq_iff {freq : Nat} :
    RightFreq freq ↔ 1 < freq ∧ freq ≤ 1024 ∧ freq.isPowerOfTwo := by
  constructor
  · rintro ⟨k, h1, h10, rfl⟩
    have hlo : 2 ^ 1 ≤ 2 ^ k := Nat.pow_le_pow_right (by decide) h1
    have hhi : 2 ^ k ≤ 2 ^ 10 := Nat.pow_le_pow_right (by decide) h10
    exact ⟨hlo, hhi, k, rfl⟩
  · rintro ⟨hlo, hhi, k, rfl⟩
    have h1 : 2 ^ 0 < 2 ^ k := hlo
    have h10 : 2 ^ k ≤ 2 ^ 10 := hhi
    rw [Nat.pow_lt_pow_iff_right (by decide)] at h1
    rw [Nat.pow_le_pow_iff_right (by decide)] at h10
    exact ⟨k, h1, h10, rfl⟩

theorem freqBits_lt (content : Nat → UInt8) : freqBits content < 2 ^ 32 := by
  have h0 := (content 0).toNat_lt
  have h1 := (content 1).toNat_lt
  have h2 := (content 2).toNat_lt
  have h3 := (content 3).toNat_lt
  simp only [freqBits]
  omega

/-- `rtc_write` lets through the powers of two from 2 to 1024, for all 32-bit numbers. -/
theorem rtcFreqValid_iff {bits : Nat} (nbytes : Int) (h : bits < 2 ^ 32) :
    RtcFreqValid bits nbytes ↔ nbytes = 4 ∧ RightFreq bits := by
  -- the sign is that of the number as an `int`
  have hsigned : int32 bits = if bits < 2 ^ 31 then (bits : Int) else bits - 2 ^ 32 := by
    simp only [int32]
    split <;> omega
  have hbit : bits ≠ 0 → (bits &&& ((bits + 2 ^ 32 - 1) % 2 ^ 32) = 0 ↔ bits.isPowerOfTwo) := by
    intro hne
    have hpred : (bits + 2 ^ 32 - 1) % 2 ^ 32 = bits - 1 := by omega
    rw [hpred, Nat.and_sub_one_eq_zero_iff_isPowerOfTwo hne]
  rw [rightFreq_iff, RtcFreqValid, hsigned]
  constructor
  · rintro ⟨⟨hne, hpow⟩, hhi, hlen, hlo⟩
    split at hhi
    · rename_i hpos
      rw [if_pos hpos] at hlo
      exact ⟨hlen, by omega, by omega, (hbit hne).mp hpow⟩
    · rename_i hneg
      rw [if_neg hneg] at hlo
      omega
  · rintro ⟨hlen, hlo, hhi, hpow⟩
    have hne : bits ≠ 0 := by omega
    rw [if_pos (by omega)]
    exact ⟨⟨hne, (hbit hne).mpr hpow⟩, by omega, hlen, by omega⟩

/-! ### Descriptors -/

theorem Pcb.HasRtc.congr {p q : Pcb} (h : q.HasRtc) (hfds : q.fds = p.fds) : p.HasRtc := by
  obtain ⟨fd, hfd⟩ := h
  exact ⟨fd, by rw [← hfds, hfd]⟩

/-- Where one descriptor has changed, that one goes to the driver, or another has done so before. -/
theorem Pcb.HasRtc.of_update {p q : Pcb} {fd : Fin 8} {d : FileDesc} (h : q.HasRtc)
    (hfds : q.fds = Function.update p.fds fd d) : p.HasRtc ∨ d.optable = .rtc := by
  obtain ⟨i, hi⟩ := h
  rw [hfds] at hi
  by_cases hfd : i = fd
  · rw [hfd, Function.update_self] at hi
    exact .inr hi
  · rw [Function.update_of_ne hfd] at hi
    exact .inl ⟨i, hi⟩

/-- In the state of all PCBs, one has changed. -/
theorem hasRtc_of_update {p : Nat} {q : Pcb} (hq : q.HasRtc → (s.pcb p).HasRtc)
    (h : (Function.update s.pcb p q id).HasRtc) : (s.pcb id).HasRtc := by
  by_cases hid : id = p
  · subst hid
    rw [Function.update_self] at h
    exact hq h
  · rwa [Function.update_of_ne hid] at h

/-- A new process has only the descriptors of its terminal. -/
theorem not_hasRtc_of_fresh {p : Pcb} (h : p.fds = freshFds) : ¬ p.HasRtc := by
  rintro ⟨fd, hfd⟩
  rw [h] at hfd
  revert hfd fd
  decide

/-- A descriptor that is opened goes to the driver if the entry is of its type, or has no type and
the descriptor went there before. -/
theorem optable_bind {d : FileDesc} {dentry : Dentry} (h : (d.bind dentry).optable = .rtc) :
    dentry.filetype = 0 ∨ d.optable = .rtc := by
  simp only [FileDesc.bind] at h
  split at h
  · rename_i htype
    exact .inl htype
  · cases h
  · cases h
  · exact .inr h

/-- `open` adds a descriptor of the driver by way of `rtc_open` only. -/
theorem hasRtc_open {filename : List UInt8} {dentry : Dentry} {fd : Fin 8}
    (hd : readDentryByName img filename = some dentry)
    (hfree : freeFd (s.pcb s.nowPcbId) = some fd)
    (h : ((s.pcb s.nowPcbId).opened fd dentry).HasRtc) :
    (s.pcb s.nowPcbId).HasRtc ∨ s.opensRtc img filename = true := by
  obtain hold | hbind := h.of_update (Pcb.fds_opened ..)
  · exact .inl hold
  · obtain htype | hold := optable_bind hbind
    · refine .inr ?_
      rw [opensRtc, hd, hfree]
      simp [htype]
    · exact .inl ⟨fd, hold⟩

/-- `halt` opens nothing, and may start a shell. -/
theorem hasRtc_halt {m : Kernel} {sp : StackPtr} {status : UInt8} {stale : Stale}
    (h : m.halt img sp status stale = some s') (hrtc : (s'.pcb id).HasRtc) :
    (m.pcb id).HasRtc := by
  have hfds : ∀ {u : Kernel}, m.unlink m.nowPcbId = some u →
      ((u.haltFds m.nowPcbId).pcb id).HasRtc → (m.pcb id).HasRtc := by
    rintro u hu ⟨fd, hfd⟩
    refine ⟨fd, ?_⟩
    rw [fds_haltFds, pcb_unlink hu] at hfd
    simp only [haltedFd] at hfd
    split at hfd
    · cases hfd
    · split at hfd
      · exact hfd
      · exact hfd
  have hexec : ∀ {u : Kernel} {o : Outcome}, execute img u sp shellCommand stale = some o →
      (o.state.pcb id).HasRtc → (u.pcb id).HasRtc := by
    intro u o ho hrtc
    obtain ⟨-, hpcb⟩ | ⟨cur, i, mem, args, -, rfl⟩ := pcb_execute ho
    · exact hrtc.congr (congrArg Pcb.fds (congrFun hpcb id).symm).symm
    · refine hasRtc_of_update (fun hnew => ?_) hrtc
      exact absurd hnew (not_hasRtc_of_fresh rfl)
  cases halt_exit h with
  | parent hu _ h =>
    rw [pcb_returnToParent h] at hrtc
    exact hfds hu hrtc
  | shell hu _ ho hs =>
    rw [hs] at hrtc
    have hprinted := hexec ho hrtc
    rw [pcb_printf] at hprinted
    exact hfds hu hprinted
  | faulted hu _ ho =>
    have hprinted := hexec ho hrtc
    rw [pcb_printf] at hprinted
    exact hfds hu hprinted
  | noShell hu _ ho h =>
    rw [pcb_returnToParent h] at hrtc
    have hprinted := hexec ho hrtc
    rw [pcb_printf] at hprinted
    exact hfds hu hprinted

/-- Nor does a tick or a start open anything. -/
theorem PcbChange.hasRtc {q : Pcb} (h : PcbChange img s e id q)
    (he : e.isTick = true ∨ e.isExecute = true) (hq : q.HasRtc) : (s.pcb id).HasRtc := by
  cases h with
  | keeps hfiles => exact hq.congr (congrArg Prod.fst hfiles)
  | starts _ _ hfds => exact absurd hq (not_hasRtc_of_fresh hfds)
  | opens h => subst h; simp [Event.isTick, Event.isExecute] at he
  | closes h => subst h; simp [Event.isTick, Event.isExecute] at he
  | reads h => subst h; simp [Event.isTick, Event.isExecute] at he
  | halts hcall =>
    cases e with
    | tick => cases hcall
    | execute => cases hcall
    | _ => simp [Event.isTick, Event.isExecute] at he

/-- The other steps. -/
theorem PcbStep.hasRtc {pcb' : Nat → Pcb} (h : PcbStep img s e pcb') (hq : (pcb' id).HasRtc) :
    (s.pcb id).HasRtc ∨
      ∃ filename, e = .open filename ∧ s.nowPcbId = id ∧ s.opensRtc img filename = true := by
  cases h with
  | same => exact .inl hq
  | «open» hd hfree =>
    by_cases hid : id = s.nowPcbId
    · subst hid
      rw [Function.update_self] at hq
      exact (hasRtc_open hd hfree hq).imp_right fun hopens => ⟨_, rfl, rfl, hopens⟩
    · rw [Function.update_of_ne hid] at hq
      exact .inl hq
  | close =>
    refine .inl (hasRtc_of_update (fun hclosed => ?_) hq)
    exact (hclosed.of_update rfl).elim (fun hold => hold) fun hfd => ⟨_, hfd⟩
  | read =>
    refine .inl (hasRtc_of_update (fun hread => ?_) hq)
    exact (hread.of_update rfl).elim (fun hold => hold) fun hfd => ⟨_, hfd⟩
  | rtcRead =>
    refine .inl (hasRtc_of_update (fun hread => ?_) hq)
    exact hread.congr rfl
  | rtcWrite =>
    refine .inl (hasRtc_of_update (fun hwrite => ?_) hq)
    exact hwrite.congr rfl
  | rtc => exact .inl (hq.congr (congrArg Prod.fst (files_rtcInterruptHandler s id)))

/-- **Step lemma.** A descriptor of the driver comes from `rtc_open`. -/
theorem hasRtc_step (h : step img s e = some s') (hrtc : (s'.pcb id).HasRtc) :
    (s.pcb id).HasRtc ∨
      ∃ filename, e = .open filename ∧ s.nowPcbId = id ∧ s.opensRtc img filename = true := by
  by_cases hcall : s.callsHalt e = true
  · obtain ⟨m, sp, stale, hhalt, hpcb, -⟩ := step_halt hcall h
    rw [← hpcb]
    exact .inl (hasRtc_halt hhalt hrtc)
  · by_cases he : e.isTick = true ∨ e.isExecute = true
    · exact .inl ((pcbChange id h).hasRtc he hrtc)
    · simp only [not_or, Bool.not_eq_true] at he hcall
      exact (pcb_step ⟨he.1, he.2, hcall⟩ h).hasRtc hrtc

/-- **Step lemma.** A PCB with a descriptor of the driver keeps a right frequency. -/
theorem clockRight_step (hright : (s.pcb id).ClockRight) (h : step img s e = some s') :
    (s'.pcb id).ClockRight := by
  intro hrtc
  have hfreq : (s'.pcb id).rtcFreq = recordFreq img id s e s' (s.pcb id).rtcFreq :=
    freq_step (p := id) rfl h
  rw [hfreq]
  obtain hold | ⟨filename, rfl, hid, hopens⟩ := hasRtc_step h hrtc
  · exact recordFreq_of_forall h (hright hold) rightFreq_two fun content nbytes hvalid =>
      ((rtcFreqValid_iff nbytes (freqBits_lt content)).mp hvalid).2
  · rw [recordFreq, if_pos ⟨hid, hopens⟩]
    exact rightFreq_two

/-! ### Runs -/

/-- A record of the PCBs that have had the descriptors of a new process. -/
def noteFresh (_ : Kernel) (_ : Event) (s' : Kernel) (log : Nat → Prop) (id : Nat) : Prop :=
  log id ∨ (s'.pcb id).fds = freshFds

def freshStep (img : Image) : Kernel × (Nat → Prop) → Event → Option (Kernel × (Nat → Prop)) :=
  logged (step img) noteFresh

/-- **Run lemma.** A PCB that has been that of a new process, or has started without a descriptor
of the driver, keeps a right frequency. -/
theorem clockRight_of_run {s₀ : Kernel} {log : Nat → Prop} {es : List Event}
    (hrun : run (freshStep img) (s₀, fun id => ¬ (s₀.pcb id).HasRtc) es = some (s, log))
    (hid : log id) : (s.pcb id).ClockRight := by
  refine run_invariant (P := fun x => x.2 id → (x.1.pcb id).ClockRight) ?_ ?_ hrun hid
  · rintro x e x' hright hstep hid
    obtain ⟨hs, hlog⟩ := logged_eq_some.mp hstep
    rw [hlog] at hid
    obtain hold | hfresh := hid
    · exact clockRight_step (hright hold) hs
    · exact fun hrtc => absurd hrtc (not_hasRtc_of_fresh hfresh)
  · exact fun hno hrtc => absurd hrtc hno

/-- What `rtc_read` and `rtc_open` of the running process do: their divisions are exact, and no
exception is raised. -/
structure DividesExactly (img : Image) (s : Kernel) : Prop where
  opens : ∀ filename s', s.opensRtc img filename = true →
    step img s (.open filename) = some s' → (s'.drivers.clock s.nowPcbId).freq = 2 ∧
      (s'.drivers.clock s.nowPcbId).counter * 2 = 1024
  reads : ∀ fd buf nbytes s', s.usesRtc fd buf = true →
    step img s (.read fd buf nbytes) = some s' → Waits s' s.nowPcbId ∧
      (s'.drivers.clock s.nowPcbId).counter * (s.drivers.clock s.nowPcbId).freq = 1024

/-- What `rtc_write` does. -/
structure WritesRight (s : Kernel) (content : Nat → UInt8) (nbytes : Int) : Prop where
  accepts : nbytes = 4 ∧ RightFreq (freqBits content) → (s.rtcWrite content nbytes).eax = 0 ∧
    ((s.rtcWrite content nbytes).drivers.clock s.nowPcbId).freq = freqBits content
  rejects : ¬(nbytes = 4 ∧ RightFreq (freqBits content)) → (s.rtcWrite content nbytes).eax = -1 ∧
    ((s.rtcWrite content nbytes).drivers.clock s.nowPcbId).freq =
      (s.drivers.clock s.nowPcbId).freq

theorem writesRight (s : Kernel) (content : Nat → UInt8) (nbytes : Int) :
    WritesRight s content nbytes := by
  have hvalid := rtcFreqValid_iff nbytes (freqBits_lt content)
  constructor
  · intro h
    rw [Kernel.rtcWrite, if_pos (hvalid.mpr h)]
    refine ⟨rfl, ?_⟩
    change (Function.update s.pcb s.nowPcbId _ s.nowPcbId).rtcFreq = _
    rw [Function.update_self]
  · intro h
    rw [Kernel.rtcWrite, if_neg fun hv => h (hvalid.mp hv)]
    exact ⟨rfl, rfl⟩

/-- The driver divides exactly if the PCB is right. -/
theorem dividesExactly_of_clockRight (h : (s.pcb s.nowPcbId).ClockRight) :
    DividesExactly img s := by
  refine ⟨fun filename s' hopens hs => ?_, fun fd buf nbytes s' huses hs => ?_⟩
  · rw [drivers_step hs]
    simp only [driversAfter, if_pos hopens, DriverState.setClock, Function.update_self]
    exact ⟨rfl, rfl⟩
  · obtain ⟨i, hdriver⟩ := usesRtc_eq_true huses
    obtain ⟨-, -, hrtc⟩ := readDriver_eq_some hdriver
    obtain ⟨hne, hdiv⟩ := (h ⟨i, hrtc⟩).div
    refine ⟨(waits_of_rtcRead huses hne hs).2, ?_⟩
    rw [drivers_step hs]
    simp only [driversAfter, hdriver, DriverState.setClock, Function.update_self]
    rw [RtcClock.start, if_neg (show ¬ s.nowClock.freq = 0 from hne)]
    exact hdiv

/-- In every run, a PCB that has been filled in for a process, or has held no descriptor of the
driver when the system started, has a power of two from 2 to 1024 as its frequency whenever it has
such a descriptor. The divisions by it are exact, and `rtc_write` accepts just these numbers. -/
theorem rtc_right {s₀ : Kernel} {log : Nat → Prop} {es : List Event}
    (hrun : run (freshStep img) (boot s₀, fun id => ¬ (s₀.pcb id).HasRtc) es = some (s, log)) :
    (∀ id, log id → (s.pcb id).ClockRight) ∧ (log s.nowPcbId → DividesExactly img s) ∧
      ∀ content nbytes, WritesRight s content nbytes :=
  ⟨fun _ hid => clockRight_of_run hrun hid,
    fun hid => dividesExactly_of_clockRight (clockRight_of_run hrun hid), writesRight s⟩

/-- The shell of terminal 0 opens the clock and makes it as fast as it gets. -/
def fastestEvents : List Event :=
  launchEvents ++ [.open clockName, .write 2 0x8000000 fastest 4]

theorem rtc_right_sample : ∃ s log,
    run (freshStep clockImage) (boot powerOn, fun id => ¬ (powerOn.pcb id).HasRtc) fastestEvents =
      some (s, log) ∧
    s.usesRtc 2 0x8000000 = true ∧ (s.drivers.clock s.nowPcbId).freq = 1024 ∧
    DividesExactly clockImage s := by
  have hobs : (run (step clockImage) (boot powerOn) fastestEvents).map (fun s =>
      decide (s.usesRtc 2 0x8000000 = true ∧ (s.drivers.clock s.nowPcbId).freq = 1024)) =
      some true := by decide +kernel
  obtain ⟨s, hs, hobs⟩ := Option.map_eq_some_iff.mp hobs
  obtain ⟨huses, hfreq⟩ := of_decide_eq_true hobs
  have hlogged : (run (logged (step clockImage) noteFresh)
      (boot powerOn, fun id => ¬ (powerOn.pcb id).HasRtc) fastestEvents).map Prod.fst =
      run (step clockImage) (boot powerOn) fastestEvents := fst_run_logged ..
  obtain ⟨⟨m, log⟩, hrun, hm⟩ := Option.map_eq_some_iff.mp (hlogged.trans hs)
  obtain rfl : m = s := hm
  -- memory full of zeros holds no descriptor of the driver
  have hnone : ∀ id, ¬ (powerOn.pcb id).HasRtc := by
    rintro id ⟨fd, hfd⟩
    cases hfd
  have hlog : log m.nowPcbId := by
    refine run_invariant (P := fun x => x.2 m.nowPcbId) ?_ (hnone m.nowPcbId) hrun
    intro x e x' hlog hstep
    rw [(logged_eq_some.mp hstep).2]
    exact .inl hlog
  exact ⟨m, log, hrun, huses, hfreq, (rtc_right hrun).2.1 hlog⟩

end LinuxLikeKernel
