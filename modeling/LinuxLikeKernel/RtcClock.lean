import LinuxLikeKernel.Descriptors
import LinuxLikeKernel.DriverState
import LinuxLikeKernel.OwnTerminal

/-!
# Waiting for the clock

The real-time clock interrupts 1024 times a second. `rtc_read` starts a period of the clock in
the caller's PCB and waits for its end, and `rtc_interrupt_handler` counts the clocks of the
current processes of the three terminals down, whichever process runs.

## Main definitions

- `freqStep` — a step, with a record of the frequency a process has chosen
- `Waits` — the processor is in the wait loop of an `rtc_read`
- `WhileReading` — what can happen while a process is in `rtc_read`
- `Named` — the terminal table names the process that runs, and those that a tick goes on with

## Main results

- `freq_of_history` — a process has the frequency it has chosen
- `clock_of_other` — other processes leave the clock alone
- `rtcRead_returns` — `rtc_read` returns at the first turn of its loop after its period
-/

namespace LinuxLikeKernel
open ByteMemory Kernel Transition

variable {img : Image} {s s' : Kernel} {t : TermId}

def Event.isRtc : Event → Bool
  | .rtc => true
  | _ => false

def Event.isRun : Event → Bool
  | .run => true
  | _ => false

/-- The interrupts of the clock. -/
def rtcs (es : List Event) : Nat := (es.map fun e => if e.isRtc then 1 else 0).sum

/-! ### The frequency -/

/-- The frequency that the process with PCB `p` has chosen: what it has successfully written
since it last opened the clock, or 2. -/
def recordFreq (img : Image) (p : Nat) (s : Kernel) (e : Event) (s' : Kernel) (freq : Nat) : Nat :=
  match e with
  | .open filename => if s.nowPcbId = p ∧ s.opensRtc img filename then 2 else freq
  | .write fd buf content _ =>
    if s.nowPcbId = p ∧ s.usesRtc fd buf ∧ s'.eax = 0 then freqBits content else freq
  | _ => freq

/-- A step that records the frequency of the process with PCB `p`. -/
def freqStep (img : Image) (p : Nat) : Kernel × Nat → Event → Option (Kernel × Nat) :=
  logged (step img) (recordFreq img p)

theorem usesRtc_eq_true {fd : Int} {buf : Nat} (h : s.usesRtc fd buf = true) :
    ∃ i, s.readDriver fd buf = some (i, .rtc) := by
  obtain ⟨⟨i, driver⟩, hdriver, hrtc⟩ := (Option.any_eq_true ..).mp h
  obtain rfl : driver = .rtc := eq_of_beq hrtc
  exact ⟨i, hdriver⟩

theorem write_of_usesRtc {fd nbytes : Int} {buf : Nat} {content : Nat → UInt8}
    (h : s.usesRtc fd buf = true) :
    s.write fd buf content nbytes = some (s.rtcWrite content nbytes) := by
  obtain ⟨i, hdriver⟩ := usesRtc_eq_true h
  simp only [Kernel.write, hdriver]

/-- `rtc_write` returns 0 exactly if it sets the frequency. -/
theorem eax_rtcWrite {content : Nat → UInt8} {nbytes : Int} :
    (s.rtcWrite content nbytes).eax = 0 ↔ RtcFreqValid (freqBits content) nbytes := by
  simp only [Kernel.rtcWrite]
  by_cases hvalid : RtcFreqValid (freqBits content) nbytes
  · rw [if_pos hvalid]
    exact iff_of_true rfl hvalid
  · rw [if_neg hvalid]
    exact iff_of_false (by simp [ret]) hvalid

/-- Every frequency that is set is positive. -/
theorem RtcFreqValid.ne_zero {bits : Nat} {nbytes : Int} (h : RtcFreqValid bits nbytes) :
    bits ≠ 0 := h.1.1

/-- **Step lemma.** The record of the frequency is right. -/
theorem freq_step {p freq : Nat} {e : Event} (hfreq : (s.drivers.clock p).freq = freq)
    (h : step img s e = some s') :
    (s'.drivers.clock p).freq = recordFreq img p s e s' freq := by
  -- a clock that is set keeps its frequency, unless it is that of `p`
  have hset : ∀ (d : DriverState) (id : Nat) (c : RtcClock),
      ((d.setClock id c).clock p).freq = if id = p then c.freq else (d.clock p).freq := by
    intro d id c
    simp only [DriverState.setClock, Function.update_apply, eq_comm (a := p)]
    split <;> rfl
  have htick : ∀ (d : DriverState) (id : Nat),
      ((d.tick id).clock p).freq = (d.clock p).freq := by
    intro d id
    rw [DriverState.tick, hset]
    split
    · rename_i hid
      rw [← hid]
      rfl
    · rfl
  -- only `rtc_open` and `rtc_write` of the process set its frequency
  rw [drivers_step h]
  cases e with
  | rtc =>
    simp only [driversAfter, htick]
    exact hfreq
  | «open» filename =>
    simp only [driversAfter, recordFreq]
    by_cases hopens : s.opensRtc img filename = true
    · rw [if_pos hopens, hset, hfreq]
      simp only [hopens, and_true]
      rfl
    · rw [if_neg hopens, if_neg fun h => hopens h.2]
      exact hfreq
  | read fd buf nbytes =>
    simp only [driversAfter, recordFreq]
    split
    · exact hfreq
    · rw [hset]
      split
      · rename_i hid
        rw [← hfreq, ← hid]
        simp only [RtcClock.start]
        split <;> rfl
      · exact hfreq
    · exact hfreq
  | write fd buf content nbytes =>
    simp only [driversAfter, recordFreq]
    by_cases huses : s.usesRtc fd buf = true
    · have hs := (step_call h rfl).2
      rw [show s.syscall img (.write fd buf content nbytes) = _ from write_of_usesRtc huses] at hs
      rw [← Option.some.inj hs]
      simp only [eax_rtcWrite]
      by_cases hvalid : RtcFreqValid (freqBits content) nbytes
      · rw [if_pos ⟨huses, hvalid⟩, hset, hfreq]
        simp only [huses, hvalid, and_true]
        rfl
      · rw [if_neg fun h => hvalid h.2, if_neg fun h => hvalid h.2.2]
        exact hfreq
    · rw [if_neg fun h => huses h.1, if_neg fun h => huses h.2.1]
      exact hfreq
  | _ => exact hfreq

/-- What is recorded after a step is the old record, or 2, or what `rtc_write` has accepted. -/
theorem recordFreq_of_forall {P : Nat → Prop} {p freq : Nat} {e : Event}
    (h : step img s e = some s') (hkeep : P freq) (htwo : P 2)
    (hvalid : ∀ content nbytes, RtcFreqValid (freqBits content) nbytes → P (freqBits content)) :
    P (recordFreq img p s e s' freq) := by
  cases e with
  | «open» filename =>
    simp only [recordFreq]
    split
    · exact htwo
    · exact hkeep
  | write fd buf content nbytes =>
    simp only [recordFreq]
    split
    · rename_i hset
      obtain ⟨-, huses, heax⟩ := hset
      have hs := (step_call h rfl).2
      rw [show s.syscall img (.write fd buf content nbytes) = _ from write_of_usesRtc huses] at hs
      rw [← Option.some.inj hs, eax_rtcWrite] at heax
      exact hvalid content nbytes heax
    · exact hkeep
  | _ => exact hkeep

theorem recordFreq_ne_zero {p freq : Nat} {e : Event} (hfreq : freq ≠ 0)
    (h : step img s e = some s') : recordFreq img p s e s' freq ≠ 0 :=
  recordFreq_of_forall (P := (· ≠ 0)) h hfreq (by decide) fun _ _ => RtcFreqValid.ne_zero

/-- **Run lemma.** A process that opens the clock has from then on the frequency it has chosen,
whatever else happens. -/
theorem freq_of_history {filename : List UInt8} {s₀ s₁ m : Kernel} {es : List Event} {freq : Nat}
    (hopens : s₀.opensRtc img filename = true) (hopen : step img s₀ (.open filename) = some s₁)
    (hhistory : run (freqStep img s₀.nowPcbId) (s₁, 2) es = some (m, freq)) :
    (m.drivers.clock s₀.nowPcbId).freq = freq ∧ freq ≠ 0 := by
  have hstart : (s₁.drivers.clock s₀.nowPcbId).freq = 2 := by
    rw [drivers_step hopen]
    simp only [driversAfter, if_pos hopens, DriverState.setClock, Function.update_self]
    rfl
  refine run_invariant (P := fun x : Kernel × Nat =>
    (x.1.drivers.clock s₀.nowPcbId).freq = x.2 ∧ x.2 ≠ 0) ?_ ⟨hstart, by simp⟩ hhistory
  rintro x e x' ⟨hfreq, hne⟩ h
  obtain ⟨h, hrecord⟩ := logged_eq_some.mp h
  rw [hrecord]
  exact ⟨freq_step hfreq h, recordFreq_ne_zero hne h⟩

/-! ### Live terminals -/

/-- No process starts or ends. -/
def KeepsProcess (s : Kernel) (e : Event) : Prop := e.isExecute = false ∧ s.callsHalt e = false

instance (s : Kernel) (e : Event) : Decidable (KeepsProcess s e) :=
  inferInstanceAs (Decidable (_ ∧ _))

theorem pcbId_of_hasProcess (h : s.HasProcess t) :
    ∃ i : Fin 4, s.pcbId t = slotId t i.val := by
  obtain ⟨i, hi, -⟩ := h
  refine ⟨i, ?_⟩
  simp only [pcbId, hi, slotId, uint8, maxPcbMaskLen]
  omega

/-- The processes of different terminals have different PCBs. -/
theorem pcbId_ne (hlive : ∀ u, s.HasProcess u) {u : TermId} (hu : u ≠ t) :
    s.pcbId u ≠ s.pcbId t := by
  obtain ⟨i, hi⟩ := pcbId_of_hasProcess (hlive t)
  obtain ⟨j, hj⟩ := pcbId_of_hasProcess (hlive u)
  rw [hi, hj]
  exact fun h => hu ((slotId_inj j.isLt i.isLt).mp h).1

/-- A tick of live terminals goes on with the process of the next one. -/
theorem tick_of_live {stale : Stale} (hlive : ∀ u, s.HasProcess u)
    (h : step img s (.tick stale) = some s') :
    ∃ m : Kernel, (∃ paging, m.core = { s.saveContext.core with
        paging := paging
        tssEsp0 := processEsp0 ((s.con.term (nextTermId s.con.nowTermId)).curPcbId +
          (nextTermId s.con.nowTermId).val * maxPcbMaskLen) }) ∧
      m.resume (s.saveContext.pcb s.saveContext.nowPcbId).kbp .pit = some s' := by
  obtain ⟨i, hi, -⟩ := hlive (nextTermId s.con.nowTermId)
  obtain ⟨hempty, -⟩ | ⟨-, page, m, -, hcore, -, -, hres⟩ := pitInterruptHandler_cases (step_tick h)
  · omega
  · exact ⟨m, ⟨_, hcore⟩, hres⟩

/-- The terminals keep their processes. -/
theorem live_step {e : Event} (hlive : ∀ u, s.HasProcess u) (hdom : KeepsProcess s e)
    (h : step img s e = some s') : (∀ u, s'.HasProcess u) ∧ ∀ u, s'.pcbId u = s.pcbId u := by
  have hsame : (∀ u, (s'.con.term u).curPcbId = (s.con.term u).curPcbId) → s'.pcbMask = s.pcbMask →
      (∀ u, s'.HasProcess u) ∧ ∀ u, s'.pcbId u = s.pcbId u := by
    intro hcur hmask
    refine ⟨fun u => ?_, fun u => by simp only [pcbId, hcur]⟩
    simpa only [HasProcess, hcur, hmask] using hlive u
  by_cases htick : e.isTick = true
  · cases e with
    | tick stale =>
      obtain ⟨m, ⟨paging, hcore⟩, hres⟩ := tick_of_live hlive h
      have htable : s'.table = s.saveContext.table :=
        (table_resume hres).trans (congrArg Core.toTable hcore)
      exact hsame (fun u => congrArg (fun T : Table => (T.term u).curPcbId) htable)
        (congrArg Table.mask htable)
    | _ => cases htick
  · have htable := table_step ⟨by simpa using htick, hdom⟩ h
    exact hsame (fun u => congrArg (fun T : Table => (T.term u).curPcbId) htable)
      (congrArg Table.mask htable)

/-! ### The counter -/

/-- An interrupt counts down the clock of every terminal's process, once. -/
theorem clock_rtc (hlive : ∀ u, s.HasProcess u) (t : TermId) :
    (s.driversAfter img .rtc).clock (s.pcbId t) = (s.drivers.clock (s.pcbId t)).tick := by
  have hself : ∀ (d : DriverState) (id : Nat), (d.tick id).clock id = (d.clock id).tick :=
    fun d id => Function.update_self ..
  have hother : ∀ (d : DriverState) (u v : TermId), u ≠ v →
      (d.tick (s.pcbId u)).clock (s.pcbId v) = d.clock (s.pcbId v) :=
    fun d u v huv => Function.update_of_ne (pcbId_ne hlive huv).symm _ _
  simp only [driversAfter]
  obtain rfl | rfl | rfl : t = 0 ∨ t = 1 ∨ t = 2 := by
    revert t
    decide
  · rw [hother _ 2 0 (by decide), hother _ 1 0 (by decide), hself]
  · rw [hother _ 2 1 (by decide), hself, hother _ 0 1 (by decide)]
  · rw [hself, hother _ 1 2 (by decide), hother _ 0 2 (by decide)]

/-- **Step lemma.** Other processes leave the clock of a process alone, and an interrupt counts
it down. -/
theorem clock_of_other {e : Event} (hlive : ∀ u, s.HasProcess u)
    (hother : e.isCall = true → s.con.nowTermId ≠ t) (h : step img s e = some s') :
    s'.drivers.clock (s.pcbId t) =
      if e.isRtc then (s.drivers.clock (s.pcbId t)).tick else s.drivers.clock (s.pcbId t) := by
  have hset : e.isCall = true → ∀ c,
      (s.drivers.setClock s.nowPcbId c).clock (s.pcbId t) = s.drivers.clock (s.pcbId t) :=
    fun he c => Function.update_of_ne (pcbId_ne hlive (hother he)).symm _ _
  rw [drivers_step h]
  cases e with
  | rtc => exact clock_rtc hlive t
  | «open» filename =>
    simp only [driversAfter]
    split
    · exact hset rfl _
    · rfl
  | read fd buf nbytes =>
    simp only [driversAfter]
    split
    · rfl
    · exact hset rfl _
    · rfl
  | write fd buf content nbytes =>
    simp only [driversAfter]
    split
    · exact hset rfl _
    · rfl
  | _ => rfl

/-! ### The wait loop -/

/-- The processor is in the wait loop of an `rtc_read` that user code has called for PCB `p`. -/
def Waits (s : Kernel) (p : Nat) : Prop :=
  ∃ stack, s.cpu = .kernel ⟨stack, 1⟩ ∧ s.frameAt ⟨stack, 1⟩ = some (.rtcRead p)

/-- A turn of the loop. -/
theorem step_run_of_waits {p : Nat} (h : Waits s p) :
    step img s .run =
      some (if 0 < (s.drivers.clock p).counter then s else { s with cpu := .user, eax := 0 }) := by
  obtain ⟨stack, hcpu, hframe⟩ := h
  simp only [step, hcpu, runLoop, hframe, returnToUser, if_true]
  change (if 0 < (s.pcb p).rtcCounter then _ else _) =
    some (if 0 < (s.pcb p).rtcCounter then _ else _)
  split <;> rfl

/-- A turn of its loop ends the call that the process of terminal `t` is in. -/
def Returns (img : Image) (t : TermId) (s : Kernel) (e : Event) : Prop :=
  s.con.nowTermId = t ∧ e.isRun = true ∧
    (step img s e).any (fun s' => decide (s'.cpu = .user)) = true

instance (img : Image) (t : TermId) (s : Kernel) (e : Event) : Decidable (Returns img t s e) :=
  inferInstanceAs (Decidable (_ ∧ _ ∧ _))

/-- What can happen while the process of terminal `t` is in `rtc_read`: interrupts, calls of other
processes, and turns of its loop that do not end the call. -/
def WhileReading (img : Image) (t : TermId) (s : Kernel) (e : Event) : Prop :=
  KeepsProcess s e ∧ (e.isCall = true → s.con.nowTermId ≠ t) ∧ ¬ Returns img t s e

instance (img : Image) (t : TermId) (s : Kernel) (e : Event) :
    Decidable (WhileReading img t s e) :=
  inferInstanceAs (Decidable (_ ∧ (_ → _) ∧ _))

/-- The call sets the counter and waits. -/
theorem waits_of_rtcRead {fd nbytes : Int} {buf : Nat} (hrtc : s.usesRtc fd buf = true)
    (hfreq : (s.drivers.clock s.nowPcbId).freq ≠ 0)
    (h : step img s (.read fd buf nbytes) = some s') :
    s' = (s.setPcb s.nowPcbId { s.pcb s.nowPcbId with
        rtcCounter := 1024 / (s.pcb s.nowPcbId).rtcFreq }).block (.rtcRead s.nowPcbId) ∧
      Waits s' s.nowPcbId := by
  obtain ⟨hcpu, h⟩ := step_call h rfl
  obtain ⟨i, hdriver⟩ := usesRtc_eq_true hrtc
  simp only [syscall, Kernel.read, hdriver, Option.some.injEq, Kernel.rtcRead] at h
  rw [if_neg (show ¬ (s.pcb s.nowPcbId).rtcFreq = 0 from hfreq)] at h
  refine ⟨h.symm, stackOf s.tssEsp0, ?_, ?_⟩
  · rw [← h]
    simp only [block, entry, setPcb, hcpu, StackPtr.up, Nat.zero_add]
  · rw [← h]
    simp [frameAt, block, push, pushFrame, entry, setPcb, hcpu]

/-! ### The call stays where it is -/

/-- The terminal table names the process that runs, and those that a tick goes on with. -/
structure Named (s : Kernel) : Prop where
  running : s.entry.stack = s.nowPcbId
  tss : stackOf s.tssEsp0 = s.nowPcbId
  suspended : ∀ u, u ≠ s.con.nowTermId → (s.pcb (s.pcbId u)).kbp.stack = s.pcbId u

/-- The process of terminal `t` is in the wait loop of `rtc_read`, or a tick will go on there. -/
structure ReadsClock (s : Kernel) (t : TermId) : Prop extends Named s where
  live : ∀ u, s.HasProcess u
  frame : (s.kstack (s.pcbId t))[0]? = some (.rtcRead (s.pcbId t))
  cpu : s.con.nowTermId = t → s.cpu = .kernel ⟨s.pcbId t, 1⟩
  kbp : s.con.nowTermId ≠ t → (s.pcb (s.pcbId t)).kbp = ⟨s.pcbId t, 2⟩

theorem ReadsClock.waits (h : ReadsClock s t) (hnow : s.con.nowTermId = t) :
    Waits s (s.pcbId t) := ⟨s.pcbId t, h.cpu hnow, h.frame⟩

/-- What a step has to keep if the same process goes on. -/
theorem ReadsClock.of_eq (h : ReadsClock s t) (hcore : s'.table = s.table)
    (hkbp : s'.core.kbp = s.core.kbp) (htss : s'.tssEsp0 = s.tssEsp0)
    (hentry : s'.entry.stack = s.entry.stack)
    (hframe : (s'.kstack (s.pcbId t))[0]? = (s.kstack (s.pcbId t))[0]?)
    (hcpu : s.con.nowTermId = t → s'.cpu = s.cpu) : ReadsClock s' t := by
  have hnow : s'.con.nowTermId = s.con.nowTermId := congrArg (fun T : Table => T.now) hcore
  have hterm : ∀ u, (s'.con.term u).curPcbId = (s.con.term u).curPcbId :=
    fun u => congrArg (fun T : Table => (T.term u).curPcbId) hcore
  have hid : ∀ u, s'.pcbId u = s.pcbId u := fun u => by simp only [pcbId, hterm]
  have hmask : s'.pcbMask = s.pcbMask := congrArg Table.mask hcore
  have hkbp' : ∀ q, (s'.pcb q).kbp = (s.pcb q).kbp := fun q => congrFun hkbp q
  refine ⟨⟨?_, ?_, ?_⟩, ?_, ?_, ?_, ?_⟩
  · rw [hentry, nowPcbId, hnow, hid]
    exact h.running
  · rw [htss, nowPcbId, hnow, hid]
    exact h.tss
  · intro u hu
    rw [hid, hkbp']
    exact h.suspended u (hnow ▸ hu)
  · intro u
    simpa only [HasProcess, hterm, hmask] using h.live u
  · rw [hid, hframe]
    exact h.frame
  · intro ht
    rw [hnow] at ht
    rw [hcpu ht, hid]
    exact h.cpu ht
  · intro ht
    rw [hnow] at ht
    rw [hid, hkbp']
    exact h.kbp ht

theorem pcbNumber_of_live (h : s.HasProcess t) :
    (s.con.term t).curPcbId + t.val * maxPcbMaskLen = (s.pcbId t : Int) ∧ s.pcbId t < 12 := by
  obtain ⟨i, hi, -⟩ := h
  have hi4 := i.isLt
  have ht := t.isLt
  simp only [pcbId, hi, uint8, maxPcbMaskLen]
  omega

/-- The state after a tick that has put the running process aside, and goes on with that of the
next terminal. -/
structure TickDone (s s' : Kernel) : Prop where
  now : s'.con.nowTermId = nextTermId s.con.nowTermId
  pcbId : ∀ u, s'.pcbId u = s.pcbId u
  live : ∀ u, s'.HasProcess u
  tss : stackOf s'.tssEsp0 = s.pcbId (nextTermId s.con.nowTermId)
  kbp : ∀ u, (s'.pcb (s.pcbId u)).kbp =
    if u = s.con.nowTermId then s.entry.up else (s.pcb (s.pcbId u)).kbp
  kstack : s'.kstack = pushFrame s.kstack s.entry .pit
  stack : s'.cpu = .user ∨ ∃ d, s'.cpu = .kernel ⟨s.pcbId (nextTermId s.con.nowTermId), d⟩
  loop : (s.pcb (s.pcbId (nextTermId s.con.nowTermId))).kbp.depth = 2 →
    s'.cpu = .kernel ⟨s.pcbId (nextTermId s.con.nowTermId), 1⟩

theorem tickDone (hnamed : Named s) (hlive : ∀ u, s.HasProcess u) {stale : Stale}
    (hs : step img s (.tick stale) = some s') : TickDone s s' := by
  set next := nextTermId s.con.nowTermId with hnext
  have hne : s.pcbId next ≠ s.nowPcbId := pcbId_ne hlive (nextTermId_ne _)
  obtain ⟨m, ⟨paging, hcore⟩, hres⟩ := tick_of_live hlive hs
  rw [core_saveContext] at hcore
  have hsaved : (s.saveContext.pcb s.saveContext.nowPcbId).kbp = (s.pcb (s.pcbId next)).kbp := by
    have hkbp := congrArg Core.kbp (core_saveContext s)
    refine (congrFun hkbp (s.pcbId next)).trans ?_
    exact Function.update_of_ne hne _ _
  rw [hsaved] at hres
  have hkbp : (s.pcb (s.pcbId next)).kbp.stack = s.pcbId next :=
    hnamed.suspended _ (nextTermId_ne _)
  obtain ⟨hnumber, hlt⟩ := pcbNumber_of_live (hlive next)
  rw [hnumber] at hcore
  have hterm : ∀ u, (m.con.term u).curPcbId = (s.con.term u).curPcbId :=
    fun u => congrArg (fun c : Core => (c.term u).curPcbId) hcore
  have hmask : m.pcbMask = s.pcbMask := congrArg (fun c : Core => c.mask) hcore
  have htss : stackOf m.tssEsp0 = s.pcbId next := by
    rw [show m.tssEsp0 = _ from congrArg Core.tssEsp0 hcore]
    exact stackOf_processEsp0 hlt
  have hkbps : ∀ u, (m.pcb (s.pcbId u)).kbp =
      if u = s.con.nowTermId then s.entry.up else (s.pcb (s.pcbId u)).kbp := by
    intro u
    refine (congrFun (congrArg Core.kbp hcore) (s.pcbId u)).trans ?_
    split
    · rename_i hu
      subst hu
      exact Function.update_self ..
    · rename_i hu
      exact Function.update_of_ne (pcbId_ne hlive hu) _ _
  -- where the tick goes on
  obtain ⟨cpu, rfl, hstack, hcpu⟩ : ∃ cpu, s' = { m with cpu := cpu } ∧
      (cpu = .user ∨ ∃ d, cpu = .kernel ⟨s.pcbId next, d⟩) ∧
      ((s.pcb (s.pcbId next)).kbp.depth = 2 → cpu = .kernel ⟨s.pcbId next, 1⟩) := by
    obtain ⟨-, ⟨hdepth, rfl⟩ | ⟨d, hdepth, rfl⟩⟩ := resume_pit_cases hres
    · exact ⟨.user, rfl, .inl rfl, fun h2 => by omega⟩
    · refine ⟨_, rfl, .inr ⟨d + 1, by rw [hkbp]⟩, fun h2 => ?_⟩
      obtain rfl : d = 0 := by omega
      rw [hkbp]
  refine ⟨congrArg (fun c : Core => c.now) hcore, fun u => ?_, fun u => ?_, htss, hkbps,
    congrArg Core.kstack hcore, hstack, hcpu⟩
  · change uint8 ((m.con.term u).curPcbId + _) = _
    rw [hterm]
    rfl
  · change ∃ i : Fin 4, (m.con.term u).curPcbId = i.val ∧ m.pcbMask u i = true
    rw [hterm, hmask]
    exact hlive u

/-- A tick, in the process or away from it. -/
theorem ReadsClock.tick (h : ReadsClock s t) {stale : Stale}
    (hs : step img s (.tick stale) = some s') : ReadsClock s' t := by
  have hd := tickDone h.toNamed h.live hs
  have hnext : s'.nowPcbId = s.pcbId (nextTermId s.con.nowTermId) :=
    (congrArg s'.pcbId hd.now).trans (hd.pcbId _)
  refine ⟨⟨?_, hd.tss.trans hnext.symm, ?_⟩, hd.live, ?_, ?_, ?_⟩
  · rw [hnext]
    obtain huser | ⟨d, hkernel⟩ := hd.stack
    · simp only [Kernel.entry, huser]
      exact hd.tss
    · simp only [Kernel.entry, hkernel]
  · intro u hu
    rw [hd.pcbId, hd.kbp]
    split
    · rename_i hun
      subst hun
      exact h.running
    · rename_i hun
      exact h.suspended u hun
  · rw [hd.pcbId, hd.kstack]
    by_cases ht : s.con.nowTermId = t
    · -- the frame of the tick goes above that of the call
      have hentry : s.entry = ⟨s.pcbId t, 1⟩ := by
        simp only [Kernel.entry, h.cpu ht]
      rw [hentry]
      exact getElem?_pushFrame Nat.one_pos h.frame
    · rw [pushFrame_of_ne]
      · exact h.frame
      · rw [h.running]
        exact pcbId_ne h.live ht
  · intro ht
    rw [hd.now] at ht
    subst ht
    rw [hd.pcbId]
    exact hd.loop (congrArg StackPtr.depth (h.kbp (nextTermId_ne _).symm))
  · intro ht
    rw [hd.pcbId, hd.kbp]
    split
    · rename_i htn
      subst htn
      simp only [Kernel.entry, h.cpu rfl, StackPtr.up]
    · rename_i htn
      exact h.kbp (Ne.symm htn)

/-- **Step lemma.** The call stays where it is. -/
theorem ReadsClock.step {e : Event} (h : ReadsClock s t) (hg : WhileReading img t s e)
    (hs : step img s e = some s') : ReadsClock s' t := by
  obtain ⟨⟨hexec, hhalt⟩, hcalls, hreturns⟩ := hg
  by_cases hrun : e.isRun = true ∧ s.con.nowTermId = t
  · -- a turn of its own loop, which does not end the call
    obtain ⟨hrun, hnow⟩ := hrun
    cases e with
    | run =>
      have hwaits := h.waits hnow
      by_cases hcount : 0 < (s.drivers.clock (s.pcbId t)).counter
      · rw [step_run_of_waits hwaits, if_pos hcount] at hs
        obtain rfl := Option.some.inj hs
        exact h
      · refine absurd ⟨hnow, rfl, ?_⟩ hreturns
        rw [step_run_of_waits hwaits, if_neg hcount]
        rfl
    | _ => cases hrun
  · -- what a process on another stack does to its own
    have hpush : s.con.nowTermId ≠ t → ∀ (sp : StackPtr) (f : Frame), sp.stack = s.entry.stack →
        (pushFrame s.kstack sp f (s.pcbId t))[0]? = (s.kstack (s.pcbId t))[0]? := by
      intro hne sp f hsp
      rw [pushFrame_of_ne]
      rw [hsp, h.running]
      exact pcbId_ne h.live hne
    have huser : s.cpu = .user → s.con.nowTermId ≠ t := by
      intro hcpu hnow
      rw [h.cpu hnow] at hcpu
      cases hcpu
    cases step_kind hs with
    | tick hi htick => exact h.tick hs
    | execute hcpu hex ho => cases hexec
    | halt hcall hcore hcur hh =>
      rw [hcall] at hhalt
      cases hhalt
    | light hcall hex hcore =>
      exact h.of_eq (table_eq_of_core hcore) (congrArg Core.kbp hcore :)
        (congrArg Core.tssEsp0 hcore :) (congrArg StackPtr.stack (entry_eq_of_core hcore))
        (by rw [show s'.kstack = s.kstack from congrArg Core.kstack hcore])
        fun _ => (congrArg Core.cpu hcore :)
    | @block fd nbytes buf m f hcpu hcore hf =>
      have hentry : m.entry = s.entry := entry_eq_of_core hcore
      refine h.of_eq ((table_block ..).trans (table_eq_of_core hcore)) (congrArg Core.kbp hcore :)
        (congrArg Core.tssEsp0 hcore :) (congrArg StackPtr.stack hentry :) ?_
        fun hnow => absurd hnow (huser hcpu)
      change (pushFrame m.kstack m.entry f (s.pcbId t))[0]? = _
      rw [show m.kstack = s.kstack from congrArg Core.kstack hcore, hentry]
      exact hpush (huser hcpu) _ _ rfl
    | fault hcpu => exact h.of_eq rfl rfl rfl rfl rfl fun hnow => absurd hnow (huser hcpu)
    | video hcore =>
      refine h.of_eq (congrArg Core.toTable hcore :) (congrArg Core.kbp hcore :)
        (congrArg Core.tssEsp0 hcore :) ?_
        (by rw [show s'.kstack = s.kstack from congrArg Core.kstack hcore])
        fun _ => (congrArg Core.cpu hcore :)
      exact (congrArg (fun c : Core => c.entry.stack) hcore :)
    | @loop sp f₀ f _ hcpu hframe hf₀ hf hcore =>
      have hne : s.con.nowTermId ≠ t := fun hnow => hrun ⟨rfl, hnow⟩
      have hsp : sp.stack = s.entry.stack := by simp only [Kernel.entry, hcpu]
      refine h.of_eq (congrArg Core.toTable hcore :) (congrArg Core.kbp hcore :)
        (congrArg Core.tssEsp0 hcore :) ?_ ?_ fun _ => (congrArg Core.cpu hcore :)
      · exact (congrArg (fun c : Core => c.entry.stack) hcore :)
      · rw [show s'.kstack = _ from congrArg Core.kstack hcore]
        exact hpush hne _ _ hsp
    | loopEnd hcpu hframe hf₀ hdepth hcore =>
      have hne : s.con.nowTermId ≠ t := fun hnow => hrun ⟨rfl, hnow⟩
      refine h.of_eq (congrArg Core.toTable hcore :) (congrArg Core.kbp hcore :)
        (congrArg Core.tssEsp0 hcore :) ?_
        (by rw [show s'.kstack = s.kstack from congrArg Core.kstack hcore])
        fun hnow => absurd hnow hne
      refine (congrArg (fun c : Core => c.entry.stack) hcore :).trans ?_
      exact h.tss.trans h.running.symm

/-- From the call on. -/
theorem readsClock_of_rtcRead (hnamed : Named s) (hlive : ∀ u, s.HasProcess u)
    (hcpu : s.cpu = .user)
    (h : s' = (s.setPcb s.nowPcbId { s.pcb s.nowPcbId with
        rtcCounter := 1024 / (s.pcb s.nowPcbId).rtcFreq }).block (.rtcRead s.nowPcbId)) :
    ReadsClock s' s.con.nowTermId := by
  subst h
  have hentry : s.entry = ⟨s.nowPcbId, 0⟩ := by
    have hstack := hnamed.running
    simp only [Kernel.entry, hcpu] at hstack ⊢
    rw [hstack]
  refine ⟨⟨hnamed.running, hnamed.tss, ?_⟩, hlive, ?_, fun _ => ?_, fun hne => absurd rfl hne⟩
  · intro u hu
    refine Eq.trans ?_ (hnamed.suspended u hu)
    exact congrArg (fun p : Pcb => p.kbp.stack) (Function.update_of_ne (pcbId_ne hlive hu) _ _)
  · change (pushFrame s.kstack s.entry (.rtcRead s.nowPcbId) s.nowPcbId)[0]? = _
    rw [hentry]
    exact pushFrame_zero ..
  · change Cpu.kernel s.entry.up = _
    rw [hentry]
    rfl

/-! ### The result -/

/-- What holds of the clock of the process of terminal `t`, `n` interrupts into a period. -/
def InPeriod (t : TermId) (p freq n : Nat) (s : Kernel) : Prop :=
  (∀ u, s.HasProcess u) ∧ s.pcbId t = p ∧ s.drivers.clock p = ⟨freq, 1024 / freq - n⟩

theorem inPeriod_step {p freq n : Nat} {e : Event} (h : InPeriod t p freq n s)
    (hg : WhileReading img t s e) (hs : step img s e = some s') :
    InPeriod t p freq (n + if e.isRtc then 1 else 0) s' := by
  obtain ⟨hlive, rfl, hclock⟩ := h
  obtain ⟨hlive', hid⟩ := live_step hlive hg.1 hs
  refine ⟨hlive', hid t, ?_⟩
  rw [clock_of_other hlive hg.2.1 hs, hclock]
  split
  · simp only [RtcClock.tick, RtcClock.mk.injEq, true_and]
    omega
  · rfl

/-- `rtc_read` returns 0 at the first turn of its wait loop that comes after a period of its
process's own clock, counted from the moment it set its counter: 1024 interrupts divided by the
frequency that the process has chosen. Until then it waits, and nothing that other processes do
changes its frequency or its counter. -/
theorem rtcRead_returns {filename : List UInt8} {fd nbytes : Int} {buf freq : Nat}
    {es fs : List Event} {s₀ s₁ m m' : Kernel} (hopens : s₀.opensRtc img filename = true)
    (hopen : step img s₀ (.open filename) = some s₁)
    (hhistory : run (freqStep img s₀.nowPcbId) (s₁, 2) es = some (m, freq))
    (hp : m.nowPcbId = s₀.nowPcbId) (hlive : ∀ u, m.HasProcess u)
    (hrtc : m.usesRtc fd buf = true) (hread : step img m (.read fd buf nbytes) = some m')
    (hg : Guarded (step img) (WhileReading img m.con.nowTermId) m' fs)
    (hrun : run (step img) m' fs = some s') :
    s'.drivers.clock m.nowPcbId = ⟨freq, 1024 / freq - rtcs fs⟩ ∧
      (Waits s' m.nowPcbId → step img s' .run =
        some (if rtcs fs < 1024 / freq then s' else { s' with cpu := .user, eax := 0 })) ∧
      (Named m → s'.con.nowTermId = m.con.nowTermId → Waits s' m.nowPcbId) := by
  obtain ⟨hfreq, hne⟩ := freq_of_history hopens hopen hhistory
  rw [← hp] at hfreq
  obtain ⟨hm', -⟩ := waits_of_rtcRead hrtc (hfreq ▸ hne) hread
  have hstart : InPeriod m.con.nowTermId m.nowPcbId freq 0 m' := by
    subst hm'
    refine ⟨hlive, rfl, ?_⟩
    rw [drivers_block, drivers_setClock]
    simp only [DriverState.setClock, Function.update_self]
    exact congrArg₂ RtcClock.mk hfreq (by rw [← hfreq]; rfl)
  have hend : InPeriod m.con.nowTermId m.nowPcbId freq (rtcs fs) s' := by
    have h := Guarded.invariant_count (fun e : Event => if e.isRtc then 1 else 0)
      (fun k s e s' hk hg hs => inPeriod_step hk hg hs) hstart hg hrun
    rwa [Nat.zero_add] at h
  refine ⟨hend.2.2, fun hwaits => ?_, fun hnamed hnow => ?_⟩
  · rw [step_run_of_waits hwaits, hend.2.2]
    simp only [Nat.sub_pos_iff_lt]
  · have hblocked := readsClock_of_rtcRead hnamed hlive (step_call hread rfl).1 hm'
    have hreads := Guarded.invariant (P := fun s => ReadsClock s m.con.nowTermId)
      (fun s e s' h hg hs => h.step hg hs) hblocked hg hrun
    have hid : s'.pcbId m.con.nowTermId = m.nowPcbId := hend.2.1
    rw [← hid]
    exact hreads.waits hnow

/-- The sample image with an entry `rtc` for the clock. -/
def clockImage : Image := fun a =>
  (([(0, 3), (192, 114), (193, 116), (194, 99)] ++ sampleBytes).find? fun w : Store => w.1 = a).elim
    0 Prod.snd

def clockName : List UInt8 := text ['r', 't', 'c']

/-- The bytes of 1024. -/
def fastest : Nat → UInt8 := fun j => if j = 1 then 4 else 0

/-- The other two terminals have their turns before the reader's loop makes one. -/
def waitEvents : List Event := [.tick noStale, .rtc, .rtc, .tick noStale, .tick noStale]

/-- The shell of terminal 0 opens the clock, makes it as fast as it gets, and reads it. -/
theorem clockRun : ∃ s₀ s₁ m m' s',
    run (step clockImage) (boot powerOn) launchEvents = some s₀ ∧
    s₀.opensRtc clockImage clockName = true ∧
    step clockImage s₀ (.open clockName) = some s₁ ∧
    run (freqStep clockImage s₀.nowPcbId) (s₁, 2) [.write 2 0x8000000 fastest 4] =
      some (m, 1024) ∧
    m.nowPcbId = s₀.nowPcbId ∧ (∀ u, m.HasProcess u) ∧ Named m ∧
    m.usesRtc 2 0x8000000 = true ∧ step clockImage m (.read 2 0x8000000 4) = some m' ∧
    Guarded (step clockImage) (WhileReading clockImage m.con.nowTermId) m' waitEvents ∧
    run (step clockImage) m' waitEvents = some s' ∧
    Returns clockImage m.con.nowTermId s' .run := by
  have hobs : ((run (step clockImage) (boot powerOn) launchEvents).bind fun s₀ =>
      (step clockImage s₀ (.open clockName)).bind fun s₁ =>
      (run (freqStep clockImage s₀.nowPcbId) (s₁, 2) [.write 2 0x8000000 fastest 4]).bind fun x =>
      (step clockImage x.1 (.read 2 0x8000000 4)).bind fun m' =>
      (run (step clockImage) m' waitEvents).map fun s' =>
        decide ((s₀.opensRtc clockImage clockName = true ∧ x.2 = 1024 ∧
            x.1.nowPcbId = s₀.nowPcbId ∧ (∀ u, x.1.HasProcess u)) ∧
          (x.1.entry.stack = x.1.nowPcbId ∧ stackOf x.1.tssEsp0 = x.1.nowPcbId ∧
            ∀ u, u ≠ x.1.con.nowTermId → (x.1.pcb (x.1.pcbId u)).kbp.stack = x.1.pcbId u) ∧
          x.1.usesRtc 2 0x8000000 = true ∧
          Guarded (step clockImage) (WhileReading clockImage x.1.con.nowTermId) m' waitEvents ∧
          Returns clockImage x.1.con.nowTermId s' .run)) = some true := by decide +kernel
  obtain ⟨s₀, hs₀, hobs⟩ := Option.bind_eq_some_iff.mp hobs
  obtain ⟨s₁, hs₁, hobs⟩ := Option.bind_eq_some_iff.mp hobs
  obtain ⟨⟨m, freq⟩, hm, hobs⟩ := Option.bind_eq_some_iff.mp hobs
  obtain ⟨m', hm', hobs⟩ := Option.bind_eq_some_iff.mp hobs
  obtain ⟨s', hs', hobs⟩ := Option.map_eq_some_iff.mp hobs
  obtain ⟨⟨hopens, rfl, hp, hlive⟩, ⟨hrunning, htss, hsuspended⟩, hrtc, hg, hreturns⟩ :=
    of_decide_eq_true hobs
  exact ⟨s₀, s₁, m, m', s', hs₀, hopens, hs₁, hm, hp, hlive, ⟨hrunning, htss, hsuspended⟩, hrtc,
    hm', hg, hs', hreturns⟩

theorem rtcRead_returns_sample : ∃ m m' s',
    step clockImage m (.read 2 0x8000000 4) = some m' ∧
    run (step clockImage) m' waitEvents = some s' ∧
    step clockImage s' .run = some { s' with cpu := .user, eax := 0 } := by
  obtain ⟨s₀, s₁, m, m', s', -, hopens, hs₁, hm, hp, hlive, hnamed, hrtc, hm', hg, hs',
    hreturns⟩ := clockRun
  obtain ⟨-, hturn, hwaits⟩ := rtcRead_returns hopens hs₁ hm hp hlive hrtc hm' hg hs'
  exact ⟨m, m', s', hm', hs', hturn (hwaits hnamed hreturns.1)⟩

/-- The clock has interrupted twice when a period of one interrupt is over for the reader. -/
theorem not_rtcRead_exact : ¬ ∀ (img : Image) (b s₀ s₁ m m' s' : Kernel) (filename : List UInt8)
    (fd nbytes : Int) (buf freq : Nat) (ds es fs : List Event),
    run (step img) (boot b) ds = some s₀ → s₀.opensRtc img filename = true →
    step img s₀ (.open filename) = some s₁ →
    run (freqStep img s₀.nowPcbId) (s₁, 2) es = some (m, freq) → m.nowPcbId = s₀.nowPcbId →
    (∀ u, m.HasProcess u) → Named m → m.usesRtc fd buf = true →
    step img m (.read fd buf nbytes) = some m' →
    Guarded (step img) (WhileReading img m.con.nowTermId) m' fs → run (step img) m' fs = some s' →
    Returns img m.con.nowTermId s' .run → rtcs fs = 1024 / freq := by
  intro hclock
  obtain ⟨s₀, s₁, m, m', s', hs₀, hopens, hs₁, hm, hp, hlive, hnamed, hrtc, hm', hg, hs',
    hreturns⟩ := clockRun
  have hexact := hclock clockImage powerOn s₀ s₁ m m' s' clockName 2 4 0x8000000 1024 launchEvents
    _ waitEvents hs₀ hopens hs₁ hm hp hlive hnamed hrtc hm' hg hs' hreturns
  exact absurd hexact (by decide)

end LinuxLikeKernel
