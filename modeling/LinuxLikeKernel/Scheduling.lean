import LinuxLikeKernel.Process

/-!
# Scheduling

`pit_interrupt_handler` of `scheduling.c`, which switches terminals and launches those that
have no process through `term_launch` of `terminal.c`, and `rtc_interrupt_handler`.
-/

namespace LinuxLikeKernel

/-- `(now_term_id + 1) % TERM_MAX`. -/
def nextTermId (t : TermId) : TermId := t + 1

/-- `term_launch` up to `execute`: the console with terminal `id` displayed and running. -/
def Console.launchTerm (k : Console) (id : TermId) : Console :=
  let k := match k.curTermId with
    | some cur => k.termSave cur
    | none => k
  let k := k.termRestore id
  k.setTerm id { k.term id with running := true }

namespace Kernel

/-- `term_launch`, called from the tick whose frame is at `sp`. After a launch the new shell
runs; otherwise the tick goes back to what it interrupted. -/
def termLaunch (img : Image) (s : Kernel) (id : TermId) (sp : StackPtr) (stale : Stale) :
    Option Kernel :=
  if s.con.curTermId = some id then some s
  else if (s.con.term id).running then
    (s.con.termSwitch s.con.curTermId id).map fun k => s.setCon k
  else
    (execute img (s.setCon (s.con.launchTerm id)) sp shellCommand stale).map fun
      | .started s => s
      | .faulted s => s
      | .returned _ s => s

/-- The start of `pit_interrupt_handler`: its frame goes on the stack, ESP and EBP into the PCB
of the running terminal, and the next terminal becomes the running one. -/
def saveContext (s : Kernel) : Kernel :=
  let id := s.nowPcbId
  let sp := s.entry.up
  let s := s.push s.entry .pit
  let s := s.setPcb id { s.pcb id with kbp := sp, ksp := sp }
  s.setCon { s.con with nowTermId := nextTermId s.con.nowTermId }

/-- The page a process switch maps at the user video address and makes the target of
attributes: the screen for the displayed terminal, else the page of `term[next_pcb->term_id]`. -/
def switchVideo (s : Kernel) (next : Pcb) : Option Nat :=
  if s.con.curTermId = some s.con.nowTermId then some video
  else if h : next.termId < 3 then some (s.con.term ⟨next.termId, h⟩).videoMem
  else none

/-- The second half of `pit_interrupt_handler`, for a terminal that has a process. -/
def switchProcess (s : Kernel) : Option Kernel :=
  let now := s.con.nowTermId
  let pcbNumber := (s.con.term now).curPcbId + now.val * maxPcbMaskLen
  let next := s.pcb s.nowPcbId
  (s.switchVideo next).bind fun page =>
    let s := s.mapProcess pcbNumber
    let s := s.setCon (s.con.setScreen (setVidmem s.con.screen page))
    { s with
      paging := s.paging.schedulingVideoMapping page
      tssEsp0 := processEsp0 pcbNumber }.resume next.kbp .pit

/-- `pit_interrupt_handler`. -/
def pitInterruptHandler (img : Image) (s : Kernel) (stale : Stale) : Option Kernel :=
  let sp := s.entry.up
  let s := s.saveContext
  if (s.con.term s.con.nowTermId).curPcbId = -1 then
    s.termLaunch img s.con.nowTermId sp stale
  else s.switchProcess

/-- One terminal's turn in the loop of `rtc_interrupt_handler`. -/
def rtcTick (s : Kernel) (t : TermId) : Kernel :=
  let p := s.pcb (s.pcbId t)
  if 0 < p.rtcCounter then s.setPcb (s.pcbId t) { p with rtcCounter := p.rtcCounter - 1 } else s

/-- `rtc_interrupt_handler`. -/
def rtcInterruptHandler (s : Kernel) : Kernel :=
  ((s.rtcTick 0).rtcTick 1).rtcTick 2

end Kernel

end LinuxLikeKernel
