import LinuxLikeKernel.UserProgram

/-!
# The program `cat`

`main` of `ece391cat.c` as a client of the file service: in any run it writes the file that it is
given to the screen, in the order of its bytes, and returns 0. What is printed for it is the file
itself if that has no `%`.

## Main definitions

- `cat` — the program

## Main results

- `cat_settles` — what `cat` does to its end
- `cat_prints_file` — what `cat` has done in any run
-/

namespace LinuxLikeKernel
open ByteMemory Kernel Transition Client

/-- The loop of `cat`, of at most `fuel` turns; `none` if they do not suffice. -/
def catLoop (buf lit : Nat) (fd : Int) : Nat → (Nat → UInt8) → UserProg (Option Int)
  | 0, _ => pure none
  | fuel + 1, data => do
    let cnt ← .ask (.read fd buf 1024)
    let data := overwrite data 0 cnt.bytes
    if cnt.ret = 0 then return some 0
    if cnt.ret = -1 then
      let _ ← fdputs 1 lit (text "file read failed\n".toList)
      return some 3
    let r ← .ask (.write 1 buf data cnt.ret)
    if r.ret = -1 then return some 3
    catLoop buf lit fd fuel data

/-- `main` of `ece391cat.c`, with its array of 1024 bytes `data` at `buf` and its texts at `lit`. -/
def cat (buf lit fuel : Nat) (data : Nat → UInt8) : UserProg (Option Int) := do
  let args ← .ask (.getargs buf 1024)
  let data := overwrite data 0 args.bytes
  if args.ret ≠ 0 then
    let _ ← fdputs 1 lit (text "could not read arguments\n".toList)
    return some 3
  let fd ← .ask (.open (textAt data 0 1024))
  if fd.ret = -1 then
    let _ ← fdputs 1 lit (text "file not found\n".toList)
    return some 2
  catLoop buf lit fd.ret fuel data

variable {vol : Volume} {σ : Session} {fd i : Fin 8}

/-! ### The loop -/

/-- A turn of the loop at the end of the file. -/
theorem catLoop_end {buf lit fuel position : Nat} {contents : List UInt8} (hbuf : buf ≠ 0)
    (data : Nat → UInt8) (hfile : σ.handles i = some (.file contents position))
    (hend : contents.length ≤ position) :
    ∃ log τ, Settles (FileService vol) σ (catLoop buf lit i.val (fuel + 1) data) log (some 0) τ ∧
      writtenText log = [] ∧ log.length = 1 := by
  have hchunk : chunkAt contents position 1024 = [] := by
    rw [chunkAt, List.drop_eq_nil_of_le hend, List.take_nil]
  have hread := onlyReply_readFile vol 1024 (find_of_handle hfile) hbuf
  rw [hchunk] at hread
  exact ⟨[(_, _)], _, .ask_bind hread .done, rfl, rfl⟩

/-- The loop writes the rest of the file. -/
theorem catLoop_settles (vol : Volume) {buf : Nat} (lit : Nat) {contents : List UInt8}
    (hbuf : buf ≠ 0) (hnul : 0 ∉ contents) (hi : i ≠ 1) (fuel position : Nat)
    (data : Nat → UInt8) (σ : Session) (hfile : σ.handles i = some (.file contents position))
    (hscreen : σ.handles 1 = some .screen) (hfuel : contents.length ≤ position + 1024 * fuel) :
    ∃ log τ, Settles (FileService vol) σ (catLoop buf lit i.val (fuel + 1) data) log (some 0) τ ∧
      writtenText log = contents.drop position ∧ log.length ≤ 2 * fuel + 1 := by
  induction fuel generalizing position data σ with
  | zero =>
    obtain ⟨log, τ, hsettles, hwritten, hlen⟩ :=
      @catLoop_end vol σ i buf lit 0 position contents hbuf data hfile (by omega)
    exact ⟨log, τ, hsettles, by rw [hwritten, List.drop_eq_nil_of_le (by omega)], by omega⟩
  | succ fuel ih =>
    by_cases hend : contents.length ≤ position
    · obtain ⟨log, τ, hsettles, hwritten, hlen⟩ :=
        @catLoop_end vol σ i buf lit (fuel + 1) position contents hbuf data hfile hend
      exact ⟨log, τ, hsettles, by rw [hwritten, List.drop_eq_nil_of_le hend], by omega⟩
    · -- a chunk is read and written, and the loop goes on behind it
      have hread := onlyReply_readFile vol 1024 (find_of_handle hfile) hbuf
      have hsplit := chunkAt_append_drop contents position 1024
      have hlen : (chunkAt contents position 1024).length =
          min 1024 (contents.length - position) := by
        rw [chunkAt, List.length_take, List.length_drop]
        rfl
      have hzero : 0 ∉ chunkAt contents position 1024 := fun hmem =>
        hnul (List.drop_subset _ _ (List.take_subset _ _ hmem))
      generalize chunkAt contents position 1024 = chunk at hread hsplit hlen hzero
      have hscreen' : (σ.set i (some (.file contents (position + chunk.length)))).handles 1 =
          some .screen := by
        rw [set_handles_of_ne _ hi.symm, hscreen]
      have hwrite := onlyReply_writeScreen vol chunk.length (overwrite data 0 chunk)
        (find_of_handle hscreen') hbuf
      rw [writeText_overwrite data hzero] at hwrite
      obtain ⟨log, τ, hsettles, hwritten, hcount⟩ := ih (position + chunk.length)
        (overwrite data 0 chunk) _ (set_handles_self ..) hscreen' (by omega)
      have hne : ¬(chunk.length : Int) = 0 := by omega
      have hne' : ¬(chunk.length : Int) = -1 := by omega
      have hall : Settles (FileService vol) σ (catLoop buf lit i.val (fuel + 1 + 1) data)
          ((.read i.val buf 1024, ⟨chunk.length, chunk⟩) ::
            (.write 1 buf (overwrite data 0 chunk) chunk.length, ⟨chunk.length, []⟩) :: log)
          (some 0) τ := by
        refine .ask_bind hread ?_
        simp only [if_neg hne, if_neg hne']
        refine .ask_bind hwrite ?_
        simp only [if_neg hne']
        exact hsettles
      refine ⟨_, τ, hall, ?_, ?_⟩
      · rw [← hsplit, ← hwritten]
        exact congrArg (· ++ writtenText log) (writeText_overwrite data hzero)
      · simp only [List.length_cons]
        omega

/-! ### The program -/

/-- What `cat` does, with the name of a file for its argument. -/
theorem cat_settles (vol : Volume) (σ : Session) (fd : Fin 8) {buf : Nat} (lit : Nat) {fuel : Nat}
    {contents : List UInt8} (data : Nat → UInt8) (hbuf : buf ≠ 0) (hnul : 0 ∉ contents)
    (hfuel : contents.length ≤ 1024 * fuel) (hargs : σ.args ≠ []) (hlen : σ.args.length < 1024)
    (hzero : 0 ∉ σ.args) (hvol : vol σ.args = some (.file contents 0)) (hfree : σ.free = some fd)
    (hscreen : σ.handles 1 = some .screen) :
    ∃ log τ, Settles (FileService vol) σ (cat buf lit (fuel + 1) data) log (some 0) τ ∧
      writtenText log = contents ∧ log.length ≤ 2 * fuel + 3 := by
  have hfd : fd ≠ 1 := by
    rintro rfl
    have hclosed := List.find?_some hfree
    rw [hscreen] at hclosed
    cases hclosed
  have hgetargs := onlyReply_getargs vol buf (List.length_pos_iff.mpr hargs)
    (Int.ofNat_lt.mpr hlen)
  have hopen := onlyReply_open hvol hfree
  have hscreen' : (σ.set fd (some (.file contents 0))).handles 1 = some .screen := by
    rw [set_handles_of_ne _ hfd.symm, hscreen]
  obtain ⟨log, τ, hsettles, hwritten, hcount⟩ := catLoop_settles vol lit hbuf hnul hfd fuel 0
    (overwrite data 0 (σ.args ++ [0])) _ (set_handles_self ..) hscreen' (by omega)
  have hne : ¬(fd.val : Int) = -1 := by omega
  have hall : Settles (FileService vol) σ (cat buf lit (fuel + 1) data)
      ((.getargs buf 1024, ⟨0, σ.args ++ [0]⟩) :: (.open σ.args, ⟨fd.val, []⟩) :: log)
      (some 0) τ := by
    refine .ask_bind hgetargs ?_
    simp only [textAt_overwrite hzero hlen, ne_eq, not_true_eq_false, if_false]
    refine .ask_bind hopen ?_
    simp only [if_neg hne]
    exact hsettles
  refine ⟨_, τ, hall, hwritten, ?_⟩
  simp only [List.length_cons]
  omega

/-- **`cat`.** Started with the name of a regular file that has no NUL, in any run that leaves its
files to it, `cat` has written a part of the file from its start on, and all of it when it is
done, which it is after so many calls. A file without `%` is printed as it is written. -/
theorem cat_prints_file {img : Image} {s₀ s m : Kernel} {sp : StackPtr} {command : List UInt8}
    {stale : Stale} {dentry : Dentry} {buf lit fuel : Nat} {data : Nat → UInt8} {es : List Event}
    {log : ServiceLog} {q : UserProg (Option Int)} (htidy : Tidy img) (hcommand : 0 ∉ command)
    (hstart : execute img s₀ sp command stale = some (.started s)) (hargs : argText command ≠ [])
    (hdentry : readDentryByName img (argText command) = some dentry)
    (hregular : dentry.filetype = 2) (hnul : 0 ∉ img.contents dentry.inode) (hbuf : buf ≠ 0)
    (hfuel : img.inodeSize dentry.inode ≤ 1024 * fuel)
    (hspare : Guarded (logReplies img s.getCurPcb) (fun x e => SparesFiles s.getCurPcb x.1 e)
      (s, []) es)
    (hrun : run (logReplies img s.getCurPcb) (s, []) es = some (m, log))
    (hdoes : Does (cat buf lit (fuel + 1) data) log q) :
    writtenText log <+: img.contents dentry.inode ∧ log.length ≤ 2 * fuel + 3 ∧
      (∀ r, q = .done r → r = some 0 ∧ writtenText log = img.contents dentry.inode) ∧
      (37 ∉ img.contents dentry.inode → printedText log = writtenText log) := by
  obtain ⟨prog, cur, i, mem, hl, -, -, -, -, rfl⟩ := execute_started_cases hstart
  obtain ⟨hprog, hlen⟩ := args_lookup hl
  have hzero : 0 ∉ prog.args := hprog ▸ zero_not_mem_argText hcommand
  rw [getCurPcb_started] at hspare hrun
  have hpcb : ((s₀.withMem mem).started sp cur i prog.args).pcb (slotId cur i) =
      newPcb (s₀.pcb (slotId cur i)) sp.up cur (slotId cur i) prog.args := by
    rw [pcb_started, Function.update_self, pcb_withMem]
  have hmask : ((s₀.withMem mem).started sp cur i prog.args).pcbMask cur i = true := by
    change markSlot s₀.pcbMask cur i true cur i = true
    simp [markSlot]
  have hsound :
      FdsSound img (((s₀.withMem mem).started sp cur i prog.args).pcb (slotId cur i)).fds := by
    rw [hpcb]
    exact fdsSound_freshFds img
  have hsession := session_newPcb img (s₀.pcb (slotId cur i)) sp.up cur (slotId cur i) hzero hlen
  rw [← hpcb] at hsession
  have hvol : img.volume prog.args = some (.file (img.contents dentry.inode) 0) := by
    simp only [Image.volume, hprog, hdentry, Option.bind_some, Dentry.handle, hregular]
  rw [← hprog] at hargs
  obtain ⟨full, τ, hsettles, hwritten, hcount⟩ := cat_settles img.volume
    ⟨fun fd => (freshFds fd).handle img, prog.args⟩ 2 lit data hbuf hnul
    (by rwa [Image.length_contents]) hargs (hlen.trans_lt (by decide)) hzero hvol rfl rfl
  rw [← hsession] at hsettles
  obtain ⟨⟨rest, hrest⟩, hdone⟩ := does_of_settles htidy hmask hsound hspare hrun hdoes hsettles
  have hpart : writtenText log <+: img.contents dentry.inode :=
    ⟨writtenText rest, by rw [← writtenText_append, hrest, hwritten]⟩
  refine ⟨hpart, ?_, fun r hq => ?_, fun hplain => printedText_eq fun h => hplain ?_⟩
  · rw [← hrest, List.length_append] at hcount
    omega
  · obtain ⟨rfl, rfl, -⟩ := hdone r hq
    exact ⟨rfl, hwritten⟩
  · exact hpart.subset h

/-- The calls of `cat`, while the other terminals get their shells, which open files too, and a key
is typed. -/
def catSchedule : List (Option Event) :=
  [none, some .rtc, none, some (.tick noStale), some (.open shellCommand), some (.tick noStale),
    some (.key 0x1e noStale), some (.tick noStale), none, some (.key 0x9e noStale), none, none]

theorem cat_prints_file_sample : ∃ s₀ s es m log,
    run (step textImage) (boot powerOn) [.tick noStale] = some s₀ ∧
    execute textImage s₀ s₀.entry (shellCommand ++ text [' ', 'a']) noStale =
      some (.started s) ∧
    run (logReplies textImage s.getCurPcb) (s, []) es = some (m, log) ∧
    Does (cat 0x8000000 1 2 fun _ => 0) log (.done (some 0)) ∧
    printedText log = textImage.contents 1 := by
  have hobs : ((run (step textImage) (boot powerOn) [.tick noStale]).bind fun s₀ =>
      (execute textImage s₀ s₀.entry (shellCommand ++ text [' ', 'a']) noStale).bind fun o =>
      (drive textImage o.state.getCurPcb catSchedule o.state
        (cat 0x8000000 1 2 fun _ => 0)).map fun x =>
      (o.isStarted, x.2.result, decide (Guarded (logReplies textImage o.state.getCurPcb)
        (fun x e => SparesFiles o.state.getCurPcb x.1 e) (o.state, []) x.1))) =
      some (true, some (some 0), true) := by decide +kernel
  obtain ⟨s₀, hs₀, hobs⟩ := Option.bind_eq_some_iff.mp hobs
  obtain ⟨o, ho, hobs⟩ := Option.bind_eq_some_iff.mp hobs
  obtain ⟨⟨es, q⟩, hdrive, hobs⟩ := Option.map_eq_some_iff.mp hobs
  simp only [Prod.mk.injEq, decide_eq_true_eq] at hobs
  obtain ⟨hstarted, hq, hspare⟩ := hobs
  obtain ⟨m, log, hrun, hdoes⟩ := run_drive [] hdrive
  cases o with
  | returned eax r => cases hstarted
  | faulted r => cases hstarted
  | started s =>
    have hdentry : readDentryByName textImage (argText (shellCommand ++ text [' ', 'a'])) =
        some ⟨text ['a'], 2, 1⟩ := by decide +kernel
    obtain rfl := Prog.eq_done_of_result hq
    obtain ⟨-, -, hdone, hplain⟩ := cat_prints_file textImage_tidy (by decide) ho (by decide)
      hdentry rfl (by decide +kernel) (by decide) (by decide +kernel : _ ≤ 1024 * 1) hspare hrun
      hdoes
    exact ⟨s₀, s, es, m, log, hs₀, ho, hrun, hdoes,
      (hplain (by decide +kernel)).trans (hdone _ rfl).2⟩

end LinuxLikeKernel
