import LinuxLikeKernel.FileService

/-!
# Programs in user mode

A user program makes system calls, and works on arrays of its own in between. In a run of the
machine its calls come one after the other, with any other events before, between and behind them.

## Main definitions

- `UserProg` — user programs
- `drive` — a run in which a process executes a program, by a schedule
- `overwrite`, `textAt`, `fdputs` — arrays, and the texts in them
- `writtenText`, `printedText` — what a log has given to `term_write`, and what that has printed

## Main results

- `run_drive` — what is driven is a run, with a log of the program
- `printedText_eq` — a text without `%` is printed as it is written
- `onlyReply_open`, `onlyReply_getargs`, `onlyReply_readFile`, `onlyReply_writeScreen`,
  `onlyReply_close` — calls that the service answers in one way
-/

namespace LinuxLikeKernel
open ByteMemory Kernel Transition Client

/-- A program in user mode, which makes system calls. -/
abbrev UserProg := Prog Event Effect

/-- An array into which bytes are stored from index `i` on. -/
def overwrite (data : Nat → UInt8) (i : Nat) (bytes : List UInt8) : Nat → UInt8 :=
  fun k => if i ≤ k then bytes.getD (k - i) (data k) else data k

/-- The bytes of an array with `n` elements from index `i` on, up to a NUL. -/
def textAt (data : Nat → UInt8) (i n : Nat) : List UInt8 :=
  ((List.range (n - i)).map fun k => data (i + k)).takeWhile (· ≠ 0)

/-- `ece391_fdputs` of a text at some address. -/
def fdputs (fd : Int) (addr : Nat) (s : List UInt8) : UserProg Effect :=
  .ask (.write fd addr (cstr s) s.length)

/-- What a call gives to `term_write` by descriptor 1. -/
def screenText : Event → List UInt8
  | .write 1 _ content nbytes => writeText content nbytes
  | _ => []

/-- What the calls of a log have given to `term_write`. -/
def writtenText (log : ServiceLog) : List UInt8 := log.flatMap fun x => screenText x.1

/-- What `term_write` has printed for them, each text being a format for `printf`. -/
def printedText (log : ServiceLog) : List UInt8 :=
  log.flatMap fun x => (printfText false (screenText x.1)).getD []

/-! ### Runs of a program -/

/-- The events of a run in which process `id` executes a program, and what is left of it. The
schedule has the other events, and `none` where the program makes its next call. -/
def drive (img : Image) (id : Nat) {α : Type} :
    List (Option Event) → Kernel → UserProg α → Option (List Event × UserProg α)
  | [], _, p => some ([], p)
  | none :: _, _, .done _ => none
  | none :: schedule, s, .call c next =>
    (step img s c).bind fun s' =>
      if Replies id s c s' then
        (drive img id schedule s' (next ⟨s'.eax, s.storedBytes img c⟩)).map fun x =>
          (c :: x.1, x.2)
      else none
  | some e :: schedule, s, p =>
    (step img s e).bind fun s' =>
      if Replies id s e s' then none
      else (drive img id schedule s' p).map fun x => (e :: x.1, x.2)

/-- What is driven is a run, and the log is one of the program. -/
theorem run_drive {img : Image} {id : Nat} {α : Type} {schedule : List (Option Event)}
    {s : Kernel} {p q : UserProg α} {es : List Event} (log : ServiceLog)
    (h : drive img id schedule s p = some (es, q)) :
    ∃ m rest, run (logReplies img id) (s, log) es = some (m, log ++ rest) ∧ Does p rest q := by
  induction schedule generalizing s p es log with
  | nil =>
    obtain ⟨rfl, rfl⟩ := Prod.mk.inj (Option.some.inj h)
    exact ⟨s, [], by rw [List.append_nil]; rfl, .nil⟩
  | cons o schedule ih =>
    cases o with
    | none =>
      cases p with
      | done a => cases h
      | call c next =>
        obtain ⟨s', hs, h⟩ := Option.bind_eq_some_iff.mp h
        split at h
        · rename_i hreplies
          obtain ⟨⟨fs, q'⟩, hrest, heq⟩ := Option.map_eq_some_iff.mp h
          obtain ⟨rfl, rfl⟩ := Prod.mk.inj heq
          obtain ⟨m, rest, hrun, hdoes⟩ :=
            ih (log ++ [(c, ⟨s'.eax, s.storedBytes img c⟩)]) hrest
          have hlog : logReplies img id (s, log) c =
              some (s', log ++ [(c, ⟨s'.eax, s.storedBytes img c⟩)]) :=
            logged_eq_some.mpr ⟨hs, (if_pos hreplies).symm⟩
          rw [List.append_assoc] at hrun
          exact ⟨m, _, (run_cons hlog).trans hrun, .cons hdoes⟩
        · cases h
    | some e =>
      obtain ⟨s', hs, h⟩ := Option.bind_eq_some_iff.mp h
      split at h
      · cases h
      · rename_i hreplies
        obtain ⟨⟨fs, q'⟩, hrest, heq⟩ := Option.map_eq_some_iff.mp h
        obtain ⟨rfl, rfl⟩ := Prod.mk.inj heq
        obtain ⟨m, rest, hrun, hdoes⟩ := ih log hrest
        have hlog : logReplies img id (s, log) e = some (s', log) :=
          logged_eq_some.mpr ⟨hs, (if_neg hreplies).symm⟩
        exact ⟨m, rest, (run_cons hlog).trans hrun, hdoes⟩

/-! ### Arrays -/

theorem overwrite_of_lt {data : Nat → UInt8} {i k : Nat} {bytes : List UInt8}
    (hk : k < bytes.length) : overwrite data i bytes (i + k) = bytes[k] := by
  rw [overwrite, if_pos (Nat.le_add_right i k), Nat.add_sub_cancel_left,
    List.getD_eq_getElem _ _ hk]

/-- The bytes that have been stored. -/
theorem map_overwrite (data : Nat → UInt8) (i : Nat) (bytes : List UInt8) :
    ((List.range bytes.length).map fun k => overwrite data i bytes (i + k)) = bytes := by
  apply List.ext_getElem
  · rw [List.length_map, List.length_range]
  · intro k hk hk'
    rw [List.getElem_map, List.getElem_range, overwrite_of_lt hk']

theorem takeWhile_of_zero_not_mem {s : List UInt8} (h : 0 ∉ s) : s.takeWhile (· ≠ 0) = s := by
  rw [List.takeWhile_eq_self_iff]
  exact fun c hc => decide_eq_true fun h0 => h (h0 ▸ hc)

/-- The text that has been stored with its NUL. -/
theorem textAt_overwrite {data : Nat → UInt8} {s : List UInt8} {n : Nat} (hnul : 0 ∉ s)
    (hlen : s.length < n) : textAt (overwrite data 0 (s ++ [0])) 0 n = s := by
  have hsplit : n - 0 = (s ++ [0]).length + (n - (s.length + 1)) := by
    rw [List.length_append, List.length_singleton]
    omega
  have hall : ∀ c ∈ s, decide (c ≠ 0) = true := by
    intro c hc
    refine decide_eq_true ?_
    rintro rfl
    exact hnul hc
  rw [textAt, hsplit, List.range_add, List.map_append, map_overwrite, List.append_assoc,
    List.takeWhile_append_of_pos hall]
  simp

/-! ### Replies -/

variable {vol : Volume} {σ : Session} {fd : Fin 8} {i : Fin 8} {h : Handle}

theorem onlyReply_open {filename : List UInt8} (hvol : vol filename = some h)
    (hfree : σ.free = some fd) :
    OnlyReply (FileService vol) σ (.open filename) ⟨fd.val, []⟩ (σ.set fd (some h)) := by
  intro r τ
  simp only [FileService, hvol, hfree]

theorem onlyReply_getargs (vol : Volume) (buf : Nat) {nbytes : Int} (hpos : 0 < σ.args.length)
    (hlt : (σ.args.length : Int) < nbytes) :
    OnlyReply (FileService vol) σ (.getargs buf nbytes) ⟨0, σ.args ++ [0]⟩ σ := by
  intro r τ
  simp only [FileService, ReturnsArgs, if_pos (And.intro hpos hlt)]
  exact and_comm

theorem onlyReply_readFile (vol : Volume) {fd : Int} (nbytes : Int) {buf position : Nat}
    {contents : List UInt8} (hfind : σ.find fd = some (i, .file contents position))
    (hbuf : buf ≠ 0) :
    OnlyReply (FileService vol) σ (.read fd buf nbytes)
      ⟨(chunkAt contents position nbytes).length, chunkAt contents position nbytes⟩
      (σ.set i (some (.file contents
        (position + (chunkAt contents position nbytes).length)))) := by
  intro r τ
  simp only [FileService, hfind, if_neg hbuf]

theorem onlyReply_writeScreen (vol : Volume) {fd : Int} (nbytes : Int) {buf : Nat}
    (content : Nat → UInt8) (hfind : σ.find fd = some (i, .screen)) (hbuf : buf ≠ 0) :
    OnlyReply (FileService vol) σ (.write fd buf content nbytes)
      ⟨(writeText content nbytes).length, []⟩ σ := by
  intro r τ
  simp only [FileService, hfind, if_neg hbuf]
  exact and_comm

theorem onlyReply_close (vol : Volume) {fd : Int} (hfind : σ.find fd = some (i, h)) (h2 : 2 ≤ fd) :
    OnlyReply (FileService vol) σ (.close fd) ⟨0, []⟩ (σ.set i none) := by
  intro r τ
  simp only [FileService, hfind, if_pos h2]

/-- A descriptor is found by its number. -/
theorem find_of_handle {x : Handle} (h : σ.handles i = some x) :
    σ.find i.val = some (i, x) := by
  have hi : (0 : Int) ≤ i.val ∧ (i.val : Int) < 8 := by omega
  simp only [Session.find, dif_pos hi, Int.toNat_natCast, Fin.eta, h, Option.map_some]

/-- A text without a NUL is written as it is. -/
theorem writeText_overwrite (data : Nat → UInt8) {s : List UInt8} (hnul : 0 ∉ s) :
    writeText (overwrite data 0 s) s.length = s := by
  have hmap := map_overwrite data 0 s
  simp only [Nat.zero_add] at hmap
  rw [writeText, Int.toNat_natCast, hmap, takeWhile_of_zero_not_mem hnul]

/-! ### Sessions -/

theorem chunkAt_append_drop (contents : List UInt8) (position : Nat) (nbytes : Int) :
    chunkAt contents position nbytes ++
      contents.drop (position + (chunkAt contents position nbytes).length) =
        contents.drop position := by
  rw [← List.drop_drop]
  exact List.prefix_iff_eq_append.mp (List.take_prefix _ _)

@[simp] theorem set_handles_self (σ : Session) (i : Fin 8) (x : Option Handle) :
    (σ.set i x).handles i = x := Function.update_self ..

theorem set_handles_of_ne (σ : Session) {i j : Fin 8} (h : j ≠ i) (x : Option Handle) :
    (σ.set i x).handles j = σ.handles j := Function.update_of_ne h ..

theorem set_set (σ : Session) (i : Fin 8) (x y : Option Handle) :
    (σ.set i x).set i y = σ.set i y := by
  simp only [Session.set, Function.update_idem]

theorem set_self (σ : Session) (i : Fin 8) : σ.set i (σ.handles i) = σ := by
  simp only [Session.set, Function.update_eq_self]

/-- **Programs on the machine.** What the service settles for a program is what the program does in
any run that leaves the files of its process to it. -/
theorem does_of_settles {img : Image} {s m : Kernel} {t : TermId} {j : Fin 4} {α : Type}
    {p q : UserProg α} {es : List Event} {log full : ServiceLog} {a : α} {τ : Session}
    (htidy : Tidy img) (hmask : s.pcbMask t j = true)
    (hsound : FdsSound img (s.pcb (slotId t j)).fds)
    (hspare : Guarded (logReplies img (slotId t j))
      (fun x e => SparesFiles (slotId t j) x.1 e) (s, []) es)
    (hrun : run (logReplies img (slotId t j)) (s, []) es = some (m, log)) (hdoes : Does p log q)
    (hsettles : Settles (FileService img.volume) ((s.pcb (slotId t j)).session img) p full a τ) :
    log <+: full ∧ ∀ b, q = .done b →
      b = a ∧ log = full ∧ (m.pcb (slotId t j)).session img = τ := by
  have hserves := (inSession_run htidy hmask hsound hspare hrun).serves
  obtain ⟨rest, rfl, hrest⟩ := hsettles.prefix_of_does hdoes hserves
  refine ⟨List.prefix_append log rest, fun b hq => ?_⟩
  subst hq
  cases hrest with
  | done => exact ⟨rfl, (List.append_nil log).symm, rfl⟩

theorem writtenText_append (log log' : ServiceLog) :
    writtenText (log ++ log') = writtenText log ++ writtenText log' := List.flatMap_append

/-- Texts without `%` are printed as they are written. -/
theorem printedText_eq {log : ServiceLog} (h : 37 ∉ writtenText log) :
    printedText log = writtenText log := by
  induction log with
  | nil => rfl
  | cons x log ih =>
    rw [writtenText, List.flatMap_cons, List.mem_append, not_or] at h
    rw [printedText, writtenText, List.flatMap_cons, List.flatMap_cons, printfText_of_plain h.1,
      Option.getD_some]
    exact congrArg _ (ih h.2)

/-! ### A new process -/

/-- The session that a program starts in. -/
theorem session_newPcb (img : Image) (old : Pcb) (sp : StackPtr) (cur : TermId) (n : Nat)
    {args : List UInt8} (hnul : 0 ∉ args) (hlen : args.length ≤ maxArgLength) :
    (newPcb old sp cur n args).session img = ⟨fun fd => (freshFds fd).handle img, args⟩ := by
  refine Session.ext rfl ?_
  have hargs := argLength_eq (p := newPcb old sp cur n args) rfl hnul hlen
  have htext := map_argbuf img (newPcb old sp cur n args)
  rw [hargs] at htext
  rw [← htext]
  apply List.ext_getElem
  · rw [List.length_map, List.length_range]
  · intro k hk hk'
    simp [newPcb, cstr, hk']

/-- The small image with one more file, `a`, that has one line. -/
def textImage : Image := fun a =>
  ([(0, 3), (4, 2), (8, 2),
    (64, 46), (96, 1),
    (128, 115), (129, 104), (130, 101), (131, 108), (132, 108), (160, 2),
    (192, 97), (224, 2), (228, 1),
    (4096, 40), (8192, 3), (8196, 1),
    (12288, 0x7f), (12289, 0x45), (12290, 0x4c), (12291, 0x46),
    (16384, 104), (16385, 105), (16386, 10)].find? fun w : Store => w.1 = a).elim 0 Prod.snd

theorem textImage_tidy : Tidy textImage where
  inode_lt := by decide +kernel
  good n hn := by
    have h2 : textImage.numInodes = 2 := by decide +kernel
    have hsize : textImage.inodeSize n ≤ 40 ∧
        textImage.dataBlock n 0 < textImage.numDatablocks := by
      have hn' : n = 0 ∨ n = 1 := by omega
      obtain rfl | rfl := hn' <;> decide +kernel
    refine ⟨hsize.1.trans (by decide), fun k hk => ?_⟩
    simp only [fsBlockSize] at hk
    obtain rfl : k = 0 := by omega
    exact hsize.2
  filetype_le := by decide +kernel
  ends := by decide +kernel

end LinuxLikeKernel
