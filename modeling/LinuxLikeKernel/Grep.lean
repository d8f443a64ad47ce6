import LinuxLikeKernel.UserProgram
import Mathlib.Data.List.Infix

/-!
# The program `grep`

`do_one_file` of `ece391grep.c`: it reads a file in chunks into an array of 1024 bytes and one more,
searches the lines that end in the array, and copies the start of the next line down for the next
chunk. The search writes exactly the lines with the text in them, each behind the name of the file,
as long as no line is longer than the array.

## Main definitions

- `lineEndFrom`, `strncmpLoop`, `checkFrom`, `strcpyLoop` — the loops on the array
- `GrepCall.lines`, `GrepCall.chunks`, `doOneFile` — the program
- `GrepCall.found` — the lines that should be written

## Main results

- `lines_settles` — a chunk: what is written and what is kept of it make up what should be written
- `doOneFile_settles` — a file, from `open` to `close`
- `grep_finds_lines` — a file, in any run
-/

namespace LinuxLikeKernel
open ByteMemory Kernel Transition Client

/-! ### Loops on the array -/

/-- `line_end` after its loop, from `lineEnd` on, with `n` bytes to `last`. -/
def lineEndFrom (data : Nat → UInt8) : Nat → Nat → Nat
  | lineEnd, 0 => lineEnd
  | lineEnd, n + 1 => if data lineEnd ≠ 10 then lineEndFrom data (lineEnd + 1) n else lineEnd

/-- The value of `ece391_strncmp`, from index `k` on, with `n` bytes left to compare. -/
def strncmpLoop (s1 s2 : Nat → UInt8) : Nat → Nat → Int
  | _, 0 => 0
  | k, n + 1 =>
    if s1 k ≠ s2 k then (s1 k).toNat - (s2 k).toNat
    else if s1 k = 0 then 0
    else strncmpLoop s1 s2 (k + 1) n

/-- Whether the loop over `check` finds the text `s`, with `n` turns to go. -/
def checkFrom (data : Nat → UInt8) (s : List UInt8) : Nat → Nat → Bool
  | _, 0 => false
  | check, n + 1 =>
    if cstr s 0 = data check ∧ strncmpLoop (fun k => data (check + k)) (cstr s) 0 s.length = 0
    then true
    else checkFrom data s (check + 1) n

/-- `ece391_strcpy (data + dst, data + src)` from index `k` on, of at most `n` bytes. -/
def strcpyLoop (dst src : Nat) : Nat → Nat → (Nat → UInt8) → Nat → UInt8
  | 0, _, data => data
  | n + 1, k, data =>
    if data (src + k) = 0 then Function.update data (dst + k) (data (src + k))
    else strcpyLoop dst src n (k + 1) (Function.update data (dst + k) (data (src + k)))

/-! ### The program -/

/-- The arguments of `do_one_file`, and where its data are: the name, its array and its texts. -/
structure GrepCall where
  s : List UInt8
  fname : List UInt8
  fnameAt : Nat
  dataAt : Nat
  lit : Nat

namespace GrepCall

/-- The four calls for a line at index `lineStart` of the array. -/
def print (g : GrepCall) (lineStart : Nat) (line : List UInt8) : UserProg Unit := do
  let _ ← fdputs 1 g.fnameAt g.fname
  let _ ← fdputs 1 g.lit (text [':'])
  let _ ← fdputs 1 (g.dataAt + lineStart) line
  let _ ← fdputs 1 g.lit (text ['\n'])
  return ()

/-- The search of the line from `lineStart` to `lineEnd`. The array has 1025 bytes. -/
def search (g : GrepCall) (lineStart lineEnd : Nat) (data : Nat → UInt8) : UserProg Unit :=
  if checkFrom data g.s lineStart (lineEnd - lineStart) then
    g.print lineStart (textAt data lineStart 1025)
  else pure ()

/-- The loop over the lines in the array, from index `lineStart` on: the array and `last` after
it. -/
def lines (g : GrepCall) (cnt : Int) (last : Nat) :
    Nat → Nat → (Nat → UInt8) → UserProg (Option ((Nat → UInt8) × Nat))
  | 0, _, _ => pure none
  | fuel + 1, lineStart, data =>
    let lineEnd := lineEndFrom data lineStart (last - lineStart)
    let ended := Function.update data lineEnd 0
    if data lineEnd ≠ 10 ∧ cnt ≠ 0 ∧ lineStart ≠ 0 then
      pure (some (strcpyLoop 0 lineStart 1025 0 ended, last - lineStart))
    else do
      let _ ← g.search lineStart lineEnd ended
      if last ≤ lineEnd + 1 then return some (ended, 0)
      g.lines cnt last fuel (lineEnd + 1) ended

/-- The loop over the chunks of the file, with `last` bytes kept from the one before. -/
def chunks (g : GrepCall) (fd : Int) : Nat → Nat → (Nat → UInt8) → UserProg (Option Int)
  | 0, _, _ => pure none
  | fuel + 1, last, data => do
    let cnt ← .ask (.read fd (g.dataAt + last) (1024 - last))
    if cnt.ret = -1 then
      let _ ← fdputs 1 g.lit (text "file read failed\n".toList)
      return some (-1)
    let rest ← g.lines cnt.ret (last + cnt.ret.toNat) 1025 0 (overwrite data last cnt.bytes)
    match rest with
    | none => return none
    | some (data, last) =>
      if cnt.ret = 0 then return some 0
      g.chunks fd fuel last data

end GrepCall

/-- `do_one_file`, with at most `fuel` chunks. -/
def doOneFile (g : GrepCall) (fuel : Nat) (data : Nat → UInt8) : UserProg (Option Int) := do
  let fd ← .ask (.open g.fname)
  if fd.ret = -1 then
    let _ ← fdputs 1 g.lit (text "file open failed\n".toList)
    return some (-1)
  let r ← g.chunks fd.ret fuel 0 data
  if r ≠ some 0 then return r
  let closed ← .ask (.close fd.ret)
  if closed.ret = -1 then
    let _ ← fdputs 1 g.lit (text "file close failed\n".toList)
    return some (-1)
  return some 0

/-- What should be written for a line. -/
def GrepCall.entry (g : GrepCall) (line : List UInt8) : List UInt8 :=
  if g.s <:+: line then g.fname ++ text [':'] ++ line ++ text ['\n'] else []

/-- What should be written for a text: its lines that have `s` in them. -/
def GrepCall.found (g : GrepCall) (contents : List UInt8) : List UInt8 :=
  (contents.splitOn 10).flatMap g.entry

/-- No line is longer than the array. -/
def ShortLines (contents : List UInt8) : Prop := ∀ line ∈ contents.splitOn 10, line.length ≤ 1024

/-- The text is in the array from index `i` on. -/
def Holds (data : Nat → UInt8) (i : Nat) (b : List UInt8) : Prop :=
  ∀ k (h : k < b.length), data (i + k) = b[k]

/-! ### What the loops find -/

variable {data : Nat → UInt8} {i : Nat} {b line r s : List UInt8}

theorem Holds.head {c : UInt8} (h : Holds data i (c :: b)) : data i = c := h 0 (Nat.succ_pos _)

theorem Holds.tail {c : UInt8} (h : Holds data i (c :: b)) : Holds data (i + 1) b := by
  intro k hk
  have hnext := h (k + 1) (Nat.succ_lt_succ hk)
  rw [List.getElem_cons_succ] at hnext
  rw [← hnext]
  congr 1
  omega

theorem Holds.append_left (h : Holds data i (line ++ b)) : Holds data i line := by
  intro k hk
  have hlt : k < (line ++ b).length := by
    rw [List.length_append]
    omega
  rw [h k hlt, List.getElem_append_left hk]

theorem Holds.append_right (h : Holds data i (line ++ b)) : Holds data (i + line.length) b := by
  intro k hk
  have hlt : line.length + k < (line ++ b).length := by
    rw [List.length_append]
    omega
  rw [Nat.add_assoc, h _ hlt, List.getElem_append_right (Nat.le_add_right ..)]
  simp only [Nat.add_sub_cancel_left]

/-- A byte outside the text may change. -/
theorem Holds.update (h : Holds data i b) {k : Nat} (hk : k < i ∨ i + b.length ≤ k) (c : UInt8) :
    Holds (Function.update data k c) i b := by
  intro n hn
  rw [Function.update_of_ne (by omega)]
  exact h n hn

theorem lineEndFrom_of_ended (h : Holds data i (line ++ 10 :: b)) (hno : 10 ∉ line) :
    lineEndFrom data i (line ++ 10 :: b).length = i + line.length := by
  induction line generalizing i with
  | nil => exact if_neg (not_not.mpr h.head)
  | cons c line ih =>
    have hc : data i ≠ 10 := by
      rw [Holds.head h]
      rintro rfl
      exact hno List.mem_cons_self
    have hrest := ih (Holds.tail h) fun hmem => hno (List.mem_cons_of_mem _ hmem)
    refine (if_pos hc).trans (hrest.trans ?_)
    rw [List.length_cons]
    omega

theorem lineEndFrom_of_open (h : Holds data i line) (hno : 10 ∉ line) :
    lineEndFrom data i line.length = i + line.length := by
  induction line generalizing i with
  | nil => rfl
  | cons c line ih =>
    have hc : data i ≠ 10 := by
      rw [Holds.head h]
      rintro rfl
      exact hno List.mem_cons_self
    have hrest := ih (Holds.tail h) fun hmem => hno (List.mem_cons_of_mem _ hmem)
    refine (if_pos hc).trans (hrest.trans ?_)
    rw [List.length_cons]
    omega

/-- `ece391_strncmp` of a line with its NUL and as many bytes as the text has. -/
theorem strncmpLoop_eq_zero_iff {s1 s2 : Nat → UInt8} {k : Nat} (h1 : Holds s1 k line)
    (hend : s1 (k + line.length) = 0) (h2 : Holds s2 k s) (hnul : 0 ∉ s) :
    strncmpLoop s1 s2 k s.length = 0 ↔ s <+: line := by
  induction s generalizing k line with
  | nil => exact iff_of_true rfl List.nil_prefix
  | cons c s ih =>
    have hc : c ≠ 0 := by
      rintro rfl
      exact hnul List.mem_cons_self
    have hdiff : ∀ a : UInt8, a ≠ c → ¬((a.toNat : Int) - c.toNat = 0) := by
      intro a ha heq
      exact ha (UInt8.toNat_inj.mp (by omega))
    simp only [List.length_cons, strncmpLoop, h2.head]
    cases line with
    | nil =>
      have hzero : s1 k = 0 := hend
      rw [hzero, if_pos hc.symm]
      refine iff_of_false (hdiff 0 hc.symm) fun hprefix => ?_
      cases List.prefix_nil.mp hprefix
    | cons a line =>
      rw [h1.head]
      by_cases ha : a = c
      · subst ha
        rw [if_neg (not_not.mpr rfl), if_neg hc, List.cons_prefix_cons, and_iff_right rfl]
        refine ih h1.tail ?_ h2.tail fun hmem => hnul (List.mem_cons_of_mem _ hmem)
        rw [← hend, List.length_cons]
        congr 1
        omega
      · rw [if_pos ha]
        refine iff_of_false (hdiff a ha) fun hprefix => ha ?_
        exact (List.cons_prefix_cons.mp hprefix).1.symm

theorem holds_cstr (s : List UInt8) : Holds (cstr s) 0 s := by
  intro k hk
  rw [Nat.zero_add, cstr, List.getD_eq_getElem _ _ hk]

/-- The search of a line with its NUL. -/
theorem checkFrom_iff (h : Holds data i line) (hend : data (i + line.length) = 0) (hs : s ≠ [])
    (hnul : 0 ∉ s) : checkFrom data s i line.length = true ↔ s <:+: line := by
  induction line generalizing i with
  | nil =>
    refine iff_of_false (by simp [checkFrom]) fun hinfix => hs ?_
    exact List.infix_nil.mp hinfix
  | cons c line ih =>
    have hcmp : strncmpLoop (fun k => data (i + k)) (cstr s) 0 s.length = 0 ↔ s <+: c :: line := by
      refine strncmpLoop_eq_zero_iff ?_ ?_ (holds_cstr s) hnul
      · intro k hk
        rw [Nat.zero_add]
        exact h k hk
      · rwa [Nat.zero_add]
    have hfirst : s <+: c :: line → cstr s 0 = data i := by
      intro hprefix
      obtain ⟨a, s, rfl⟩ := List.exists_cons_of_ne_nil hs
      rw [h.head, ← (List.cons_prefix_cons.mp hprefix).1]
      rfl
    have hrest := ih h.tail (by
      rw [← hend, List.length_cons]
      congr 1
      omega)
    simp only [List.length_cons, checkFrom, hcmp]
    rw [List.infix_cons_iff]
    by_cases hprefix : s <+: c :: line
    · rw [if_pos ⟨hfirst hprefix, hprefix⟩]
      exact iff_of_true rfl (.inl hprefix)
    · rw [if_neg fun hboth => hprefix hboth.2, hrest, or_iff_right hprefix]

/-- A line in the array, up to its NUL. -/
theorem textAt_of_holds {n : Nat} (h : Holds data i line) (hend : data (i + line.length) = 0)
    (hnul : 0 ∉ line) (hn : i + line.length < n) : textAt data i n = line := by
  have hsplit : n - i = line.length + (n - i - line.length) := by omega
  have hline : (List.range line.length).map (fun k => data (i + k)) = line := by
    apply List.ext_getElem
    · rw [List.length_map, List.length_range]
    · intro k hk hk'
      rw [List.getElem_map, List.getElem_range, h k hk']
  have hall : ∀ c ∈ line, decide (c ≠ 0) = true := by
    intro c hc
    refine decide_eq_true ?_
    rintro rfl
    exact hnul hc
  rw [textAt, hsplit, List.range_add, List.map_append, hline, List.takeWhile_append_of_pos hall]
  have hpos : n - i - line.length = n - i - line.length - 1 + 1 := by omega
  rw [hpos, List.range_succ_eq_map]
  simp [hend]

/-- What `ece391_strcpy` leaves, for a text that is above its destination. -/
theorem strcpyLoop_spec {n k : Nat} (hi : 0 < i) (hlen : line.length < n)
    (h : Holds data (i + k) line) (hend : data (i + k + line.length) = 0) (hnul : 0 ∉ line) :
    Holds (strcpyLoop 0 i n k data) k line ∧
      ∀ a, a < k ∨ k + line.length < a → strcpyLoop 0 i n k data a = data a := by
  induction n generalizing k line data with
  | zero => exact absurd hlen (Nat.not_lt_zero _)
  | succ n ih =>
    cases line with
    | nil =>
      have hzero : data (i + k) = 0 := hend
      rw [strcpyLoop, if_pos hzero]
      refine ⟨fun m hm => absurd hm (Nat.not_lt_zero m), fun a ha => Function.update_of_ne ?_ ..⟩
      rw [List.length_nil] at ha
      omega
    | cons c line =>
      have hc : data (i + k) = c := h.head
      have hne : data (i + k) ≠ 0 := by
        rw [hc]
        rintro rfl
        exact hnul List.mem_cons_self
      rw [List.length_cons] at hlen hend
      have hnext : Holds (Function.update data (0 + k) (data (i + k))) (i + (k + 1)) line := by
        refine Holds.update ?_ (.inl (by omega)) _
        rw [← Nat.add_assoc]
        exact h.tail
      have hend' : Function.update data (0 + k) (data (i + k)) (i + (k + 1) + line.length) = 0 := by
        rw [Function.update_of_ne (by omega), ← hend]
        congr 1
        omega
      obtain ⟨hholds, hframe⟩ := ih (by omega) hnext hend' fun hmem =>
        hnul (List.mem_cons_of_mem _ hmem)
      rw [strcpyLoop, if_neg hne]
      refine ⟨fun m hm => ?_, fun a ha => ?_⟩
      · cases m with
        | zero =>
          rw [hframe _ (.inl (by omega)), Nat.add_zero, Nat.zero_add, Function.update_self, hc]
          rfl
        | succ m =>
          have := hholds m (Nat.lt_of_succ_lt_succ hm)
          rw [List.getElem_cons_succ, ← this]
          congr 1
          omega
      · rw [List.length_cons] at ha
        rw [hframe a (by omega), Function.update_of_ne (by omega)]

/-! ### The lines of a text -/

variable {g : GrepCall}

theorem found_ended (g : GrepCall) (hno : 10 ∉ line) (r : List UInt8) :
    g.found (line ++ 10 :: r) = g.entry line ++ g.found r := by
  rw [GrepCall.found, List.splitOn_append_cons_self_of_not_mem hno, List.flatMap_cons]
  rfl

theorem found_open (g : GrepCall) (hno : 10 ∉ line) : g.found line = g.entry line := by
  rw [GrepCall.found, List.splitOn_eq_singleton hno, List.flatMap_singleton]

theorem shortLines_ended (hno : 10 ∉ line) :
    ShortLines (line ++ 10 :: r) ↔ line.length ≤ 1024 ∧ ShortLines r := by
  rw [ShortLines, List.splitOn_append_cons_self_of_not_mem hno, List.forall_mem_cons]
  rfl

theorem shortLines_open (hno : 10 ∉ line) : ShortLines line ↔ line.length ≤ 1024 := by
  rw [ShortLines, List.splitOn_eq_singleton hno, List.forall_mem_singleton]

/-- The line ends where the array does, or with the file. -/
def EndsHere (r : List UInt8) : Prop := r = [] ∨ ∃ r', r = 10 :: r'

theorem entry_nil (hs : g.s ≠ []) : g.entry [] = [] :=
  if_neg fun hinfix => hs (List.infix_nil.mp hinfix)

/-- A line of which no more is left than its end. -/
theorem found_endsHere (hs : g.s ≠ []) (hno : 10 ∉ b) (hr : EndsHere r) :
    g.found (b ++ r) = g.entry b ++ g.found r := by
  have hnil : g.found [] = [] := (found_open g List.not_mem_nil).trans (entry_nil hs)
  obtain rfl | ⟨r', rfl⟩ := hr
  · rw [List.append_nil, found_open g hno, hnil, List.append_nil]
  · have hrest := @found_ended [] g List.not_mem_nil r'
    rw [List.nil_append, entry_nil hs, List.nil_append] at hrest
    rw [found_ended g hno, hrest]

theorem shortLines_endsHere (hno : 10 ∉ b) (hshort : ShortLines (b ++ r)) (hr : EndsHere r) :
    ShortLines r := by
  obtain rfl | ⟨r', rfl⟩ := hr
  · exact (shortLines_open List.not_mem_nil).mpr (Nat.zero_le _)
  · have hrest := (shortLines_ended hno).mp hshort
    exact (@shortLines_ended [] r' List.not_mem_nil).mpr ⟨Nat.zero_le _, hrest.2⟩

/-- A line that fills the array is at its end. -/
theorem endsHere_of_full (hno : 10 ∉ b) (hlen : b.length = 1024) (hshort : ShortLines (b ++ r)) :
    EndsHere r := by
  by_cases hmem : 10 ∈ r
  · obtain ⟨l, r', rfl, hl⟩ := List.eq_append_cons_of_mem hmem
    rw [← List.append_assoc, shortLines_ended] at hshort
    · have hle := hshort.1
      rw [List.length_append] at hle
      have hnil : l = [] := List.eq_nil_of_length_eq_zero (by omega)
      exact .inr ⟨r', by rw [hnil]; rfl⟩
    · rw [List.mem_append]
      exact fun h => h.elim hno hl
  · rw [shortLines_open] at hshort
    · rw [List.length_append] at hshort
      exact .inl (List.eq_nil_of_length_eq_zero (by omega))
    · rw [List.mem_append]
      exact fun h => h.elim hno hmem

/-! ### The lines in the array -/

variable {vol : Volume} {σ : Session}

/-- The text to search for and the name are texts, and the data are at some addresses. -/
structure GrepCall.Ok (g : GrepCall) : Prop where
  s_ne : g.s ≠ []
  s_nul : 0 ∉ g.s
  fname_nul : 0 ∉ g.fname
  fnameAt_ne : g.fnameAt ≠ 0
  dataAt_ne : g.dataAt ≠ 0
  lit_ne : g.lit ≠ 0

/-- `ece391_fdputs` of a text writes the text. -/
theorem fdputs_settles (vol : Volume) {addr : Nat} (hscreen : σ.handles 1 = some .screen)
    (haddr : addr ≠ 0) (hnul : 0 ∉ s) :
    ∃ log x, Settles (FileService vol) σ (fdputs 1 addr s) log x σ ∧
      writtenText log = s := by
  have htext : writeText (cstr s) s.length = s := by
    have hmap : (List.range s.length).map (cstr s) = s := by
      apply List.ext_getElem
      · rw [List.length_map, List.length_range]
      · intro k hk hk'
        rw [List.getElem_map, List.getElem_range, cstr, List.getD_eq_getElem _ _ hk']
    rw [writeText, Int.toNat_natCast, hmap, takeWhile_of_zero_not_mem hnul]
  refine ⟨_, _, .ask (onlyReply_writeScreen vol _ _ (find_of_handle hscreen) haddr), ?_⟩
  exact (List.append_nil _).trans htext

theorem print_settles (hg : g.Ok) (hscreen : σ.handles 1 = some .screen) (lineStart : Nat)
    (hnul : 0 ∉ line) : ∃ log, Settles (FileService vol) σ (g.print lineStart line) log () σ ∧
      writtenText log = g.fname ++ text [':'] ++ line ++ text ['\n'] := by
  have hline : g.dataAt + lineStart ≠ 0 := by
    have := hg.dataAt_ne
    omega
  obtain ⟨log₁, x₁, h₁, hp₁⟩ := fdputs_settles vol hscreen hg.fnameAt_ne hg.fname_nul
  obtain ⟨log₂, x₂, h₂, hp₂⟩ :=
    @fdputs_settles (text [':']) σ vol g.lit hscreen hg.lit_ne (by decide)
  obtain ⟨log₃, x₃, h₃, hp₃⟩ := fdputs_settles vol hscreen hline hnul
  obtain ⟨log₄, x₄, h₄, hp₄⟩ :=
    @fdputs_settles (text ['\n']) σ vol g.lit hscreen hg.lit_ne (by decide)
  refine ⟨_, h₁.bind (h₂.bind (h₃.bind (h₄.bind .done))), ?_⟩
  rw [writtenText_append, writtenText_append, writtenText_append, writtenText_append, hp₁, hp₂,
    hp₃, hp₄, List.append_assoc, List.append_assoc]
  exact congrArg _ (congrArg _ (congrArg _ (List.append_nil _)))

/-- The search of a line in the array, and the calls for it. -/
theorem search_settles (vol : Volume) (hg : g.Ok) (hscreen : σ.handles 1 = some .screen)
    (hholds : Holds data i line) (hend : data (i + line.length) = 0) (hnul : 0 ∉ line)
    (hi : i + line.length < 1025) :
    ∃ log, Settles (FileService vol) σ (g.search i (i + line.length) data) log () σ ∧
      writtenText log = g.entry line := by
  have hcheck := checkFrom_iff hholds hend hg.s_ne hg.s_nul
  rw [GrepCall.search, Nat.add_sub_cancel_left, textAt_of_holds hholds hend hnul hi]
  by_cases hinfix : g.s <:+: line
  · rw [if_pos (hcheck.mpr hinfix), GrepCall.entry, if_pos hinfix]
    exact print_settles hg hscreen i hnul
  · rw [if_neg fun h => hinfix (hcheck.mp h), GrepCall.entry, if_neg hinfix]
    exact ⟨[], .done, rfl⟩

/-- What is kept of a chunk, when `r` is the rest of the file: what has been written and what is to
be written from here on make up what should be written. -/
structure ChunkKept (g : GrepCall) (cnt : Int) (b r : List UInt8) (log : ServiceLog)
    (data : Nat → UInt8) (carry : List UInt8) : Prop where
  holds : Holds data 0 carry
  length_lt : carry.length < 1024
  behind : data 1024 ≠ 10
  nul : 0 ∉ carry
  short : ShortLines (carry ++ r)
  last : cnt = 0 → carry = []
  written : writtenText log ++ g.found (carry ++ r) = g.found (b ++ r)

/-- A change of the array before the text, or of its last byte to a NUL. -/
theorem update_behind {k : Nat} (h : data 1024 ≠ 10) : Function.update data k 0 1024 ≠ 10 := by
  by_cases hk : 1024 = k
  · subst hk
    rw [Function.update_self]
    decide
  · rwa [Function.update_of_ne hk]

/-- The end of a chunk of which nothing is kept. -/
theorem kept_nil {cnt : Int} {log : ServiceLog} (hbehind : data 1024 ≠ 10) (hshort : ShortLines r)
    (hwritten : writtenText log ++ g.found r = g.found (b ++ r)) :
    ChunkKept g cnt b r log data [] where
  holds k hk := absurd hk (Nat.not_lt_zero k)
  length_lt := by decide
  behind := hbehind
  nul := List.not_mem_nil
  short := hshort
  last _ := rfl
  written := hwritten

/-- The last line in the array, if it has no end there: it is kept for the next chunk, unless that
is empty or the line fills the array. -/
theorem lines_settles_open {cnt : Int} {last fuel lineStart : Nat} (hg : g.Ok)
    (hscreen : σ.handles 1 = some .screen) (hholds : Holds data lineStart b)
    (hlast : lineStart + b.length = last) (hle : last ≤ 1024) (hbehind : data 1024 ≠ 10)
    (hnul : 0 ∉ b) (hfull : last = 1024 ∨ r = []) (hcnt : cnt = 0 → r = [])
    (hshort : ShortLines (b ++ r)) (hno : 10 ∉ b) :
    ∃ log data' carry, Settles (FileService vol) σ (g.lines cnt last (fuel + 1) lineStart data) log
      (some (data', carry.length)) σ ∧ ChunkKept g cnt b r log data' carry := by
  have hlen : last - lineStart = b.length := by omega
  have hlineEnd := lineEndFrom_of_open hholds hno
  rw [hlast] at hlineEnd
  have hended : Holds (Function.update data last 0) lineStart b :=
    hholds.update (.inr (by omega)) 0
  have hzero : Function.update data last 0 (lineStart + b.length) = 0 := by
    rw [hlast, Function.update_self]
  have hbehind' : Function.update data last 0 1024 ≠ 10 := update_behind hbehind
  simp only [GrepCall.lines, hlen, hlineEnd]
  by_cases hkeep : data last ≠ 10 ∧ cnt ≠ 0 ∧ lineStart ≠ 0
  · obtain ⟨hcopy, hframe⟩ := strcpyLoop_spec (n := 1025) (k := 0)
      (Nat.pos_of_ne_zero hkeep.2.2) (by omega) hended hzero hnul
    refine ⟨[], strcpyLoop 0 lineStart 1025 0 (Function.update data last 0), b, ?_, ?_⟩
    · rw [if_pos hkeep]
      exact .done
    · refine ⟨hcopy, by omega, ?_, hnul, hshort, fun h0 => absurd h0 hkeep.2.1, rfl⟩
      rwa [hframe _ (.inr (by omega))]
  · -- the line is searched as it is, since it is at its end
    have hends : EndsHere r := by
      by_cases h0 : cnt = 0
      · exact .inl (hcnt h0)
      · obtain hfull | hr := hfull
        · subst hfull
          have hstart : lineStart = 0 := by
            by_contra hne
            exact hkeep ⟨hbehind, h0, hne⟩
          exact endsHere_of_full hno (by omega) hshort
        · exact .inl hr
    obtain ⟨log, hsettles, hwritten⟩ :=
      search_settles vol hg hscreen hended hzero hnul (by omega)
    rw [hlast] at hsettles
    refine ⟨log ++ [], Function.update data last 0, [], ?_,
      kept_nil hbehind' (shortLines_endsHere hno hshort hends) ?_⟩
    · rw [if_neg hkeep]
      refine hsettles.bind ?_
      rw [if_pos (Nat.le_succ last)]
      exact .done
    · rw [List.append_nil, hwritten, found_endsHere hg.s_ne hno hends]

/-- **A chunk.** -/
theorem lines_settles (vol : Volume) (fuel : Nat) {cnt : Int} {last lineStart : Nat} (hg : g.Ok)
    (hscreen : σ.handles 1 = some .screen) (hfuel : b.length < fuel)
    (hholds : Holds data lineStart b) (hlast : lineStart + b.length = last) (hle : last ≤ 1024)
    (hbehind : data 1024 ≠ 10) (hnul : 0 ∉ b) (hfull : last = 1024 ∨ r = [])
    (hcnt : cnt = 0 → r = []) (hshort : ShortLines (b ++ r)) :
    ∃ log data' carry, Settles (FileService vol) σ (g.lines cnt last fuel lineStart data) log
      (some (data', carry.length)) σ ∧ ChunkKept g cnt b r log data' carry := by
  induction fuel generalizing lineStart b data with
  | zero => exact absurd hfuel (Nat.not_lt_zero _)
  | succ fuel ih =>
    by_cases hmem : 10 ∈ b
    · -- a line that ends in the array is searched, and the loop goes on behind it
      obtain ⟨line, b', rfl, hno⟩ := List.eq_append_cons_of_mem hmem
      have hsum : (line ++ 10 :: b').length = line.length + b'.length + 1 := by
        rw [List.length_append, List.length_cons]
        omega
      have hlen : last - lineStart = (line ++ 10 :: b').length := by omega
      have hlineEnd := lineEndFrom_of_ended hholds hno
      have hmark : data (lineStart + line.length) = 10 := hholds.append_right.head
      have hended : Holds (Function.update data (lineStart + line.length) 0) lineStart line :=
        hholds.append_left.update (.inr le_rfl) 0
      have hzero : Function.update data (lineStart + line.length) 0 (lineStart + line.length) = 0 :=
        Function.update_self ..
      have hnext : Holds (Function.update data (lineStart + line.length) 0)
          (lineStart + line.length + 1) b' :=
        hholds.append_right.tail.update (.inl (Nat.lt_succ_self _)) 0
      have hbehind' : Function.update data (lineStart + line.length) 0 1024 ≠ 10 :=
        update_behind hbehind
      have hnul' : 0 ∉ line ∧ 0 ∉ b' := by
        constructor
        · exact fun h => hnul (List.mem_append_left _ h)
        · exact fun h => hnul (List.mem_append_right _ (List.mem_cons_of_mem _ h))
      rw [List.append_assoc, List.cons_append, shortLines_ended hno] at hshort
      have hfound : g.found ((line ++ 10 :: b') ++ r) = g.entry line ++ g.found (b' ++ r) := by
        rw [List.append_assoc, List.cons_append, found_ended g hno]
      obtain ⟨log, hsettles, hwritten⟩ :=
        search_settles vol hg hscreen hended hzero hnul'.1 (by omega)
      have hno' : ¬(data (lineStart + line.length) ≠ 10 ∧ cnt ≠ 0 ∧ lineStart ≠ 0) :=
        fun h => h.1 hmark
      simp only [GrepCall.lines, hlen, hlineEnd, if_neg hno']
      cases b' with
      | nil =>
        refine ⟨log ++ [], _, [], ?_, kept_nil hbehind' hshort.2 ?_⟩
        · refine hsettles.bind ?_
          rw [if_pos (by rw [List.length_nil] at hsum; omega)]
          exact .done
        · rw [List.append_nil, hwritten, hfound, List.nil_append]
      | cons c b' =>
        obtain ⟨log', data', carry, hsettles', hkept⟩ := ih (by omega) hnext (by omega) hbehind'
          hnul'.2 hshort.2
        refine ⟨log ++ log', data', carry, ?_, { hkept with written := ?_ }⟩
        · refine hsettles.bind ?_
          rw [if_neg (by rw [List.length_cons] at hsum; omega)]
          exact hsettles'
        · rw [writtenText_append, hwritten, List.append_assoc, hkept.written, hfound]
    · exact lines_settles_open hg hscreen hholds hlast hle hbehind hnul hfull hcnt hshort hmem

/-! ### The chunks of a file -/

variable {fd : Fin 8}

theorem Holds.overwrite (h : Holds data 0 line) (b : List UInt8) :
    Holds (overwrite data line.length b) 0 (line ++ b) := by
  intro k hk
  rw [Nat.zero_add]
  by_cases hline : k < line.length
  · rw [List.getElem_append_left hline, LinuxLikeKernel.overwrite, if_neg (by omega), ← h k hline,
      Nat.zero_add]
  · obtain ⟨n, rfl⟩ := Nat.exists_eq_add_of_le (Nat.not_lt.mp hline)
    rw [List.length_append] at hk
    rw [overwrite_of_lt (by omega), List.getElem_append_right (Nat.le_add_right ..)]
    simp only [Nat.add_sub_cancel_left]

theorem overwrite_of_le {k : Nat} {bytes : List UInt8} (h : i + bytes.length ≤ k) :
    overwrite data i bytes k = data k := by
  rw [overwrite]
  split
  · exact List.getD_eq_default _ _ (by omega)
  · rfl

/-- The loop over the chunks, with a text kept from the last one. -/
theorem chunks_settles (vol : Volume) {fuel position : Nat} {contents : List UInt8}
    (carry : List UInt8) (hg : g.Ok)
    (hfd : fd ≠ 1) (hscreen : σ.handles 1 = some .screen)
    (hfile : σ.handles fd = some (.file contents position))
    (hfuel : contents.length - position < fuel) (hholds : Holds data 0 carry)
    (hlen : carry.length < 1024) (hbehind : data 1024 ≠ 10)
    (hnul : 0 ∉ carry ++ contents.drop position)
    (hshort : ShortLines (carry ++ contents.drop position)) :
    ∃ log last, Settles (FileService vol) σ (g.chunks fd.val fuel carry.length data) log (some 0)
      (σ.set fd (some (.file contents last))) ∧
        writtenText log = g.found (carry ++ contents.drop position) := by
  induction fuel generalizing position carry data σ with
  | zero => exact absurd hfuel (Nat.not_lt_zero _)
  | succ fuel ih =>
    have haddr : g.dataAt + carry.length ≠ 0 := by
      have := hg.dataAt_ne
      omega
    have hread := onlyReply_readFile vol (1024 - carry.length)
      (find_of_handle hfile) haddr
    have hsplit := chunkAt_append_drop contents position (1024 - carry.length)
    have hcount : (chunkAt contents position (1024 - carry.length)).length =
        min (1024 - carry.length) (contents.length - position) := by
      have hn : uint32 (1024 - (carry.length : Int)) = 1024 - carry.length := by
        simp only [uint32]
        omega
      rw [chunkAt, List.length_take, List.length_drop, hn]
    generalize chunkAt contents position (1024 - carry.length) = chunk at hread hsplit hcount
    have hscreen' : (σ.set fd (some (.file contents (position + chunk.length)))).handles 1 =
        some .screen := by
      rw [set_handles_of_ne _ hfd.symm, hscreen]
    rw [← hsplit, ← List.append_assoc] at hnul hshort
    rw [← hsplit, ← List.append_assoc]
    have hsum : (carry ++ chunk).length = carry.length + chunk.length := List.length_append
    have hfull : carry.length + chunk.length = 1024 ∨
        contents.drop (position + chunk.length) = [] := by
      by_cases hmin : 1024 - carry.length ≤ contents.length - position
      · exact .inl (by omega)
      · exact .inr (List.drop_eq_nil_of_le (by omega))
    have hend : (chunk.length : Int) = 0 → contents.drop (position + chunk.length) = [] :=
      fun h0 => List.drop_eq_nil_of_le (by omega)
    obtain ⟨log, data', carry', hsettles, hkept⟩ := lines_settles vol 1025 hg
      hscreen' (by omega) (hholds.overwrite chunk) (by rw [Nat.zero_add, hsum]) (by omega)
      (by rwa [overwrite_of_le (by omega)]) (fun h => hnul (List.mem_append_left _ h)) hfull hend
      hshort
    have hne : ¬(chunk.length : Int) = -1 := by omega
    have hwritten := hkept.written
    by_cases h0 : (chunk.length : Int) = 0
    · -- nothing was left to read
      have hcarry := hkept.last h0
      subst hcarry
      have hall : Settles (FileService vol) σ (g.chunks fd.val (fuel + 1) carry.length data)
          ((.read fd.val (g.dataAt + carry.length) (1024 - carry.length), ⟨chunk.length, chunk⟩) ::
            (log ++ [])) (some 0) (σ.set fd (some (.file contents (position + chunk.length)))) := by
        refine .ask_bind hread ?_
        simp only [if_neg hne, Int.toNat_natCast]
        refine hsettles.bind ?_
        simp only [if_pos h0]
        exact .done
      refine ⟨_, _, hall, ?_⟩
      rw [hend h0, List.append_nil, found_open g List.not_mem_nil, entry_nil hg.s_ne] at hwritten
      rw [List.append_nil, hend h0, ← hwritten]
      exact (List.append_nil _).symm
    · have hnul' : 0 ∉ carry' ++ contents.drop (position + chunk.length) := by
        rw [List.mem_append]
        exact fun h => h.elim hkept.nul fun h => hnul (List.mem_append_right _ h)
      obtain ⟨log', last, hsettles', hwritten'⟩ := ih carry' hscreen' (set_handles_self ..)
        (by omega) hkept.holds hkept.length_lt hkept.behind hnul' hkept.short
      have hall : Settles (FileService vol) σ (g.chunks fd.val (fuel + 1) carry.length data)
          ((.read fd.val (g.dataAt + carry.length) (1024 - carry.length), ⟨chunk.length, chunk⟩) ::
            (log ++ log')) (some 0) (σ.set fd (some (.file contents last))) := by
        rw [set_set] at hsettles'
        refine .ask_bind hread ?_
        simp only [if_neg hne, Int.toNat_natCast]
        refine hsettles.bind ?_
        simp only [if_neg h0]
        exact hsettles'
      refine ⟨_, _, hall, ?_⟩
      rw [← hwritten, ← hwritten', ← writtenText_append]
      rfl

/-! ### A file -/

/-- **A file.** From the closed descriptor that `open` takes to the same descriptor closed. -/
theorem doOneFile_settles (vol : Volume) {fuel : Nat} {contents : List UInt8} (hg : g.Ok)
    (hscreen : σ.handles 1 = some .screen) (hvol : vol g.fname = some (.file contents 0))
    (hfree : σ.free = some fd) (h2 : 2 ≤ fd.val) (hbehind : data 1024 ≠ 10) (hnul : 0 ∉ contents)
    (hshort : ShortLines contents) (hfuel : contents.length < fuel) :
    ∃ log, Settles (FileService vol) σ (doOneFile g fuel data) log (some 0) σ ∧
      writtenText log = g.found contents := by
  have hfd : fd ≠ 1 := by
    rintro rfl
    exact absurd h2 (by decide)
  have hclosed : σ.handles fd = none := by
    have hnone := List.find?_some hfree
    exact Option.isNone_iff_eq_none.mp hnone
  have hscreen' : (σ.set fd (some (.file contents 0))).handles 1 = some .screen := by
    rw [set_handles_of_ne _ hfd.symm, hscreen]
  obtain ⟨log, last, hsettles, hwritten⟩ := chunks_settles vol [] hg hfd hscreen'
    (set_handles_self ..) (by omega) (fun k hk => absurd hk (Nat.not_lt_zero k)) (by decide)
    hbehind hnul hshort
  rw [set_set] at hsettles
  have hclose := onlyReply_close vol
    (find_of_handle (set_handles_self σ fd (some (.file contents last)))) (Int.ofNat_le.mpr h2)
  rw [set_set, ← hclosed, set_self] at hclose
  have hne : ¬(fd.val : Int) = -1 := by omega
  have hall : Settles (FileService vol) σ (doOneFile g fuel data)
      ((.open g.fname, ⟨fd.val, []⟩) :: (log ++ [(.close fd.val, ⟨0, []⟩)])) (some 0) σ := by
    refine .ask_bind (onlyReply_open hvol hfree) ?_
    simp only [if_neg hne]
    refine hsettles.bind ?_
    exact .ask_bind hclose .done
  refine ⟨_, hall, ?_⟩
  rw [← List.cons_append, writtenText_append]
  exact (List.append_nil _).trans hwritten

/-- **`grep` in a file.** In any run that leaves the files of a process to it, what the process
writes from its call of `do_one_file` on is, when the call returns, the lines of the file that have
the text in them, each behind the name of the file, and before that the start of them. It returns 0
and leaves the descriptors as they were. Lines and a name without `%` are printed as they are
written. -/
theorem grep_finds_lines {img : Image} {s m : Kernel} {t : TermId} {j : Fin 4} {dentry : Dentry}
    {fuel : Nat} {es : List Event} {log : ServiceLog} {q : UserProg (Option Int)}
    (htidy : Tidy img) (hmask : s.pcbMask t j = true)
    (hsound : FdsSound img (s.pcb (slotId t j)).fds)
    (hfree : freeFd (s.pcb (slotId t j)) = some fd) (hg : g.Ok)
    (hdentry : readDentryByName img g.fname = some dentry) (hregular : dentry.filetype = 2)
    (hnul : 0 ∉ img.contents dentry.inode) (hshort : ShortLines (img.contents dentry.inode))
    (hbehind : data 1024 ≠ 10) (hfuel : img.inodeSize dentry.inode < fuel)
    (hspare : Guarded (logReplies img (slotId t j))
      (fun x e => SparesFiles (slotId t j) x.1 e) (s, []) es)
    (hrun : run (logReplies img (slotId t j)) (s, []) es = some (m, log))
    (hdoes : Does (doOneFile g fuel data) log q) :
    writtenText log <+: g.found (img.contents dentry.inode) ∧
      (∀ b, q = .done b → b = some 0 ∧ writtenText log = g.found (img.contents dentry.inode) ∧
        (m.pcb (slotId t j)).session img = (s.pcb (slotId t j)).session img) ∧
      (37 ∉ g.found (img.contents dentry.inode) → printedText log = writtenText log) := by
  have hclosed : ((s.pcb (slotId t j)).fds fd).flags = 0 := by
    simpa using List.find?_some hfree
  have hvol : img.volume g.fname = some (.file (img.contents dentry.inode) 0) := by
    simp only [Image.volume, hdentry, Option.bind_some, Dentry.handle, hregular]
  have hscreen : ((s.pcb (slotId t j)).session img).handles 1 = some .screen := by
    obtain ⟨hflags, hopt⟩ := hsound.screen
    simp [Pcb.session, FileDesc.handle, hflags, hopt]
  obtain ⟨full, hsettles, hwritten⟩ := doOneFile_settles img.volume hg hscreen hvol
    (hsound.free_eq.trans hfree) (hsound.two_le hclosed) hbehind hnul hshort
    (by rwa [Image.length_contents])
  obtain ⟨⟨rest, hrest⟩, hdone⟩ := does_of_settles htidy hmask hsound hspare hrun hdoes hsettles
  have hpart : writtenText log <+: g.found (img.contents dentry.inode) :=
    ⟨writtenText rest, by rw [← writtenText_append, hrest, hwritten]⟩
  refine ⟨hpart, fun b hq => ?_, fun hplain => printedText_eq fun h => hplain (hpart.subset h)⟩
  obtain ⟨rfl, rfl, hsession⟩ := hdone b hq
  exact ⟨rfl, hwritten, hsession⟩

/-- A search for `i` in the file `a`. -/
def sampleCall : GrepCall := ⟨text ['i'], text ['a'], 0x8000000, 0x8001000, 0x8002000⟩

/-- The calls of the search, while another terminal gets its shell, which opens a file too. -/
def grepSchedule : List (Option Event) :=
  [none, some (.tick noStale), some (.open shellCommand), some (.tick noStale),
    some (.tick noStale), none, none, some .rtc, none, none, none, none, none]

theorem grep_finds_lines_sample : ∃ s es m log,
    run (step textImage) (boot powerOn) [.tick noStale] = some s ∧
    run (logReplies textImage (slotId 1 0)) (s, []) es = some (m, log) ∧
    Does (doOneFile sampleCall 4 fun _ => 0) log (.done (some 0)) ∧
    printedText log = sampleCall.found (textImage.contents 1) := by
  have hobs : ((run (step textImage) (boot powerOn) [.tick noStale]).bind fun s =>
      (drive textImage (slotId 1 0) grepSchedule s (doOneFile sampleCall 4 fun _ => 0)).map
        fun x => ((s.pcbMask 1 0, decide (∀ i, (s.pcb (slotId 1 0)).fds i = freshFds i)),
          x.2.result, decide (Guarded (logReplies textImage (slotId 1 0))
            (fun x e => SparesFiles (slotId 1 0) x.1 e) (s, []) x.1))) =
      some ((true, true), some (some 0), true) := by decide +kernel
  obtain ⟨s, hs, hobs⟩ := Option.bind_eq_some_iff.mp hobs
  obtain ⟨⟨es, q⟩, hdrive, hobs⟩ := Option.map_eq_some_iff.mp hobs
  simp only [Prod.mk.injEq, decide_eq_true_eq] at hobs
  obtain ⟨⟨hmask, hfresh⟩, hq, hspare⟩ := hobs
  obtain rfl := Prog.eq_done_of_result hq
  obtain ⟨m, log, hrun, hdoes⟩ := run_drive [] hdrive
  have hfds : (s.pcb (slotId 1 0)).fds = freshFds := funext hfresh
  have hsound : FdsSound textImage (s.pcb (slotId 1 0)).fds := hfds ▸ fdsSound_freshFds textImage
  have hfree : freeFd (s.pcb (slotId 1 0)) = some 2 := by
    rw [freeFd, hfds]
    rfl
  have hdentry : readDentryByName textImage sampleCall.fname = some ⟨text ['a'], 2, 1⟩ := by
    decide +kernel
  have hok : sampleCall.Ok := ⟨by decide, by decide, by decide, by decide, by decide, by decide⟩
  have hshort : ShortLines (textImage.contents 1) := by
    unfold ShortLines
    decide +kernel
  obtain ⟨-, hdone, hplain⟩ := grep_finds_lines textImage_tidy hmask hsound hfree hok hdentry rfl
    (by decide +kernel) hshort (by decide) (by decide +kernel) hspare hrun hdoes
  exact ⟨s, es, m, log, hs, hrun, hdoes, (hplain (by decide +kernel)).trans (hdone _ rfl).2.1⟩

end LinuxLikeKernel
