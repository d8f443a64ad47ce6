import LinuxLikeKernel.FishFrames

/-!
# The fish on the screen

What `add_frames` and `mp1_rtc_tasklet` make of two files: the first one stands on the right half of
the screen for 15 ticks, then the second one for 15 ticks, and so on.

## Main definitions

- `FitsScreen` — what there is to show is in 25 rows of 40 columns
- `frameChar` — a character of a text

## Main results

- `frames_alternate` — the screen after any number of ticks
- `fish_frames` — `add_frames` in any run of the machine
-/

namespace LinuxLikeKernel
open ByteMemory Kernel Transition Client

/-- A place of two texts side by side. -/
def cellAt (rows : List (List (UInt8 × UInt8))) (r c : Nat) : UInt8 × UInt8 :=
  (rows.getD r []).getD c (blank, blank)

/-- What there is to show is in 25 rows of 40 columns. -/
def FitsScreen (rows : List (List (UInt8 × UInt8))) : Prop :=
  ∀ x ∈ rows.zipIdx, ∀ y ∈ x.1.zipIdx, y.1 ≠ (blank, blank) → x.2 < 25 ∧ y.2 < 40

instance (rows : List (List (UInt8 × UInt8))) : Decidable (FitsScreen rows) :=
  inferInstanceAs (Decidable (∀ x ∈ rows.zipIdx, ∀ y ∈ x.1.zipIdx, _))

/-- The location of a place, in the right half of the screen. -/
def placeAt (r c : Nat) : UInt16 := UInt16.ofNat (r * 80 + c + 40)

variable {blinkStruct arg : Mp1BlinkStruct} {rows : List (List (UInt8 × UInt8))} {r c r' c' : Nat}

theorem toNat_placeAt (hr : r < 25) (hc : c < 40) : (placeAt r c).toNat = r * 80 + c + 40 := by
  rw [placeAt, UInt16.toNat_ofNat']
  exact Nat.mod_eq_of_lt (by omega)

theorem placeAt_inj (hr : r < 25) (hc : c < 40) (hr' : r' < 25) (hc' : c' < 40) :
    placeAt r c = placeAt r' c' ↔ r = r' ∧ c = c' := by
  rw [← UInt16.toNat_inj, toNat_placeAt hr hc, toNat_placeAt hr' hc']
  omega

theorem placeAt_bounds (hr : r < 25) (hc : c < 40) :
    placeAt r c ≠ 0 ∧ placeAt r c < 80 * 25 := by
  have hnat := toNat_placeAt hr hc
  refine ⟨fun h => ?_, ?_⟩
  · rw [h] at hnat
    simp at hnat
  · rw [UInt16.lt_iff_toNat_lt, hnat]
    show r * 80 + c + 40 < 2000
    omega

/-! ### The elements for two texts -/

theorem mem_frameCells : arg ∈ frameCells blinkStruct 0 rows ↔
    ∃ x ∈ rows.zipIdx, ∃ y ∈ x.1.zipIdx, y.1 ≠ (blank, blank) ∧
      arg = cellStruct blinkStruct x.2 y.2 y.1.1 y.1.2 := by
  simp only [frameCells, rowCells, List.mem_flatMap]
  refine exists_congr fun x => and_congr_right fun _ => exists_congr fun y =>
    and_congr_right fun _ => ?_
  split
  · rename_i h
    exact iff_of_false (List.not_mem_nil) fun hne => hne.1 h
  · rename_i h
    exact List.mem_singleton.trans (and_iff_right h).symm

/-- A place with something to show is one of the texts. -/
theorem mem_of_cellAt_ne (h : cellAt rows r c ≠ (blank, blank)) :
    ∃ x ∈ rows.zipIdx, ∃ y ∈ x.1.zipIdx, y.1 ≠ (blank, blank) ∧ x.2 = r ∧ y.2 = c ∧
      y.1 = cellAt rows r c := by
  rw [cellAt, List.getD_eq_getElem?_getD, List.getD_eq_getElem?_getD] at h ⊢
  cases hrow : rows[r]? with
  | none =>
    rw [hrow] at h
    exact absurd rfl h
  | some cells =>
    rw [hrow, Option.getD_some] at h
    cases hcell : cells[c]? with
    | none =>
      rw [hcell] at h
      exact absurd rfl h
    | some cell =>
      rw [hcell] at h
      refine ⟨(cells, r), List.mk_mem_zipIdx_iff_getElem?.mpr hrow, (cell, c),
        List.mk_mem_zipIdx_iff_getElem?.mpr hcell, h, rfl, rfl, ?_⟩
      rw [Option.getD_some, hcell, Option.getD_some]

/-- The places of the elements, which are on the screen. -/
theorem FitsScreen.place (hfits : FitsScreen rows) (harg : arg ∈ frameCells blinkStruct 0 rows) :
    ∃ r c, r < 25 ∧ c < 40 ∧ cellAt rows r c ≠ (blank, blank) ∧
      arg = cellStruct blinkStruct r c (cellAt rows r c).1 (cellAt rows r c).2 := by
  obtain ⟨⟨cells, r⟩, hx, ⟨cell, c⟩, hy, hne, rfl⟩ := mem_frameCells.mp harg
  obtain ⟨hr, hc⟩ := hfits _ hx _ hy hne
  have hcell : cellAt rows r c = cell := by
    rw [cellAt, List.getD_eq_getElem?_getD, List.getD_eq_getElem?_getD,
      List.mk_mem_zipIdx_iff_getElem?.mp hx, Option.getD_some,
      List.mk_mem_zipIdx_iff_getElem?.mp hy, Option.getD_some]
  exact ⟨r, c, hr, hc, by rwa [hcell], by rw [hcell]⟩

theorem pairwise_zipIdx {α : Type} (l : List α) : l.zipIdx.Pairwise fun x y => x.2 < y.2 := by
  have hsnd := @List.pairwise_lt_range' 0 l.length 1 Nat.one_pos
  rw [← List.zipIdx_map_snd, List.pairwise_map] at hsnd
  exact hsnd

/-- No two elements are for one location. -/
theorem FitsScreen.pairwise (hfits : FitsScreen rows) (blinkStruct : Mp1BlinkStruct) :
    (frameCells blinkStruct 0 rows).Pairwise fun a b => a.location ≠ b.location := by
  have hcell : ∀ x ∈ rows.zipIdx, ∀ y ∈ x.1.zipIdx, ∀ a ∈ (if y.1 = (blank, blank) then []
      else [cellStruct blinkStruct x.2 y.2 y.1.1 y.1.2]),
      x.2 < 25 ∧ y.2 < 40 ∧ a.location = placeAt x.2 y.2 := by
    intro x hx y hy a ha
    split at ha
    · cases ha
    · rename_i hne
      obtain rfl := List.mem_singleton.mp ha
      obtain ⟨hr, hc⟩ := hfits x hx y hy hne
      exact ⟨hr, hc, rfl⟩
  rw [frameCells, List.pairwise_flatMap]
  constructor
  · intro x hx
    rw [rowCells, List.pairwise_flatMap]
    constructor
    · intro y hy
      split
      · exact List.Pairwise.nil
      · exact List.pairwise_singleton ..
    · refine (pairwise_zipIdx x.1).imp_of_mem fun hy hy' hlt a ha b hb heq => ?_
      obtain ⟨hr, hc, hloc⟩ := hcell x hx _ hy a ha
      obtain ⟨-, hc', hloc'⟩ := hcell x hx _ hy' b hb
      rw [hloc, hloc', placeAt_inj hr hc hr hc'] at heq
      omega
  · refine (pairwise_zipIdx rows).imp_of_mem fun hx hx' hlt a ha b hb heq => ?_
    obtain ⟨y, hy, ha⟩ := List.mem_flatMap.mp ha
    obtain ⟨y', hy', hb⟩ := List.mem_flatMap.mp hb
    obtain ⟨hr, hc, hloc⟩ := hcell _ hx y hy a ha
    obtain ⟨hr', hc', hloc'⟩ := hcell _ hx' y' hy' b hb
    rw [hloc, hloc', placeAt_inj hr hc hr' hc'] at heq
    omega

/-- There are no more elements than places on the screen. -/
theorem FitsScreen.length_le (hfits : FitsScreen rows) (blinkStruct : Mp1BlinkStruct) :
    (frameCells blinkStruct 0 rows).length ≤ 80 * 25 := by
  have hnodup : ((frameCells blinkStruct 0 rows).map fun a => a.location.toNat).Nodup := by
    rw [List.Nodup, List.pairwise_map]
    exact (hfits.pairwise blinkStruct).imp fun hne heq => hne (UInt16.toNat_inj.mp heq)
  have hsub : ((frameCells blinkStruct 0 rows).map fun a => a.location.toNat) ⊆
      List.range (80 * 25) := by
    intro n hn
    obtain ⟨arg, harg, rfl⟩ := List.mem_map.mp hn
    obtain ⟨r, c, hr, hc, -, rfl⟩ := hfits.place harg
    rw [List.mem_range]
    exact UInt16.lt_iff_toNat_lt.mp (placeAt_bounds hr hc).2
  have hle := (hnodup.subperm hsub).length_le
  rwa [List.length_map, List.length_range] at hle

/-! ### The screen -/

theorem run_addAll (f : Fish) (cells : List Mp1BlinkStruct) :
    run blinkStep f (cells.map .add) = some (f.addAll cells) := by
  induction cells generalizing f with
  | nil => rfl
  | cons arg cells ih => exact ih (f.mp1IoctlAdd arg).1

theorem tickCount_ticks (cells : List Mp1BlinkStruct) (k : Nat) :
    tickCount (cells.map .add ++ List.replicate k .tasklet) = k := by
  have hnone : (cells.map BlinkCall.add).count .tasklet = 0 := by
    rw [List.count_eq_zero]
    intro hmem
    obtain ⟨arg, -, heq⟩ := List.mem_map.mp hmem
    cases heq
  rw [tickCount, List.count_append, hnone, List.count_replicate_self, Nat.zero_add]

/-- A place with something to show. -/
theorem FitsScreen.run_shown (hfits : FitsScreen rows) (blinkStruct : Mp1BlinkStruct)
    (vmem : Nat → UInt8) (k : Nat) (hr : r < 25) (hc : c < 40)
    (hne : cellAt rows r c ≠ (blank, blank)) :
    ∃ g, run blinkStep (Fish.start vmem)
        ((frameCells blinkStruct 0 rows).map .add ++ List.replicate k .tasklet) = some g ∧
      g.vmem (2 * (placeAt r c).toNat) =
        if k % 30 < 15 then if (cellAt rows r c).1 = newline then blank else (cellAt rows r c).1
        else if (cellAt rows r c).2 = newline then blank else (cellAt rows r c).2 := by
  obtain ⟨h0, hlt⟩ := placeAt_bounds hr hc
  have hmem : cellStruct blinkStruct r c (cellAt rows r c).1 (cellAt rows r c).2 ∈
      frameCells blinkStruct 0 rows := by
    obtain ⟨x, hx, y, hy, hy', rfl, rfl, heq⟩ := mem_of_cellAt_ne hne
    exact mem_frameCells.mpr ⟨x, hx, y, hy, hy', by rw [heq]⟩
  have hplaces : ∀ a ∈ frameCells blinkStruct 0 rows, a.location ≠ 0 := by
    intro a ha
    obtain ⟨r', c', hr', hc', -, rfl⟩ := hfits.place ha
    exact (placeAt_bounds hr' hc').1
  have hpairwise := hfits.pairwise blinkStruct
  have hlength := hfits.length_le blinkStruct
  obtain ⟨before, after, hsplit⟩ := List.append_of_mem hmem
  rw [hsplit] at hplaces hpairwise hlength
  obtain ⟨-, hrest, hbefore⟩ := List.pairwise_append.mp hpairwise
  obtain ⟨hafter, -⟩ := List.pairwise_cons.mp hrest
  -- the others are added elsewhere, and the ticks are for all
  obtain ⟨f₁, l₁, hrun₁, h₁, -, hlen⟩ := (elsewhere_start (placeAt r c) vmem).run_exists
    (before.map .add) (by
      intro e he
      obtain ⟨a, ha, rfl⟩ := List.mem_map.mp he
      exact ⟨hplaces a (List.mem_append_left _ ha), hbefore a ha _ List.mem_cons_self⟩)
  have hroom : l₁.length < 80 * 25 := by
    have hcount := List.countP_le_length (p := BlinkCall.isAdd) (l := before.map .add)
    rw [List.length_map] at hcount
    rw [List.length_append, List.length_cons] at hlength
    rw [List.length_nil] at hlen
    omega
  have hlater : ∀ e ∈ after.map BlinkCall.add ++ List.replicate k .tasklet,
      SparesLocation (placeAt r c) e := by
    intro e he
    obtain he | he := List.mem_append.mp he
    · obtain ⟨a, ha, rfl⟩ := List.mem_map.mp he
      exact ⟨hplaces a (List.mem_append_right _ (List.mem_cons_of_mem _ ha)), (hafter a ha).symm⟩
    · rw [List.eq_of_mem_replicate he]
      trivial
  have h₁' : Elsewhere (cellStruct blinkStruct r c (cellAt rows r c).1
      (cellAt rows r c).2).location f₁ l₁ := h₁
  obtain ⟨g, hrun, hchar⟩ := h₁'.blinks_run hroom h0 hlt _ hlater
  rw [tickCount_ticks] at hchar
  refine ⟨g, ?_, hchar⟩
  rw [hsplit, List.map_append, List.append_assoc, run_append, hrun₁]
  exact hrun

/-- A place with nothing to show. -/
theorem FitsScreen.run_blank (hfits : FitsScreen rows) (blinkStruct : Mp1BlinkStruct)
    (vmem : Nat → UInt8) (k : Nat) (hr : r < 25) (hc : c < 40)
    (hblank : cellAt rows r c = (blank, blank)) :
    ∃ g, run blinkStep (Fish.start vmem)
        ((frameCells blinkStruct 0 rows).map .add ++ List.replicate k .tasklet) = some g ∧
      g.vmem (2 * (placeAt r c).toNat) = vmem (2 * (placeAt r c).toNat) := by
  obtain ⟨g, -, hrun, -, hcell, -⟩ := (elsewhere_start (placeAt r c) vmem).run_exists
    ((frameCells blinkStruct 0 rows).map .add ++ List.replicate k .tasklet) (by
      intro e he
      obtain he | he := List.mem_append.mp he
      · obtain ⟨a, ha, rfl⟩ := List.mem_map.mp he
        obtain ⟨r', c', hr', hc', hne, rfl⟩ := hfits.place ha
        refine ⟨(placeAt_bounds hr' hc').1, fun heq => hne ?_⟩
        obtain ⟨rfl, rfl⟩ := (placeAt_inj hr' hc' hr hc).mp heq
        exact hblank
      · rw [List.eq_of_mem_replicate he]
        trivial)
  exact ⟨g, hrun, hcell⟩

/-! ### Two texts -/

/-- A character of a text: its rows are filled up with blanks. -/
def frameChar (text : List UInt8) (r c : Nat) : UInt8 :=
  ((text.splitOn newline).getD r []).getD c blank

theorem newline_not_mem_splitOn (text : List UInt8) :
    ∀ r ∈ text.splitOn newline, newline ∉ r := by
  induction text with
  | nil => simp
  | cons b text ih =>
    obtain ⟨first, rest, hsplit⟩ := List.exists_cons_of_ne_nil (List.splitOn_ne_nil newline text)
    rw [hsplit] at ih
    rw [List.splitOn_cons_eq_if_modifyHead, hsplit]
    split
    · intro r hr
      obtain rfl | hr := List.mem_cons.mp hr
      · exact List.not_mem_nil
      · exact ih r hr
    · rename_i hb
      intro r hr
      obtain rfl | hr := List.mem_cons.mp hr
      · have hb' : b ≠ newline := by simpa using hb
        exact List.not_mem_cons_of_ne_of_not_mem hb'.symm (ih first List.mem_cons_self)
      · exact ih r (List.mem_cons_of_mem _ hr)

theorem frameChar_ne (text : List UInt8) (r c : Nat) : frameChar text r c ≠ newline := by
  rw [frameChar, List.getD_eq_getElem?_getD, List.getD_eq_getElem?_getD]
  cases hrow : (text.splitOn newline)[r]? with
  | none =>
    rw [Option.getD_none, List.getElem?_nil, Option.getD_none]
    decide
  | some row =>
    have hmem := newline_not_mem_splitOn text row (List.mem_of_getElem? hrow)
    rw [Option.getD_some]
    cases hc : row[c]? with
    | none => decide
    | some b =>
      rintro rfl
      exact hmem (List.mem_of_getElem? hc)

/-- The texts side by side, place by place. -/
theorem cellAt_frameRows (t0 t1 : List (List UInt8)) (r c : Nat) :
    cellAt (frameRows t0 t1) r c =
      ((t0.getD r []).getD c blank, (t1.getD r []).getD c blank) := by
  have hside : ∀ r0 r1 : List UInt8, (sideBySide r0 r1).getD c (blank, blank) =
      (r0.getD c blank, r1.getD c blank) := by
    intro r0 r1
    rw [sideBySide, List.getD_eq_getElem?_getD, List.getElem?_zipWithAll,
      List.getD_eq_getElem?_getD, List.getD_eq_getElem?_getD]
    cases r0[c]? <;> cases r1[c]? <;> rfl
  rw [cellAt, frameRows, List.getD_eq_getElem?_getD (l := List.zipWithAll _ _ _),
    List.getElem?_zipWithAll, List.getD_eq_getElem?_getD (l := t0),
    List.getD_eq_getElem?_getD (l := t1)]
  cases t0[r]? with
  | none =>
    cases t1[r]? with
    | none => exact hside [] []
    | some r1 => exact hside [] r1
  | some r0 =>
    cases t1[r]? with
    | none => exact hside r0 []
    | some r1 => exact hside r0 r1

/-- The screen for two texts, so many ticks after their elements have been added. -/
structure ShowsFrames (t0 t1 : List UInt8) (vmem : Nat → UInt8) (k : Nat) (g : Fish) : Prop where
  shown : ∀ r < 25, ∀ c < 40, frameChar t0 r c ≠ blank ∨ frameChar t1 r c ≠ blank →
    g.vmem (2 * (r * 80 + c + 40)) =
      if k % 30 < 15 then frameChar t0 r c else frameChar t1 r c
  kept : ∀ r < 25, ∀ c < 40, frameChar t0 r c = blank → frameChar t1 r c = blank →
    g.vmem (2 * (r * 80 + c + 40)) = vmem (2 * (r * 80 + c + 40))

/-- **The frames alternate.** -/
theorem frames_alternate {t0 t1 : List UInt8}
    (hfits : FitsScreen (frameRows (t0.splitOn newline) (t1.splitOn newline)))
    (blinkStruct : Mp1BlinkStruct) (vmem : Nat → UInt8) (k : Nat) :
    ∃ g, run blinkStep ((Fish.start vmem).addAll (frameCells blinkStruct 0
        (frameRows (t0.splitOn newline) (t1.splitOn newline)))) (List.replicate k .tasklet) =
        some g ∧ ShowsFrames t0 t1 vmem k g := by
  set rows := frameRows (t0.splitOn newline) (t1.splitOn newline) with hrows
  have hadded := run_addAll (Fish.start vmem) (frameCells blinkStruct 0 rows)
  have hcell : ∀ r c, cellAt rows r c = (frameChar t0 r c, frameChar t1 r c) :=
    cellAt_frameRows _ _
  have hsplit : run blinkStep (Fish.start vmem)
      ((frameCells blinkStruct 0 rows).map .add ++ List.replicate k .tasklet) =
      run blinkStep ((Fish.start vmem).addAll (frameCells blinkStruct 0 rows))
        (List.replicate k .tasklet) := by
    rw [run_append, hadded]
    rfl
  have hexists : ∃ g, run blinkStep ((Fish.start vmem).addAll (frameCells blinkStruct 0 rows))
      (List.replicate k .tasklet) = some g := by
    rw [← hsplit]
    by_cases hblank : cellAt rows 0 0 = (blank, blank)
    · obtain ⟨g, hg, -⟩ :=
        hfits.run_blank blinkStruct vmem k (by decide) (by decide) hblank
      exact ⟨g, hg⟩
    · obtain ⟨g, hg, -⟩ :=
        hfits.run_shown blinkStruct vmem k (by decide) (by decide) hblank
      exact ⟨g, hg⟩
  obtain ⟨g, hg⟩ := hexists
  refine ⟨g, hg, fun r hr c hc hne => ?_, fun r hr c hc h0 h1 => ?_⟩
  · have hne' : cellAt rows r c ≠ (blank, blank) := by
      rw [hcell]
      intro heq
      obtain ⟨h0, h1⟩ := Prod.mk.inj heq
      exact hne.elim (· h0) (· h1)
    obtain ⟨g', hg', hchar⟩ := hfits.run_shown blinkStruct vmem k hr hc hne'
    obtain rfl := Option.some.inj ((hg.symm.trans hsplit.symm).trans hg')
    rw [toNat_placeAt hr hc, hcell, if_neg (frameChar_ne t0 r c), if_neg (frameChar_ne t1 r c)]
      at hchar
    exact hchar
  · have hblank : cellAt rows r c = (blank, blank) := by
      rw [hcell, h0, h1]
    obtain ⟨g', hg', hchar⟩ := hfits.run_blank blinkStruct vmem k hr hc hblank
    obtain rfl := Option.some.inj ((hg.symm.trans hsplit.symm).trans hg')
    rw [toNat_placeAt hr hc] at hchar
    exact hchar

/-! ### The program in a run -/

theorem exists_free {σ : Session} {i : Fin 8} (h : σ.handles i = none) : ∃ k, σ.free = some k := by
  apply Option.isSome_iff_exists.mp
  rw [Session.free, List.find?_isSome]
  exact ⟨i, List.mem_finRange i, by rw [h]; rfl⟩

/-- The contents of a regular file, by its name. -/
theorem volume_regular {img : Image} {filename : List UInt8} {dentry : Dentry}
    (hdentry : readDentryByName img filename = some dentry) (hregular : dentry.filetype = 2) :
    img.volume filename = some (.file (img.contents dentry.inode) 0) := by
  simp only [Image.volume, hdentry, Option.bind_some, Dentry.handle, hregular]

/-- **The fish.** In any run that leaves its files to the process, `add_frames` makes no more than
so many calls. When it is done with two files that fit the screen, the descriptors are as they were,
and from then on the files take turns on the screen, for 15 ticks each. -/
theorem fish_frames {img : Image} {s m : Kernel} {t : TermId} {n : Fin 4} {i j : Fin 8}
    {f0 f1 : List UInt8} {d0 d1 : Dentry} {buf0 buf1 fuel : Nat} {blinkStruct : Mp1BlinkStruct}
    {vmem : Nat → UInt8} {es : List Event} {log : ServiceLog} {q : UserProg (Option Fish)}
    (htidy : Tidy img) (hmask : s.pcbMask t n = true)
    (hsound : FdsSound img (s.pcb (slotId t n)).fds) (hij : i ≠ j)
    (hi : ((s.pcb (slotId t n)).fds i).flags = 0) (hj : ((s.pcb (slotId t n)).fds j).flags = 0)
    (hdentry0 : readDentryByName img f0 = some d0) (hregular0 : d0.filetype = 2)
    (hdentry1 : readDentryByName img f1 = some d1) (hregular1 : d1.filetype = 2)
    (hbuf0 : buf0 ≠ 0) (hbuf1 : buf1 ≠ 0) {rows : List (List (UInt8 × UInt8))}
    (hrows : rows = frameRows ((img.contents d0.inode).splitOn newline)
      ((img.contents d1.inode).splitOn newline))
    (hfits : FitsScreen rows) (hlength : rows.length < fuel) (hwidth : ∀ r ∈ rows, r.length < fuel)
    (hspare : Guarded (logReplies img (slotId t n))
      (fun x e => SparesFiles (slotId t n) x.1 e) (s, []) es)
    (hrun : run (logReplies img (slotId t n)) (s, []) es = some (m, log))
    (hdoes : Does (addFrames buf0 buf1 blinkStruct fuel f0 f1 (Fish.start vmem)) log q) :
    log.length ≤ rows.length * (2 * fuel + 2) + 2 ∧ ∀ b, q = .done b →
      (m.pcb (slotId t n)).session img = (s.pcb (slotId t n)).session img ∧
      ∃ f, b = some f ∧ ∀ k, ∃ g, run blinkStep f (List.replicate k .tasklet) = some g ∧
        ShowsFrames (img.contents d0.inode) (img.contents d1.inode) vmem k g := by
  subst hrows
  set σ := (s.pcb (slotId t n)).session img with hσ
  have hnone : ∀ k, ((s.pcb (slotId t n)).fds k).flags = 0 ↔ σ.handles k = none := by
    intro k
    rw [← Option.isNone_iff_eq_none]
    exact (hsound.isNone_iff k).symm
  have htwo : ∀ k, σ.handles k = none → 2 ≤ k.val := fun k hk => hsound.two_le ((hnone k).mpr hk)
  obtain ⟨a, ha⟩ := exists_free ((hnone i).mp hi)
  -- one of the two is left when the first file has been opened
  have hleft : ∃ c, (σ.set a (some (.file (img.contents d0.inode) 0))).free = some c := by
    by_cases hia : i = a
    · apply exists_free (i := j)
      rw [set_handles_of_ne _ (hia ▸ hij.symm)]
      exact (hnone j).mp hj
    · apply exists_free (i := i)
      rw [set_handles_of_ne _ hia]
      exact (hnone i).mp hi
  obtain ⟨c, hc⟩ := hleft
  have hca : c ≠ a := by
    rintro rfl
    have hopen := handles_of_free hc
    rw [set_handles_self] at hopen
    cases hopen
  have hc2 : 2 ≤ c.val := by
    apply htwo
    rw [← handles_of_free hc, set_handles_of_ne _ hca]
  obtain ⟨full, hsettles, hcount⟩ := addFrames_settles img.volume σ hbuf0 hbuf1 blinkStruct
    (Fish.start vmem) (volume_regular hdentry0 hregular0) (volume_regular hdentry1 hregular1) ha hc
    (htwo a (handles_of_free ha)) hc2 hlength hwidth
  obtain ⟨hfull, hdone⟩ := does_of_settles htidy hmask hsound hspare hrun hdoes hsettles
  refine ⟨hfull.length_le.trans hcount, fun b hq => ?_⟩
  obtain ⟨rfl, -, hsession⟩ := hdone b hq
  exact ⟨hsession, _, rfl, frames_alternate hfits blinkStruct vmem⟩

/-- The small image with two more files, `a` and `b`, of one character each. -/
def frameImage : Image := fun a =>
  ([(0, 4), (4, 3), (8, 3),
    (64, 46), (96, 1),
    (128, 115), (129, 104), (130, 101), (131, 108), (132, 108), (160, 2),
    (192, 97), (224, 2), (228, 1),
    (256, 98), (288, 2), (292, 2),
    (4096, 40), (8192, 1), (8196, 1), (12288, 1), (12292, 2),
    (16384, 0x7f), (16385, 0x45), (16386, 0x4c), (16387, 0x46),
    (20480, 111), (24576, 120)].find? fun w : Store => w.1 = a).elim 0 Prod.snd

theorem frameImage_tidy : Tidy frameImage where
  inode_lt := by decide +kernel
  good n hn := by
    have h3 : frameImage.numInodes = 3 := by decide +kernel
    have hsize : frameImage.inodeSize n ≤ 40 ∧
        frameImage.dataBlock n 0 < frameImage.numDatablocks := by
      have hn' : n = 0 ∨ n = 1 ∨ n = 2 := by omega
      obtain rfl | rfl | rfl := hn' <;> decide +kernel
    refine ⟨hsize.1.trans (by decide), fun k hk => ?_⟩
    simp only [fsBlockSize] at hk
    obtain rfl : k = 0 := by omega
    exact hsize.2
  filetype_le := by decide +kernel
  ends := by decide +kernel

/-- The calls of `add_frames`, with an interrupt of the clock and a key in between. -/
def framesSchedule : List (Option Event) :=
  [none, none, some .rtc, none, none, some (.key 0x1e noStale), none, none, none, none]

theorem fish_frames_sample : ∃ s es m log f g,
    run (step frameImage) (boot powerOn) [.tick noStale] = some s ∧
    run (logReplies frameImage (slotId 1 0)) (s, []) es = some (m, log) ∧
    Does (addFrames 0x8000000 0x8000001 .zero 3 (text ['a']) (text ['b'])
      (Fish.start fun _ => 0)) log (.done (some f)) ∧
    run blinkStep f (List.replicate 20 .tasklet) = some g ∧
    ShowsFrames (frameImage.contents 1) (frameImage.contents 2) (fun _ => 0) 20 g := by
  have hobs : ((run (step frameImage) (boot powerOn) [.tick noStale]).bind fun s =>
      (drive frameImage (slotId 1 0) framesSchedule s (addFrames 0x8000000 0x8000001 .zero 3
        (text ['a']) (text ['b']) (Fish.start fun _ => 0))).map fun x =>
      (s.pcbMask 1 0, decide (∀ i, (s.pcb (slotId 1 0)).fds i = freshFds i),
        x.2.result.isSome, decide (Guarded (logReplies frameImage (slotId 1 0))
        (fun x e => SparesFiles (slotId 1 0) x.1 e) (s, []) x.1))) =
      some (true, true, true, true) := by decide +kernel
  obtain ⟨s, hs, hobs⟩ := Option.bind_eq_some_iff.mp hobs
  obtain ⟨⟨es, q⟩, hdrive, hobs⟩ := Option.map_eq_some_iff.mp hobs
  simp only [Prod.mk.injEq, decide_eq_true_eq] at hobs
  obtain ⟨hmask, hfresh, hdone, hspare⟩ := hobs
  obtain ⟨b, hb⟩ := Option.isSome_iff_exists.mp hdone
  obtain rfl := Prog.eq_done_of_result hb
  obtain ⟨m, log, hrun, hdoes⟩ := run_drive [] hdrive
  have hsound : FdsSound frameImage (s.pcb (slotId 1 0)).fds := by
    rw [funext hfresh]
    exact fdsSound_freshFds frameImage
  have hclosed : ∀ i : Fin 8, 2 ≤ i.val → ((s.pcb (slotId 1 0)).fds i).flags = 0 := by
    intro i hi
    rw [hfresh]
    revert i
    decide
  have hfirst : readDentryByName frameImage (text ['a']) = some ⟨text ['a'], 2, 1⟩ := by
    decide +kernel
  have hsecond : readDentryByName frameImage (text ['b']) = some ⟨text ['b'], 2, 2⟩ := by
    decide +kernel
  have hrows : frameRows ((frameImage.contents 1).splitOn newline)
      ((frameImage.contents 2).splitOn newline) = [[(111, 120)]] := by
    decide +kernel
  obtain ⟨-, hframes⟩ := fish_frames frameImage_tidy hmask hsound (by decide : (2 : Fin 8) ≠ 3)
    (hclosed 2 (by decide)) (hclosed 3 (by decide)) hfirst rfl hsecond rfl (by decide) (by decide)
    hrows.symm (by decide) (by decide) (by decide) hspare hrun hdoes
  obtain ⟨-, f, rfl, hshows⟩ := hframes b rfl
  obtain ⟨g, hg, hshown⟩ := hshows 20
  exact ⟨s, es, m, log, f, g, hs, hrun, hdoes, hg, hshown⟩

end LinuxLikeKernel
