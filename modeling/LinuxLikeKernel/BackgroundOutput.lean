import LinuxLikeKernel.Printing
import LinuxLikeKernel.Terminal

/-!
# Output in the background

Printing in the background and then switching to the terminal should be the same as switching
first and printing on the screen. It is, but for the attribute that `multi_putc` stores through
the shared pointer `video_mem`.

## Main definitions

- `BackgroundReady` — a valid state with one terminal displayed and another one running
- `BackgroundAgrees` — the two orders agree, and background output leaves the screen alone
- `StrayHarmless` — the stray attributes are not seen in the end

## Main results

- `backgroundAgrees_iff` — the orders agree exactly when they are not
-/

namespace LinuxLikeKernel
open ByteMemory TextSheet

/-! ### The two orders -/

/-- The two consoles display the same, and have the same saved pages but for that of `t`. -/
structure SameDisplay (k k' : Console) (t : TermId) : Prop where
  screen : ∀ j < pageBytes, k.screen.mem (video + j) = k'.screen.mem (video + j)
  x : k.screen.screenX = k'.screen.screenX
  y : k.screen.screenY = k'.screen.screenY
  pos : k.screen.cursorPos = k'.screen.cursorPos
  saved : ∀ u, u ≠ t → ∀ j < pageBytes,
    k.screen.mem ((k.term u).videoMem + j) = k'.screen.mem ((k'.term u).videoMem + j)

/-- Printing `s` in the background leaves the visible screen alone, and switching from `d` to
`t` then leads to the same display as switching first. -/
def BackgroundAgrees (k : Console) (d t : TermId) (s : List UInt8) : Prop :=
  (∀ j < pageBytes, (k.multiPuts s).screen.mem (video + j) = k.screen.mem (video + j)) ∧
    ∀ a b, (k.multiPuts s).termSwitch (some d) t = some a →
      k.termSwitch (some d) t = some b → SameDisplay a (b.puts s) t

/-- A valid state with `d` displayed and `t` running: the cursors are inside the screen,
`video_mem` points to a page, and each terminal's cells carry its own attribute. -/
structure BackgroundReady (k : Console) (d t : TermId) : Prop where
  displayed : k.curTermId = some d
  running : k.nowTermId = t
  ne : t ≠ d
  pages : ∀ u, (k.term u).videoMem = backingPage u
  videoMem : k.screen.videoMem = video ∨ ∃ u, k.screen.videoMem = backingPage u
  screenX : k.screen.screenX < numCols
  screenY : k.screen.screenY < numRows
  cursorX : (k.term t).cursorX < numCols
  cursorY : (k.term t).cursorY < numRows
  screen : (gridAt k.screen.mem video).map Prod.snd = fun _ _ => attrib (some d)
  saved : ∀ u, u ≠ d → (gridAt k.screen.mem (backingPage u)).map Prod.snd =
    fun _ _ => attrib (some u)

/-- A cursor from its coordinates. -/
def cursorAt (x y : Nat) : Cursor numCols numRows :=
  ⟨⟨x % numCols, Nat.mod_lt _ (by decide)⟩, ⟨y % numRows, Nat.mod_lt _ (by decide)⟩⟩

/-- The saved cursor of a terminal. -/
def Console.backCursor (k : Console) (t : TermId) : Cursor numCols numRows :=
  cursorAt (k.term t).cursorX (k.term t).cursorY

/-- There is no character to print, `video_mem` points to the visible screen or to the page
that the switch overwrites, or it points to the page of `t` and that scrolls away every stray
attribute: more than `screen_y` times after each character. -/
def StrayHarmless (k : Console) (d t : TermId) (s : List UInt8) : Prop :=
  (∀ c ∈ s, isGlyph c = false) ∨ k.screen.videoMem = video ∨
    k.screen.videoMem = (k.term d).videoMem ∨
    (k.screen.videoMem = (k.term t).videoMem ∧
      ∀ l₁ l₂, s.map isGlyph = l₁ ++ true :: l₂ → k.screen.screenY <
        ((k.backCursor t).run l₁).scrollCount (true :: l₂))

/-! ### The switch -/

variable {k : Console} {d t : TermId}

/-- What a switch from `d` to `t` displays and saves. -/
structure Switched (k k' : Console) (d t : TermId) (p : Cursor numCols numRows) : Prop where
  shows : k'.screen.Shows ⟨gridAt k.screen.mem (backingPage t), p⟩
  cur : k'.curTermId = some t
  pages : ∀ u, (k'.term u).videoMem = (k.term u).videoMem
  old : gridAt k'.screen.mem (backingPage d) = gridAt k.screen.mem video
  others : ∀ u, u ≠ d → gridAt k'.screen.mem (backingPage u) = gridAt k.screen.mem (backingPage u)

theorem switched_termSwitch {k' : Console} (hne : t ≠ d)
    (hpages : ∀ u, (k.term u).videoMem = backingPage u) {p : Cursor numCols numRows}
    (hx : (k.term t).cursorX = p.x) (hy : (k.term t).cursorY = p.y)
    (h : k.termSwitch (some d) t = some k') : Switched k k' d t p := by
  have hk' : k' = (k.termSave d).termRestore t := (Option.some.inj h).symm
  -- the screen goes to the page of `d`, then the page of `t` to the screen
  have hterm : ∀ u, u ≠ d → (k.termSave d).term u = k.term u :=
    fun u hu => Function.update_of_ne hu _ _
  have hscreen : setScreenCursor k.curTermId (k.termSave d).screen p.x p.y =
      { (k.termSave d).screen with
        screenX := p.x
        screenY := p.y
        cursorPos := cellIndex p } := setScreenCursor_eq ..
  have hmem : k'.screen.mem = copy (copy k.screen.mem (backingPage d) video pageBytes) video
      (backingPage t) pageBytes := by
    rw [hk']
    simp only [Console.termRestore, hterm t hne, hx, hy, hpages]
    rw [show (k.termSave d).curTermId = k.curTermId from rfl, hscreen]
    simp only [Console.termSave, Console.setScreen, hpages]
  have hxyp : k'.screen.screenX = p.x ∧ k'.screen.screenY = p.y ∧
      k'.screen.cursorPos = cellIndex p := by
    rw [hk']
    simp only [Console.termRestore, hterm t hne, hx, hy]
    rw [show (k.termSave d).curTermId = k.curTermId from rfl, hscreen]
    exact ⟨rfl, rfl, rfl⟩
  obtain ⟨hx', hy', hpos'⟩ := hxyp
  refine ⟨⟨?_, hx', hy', hpos'⟩, ?_, ?_, ?_, ?_⟩
  · rw [hmem, gridAt_copy]
    exact gridAt_copy_of_apart (apart_backingPage hne.symm)
  · rw [hk']
    rfl
  · intro u
    rw [hk']
    by_cases hu : u = d
    · subst hu
      simp [Console.termRestore, Console.termSave, Console.setTerm, Console.setScreen]
    · exact congrArg Term.videoMem (hterm u hu)
  · rw [hmem, gridAt_copy_of_apart (apart_video d), gridAt_copy]
  · intro u hu
    rw [hmem, gridAt_copy_of_apart (apart_video u)]
    exact gridAt_copy_of_apart (apart_backingPage (Ne.symm hu))

/-! ### The state after background output -/

/-- Terminals have different attributes. -/
theorem attrib_ne {t u : TermId} : t ≠ u → attrib (some t) ≠ attrib (some u) := by
  revert t u
  decide

theorem cursorAt_x {x : Nat} (y : Nat) (hx : x < numCols) : x = (cursorAt x y).x :=
  (Nat.mod_eq_of_lt hx).symm

theorem cursorAt_y (x : Nat) {y : Nat} (hy : y < numRows) : y = (cursorAt x y).y :=
  (Nat.mod_eq_of_lt hy).symm

/-- The memory after background output of terminal `t`. -/
def Console.backMem (k : Console) (t : TermId) (s : List UInt8) : Mem :=
  multiMemAll k.ink k.screen.mem (k.backCursor t) s

/-- The sheet that `putc` prints after the switch. -/
def Console.frontSheet (k : Console) (t : TermId) (s : List UInt8) :
    Sheet numCols numRows (UInt8 × UInt8) :=
  Sheet.printAll (32, attrib (some t)) ⟨gridAt k.screen.mem (backingPage t), k.backCursor t⟩
    (s.map (itemWith (attrib (some t))))

theorem cursor_frontSheet (k : Console) (t : TermId) (s : List UInt8) :
    (k.frontSheet t s).cursor = (k.backCursor t).run (s.map isGlyph) := by
  have hglyph : ∀ c, (itemWith (attrib (some t)) c).isSome = isGlyph c :=
    fun c => Option.isSome_map ..
  rw [Console.frontSheet, Sheet.cursor_printAll, List.map_map]
  congr 2
  funext c
  exact hglyph c

namespace BackgroundReady

variable (hr : BackgroundReady k d t)
include hr

/-- The cursor of the visible screen. -/
theorem straysTo : k.ink.StraysTo k.screen.videoMem
    (cursorAt k.screen.screenX k.screen.screenY) := by
  have hindex : numCols * k.screen.screenY + k.screen.screenX =
      cellIndex (cursorAt k.screen.screenX k.screen.screenY) := by
    rw [cellIndex, ← cursorAt_x _ hr.screenX, ← cursorAt_y _ hr.screenY]
  rw [Ink.StraysTo, ← hindex]
  rfl

theorem ink_page : k.ink.page = backingPage t := by
  rw [← hr.pages t, ← hr.running]
  rfl

theorem ink_attrib : k.ink.attrib = attrib (some t) := by
  rw [← hr.running]
  rfl

theorem ink_stray : k.ink.stray.2 = attrib (some d) := by
  rw [← hr.displayed]
  rfl

theorem multiPuts (s : List UInt8) :
    k.multiPuts s = k.atBack (k.backMem t s) ((k.backCursor t).run (s.map isGlyph)) := by
  refine multiPuts_eq ?_ ?_ s
  · rw [Console.nowTerm, hr.running]
    exact cursorAt_x _ hr.cursorX
  · rw [Console.nowTerm, hr.running]
    exact cursorAt_y _ hr.cursorY

/-- Background output leaves the visible screen alone. -/
theorem gridAt_video (s : List UInt8) :
    gridAt (k.backMem t s) video = gridAt k.screen.mem video := by
  have hv : k.screen.videoMem = video ∨ Apart k.screen.videoMem video := by
    obtain hv | ⟨u, hv⟩ := hr.videoMem
    · exact .inl hv
    · exact .inr (hv ▸ (apart_video u).symm)
  have hpage : Apart k.ink.page video := hr.ink_page ▸ (apart_video t).symm
  rw [Console.backMem, gridAt_multiMemAll hr.straysTo hpage hv]
  split
  · -- the attribute stored there is the one that is there already
    have hattrib := congrFun (congrFun hr.screen (cursorAt k.screen.screenX k.screen.screenY).y)
      (cursorAt k.screen.screenX k.screen.screenY).x
    rw [hr.ink_stray, ← hattrib]
    exact Grid.write_self ..
  · rfl

/-- The page of a third terminal stays as it was unless the stray attributes go there. -/
theorem gridAt_third {u : TermId} (hut : u ≠ t) (hud : u ≠ d) (s : List UInt8) :
    gridAt (k.backMem t s) (backingPage u) = gridAt k.screen.mem (backingPage u) ↔
      ¬(k.screen.videoMem = backingPage u ∧ ∃ c ∈ s, isGlyph c = true) := by
  have hv : k.screen.videoMem = backingPage u ∨ Apart k.screen.videoMem (backingPage u) := by
    obtain hv | ⟨w, hv⟩ := hr.videoMem
    · exact .inr (hv ▸ apart_video u)
    · by_cases hw : w = u
      · exact .inl (hw ▸ hv)
      · exact .inr (hv ▸ apart_backingPage hw)
  have hpage : Apart k.ink.page (backingPage u) := hr.ink_page ▸ apart_backingPage (Ne.symm hut)
  rw [Console.backMem, gridAt_multiMemAll hr.straysTo hpage hv]
  split
  · rename_i hstray
    refine iff_of_false (fun h => ?_) (not_not.mpr hstray)
    have hcell := congrFun (congrFun h (cursorAt k.screen.screenX k.screen.screenY).y)
      (cursorAt k.screen.screenX k.screen.screenY).x
    have hattrib := congrFun (congrFun (hr.saved u hud)
      (cursorAt k.screen.screenX k.screen.screenY).y) (cursorAt k.screen.screenX k.screen.screenY).x
    simp only [Grid.write, and_self, if_true] at hcell
    rw [hr.ink_stray] at hcell
    exact attrib_ne (Ne.symm hud) ((congrArg Prod.snd hcell).trans hattrib)
  · rename_i hno
    exact iff_of_true rfl hno

/-- The attributes on the page of the running terminal stay right when the stray ones go
elsewhere, or are scrolled away. -/
theorem attribs_running (s : List UInt8) :
    ((gridAt (k.backMem t s) (backingPage t)).map Prod.snd = fun _ _ => attrib (some t)) ↔
      (k.screen.videoMem = backingPage t → ∀ l₁ l₂, s.map isGlyph = l₁ ++ true :: l₂ →
        k.screen.screenY < ((k.backCursor t).run l₁).scrollCount (true :: l₂)) := by
  have hpage := hr.ink_page
  have hattrib := hr.ink_attrib
  have hsaved : (gridAt k.screen.mem k.ink.page).map Prod.snd = fun _ _ => k.ink.attrib := by
    rw [hpage, hattrib]
    exact hr.saved t hr.ne
  rw [← hpage, ← hattrib]
  by_cases hv : k.screen.videoMem = k.ink.page
  · have hstray : k.ink.StraysTo k.ink.page (cursorAt k.screen.screenX k.screen.screenY) :=
      hv ▸ hr.straysTo
    have hne : k.ink.stray.2 ≠ k.ink.attrib := by
      rw [hr.ink_stray, hattrib]
      exact attrib_ne hr.ne.symm
    rw [Console.backMem, attribs_multiMemAll hstray, hsaved, marked_blank_iff hne,
      ← cursorAt_y _ hr.screenY]
    simp only [hv, true_implies]
  · have hapart : Apart k.screen.videoMem k.ink.page := by
      obtain hvideo | ⟨w, hw⟩ := hr.videoMem
      · exact hvideo ▸ hpage ▸ apart_video t
      · rw [hw, hpage]
        refine apart_backingPage fun he => hv ?_
        rw [hw, he, hpage]
    refine iff_of_true ?_ fun h => absurd h hv
    exact attribs_multiMemAll_of_apart hr.straysTo hapart hsaved _ s

theorem chars_frontSheet (s : List UInt8) : (k.frontSheet t s).cells.map Prod.fst =
    (gridAt (k.backMem t s) (backingPage t)).map Prod.fst := by
  have hv : k.screen.videoMem = k.ink.page ∨ Apart k.screen.videoMem k.ink.page := by
    rw [hr.ink_page]
    obtain hv | ⟨w, hv⟩ := hr.videoMem
    · exact .inr (hv ▸ apart_video t)
    · by_cases hw : w = t
      · exact .inl (hw ▸ hv)
      · exact .inr (hv ▸ apart_backingPage hw)
  have hitems : (s.map (itemWith (attrib (some t)))).map (Option.map Prod.fst) = s.map item := by
    rw [List.map_map]
    congr 1
    funext c
    simp only [Function.comp, itemWith]
    cases item c <;> rfl
  have hmap := Sheet.printAll_map Prod.fst (32, attrib (some t))
    ⟨gridAt k.screen.mem (backingPage t), k.backCursor t⟩ (s.map (itemWith (attrib (some t))))
  rw [hitems] at hmap
  refine (congrArg Sheet.cells hmap).trans ?_
  rw [Console.backMem, ← hr.ink_page, chars_multiMemAll hr.straysTo hv]
  rfl

theorem attribs_frontSheet (s : List UInt8) :
    (k.frontSheet t s).cells.map Prod.snd = fun _ _ => attrib (some t) := by
  have hmap := Sheet.printAll_map Prod.snd (32, attrib (some t))
    ⟨gridAt k.screen.mem (backingPage t), k.backCursor t⟩ (s.map (itemWith (attrib (some t))))
  refine (congrArg Sheet.cells hmap).trans ?_
  have hblank : Sheet.map Prod.snd ⟨gridAt k.screen.mem (backingPage t), k.backCursor t⟩ =
      ⟨fun _ _ => attrib (some t), k.backCursor t⟩ := Sheet.ext (hr.saved t hr.ne) rfl
  rw [hblank]
  refine Sheet.cells_printAll_blank _ _ fun i hi => ?_
  obtain ⟨o, ho, rfl⟩ := List.mem_map.mp hi
  obtain ⟨c, -, rfl⟩ := List.mem_map.mp ho
  cases hitem : item c with
  | none => exact .inl (by simp [itemWith, hitem])
  | some c' => exact .inr (by simp [itemWith, hitem])

/-- The page of the running terminal is what `putc` would have printed exactly when its
attributes are right. -/
theorem gridAt_running (s : List UInt8) :
    gridAt (k.backMem t s) (backingPage t) = (k.frontSheet t s).cells ↔
      (gridAt (k.backMem t s) (backingPage t)).map Prod.snd = fun _ _ => attrib (some t) := by
  constructor
  · intro h
    rw [h]
    exact hr.attribs_frontSheet s
  · intro h
    funext r c
    refine Prod.ext ?_ ?_
    · exact congrFun (congrFun (hr.chars_frontSheet s).symm r) c
    · exact (congrFun (congrFun h r) c).trans
        (congrFun (congrFun (hr.attribs_frontSheet s).symm r) c)

/-- The two displays are the same exactly when the pages are. -/
theorem sameDisplay_iff {s : List UInt8} {a b : Console}
    (ha : (k.multiPuts s).termSwitch (some d) t = some a) (hb : k.termSwitch (some d) t = some b) :
    SameDisplay a (b.puts s) t ↔
      gridAt (k.backMem t s) (backingPage t) = (k.frontSheet t s).cells ∧
        ∀ u, u ≠ t → u ≠ d →
          gridAt (k.backMem t s) (backingPage u) = gridAt k.screen.mem (backingPage u) := by
  have hback := hr.multiPuts s
  have hmem : (k.multiPuts s).screen.mem = k.backMem t s := by rw [hback]; rfl
  have hpages : ∀ u, ((k.multiPuts s).term u).videoMem = backingPage u := by
    intro u
    rw [hback, ← hr.pages u]
    by_cases hu : u = k.nowTermId
    · subst hu
      simp [Console.atBack, Console.nowTerm]
    · simp [Console.atBack, Function.update_of_ne hu]
  have hterm : (k.multiPuts s).term t = { k.term t with
      cursorX := ((k.backCursor t).run (s.map isGlyph)).x
      cursorY := ((k.backCursor t).run (s.map isGlyph)).y } := by
    rw [hback]
    simp [Console.atBack, Console.nowTerm, hr.running]
  -- the switch, after the output and before it
  have hsa := switched_termSwitch hr.ne hpages (congrArg Term.cursorX hterm)
    (congrArg Term.cursorY hterm) ha
  have hsb := switched_termSwitch hr.ne hr.pages (cursorAt_x _ hr.cursorX)
    (cursorAt_y _ hr.cursorY) hb
  have hshows : (b.puts s).screen.Shows (k.frontSheet t s) := by
    have hputs : (b.puts s).screen = puts (some t) s b.screen :=
      congrArg (fun cur => puts cur s b.screen) hsb.cur
    exact hputs ▸ hsb.shows.puts (some t) s
  have hbehind : ∀ u, gridAt (b.puts s).screen.mem (backingPage u) =
      gridAt b.screen.mem (backingPage u) := fun u => gridAt_puts hsb.shows _ s (apart_video u)
  -- the page of `d` gets what was visible, which the output does not touch in either order
  have hold : gridAt a.screen.mem (backingPage d) =
      gridAt (b.puts s).screen.mem (backingPage d) := by
    have hvideo : gridAt (k.multiPuts s).screen.mem video = gridAt k.screen.mem video :=
      (congrArg (gridAt · video) hmem).trans (hr.gridAt_video s)
    exact hsa.old.trans (hvideo.trans (hsb.old.symm.trans (hbehind d).symm))
  have hgrid : gridAt a.screen.mem video = gridAt (k.backMem t s) (backingPage t) :=
    hmem ▸ hsa.shows.grid
  have hgrid' : gridAt (b.puts s).screen.mem video = (k.frontSheet t s).cells := hshows.grid
  have hother : ∀ u, u ≠ d → gridAt a.screen.mem (backingPage u) =
      gridAt (k.backMem t s) (backingPage u) := fun u hu => hmem ▸ hsa.others u hu
  have hother' : ∀ u, u ≠ d → gridAt (b.puts s).screen.mem (backingPage u) =
      gridAt k.screen.mem (backingPage u) := fun u hu => (hbehind u).trans (hsb.others u hu)
  have hpagea : ∀ u, (a.term u).videoMem = backingPage u :=
    fun u => (hsa.pages u).trans (hpages u)
  have hpageb : ∀ u, ((b.puts s).term u).videoMem = backingPage u :=
    fun u => (hsb.pages u).trans (hr.pages u)
  constructor
  · intro h
    constructor
    · exact hgrid.symm.trans ((gridAt_eq_iff.mpr h.screen).trans hgrid')
    · intro u hut hud
      have hsaved : gridAt a.screen.mem (backingPage u) =
          gridAt (b.puts s).screen.mem (backingPage u) := by
        refine gridAt_eq_iff.mpr fun j hj => ?_
        have hbyte := h.saved u hut j hj
        rwa [hpagea, hpageb] at hbyte
      exact (hother u hud).symm.trans (hsaved.trans (hother' u hud))
  · rintro ⟨hscreen, hothers⟩
    have hcursor := cursor_frontSheet k t s
    refine ⟨?_, ?_, ?_, ?_, ?_⟩
    · exact gridAt_eq_iff.mp (hgrid.trans (hscreen.trans hgrid'.symm))
    · exact hsa.shows.x.trans (hcursor ▸ hshows.x).symm
    · exact hsa.shows.y.trans (hcursor ▸ hshows.y).symm
    · exact hsa.shows.pos.trans (hcursor ▸ hshows.pos).symm
    · intro u hut
      rw [hpagea, hpageb]
      refine gridAt_eq_iff.mp ?_
      by_cases hud : u = d
      · rw [hud]
        exact hold
      · exact (hother u hud).trans ((hothers u hut hud).trans (hother' u hud).symm)

end BackgroundReady

/-! ### When the orders agree -/

/-- A text without characters to print has no glyph in it. -/
theorem no_glyph {s : List UInt8} (h : ∀ c ∈ s, isGlyph c = false) {l₁ l₂ : List Bool} :
    s.map isGlyph ≠ l₁ ++ true :: l₂ := by
  intro heq
  have hmem : true ∈ s.map isGlyph := heq ▸ List.mem_append_right _ List.mem_cons_self
  obtain ⟨c, hc, htrue⟩ := List.mem_map.mp hmem
  exact Bool.false_ne_true ((h c hc).symm.trans htrue)

/-- The pages that the displays are compared on are right exactly when the stray attributes
are harmless. -/
theorem strayHarmless_iff (hr : BackgroundReady k d t) (s : List UInt8) :
    StrayHarmless k d t s ↔
      (k.screen.videoMem = backingPage t → ∀ l₁ l₂, s.map isGlyph = l₁ ++ true :: l₂ →
        k.screen.screenY < ((k.backCursor t).run l₁).scrollCount (true :: l₂)) ∧
      ∀ u, u ≠ t → u ≠ d → ¬(k.screen.videoMem = backingPage u ∧ ∃ c ∈ s, isGlyph c = true) := by
  rw [StrayHarmless, hr.pages, hr.pages]
  by_cases hno : ∀ c ∈ s, isGlyph c = false
  · refine iff_of_true (.inl hno) ⟨fun _ l₁ l₂ h => absurd h (no_glyph hno), ?_⟩
    rintro u - - ⟨-, c, hc, hglyph⟩
    exact Bool.false_ne_true ((hno c hc).symm.trans hglyph)
  · have hsome : ∃ c ∈ s, isGlyph c = true := by simpa using hno
    have hinj : ∀ {u v}, backingPage u = backingPage v → u = v := fun {u v} h =>
      Fin.ext (by simpa [backingPage] using h)
    constructor
    · rintro (h | hv | hv | ⟨hv, hscroll⟩)
      · exact absurd h hno
      · rw [hv]
        exact ⟨fun h => absurd h.symm (backingPage_ne_video t),
          fun u _ _ h => backingPage_ne_video u h.1.symm⟩
      · rw [hv]
        exact ⟨fun h => absurd (hinj h).symm hr.ne, fun u _ hud h => hud (hinj h.1).symm⟩
      · rw [hv]
        exact ⟨fun _ => hscroll, fun u hut _ h => hut (hinj h.1).symm⟩
    · rintro ⟨hown, hthird⟩
      -- the pages `video_mem` can point to
      obtain hv | ⟨u, hv⟩ := hr.videoMem
      · exact .inr (.inl hv)
      · by_cases hut : u = t
        · subst hut
          exact .inr (.inr (.inr ⟨hv, hown hv⟩))
        · by_cases hud : u = d
          · exact .inr (.inr (.inl (hud ▸ hv)))
          · exact absurd ⟨hv, hsome⟩ (hthird u hut hud)

/-- **Background output.** It leads to the same display as output on the screen exactly when the
stray attributes are harmless. -/
theorem backgroundAgrees_iff (hr : BackgroundReady k d t) (s : List UInt8) :
    BackgroundAgrees k d t s ↔ StrayHarmless k d t s := by
  have hscreen : ∀ j < pageBytes,
      (k.multiPuts s).screen.mem (video + j) = k.screen.mem (video + j) := by
    rw [hr.multiPuts s]
    exact gridAt_eq_iff.mp (hr.gridAt_video s)
  have hagrees : BackgroundAgrees k d t s ↔
      gridAt (k.backMem t s) (backingPage t) = (k.frontSheet t s).cells ∧
        ∀ u, u ≠ t → u ≠ d →
          gridAt (k.backMem t s) (backingPage u) = gridAt k.screen.mem (backingPage u) := by
    have hswitch : ∀ k' : Console, ∃ a, k'.termSwitch (some d) t = some a := fun k' => ⟨_, rfl⟩
    constructor
    · intro h
      obtain ⟨a, ha⟩ := hswitch (k.multiPuts s)
      obtain ⟨b, hb⟩ := hswitch k
      exact (hr.sameDisplay_iff ha hb).mp (h.2 a b ha hb)
    · intro h
      exact ⟨hscreen, fun a b ha hb => (hr.sameDisplay_iff ha hb).mpr h⟩
  rw [hagrees, strayHarmless_iff hr, hr.gridAt_running, hr.attribs_running]
  refine and_congr_right fun _ => forall_congr' fun u => forall_congr' fun hut => ?_
  exact forall_congr' fun hud => hr.gridAt_third hut hud s

/-! ### A console -/

/-- Three blank pages behind a blank screen, the cursors in the top left corner, terminal 0
displayed and terminal 1 running. -/
def blankConsole (videoMem : Nat) : Console where
  term u := {
    curPcbId := 0
    cursorX := 0
    cursorY := 0
    keyBuf := fun _ => 0
    keyBufIdx := 0
    enterState := false
    running := true
    videoMem := backingPage u }
  curTermId := some 0
  nowTermId := 1
  keyBuf := fun _ => 0
  keyBufIdx := 0
  screen := {
    mem := fun a => if a % 2 = 0 then 32 else if a < 0xBA000 then attrib (some 0)
      else if a < 0xBB000 then attrib (some 1) else attrib (some 2)
    screenX := 0
    screenY := 0
    videoMem := videoMem
    cursorPos := 0 }
  scancodeState := 0
  ctrlState := false
  altState := false

theorem ready_blankConsole {v : Nat} (hv : v = video ∨ ∃ u, v = backingPage u) :
    BackgroundReady (blankConsole v) 0 1 where
  displayed := rfl
  running := rfl
  ne := by decide
  pages _ := rfl
  videoMem := hv
  screenX := Nat.zero_lt_succ _
  screenY := Nat.zero_lt_succ _
  cursorX := Nat.zero_lt_succ _
  cursorY := Nat.zero_lt_succ _
  screen := by
    funext r c
    have hr := r.isLt
    have hc := c.isLt
    simp only [Grid.map, gridAt, attribAddr, blankConsole, backingPage, video, numCols, numRows]
      at *
    rw [if_neg (by omega), if_pos (by omega)]
  saved u hu := by
    funext r c
    have hr := r.isLt
    have hc := c.isLt
    simp only [Grid.map, gridAt, attribAddr, blankConsole, backingPage, numCols, numRows] at *
    rw [if_neg (by omega)]
    obtain rfl | rfl : u = 1 ∨ u = 2 := by
      revert u
      decide
    · rw [if_neg (by simp; omega), if_pos (by simp; omega)]
    · rw [if_neg (by simp; omega), if_neg (by simp; omega)]

/-- With `video_mem` on the visible screen the text comes out right. -/
theorem backgroundAgrees_iff_sample :
    BackgroundAgrees (blankConsole video) 0 1 (text ['o', 'k', '!']) :=
  (backgroundAgrees_iff (ready_blankConsole (.inl rfl)) _).mpr (.inr (.inl rfl))

/-- With `video_mem` on the page of the running terminal, as the scheduler leaves it, one
character comes out with the attribute of the displayed terminal. -/
theorem not_backgroundAgrees : ¬ ∀ (k : Console) (d t : TermId) (s : List UInt8),
    BackgroundReady k d t → BackgroundAgrees k d t s := by
  intro hbackground
  have hagrees := hbackground (blankConsole (backingPage 1)) 0 1 (text ['A'])
    (ready_blankConsole (.inr ⟨1, rfl⟩))
  have hbyte := (hagrees.2 _ _ rfl rfl).screen 1 (by decide)
  revert hbyte
  decide +kernel

end LinuxLikeKernel
