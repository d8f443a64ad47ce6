import LinuxLikeKernel.DriverState
import Mathlib.Data.List.Nodup
import Mathlib.Data.List.TakeWhile

/-!
# Directory listings

Reads of a directory go through one cursor, `num_file_read`, whichever descriptor they are made
on. A log records what each descriptor has been read to since it was opened.

## Main definitions

- `listStep` — a step, with a record of what directory reads hand over
- `ListsDirectory` — every descriptor has been read to the names of the directory, in order
- `CursorInStep` — a read finds the cursor where its descriptor's listing is

## Main results

- `listsDirectory_along` — the listings are right along a run if, and for different names only
  if, every read finds the cursor so
-/

namespace LinuxLikeKernel
open ByteMemory Transition Kernel

/-! ### The log -/

/-- The string in a buffer that has been filled. -/
def Effect.cstring (r : Effect) : List UInt8 := r.bytes.takeWhile (· ≠ 0)

/-- A descriptor: the PCB it is in, and its number. -/
abbrev Descriptor := Nat × Fin 8

/-- What a descriptor has been read to since it was opened: the names, and whether a read has
returned 0. -/
structure Listing where
  names : List (List UInt8)
  ended : Bool
  deriving DecidableEq

/-- The listing of a descriptor that has just been opened. -/
def freshListing : Listing := ⟨[], false⟩

/-- A listing ends at the first 0. -/
def Listing.read (l : Listing) (r : Effect) : Listing :=
  if l.ended then l
  else if r.ret = 0 then { l with ended := true }
  else { l with names := l.names ++ [r.cstring] }

abbrev Listings : Type := Descriptor → Listing

/-- The descriptor that an event opens. -/
def Kernel.opens (img : Image) (s : Kernel) : Event → Option Descriptor
  | .open filename => (readDentryByName img filename).bind fun _ =>
      (freeFd (s.pcb s.nowPcbId)).map fun fd => (s.nowPcbId, fd)
  | _ => none

/-- The directory descriptor that an event reads, and the buffer. -/
def Kernel.readsDir (s : Kernel) : Event → Option (Descriptor × Nat)
  | .read fd buf _ =>
    match s.readDriver fd buf with
    | some (i, .dir) => some ((s.nowPcbId, i), buf)
    | _ => none
  | _ => none

/-- A descriptor that is opened starts a new listing, one that is read goes on with its own. -/
def logListing (img : Image) (s : Kernel) (e : Event) (_ : Kernel) (log : Listings) : Listings :=
  match s.opens img e, s.readsDir e with
  | some d, _ => Function.update log d freshListing
  | none, some (d, buf) =>
    Function.update log d ((log d).read (dirRead img s.numFileRead buf).1)
  | none, none => log

/-- A step that records what directory reads hand over. -/
def listStep (img : Image) : Kernel × Listings → Event → Option (Kernel × Listings) :=
  logged (step img) (logListing img)

/-- The log only watches: a logged run goes through the states of the run. -/
theorem fst_run_listStep (img : Image) (x : Kernel × Listings) (es : List Event) :
    (run (listStep img) x es).map Prod.fst = run (step img) x.1 es := fst_run_logged ..

/-! ### What should be read -/

/-- The names of the directory. -/
def Image.dirNames (img : Image) : List (List UInt8) :=
  (List.range img.numDentries).map img.entryName

/-- The names so far are the first ones of the directory, and after the 0 all of them. -/
structure Listing.InOrder (img : Image) (l : Listing) : Prop where
  isPrefix : l.names <+: img.dirNames
  complete : l.ended = true → l.names = img.dirNames

/-- Every descriptor has been read to the names of the directory, in order. -/
def ListsDirectory (img : Image) (x : Kernel × Listings) : Prop := ∀ d, (x.2 d).InOrder img

/-- A read of a listing that has not ended finds `num_file_read` at the number of names that
have been read from its descriptor. -/
def CursorInStep (x : Kernel × Listings) (e : Event) : Prop :=
  ∀ r ∈ x.1.readsDir e, (x.2 r.1).ended = false → x.1.numFileRead = (x.2 r.1).names.length

instance (x : Kernel × Listings) (e : Event) : Decidable (CursorInStep x e) :=
  inferInstanceAs (Decidable (∀ r ∈ x.1.readsDir e, _))

/-! ### A read of the directory -/

variable {img : Image}

/-- The string that `strncpy` and the NUL after it leave in the buffer. -/
theorem takeWhile_padded {name : List UInt8} (hne : ∀ b ∈ name, b ≠ 0) {n : Nat}
    (hn : name.length ≤ n) :
    ((List.range n).map (cstr name) ++ [0]).takeWhile (· ≠ 0) = name := by
  have hpad : (List.range n).map (cstr name) = name ++ List.replicate (n - name.length) 0 := by
    apply List.ext_getElem
    · simp only [List.length_map, List.length_range, List.length_append, List.length_replicate]
      omega
    · intro i hi hi'
      simp only [List.getElem_map, List.getElem_range, cstr, List.getElem_append,
        List.getElem_replicate]
      split
      · rename_i hlt
        exact List.getD_eq_getElem _ _ hlt
      · rename_i hge
        exact List.getD_eq_default _ _ (Nat.le_of_not_lt hge)
  rw [hpad, List.append_assoc, List.takeWhile_append_of_pos (by simpa using hne)]
  cases n - name.length with
  | zero => simp
  | succ k => simp [List.replicate_succ]

theorem ne_zero_of_mem_entryName {index : Nat} {b : UInt8} (h : b ∈ img.entryName index) :
    b ≠ 0 := by
  simpa using List.mem_takeWhile_imp h

/-- A read before the end hands over the name at the cursor, a read at the end only 0. -/
theorem dirRead_of_lt {n buf : Nat} (hbuf : buf ≠ 0) (hn : n < img.numDentries) :
    (dirRead img n buf).1.ret = (img.entryName n).length ∧
      (dirRead img n buf).1.cstring = img.entryName n ∧ (dirRead img n buf).2 = n + 1 := by
  simp only [dirRead, if_neg hbuf, if_pos hn, Effect.cstring, true_and, and_true]
  exact takeWhile_padded (fun b hb => ne_zero_of_mem_entryName hb) (entryName_length_le img n)

theorem dirRead_of_le {n buf : Nat} (hbuf : buf ≠ 0) (hn : img.numDentries ≤ n) :
    (dirRead img n buf).1.ret = 0 ∧ (dirRead img n buf).2 = 0 := by
  simp only [dirRead, if_neg hbuf, if_neg (Nat.not_lt.mpr hn), and_self]

theorem entryName_ne_nil {index : Nat} (h : img.filename index 0 ≠ 0) :
    img.entryName index ≠ [] := by
  have hrange : List.range maxFilenameLength = 0 :: (List.range 31).map (· + 1) := by decide
  simp only [Image.entryName, hrange, List.map_cons]
  simp [h]

theorem length_dirNames (img : Image) : img.dirNames.length = img.numDentries := by
  simp [Image.dirNames]

theorem getElem_dirNames {n : Nat} (h : n < img.dirNames.length) :
    img.dirNames[n] = img.entryName n := by
  simp [Image.dirNames]

theorem inOrder_freshListing (img : Image) : freshListing.InOrder img :=
  ⟨List.nil_prefix, fun h => nomatch h⟩

/-- One more name keeps a list of first names one exactly if it is the next. -/
theorem concat_prefix_iff {α : Type*} {names all : List α} (h : names <+: all) {a : α} :
    names ++ [a] <+: all ↔ ∃ hlt : names.length < all.length, all[names.length] = a := by
  obtain ⟨rest, rfl⟩ := h
  rw [List.prefix_append_right_inj]
  cases rest with
  | nil => simp
  | cons b rest =>
    simp only [List.cons_prefix_cons, List.nil_prefix, and_true, List.length_append,
      List.length_cons]
    constructor
    · rintro rfl
      exact ⟨by omega, by simp⟩
    · rintro ⟨-, rfl⟩
      simp

/-- A read keeps a listing in order if the cursor is where the listing is; when no two names are
the same, only if it is. -/
theorem inOrder_read {l : Listing} (hl : l.InOrder img) (hnames : ∀ i < img.numDentries,
    img.filename i 0 ≠ 0) {n buf : Nat} (hn : n ≤ img.numDentries) (hbuf : buf ≠ 0) :
    ((l.ended = false → n = l.names.length) → (l.read (dirRead img n buf).1).InOrder img) ∧
      (img.dirNames.Nodup → (l.read (dirRead img n buf).1).InOrder img →
        l.ended = false → n = l.names.length) := by
  have hlen := length_dirNames img
  cases hended : l.ended with
  | true => simpa [Listing.read, hended] using hl
  | false =>
    obtain hlt | hend := Nat.lt_or_ge n img.numDentries
    · -- a name comes
      obtain ⟨hret, hstr, -⟩ := dirRead_of_lt hbuf hlt
      have hne : (dirRead img n buf).1.ret ≠ 0 := by
        rw [hret]
        exact_mod_cast List.length_pos_iff.mpr (entryName_ne_nil (hnames n hlt)) |>.ne'
      have hread : l.read (dirRead img n buf).1 =
          { l with names := l.names ++ [img.entryName n] } := by
        simp [Listing.read, hended, hne, hstr]
      rw [hread]
      constructor
      · intro h
        have hk := h rfl
        subst hk
        have hin : l.names.length < img.dirNames.length := hlen ▸ hlt
        exact ⟨(concat_prefix_iff hl.isPrefix).mpr ⟨hin, getElem_dirNames hin⟩,
          fun he => absurd he (by simp [hended])⟩
      · intro hnodup h _
        obtain ⟨hin, heq⟩ := (concat_prefix_iff hl.isPrefix).mp h.isPrefix
        rw [← getElem_dirNames (hlen ▸ hlt)] at heq
        exact ((List.Nodup.getElem_inj_iff hnodup).mp heq).symm
    · -- the 0 comes
      obtain ⟨hret, -⟩ := dirRead_of_le hbuf hend
      have hread : l.read (dirRead img n buf).1 = { l with ended := true } := by
        simp [Listing.read, hended, hret]
      obtain rfl : n = img.numDentries := le_antisymm hn hend
      rw [hread, ← hlen]
      constructor
      · intro h
        exact ⟨hl.isPrefix, fun _ => hl.isPrefix.eq_of_length (h rfl).symm⟩
      · intro _ h _
        rw [h.complete rfl]

/-! ### The cursor -/

namespace Kernel

variable {s s' : Kernel}

/-- Only directory reads move the cursor. -/
theorem numFileRead_step {e : Event} (h : step img s e = some s') :
    s'.numFileRead = (s.readsDir e).elim s.numFileRead fun d =>
      (dirRead img s.numFileRead d.2).2 := by
  refine (congrArg DriverState.numFileRead (drivers_step h)).trans ?_
  cases e with
  | «open» filename =>
    simp only [driversAfter]
    split <;> rfl
  | read fd buf nbytes =>
    simp only [driversAfter, readsDir]
    cases s.readDriver fd buf with
    | none => rfl
    | some x =>
      obtain ⟨i, driver⟩ := x
      cases driver <;> rfl
  | write fd buf content nbytes =>
    simp only [driversAfter]
    split <;> rfl
  | _ => rfl

end Kernel

/-! ### Listings along a run -/

theorem readsDir_buf {s : Kernel} {e : Event} {d : Descriptor} {buf : Nat}
    (h : s.readsDir e = some (d, buf)) : buf ≠ 0 := by
  cases e with
  | read fd buf' nbytes =>
    simp only [readsDir] at h
    split at h
    · rename_i i hdriver
      obtain ⟨-, rfl⟩ := Prod.mk.inj (Option.some.inj h)
      exact readDriver_buf hdriver
    · cases h
  | _ => cases h

/-- An event does not open a descriptor and read a directory at once. -/
theorem opens_of_readsDir {s : Kernel} {e : Event} {x : Descriptor × Nat}
    (h : s.readsDir e = some x) : s.opens img e = none := by
  cases e with
  | read fd buf nbytes => rfl
  | _ => cases h

/-- The cursor is inside the directory, or at its end. -/
theorem numFileRead_le {s s' : Kernel} {e : Event} (hle : s.numFileRead ≤ img.numDentries)
    (h : step img s e = some s') : s'.numFileRead ≤ img.numDentries := by
  rw [numFileRead_step h]
  cases hread : s.readsDir e with
  | none => exact hle
  | some d =>
    obtain ⟨d, buf⟩ := d
    have hbuf := readsDir_buf hread
    obtain hlt | hge := Nat.lt_or_ge s.numFileRead img.numDentries
    · exact (dirRead_of_lt hbuf hlt).2.2.trans_le hlt
    · exact (dirRead_of_le hbuf hge).2.trans_le (Nat.zero_le _)

variable {x x' : Kernel × Listings} {e : Event}

/-- A step keeps all listings in order if it finds the cursor in step; when no two names are the
same, only if it does. -/
theorem listsDirectory_step (hnames : ∀ i < img.numDentries, img.filename i 0 ≠ 0)
    (hle : x.1.numFileRead ≤ img.numDentries) (hx : ListsDirectory img x)
    (h : listStep img x e = some x') :
    (CursorInStep x e → ListsDirectory img x') ∧
      (img.dirNames.Nodup → ListsDirectory img x' → CursorInStep x e) := by
  obtain ⟨-, hlog⟩ := logged_eq_some.mp h
  cases hread : x.1.readsDir e with
  | none =>
    -- the only listing that changes is that of a descriptor which is opened
    have hall : ListsDirectory img x' := by
      intro d
      rw [hlog, logListing, hread]
      cases x.1.opens img e with
      | none => exact hx d
      | some d' =>
        by_cases hd : d = d'
        · subst hd
          simpa using inOrder_freshListing img
        · simpa [Function.update_of_ne hd] using hx d
    refine ⟨fun _ => hall, fun _ _ r hr => ?_⟩
    rw [hread] at hr
    cases hr
  | some r =>
    obtain ⟨d, buf⟩ := r
    -- the listing of one descriptor goes on, from the cursor that all descriptors share
    have hlog' : x'.2 = Function.update x.2 d
        ((x.2 d).read (dirRead img x.1.numFileRead buf).1) := by
      rw [hlog, logListing, hread, opens_of_readsDir hread]
    obtain ⟨hif, honly⟩ := inOrder_read (hx d) hnames hle (readsDir_buf hread)
    have hthis : x'.2 d = (x.2 d).read (dirRead img x.1.numFileRead buf).1 := by
      rw [hlog', Function.update_self]
    constructor
    · intro hcursor d'
      by_cases hd : d' = d
      · rw [hd, hthis]
        exact hif (hcursor (d, buf) hread)
      · rw [hlog', Function.update_of_ne hd]
        exact hx d'
    · intro hnodup hx' r hr
      rw [hread] at hr
      obtain rfl := Option.some.inj hr
      exact honly hnodup (hthis ▸ hx' d)

/-- **Directory listings.** In a run from boot whose directory reads all find the cursor where
their listing is, every listing gives the names of the directory in order; if all names are
different, in no other run. -/
theorem listsDirectory_along (img : Image)
    (hnames : ∀ i < img.numDentries, img.filename i 0 ≠ 0) {s₀ : Kernel} {es : List Event}
    (hrun : (run (listStep img) (boot s₀, fun _ => freshListing) es).isSome) :
    (Guarded (listStep img) CursorInStep (boot s₀, fun _ => freshListing) es →
      Along (listStep img) (ListsDirectory img) (boot s₀, fun _ => freshListing) es) ∧
    (img.dirNames.Nodup →
      Along (listStep img) (ListsDirectory img) (boot s₀, fun _ => freshListing) es →
      Guarded (listStep img) CursorInStep (boot s₀, fun _ => freshListing) es) := by
  let I : Kernel × Listings → Prop := fun x => x.1.numFileRead ≤ img.numDentries
  have hI : ∀ x e x', I x → listStep img x e = some x' → I x' := fun x e x' hx h =>
    numFileRead_le hx (logged_eq_some.mp h).1
  have hI₀ : I (boot s₀, fun _ => freshListing) := Nat.zero_le _
  have h₀ : ListsDirectory img (boot s₀, fun _ => freshListing) :=
    fun _ => inOrder_freshListing img
  constructor
  · intro hg
    refine Along.mono (fun x (hx : I x ∧ ListsDirectory img x) => hx.2)
      (Guarded.along (fun x e x' hx hcursor h => ?_) ⟨hI₀, h₀⟩ hg)
    exact ⟨hI x e x' hx.1 h, (listsDirectory_step hnames hx.1 hx.2 h).1 hcursor⟩
  · intro hnodup
    have hdom : Guarded (listStep img) (fun _ _ => True) (boot s₀, fun _ => freshListing) es :=
      Guarded.of_forall (fun _ _ => trivial) _ _
    refine (along_iff_guarded (fun x e x' hx _ => hI x e x' hx) (fun x e x' hx hlists _ h => ?_)
      hI₀ h₀ hdom hrun).mp
    obtain ⟨hif, honly⟩ := listsDirectory_step hnames hx hlists h
    exact ⟨honly hnodup, hif⟩

/-- One listing after another. -/
theorem listsDirectory_along_sample : Along (listStep sampleImage) (ListsDirectory sampleImage)
    (boot powerOn, fun _ => freshListing) [.tick noStale, .tick noStale, .tick noStale,
      .open (text ['.']), .read 2 0x8000000 32, .read 2 0x8000000 32, .read 2 0x8000000 32,
      .close 2] := by
  refine (listsDirectory_along sampleImage ?_ ?_).1 ?_
  · decide +kernel
  · decide +kernel
  · decide +kernel

/-- A program opens the directory, reads one name and closes it; when it opens it again, the
first name that it reads is the second one of the directory. -/
theorem not_listsDirectory_of_run : ¬ ∀ (img : Image),
    (∀ i < img.numDentries, img.filename i 0 ≠ 0) → ∀ (s₀ : Kernel) (es : List Event)
      (x : Kernel × Listings), run (listStep img) (boot s₀, fun _ => freshListing) es = some x →
        ListsDirectory img x := by
  intro hlisting
  have hobs : (run (listStep sampleImage) (boot powerOn, fun _ => freshListing)
      [.tick noStale, .tick noStale, .tick noStale,
        .open (text ['.']), .read 2 0x8000000 32, .close 2,
        .open (text ['.']), .read 2 0x8000000 32]).map (fun x => x.2 (0, 2)) =
      some ⟨[shellCommand], false⟩ := by decide +kernel
  obtain ⟨x, hx, hobs⟩ := Option.map_eq_some_iff.mp hobs
  have horder := hlisting sampleImage (by decide +kernel) powerOn _ x hx (0, 2)
  rw [hobs] at horder
  have hno : ¬ [shellCommand] <+: sampleImage.dirNames := by decide +kernel
  exact hno horder.isPrefix

end LinuxLikeKernel
