import LinuxLikeKernel.FileSystem

/-!
# Names in the directory

`read_dentry_by_name` compares two prefixes, which is equality for names up to 32 characters. A
longer name is compared with what follows a name in its entry. All 63 slots are searched, also
those behind the last entry.

## Main definitions

- `FindsEntry` — what the lookup of a name should give
- `FalseMatch` — a slot that is none of the entries, or whose name goes on behind its end

## Main results

- `strncmp_eq_zero_iff`, `nameMatches_iff` — what the comparisons decide
- `findsEntry_iff` — when the lookup is right
-/

namespace LinuxLikeKernel
open ByteMemory

variable {img : Image} {index : Nat} {q : List UInt8}

/-! ### Comparisons -/

theorem strncmpFrom_eq_zero_iff (s1 s2 : Nat → UInt8) (n i : Nat) :
    strncmpFrom s1 s2 i n = 0 ↔
      ∀ k < n, (∀ j < k, s1 (i + j) ≠ 0) → s1 (i + k) = s2 (i + k) := by
  induction n generalizing i with
  | zero => exact iff_of_true rfl fun k hk => absurd hk (Nat.not_lt_zero k)
  | succ n ih =>
    have hshift : ∀ j, i + 1 + j = i + (j + 1) := fun j => by omega
    rw [strncmpFrom]
    by_cases hstop : s1 i ≠ s2 i ∨ s1 i = 0
    · rw [if_pos hstop]
      constructor
      · intro h
        have heq := int8_inj h
        have hzero := hstop.resolve_left (not_not.mpr heq)
        intro k _ hne
        cases k with
        | zero => exact heq
        | succ k => exact absurd hzero (hne 0 (Nat.succ_pos k))
      · intro h
        have heq : s1 i = s2 i :=
          h 0 (Nat.succ_pos n) fun j hj => absurd hj (Nat.not_lt_zero j)
        rw [heq, Int.sub_self]
    · obtain ⟨heq, hne⟩ := not_or.mp hstop
      rw [if_neg hstop, ih]
      constructor
      · intro h k hk hall
        cases k with
        | zero => exact not_not.mp heq
        | succ k =>
          rw [← hshift]
          refine h k (by omega) fun j hj => ?_
          rw [hshift]
          exact hall (j + 1) (by omega)
      · intro h k hk hall
        rw [hshift]
        refine h (k + 1) (by omega) fun j hj => ?_
        cases j with
        | zero => exact hne
        | succ j =>
          rw [← hshift]
          exact hall j (by omega)

/-- `strncmp` is 0 if the strings agree up to the length or up to the end of the first. -/
theorem strncmp_eq_zero_iff {s1 s2 : Nat → UInt8} {n : Nat} :
    strncmp s1 s2 n = 0 ↔ ∀ k < n, (∀ j < k, s1 j ≠ 0) → s1 k = s2 k := by
  simpa only [strncmp, Nat.zero_add] using strncmpFrom_eq_zero_iff s1 s2 n 0

theorem cstr_of_lt {k : Nat} (hk : k < q.length) : cstr q k = q[k] := List.getD_eq_getElem _ _ hk

theorem cstr_ne_zero {k : Nat} (hq : 0 ∉ q) (hk : k < q.length) : cstr q k ≠ 0 := by
  rw [cstr_of_lt hk]
  exact fun h => hq (h ▸ List.getElem_mem hk)

theorem cstr_length (q : List UInt8) : cstr q q.length = 0 := List.getD_eq_default _ _ le_rfl

/-- Against a whole string the comparison is that of every character. -/
theorem strncmp_cstr_eq_zero_iff {s1 : Nat → UInt8} (hq : 0 ∉ q) :
    strncmp s1 (cstr q) q.length = 0 ↔ ∀ k < q.length, s1 k = cstr q k := by
  rw [strncmp_eq_zero_iff]
  refine ⟨fun h k => ?_, fun h k hk _ => h k hk⟩
  induction k using Nat.strong_induction_on with
  | h k ih =>
    intro hk
    refine h k hk fun j hj => ?_
    rw [ih j hj (hj.trans hk)]
    exact cstr_ne_zero hq (hj.trans hk)

/-! ### Names -/

/-- The characters of a name are what comes before the first NUL, in 32 bytes. -/
theorem lt_length_entryName {k : Nat} : k < (img.entryName index).length ↔
    k < maxFilenameLength ∧ ∀ j ≤ k, img.filename index j ≠ 0 := by
  have hmap : ∀ n b, k < (((List.range' b n).map (img.filename index)).takeWhile (· ≠ 0)).length ↔
      k < n ∧ ∀ j ≤ k, img.filename index (b + j) ≠ 0 := by
    intro n
    induction n generalizing k with
    | zero => simp
    | succ n ih =>
      intro b
      rw [List.range'_succ, List.map_cons]
      by_cases hb : img.filename index b = 0
      · rw [List.takeWhile_cons_of_neg (by simpa using hb)]
        refine iff_of_false (Nat.not_lt_zero k) fun h => h.2 0 (Nat.zero_le k) hb
      · rw [List.takeWhile_cons_of_pos (by simpa using hb), List.length_cons]
        cases k with
        | zero =>
          refine iff_of_true (Nat.succ_pos _) ⟨Nat.succ_pos n, fun j hj => ?_⟩
          obtain rfl : j = 0 := by omega
          exact hb
        | succ k =>
          rw [Nat.succ_lt_succ_iff, ih, Nat.succ_lt_succ_iff]
          refine and_congr_right fun _ => ⟨fun h j hj => ?_, fun h j hj => ?_⟩
          · cases j with
            | zero => exact hb
            | succ j =>
              have := h j (by omega)
              rwa [Nat.add_assoc, Nat.add_comm 1] at this
          · have := h (j + 1) (by omega)
            rwa [Nat.add_comm j, ← Nat.add_assoc] at this
  have h := hmap maxFilenameLength 0
  rw [← List.range_eq_range'] at h
  simpa only [Image.entryName, Nat.zero_add] using h

theorem getElem_entryName {k : Nat} (hk : k < (img.entryName index).length) :
    (img.entryName index)[k] = img.filename index k := by
  refine ((List.takeWhile_prefix _).getElem hk).trans ?_
  rw [List.getElem_map, List.getElem_range]

/-- A name is a string exactly if it has its characters, and ends with it. -/
theorem entryName_eq_iff (hq : 0 ∉ q) : img.entryName index = q ↔
    (∀ k < q.length, img.filename index k = cstr q k) ∧
      (img.entryName index).length = q.length := by
  constructor
  · rintro rfl
    refine ⟨fun k hk => ?_, rfl⟩
    rw [cstr_of_lt hk, getElem_entryName]
  · rintro ⟨hall, hlen⟩
    apply List.ext_getElem hlen
    intro k hk hk'
    rw [getElem_entryName, hall k hk', cstr_of_lt hk']

/-- A name of up to 32 characters matches the slots with this name, a longer one those whose bytes
start with it. -/
theorem nameMatches_iff (hq : 0 ∉ q) : nameMatches img index q = true ↔
    q ≠ [] ∧ if q.length ≤ maxFilenameLength then img.entryName index = q
      else ∀ k < q.length, img.filename index k = cstr q k := by
  have hne : cstr q 0 ≠ 0 ↔ q ≠ [] := by
    refine ⟨?_, fun h => cstr_ne_zero hq (List.length_pos_iff.mpr h)⟩
    rintro h rfl
    exact h rfl
  simp only [nameMatches, decide_eq_true_eq, strncmp_cstr_eq_zero_iff hq, hne]
  rw [← and_assoc, and_comm]
  refine and_congr_right fun _ => ?_
  have hlonger : (∀ k < q.length, img.filename index k = cstr q k) → ∀ k < maxFilenameLength,
      k < q.length → k < (img.entryName index).length := by
    intro hall k h32 hk
    refine lt_length_entryName.mpr ⟨h32, fun j hj => ?_⟩
    rw [hall j (by omega)]
    exact cstr_ne_zero hq (by omega)
  by_cases hle : q.length ≤ maxFilenameLength
  · rw [if_pos hle, entryName_eq_iff hq]
    refine and_congr_right fun hall => ?_
    rw [strncmp_eq_zero_iff]
    constructor
    · intro h
      have hge : q.length ≤ (img.entryName index).length := by
        by_contra hlt
        exact hlt (Nat.le_of_pred_lt (hlonger hall (q.length - 1) (by omega) (by omega)))
      by_contra hne
      -- the second comparison sees the end of the string
      have hlt : q.length < (img.entryName index).length := by omega
      have hname := (lt_length_entryName.mp hlt).2
      have heq := h q.length hlt fun j hj => hname j hj.le
      rw [cstr_length] at heq
      exact hname _ le_rfl heq
    · intro hlen k hk _
      exact hall k (hlen ▸ hk)
  · rw [if_neg hle]
    refine and_iff_left_of_imp fun hall => strncmp_eq_zero_iff.mpr fun k hk _ => ?_
    have := (lt_length_entryName.mp hk).1
    exact hall k (by omega)

/-! ### The lookup -/

/-- The entry that slot `index` holds. -/
def Image.dentry (img : Image) (index : Nat) : Dentry :=
  ⟨img.entryName index, img.filetype index, img.dentryInode index⟩

/-- A lookup finds something exactly if an entry has the name, and then it is the first one. -/
def FindsEntry (img : Image) (q : List UInt8) (r : Option Dentry) : Prop :=
  (r ≠ none ↔ ∃ i < img.numDentries, img.entryName i = q) ∧
    ∀ d, r = some d → ∃ i < img.numDentries,
      img.entryName i = q ∧ (∀ j < i, img.entryName j ≠ q) ∧ d = img.dentry i

/-- A slot behind the last entry has the name, or the name is longer than 32 characters and the
bytes of a slot start with it. -/
def FalseMatch (img : Image) (q : List UInt8) : Prop :=
  (q ≠ [] ∧ ∃ i < maxFileDentries, img.numDentries ≤ i ∧ img.entryName i = q) ∨
    maxFilenameLength < q.length ∧
      ∃ i < maxFileDentries, ∀ k < q.length, img.filename i k = cstr q k

instance (img : Image) (q : List UInt8) : Decidable (FalseMatch img q) :=
  inferInstanceAs (Decidable (_ ∨ _))

/-- What the search returns. -/
theorem readDentryByName_eq_some_iff {d : Dentry} : readDentryByName img q = some d ↔
    ∃ i < maxFileDentries, nameMatches img i q = true ∧
      (∀ j < i, nameMatches img j q = false) ∧ d = img.dentry i := by
  rw [readDentryByName, Option.map_eq_some_iff]
  refine exists_congr fun i => ?_
  rw [List.find?_range_eq_some, List.mem_range]
  simp only [Bool.not_eq_true']
  constructor
  · rintro ⟨⟨hi, hlt, hfirst⟩, rfl⟩
    exact ⟨hlt, hi, hfirst, rfl⟩
  · rintro ⟨hlt, hi, hfirst, rfl⟩
    exact ⟨⟨hi, hlt, hfirst⟩, rfl⟩

theorem readDentryByName_eq_none_iff : readDentryByName img q = none ↔
    ∀ i < maxFileDentries, nameMatches img i q = false := by
  rw [readDentryByName, Option.map_eq_none_iff, List.find?_range_eq_none]
  simp only [Bool.not_eq_true']

/-- **Lookup.** In a directory whose entries have names, a name is looked up right exactly if an
entry has it, or no other slot matches it. -/
theorem findsEntry_iff (hnum : img.numDentries ≤ maxFileDentries)
    (hnames : ∀ i < img.numDentries, img.entryName i ≠ []) (hq : 0 ∉ q) :
    FindsEntry img q (readDentryByName img q) ↔
      (∃ i < img.numDentries, img.entryName i = q) ∨ ¬ FalseMatch img q := by
  have hmatch := fun i => @nameMatches_iff img i q hq
  constructor
  · rintro ⟨hfinds, -⟩
    -- a false match makes the search find something
    refine or_iff_not_imp_left.mpr fun hno hfalse => hno (hfinds.mp fun hnone => ?_)
    have hall := readDentryByName_eq_none_iff.mp hnone
    obtain ⟨hne, i, hi, -, hname⟩ | ⟨hlong, i, hi, hbytes⟩ := hfalse
    · have hle : q.length ≤ maxFilenameLength := hname ▸ entryName_length_le img i
      have hyes := (hmatch i).mpr ⟨hne, (if_pos hle).mpr hname⟩
      rw [hall i hi] at hyes
      cases hyes
    · have hne : q ≠ [] := List.ne_nil_of_length_pos (by omega)
      have hyes := (hmatch i).mpr ⟨hne, (if_neg (Nat.not_le.mpr hlong)).mpr hbytes⟩
      rw [hall i hi] at hyes
      cases hyes
  · intro hcond
    by_cases hentry : ∃ i < img.numDentries, img.entryName i = q
    · -- the matching slots are those with the name
      obtain ⟨i, hi, hname⟩ := hentry
      have hne : q ≠ [] := hname ▸ hnames i hi
      have hle : q.length ≤ maxFilenameLength := hname ▸ entryName_length_le img i
      have hslots : ∀ j, nameMatches img j q = true ↔ img.entryName j = q := by
        intro j
        rw [hmatch, if_pos hle]
        exact and_iff_right hne
      refine ⟨iff_of_true (fun hnone => ?_) ⟨i, hi, hname⟩, fun d hd => ?_⟩
      · have hno := readDentryByName_eq_none_iff.mp hnone i (hi.trans_le hnum)
        rw [(hslots i).mpr hname] at hno
        cases hno
      · obtain ⟨first, -, hfirst, hbefore, rfl⟩ := readDentryByName_eq_some_iff.mp hd
        refine ⟨first, ?_, (hslots first).mp hfirst, fun j hj hj' => ?_, rfl⟩
        · by_contra hge
          have hno := hbefore i (by omega)
          rw [(hslots i).mpr hname] at hno
          cases hno
        · have hno := hbefore j hj
          rw [(hslots j).mpr hj'] at hno
          cases hno
    · -- without one, a slot that matches is a false match
      have hnone : readDentryByName img q = none := by
        refine readDentryByName_eq_none_iff.mpr fun i hi => Bool.eq_false_iff.mpr fun hyes => ?_
        obtain ⟨hne, hslot⟩ := (hmatch i).mp hyes
        refine hcond.resolve_left hentry ?_
        split at hslot
        · refine .inl ⟨hne, i, hi, ?_, hslot⟩
          by_contra hlt
          exact hentry ⟨i, by omega, hslot⟩
        · rename_i hlong
          exact .inr ⟨Nat.lt_of_not_le hlong, i, hi, hslot⟩
      rw [hnone]
      exact ⟨iff_of_false (fun h => h rfl) hentry, fun d hd => by cases hd⟩

/-- A directory with one entry, `a`, and the name `b` in the slot behind it. -/
def sampleDirectory : Image := fun a =>
  ([(0, 1), (64, 97), (96, 2), (128, 98), (160, 2)].find? fun w : Store => w.1 = a).elim 0 Prod.snd

theorem findsEntry_iff_sample :
    FindsEntry sampleDirectory (text ['a']) (readDentryByName sampleDirectory (text ['a'])) :=
  (findsEntry_iff (by decide +kernel) (by decide +kernel) (by decide)).mpr (by decide +kernel)

/-- `b` is found. -/
theorem not_findsEntry : ¬ ∀ (img : Image) (q : List UInt8), img.numDentries ≤ maxFileDentries →
    (∀ i < img.numDentries, img.entryName i ≠ []) → 0 ∉ q →
      FindsEntry img q (readDentryByName img q) := by
  intro hnames
  have hfinds := (hnames sampleDirectory (text ['b']) (by decide +kernel) (by decide +kernel)
    (by decide)).1
  have hno : ¬ ∃ i < sampleDirectory.numDentries, sampleDirectory.entryName i = text ['b'] := by
    decide +kernel
  refine hno (hfinds.mp ?_)
  decide +kernel

end LinuxLikeKernel
