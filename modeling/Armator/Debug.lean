import Armator.Lib.SortedTable
import Armator.Lib.StringOrder

/-!
# The debugged files

`debug.c`: the names given to `--debug` stand in a sorted array (`fileSet`), which is searched by
halving. `add_debug_to` tests the position of a new name against the size of the array, not the
number of names it holds (`withinTable_iff`).
-/

namespace Armator

open CString SortedTable

/-! ## The table -/

def maxFilesNumber : Nat := 64

inductive DebugFault where
  /-- An index outside `debugged_files`. -/
  | index
  /-- `strcmp` of a pointer that was never set. -/
  | nullPointer
deriving DecidableEq

/-- The globals of `debug.c`. -/
structure DebugTable where
  debuggedFiles : Nat → Option Str
  nbDebuggedFiles : Nat

namespace DebugTable

/-- The table as the program starts. -/
def initial : DebugTable := ⟨fun _ => none, 0⟩

def read (t : DebugTable) (i : Int) : Except DebugFault (Option Str) :=
  if 0 ≤ i ∧ i < maxFilesNumber then .ok (t.debuggedFiles i.toNat) else .error .index

def write (t : DebugTable) (i : Int) (name : Option Str) : Except DebugFault DebugTable :=
  if 0 ≤ i ∧ i < maxFilesNumber then
    .ok { t with debuggedFiles := Function.update t.debuggedFiles i.toNat name }
  else .error .index

/-- `strcmp(debugged_files[i], name)`. -/
def compare (t : DebugTable) (i : Int) (name : Str) : Except DebugFault Int := do
  match ← t.read i with
  | some file => return strcmp file.chars name.chars
  | none => throw .nullPointer

/-- The names it holds. -/
def entries (t : DebugTable) : List (Option Str) :=
  (List.range t.nbDebuggedFiles).map t.debuggedFiles

/-! ## Additions -/

/-- The first loop of `add_debug_to`. -/
def insertPosition (t : DebugTable) (name : Str) (i : Nat) : Except DebugFault Nat := do
  if _hi : i < t.nbDebuggedFiles ∧ i < maxFilesNumber then
    if (← t.compare i name) < 0 then insertPosition t name (i + 1) else return i
  else return i
termination_by maxFilesNumber - i

/-- The second one, from `j` on down. -/
def shiftFiles (t : DebugTable) (i : Nat) : Nat → Except DebugFault DebugTable
  | 0 => return t
  | j + 1 => do
    if j + 1 > i then
      let t ← t.write ((j + 1 : Nat) : Int) (← t.read (j : Int))
      shiftFiles t i j
    else return t

def addDebugTo (t : DebugTable) (name : Str) : Except DebugFault DebugTable := do
  let i ← insertPosition t name 0
  if i ≥ maxFilesNumber then return t
  else
    let t ← shiftFiles t i t.nbDebuggedFiles
    let t ← t.write i (some name)
    return { t with nbDebuggedFiles := t.nbDebuggedFiles + 1 }

def addAll (t : DebugTable) (names : List Str) : Except DebugFault DebugTable :=
  names.foldlM addDebugTo t

/-! ## Search -/

theorem middle_bounds {low high : Int} (hlt : low < high) :
    low ≤ (low + high).tdiv 2 ∧ (low + high).tdiv 2 ≤ high := by
  rw [Int.tdiv_eq_ediv]
  split
  · omega
  · rw [Int.sign_eq_one_of_pos two_pos]
    omega

/-- `__is_debugged` from the test of its loop on. -/
def isDebuggedFrom (t : DebugTable) (name : Str) (from' to' : Int) : Except DebugFault Int := do
  if hlt : from' < to' then
    let middle := (from' + to').tdiv 2
    let result ← t.compare middle name
    if result < 0 then isDebuggedFrom t name (middle + 1) to'
    else if result > 0 then isDebuggedFrom t name from' (middle - 1)
    else return 1
  else if from' = to' then
    if (← t.compare from' name) = 0 then return 1 else return 0
  else return 0
termination_by (to' - from').toNat
decreasing_by
  · have hmiddle := middle_bounds hlt
    omega
  · have hmiddle := middle_bounds hlt
    omega

def isDebugged (t : DebugTable) (name : Str) : Except DebugFault Int :=
  isDebuggedFrom t name 0 (t.nbDebuggedFiles - 1)

/-! ## The names in the table -/

/-- The table holds a sorted list of names. -/
structure Lists (t : DebugTable) (l : List Str) : Prop where
  count : t.nbDebuggedFiles = l.length
  fits : l.length ≤ maxFilesNumber
  holds : Holds t.debuggedFiles l
  sorted : l.Pairwise (· ≤ ·)

theorem lists_initial : Lists initial [] :=
  ⟨rfl, Nat.zero_le _, fun _ hi => absurd hi (Nat.not_lt_zero _), List.Pairwise.nil⟩

section
variable {t : DebugTable} {l : List Str} (name : Str) {i : Nat}

theorem read_eq (hi : i < maxFilesNumber) : t.read i = .ok (t.debuggedFiles i) := by
  rw [read, if_pos ⟨by omega, by omega⟩, Int.toNat_natCast]

theorem write_eq (hi : i < maxFilesNumber) (pointer : Option Str) :
    t.write i pointer =
      .ok { t with debuggedFiles := Function.update t.debuggedFiles i pointer } := by
  rw [write, if_pos ⟨by omega, by omega⟩, Int.toNat_natCast]

theorem write_error (hi : maxFilesNumber ≤ i) (pointer : Option Str) :
    t.write i pointer = .error .index := by
  rw [write, if_neg (by omega)]

theorem Lists.compare_eq (ht : Lists t l) {file : Str} (hfile : l[i]? = some file) :
    t.compare i name = .ok (strcmp file.chars name.chars) := by
  obtain ⟨hi, -⟩ := List.getElem?_eq_some_iff.mp hfile
  have hread : t.read i = .ok (some file) := by
    rw [read_eq (Nat.lt_of_lt_of_le hi ht.fits), ht.holds i hi, hfile]
  rw [compare, hread]
  rfl

theorem Lists.entries_eq (ht : Lists t l) : t.entries = l.map some := by
  refine List.ext_getElem? fun i => ?_
  rw [entries, ht.count, List.getElem?_map, List.getElem?_map]
  rcases Nat.lt_or_ge i l.length with hi | hi
  · rw [List.getElem?_range hi, Option.map_some, ht.holds i hi, List.getElem?_eq_getElem hi]
    rfl
  · rw [List.getElem?_eq_none (by simpa using hi), List.getElem?_eq_none hi]
    rfl

/-! ## What an addition does -/

theorem Lists.insertPosition_eq (ht : Lists t l) (hi : i ≤ l.length) :
    t.insertPosition name i = .ok (i + place name (l.drop i)) := by
  obtain ⟨k, hk⟩ : ∃ k, l.length - i = k := ⟨_, rfl⟩
  induction k generalizing i with
  | zero =>
    obtain rfl : i = l.length := by omega
    rw [insertPosition, dif_neg (by simp [ht.count]), List.drop_length]
    rfl
  | succ k ih =>
    have hlt : i < l.length := by omega
    have hfits := ht.fits
    rw [insertPosition, dif_pos ⟨by rw [ht.count]; exact hlt, by omega⟩,
      ht.compare_eq name (List.getElem?_eq_getElem hlt), List.drop_eq_getElem_cons hlt]
    rcases lt_or_ge l[i] name with hless | hge
    · have hrest := @ih (i + 1) (by omega) (by omega)
      rw [place_cons_of_lt hless, ← Nat.add_assoc, Nat.add_right_comm, ← hrest]
      exact if_pos ((strcmp_neg_iff _ _).mpr hless)
    · rw [place_cons_of_le hge]
      exact if_neg fun hneg => absurd ((strcmp_neg_iff _ _).mp hneg) hge.not_gt

theorem shiftFiles_eq {n : Nat} (hn : n < maxFilesNumber) :
    t.shiftFiles i n = .ok { t with debuggedFiles := moved t.debuggedFiles i n } := by
  induction n generalizing t with
  | zero =>
    rw [moved_of_le (Nat.zero_le i)]
    rfl
  | succ n ih =>
    rw [shiftFiles]
    by_cases hi : n + 1 > i
    · rw [if_pos hi, read_eq (by omega)]
      show (t.write ((n + 1 : Nat) : Int) (t.debuggedFiles n)).bind _ = _
      rw [write_eq hn]
      refine (ih (by omega)).trans ?_
      rw [moved_succ (by omega)]
    · rw [if_neg hi, moved_of_le (by omega)]
      rfl

theorem shiftFiles_error {n : Nat} (hi : i < n) (hn : n = maxFilesNumber) :
    t.shiftFiles i n = .error .index := by
  cases n with
  | zero => omega
  | succ n =>
    rw [shiftFiles, if_pos hi, read_eq (by omega)]
    show (t.write ((n + 1 : Nat) : Int) (t.debuggedFiles n)).bind _ = _
    rw [write_error hn.ge]
    rfl

theorem Lists.insertPosition_zero (ht : Lists t l) :
    t.insertPosition name 0 = .ok (place name l) := by
  rw [ht.insertPosition_eq name (Nat.zero_le _), Nat.zero_add, List.drop_zero]

/-- A new name in its place. -/
def inserted (t : DebugTable) (k : Nat) (name : Str) : DebugTable where
  debuggedFiles := Function.update (moved t.debuggedFiles k t.nbDebuggedFiles) k (some name)
  nbDebuggedFiles := t.nbDebuggedFiles + 1

theorem Lists.inserted (ht : Lists t l) (hroom : l.length < maxFilesNumber) :
    Lists (t.inserted (place name l) name) (l.orderedInsert (· ≤ ·) name) := by
  have hplace := place_le name l
  refine ⟨?_, ?_, ?_, ht.sorted.orderedInsert name l⟩
  · rw [List.orderedInsert_length, DebugTable.inserted, ht.count]
  · rw [List.orderedInsert_length]
    exact hroom
  · rw [← insertIdx_place, DebugTable.inserted, ht.count]
    exact holds_inserted ht.holds hplace name

theorem Lists.addDebugTo_ok (ht : Lists t l) (hroom : l.length < maxFilesNumber) :
    t.addDebugTo name = .ok (t.inserted (place name l) name) := by
  have hplace := place_le name l
  rw [addDebugTo, ht.insertPosition_zero]
  show (if place name l ≥ maxFilesNumber then Except.ok t else _) = _
  rw [if_neg (by omega), ht.count, shiftFiles_eq hroom]
  show (write _ _ _).bind _ = _
  rw [write_eq (by omega), DebugTable.inserted, ht.count]
  rfl

theorem Lists.addDebugTo_full (ht : Lists t l) (hfull : l.length = maxFilesNumber) :
    t.addDebugTo name = if ∀ y ∈ l, y < name then .ok t else .error .index := by
  have hplace := place_le name l
  rw [addDebugTo, ht.insertPosition_zero]
  show (if place name l ≥ maxFilesNumber then Except.ok t else _) = _
  by_cases hlast : ∀ y ∈ l, y < name
  · rw [if_pos hlast, if_pos (by rw [place_eq_length_iff.mpr hlast, hfull])]
  · have hbelow : place name l < l.length :=
      Nat.lt_of_le_of_ne hplace fun heq => hlast (place_eq_length_iff.mp heq)
    rw [if_neg hlast, if_neg (by omega), ht.count, shiftFiles_error hbelow hfull]
    rfl

/-! ## What a search finds -/

theorem isDebuggedFrom_lt {from' to' result : Int} (hlt : from' < to')
    (hcompare : t.compare ((from' + to').tdiv 2) name = .ok result) :
    t.isDebuggedFrom name from' to' =
      if result < 0 then t.isDebuggedFrom name ((from' + to').tdiv 2 + 1) to'
      else if result > 0 then t.isDebuggedFrom name from' ((from' + to').tdiv 2 - 1)
      else .ok 1 := by
  rw [isDebuggedFrom, dif_pos hlt]
  show (t.compare _ name).bind _ = _
  rw [hcompare]
  rfl

theorem Lists.isDebuggedFrom_eq (ht : Lists t l) {from' to' : Int} (hfrom : 0 ≤ from')
    (hto : to' < l.length) (hb : Brackets l name from' to') :
    t.isDebuggedFrom name from' to' = .ok (if name ∈ l then 1 else 0) := by
  induction from', to' using isDebuggedFrom.induct with
  | case1 from' to' hlt middle ihUpper ihLower =>
    obtain ⟨hlow, hhigh⟩ := middle_bounds hlt
    obtain ⟨m, hm⟩ : ∃ m : Nat, middle = m := ⟨middle.toNat, by omega⟩
    have hlen : m < l.length := by omega
    have hfile := List.getElem?_eq_getElem hlen
    have hcompare : t.compare middle name = .ok (strcmp l[m].chars name.chars) := by
      rw [hm, ht.compare_eq name hfile]
    rw [isDebuggedFrom_lt name hlt hcompare]
    rcases strcmp_order l[m] name with ⟨hsign, hless⟩ | ⟨hsign, heq⟩ | ⟨hsign, hgt⟩
    · rw [if_pos hsign]
      refine ihUpper (by omega) hto ?_
      rw [hm]
      exact hb.upper ht.sorted hfile hless
    · rw [if_neg (by omega), if_neg (by omega), if_pos (heq ▸ List.getElem_mem hlen)]
    · rw [if_neg (by omega), if_pos hsign]
      refine ihLower hfrom (by omega) ?_
      rw [hm]
      exact hb.lower ht.sorted hfile hgt
  | case2 to' hlt =>
    obtain ⟨m, rfl⟩ : ∃ m : Nat, to' = m := ⟨to'.toNat, by omega⟩
    have hfile := List.getElem?_eq_getElem (show m < l.length by omega)
    rw [isDebuggedFrom, dif_neg hlt, if_pos rfl, ht.compare_eq name hfile]
    show (if strcmp l[m].chars name.chars = 0 then _ else _) = _
    by_cases heq : l[m] = name
    · rw [if_pos ((strcmp_eq_zero_iff _ _).mpr heq), if_pos ((hb.mem_iff_of_one hfile).mpr heq)]
      rfl
    · rw [if_neg (mt (strcmp_eq_zero_iff _ _).mp heq),
        if_neg (mt (hb.mem_iff_of_one hfile).mp heq)]
      rfl
  | case3 from' to' hlt hne =>
    rw [isDebuggedFrom, dif_neg hlt, if_neg hne, if_neg (hb.notMem_of_empty (by omega))]
    rfl

theorem Lists.isDebugged_eq (ht : Lists t l) :
    t.isDebugged name = .ok (if name ∈ l then 1 else 0) := by
  rw [isDebugged, ht.count]
  exact ht.isDebuggedFrom_eq name (le_refl 0) (by omega) (brackets_whole l name)

end

/-! ## Sequences of additions -/

section
variable {t : DebugTable} {l : List Str} (names : List Str)

theorem Lists.addAll_ok (ht : Lists t l) (hroom : l.length + names.length ≤ maxFilesNumber) :
    ∃ t' l', t.addAll names = .ok t' ∧ Lists t' l' ∧ l'.Perm (names ++ l) := by
  induction names generalizing t l with
  | nil => exact ⟨t, l, rfl, ht, List.Perm.refl _⟩
  | cons name names ih =>
    rw [List.length_cons] at hroom
    obtain ⟨t', l', hrun, hlists, hperm⟩ := ih (ht.inserted name (by omega))
      (by rw [List.orderedInsert_length]; omega)
    refine ⟨t', l', ?_, hlists, ?_⟩
    · rw [addAll, List.foldlM_cons, ht.addDebugTo_ok name (by omega)]
      exact hrun
    · calc l'.Perm (names ++ l.orderedInsert (· ≤ ·) name) := hperm
        List.Perm _ (names ++ name :: l) := (List.perm_orderedInsert _ name l).append_left names
        List.Perm _ (name :: names ++ l) := List.perm_middle

theorem Lists.addAll_full (ht : Lists t l) (hfull : l.length = maxFilesNumber) :
    t.addAll names =
      if ∀ late ∈ names, ∀ early ∈ l, early < late then .ok t else .error .index := by
  induction names with
  | nil => rw [if_pos fun _ hlate => absurd hlate List.not_mem_nil]; rfl
  | cons name names ih =>
    rw [addAll, List.foldlM_cons, ht.addDebugTo_full name hfull]
    by_cases hlast : ∀ early ∈ l, early < name
    · rw [if_pos hlast]
      refine ih.trans (if_congr ?_ rfl rfl)
      rw [List.forall_mem_cons, and_iff_right hlast]
    · rw [if_neg hlast, if_neg fun hall => hlast (hall name List.mem_cons_self)]
      rfl

end

/-- The table is the set of the names added. -/
structure FileSet (t : DebugTable) (names : List Str) : Prop where
  /-- The entries are the names, each as often as it was added, in the order of `strcmp`. -/
  entries : ∃ l : List Str, t.entries = l.map some ∧
    l.Pairwise (fun first second => strcmp first.chars second.chars ≤ 0) ∧ l.Perm names
  /-- A search finds these names and no others. -/
  search : ∀ name, t.isDebugged name = .ok (if name ∈ names then 1 else 0)

/-- Every index that the additions use is one of the array. -/
def WithinTable (names : List Str) : Prop :=
  ∀ n, ∃ t, initial.addAll (names.take n) = .ok t ∧ t.nbDebuggedFiles ≤ maxFilesNumber

end DebugTable

open DebugTable

theorem sorted_strcmp {l : List Str} (hsorted : l.Pairwise (· ≤ ·)) :
    l.Pairwise fun first second => strcmp first.chars second.chars ≤ 0 := by
  refine hsorted.imp fun {first second} hle => ?_
  by_contra hpos
  exact absurd ((strcmp_pos_iff _ _).mp (not_le.mp hpos)) hle.not_gt

/-- **Debugged files**: as many additions as there is room for make a set of names, and no access
leaves the array. -/
theorem fileSet (names : List Str) (hroom : names.length ≤ maxFilesNumber) :
    ∃ t, initial.addAll names = .ok t ∧ FileSet t names := by
  obtain ⟨t, l, hrun, ht, hperm⟩ := lists_initial.addAll_ok names (by simpa using hroom)
  rw [List.append_nil] at hperm
  refine ⟨t, hrun, ⟨l, ht.entries_eq, sorted_strcmp ht.sorted, hperm⟩, fun name => ?_⟩
  rw [ht.isDebugged_eq]
  simp only [hperm.mem_iff]

/-- Two files of the simulator. -/
def memoryFile : Str := ⟨ofString "memory.c", by decide⟩

def gdbFile : Str := ⟨ofString "gdb_protocol.c", by decide⟩

/-- Three additions of the two. -/
theorem fileSet_three :
    ∃ t, initial.addAll [memoryFile, gdbFile, memoryFile] = .ok t ∧
      FileSet t [memoryFile, gdbFile, memoryFile] :=
  fileSet [memoryFile, gdbFile, memoryFile] (by decide)

/-! ## The size of the table -/

section
variable (names : List Str)

theorem exists_lists_take :
    ∃ t l, initial.addAll (names.take maxFilesNumber) = .ok t ∧ Lists t l ∧
      l.Perm (names.take maxFilesNumber) := by
  obtain ⟨t, l, hrun, ht, hperm⟩ :=
    lists_initial.addAll_ok (names.take maxFilesNumber) (by simp)
  rw [List.append_nil] at hperm
  exact ⟨t, l, hrun, ht, hperm⟩

/-- The names behind the first ones are greater than these. -/
def LateGreater : Prop :=
  ∀ late ∈ names.drop maxFilesNumber, ∀ early ∈ names.take maxFilesNumber, early < late

instance : Decidable (LateGreater names) :=
  inferInstanceAs (Decidable (∀ late ∈ names.drop maxFilesNumber,
    ∀ early ∈ names.take maxFilesNumber, early < late))

variable {names}

theorem LateGreater.take (hlate : LateGreater names) (n : Nat) : LateGreater (names.take n) := by
  intro late hmem early hearly
  rw [List.drop_take] at hmem
  rw [List.take_take, Nat.min_comm, ← List.take_take] at hearly
  exact hlate late (List.mem_of_mem_take hmem) early (List.mem_of_mem_take hearly)

theorem addAll_long (hlong : maxFilesNumber ≤ names.length) :
    ∃ t, t.nbDebuggedFiles = maxFilesNumber ∧
      initial.addAll names = if LateGreater names then .ok t else .error .index := by
  obtain ⟨t, l, hrun, ht, hperm⟩ := exists_lists_take names
  have hfull : l.length = maxFilesNumber := by
    rw [hperm.length_eq, List.length_take, Nat.min_eq_left hlong]
  refine ⟨t, ht.count.trans hfull, ?_⟩
  calc initial.addAll names
      = initial.addAll (names.take maxFilesNumber ++ names.drop maxFilesNumber) := by
        rw [List.take_append_drop]
    _ = (initial.addAll (names.take maxFilesNumber)).bind
        (addAll · (names.drop maxFilesNumber)) := List.foldlM_append
    _ = t.addAll (names.drop maxFilesNumber) := by rw [hrun]; rfl
    _ = _ := by
        rw [ht.addAll_full _ hfull]
        refine if_congr ?_ rfl rfl
        simp only [hperm.mem_iff, LateGreater]

theorem addAll_iff :
    (∃ t, initial.addAll names = .ok t ∧ t.nbDebuggedFiles ≤ maxFilesNumber) ↔
      LateGreater names := by
  rcases Nat.lt_or_ge maxFilesNumber names.length with hlong | hshort
  · obtain ⟨t, hcount, hrun⟩ := addAll_long hlong.le
    rw [hrun]
    constructor
    · rintro ⟨u, hok, -⟩
      by_contra hnot
      rw [if_neg hnot] at hok
      cases hok
    · intro hlate
      exact ⟨t, if_pos hlate, hcount.le⟩
  · obtain ⟨t, l, hrun, ht, -⟩ := exists_lists_take names
    rw [List.take_of_length_le hshort] at hrun
    refine iff_of_true ⟨t, hrun, ht.count.le.trans ht.fits⟩ fun late hmem => ?_
    rw [List.drop_of_length_le hshort] at hmem
    exact absurd hmem List.not_mem_nil

end

/-- **The size of the table**: additions stay in it exactly if the names behind the first 64 are
greater than each of these. -/
theorem withinTable_iff (names : List Str) :
    WithinTable names ↔
      ∀ late ∈ names.drop maxFilesNumber, ∀ early ∈ names.take maxFilesNumber,
        strcmp early.chars late.chars < 0 := by
  simp only [strcmp_neg_iff]
  constructor
  · intro hwithin
    have hall := hwithin names.length
    rw [List.take_length] at hall
    exact addAll_iff.mp hall
  · intro hlate n
    exact addAll_iff.mpr (LateGreater.take hlate n)

/-- One name, added once more than there is room for. -/
theorem withinTable_iff_same :
    initial.addAll (List.replicate 65 gdbFile) = .error .index ∧
      ¬WithinTable (List.replicate 65 gdbFile) := by
  have hnot : ¬LateGreater (List.replicate 65 gdbFile) := by
    intro hlate
    have hlast : gdbFile ∈ (List.replicate 65 gdbFile).drop maxFilesNumber := by
      rw [List.drop_replicate]
      exact List.mem_cons_self
    have hfirst : gdbFile ∈ (List.replicate 65 gdbFile).take maxFilesNumber := by
      rw [List.take_replicate]
      exact List.mem_cons_self
    exact lt_irrefl gdbFile (hlate gdbFile hlast gdbFile hfirst)
  have hrun : initial.addAll (List.replicate 65 gdbFile) = .error .index := by
    have hlong : maxFilesNumber ≤ (List.replicate 65 gdbFile).length := by
      rw [List.length_replicate]
      decide
    obtain ⟨t, -, hrun⟩ := addAll_long hlong
    rw [hrun, if_neg hnot]
  refine ⟨hrun, fun hwithin => ?_⟩
  obtain ⟨t, hok, -⟩ := hwithin (List.replicate 65 gdbFile).length
  rw [List.take_length, hrun] at hok
  cases hok

end Armator
