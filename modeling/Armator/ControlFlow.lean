import Mathlib.Data.Nat.Periodic
import Armator.Branches
import Armator.Condition
import Armator.Persistence

/-!
# Where a program goes

The flags a condition is tested on are the top bits of the program counter, so that the next program
counter comes from the present one and the instruction alone, unless the instruction writes register
15 by that name (`word_15_stepped`). Over the same code two cores therefore go the same way, whatever
their registers and their data are (`control_flow`), and a program that comes back to an address goes
round for ever (`loop_never_left`).
-/

namespace Armator

/-! ## The next program counter -/

/-- The program counter is the destination or the base of the instruction. -/
def ComputesPc (mot : Word) : Prop :=
  ((IsDataProcessing mot ∨ IsLoad mot) ∧ rdField mot = 15) ∨ (IsLoadStore mot ∧ rnField mot = 15)

/-- The condition of an instruction at an address holds of the flags it is tested on. -/
def PassesAt (address mot : Word) : Prop :=
  (Arm.condition mot).holds (.ofStatus (address + 4)) = true ∧
    (Arm.condition mot = .ls →
      (address + 4).getLsbD 29 = false ∧ (address + 4).getLsbD 30 = true)

instance (address mot : Word) : Decidable (PassesAt address mot) :=
  inferInstanceAs (Decidable (_ ∧ _))

instance : DecidablePred ComputesPc := fun _ => inferInstanceAs (Decidable (_ ∨ _))

/-- A skipped instruction is a reset. -/
def nextPc (address mot : Word) : Word :=
  if ¬ PassesAt address mot then 0
  else if Arm.IsBranch mot then ((address + 8) &&& 0xFFFFFFFD) + branchOffset mot
  else address + 4

section
variable {h h' : Host} {p q : ArmCoreData}

theorem word_15_stepped (hkeeps : ¬ ComputesPc (fetchedWord h p)) :
    (stepped h p).word 15 = nextPc (fetchAddress p) (fetchedWord h p) := by
  have hfetched : (fetchedCore h p).word 15 = fetchAddress p + 4 := by
    rw [fetchedCore, word_armFetch, if_pos rfl]
  have hpasses : Passed h p ↔ PassesAt (fetchAddress p) (fetchedWord h p) := passed_iff h p
  rw [nextPc]
  by_cases hpass : Passed h p
  · rw [if_neg (not_not_intro (hpasses.mp hpass))]
    split
    · next hbranch =>
      have height : fetchAddress p + 4 + 4 = fetchAddress p + 8 := BitVec.add_assoc _ 4 4
      rw [stepped_of_branch hbranch hpass, bBlInstr_snd, word_armWriteUsrRegister, if_pos rfl,
        armReadUsrRegister_eq, if_pos rfl, hfetched, height]
    · next hbranch =>
      have hframe := frame_selectExecuteInstruction h (fetchedCore h p) (fetchedWord h p)
        (flagOf (armReadCpsr (fetchedCore h p)) bitC)
      rw [stepped, armStep_of_passed hpass, hframe.word 15, hfetched]
      rintro (⟨hclass, hrd⟩ | ⟨hclass, hrn⟩ | ⟨hb, -⟩)
      · exact hkeeps (Or.inl ⟨hclass, hrd.symm⟩)
      · exact hkeeps (Or.inr ⟨hclass, hrn.symm⟩)
      · exact hbranch hb
  · rw [if_pos (mt hpasses.mpr hpass), stepped, armStep_of_failed hpass]
    exact word_armException_reset _

/-! ## The same code -/

/-- Two cores at one address of some code they share. -/
structure SameCode (code : Set Word) (p q : ArmCoreData) : Prop where
  pc : q.word 15 = p.word 15
  size : q.mem.size = p.mem.size
  isBigEndian : q.mem.isBigEndian = p.mem.isBigEndian
  memo : ∀ i ∈ code, q.mem.memo i = p.mem.memo i

/-- A step in some code that it leaves as it is. -/
structure StaysIn (h : Host) (code : Set Word) (p : ArmCoreData) : Prop where
  fetches : ∀ k < 4, fetchAddress p + BitVec.ofNat 32 k ∈ code
  keeps : ¬ ComputesPc (fetchedWord h p)
  stores : ∀ i ∈ code, ¬ StoresTo h p i

variable {code : Set Word}

theorem SameCode.fetchAddress (hsame : SameCode code p q) : fetchAddress q = fetchAddress p := by
  rw [fetchAddress_eq, fetchAddress_eq, hsame.pc]

theorem SameCode.fetchedWord (hsame : SameCode code p q) (hstays : StaysIn h code p) :
    fetchedWord h' q = fetchedWord h p := by
  have hbyte : ∀ k < 4, q.mem.memo (Armator.fetchAddress p + BitVec.ofNat 32 k) =
      p.mem.memo (Armator.fetchAddress p + BitVec.ofNat 32 k) := fun k hk =>
    hsame.memo _ (hstays.fetches k hk)
  have hzero : q.mem.memo (Armator.fetchAddress p) = p.mem.memo (Armator.fetchAddress p) := by
    simpa using hbyte 0 (by decide)
  have hone : q.mem.memo (Armator.fetchAddress p + 1) = p.mem.memo (Armator.fetchAddress p + 1) :=
    hbyte 1 (by decide)
  have htwo : q.mem.memo (Armator.fetchAddress p + 2) = p.mem.memo (Armator.fetchAddress p + 2) :=
    hbyte 2 (by decide)
  have hthree : q.mem.memo (Armator.fetchAddress p + 3) = p.mem.memo (Armator.fetchAddress p + 3) :=
    hbyte 3 (by decide)
  have hcpsr : armReadCpsr q = armReadCpsr p := hsame.pc
  rw [Armator.fetchedWord, Armator.fetchedWord, armFetch_value, armFetch_value, hsame.fetchAddress,
    hcpsr, memoryReadWord_host h h']
  simp only [memoryReadWord, hsame.size, hsame.isBigEndian, hzero, hone, htwo, hthree]

theorem SameCode.passed (hsame : SameCode code p q) (hstays : StaysIn h code p) :
    Passed h' q ↔ Passed h p := by
  rw [passed_iff, passed_iff, Holds, Holds, hsame.fetchedWord hstays, hsame.fetchAddress]

theorem SameCode.step (hsame : SameCode code p q) (hstays : StaysIn h code p)
    (hstores : ∀ i ∈ code, ¬ StoresTo h' q i) : SameCode code (stepped h p) (stepped h' q) := by
  have hword : Armator.fetchedWord h' q = Armator.fetchedWord h p := hsame.fetchedWord hstays
  have hframe := frame_stepped h p
  have hframe' := frame_stepped h' q
  constructor
  · rw [word_15_stepped hstays.keeps, word_15_stepped (by rw [hword]; exact hstays.keeps), hword,
      hsame.fetchAddress]
  · rw [hframe.size, hframe'.size, hsame.size]
  · rw [hframe.isBigEndian, hframe'.isBigEndian, hsame.isBigEndian]
  · intro i hi
    rw [hframe.memo i (hstays.stores i hi), hframe'.memo i (hstores i hi), hsame.memo i hi]

theorem SameCode.run {n : Nat} (hsame : SameCode code p q)
    (hstays : ∀ k < n, StaysIn h code ((stepped h)^[k] p))
    (hstores : ∀ k < n, ∀ i ∈ code, ¬ StoresTo h' ((stepped h')^[k] q) i) :
    ∀ k ≤ n, SameCode code ((stepped h)^[k] p) ((stepped h')^[k] q) := by
  intro k hk
  induction k with
  | zero => exact hsame
  | succ k ih =>
    rw [Function.iterate_succ_apply', Function.iterate_succ_apply']
    exact (ih (Nat.le_of_lt hk)).step (hstays k hk) (hstores k hk)

end

/-- **No program branches on data**: while none of its instructions writes register 15 by name, where
a program goes, and which of its instructions are executed, does not depend on the registers, on the
data or on the host. -/
theorem control_flow (h h' : Host) (code : Set Word) (p q : ArmCoreData) (n : Nat)
    (hsame : SameCode code p q) (hstays : ∀ k < n, StaysIn h code ((stepped h)^[k] p))
    (hstores : ∀ k < n, ∀ i ∈ code, ¬ StoresTo h' ((stepped h')^[k] q) i) :
    (∀ k ≤ n, ((stepped h')^[k] q).word 15 = ((stepped h)^[k] p).word 15) ∧
    ∀ k < n, fetchedWord h' ((stepped h')^[k] q) = fetchedWord h ((stepped h)^[k] p) ∧
      (Passed h' ((stepped h')^[k] q) ↔ Passed h ((stepped h)^[k] p)) := by
  have hrun := hsame.run hstays hstores
  refine ⟨fun k hk => (hrun k hk).pc, fun k hk => ?_⟩
  have hcode := hrun k (Nat.le_of_lt hk)
  exact ⟨hcode.fetchedWord (hstays k hk), hcode.passed (hstays k hk)⟩

/-- `CMP r0, #1` and a branch over one instruction under `NE`. -/
def comparingCore (x : Word) : ArmCoreData :=
  armWriteUsrRegister (coreOf 4 [0xE3500001, 0x1A000000]) 0 x

theorem control_flow_compare :
    ((stepped Host.bigEndianHost)^[2] (comparingCore 1)).word 15 =
      ((stepped Host.x86)^[2] (comparingCore 0)).word 15 := by
  have hstays : ∀ k < 2, StaysIn Host.x86 Set.univ ((stepped Host.x86)^[k] (comparingCore 0)) := by
    intro k hk
    interval_cases k
    · exact ⟨fun _ _ => trivial, by decide, fun _ _ hstore => absurd hstore.2.1 (by decide)⟩
    · exact ⟨fun _ _ => trivial, by decide, fun _ _ hstore => absurd hstore.2.1 (by decide)⟩
  have hstores : ∀ k < 2, ∀ i ∈ Set.univ, ¬ StoresTo Host.bigEndianHost
      ((stepped Host.bigEndianHost)^[k] (comparingCore 1)) i := by
    rintro k hk i - hstore
    interval_cases k
    · exact absurd hstore.2.1 (by decide)
    · exact absurd hstore.2.1 (by decide)
  have hsame : SameCode Set.univ (comparingCore 0) (comparingCore 1) :=
    ⟨by decide, rfl, rfl, fun _ _ => rfl⟩
  exact (control_flow _ _ Set.univ _ _ 2 hsame hstays hstores).1 2 (by decide)

/-! ## Loops -/

section
variable {h : Host} {code : Set Word} {p : ArmCoreData} {i j : Nat}
  (hstays : ∀ k, StaysIn h code ((stepped h)^[k] p))
include hstays

/-- A program that comes back to an address is there again what it was. -/
theorem sameCode_of_back
    (hback : ((stepped h)^[j] p).word 15 = ((stepped h)^[i] p).word 15) :
    SameCode code ((stepped h)^[i] p) ((stepped h)^[j] p) := by
  have hframe := frame_run h p
  have hmemo : ∀ n, ∀ x ∈ code, ((stepped h)^[n] p).mem.memo x = p.mem.memo x := fun n x hx =>
    (hframe n).memo x fun ⟨k, _, hstore⟩ => (hstays k).stores x hx hstore
  refine ⟨hback, ?_, ?_, fun x hx => ?_⟩
  · rw [(hframe j).size, (hframe i).size]
  · rw [(hframe j).isBigEndian, (hframe i).isBigEndian]
  · rw [hmemo j x hx, hmemo i x hx]

theorem pc_of_back (hback : ((stepped h)^[j] p).word 15 = ((stepped h)^[i] p).word 15) (k : Nat) :
    ((stepped h)^[k + j] p).word 15 = ((stepped h)^[k + i] p).word 15 := by
  have hlater : ∀ n m, (stepped h)^[m] ((stepped h)^[n] p) = (stepped h)^[m + n] p := fun n m =>
    (Function.iterate_add_apply (stepped h) m n p).symm
  have hcode : ∀ m < k, StaysIn h code ((stepped h)^[m] ((stepped h)^[i] p)) := fun m _ => by
    rw [hlater]
    exact hstays _
  have hstores : ∀ m < k, ∀ x ∈ code, ¬ StoresTo h ((stepped h)^[m] ((stepped h)^[j] p)) x :=
    fun m _ => by
      rw [hlater]
      exact (hstays _).stores
  have hrun := (sameCode_of_back hstays hback).run hcode hstores k (Nat.le_refl k)
  rw [hlater, hlater] at hrun
  exact hrun.pc

end

/-- **No loop is left**: a program none of whose instructions writes register 15 by name goes round
for ever between the two times it was at one address. -/
theorem loop_never_left (h : Host) (code : Set Word) (p : ArmCoreData) (i j : Nat) (hij : i < j)
    (hstays : ∀ k, StaysIn h code ((stepped h)^[k] p))
    (hback : ((stepped h)^[j] p).word 15 = ((stepped h)^[i] p).word 15) :
    ∀ k, i ≤ k → ∃ m, i ≤ m ∧ m < j ∧
      ((stepped h)^[k] p).word 15 = ((stepped h)^[m] p).word 15 := by
  intro k hk
  have hperiodic : Function.Periodic (fun r => ((stepped h)^[r + i] p).word 15) (j - i) := by
    intro r
    have hsum : r + (j - i) + i = r + j := by omega
    show ((stepped h)^[r + (j - i) + i] p).word 15 = _
    rw [hsum]
    exact pc_of_back hstays hback r
  have hlt := Nat.mod_lt (k - i) (Nat.sub_pos_of_lt hij)
  have hmod := hperiodic.map_mod_nat (k - i)
  rw [Nat.sub_add_cancel hk] at hmod
  exact ⟨(k - i) % (j - i) + i, Nat.le_add_left _ _, by omega, hmod.symm⟩

/-- A core in front of a branch to itself. -/
def Circling (p : ArmCoreData) : Prop := p.word 15 = 0 ∧ p.mem = (coreAt 0xEAFFFFFE).mem

theorem fetchedWord_circling {p : ArmCoreData} (hcircling : Circling p) :
    fetchAddress p = 0 ∧ fetchedWord Host.x86 p = 0xEAFFFFFE := by
  obtain ⟨hpc, hmem⟩ := hcircling
  have haddress : fetchAddress p = 0 := by
    rw [fetchAddress_eq, hpc]
    rfl
  refine ⟨haddress, ?_⟩
  rw [fetchedWord, armFetch_value, haddress, hmem]
  rfl

theorem staysIn_circling {p : ArmCoreData} (hcircling : Circling p) :
    StaysIn Host.x86 Set.univ p := by
  have hword := (fetchedWord_circling hcircling).2
  refine ⟨fun _ _ => trivial, ?_, fun _ _ hstore => ?_⟩
  · rw [hword]
    decide
  · have hstore := hstore.2.1
    rw [hword] at hstore
    exact absurd hstore (by decide)

theorem circling_step {p : ArmCoreData} (hcircling : Circling p) :
    Circling (stepped Host.x86 p) := by
  obtain ⟨haddress, hword⟩ := fetchedWord_circling hcircling
  have hstays := staysIn_circling hcircling
  constructor
  · rw [word_15_stepped hstays.keeps, haddress, hword]
    decide
  · rw [stepped, (armStep_frame Host.x86 p).memory (fun hstore => ?_)]
    · exact hcircling.2
    · rw [hword] at hstore
      exact absurd hstore.2 (by decide)

theorem loop_never_left_branch :
    ∃ m, 0 ≤ m ∧ m < 1 ∧
      ((stepped Host.x86)^[1000000] (coreAt 0xEAFFFFFE)).word 15 =
        ((stepped Host.x86)^[m] (coreAt 0xEAFFFFFE)).word 15 := by
  have hcircling : ∀ k, Circling ((stepped Host.x86)^[k] (coreAt 0xEAFFFFFE)) := by
    intro k
    induction k with
    | zero => exact ⟨rfl, rfl⟩
    | succ k ih =>
      rw [Function.iterate_succ_apply']
      exact circling_step ih
  exact loop_never_left Host.x86 Set.univ _ 0 1 (by decide)
    (fun k => staysIn_circling (hcircling k)) (by rw [(hcircling 1).1]; rfl) _ (Nat.zero_le _)

end Armator
