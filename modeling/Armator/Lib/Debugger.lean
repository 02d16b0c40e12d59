import Armator.Lib.Machine

/-!
# A machine under a debugger

A debugger gives commands to a machine that has stopped: it reads and writes registers and bytes of
the memory, asks why the machine has stopped, and lets it make one step or run up to a word that stops
it.
`Performs` is what a command does, `PerformsAll` what a list of them does one after the other.
-/

namespace Arm

inductive Command where
  | reason
  | registers
  | writeRegisters (v : BitVec 4 → BitVec 32)
  | register (r : BitVec 4)
  | writeRegister (r : BitVec 4) (x : BitVec 32)
  | readMemory (a : BitVec 32) (n : Nat)
  | writeMemory (a : BitVec 32) (d : List (BitVec 8))
  | step
  | cont

inductive Reply where
  | registers (v : BitVec 4 → BitVec 32)
  | register (x : BitVec 32)
  | bytes (d : List (BitVec 8))
  | ok
  | stopped

namespace Machine

section
variable (m : Machine)

/-- The bytes from an address on. -/
def peek (a : BitVec 32) (n : Nat) : List (BitVec 8) := (ByteStore.span a n).map m.mem

def poke (a : BitVec 32) (d : List (BitVec 8)) : Machine :=
  { m with mem := LastWrite.writeAll m.mem ((ByteStore.span a d.length).zip d) }

end

section
variable (be : Bool) (stops : BitVec 32 → Prop)

/-- The machine comes to a word that stops it after `n` steps, and to none before. -/
structure RunsUpTo (m : Machine) (n : Nat) (m' : Machine) : Prop where
  run : m.run be n = some m'
  stop : stops (m'.fetch be)
  first : ∀ k < n, ∀ c ∈ m.run be k, ¬ stops (c.fetch be)

theorem RunsUpTo.unique {be : Bool} {stops : BitVec 32 → Prop} {m m' m'' : Machine} {n n' : Nat}
    (hruns : RunsUpTo be stops m n m') (hruns' : RunsUpTo be stops m n' m'') :
    n = n' ∧ m' = m'' := by
  rcases Nat.lt_trichotomy n n' with hlt | rfl | hgt
  · exact absurd hruns.stop (hruns'.first n hlt m' hruns.run)
  · exact ⟨rfl, Option.some.inj (hruns.run.symm.trans hruns'.run)⟩
  · exact absurd hruns'.stop (hruns.first n' hgt m'' hruns'.run)

inductive Performs : Machine → Command → Machine → Reply → Prop where
  | reason (m : Machine) : Performs m .reason m .stopped
  | registers (m : Machine) : Performs m .registers m (.registers m.reg)
  | writeRegisters (m : Machine) (v : BitVec 4 → BitVec 32) :
    Performs m (.writeRegisters v) { m with reg := v } .ok
  | register (m : Machine) (r : BitVec 4) : Performs m (.register r) m (.register (m.reg r))
  | writeRegister (m : Machine) (r : BitVec 4) (x : BitVec 32) :
    Performs m (.writeRegister r x) (m.setReg r x) .ok
  | readMemory (m : Machine) (a : BitVec 32) (n : Nat) :
    Performs m (.readMemory a n) m (.bytes (m.peek a n))
  | writeMemory (m : Machine) (a : BitVec 32) (d : List (BitVec 8)) :
    Performs m (.writeMemory a d) (m.poke a d) .ok
  | step {m m' : Machine} (hstep : m.step be = some m') : Performs m .step m' .stopped
  | cont {m m' : Machine} {n : Nat} (hruns : RunsUpTo be stops m n m') :
    Performs m .cont m' .stopped

/-- The commands one after the other, each in a state where it may be given. -/
inductive PerformsAll (may : Machine → Command → Prop) :
    Machine → List Command → Machine → List Reply → Prop where
  | nil (m : Machine) : PerformsAll may m [] m []
  | cons {m m' m'' : Machine} {command : Command} {commands : List Command} {reply : Reply}
    {replies : List Reply} (hmay : may m command)
    (hperforms : Performs be stops m command m' reply)
    (hrest : PerformsAll may m' commands m'' replies) :
    PerformsAll may m (command :: commands) m'' (reply :: replies)

end

end Machine

end Arm
