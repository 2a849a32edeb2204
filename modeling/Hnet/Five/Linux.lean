import Hnet.Memory

/-!
# CPU affinity

`five/linux.cc`: a mask is turned into the CPU set that `sched_setaffinity` gets.
-/

namespace Hnet

/-- `cpu_set_t`, one bit for each of 1024 CPUs. -/
abbrev CpuSet := BitVec 1024

/-- `CPU_SET`. A CPU that the set has no bit for is left out. -/
def CpuSet.set (i : Nat) (cpuset : CpuSet) : CpuSet := cpuset ||| (1#1024 <<< i)

def CpuSet.has (cpuset : CpuSet) (i : Nat) : Bool := cpuset.getLsbD i

def sizeofU64 : Nat := 8

/-- The loop of `set_affinity`. -/
def affinityCpus (mask : UInt64) : CpuSet :=
  (List.range sizeofU64).foldl
    (fun cpuset i =>
      if mask &&& ((1 : UInt64) <<< UInt64.ofNat i) ≠ 0 then cpuset.set i else cpuset) 0

def sizeofCpuSet : Nat := 128

/-- `set_affinity`. The call of the kernel gets a process, the size of the set, and the set. -/
def setAffinity (schedSetaffinity : Int → Nat → CpuSet → Int) (mask : UInt64) : Int :=
  schedSetaffinity 0 sizeofCpuSet (affinityCpus mask)

end Hnet
