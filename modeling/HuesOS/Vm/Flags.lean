import Mathlib

namespace HuesOS.Vm

/-- The codes that calls return. `failStop` is none of them: the call does not return, because its
CPU has stopped on a violation of the lock ranks. -/
inductive ErrorCode
  | failStop
  | badHandle | accessDenied | wrongType | invalidArgs | busy | noMemory | notFound | internal
  deriving DecidableEq

def pageSize : Nat := 4096

def u64Limit : Nat := 2 ^ 64

abbrev Rights := BitVec 32

namespace Rights

def duplicate : Rights := 1#32 <<< 0
def transfer : Rights := 1#32 <<< 1
def read : Rights := 1#32 <<< 2
def write : Rights := 1#32 <<< 3
def execute : Rights := 1#32 <<< 4
def map : Rights := 1#32 <<< 5
def getProperty : Rights := 1#32 <<< 6
def setProperty : Rights := 1#32 <<< 7
def enumerate : Rights := 1#32 <<< 8
def destroy : Rights := 1#32 <<< 9
def sameRights : Rights := 1#32 <<< 31

def all : Rights :=
  duplicate ||| transfer ||| read ||| write ||| execute ||| map ||| getProperty ||| setProperty |||
    enumerate ||| destroy ||| sameRights

def defaultVmo : Rights := read ||| write ||| map ||| duplicate ||| transfer

def Contains (rights required : Rights) : Prop := rights &&& required = required

instance (rights required : Rights) : Decidable (Contains rights required) :=
  inferInstanceAs (Decidable (_ = _))

theorem contains_iff {rights required : Rights} :
    Contains rights required ↔ ∀ i < 32, required.getLsbD i = true → rights.getLsbD i = true := by
  constructor
  · intro all i _ wanted
    have bit := congrArg (·.getLsbD i) all
    simp only [BitVec.getLsbD_and, wanted, Bool.and_true] at bit
    exact bit
  intro bits
  refine BitVec.eq_of_getLsbD_eq fun i bound => ?_
  rw [BitVec.getLsbD_and]
  cases wanted : required.getLsbD i with
  | false => rw [Bool.and_false]
  | true => rw [bits i bound wanted, Bool.and_true]

theorem contains_or {rights one other : Rights} :
    Contains rights (one ||| other) ↔ Contains rights one ∧ Contains rights other := by
  simp only [contains_iff, BitVec.getLsbD_or, Bool.or_eq_true]
  exact ⟨fun both => ⟨fun i bound wanted => both i bound (.inl wanted),
      fun i bound wanted => both i bound (.inr wanted)⟩,
    fun ⟨first, second⟩ i bound wanted => wanted.elim (first i bound) (second i bound)⟩

end Rights

open Rights

abbrev VmarFlags := BitVec 32

namespace VmarFlags

def read : VmarFlags := 1#32 <<< 0
def write : VmarFlags := 1#32 <<< 1
def execute : VmarFlags := 1#32 <<< 2
def user : VmarFlags := 1#32 <<< 3
def specific : VmarFlags := 1#32 <<< 4

def all : VmarFlags := read ||| write ||| execute ||| user ||| specific

def has (flags bits : VmarFlags) : Bool := flags &&& bits != 0#32

end VmarFlags

def mappingRequired (flags : VmarFlags) : Rights :=
  let required := map
  let required := if flags.has .read then required ||| .read else required
  let required := if flags.has .write then required ||| .write else required
  if flags.has .execute then required ||| .execute else required

theorem contains_of_mappingRequired {rights : Rights} {flags : VmarFlags}
    (granted : rights.Contains (mappingRequired flags)) :
    (flags.has .write = true → rights.Contains .write) ∧
      (flags.has .execute = true → rights.Contains .execute) := by
  simp only [mappingRequired] at granted
  constructor
  · intro writes
    simp only [writes, if_true] at granted
    split at granted
    · exact (contains_or.mp (contains_or.mp granted).1).2
    · exact (contains_or.mp granted).2
  intro executes
  rw [if_pos executes] at granted
  exact (contains_or.mp granted).2

structure PageTableFlags where
  present : Bool
  writable : Bool
  userAccessible : Bool
  noCache : Bool
  noExecute : Bool
  deriving DecidableEq

inductive ResourceKind
  | ioPort | mmio | irq | powerControl | dmaPool | frameDraw | systemControl | volumeKey
  deriving DecidableEq

def pageFlagsFromVmarFlags (flags : VmarFlags) : PageTableFlags where
  present := true
  writable := flags.has .write
  userAccessible := flags.has .user
  noCache := false
  noExecute := !flags.has .execute

/-- Device memory is mapped without caching. -/
def resourcePageFlags (kind : ResourceKind) (flags : VmarFlags) : PageTableFlags :=
  { pageFlagsFromVmarFlags flags with noCache := decide (kind = .mmio) }

end HuesOS.Vm
