import Enml.OsKernel.Translation

/-! `EarlyPageArena` and `EarlyStage1Builder`: where table pages come from, and
the three-level table built out of them in physical memory. -/
namespace Enml.OsKernel

open Enml.Core MachineErrors Descriptor

/-- Physical memory as table walks read it: the 64-bit word at each address. -/
abbrev Memory := UInt64 → UInt64

namespace Memory

/-- The address of `table[i]`. -/
def entryAddress (table : UInt64) (i : Nat) : UInt64 := table + 8 * UInt64.ofNat i

def write (m : Memory) (address value : UInt64) : Memory :=
  fun a => if a = address then value else m a

def zeroRange (m : Memory) (base length : UInt64) : Memory :=
  fun a => if base ≤ a ∧ a - base < length then 0 else m a

def zeroTable (m : Memory) (table : UInt64) : Memory := m.zeroRange table architecturalPageSize

end Memory

def maxDonatedTablePages : Nat := 64

/-- `donated` holds the pages not yet handed out, the next one first. -/
structure EarlyPageArena where
  next : UInt64 := 0
  bumpEnd : UInt64 := 0
  donated : List UInt64 := []

namespace EarlyPageArena

def bumpValid (a : EarlyPageArena) : Bool :=
  pageAligned a.next && pageAligned a.bumpEnd && decide (a.next < a.bumpEnd) &&
    stage1PhysicalAddress a.next && decide (a.bumpEnd - architecturalPageSize ≤ pageAddressMask)

def valid (a : EarlyPageArena) : Bool := a.bumpValid || !a.donated.isEmpty

def donate (a : EarlyPageArena) (physical : UInt64) : EarlyPageArena × Result Unit :=
  if !pageAligned physical || !stage1PhysicalAddress physical || physical == 0 then
    (a, .error (kernelError invalidRange))
  else if a.donated.contains physical then
    (a, .error (kernelError alreadyMapped))
  else if a.bumpValid && decide (a.next ≤ physical) && decide (physical < a.bumpEnd) then
    (a, .error (kernelError alreadyMapped))
  else if maxDonatedTablePages ≤ a.donated.length then
    (a, .error (kernelError exhausted))
  else ({ a with donated := physical :: a.donated }, .ok ())

/-- Donated pages are spent before the bump range. -/
def allocatePage (a : EarlyPageArena) : EarlyPageArena × Result UInt64 :=
  match a.donated with
  | page :: donated => ({ a with donated }, .ok page)
  | [] =>
    if !a.bumpValid || decide (a.bumpEnd - architecturalPageSize < a.next) then
      (a, .error (kernelError exhausted))
    else ({ a with next := a.next + architecturalPageSize }, .ok a.next)

def remainingPages (a : EarlyPageArena) : Nat :=
  (if a.bumpValid then ((a.bumpEnd - a.next) / architecturalPageSize).toNat else 0) +
    a.donated.length

end EarlyPageArena

namespace TranslationRootErrors
def sealed : UInt32 := 100
def notSealed : UInt32 := 101
def retiring : UInt32 := 102
def wrongRegion : UInt32 := 103
def invalidEntry : UInt32 := 104
end TranslationRootErrors

open TranslationRootErrors

inductive Stage1Region where
  | lower | upper
  deriving DecidableEq

/-- The stages of a translation root. -/
inductive Lifecycle where
  | uninitialized | building | sealed | retiring
  deriving DecidableEq

abbrev ArenaId := Nat

/-- The memory tables are built in and the arenas that supply the pages.
Several builders may draw on one arena. -/
structure Physical where
  memory : Memory := fun _ => 0
  arenas : ArenaId → EarlyPageArena := fun _ => {}

/-- The translation tables of one space and the arena they grow from. -/
structure EarlyStage1Builder where
  arena : Option ArenaId := none
  root : UInt64 := 0
  lifecycle : Lifecycle := .uninitialized
  region : Stage1Region := .lower
  deriving DecidableEq

namespace EarlyStage1Builder

def allocateTable (b : EarlyStage1Builder) (p : Physical) : Physical × Result UInt64 :=
  match b.arena with
  | none => (p, .error (kernelError addressSpaceUnbound))
  | some id =>
    match (p.arenas id).allocatePage with
    | (_, .error e) => (p, .error e)
    | (arena, .ok page) =>
      ({ memory := p.memory.zeroTable page, arenas := Function.update p.arenas id arena }, .ok page)

def initializeRoot (b : EarlyStage1Builder) (p : Physical) :
    (EarlyStage1Builder × Physical) × Result UInt64 :=
  if b.arena.all fun id => !(p.arenas id).valid then
    ((b, p), .error (kernelError invalidRange))
  else if b.root ≠ 0 ∨ b.lifecycle ≠ .uninitialized then
    ((b, p), .error (kernelError alreadyMapped))
  else
    match b.allocateTable p with
    | (p, .error e) => ((b, p), .error e)
    | (p, .ok page) => (({ b with root := page, lifecycle := .building }, p), .ok page)

def sealRoot (b : EarlyStage1Builder) : EarlyStage1Builder × Result Unit :=
  if b.lifecycle = .sealed then (b, .error (kernelError sealed))
  else if b.lifecycle = .retiring then (b, .error (kernelError retiring))
  else if b.lifecycle ≠ .building ∨ b.root = 0 then
    (b, .error (kernelError addressSpaceUnbound))
  else ({ b with lifecycle := .sealed }, .ok ())

def beginRetire (b : EarlyStage1Builder) : EarlyStage1Builder × Result Unit :=
  if b.lifecycle = .retiring then (b, .error (kernelError retiring))
  else if b.lifecycle ≠ .sealed then (b, .error (kernelError notSealed))
  else ({ b with lifecycle := .retiring }, .ok ())

def acceptsVirtualAddress (b : EarlyStage1Builder) (va : UInt64) : Bool :=
  match b.region with
  | .lower => stage1VirtualAddress va
  | .upper => kernelStage1VirtualAddress va

def requireBackable (b : EarlyStage1Builder) : Result Unit :=
  match b.lifecycle with
  | .retiring => .error (kernelError retiring)
  | .uninitialized => .error (kernelError addressSpaceUnbound)
  | .building | .sealed => .ok ()

def requireBuilding (b : EarlyStage1Builder) : Result Unit :=
  match b.lifecycle with
  | .sealed => .error (kernelError sealed)
  | .retiring => .error (kernelError retiring)
  | .uninitialized => .error (kernelError addressSpaceUnbound)
  | .building => .ok ()

/-- The checks `install_leaf` and `leaf_pointer` both begin with. -/
def checkAddress (b : EarlyStage1Builder) (va : UInt64) : Result Unit :=
  if b.root = 0 then .error (kernelError addressSpaceUnbound)
  else if !pageAligned va || !b.acceptsVirtualAddress va then
    .error (kernelError alignment)
  else .ok ()

/-- The table a valid entry points to. -/
def nextTable (entry : UInt64) : Result UInt64 :=
  if entry &&& tableOrPage = 0 then
    .error (kernelError mappingLedgerInconsistent)
  else if !stage1PhysicalAddress (entry &&& pageAddressMask) then
    .error (kernelError mappingLedgerInconsistent)
  else .ok (entry &&& pageAddressMask)

/-- One level of the walk that reads only. -/
def walkTable (m : Memory) (address : UInt64) : Result UInt64 :=
  if m address &&& valid = 0 then .error (kernelError notMapped)
  else nextTable (m address)

/-- The address of the leaf of `va`, when the tables above it exist. -/
def leafPointer (b : EarlyStage1Builder) (m : Memory) (va : UInt64) : Result UInt64 := do
  b.checkAddress va
  let l2 ← walkTable m (Memory.entryAddress b.root (level1Index va))
  let l3 ← walkTable m (Memory.entryAddress l2 (level2Index va))
  let leaf := Memory.entryAddress l3 (level3Index va)
  if m leaf &&& valid ≠ 0 ∧ m leaf &&& tableOrPage = 0 then
    .error (kernelError mappingLedgerInconsistent)
  else .ok leaf

def mapped (b : EarlyStage1Builder) (m : Memory) (va : UInt64) : Result Bool :=
  match b.leafPointer m va with
  | .error e => if e.code = notMapped then .ok false else .error e
  | .ok leaf => .ok (m leaf &&& valid != 0)

/-- An entry that is not valid gets a fresh zeroed table. -/
def ensureNextTable (b : EarlyStage1Builder) (p : Physical) (address : UInt64) :
    Physical × Result UInt64 :=
  if p.memory address &&& valid ≠ 0 then (p, nextTable (p.memory address))
  else
    match b.allocateTable p with
    | (p, .error e) => (p, .error e)
    | (p, .ok page) =>
      let entry := page ||| valid ||| tableOrPage
      ({ p with memory := p.memory.write address entry }, .ok page)

def installLeaf (b : EarlyStage1Builder) (p : Physical) (va leaf : UInt64) :
    Physical × Result Unit :=
  match b.checkAddress va with
  | .error e => (p, .error e)
  | .ok () =>
    if leaf = 0 then (p, .error (kernelError invalidRange))
    else
      match b.ensureNextTable p (Memory.entryAddress b.root (level1Index va)) with
      | (p, .error e) => (p, .error e)
      | (p, .ok l2) =>
        match b.ensureNextTable p (Memory.entryAddress l2 (level2Index va)) with
        | (p, .error e) => (p, .error e)
        | (p, .ok l3) =>
          let entry := Memory.entryAddress l3 (level3Index va)
          if p.memory entry &&& valid ≠ 0 then
            (p, .error (kernelError alreadyMapped))
          else ({ p with memory := p.memory.write entry leaf }, .ok ())

def mapPage (b : EarlyStage1Builder) (p : Physical) (va pa : UInt64)
    (permissions : MachinePermissions) (kind : MachineMemoryKind) : Physical × Result Unit :=
  match b.requireBuilding with
  | .error e => (p, .error e)
  | .ok () => b.installLeaf p va (pageDescriptor pa permissions kind)

def mapUserPage (b : EarlyStage1Builder) (p : Physical) (va pa : UInt64)
    (permissions : MachinePermissions) : Physical × Result Unit :=
  match b.requireBuilding with
  | .error e => (p, .error e)
  | .ok () =>
    if b.region ≠ .lower then (p, .error (kernelError wrongRegion))
    else b.installLeaf p va (userPageDescriptor pa permissions)

/-- As `mapUserPage`, but also in a sealed space. -/
def backAbsentUserPage (b : EarlyStage1Builder) (p : Physical) (va pa : UInt64)
    (permissions : MachinePermissions) : Physical × Result Unit :=
  match b.requireBackable with
  | .error e => (p, .error e)
  | .ok () =>
    if b.region ≠ .lower then (p, .error (kernelError wrongRegion))
    else b.installLeaf p va (userPageDescriptor pa permissions)

def unmapPage (b : EarlyStage1Builder) (m : Memory) (va : UInt64) : Memory × Result Unit :=
  if b.lifecycle = .sealed then (m, .error (kernelError sealed))
  else if b.lifecycle ≠ .building ∧ b.lifecycle ≠ .retiring then
    (m, .error (kernelError addressSpaceUnbound))
  else
    match b.leafPointer m va with
    | .error e => (m, .error e)
    | .ok leaf =>
      if m leaf &&& valid = 0 then (m, .error (kernelError notMapped))
      else (m.write leaf 0, .ok ())

def remainingTablePages (b : EarlyStage1Builder) (p : Physical) : Nat :=
  match b.arena with
  | none => 0
  | some id => (p.arenas id).remainingPages

end EarlyStage1Builder

end Enml.OsKernel
