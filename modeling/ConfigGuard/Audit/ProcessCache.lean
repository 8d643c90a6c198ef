import ConfigGuard.Policy.Process
import Mathlib.Data.List.AList

/-!
# The identities recorded at exec

`audit_process.rs`: for each process generation the identity of its last exec,
kept for a limited time and in limited number.
-/

namespace ConfigGuard
open OsPath

/-- What `fstat` says of a pidfd: one value for each process there has ever been. -/
structure ProcessGeneration where
  device : Nat
  inode : Nat
  deriving DecidableEq, Repr

structure CachedIdentity where
  identity : ProcessIdentity
  recordedAt : Nat
  deriving DecidableEq, Repr

/-- Times are counted in the unit of `ttl`. -/
structure AuditProcessCache where
  capacity : Nat
  ttl : Nat
  identities : AList fun _ : ProcessGeneration => CachedIdentity
  insertionOrder : List ProcessGeneration

def isDynamicLoader (identity : ProcessIdentity) : Bool :=
  ((identity.executable.bind Path.fileName).bind toStr).any fun name =>
    (utf8 "ld-linux").isPrefixOf (utf8 name) || (utf8 "ld-musl").isPrefixOf (utf8 name) ||
      name == "ld.so"

namespace AuditProcessCache

def defaultCapacity : Nat := 4096

/-- In seconds. -/
def defaultTtl : Nat := 30

def withLimits (capacity ttl : Nat) : AuditProcessCache where
  capacity := capacity
  ttl := ttl
  identities := ∅
  insertionOrder := []

def remove (c : AuditProcessCache) (generation : ProcessGeneration) : AuditProcessCache where
  capacity := c.capacity
  ttl := c.ttl
  identities := c.identities.erase generation
  insertionOrder := c.insertionOrder.erase generation

/-- The loop of `evict_oldest_if_full` over what is left of the insertion order. -/
def evictLoop (c : AuditProcessCache) : List ProcessGeneration → AuditProcessCache
  | [] => { c with insertionOrder := [] }
  | oldest :: order =>
    if c.capacity ≤ c.identities.keys.length then
      evictLoop { c with identities := c.identities.erase oldest } order
    else { c with insertionOrder := oldest :: order }

def evictOldestIfFull (c : AuditProcessCache) : AuditProcessCache := c.evictLoop c.insertionOrder

def insertAt (c : AuditProcessCache) (generation : ProcessGeneration) (identity : ProcessIdentity)
    (now : Nat) : AuditProcessCache :=
  if c.capacity = 0 then c
  else
    let c := (c.remove generation).evictOldestIfFull
    { c with
      identities := c.identities.insert generation ⟨identity, now⟩
      insertionOrder := c.insertionOrder ++ [generation] }

def getAt (c : AuditProcessCache) (generation : ProcessGeneration) (now : Nat) :
    Option ProcessIdentity × AuditProcessCache :=
  let cached := c.identities.lookup generation
  if cached.any fun cached => c.ttl < now - cached.recordedAt then (none, c.remove generation)
  else (cached.map (·.identity), c)

/-- A dynamic loader does not replace the program it has loaded. -/
def insertExecAt (c : AuditProcessCache) (generation : ProcessGeneration)
    (identity : ProcessIdentity) (now : Nat) : AuditProcessCache :=
  if isDynamicLoader identity then
    let (cached, c) := c.getAt generation now
    if cached.any fun cached => !isDynamicLoader cached then c
    else c.insertAt generation identity now
  else c.insertAt generation identity now

/-- Everything cached meets `P`. -/
def All (P : ProcessGeneration → ProcessIdentity → Prop) (c : AuditProcessCache) : Prop :=
  ∀ generation cached, c.identities.lookup generation = some cached → P generation cached.identity

section

variable {P : ProcessGeneration → ProcessIdentity → Prop} {c : AuditProcessCache}

theorem All.withLimits (capacity ttl : Nat) : All P (.withLimits capacity ttl) := by
  intro generation cached h
  cases h

theorem All.erase (hc : All P c) (generation : ProcessGeneration) (order : List ProcessGeneration) :
    All P { c with identities := c.identities.erase generation, insertionOrder := order } := by
  intro other cached h
  by_cases hother : other = generation
  · subst hother
    rw [AList.lookup_erase] at h
    cases h
  · rw [AList.lookup_erase_ne hother] at h
    exact hc other cached h

theorem All.remove (hc : All P c) (generation : ProcessGeneration) : All P (c.remove generation) :=
  hc.erase generation _

theorem All.evictLoop (hc : All P c) (order : List ProcessGeneration) :
    All P (c.evictLoop order) := by
  induction order generalizing c with
  | nil => exact hc
  | cons oldest order ih =>
    rw [AuditProcessCache.evictLoop]
    split
    · exact ih (hc.erase oldest c.insertionOrder)
    · exact hc

theorem All.insertAt (hc : All P c) {generation : ProcessGeneration} {identity : ProcessIdentity}
    (h : P generation identity) (now : Nat) : All P (c.insertAt generation identity now) := by
  unfold AuditProcessCache.insertAt
  split
  · exact hc
  · intro other cached hlookup
    by_cases hother : other = generation
    · subst hother
      rw [AList.lookup_insert] at hlookup
      rw [← Option.some.inj hlookup]
      exact h
    · rw [AList.lookup_insert_ne hother] at hlookup
      exact (hc.remove generation).evictLoop _ other cached hlookup

theorem All.getAt (hc : All P c) (generation : ProcessGeneration) (now : Nat) :
    All P (c.getAt generation now).2 ∧
      ∀ identity, (c.getAt generation now).1 = some identity → P generation identity := by
  unfold AuditProcessCache.getAt
  dsimp only
  split
  · exact ⟨hc.remove generation, nofun⟩
  · refine ⟨hc, ?_⟩
    intro identity h
    obtain ⟨cached, hcached, rfl⟩ := Option.map_eq_some_iff.mp h
    exact hc generation cached hcached

theorem All.insertExecAt (hc : All P c) {generation : ProcessGeneration}
    {identity : ProcessIdentity} (h : P generation identity) (now : Nat) :
    All P (c.insertExecAt generation identity now) := by
  unfold AuditProcessCache.insertExecAt
  split
  · have hget := (hc.getAt generation now).1
    dsimp only
    split
    · exact hget
    · exact hget.insertAt h now
  · exact hc.insertAt h now

end

end AuditProcessCache

end ConfigGuard
