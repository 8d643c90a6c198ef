import ConfigGuard.Audit.IdentityCache
import ConfigGuard.Library.KeyedFifo

/-!
# The identity cache as one bounded queue

The map of queues, the insertion order and the counter of `audit_identity.rs`
are one list of keyed identities in order of arrival.
-/

namespace ConfigGuard
open KeyedFifo

variable {ι : Type}

abbrev IdentityFifo (ι : Type) := List (AuditIdentityKey × ι)

namespace IdentityFifo

def insert (startTime : ι → Option Nat) (capacity : Nat) (l : IdentityFifo ι)
    (key : AuditIdentityKey) (identity : ι) : IdentityFifo ι :=
  if capacity = 0 then l
  else
    let newest := (values key l).getLast?
    let kept :=
      if newest.any fun cached => startTime cached ≠ startTime identity then dropKey key l else l
    trim capacity kept ++ [(key, identity)]

def take (l : IdentityFifo ι) (key : AuditIdentityKey) : Option ι × IdentityFifo ι :=
  ((l.find? fun e => e.1 = key).map (·.2), eraseFirst key l)

end IdentityFifo

inductive AuditIdentityCall (ι : Type) where
  | insert (pid : Int) (object : AuditObjectId) (identity : ι)
  | take (pid : Int) (object : AuditObjectId)
  | invalidate (pid : Int) (object : AuditObjectId)

namespace AuditIdentityCache

/-- One call; only `take` returns anything. -/
def perform (startTime : ι → Option Nat) (c : AuditIdentityCache ι) :
    AuditIdentityCall ι → Option ι × AuditIdentityCache ι
  | .insert pid object identity => (none, c.insert startTime pid object identity)
  | .take pid object => c.take pid object
  | .invalidate pid object => (none, c.invalidate pid object)

def performAll (startTime : ι → Option Nat) (c : AuditIdentityCache ι) :
    List (AuditIdentityCall ι) → List (Option ι) × AuditIdentityCache ι
  | [] => ([], c)
  | call :: calls =>
    let (result, c) := c.perform startTime call
    let (results, c) := c.performAll startTime calls
    (result :: results, c)

end AuditIdentityCache

namespace IdentityFifo

def perform (startTime : ι → Option Nat) (capacity : Nat) (l : IdentityFifo ι) :
    AuditIdentityCall ι → Option ι × IdentityFifo ι
  | .insert pid object identity => (none, l.insert startTime capacity ⟨pid, object⟩ identity)
  | .take pid object => l.take ⟨pid, object⟩
  | .invalidate pid object => (none, dropKey ⟨pid, object⟩ l)

def performAll (startTime : ι → Option Nat) (capacity : Nat) (l : IdentityFifo ι) :
    List (AuditIdentityCall ι) → List (Option ι) × IdentityFifo ι
  | [] => ([], l)
  | call :: calls =>
    let (result, l) := l.perform startTime capacity call
    let (results, l) := performAll startTime capacity l calls
    (result :: results, l)

end IdentityFifo

def checkedSub (a b : Nat) : Option Nat := if b ≤ a then some (a - b) else none

theorem checkedSub_of_le {a b : Nat} (h : b ≤ a) : checkedSub a b = some (a - b) := if_pos h

namespace AuditIdentityCache

/-! The operations again, with `none` where a subtraction from `entry_count` underflows. -/

def invalidateKeyChecked (c : AuditIdentityCache ι) (key : AuditIdentityKey) :
    Option (AuditIdentityCache ι) :=
  (checkedSub c.entryCount (c.queue key).length).map fun count =>
    { c.invalidateKey key with entryCount := count }

def popFrontChecked (c : AuditIdentityCache ι) (key : AuditIdentityKey) :
    Option (AuditIdentityCache ι) :=
  match c.identities.lookup key with
  | none => some c
  | some identities =>
    (checkedSub c.entryCount (identities.take 1).length).map fun count =>
      { c.popFront key with entryCount := count }

def evictLoopChecked (c : AuditIdentityCache ι) :
    List AuditIdentityKey → Option (AuditIdentityCache ι)
  | [] => some { c with insertionOrder := [] }
  | oldest :: order =>
    if c.capacity ≤ c.entryCount then
      (c.popFrontChecked oldest).bind fun c => c.evictLoopChecked order
    else some { c with insertionOrder := oldest :: order }

def performChecked (startTime : ι → Option Nat) (c : AuditIdentityCache ι) :
    AuditIdentityCall ι → Option (Option ι × AuditIdentityCache ι)
  | .insert pid object identity =>
    if c.capacity = 0 then some (none, c)
    else
      let key : AuditIdentityKey := ⟨pid, object⟩
      let kept :=
        if c.generationChanged startTime key identity then c.invalidateKeyChecked key else some c
      (kept.bind fun c => c.evictLoopChecked c.insertionOrder).map fun c =>
        (none, c.pushBack key identity)
  | .take pid object =>
    match c.queue ⟨pid, object⟩ with
    | [] => some (none, c)
    | identity :: _ =>
      (c.popFrontChecked ⟨pid, object⟩).map fun popped =>
        (some identity, { popped with insertionOrder := c.insertionOrder.erase ⟨pid, object⟩ })
  | .invalidate pid object => (c.invalidateKeyChecked ⟨pid, object⟩).map fun c => (none, c)

end AuditIdentityCache

namespace AuditIdentityCache

/-- The map and the counter hold the entries of the queue, and no empty queue is stored. -/
structure Stores (c : AuditIdentityCache ι) (l : IdentityFifo ι) : Prop where
  queue : ∀ key, c.queue key = values key l
  noEmpty : ∀ key, c.identities.lookup key ≠ some []
  count : c.entryCount = l.length

/-- All three structures of the cache tell the same queue. -/
structure Refines (c : AuditIdentityCache ι) (l : IdentityFifo ι) : Prop extends Stores c l where
  order : c.insertionOrder = l.map (·.1)

theorem refines_withCapacity (capacity : Nat) :
    (withCapacity capacity : AuditIdentityCache ι).Refines [] where
  queue _ := rfl
  noEmpty _ h := by cases h
  order := rfl
  count := rfl

section Operations

variable {c : AuditIdentityCache ι} {l : IdentityFifo ι} {key : AuditIdentityKey}

theorem noEmpty_invalidateKey (h : ∀ k, c.identities.lookup k ≠ some []) (k : AuditIdentityKey) :
    (c.invalidateKey key).identities.lookup k ≠ some [] := by
  intro hlookup
  exact h k (AssocList.lookup_erase_eq_some.mp hlookup).2

theorem noEmpty_popFront (h : ∀ k, c.identities.lookup k ≠ some []) (k : AuditIdentityKey) :
    (c.popFront key).identities.lookup k ≠ some [] := by
  intro hlookup
  rw [popFront] at hlookup
  split at hlookup
  · exact h k hlookup
  · rename_i identities _
    dsimp only at hlookup
    split at hlookup
    · exact h k (AssocList.lookup_erase_eq_some.mp hlookup).2
    · rename_i htail
      obtain ⟨-, hnil⟩ | ⟨-, hother⟩ := AssocList.lookup_insert_eq_some.mp hlookup
      · rw [← hnil] at htail
        exact htail rfl
      · exact h k hother

theorem noEmpty_pushBack (h : ∀ k, c.identities.lookup k ≠ some []) (identity : ι)
    (k : AuditIdentityKey) : (c.pushBack key identity).identities.lookup k ≠ some [] := by
  intro hlookup
  obtain ⟨-, hnil⟩ | ⟨-, hother⟩ := AssocList.lookup_insert_eq_some.mp hlookup
  · exact absurd hnil.symm (List.append_ne_nil_of_right_ne_nil _ (List.cons_ne_nil _ _))
  · exact h k hother

theorem entryCount_popFront (hempty : ∀ k, c.identities.lookup k ≠ some [])
    (h : c.queue key ≠ []) : (c.popFront key).entryCount = c.entryCount - 1 := by
  rw [queue] at h
  rw [popFront]
  cases hlookup : c.identities.lookup key with
  | none => exact absurd (by rw [hlookup]; rfl) h
  | some identities =>
    cases identities with
    | nil => exact absurd hlookup (hempty key)
    | cons identity rest => rfl

theorem Refines.invalidateKey (h : c.Refines l) : (c.invalidateKey key).Refines (dropKey key l) where
  queue other := by rw [queue_invalidateKey, values_dropKey, h.queue]
  noEmpty := noEmpty_invalidateKey h.noEmpty
  order := by
    rw [keys_dropKey, ← h.order]
    rfl
  count := by
    have hlength := length_dropKey key l
    show c.entryCount - (c.queue key).length = _
    rw [h.count, h.queue]
    omega

/-- The front of the queue leaves the queue of its key. -/
theorem Stores.popFront {identity : ι} (h : c.Stores ((key, identity) :: l)) :
    (c.popFront key).Stores l where
  queue other := by
    rw [queue_popFront, h.queue, h.queue, values_cons, values_cons]
    by_cases hother : other = key
    · simp [hother]
    · simp [hother, Ne.symm hother]
  noEmpty := noEmpty_popFront h.noEmpty
  count := by
    have hqueue : c.queue key ≠ [] := by
      rw [h.queue, values_cons, if_pos rfl]
      exact List.cons_ne_nil _ _
    rw [entryCount_popFront h.noEmpty hqueue, h.count]
    rfl

theorem Stores.evictLoop (h : c.Stores l) :
    (c.evictLoop (l.map (·.1))).Refines (trim c.capacity l) := by
  induction l generalizing c with
  | nil => exact ⟨⟨h.queue, h.noEmpty, h.count⟩, rfl⟩
  | cons e l ih =>
    obtain ⟨key, identity⟩ := e
    rw [List.map_cons, AuditIdentityCache.evictLoop, trim, ← h.count]
    split
    · have hrest := ih h.popFront
      rwa [capacity_popFront] at hrest
    · exact ⟨⟨h.queue, h.noEmpty, h.count⟩, rfl⟩

theorem Refines.evictOldestIfFull (h : c.Refines l) :
    c.evictOldestIfFull.Refines (trim c.capacity l) := by
  rw [AuditIdentityCache.evictOldestIfFull, h.order]
  exact h.toStores.evictLoop

theorem Refines.pushBack (h : c.Refines l) (identity : ι) :
    (c.pushBack key identity).Refines (l ++ [(key, identity)]) where
  queue other := by
    rw [queue_pushBack, values_append, values_cons, values_nil, h.queue, h.queue]
    by_cases hother : other = key
    · simp [hother]
    · simp [hother, Ne.symm hother]
  noEmpty := noEmpty_pushBack h.noEmpty identity
  order := by
    rw [List.map_append, ← h.order]
    rfl
  count := by
    show c.entryCount + 1 = _
    rw [h.count, List.length_append, List.length_singleton]

theorem Refines.insert (h : c.Refines l) (startTime : ι → Option Nat) (pid : Int)
    (object : AuditObjectId) (identity : ι) :
    (c.insert startTime pid object identity).Refines
      (l.insert startTime c.capacity ⟨pid, object⟩ identity) := by
  rw [AuditIdentityCache.insert, IdentityFifo.insert]
  split
  · exact h
  · have hchanged : c.generationChanged startTime ⟨pid, object⟩ identity =
        (values ⟨pid, object⟩ l).getLast?.any fun cached =>
          startTime cached ≠ startTime identity := by
      rw [generationChanged, h.queue]
    dsimp only
    rw [hchanged]
    split
    · exact (h.invalidateKey.evictOldestIfFull).pushBack identity
    · exact h.evictOldestIfFull.pushBack identity

theorem Refines.take (h : c.Refines l) (pid : Int) (object : AuditObjectId) :
    (c.take pid object).1 = (l.take ⟨pid, object⟩).1 ∧
      (c.take pid object).2.Refines (l.take ⟨pid, object⟩).2 := by
  rw [AuditIdentityCache.take, IdentityFifo.take]
  dsimp only
  rw [← head?_values, ← h.queue]
  cases hqueue : c.queue ⟨pid, object⟩ with
  | nil =>
    refine ⟨rfl, ?_⟩
    rw [h.queue] at hqueue
    rwa [eraseFirst_of_values_eq_nil hqueue]
  | cons identity rest =>
    have hne : c.queue ⟨pid, object⟩ ≠ [] := by
      rw [hqueue]
      exact List.cons_ne_nil _ _
    refine ⟨rfl, ⟨?_, ?_, ?_⟩, ?_⟩
    · intro other
      rw [queue_insertionOrder, queue_popFront, values_eraseFirst, h.queue, h.queue]
      by_cases hother : other = ⟨pid, object⟩
      · simp [hother]
      · simp [hother]
    · exact noEmpty_popFront h.noEmpty
    · show (c.popFront _).entryCount = _
      have hlength := length_eraseFirst ⟨pid, object⟩ l (h.queue _ ▸ hne)
      rw [entryCount_popFront h.noEmpty hne, h.count]
      omega
    · show c.insertionOrder.erase _ = _
      rw [keys_eraseFirst, h.order]

theorem Refines.perform (h : c.Refines l) (startTime : ι → Option Nat)
    (call : AuditIdentityCall ι) :
    (c.perform startTime call).1 = (l.perform startTime c.capacity call).1 ∧
      (c.perform startTime call).2.Refines (l.perform startTime c.capacity call).2 := by
  cases call with
  | insert pid object identity => exact ⟨rfl, h.insert startTime pid object identity⟩
  | take pid object => exact h.take pid object
  | invalidate pid object => exact ⟨rfl, h.invalidateKey⟩

theorem Stores.invalidateKeyChecked (h : c.Stores l) (key : AuditIdentityKey) :
    c.invalidateKeyChecked key = some (c.invalidateKey key) := by
  have hlength := length_dropKey key l
  rw [AuditIdentityCache.invalidateKeyChecked, checkedSub_of_le]
  · rfl
  · rw [h.queue, h.count]
    omega

theorem Stores.popFrontChecked (h : c.Stores l) (key : AuditIdentityKey) :
    c.popFrontChecked key = some (c.popFront key) := by
  have hlength := length_dropKey key l
  rw [AuditIdentityCache.popFrontChecked]
  cases hlookup : c.identities.lookup key with
  | none => rw [AuditIdentityCache.popFront, hlookup]
  | some identities =>
    have hqueue : values key l = identities := by
      rw [← h.queue, AuditIdentityCache.queue, hlookup]
      rfl
    rw [AuditIdentityCache.popFront, hlookup]
    dsimp only
    rw [checkedSub_of_le]
    · rfl
    · rw [h.count, List.length_take]
      rw [hqueue] at hlength
      omega

theorem Stores.evictLoopChecked (h : c.Stores l) :
    c.evictLoopChecked (l.map (·.1)) = some (c.evictLoop (l.map (·.1))) := by
  induction l generalizing c with
  | nil => rfl
  | cons e l ih =>
    obtain ⟨key, identity⟩ := e
    rw [List.map_cons, AuditIdentityCache.evictLoopChecked, AuditIdentityCache.evictLoop]
    split
    · rw [h.popFrontChecked, Option.bind_some, ih h.popFront]
    · rfl

theorem Refines.evictChecked (h : c.Refines l) :
    c.evictLoopChecked c.insertionOrder = some c.evictOldestIfFull := by
  rw [AuditIdentityCache.evictOldestIfFull, h.order]
  exact h.toStores.evictLoopChecked

theorem Refines.performChecked (h : c.Refines l) (startTime : ι → Option Nat)
    (call : AuditIdentityCall ι) :
    c.performChecked startTime call = some (c.perform startTime call) := by
  cases call with
  | insert pid object identity =>
    rw [AuditIdentityCache.performChecked, AuditIdentityCache.perform, AuditIdentityCache.insert]
    split
    · rfl
    · dsimp only
      split
      · rw [h.invalidateKeyChecked, Option.bind_some, h.invalidateKey.evictChecked]
        rfl
      · rw [Option.bind_some, h.evictChecked]
        rfl
  | take pid object =>
    rw [AuditIdentityCache.performChecked, AuditIdentityCache.perform, AuditIdentityCache.take]
    dsimp only
    cases c.queue ⟨pid, object⟩ with
    | nil => rfl
    | cons identity rest =>
      dsimp only
      rw [h.popFrontChecked]
      rfl
  | invalidate pid object =>
    rw [AuditIdentityCache.performChecked, AuditIdentityCache.perform, h.invalidateKeyChecked]
    rfl

end Operations

theorem capacity_perform (startTime : ι → Option Nat) (c : AuditIdentityCache ι)
    (call : AuditIdentityCall ι) : (c.perform startTime call).2.capacity = c.capacity := by
  cases call with
  | insert pid object identity => exact capacity_insert c startTime pid object identity
  | take pid object => exact capacity_take c pid object
  | invalidate pid object => rfl

theorem capacity_performAll (startTime : ι → Option Nat) (c : AuditIdentityCache ι)
    (calls : List (AuditIdentityCall ι)) :
    (c.performAll startTime calls).2.capacity = c.capacity := by
  induction calls generalizing c with
  | nil => rfl
  | cons call calls ih => exact (ih _).trans (capacity_perform startTime c call)

theorem OneStartTime.perform {startTime : ι → Option Nat} {c : AuditIdentityCache ι}
    (h : c.OneStartTime startTime) (call : AuditIdentityCall ι) :
    (c.perform startTime call).2.OneStartTime startTime := by
  cases call with
  | insert pid object identity => exact h.insert
  | take pid object => exact h.of_subset fun key => fun _ => mem_queue_take
  | invalidate pid object => exact h.of_subset fun key => fun _ hmem => (mem_queue_invalidate hmem).1

end AuditIdentityCache

theorem IdentityFifo.length_perform_le {startTime : ι → Option Nat} {capacity : Nat}
    {l : IdentityFifo ι} (h : l.length ≤ capacity) (call : AuditIdentityCall ι) :
    (l.perform startTime capacity call).2.length ≤ capacity := by
  cases call with
  | insert pid object identity =>
    rw [IdentityFifo.perform, IdentityFifo.insert]
    split
    · exact h
    · rename_i hzero
      rw [List.length_append, List.length_singleton]
      exact length_trim_lt (Nat.pos_of_ne_zero hzero) _
  | take pid object => exact le_trans List.eraseP_sublist.length_le h
  | invalidate pid object => exact le_trans (List.length_filter_le _ _) h

namespace AuditIdentityCache

/-- What every reachable state of the cache satisfies, beside the refinement. -/
structure Sound (startTime : ι → Option Nat) (c : AuditIdentityCache ι) (l : IdentityFifo ι) :
    Prop extends Refines c l where
  bounded : l.length ≤ c.capacity
  oneStartTime : c.OneStartTime startTime

theorem Sound.perform {startTime : ι → Option Nat} {c : AuditIdentityCache ι}
    {l : IdentityFifo ι} (h : c.Sound startTime l) (call : AuditIdentityCall ι) :
    (c.perform startTime call).2.Sound startTime (l.perform startTime c.capacity call).2 where
  toRefines := (h.toRefines.perform startTime call).2
  bounded := by
    rw [capacity_perform]
    exact IdentityFifo.length_perform_le h.bounded call
  oneStartTime := h.oneStartTime.perform call

theorem Sound.performAll {startTime : ι → Option Nat} {c : AuditIdentityCache ι}
    {l : IdentityFifo ι} (h : c.Sound startTime l) (calls : List (AuditIdentityCall ι)) :
    (c.performAll startTime calls).1 = (l.performAll startTime c.capacity calls).1 ∧
      (c.performAll startTime calls).2.Sound startTime
        (l.performAll startTime c.capacity calls).2 := by
  induction calls generalizing c l with
  | nil => exact ⟨rfl, h⟩
  | cons call calls ih =>
    have hresult := (h.toRefines.perform startTime call).1
    have hrest := ih (h.perform call)
    rw [capacity_perform] at hrest
    rw [AuditIdentityCache.performAll, IdentityFifo.performAll]
    exact ⟨congrArg₂ List.cons hresult hrest.1, hrest.2⟩

/-- The cache is one bounded queue: every run of calls gives the results of the
queue, and in the state it ends in the map, the order and the counter are the
queue's, within the capacity; eviction ends below the capacity and the next
call subtracts no more than there is. -/
theorem performAll_refines_fifo (startTime : ι → Option Nat) (capacity : Nat)
    (calls : List (AuditIdentityCall ι)) :
    let (results, c) := (withCapacity capacity).performAll startTime calls
    let (results', l) := IdentityFifo.performAll startTime capacity [] calls
    results = results' ∧
      (∀ key, c.queue key = values key l) ∧
      c.insertionOrder = l.map (·.1) ∧
      c.entryCount = l.length ∧ c.entryCount = c.insertionOrder.length ∧
      c.entryCount ≤ capacity ∧
      (∀ key, c.identities.lookup key ≠ some []) ∧
      (∀ key, ∀ a ∈ c.queue key, ∀ b ∈ c.queue key, startTime a = startTime b) ∧
      (0 < capacity → c.evictOldestIfFull.entryCount < capacity) ∧
      ∀ call, c.performChecked startTime call = some (c.perform startTime call) := by
  have hempty : (withCapacity capacity : AuditIdentityCache ι).Sound startTime [] :=
    { toRefines := refines_withCapacity capacity
      bounded := Nat.zero_le _
      oneStartTime := fun _ _ h => absurd h List.not_mem_nil }
  obtain ⟨hresults, hsound⟩ := hempty.performAll calls
  have hcapacity := capacity_performAll startTime (withCapacity capacity) calls
  refine ⟨hresults, hsound.queue, hsound.order, hsound.count, ?_, ?_, hsound.noEmpty,
    hsound.oneStartTime, ?_, hsound.toRefines.performChecked startTime⟩
  · rw [hsound.count, hsound.order, List.length_map]
  · rw [hsound.count]
    exact le_of_le_of_eq hsound.bounded hcapacity
  · intro hpos
    rw [hsound.evictOldestIfFull.count, hcapacity]
    exact length_trim_lt hpos _

end AuditIdentityCache

end ConfigGuard
