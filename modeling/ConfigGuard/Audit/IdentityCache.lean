import Mathlib.Data.List.AList

/-!
# The identities recorded at open

`audit_identity.rs`: for each process id and file object a queue of the
identities recorded at open events, bounded over all queues together. The cache
reads nothing of an identity but its start time.
-/

namespace ConfigGuard

structure AuditObjectId where
  device : Nat
  inode : Nat
  deriving DecidableEq, Repr

structure AuditIdentityKey where
  pid : Int
  object : AuditObjectId
  deriving DecidableEq, Repr

structure AuditIdentityCache (ι : Type) where
  capacity : Nat
  entryCount : Nat
  identities : AList fun _ : AuditIdentityKey => List ι
  insertionOrder : List AuditIdentityKey

namespace AuditIdentityCache

variable {ι : Type}

def defaultCapacity : Nat := 8192

def withCapacity (capacity : Nat) : AuditIdentityCache ι where
  capacity := capacity
  entryCount := 0
  identities := ∅
  insertionOrder := []

/-- The identities waiting under a key, oldest first. -/
def queue (c : AuditIdentityCache ι) (key : AuditIdentityKey) : List ι :=
  (c.identities.lookup key).getD []

def invalidateKey (c : AuditIdentityCache ι) (key : AuditIdentityKey) : AuditIdentityCache ι where
  capacity := c.capacity
  entryCount := c.entryCount - (c.queue key).length
  identities := c.identities.erase key
  insertionOrder := c.insertionOrder.filter fun queued => queued ≠ key

def invalidate (c : AuditIdentityCache ι) (pid : Int) (object : AuditObjectId) :
    AuditIdentityCache ι :=
  c.invalidateKey ⟨pid, object⟩

/-- The first identity of a queue is dropped, and the queue with its last one. -/
def popFront (c : AuditIdentityCache ι) (key : AuditIdentityKey) : AuditIdentityCache ι :=
  match c.identities.lookup key with
  | none => c
  | some identities =>
    { c with
      entryCount := c.entryCount - (identities.take 1).length
      identities :=
        if identities.tail.isEmpty then c.identities.erase key
        else c.identities.insert key identities.tail }

/-- The loop of `evict_oldest_if_full` over what is left of the insertion order. -/
def evictLoop (c : AuditIdentityCache ι) : List AuditIdentityKey → AuditIdentityCache ι
  | [] => { c with insertionOrder := [] }
  | oldest :: order =>
    if c.capacity ≤ c.entryCount then (c.popFront oldest).evictLoop order
    else { c with insertionOrder := oldest :: order }

def evictOldestIfFull (c : AuditIdentityCache ι) : AuditIdentityCache ι :=
  c.evictLoop c.insertionOrder

/-- The newest identity under the key has another start time. -/
def generationChanged (startTime : ι → Option Nat) (c : AuditIdentityCache ι)
    (key : AuditIdentityKey) (identity : ι) : Bool :=
  (c.queue key).getLast?.any fun cached => startTime cached ≠ startTime identity

def pushBack (c : AuditIdentityCache ι) (key : AuditIdentityKey) (identity : ι) :
    AuditIdentityCache ι where
  capacity := c.capacity
  entryCount := c.entryCount + 1
  identities := c.identities.insert key (c.queue key ++ [identity])
  insertionOrder := c.insertionOrder ++ [key]

def insert (startTime : ι → Option Nat) (c : AuditIdentityCache ι) (pid : Int)
    (object : AuditObjectId) (identity : ι) : AuditIdentityCache ι :=
  if c.capacity = 0 then c
  else
    let key : AuditIdentityKey := ⟨pid, object⟩
    let c := if c.generationChanged startTime key identity then c.invalidateKey key else c
    c.evictOldestIfFull.pushBack key identity

/-- The oldest identity under the key, and the cache without it. -/
def take (c : AuditIdentityCache ι) (pid : Int) (object : AuditObjectId) :
    Option ι × AuditIdentityCache ι :=
  let key : AuditIdentityKey := ⟨pid, object⟩
  match c.queue key with
  | [] => (none, c)
  | identity :: _ =>
    (some identity, { c.popFront key with insertionOrder := c.insertionOrder.erase key })

section

variable (c : AuditIdentityCache ι) (key other : AuditIdentityKey)

@[simp] theorem queue_insertionOrder (order : List AuditIdentityKey) :
    { c with insertionOrder := order }.queue key = c.queue key := rfl

@[simp] theorem queue_invalidateKey :
    (c.invalidateKey key).queue other = if other = key then [] else c.queue other := by
  unfold invalidateKey queue
  by_cases h : other = key
  · subst h
    simp
  · simp [AList.lookup_erase_ne h, h]

@[simp] theorem queue_popFront :
    (c.popFront key).queue other = if other = key then (c.queue key).tail else c.queue other := by
  unfold popFront queue
  cases hlookup : c.identities.lookup key with
  | none =>
    by_cases h : other = key
    · subst h
      simp [hlookup]
    · simp [h]
  | some identities =>
    by_cases h : other = key
    · subst h
      cases htail : identities.tail with
      | nil => simp [htail]
      | cons identity rest => simp [htail]
    · cases htail : identities.tail with
      | nil => simp [htail, h, AList.lookup_erase_ne h]
      | cons identity rest => simp [htail, h, AList.lookup_insert_ne h]

@[simp] theorem queue_pushBack (identity : ι) :
    (c.pushBack key identity).queue other =
      if other = key then c.queue key ++ [identity] else c.queue other := by
  unfold pushBack queue
  by_cases h : other = key
  · subst h
    simp
  · simp [AList.lookup_insert_ne h, h]

@[simp] theorem capacity_popFront : (c.popFront key).capacity = c.capacity := by
  unfold popFront
  split <;> rfl

@[simp] theorem capacity_evictLoop (order : List AuditIdentityKey) :
    (c.evictLoop order).capacity = c.capacity := by
  induction order generalizing c with
  | nil => rfl
  | cons oldest order ih =>
    rw [evictLoop]
    split
    · rw [ih, capacity_popFront]
    · rfl

@[simp] theorem capacity_insert (startTime : ι → Option Nat) (pid : Int) (object : AuditObjectId)
    (identity : ι) : (c.insert startTime pid object identity).capacity = c.capacity := by
  unfold insert
  split
  · rfl
  · dsimp only [pushBack, evictOldestIfFull]
    rw [capacity_evictLoop]
    split <;> rfl

@[simp] theorem capacity_take (pid : Int) (object : AuditObjectId) :
    (c.take pid object).2.capacity = c.capacity := by
  unfold take
  dsimp only
  split
  · rfl
  · exact capacity_popFront c _

/-- Eviction drops identities from the front of their queues. -/
theorem queue_evictLoop (order : List AuditIdentityKey) :
    (c.evictLoop order).queue other <:+ c.queue other := by
  induction order generalizing c with
  | nil => exact List.suffix_rfl
  | cons oldest order ih =>
    rw [evictLoop]
    split
    · refine (ih (c.popFront oldest)).trans ?_
      rw [queue_popFront]
      split
      · rename_i h
        rw [h]
        exact List.tail_suffix _
      · exact List.suffix_rfl
    · exact List.suffix_rfl

theorem queue_evictOldestIfFull : c.evictOldestIfFull.queue other <:+ c.queue other :=
  queue_evictLoop c other _

end

/-- All identities under one key have one start time. -/
def OneStartTime (startTime : ι → Option Nat) (c : AuditIdentityCache ι) : Prop :=
  ∀ key, ∀ a ∈ c.queue key, ∀ b ∈ c.queue key, startTime a = startTime b

section

variable {startTime : ι → Option Nat} {c : AuditIdentityCache ι} {pid : Int}
  {object : AuditObjectId} {identity a : ι} {key : AuditIdentityKey}

/-- What is under a key after an insertion: the new identity, and of the old ones
under its key only such as share its start time. -/
theorem mem_queue_insert (hc : c.OneStartTime startTime)
    (h : a ∈ (c.insert startTime pid object identity).queue key) :
    key = ⟨pid, object⟩ ∧ a = identity ∨
      a ∈ c.queue key ∧
        (key = ⟨pid, object⟩ → c.capacity ≠ 0 → startTime a = startTime identity) := by
  unfold insert at h
  by_cases hzero : c.capacity = 0
  · rw [if_pos hzero] at h
    exact .inr ⟨h, fun _ hnonzero => absurd hzero hnonzero⟩
  · rw [if_neg hzero] at h
    dsimp only at h
    rw [queue_pushBack] at h
    by_cases hkey : key = ⟨pid, object⟩
    · subst hkey
      rw [if_pos rfl, List.mem_append, List.mem_singleton] at h
      rcases h with h | rfl
      · have hmem := (queue_evictOldestIfFull _ _).subset h
        by_cases hchanged : c.generationChanged startTime ⟨pid, object⟩ identity = true
        · rw [if_pos hchanged, queue_invalidateKey, if_pos rfl] at hmem
          cases hmem
        · rw [if_neg hchanged] at hmem
          refine .inr ⟨hmem, fun _ _ => ?_⟩
          -- the newest of the queue has the new start time, and the others have its
          obtain ⟨last, hlast⟩ := Option.isSome_iff_exists.mp
            (List.getLast?_isSome.mpr (List.ne_nil_of_mem hmem))
          have hsame : startTime last = startTime identity := by
            simpa [generationChanged, hlast] using hchanged
          rw [← hsame]
          exact hc _ a hmem last (List.mem_of_getLast? hlast)
      · exact .inl ⟨rfl, rfl⟩
    · rw [if_neg hkey] at h
      refine .inr ⟨?_, fun heq => absurd heq hkey⟩
      have hmem := (queue_evictOldestIfFull _ _).subset h
      split at hmem
      · rw [queue_invalidateKey, if_neg hkey] at hmem
        exact hmem
      · exact hmem

theorem OneStartTime.insert (hc : c.OneStartTime startTime) :
    (c.insert startTime pid object identity).OneStartTime startTime := by
  intro key a ha b hb
  by_cases hzero : c.capacity = 0
  · rw [AuditIdentityCache.insert, if_pos hzero] at ha hb
    exact hc key a ha b hb
  · rcases mem_queue_insert hc ha with ⟨hkey, rfl⟩ | ⟨ha, hsame⟩ <;>
      rcases mem_queue_insert hc hb with ⟨hkey', rfl⟩ | ⟨hb, hsame'⟩
    · rfl
    · exact (hsame' hkey hzero).symm
    · exact hsame hkey' hzero
    · exact hc key a ha b hb

theorem mem_queue_invalidate (h : a ∈ (c.invalidate pid object).queue key) :
    a ∈ c.queue key ∧ key ≠ ⟨pid, object⟩ := by
  rw [invalidate, queue_invalidateKey] at h
  split at h
  · cases h
  · exact ⟨h, by assumption⟩

theorem take_eq_some {c' : AuditIdentityCache ι}
    (h : c.take pid object = (some identity, c')) :
    identity ∈ c.queue ⟨pid, object⟩ := by
  unfold take at h
  dsimp only at h
  split at h
  · cases (Prod.mk.inj h).1
  · rename_i hqueue
    obtain rfl := Option.some.inj (Prod.mk.inj h).1
    rw [hqueue]
    exact List.mem_cons_self

theorem mem_queue_take (h : a ∈ (c.take pid object).2.queue key) : a ∈ c.queue key := by
  unfold take at h
  dsimp only at h
  split at h
  · exact h
  · rw [queue_insertionOrder, queue_popFront] at h
    split at h
    · rename_i hkey
      rw [hkey]
      exact List.mem_of_mem_tail h
    · exact h

end

theorem OneStartTime.of_subset {startTime : ι → Option Nat} {c c' : AuditIdentityCache ι}
    (hc : c.OneStartTime startTime) (h : ∀ key, c'.queue key ⊆ c.queue key) :
    c'.OneStartTime startTime := by
  intro key a ha b hb
  exact hc key a (h key ha) b (h key hb)

end AuditIdentityCache

end ConfigGuard
