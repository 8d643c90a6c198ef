import ConfigGuard.Audit.ProcessCache
import ConfigGuard.Library.AssocList

/-!
# What the exec cache remembers

The cache of `audit_process.rs` against the history of the insertions it
accepted and of the generations it evicted to make room.
-/

namespace ConfigGuard
open OsPath

namespace AuditProcessCache

/-- The list names the cached generations, each once. -/
structure Listing (c : AuditProcessCache) (order : List ProcessGeneration) : Prop where
  nodup : order.Nodup
  cached : ∀ generation, generation ∈ order ↔ (c.identities.lookup generation).isSome = true

section Operations

variable {c : AuditProcessCache} {order : List ProcessGeneration}

theorem Listing.length_eq (h : c.Listing order) : c.identities.keys.length = order.length := by
  apply List.Perm.length_eq
  rw [List.perm_ext_iff_of_nodup c.identities.keys_nodup h.nodup]
  intro generation
  rw [h.cached, AList.lookup_isSome, AList.mem_keys]

theorem Listing.erase (h : c.Listing order) (generation : ProcessGeneration)
    (old : List ProcessGeneration) :
    Listing { c with identities := c.identities.erase generation, insertionOrder := old }
      (order.erase generation) where
  nodup := h.nodup.erase generation
  cached other := by
    rw [h.nodup.mem_erase_iff, h.cached]
    by_cases hother : other = generation
    · subst hother
      simp
    · simp [hother, AList.lookup_erase_ne hother]

/-- Eviction drops the oldest, until one more fits below the capacity. -/
theorem evictLoop_spec (h : c.Listing order) (hcapacity : 0 < c.capacity) :
    (c.evictLoop order).insertionOrder = order.drop (order.length + 1 - c.capacity) ∧
      ∀ generation, (c.evictLoop order).identities.lookup generation =
        if generation ∈ order.drop (order.length + 1 - c.capacity)
        then c.identities.lookup generation else none := by
  induction order generalizing c with
  | nil =>
    rw [List.drop_nil]
    refine ⟨rfl, ?_⟩
    intro generation
    have hnone := (h.cached generation).not.mp List.not_mem_nil
    rw [if_neg List.not_mem_nil]
    exact Option.not_isSome_iff_eq_none.mp hnone
  | cons oldest order ih =>
    rw [evictLoop, h.length_eq, List.length_cons]
    split
    · rename_i hfull
      have hrest : Listing { c with identities := c.identities.erase oldest } order := by
        have herase := h.erase oldest c.insertionOrder
        rwa [List.erase_cons_head] at herase
      obtain ⟨horder, hlookup⟩ := ih hrest hcapacity
      rw [Nat.succ_sub hfull, List.drop_succ_cons]
      refine ⟨horder, ?_⟩
      intro generation
      rw [hlookup]
      split
      · rename_i hkept
        have hne : generation ≠ oldest := by
          rintro rfl
          exact (List.nodup_cons.mp h.nodup).1 (List.mem_of_mem_drop hkept)
        exact AList.lookup_erase_ne hne
      · rfl
    · rename_i hroom
      have hnone : order.length + 1 + 1 - c.capacity = 0 := by omega
      rw [hnone, List.drop_zero]
      refine ⟨rfl, ?_⟩
      intro generation
      split
      · rfl
      · rename_i hout
        exact Option.not_isSome_iff_eq_none.mp ((h.cached generation).not.mp hout)

end Operations

/-- What an insertion has to put out: of the other generations the oldest, as
many as leave room for one more. -/
def evictedBy (c : AuditProcessCache) (generation : ProcessGeneration) : List ProcessGeneration :=
  let others := c.insertionOrder.erase generation
  others.take (others.length + 1 - c.capacity)

def keptBy (c : AuditProcessCache) (generation : ProcessGeneration) : List ProcessGeneration :=
  let others := c.insertionOrder.erase generation
  others.drop (others.length + 1 - c.capacity)

section Room

variable (c : AuditProcessCache) (generation : ProcessGeneration)

theorem evictedBy_append_keptBy :
    c.evictedBy generation ++ c.keptBy generation = c.insertionOrder.erase generation :=
  List.take_append_drop _ _

theorem keptBy_sublist : (c.keptBy generation).Sublist c.insertionOrder :=
  (List.drop_sublist _ _).trans List.erase_sublist

variable {c generation}

theorem length_keptBy (hcapacity : 0 < c.capacity) :
    (c.keptBy generation).length < c.capacity ∧
      (c.evictedBy generation ≠ [] → (c.keptBy generation).length + 1 = c.capacity) := by
  rw [keptBy, evictedBy, List.length_drop, ne_eq, List.take_eq_nil_iff]
  refine ⟨by omega, ?_⟩
  intro hevicted
  have hcount := fun hnone => hevicted (.inl hnone)
  omega

theorem Listing.not_mem_keptBy (h : c.Listing c.insertionOrder) :
    generation ∉ c.keptBy generation := by
  intro hmem
  exact (h.nodup.mem_erase_iff.mp (List.mem_of_mem_drop hmem)).1 rfl

/-- What is cached of another generation is evicted or kept. -/
theorem Listing.mem_keptBy_iff (h : c.Listing c.insertionOrder) {other : ProcessGeneration}
    (hother : other ≠ generation) :
    other ∈ c.keptBy generation ↔ other ∈ c.insertionOrder ∧ other ∉ c.evictedBy generation := by
  have hsplit := c.evictedBy_append_keptBy generation
  have hnodup : (c.evictedBy generation ++ c.keptBy generation).Nodup :=
    hsplit ▸ h.nodup.erase generation
  have hmem : other ∈ c.insertionOrder ↔
      other ∈ c.evictedBy generation ∨ other ∈ c.keptBy generation := by
    rw [← List.mem_append, hsplit, h.nodup.mem_erase_iff, and_iff_right hother]
  constructor
  · intro hkept
    refine ⟨hmem.mpr (.inr hkept), ?_⟩
    intro hevicted
    exact List.disjoint_of_nodup_append hnodup hevicted hkept
  · rintro ⟨hcached, hevicted⟩
    exact (hmem.mp hcached).resolve_left hevicted

end Room

/-- An insertion into a cache that may hold anything. -/
theorem insertAt_spec {c : AuditProcessCache} (h : c.Listing c.insertionOrder)
    (hcapacity : 0 < c.capacity) (generation : ProcessGeneration) (identity : ProcessIdentity)
    (now : Nat) :
    (c.insertAt generation identity now).insertionOrder = c.keptBy generation ++ [generation] ∧
      ∀ other, (c.insertAt generation identity now).identities.lookup other =
        if other = generation then some ⟨identity, now⟩
        else if other ∈ c.keptBy generation then c.identities.lookup other else none := by
  have hremove : (c.remove generation).Listing (c.remove generation).insertionOrder :=
    h.erase generation _
  obtain ⟨horder, hlookup⟩ := evictLoop_spec hremove hcapacity
  rw [insertAt, if_neg (Nat.ne_of_gt hcapacity)]
  constructor
  · show (evictOldestIfFull _).insertionOrder ++ _ = _
    rw [evictOldestIfFull, horder]
    rfl
  · intro other
    show ((evictOldestIfFull _).identities.insert _ _).lookup other = _
    by_cases hother : other = generation
    · rw [if_pos hother, hother, AList.lookup_insert]
    · rw [if_neg hother, AList.lookup_insert_ne hother, evictOldestIfFull, hlookup]
      exact if_congr Iff.rfl (AList.lookup_erase_ne hother) rfl

/-- An insertion keeps the order and the map in step. -/
theorem Listing.insertAt {c : AuditProcessCache} (h : c.Listing c.insertionOrder)
    (hcapacity : 0 < c.capacity) (generation : ProcessGeneration) (identity : ProcessIdentity)
    (now : Nat) : (c.insertAt generation identity now).Listing
      (c.insertAt generation identity now).insertionOrder := by
  obtain ⟨horder, hlookup⟩ := insertAt_spec h hcapacity generation identity now
  have hkept := c.keptBy_sublist generation
  constructor
  · rw [horder, ← List.concat_eq_append]
    exact (hkept.nodup h.nodup).concat h.not_mem_keptBy
  · intro other
    rw [horder, List.mem_append, List.mem_singleton, hlookup]
    by_cases hother : other = generation
    · simp [hother]
    · rw [if_neg hother]
      split
      · rename_i hin
        have hcached := (h.cached other).mp (hkept.subset hin)
        simp [hin, hcached]
      · rename_i hout
        simp [hout, hother]

section Limits

variable (c : AuditProcessCache) (generation : ProcessGeneration) (identity : ProcessIdentity)
  (now : Nat)

theorem limits_evictLoop (order : List ProcessGeneration) :
    (c.evictLoop order).capacity = c.capacity ∧ (c.evictLoop order).ttl = c.ttl := by
  induction order generalizing c with
  | nil => exact ⟨rfl, rfl⟩
  | cons oldest order ih =>
    rw [evictLoop]
    split
    · exact ih _
    · exact ⟨rfl, rfl⟩

theorem limits_insertAt : (c.insertAt generation identity now).capacity = c.capacity ∧
    (c.insertAt generation identity now).ttl = c.ttl := by
  rw [insertAt]
  split
  · exact ⟨rfl, rfl⟩
  · exact limits_evictLoop (c.remove generation) _

theorem limits_getAt : (c.getAt generation now).2.capacity = c.capacity ∧
    (c.getAt generation now).2.ttl = c.ttl := by
  rw [getAt]
  split
  · exact ⟨rfl, rfl⟩
  · exact ⟨rfl, rfl⟩

theorem limits_insertExecAt : (c.insertExecAt generation identity now).capacity = c.capacity ∧
    (c.insertExecAt generation identity now).ttl = c.ttl := by
  have hget := limits_getAt c generation now
  have hinsert := limits_insertAt (c.getAt generation now).2 generation identity now
  rw [insertExecAt]
  split
  · dsimp only
    split
    · exact hget
    · exact ⟨hinsert.1.trans hget.1, hinsert.2.trans hget.2⟩
  · exact limits_insertAt c generation identity now

end Limits

/-- The insertions the code passes over. -/
def Rejects (c : AuditProcessCache) (generation : ProcessGeneration) (identity : ProcessIdentity)
    (now : Nat) : Prop :=
  c.capacity = 0 ∨
    isDynamicLoader identity = true ∧ ∃ cached, c.identities.lookup generation = some cached ∧
      now - cached.recordedAt ≤ c.ttl ∧ isDynamicLoader cached.identity = false

/-- The insertion is found in the cache after it. -/
def Accepted (c : AuditProcessCache) (generation : ProcessGeneration) (identity : ProcessIdentity)
    (now : Nat) : Prop :=
  (c.insertExecAt generation identity now).identities.lookup generation = some ⟨identity, now⟩

instance (c : AuditProcessCache) (generation : ProcessGeneration) (identity : ProcessIdentity)
    (now : Nat) : Decidable (c.Accepted generation identity now) :=
  inferInstanceAs (Decidable ((c.insertExecAt generation identity now).identities.lookup generation =
    some ⟨identity, now⟩))

section Rejection

variable {c : AuditProcessCache} {generation : ProcessGeneration} {identity : ProcessIdentity}
  {now : Nat}

theorem getAt_eq_some {found : ProcessIdentity} :
    (c.getAt generation now).1 = some found ↔
      ∃ cached, c.identities.lookup generation = some cached ∧
        now - cached.recordedAt ≤ c.ttl ∧ cached.identity = found := by
  rw [getAt]
  cases c.identities.lookup generation with
  | none =>
    constructor
    · intro h
      cases h
    · rintro ⟨cached, hcached, -⟩
      cases hcached
  | some cached =>
    simp only [Option.any_some, Option.map_some, decide_eq_true_eq]
    split
    · rename_i hexpired
      constructor
      · intro h
        cases h
      · rintro ⟨_, hcached, hfresh, -⟩
        rw [← Option.some.inj hcached] at hfresh
        exact absurd hexpired (Nat.not_lt_of_le hfresh)
    · rename_i hfresh
      constructor
      · intro h
        exact ⟨cached, rfl, Nat.le_of_not_lt hfresh, Option.some.inj h⟩
      · rintro ⟨_, hcached, -, rfl⟩
        rw [Option.some.inj hcached]

variable (c generation now) in
/-- A lookup removes the entry it finds expired, and nothing else. -/
theorem getAt_cases :
    (c.getAt generation now).2 = c ∨
      (c.getAt generation now).1 = none ∧ (c.getAt generation now).2 = c.remove generation ∧
        ∃ cached, c.identities.lookup generation = some cached ∧
          c.ttl < now - cached.recordedAt := by
  rw [getAt]
  split
  · rename_i hexpired
    obtain ⟨cached, hcached, hlt⟩ := (Option.any_eq_true _ _).mp hexpired
    exact .inr ⟨rfl, rfl, cached, hcached, of_decide_eq_true hlt⟩
  · exact .inl rfl

theorem getAt_of_found {found : ProcessIdentity} (h : (c.getAt generation now).1 = some found) :
    (c.getAt generation now).2 = c := by
  obtain hsame | ⟨hnone, -⟩ := getAt_cases c generation now
  · exact hsame
  · rw [hnone] at h
    cases h

theorem remove_remove (h : c.Listing c.insertionOrder) :
    (c.remove generation).remove generation = c.remove generation := by
  have hkeys : generation ∉ (c.identities.erase generation).keys := by
    rw [AList.keys_erase]
    exact fun hmem => (c.identities.keys_nodup.mem_erase_iff.mp hmem).1 rfl
  have hidentities : (c.identities.erase generation).erase generation =
      c.identities.erase generation := AList.ext (List.kerase_of_notMem_keys hkeys)
  have horder : (c.insertionOrder.erase generation).erase generation =
      c.insertionOrder.erase generation :=
    List.erase_of_not_mem fun hmem => (h.nodup.mem_erase_iff.mp hmem).1 rfl
  simp only [remove, hidentities, horder]

theorem insertAt_getAt (h : c.Listing c.insertionOrder) (hcapacity : 0 < c.capacity) :
    (c.getAt generation now).2.insertAt generation identity now =
      c.insertAt generation identity now := by
  obtain hsame | ⟨-, hremoved, -⟩ := getAt_cases c generation now
  · rw [hsame]
  · have hremove : 0 < (c.remove generation).capacity := hcapacity
    rw [hremoved, insertAt, insertAt, if_neg (Nat.ne_of_gt hremove),
      if_neg (Nat.ne_of_gt hcapacity), remove_remove h]

/-- A rejected insertion leaves everything as it was. -/
theorem insertExecAt_of_rejects (hempty : c.capacity = 0 → c.identities.lookup generation = none)
    (h : c.Rejects generation identity now) : c.insertExecAt generation identity now = c := by
  rw [insertExecAt]
  obtain hzero | ⟨hloader, cached, hcached, hfresh, hmain⟩ := h
  · have hget : (c.getAt generation now).2 = c := by
      obtain hsame | ⟨-, -, cached, hcached, -⟩ :=
        getAt_cases c generation now
      · exact hsame
      · rw [hempty hzero] at hcached
        cases hcached
    have hinsert : c.insertAt generation identity now = c := if_pos hzero
    split
    · dsimp only
      rw [hget, hinsert]
      split <;> rfl
    · exact hinsert
  · have hfound : (c.getAt generation now).1 = some cached.identity :=
      getAt_eq_some.mpr ⟨cached, hcached, hfresh, rfl⟩
    rw [if_pos hloader]
    dsimp only
    rw [hfound, getAt_of_found hfound, Option.any_some, hmain]
    rfl

theorem insertExecAt_of_not_rejects (h : c.Listing c.insertionOrder)
    (hnot : ¬ c.Rejects generation identity now) :
    0 < c.capacity ∧
      c.insertExecAt generation identity now = c.insertAt generation identity now := by
  have hcapacity : 0 < c.capacity := Nat.pos_of_ne_zero fun hzero => hnot (.inl hzero)
  refine ⟨hcapacity, ?_⟩
  rw [insertExecAt]
  split
  · rename_i hloader
    dsimp only
    split
    · rename_i hmain
      obtain ⟨found, hfound, hprogram⟩ := (Option.any_eq_true _ _).mp hmain
      obtain ⟨cached, hcached, hfresh, rfl⟩ := getAt_eq_some.mp hfound
      exact absurd (.inr ⟨hloader, cached, hcached, hfresh, by simpa using hprogram⟩) hnot
    · exact insertAt_getAt h hcapacity
  · rfl

variable (generation identity now) in
theorem accepted_iff (h : c.Listing c.insertionOrder)
    (hempty : c.capacity = 0 → c.identities.lookup generation = none) :
    c.Accepted generation identity now ↔ ¬ c.Rejects generation identity now := by
  constructor
  · intro haccepted hrejects
    rw [Accepted, insertExecAt_of_rejects hempty hrejects] at haccepted
    obtain hzero | ⟨hloader, cached, hcached, -, hmain⟩ := hrejects
    · rw [hempty hzero] at haccepted
      cases haccepted
    · rw [hcached] at haccepted
      rw [Option.some.inj haccepted, hloader] at hmain
      cases hmain
  · intro hnot
    obtain ⟨hcapacity, hinsert⟩ := insertExecAt_of_not_rejects h hnot
    rw [Accepted, hinsert, (insertAt_spec h hcapacity generation identity now).2, if_pos rfl]

end Rejection

inductive CacheRecord where
  | accepted (generation : ProcessGeneration) (cached : CachedIdentity)
  | evicted (generation : ProcessGeneration)

/-- The last accepted insertion of a generation, in a history with the newest
record first. -/
def LastAccepted (log : List CacheRecord) (generation : ProcessGeneration)
    (cached : CachedIdentity) : Prop :=
  ∃ later earlier, log = later ++ .accepted generation cached :: earlier ∧
    ∀ other, .accepted generation other ∉ later

/-- The last accepted insertion of a generation, not evicted since. -/
def Standing (log : List CacheRecord) (generation : ProcessGeneration) (cached : CachedIdentity) :
    Prop :=
  ∃ later earlier, log = later ++ .accepted generation cached :: earlier ∧
    (∀ other, .accepted generation other ∉ later) ∧ .evicted generation ∉ later

section Log

variable {log : List CacheRecord} {generation : ProcessGeneration} {a b : CachedIdentity}

theorem Standing.lastAccepted (h : Standing log generation a) : LastAccepted log generation a := by
  obtain ⟨later, earlier, hlog, hlater, -⟩ := h
  exact ⟨later, earlier, hlog, hlater⟩

theorem LastAccepted.eq (ha : LastAccepted log generation a) (hb : LastAccepted log generation b) :
    a = b := by
  obtain ⟨later, earlier, rfl, hlater⟩ := ha
  obtain ⟨later', earlier', hlog, hlater'⟩ := hb
  induction later generalizing later' with
  | nil =>
    cases later' with
    | nil => exact (CacheRecord.accepted.inj (List.cons.inj hlog).1).2
    | cons record later' =>
      have hhead := (List.cons.inj hlog).1
      exact absurd (hhead ▸ List.mem_cons_self) (hlater' a)
  | cons record later ih =>
    cases later' with
    | nil =>
      have hhead := (List.cons.inj hlog).1
      exact absurd (hhead ▸ List.mem_cons_self) (hlater b)
    | cons record' later' =>
      refine ih ?_ later' (List.cons.inj hlog).2 ?_
      · intro other hmem
        exact hlater other (List.mem_cons_of_mem _ hmem)
      · intro other hmem
        exact hlater' other (List.mem_cons_of_mem _ hmem)

/-- Records of other generations in front change nothing. -/
theorem standing_append {records : List CacheRecord}
    (haccepted : ∀ other, .accepted generation other ∉ records)
    (hevicted : .evicted generation ∉ records) :
    Standing (records ++ log) generation a ↔ Standing log generation a := by
  constructor
  · rintro ⟨later, earlier, hlog, hlater, hkept⟩
    obtain ⟨front, hfront, hrest⟩ | ⟨front, hfront, hrest⟩ := List.append_eq_append_iff.mp hlog
    · refine ⟨front, earlier, hrest, ?_, ?_⟩
      · intro other hmem
        exact hlater other (hfront ▸ List.mem_append_right _ hmem)
      · intro hmem
        exact hkept (hfront ▸ List.mem_append_right _ hmem)
    · cases front with
      | nil => exact ⟨[], earlier, hrest.symm, fun _ => List.not_mem_nil, List.not_mem_nil⟩
      | cons record front =>
        have hhead := (List.cons.inj hrest).1
        refine absurd ?_ (haccepted a)
        rw [hfront, hhead]
        exact List.mem_append_right _ List.mem_cons_self
  · rintro ⟨later, earlier, rfl, hlater, hkept⟩
    refine ⟨records ++ later, earlier, by rw [List.append_assoc], ?_, ?_⟩
    · intro other hmem
      obtain hmem | hmem := List.mem_append.mp hmem
      · exact haccepted other hmem
      · exact hlater other hmem
    · intro hmem
      obtain hmem | hmem := List.mem_append.mp hmem
      · exact hevicted hmem
      · exact hkept hmem

variable (log a) in
theorem not_standing_append {records : List CacheRecord}
    (haccepted : ∀ other, .accepted generation other ∉ records)
    (hevicted : .evicted generation ∈ records) : ¬ Standing (records ++ log) generation a := by
  rintro ⟨later, earlier, hlog, hlater, hkept⟩
  obtain ⟨front, hfront, -⟩ | ⟨front, hfront, hrest⟩ := List.append_eq_append_iff.mp hlog
  · exact hkept (hfront ▸ List.mem_append_left _ hevicted)
  · rw [hfront] at haccepted hevicted
    cases front with
    | nil =>
      rw [List.append_nil] at hevicted
      exact hkept hevicted
    | cons record front =>
      have hhead := (List.cons.inj hrest).1
      exact haccepted a (List.mem_append_right _ (hhead ▸ List.mem_cons_self))

theorem standing_cons_self :
    Standing (.accepted generation a :: log) generation b ↔ b = a := by
  constructor
  · intro h
    exact h.lastAccepted.eq ⟨[], log, rfl, fun _ => List.not_mem_nil⟩
  · rintro rfl
    exact ⟨[], log, rfl, fun _ => List.not_mem_nil, List.not_mem_nil⟩

end Log

inductive AuditProcessCall where
  | insertExec (generation : ProcessGeneration) (identity : ProcessIdentity)
  | get (generation : ProcessGeneration)

structure TimedCall where
  now : Nat
  call : AuditProcessCall

def perform (c : AuditProcessCache) (timed : TimedCall) : AuditProcessCache :=
  match timed.call with
  | .insertExec generation identity => c.insertExecAt generation identity timed.now
  | .get generation => (c.getAt generation timed.now).2

/-- What one call adds to the history, the newest record first. -/
def records (c : AuditProcessCache) (timed : TimedCall) : List CacheRecord :=
  match timed.call with
  | .insertExec generation identity =>
    if c.Accepted generation identity timed.now then
      .accepted generation ⟨identity, timed.now⟩ ::
        (c.evictedBy generation).map .evicted
    else []
  | .get _ => []

def run (c : AuditProcessCache) (log : List CacheRecord) :
    List TimedCall → AuditProcessCache × List CacheRecord
  | [] => (c, log)
  | timed :: calls => (c.perform timed).run (c.records timed ++ log) calls

theorem limits_run (c : AuditProcessCache) (log : List CacheRecord) (calls : List TimedCall) :
    (c.run log calls).1.capacity = c.capacity ∧ (c.run log calls).1.ttl = c.ttl := by
  induction calls generalizing c log with
  | nil => exact ⟨rfl, rfl⟩
  | cons timed calls ih =>
    obtain ⟨now, call⟩ := timed
    have hrest := ih (c.perform ⟨now, call⟩) (c.records ⟨now, call⟩ ++ log)
    cases call with
    | insertExec generation identity =>
      have hstep := limits_insertExecAt c generation identity now
      exact ⟨hrest.1.trans hstep.1, hrest.2.trans hstep.2⟩
    | get generation =>
      have hstep := limits_getAt c generation now
      exact ⟨hrest.1.trans hstep.1, hrest.2.trans hstep.2⟩

/-- The cache against its history at a time no earlier than any call. -/
structure Traced (c : AuditProcessCache) (log : List CacheRecord) (clock : Nat) : Prop where
  listing : c.Listing c.insertionOrder
  bounded : c.insertionOrder.length ≤ c.capacity
  sorted : c.insertionOrder.Pairwise fun g h => ∀ a b, c.identities.lookup g = some a →
    c.identities.lookup h = some b → a.recordedAt ≤ b.recordedAt
  recent : ∀ g a, c.identities.lookup g = some a → a.recordedAt ≤ clock
  standing : ∀ g a, c.identities.lookup g = some a → Standing log g a
  lapsed : ∀ g a, Standing log g a → c.identities.lookup g = some a ∨
    c.ttl < clock - a.recordedAt

section Steps

variable {c : AuditProcessCache} {log : List CacheRecord} {clock now : Nat}
  {generation : ProcessGeneration} {identity : ProcessIdentity}

theorem traced_withLimits (capacity ttl : Nat) : Traced (withLimits capacity ttl) [] 0 where
  listing := by
    refine ⟨List.nodup_nil, ?_⟩
    intro generation
    simp [withLimits]
  bounded := Nat.zero_le _
  sorted := List.Pairwise.nil
  recent _ _ h := by cases h
  standing _ _ h := by cases h
  lapsed _ _ h := by
    obtain ⟨later, earlier, hlog, -⟩ := h
    cases later <;> cases hlog

theorem Traced.advance (h : c.Traced log clock) (hnow : clock ≤ now) : c.Traced log now where
  listing := h.listing
  bounded := h.bounded
  sorted := h.sorted
  recent g a hlookup := (h.recent g a hlookup).trans hnow
  standing := h.standing
  lapsed g a hstanding := by
    obtain hcached | hlapsed := h.lapsed g a hstanding
    · exact .inl hcached
    · exact .inr (by omega)

theorem Traced.lookup_of_empty (h : c.Traced log clock) (hzero : c.capacity = 0)
    (generation : ProcessGeneration) :
    c.identities.lookup generation = none := by
  have hnil : c.insertionOrder = [] := List.eq_nil_of_length_eq_zero
    (Nat.eq_zero_of_le_zero (hzero ▸ h.bounded))
  have hout := (h.listing.cached generation).not.mp (hnil ▸ List.not_mem_nil)
  exact Option.not_isSome_iff_eq_none.mp hout

theorem lookup_remove {other : ProcessGeneration} {a : CachedIdentity} :
    (c.remove generation).identities.lookup other = some a ↔
      other ≠ generation ∧ c.identities.lookup other = some a :=
  AssocList.lookup_erase_eq_some

/-- An entry found expired may go: it has lapsed. -/
theorem Traced.expire (h : c.Traced log now) {cached : CachedIdentity}
    (hcached : c.identities.lookup generation = some cached)
    (hexpired : c.ttl < now - cached.recordedAt) : (c.remove generation).Traced log now where
  listing := h.listing.erase generation _
  bounded := (List.erase_sublist.length_le).trans h.bounded
  sorted := by
    refine (h.sorted.sublist List.erase_sublist).imp ?_
    intro g k hle a b ha hb
    exact hle a b (lookup_remove.mp ha).2 (lookup_remove.mp hb).2
  recent g a hlookup := h.recent g a (lookup_remove.mp hlookup).2
  standing g a hlookup := h.standing g a (lookup_remove.mp hlookup).2
  lapsed g a hstanding := by
    obtain hlookup | hlapsed := h.lapsed g a hstanding
    · by_cases hg : g = generation
      · subst hg
        rw [hcached] at hlookup
        exact .inr (Option.some.inj hlookup ▸ hexpired)
      · exact .inl (lookup_remove.mpr ⟨hg, hlookup⟩)
    · exact .inr hlapsed

/-- The records of an accepted insertion as seen by another generation. -/
theorem standing_records {other : ProcessGeneration} {a : CachedIdentity}
    (hother : other ≠ generation) :
    Standing (.accepted generation ⟨identity, now⟩ ::
        (c.evictedBy generation).map .evicted ++ log) other a ↔
      other ∉ c.evictedBy generation ∧ Standing log other a := by
  have haccepted : ∀ cached, .accepted other cached ∉
      .accepted generation ⟨identity, now⟩ ::
        (c.evictedBy generation).map CacheRecord.evicted := by
    intro cached hmem
    obtain heq | hmem := List.mem_cons.mp hmem
    · exact hother (CacheRecord.accepted.inj heq).1
    · obtain ⟨_, -, heq⟩ := List.mem_map.mp hmem
      cases heq
  have hevicted : .evicted other ∈ .accepted generation ⟨identity, now⟩ ::
        (c.evictedBy generation).map CacheRecord.evicted ↔
      other ∈ c.evictedBy generation := by
    simp
  by_cases hmem : other ∈ c.evictedBy generation
  · have hnot := not_standing_append log a haccepted (hevicted.mpr hmem)
    exact ⟨fun h => absurd h hnot, fun h => absurd hmem h.1⟩
  · rw [standing_append haccepted (hevicted.not.mpr hmem)]
    exact ⟨fun h => ⟨hmem, h⟩, fun h => h.2⟩

theorem Traced.insert (h : c.Traced log now) (hcapacity : 0 < c.capacity) :
    (c.insertAt generation identity now).Traced (.accepted generation ⟨identity, now⟩ ::
      (c.evictedBy generation).map .evicted ++ log) now := by
  obtain ⟨horder, hlookup⟩ := insertAt_spec h.listing hcapacity generation identity now
  have hself : generation ∉ c.keptBy generation := h.listing.not_mem_keptBy
  -- what is cached after the insertion is the new image, or was cached before and kept
  have hold : ∀ other a, other ≠ generation →
      (c.insertAt generation identity now).identities.lookup other = some a →
      other ∈ c.keptBy generation ∧ c.identities.lookup other = some a := by
    intro other a hother hsome
    rw [hlookup, if_neg hother] at hsome
    split at hsome
    · exact ⟨by assumption, hsome⟩
    · cases hsome
  have hmem : ∀ other ∈ c.keptBy generation, ∀ a, c.identities.lookup other = some a →
      (c.insertAt generation identity now).identities.lookup other = some a := by
    intro other hother a hsome
    have hne : other ≠ generation := fun heq => hself (heq ▸ hother)
    rw [hlookup, if_neg hne, if_pos hother, hsome]
  refine ⟨h.listing.insertAt hcapacity _ _ _, ?_, ?_, ?_, ?_, ?_⟩
  · rw [horder, (limits_insertAt _ _ _ _).1, List.length_append, List.length_singleton]
    exact (length_keptBy hcapacity).1
  · rw [horder, List.pairwise_append]
    refine ⟨?_, List.pairwise_singleton _ _, ?_⟩
    · refine List.Pairwise.imp_of_mem ?_ (h.sorted.sublist (c.keptBy_sublist generation))
      intro g k hg hk hle a b ha hb
      exact hle a b (hold g a (fun heq => hself (heq ▸ hg)) ha).2
        (hold k b (fun heq => hself (heq ▸ hk)) hb).2
    · intro g hg k hk a b ha hb
      rw [List.mem_singleton.mp hk, hlookup, if_pos rfl] at hb
      rw [← Option.some.inj hb]
      exact h.recent g a (hold g a (fun heq => hself (heq ▸ hg)) ha).2
  · intro g a ha
    by_cases hg : g = generation
    · rw [hg, hlookup, if_pos rfl] at ha
      rw [← Option.some.inj ha]
    · exact h.recent g a (hold g a hg ha).2
  · intro g a ha
    by_cases hg : g = generation
    · rw [hg, hlookup, if_pos rfl] at ha
      rw [hg, List.cons_append]
      exact standing_cons_self.mpr (Option.some.inj ha).symm
    · obtain ⟨hkept, hcached⟩ := hold g a hg ha
      exact (standing_records hg).mpr
        ⟨((h.listing.mem_keptBy_iff hg).mp hkept).2, h.standing g a hcached⟩
  · intro g a ha
    by_cases hg : g = generation
    · rw [hg, List.cons_append] at ha
      rw [hg, hlookup, if_pos rfl, standing_cons_self.mp ha]
      exact .inl rfl
    · rw [standing_records hg] at ha
      obtain hcached | hlapsed := h.lapsed g a ha.2
      -- a cached image that was not kept would have been recorded as evicted
      · have hin : g ∈ c.insertionOrder := (h.listing.cached g).mpr (by rw [hcached]; rfl)
        exact .inl (hmem g ((h.listing.mem_keptBy_iff hg).mpr ⟨hin, ha.1⟩) a hcached)
      · exact .inr (by rwa [(limits_insertAt _ _ _ _).2])

/-- An accepted insertion evicts only at the capacity, and the oldest. -/
theorem Listing.evicts (h : c.Listing c.insertionOrder)
    (haccepted : c.Accepted generation identity now) (hnot : ¬ c.Rejects generation identity now) :
    ∃ evicted kept,
      c.records ⟨now, .insertExec generation identity⟩ =
        .accepted generation ⟨identity, now⟩ :: evicted.map .evicted ∧
      c.insertionOrder.erase generation = evicted ++ kept ∧
      (evicted ≠ [] → kept.length + 1 = c.capacity) ∧
      (c.insertExecAt generation identity now).insertionOrder = kept ++ [generation] ∧
      ∀ other ∈ kept, (c.insertExecAt generation identity now).identities.lookup other =
        c.identities.lookup other := by
  obtain ⟨hcapacity, hinsert⟩ := insertExecAt_of_not_rejects h hnot
  obtain ⟨horder, hlookup⟩ := insertAt_spec h hcapacity generation identity now
  refine ⟨c.evictedBy generation, c.keptBy generation, if_pos haccepted,
    (c.evictedBy_append_keptBy generation).symm, (length_keptBy hcapacity).2,
    hinsert ▸ horder, ?_⟩
  intro other hkept
  have hother : other ≠ generation := fun heq => h.not_mem_keptBy (heq ▸ hkept)
  rw [hinsert, hlookup, if_neg hother, if_pos hkept]

theorem Traced.perform (h : c.Traced log clock) {timed : TimedCall} (hnow : clock ≤ timed.now) :
    (c.perform timed).Traced (c.records timed ++ log) timed.now := by
  have hadvanced := h.advance hnow
  obtain ⟨now, call⟩ := timed
  cases call with
  | insertExec generation identity =>
    have haccepted := accepted_iff generation identity now h.listing
      (fun hzero => h.lookup_of_empty hzero generation)
    rw [AuditProcessCache.perform, records]
    dsimp only
    split
    · rename_i haccept
      obtain ⟨hcapacity, hinsert⟩ :=
        insertExecAt_of_not_rejects h.listing (haccepted.mp haccept)
      rw [hinsert]
      exact hadvanced.insert hcapacity
    · rename_i hreject
      rw [insertExecAt_of_rejects (fun hzero => h.lookup_of_empty hzero _)
        (not_not.mp (haccepted.not.mp hreject))]
      exact hadvanced
  | get generation =>
    rw [AuditProcessCache.perform, records]
    dsimp only
    obtain hsame | ⟨-, hremoved, cached, hcached, hexpired⟩ :=
      getAt_cases c generation now
    · rw [hsame]
      exact hadvanced
    · rw [hremoved]
      exact hadvanced.expire hcached hexpired

theorem Traced.run {calls : List TimedCall} (h : c.Traced log clock)
    (hfrom : ∀ timed ∈ calls, clock ≤ timed.now)
    (horder : calls.Pairwise fun a b => a.now ≤ b.now) :
    ∀ now, clock ≤ now → (∀ timed ∈ calls, timed.now ≤ now) →
      (c.run log calls).1.Traced (c.run log calls).2 now := by
  induction calls generalizing c log clock with
  | nil =>
    intro now hnow _
    exact h.advance hnow
  | cons timed calls ih =>
    intro now _ hbefore
    rw [List.pairwise_cons] at horder
    exact ih (h.perform (hfrom timed List.mem_cons_self)) horder.1 horder.2 now
      (hbefore timed List.mem_cons_self)
      fun later hlater => hbefore later (List.mem_cons_of_mem _ hlater)

theorem Traced.cached_lastAccepted (h : c.Traced log now) {a : CachedIdentity}
    (hmem : generation ∈ c.insertionOrder) (ha : LastAccepted log generation a) :
    c.identities.lookup generation = some a := by
  obtain ⟨cached, hcached⟩ := Option.isSome_iff_exists.mp ((h.listing.cached generation).mp hmem)
  rw [hcached, (h.standing generation cached hcached).lastAccepted.eq ha]

theorem Traced.getAt_eq_some (h : c.Traced log now) :
    (c.getAt generation now).1 = some identity ↔
      ∃ recordedAt, Standing log generation ⟨identity, recordedAt⟩ ∧
        now - recordedAt ≤ c.ttl := by
  rw [AuditProcessCache.getAt_eq_some]
  constructor
  · rintro ⟨cached, hcached, hfresh, rfl⟩
    exact ⟨cached.recordedAt, h.standing generation cached hcached, hfresh⟩
  · rintro ⟨recordedAt, hstanding, hfresh⟩
    obtain hcached | hlapsed := h.lapsed generation _ hstanding
    · exact ⟨_, hcached, hfresh, rfl⟩
    · exact absurd hlapsed (Nat.not_lt_of_le hfresh)

end Steps

theorem exists_latest (calls : List TimedCall) : ∃ now, ∀ timed ∈ calls, timed.now ≤ now := by
  induction calls with
  | nil => exact ⟨0, fun _ h => absurd h List.not_mem_nil⟩
  | cons timed calls ih =>
    obtain ⟨now, hnow⟩ := ih
    refine ⟨max timed.now now, ?_⟩
    intro other hother
    obtain rfl | hother := List.mem_cons.mp hother
    · exact Nat.le_max_left _ _
    · exact (hnow other hother).trans (Nat.le_max_right _ _)

/-- After any calls at non-decreasing times: the order lists the cached
generations once each, by the time of their last accepted insertion, within the
capacity; a lookup finds exactly the identity whose last accepted insertion has
neither expired nor been evicted since; an accepted insertion evicts the oldest
of the others, as many as stand in its way at the capacity; and an insertion is
rejected exactly when there is no capacity, or for a dynamic loader whose
program is cached and unexpired, and then changes nothing. -/
theorem run_spec (capacity ttl : Nat) (calls : List TimedCall)
    (horder : calls.Pairwise fun a b => a.now ≤ b.now) :
    let (c, log) := (withLimits capacity ttl).run [] calls
    c.insertionOrder.Nodup ∧
    (∀ generation, generation ∈ c.insertionOrder ↔
      (c.identities.lookup generation).isSome = true) ∧
    c.insertionOrder.Pairwise (fun g h => ∀ a b, LastAccepted log g a → LastAccepted log h b →
      a.recordedAt ≤ b.recordedAt) ∧
    c.insertionOrder.length ≤ capacity ∧
    ∀ now, (∀ timed ∈ calls, timed.now ≤ now) → ∀ generation,
      (∀ identity, (c.getAt generation now).1 = some identity ↔
        ∃ recordedAt, Standing log generation ⟨identity, recordedAt⟩ ∧ now - recordedAt ≤ ttl) ∧
      ∀ identity,
        (c.Accepted generation identity now → ∃ evicted kept,
          c.records ⟨now, .insertExec generation identity⟩ =
            .accepted generation ⟨identity, now⟩ :: evicted.map .evicted ∧
          c.insertionOrder.erase generation = evicted ++ kept ∧
          (evicted ≠ [] → kept.length + 1 = capacity) ∧
          (c.insertExecAt generation identity now).insertionOrder = kept ++ [generation] ∧
          ∀ other ∈ kept, (c.insertExecAt generation identity now).identities.lookup other =
            c.identities.lookup other) ∧
        (¬ c.Accepted generation identity now ↔
          capacity = 0 ∨ isDynamicLoader identity = true ∧
            ∃ cached, c.identities.lookup generation = some cached ∧
              now - cached.recordedAt ≤ ttl ∧ isDynamicLoader cached.identity = false) ∧
        (¬ c.Accepted generation identity now → c.insertExecAt generation identity now = c) := by
  have htraced := (traced_withLimits capacity ttl).run (fun timed _ => Nat.zero_le timed.now)
    horder
  obtain ⟨hcapacity, httl⟩ := limits_run (withLimits capacity ttl) [] calls
  generalize (withLimits capacity ttl).run [] calls = result at htraced hcapacity httl ⊢
  obtain ⟨c, log⟩ := result
  obtain rfl : c.capacity = capacity := hcapacity
  obtain rfl : c.ttl = ttl := httl
  obtain ⟨latest, hlatest⟩ := exists_latest calls
  have hend : c.Traced log latest := htraced latest (Nat.zero_le _) hlatest
  refine ⟨hend.listing.nodup, hend.listing.cached, ?_, hend.bounded, ?_⟩
  · refine List.Pairwise.imp_of_mem ?_ hend.sorted
    intro g h hg hh hle a b ha hb
    exact hle a b (hend.cached_lastAccepted hg ha) (hend.cached_lastAccepted hh hb)
  · intro now hnow generation
    have hnow : c.Traced log now := htraced now (Nat.zero_le _) hnow
    refine ⟨fun identity => hnow.getAt_eq_some, ?_⟩
    intro identity
    have haccepted := accepted_iff generation identity now hnow.listing
      (fun hzero => hnow.lookup_of_empty hzero generation)
    have hrejects := (not_congr haccepted).trans not_not
    refine ⟨fun h => hnow.listing.evicts h (haccepted.mp h), hrejects, ?_⟩
    intro hnot
    exact insertExecAt_of_rejects (fun hzero => hnow.lookup_of_empty hzero _) (hrejects.mp hnot)

/-- Three programs, the last of them replaced by its dynamic loader in vain. -/
def execsThenLoader : List TimedCall :=
  [⟨3, .insertExec ⟨1, 7⟩ (.fromExecutable (fun _ => "cat") 42 (Path.ofString "/usr/bin/cat"))⟩,
    ⟨4, .insertExec ⟨1, 8⟩ (.fromExecutable (fun _ => "gh") 43 (Path.ofString "/usr/bin/gh"))⟩,
    ⟨5, .insertExec ⟨1, 9⟩ (.fromExecutable (fun _ => "mc") 44 (Path.ofString "/usr/bin/mc"))⟩,
    ⟨6, .insertExec ⟨1, 9⟩ (.fromExecutable (fun _ => "ld.so") 44 (Path.ofString "/lib/ld.so"))⟩]

theorem run_execsThenLoader :
    let (c, log) := (withLimits 2 30).run [] execsThenLoader
    c.insertionOrder = [⟨1, 8⟩, ⟨1, 9⟩] ∧ c.insertionOrder.Nodup ∧
      (∀ recordedAt, ¬ Standing log ⟨1, 7⟩
        ⟨.fromExecutable (fun _ => "cat") 42 (Path.ofString "/usr/bin/cat"), recordedAt⟩) ∧
      ∃ recordedAt, Standing log ⟨1, 9⟩
        ⟨.fromExecutable (fun _ => "mc") 44 (Path.ofString "/usr/bin/mc"), recordedAt⟩ := by
  have spec := run_spec 2 30 execsThenLoader (by decide)
  have found := spec.2.2.2.2 6 (by decide)
  refine ⟨by decide +kernel, spec.1, ?_, ?_⟩
  · intro recordedAt hstanding
    have hcat := ((found ⟨1, 7⟩).1 _).mpr ⟨recordedAt, hstanding, by omega⟩
    revert hcat
    decide +kernel
  · have hmc := (found ⟨1, 9⟩).1
      (.fromExecutable (fun _ => "mc") 44 (Path.ofString "/usr/bin/mc"))
    obtain ⟨recordedAt, hstanding, -⟩ := hmc.mp (by decide +kernel)
    exact ⟨recordedAt, hstanding⟩

end AuditProcessCache
end ConfigGuard
