import Mathlib.Algebra.BigOperators.Group.List.Basic
import Mathlib.Algebra.GroupWithZero.Nat
import ConfigGuard.Guard.Coordinator
import ConfigGuard.Library.AssocList

/-!
# The fallback after the prompt worker has stopped

`fail_pending_prompts` goes over the pending prompts and over the events of
each. The inner loop goes on after an error, the outer one does not.
-/

namespace ConfigGuard

/-- The event answered with its own default and closed, whatever the kernel
makes of either. -/
def World.settle (io : IoResults) (w : World) (event : PendingEvent) : World where
  handed := w.handed
  descriptors := w.descriptors.erase event.fd
  trace := w.trace ++
    settlement io w.trace.length (w.eventOf event.fd) event.mask event.defaultDecision

/-- The writes and closes one event takes. -/
def attempts (event : PendingEvent) : Nat := if isPermissionEvent event.mask then 2 else 1

def totalAttempts (events : List PendingEvent) : Nat := (events.map attempts).sum

def eventsOf (prompts : List PendingPrompt) : List PendingEvent := prompts.flatMap (·.events)

theorem settlement_length (io : IoResults) (n : Nat) (e : Option EventId) (event : PendingEvent) :
    (settlement io n e event.mask event.defaultDecision).length = attempts event := by
  unfold settlement attempts
  split <;> rfl

theorem totalAttempts_cons (event : PendingEvent) (events : List PendingEvent) :
    totalAttempts (event :: events) = attempts event + totalAttempts events := by
  rw [totalAttempts, List.map_cons, List.sum_cons, totalAttempts]

theorem totalAttempts_append (xs ys : List PendingEvent) :
    totalAttempts (xs ++ ys) = totalAttempts xs + totalAttempts ys := by
  rw [totalAttempts, List.map_append, List.sum_append, totalAttempts, totalAttempts]

theorem totalAttempts_pos {events : List PendingEvent} (h : events ≠ []) :
    0 < totalAttempts events := by
  obtain ⟨event, rest, rfl⟩ := List.exists_cons_of_ne_nil h
  rw [totalAttempts_cons, attempts]
  split <;> omega

theorem trace_length_settle (io : IoResults) (w : World) (event : PendingEvent) :
    (w.settle io event).trace.length = w.trace.length + attempts event := by
  rw [World.settle, List.length_append, settlement_length]

theorem trace_length_foldl_settle (io : IoResults) (w : World) (events : List PendingEvent) :
    (events.foldl (World.settle io) w).trace.length = w.trace.length + totalAttempts events := by
  induction events generalizing w with
  | nil => rfl
  | cons event events ih =>
    rw [List.foldl_cons, ih, trace_length_settle, totalAttempts_cons, Nat.add_assoc]

theorem respondAndCloseEvent_settle (io : IoResults) (w : World) (event : PendingEvent) :
    (respondAndCloseEvent io w event.fd event.mask event.defaultDecision).2 = w.settle io event := by
  rw [respondAndCloseEvent_world, respondToPermissionEventFd, World.settle, settlement]
  by_cases hmask : isPermissionEvent event.mask = true <;>
    simp [hmask, closeDescriptor, World.observe, World.eventOf]

theorem respondAndCloseEvent_ok_iff (io : IoResults) (w : World) (event : PendingEvent) :
    (respondAndCloseEvent io w event.fd event.mask event.defaultDecision).1 = .ok () ↔
      ∀ n < attempts event, io (w.trace.length + n) = true := by
  have hbind : (respondAndCloseEvent io w event.fd event.mask event.defaultDecision).1 =
      (respondToPermissionEventFd io w event.fd event.mask event.defaultDecision).1.bind fun _ =>
        (closeDescriptor io
          (respondToPermissionEventFd io w event.fd event.mask event.defaultDecision).2
          event.fd).1 := rfl
  rw [hbind, respondToPermissionEventFd, attempts]
  by_cases hmask : isPermissionEvent event.mask = true
  · have htwo : (∀ n < 2, io (w.trace.length + n) = true) ↔
        io w.trace.length = true ∧ io (w.trace.length + 1) = true := by
      constructor
      · intro h
        exact ⟨h 0 (by omega), h 1 (by omega)⟩
      · rintro ⟨hresponse, hclose⟩ n hn
        obtain rfl | rfl : n = 0 ∨ n = 1 := by omega
        · exact hresponse
        · exact hclose
    simp only [hmask, if_true, htwo, closeDescriptor, World.trace_observe, List.length_append,
      List.length_singleton]
    cases io w.trace.length <;> cases io (w.trace.length + 1) <;> simp [Except.bind]
  · simp only [hmask, closeDescriptor]
    cases io w.trace.length <;> simp [Except.bind]

/-- The inner loop settles every event, whatever fails. -/
theorem respondWithDefaults_world (io : IoResults) (w : World) (events : List PendingEvent) :
    (respondWithDefaults io w events).2 = events.foldl (World.settle io) w := by
  unfold respondWithDefaults
  induction events generalizing w with
  | nil => rfl
  | cons event events ih =>
    rw [respondToEvents, List.foldl_cons, ← respondAndCloseEvent_settle]
    exact ih _

theorem respondWithDefaults_ok_iff (io : IoResults) (w : World) (events : List PendingEvent) :
    (respondWithDefaults io w events).1 = .ok () ↔
      ∀ n < totalAttempts events, io (w.trace.length + n) = true := by
  unfold respondWithDefaults
  induction events generalizing w with
  | nil => simp [respondToEvents, totalAttempts]
  | cons event events ih =>
    have hbind : (respondToEvents io (·.defaultDecision) w (event :: events)).1 =
        (respondAndCloseEvent io w event.fd event.mask event.defaultDecision).1.bind fun _ =>
          (respondToEvents io (·.defaultDecision) (w.settle io event) events).1 := by
      rw [← respondAndCloseEvent_settle]
      rfl
    have hboth : (respondToEvents io (·.defaultDecision) w (event :: events)).1 = .ok () ↔
        (respondAndCloseEvent io w event.fd event.mask event.defaultDecision).1 = .ok () ∧
          (respondToEvents io (·.defaultDecision) (w.settle io event) events).1 = .ok () := by
      rw [hbind]
      cases (respondAndCloseEvent io w event.fd event.mask event.defaultDecision).1 <;>
        simp [Except.bind]
    rw [hboth, ih, respondAndCloseEvent_ok_iff, trace_length_settle, totalAttempts_cons]
    constructor
    · rintro ⟨hfirst, hrest⟩ n hn
      by_cases hlt : n < attempts event
      · exact hfirst n hlt
      · have hn' := hrest (n - attempts event) (by omega)
        rwa [show w.trace.length + attempts event + (n - attempts event) =
          w.trace.length + n by omega] at hn'
    · intro h
      refine ⟨fun n hn => h n (by omega), fun n hn => ?_⟩
      rw [Nat.add_assoc]
      exact h _ (by omega)

/-- No write or close made for a prompt fails while a later prompt still holds
an event. -/
def FailsOnlyLast (io : IoResults) (start : Nat) (prompts : List PendingPrompt) : Prop :=
  ∀ before after, prompts = before ++ after → eventsOf after ≠ [] →
    ∀ n < totalAttempts (eventsOf before), io (start + n) = true

theorem failsOnlyLast_cons {io : IoResults} {start : Nat} {prompt : PendingPrompt}
    {prompts : List PendingPrompt} :
    FailsOnlyLast io start (prompt :: prompts) ↔
      (eventsOf prompts ≠ [] → ∀ n < totalAttempts prompt.events, io (start + n) = true) ∧
        FailsOnlyLast io (start + totalAttempts prompt.events) prompts := by
  have hsum : ∀ before, totalAttempts (eventsOf (prompt :: before)) =
      totalAttempts prompt.events + totalAttempts (eventsOf before) := by
    intro before
    rw [eventsOf, List.flatMap_cons, totalAttempts_append, eventsOf]
  constructor
  · intro h
    constructor
    · intro hafter n hn
      refine h [prompt] prompts rfl hafter n ?_
      rw [hsum]
      omega
    · rintro before after rfl hafter n hn
      rw [Nat.add_assoc]
      refine h (prompt :: before) after rfl hafter _ ?_
      rw [hsum]
      omega
  · rintro ⟨hfirst, hrest⟩ before after hsplit hafter n hn
    cases before with
    | nil => exact absurd hn (Nat.not_lt_zero n)
    | cons head before =>
      rw [List.cons_append] at hsplit
      obtain ⟨rfl, rfl⟩ := List.cons.inj hsplit
      rw [hsum] at hn
      by_cases hlt : n < totalAttempts prompt.events
      · refine hfirst ?_ n hlt
        rw [eventsOf, List.flatMap_append]
        exact List.append_ne_nil_of_right_ne_nil _ hafter
      · have hn' := hrest before after rfl hafter (n - totalAttempts prompt.events) (by omega)
        rwa [show start + totalAttempts prompt.events + (n - totalAttempts prompt.events) =
          start + n by omega] at hn'

/-- The outer loop settles the events of all prompts, or makes fewer attempts
than they take. -/
theorem failPrompts_cases (io : IoResults) (w : World) (prompts : List PendingPrompt) :
    FailsOnlyLast io w.trace.length prompts ∧
        (PromptCoordinator.failPrompts io w prompts).2 =
          (eventsOf prompts).foldl (World.settle io) w ∨
      ¬ FailsOnlyLast io w.trace.length prompts ∧
        (PromptCoordinator.failPrompts io w prompts).2.trace.length <
          w.trace.length + totalAttempts (eventsOf prompts) := by
  induction prompts generalizing w with
  | nil =>
    refine .inl ⟨?_, rfl⟩
    intro before after hsplit hafter
    rw [(List.append_eq_nil_iff.mp hsplit.symm).2] at hafter
    exact absurd rfl hafter
  | cons prompt prompts ih =>
    have hworld := respondWithDefaults_world io w prompt.events
    have hlength := trace_length_foldl_settle io w prompt.events
    have hevents : eventsOf (prompt :: prompts) = prompt.events ++ eventsOf prompts := by
      rw [eventsOf, List.flatMap_cons, eventsOf]
    rw [failsOnlyLast_cons, PromptCoordinator.failPrompts, hevents, List.foldl_append,
      totalAttempts_append]
    split
    · rename_i error w' hresult
      rw [hresult] at hworld
      obtain rfl : w' = prompt.events.foldl (World.settle io) w := hworld
      have hfails : ¬ ∀ n < totalAttempts prompt.events, io (w.trace.length + n) = true := by
        rw [← respondWithDefaults_ok_iff, hresult]
        nofun
      -- an error ends the loop: nothing is missed only if no event was left
      by_cases hlast : eventsOf prompts = []
      · refine .inl ⟨⟨fun hne => absurd hlast hne, ?_⟩, by rw [hlast]; rfl⟩
        rintro before after rfl hafter
        rw [eventsOf, List.flatMap_append, List.append_eq_nil_iff] at hlast
        exact absurd hlast.2 hafter
      · refine .inr ⟨fun h => hfails (h.1 hlast), ?_⟩
        have hpos := totalAttempts_pos hlast
        rw [hlength]
        omega
    · rename_i w' hresult
      rw [hresult] at hworld
      obtain rfl : w' = prompt.events.foldl (World.settle io) w := hworld
      have hok : ∀ n < totalAttempts prompt.events, io (w.trace.length + n) = true := by
        rw [← respondWithDefaults_ok_iff, hresult]
      rw [← hlength]
      rcases ih (prompt.events.foldl (World.settle io) w) with ⟨hlast, hall⟩ | ⟨hnot, hless⟩
      · exact .inl ⟨⟨fun _ => hok, hlast⟩, hall⟩
      · refine .inr ⟨fun h => hnot h.2, ?_⟩
        omega

def pendingEvents (c : PromptCoordinator) : List PendingEvent :=
  c.pending.entries.flatMap fun entry => entry.2.events

/-- Every event of every pending prompt has been answered with its default and
closed, once, whatever failed; the result is an error and nothing is pending. -/
structure FallbackComplete (io : IoResults) (w : World) (c : PromptCoordinator)
    (result : GuardError × PromptCoordinator × World) : Prop where
  settled : ∃ events : List PendingEvent, events.Perm (pendingEvents c) ∧
    result.2.2 = events.foldl (World.settle io) w
  error : result.1 = .workerStopped ∨ ∃ error, result.1 = .workerStoppedPending error
  noPending : result.2.1.pending = ∅
  noKeys : result.2.1.pendingByKey = ∅

theorem eventsOf_perm_pendingEvents {c : PromptCoordinator} {order : List PromptId}
    (horder : order.Perm c.pending.keys) :
    (eventsOf (order.filterMap c.pending.lookup)).Perm (pendingEvents c) := by
  obtain ⟨entries, hperm, hvalues⟩ := AssocList.entries_in_order horder
  have hmap : pendingEvents c =
      (c.pending.entries.map fun entry => (entry.1, entry.2)).flatMap fun p => p.2.events := by
    rw [List.flatMap_map]
    rfl
  rw [eventsOf, ← hvalues, List.flatMap_map, hmap]
  exact (hperm.flatMap_right _).symm

/-- The fallback is complete exactly when no write or close fails for a prompt
before the last that holds an event, in the order in which the map yields them. -/
theorem failPendingPrompts_complete_iff (c : PromptCoordinator) (io : IoResults) (w : World)
    (order : List PromptId) (horder : order.Perm c.pending.keys) :
    FallbackComplete io w c (c.failPendingPrompts io w order) ↔
      FailsOnlyLast io w.trace.length (order.filterMap c.pending.lookup) := by
  have hperm := eventsOf_perm_pendingEvents horder
  have hworld : (c.failPendingPrompts io w order).2.2 =
      (PromptCoordinator.failPrompts io w (order.filterMap c.pending.lookup)).2 := rfl
  constructor
  · rintro ⟨⟨events, hevents, hsettled⟩, -, -, -⟩
    rcases failPrompts_cases io w (order.filterMap c.pending.lookup) with ⟨hlast, -⟩ | ⟨-, hless⟩
    · exact hlast
    · have htotal : totalAttempts events =
          totalAttempts (eventsOf (order.filterMap c.pending.lookup)) :=
        ((hevents.trans hperm.symm).map attempts).sum_eq
      rw [← hworld, hsettled, trace_length_foldl_settle, htotal] at hless
      omega
  · intro hlast
    refine ⟨?_, ?_, rfl, rfl⟩
    · rcases failPrompts_cases io w (order.filterMap c.pending.lookup) with ⟨-, hall⟩ | ⟨hnot, -⟩
      · exact ⟨_, hperm, hworld.trans hall⟩
      · exact absurd hlast hnot
    · rw [PromptCoordinator.failPendingPrompts]
      dsimp only
      split
      · rename_i error _
        exact .inr ⟨error, rfl⟩
      · exact .inl rfl

def opens (fd : Int) : GuardEvent where
  mask := fanOpenPerm
  fd := fd
  pid := 42
  target := .ok ⟨[]⟩
  inspected := none
  env := ∅

def twoOpen : World := (World.empty.handOver (opens 7)).handOver (opens 8)

def openPrompt (fd : Int) : PendingPrompt := ⟨none, none, [⟨fd, fanOpenPerm, .deny⟩]⟩

/-- Each of the two events waits for a prompt of its own. -/
def twoPending : PromptCoordinator where
  promptCache := .empty
  pending := ((∅ : AList _).insert 1 (openPrompt 8)).insert 0 (openPrompt 7)
  pendingByKey := ∅
  nextId := 2

theorem failPendingPrompts_complete_twoPending :
    FallbackComplete (fun _ => true) twoOpen twoPending
      (twoPending.failPendingPrompts (fun _ => true) twoOpen [1, 0]) :=
  (failPendingPrompts_complete_iff twoPending (fun _ => true) twoOpen [1, 0] (by decide)).mpr
    fun _ _ _ _ _ _ => rfl

/-- The response for the first of the two prompts cannot be written. -/
theorem failed_write_leaves_second_prompt :
    ¬ ∀ (c : PromptCoordinator) (io : IoResults) (w : World) (order : List PromptId),
      order.Perm c.pending.keys → FallbackComplete io w c (c.failPendingPrompts io w order) := by
  intro h
  obtain ⟨events, hevents, hsettled⟩ :=
    (h twoPending (fun n => n != 0) twoOpen [0, 1] (by decide)).settled
  have hlength := congrArg (fun w => w.trace.length) hsettled
  have htotal : totalAttempts events = totalAttempts (pendingEvents twoPending) :=
    (hevents.map attempts).sum_eq
  rw [trace_length_foldl_settle, htotal] at hlength
  exact absurd hlength (by decide)

end ConfigGuard
