import ConfigGuard.Audit.Loop
import ConfigGuard.Guard.Custody

/-!
# What the audit loop does to the kernel

Whatever is decided while an event is audited, the event is closed once, after
one `Allow` if it asks for a response.
-/

namespace ConfigGuard
open OsPath Transition

namespace AuditRuntime

section

variable {setup : AuditSetup} {s : AuditRuntime}

@[simp] theorem world_record (r : AuditRecord) : (s.record r).world = s.world := rfl

@[simp] theorem world_writeOutput (output : Path × LearnedConfig) :
    (s.writeOutput setup output).2.world = s.world := by
  unfold writeOutput
  split <;> rfl

@[simp] theorem world_observe (a : Access) : (s.observe setup a).2.world = s.world := by
  unfold observe
  split
  · rfl
  · dsimp only
    split
    · rfl
    · rw [world_writeOutput]
      rfl

@[simp] theorem world_decideEvent (policy : Option AccessPolicy) (pid : Int) (a : Access) :
    (decideEvent setup policy pid a s).2.world = s.world := by
  unfold decideEvent
  split
  · exact world_observe a
  · split
    · rfl
    · rw [world_observe, world_record]

@[simp] theorem world_promptOnPolicyViolation (prompt : Prompt) (pid : Int)
    (process : ProcessIdentity) (a : Access) (env : Env) (decision : Decision) :
    (s.promptOnPolicyViolation prompt pid process a env decision).world = s.world := by
  cases decision <;> rfl

@[simp] theorem world_auditPromptEvent (policy : AccessPolicy) (requiresGraphicalSession : Bool)
    (event : AuditDelivery) (process : ProcessIdentity) (a : Access) :
    (auditPromptEvent setup policy requiresGraphicalSession event process a s).2.world =
      s.world := by
  unfold auditPromptEvent
  split
  · rfl
  · rw [world_observe, world_promptOnPolicyViolation, world_record]

@[simp] theorem world_evaluate (event : AuditDelivery) (process : ProcessIdentity) (a : Access) :
    (evaluate setup event process a s).2.world = s.world := by
  unfold evaluate
  cases setup.mode with
  | audit policy => exact world_decideEvent policy event.pid a
  | auditPrompt policy requires => exact world_auditPromptEvent policy requires event process a

/-- What each evaluation keeps, evaluating one access after the other keeps. -/
theorem evaluateAll_keeps {I : AuditRuntime → Prop}
    {evaluate : Access → AuditRuntime → Except AuditError Unit × AuditRuntime}
    {accesses : List Access} (h : ∀ a ∈ accesses, ∀ s, I s → I (evaluate a s).2)
    {s : AuditRuntime} (hs : I s) : I (evaluateAll evaluate accesses s).2 := by
  induction accesses generalizing s with
  | nil => exact hs
  | cons a accesses ih =>
    have hnext : I (evaluate a s).2 := h a List.mem_cons_self s hs
    rw [evaluateAll]
    split
    · rename_i heq
      exact heq ▸ hnext
    · rename_i heq
      rw [heq] at hnext
      exact ih (fun b hb => h b (List.mem_cons_of_mem a hb)) hnext

@[simp] theorem world_decideAuditMode (event : AuditDelivery) (target : Path)
    (object : AuditObjectId) :
    (s.decideAuditMode setup event target object).2.world = s.world := by
  unfold decideAuditMode
  split
  · rfl
  · dsimp only
    refine evaluateAll_keeps (I := fun t => t.world = s.world) ?_ rfl
    exact fun a _ t ht => (world_evaluate event _ a).trans ht

theorem decideAuditMode_allow {event : AuditDelivery} {target : Path} {object : AuditObjectId}
    {decision : Decision} (h : (s.decideAuditMode setup event target object).1 = .ok decision) :
    decision = .allow := by
  unfold decideAuditMode at h
  split at h
  · exact (Except.ok.inj h).symm
  · dsimp only at h
    cases hall : (evaluateAll _ _ _).1 with
    | error error =>
      rw [hall] at h
      cases h
    | ok u =>
      rw [hall] at h
      exact (Except.ok.inj h).symm

theorem mapError_bind {ε ε' : Type} (f : ε → ε') (x y : Except ε Unit) :
    ((x.mapError f).bind fun _ => y.mapError f) = (x.bind fun _ => y).mapError f := by
  cases x <;> rfl

/-- Nothing is done and an error reported, or `Allow` is what is responded. -/
theorem evaluateEvent_cases (event : AuditDelivery) (target : Path) :
    ((∃ error, (evaluateEvent setup event target s).1 = .error error) ∧
        (evaluateEvent setup event target s).2.world = s.world) ∨
      ((evaluateEvent setup event target s).1 =
          (respondToPermissionEventFd setup.io s.world event.fd event.mask .allow).1.mapError
            .event ∧
        (evaluateEvent setup event target s).2.world =
          (respondToPermissionEventFd setup.io s.world event.fd event.mask .allow).2) := by
  unfold evaluateEvent
  split
  · split
    · rename_i error _
      exact .inl ⟨⟨_, rfl⟩, rfl⟩
    · rename_i object _
      have hworld : (s.decideAuditMode setup event target object).2.world = s.world :=
        world_decideAuditMode event target object
      split
      · rename_i heq
        rw [heq] at hworld
        exact .inl ⟨⟨_, rfl⟩, hworld⟩
      · rename_i decision _ heq
        rw [heq] at hworld
        obtain rfl : decision = .allow :=
          decideAuditMode_allow (congrArg Prod.fst heq)
        right
        rw [respond, hworld]
        exact ⟨rfl, rfl⟩
  · exact .inr ⟨rfl, rfl⟩

theorem handleEventWithDescriptor_cases (event : AuditDelivery) :
    ((∃ error, (handleEventWithDescriptor setup event s).1 = .error error) ∧
        (handleEventWithDescriptor setup event s).2.world = s.world) ∨
      ((handleEventWithDescriptor setup event s).1 =
          (respondToPermissionEventFd setup.io s.world event.fd event.mask .allow).1.mapError
            .event ∧
        (handleEventWithDescriptor setup event s).2.world =
          (respondToPermissionEventFd setup.io s.world event.fd event.mask .allow).2) := by
  unfold handleEventWithDescriptor
  split
  · exact .inl ⟨⟨_, rfl⟩, rfl⟩
  · rename_i target _
    split
    · dsimp only
      split
      · exact .inr ⟨rfl, rfl⟩
      · exact evaluateEvent_cases event target
    · exact evaluateEvent_cases event target

/-- What is done to the kernel for an event that is handled: nothing where its
descriptor is invalid, else the descriptor is closed, after `Allow` unless an
error came first. -/
inductive Serves (setup : AuditSetup) (event : AuditDelivery) (w : World) :
    Except AuditError Unit → World → Prop
  | invalid (error : AuditError) (h : ensureEventDescriptor event.mask event.fd ≠ .ok ()) :
    Serves setup event w (.error error) w
  | abandoned (error : AuditError) (h : ensureEventDescriptor event.mask event.fd = .ok ()) :
    Serves setup event w (.error error) (closeDescriptor setup.io w event.fd).2
  | allowed (h : ensureEventDescriptor event.mask event.fd = .ok ()) :
    Serves setup event w
      ((respondAndCloseEvent setup.io w event.fd event.mask .allow).1.mapError .event)
      (respondAndCloseEvent setup.io w event.fd event.mask .allow).2

theorem handleEvent_serves (event : AuditDelivery) :
    Serves setup event s.world (s.handleEvent setup event).1 (s.handleEvent setup event).2.world := by
  unfold handleEvent
  split
  · rename_i error herror
    exact .invalid _ fun hok => nomatch herror.symm.trans hok
  · rename_i hvalid
    dsimp only [close]
    rcases @handleEventWithDescriptor_cases setup s event with
      ⟨⟨error, herror⟩, hworld⟩ | ⟨hresult, hworld⟩
    · rw [herror, hworld]
      exact .abandoned error hvalid
    · rw [hresult, hworld]
      rw [mapError_bind]
      exact .allowed hvalid

end

end AuditRuntime

namespace AuditSession

/-- What a step does: it moves on in the batch, or hands one event over. -/
inductive Stepped (setup : AuditSetup) (s t : AuditSession) : Prop
  | idle (hrunning : s.pc.running = true) (hruntime : t.runtime = s.runtime)
    (hdelivered : t.delivered = s.delivered)
  | handled (event : AuditDelivery) (hrunning : s.pc.running = true)
    (hfree : s.runtime.world.descriptorIsFree event.guardEvent = true)
    (hruntime : t.runtime = ((s.runtime.handOver event).handleEvent setup event).2)
    (hdelivered : t.delivered = s.delivered ++ [event])
    (hresult : t.pc.running = ((s.runtime.handOver event).handleEvent setup event).1.isOk)

theorem step_stepped {setup : AuditSetup} {s t : AuditSession} {a : AuditMove}
    (h : s.step setup a = some t) : Stepped setup s t := by
  have hpc : ∀ pc, s.pc = pc → pc.running = true → s.pc.running = true := fun pc h hr => h ▸ hr
  cases a with
  | readBatch events tail =>
    rw [step] at h
    split at h
    · cases h
      exact .idle (hpc _ ‹_› rfl) rfl rfl
    · cases h
  | readError error =>
    rw [step] at h
    split at h
    · cases h
      exact .idle (hpc _ ‹_› rfl) rfl rfl
    · cases h
  | endBatch =>
    rw [step] at h
    split at h
    · cases h
      exact .idle (hpc _ ‹_› rfl) rfl rfl
    · cases h
      exact .idle (hpc _ ‹_› rfl) rfl rfl
    · cases h
  | handle =>
    rw [step, handle] at h
    split at h
    · rename_i event events tail hserving
      split at h
      · rename_i hfree
        split at h
        · rename_i heq
          cases h
          exact .handled event (hpc _ hserving rfl) hfree (by rw [heq]) rfl (by rw [heq]; rfl)
        · rename_i heq
          cases h
          exact .handled event (hpc _ hserving rfl) hfree (by rw [heq]) rfl (by rw [heq]; rfl)
      · cases h
    · cases h

/-- What has been done to an event, while the loop runs or another event came
after it, and where it is the last of a loop that failed. -/
inductive AuditFate (s : AuditSession) (e : EventId) (event : AuditDelivery) : Prop
  | settled (h : s.runtime.world.fate e = settled e event.mask .allow)
    (hvalid : ensureEventDescriptor event.mask event.fd = .ok ())
  | invalid (h : s.runtime.world.fate e = [])
    (hinvalid : ensureEventDescriptor event.mask event.fd ≠ .ok ())
    (hfailed : s.pc.running = false) (hlast : e + 1 = s.delivered.length)
  | abandoned (responses : List Observation) (ok : Bool)
    (h : s.runtime.world.fate e = responses ++ [.closed (some e) ok])
    (hresponses : responses = [] ∨ ∃ ok, responses = [.responded (some e) .allow ok])
    (hfailed : s.pc.running = false) (hlast : e + 1 = s.delivered.length)

/-- The events that were handed over have been answered and closed. -/
structure AuditCustody (s : AuditSession) : Prop where
  handed : s.runtime.world.handed = s.delivered.map AuditDelivery.guardEvent
  closed : s.pc.running = true → ∀ fd, s.runtime.world.eventOf fd = none
  fresh : ∀ e, s.delivered.length ≤ e → s.runtime.world.fate e = []
  fates : ∀ e event, s.delivered[e]? = some event → AuditFate s e event

section

variable {setup : AuditSetup} {s t : AuditSession}

/-- While the loop runs an event has one fate. -/
theorem AuditFate.settled_of_running {e : EventId} {event : AuditDelivery}
    (h : AuditFate s e event) (hrunning : s.pc.running = true) :
    s.runtime.world.fate e = ConfigGuard.settled e event.mask .allow ∧
      ensureEventDescriptor event.mask event.fd = .ok () := by
  cases h with
  | settled h hvalid => exact ⟨h, hvalid⟩
  | invalid _ _ hfailed => exact absurd hrunning (Bool.eq_false_iff.mp hfailed)
  | abandoned _ _ _ _ hfailed => exact absurd hrunning (Bool.eq_false_iff.mp hfailed)

/-- An event is handed over, and what is done concerns this event only. -/
theorem AuditCustody.admit (hs : AuditCustody s) (hrunning : s.pc.running = true)
    {event : AuditDelivery} {more : List Observation}
    (hdelivered : t.delivered = s.delivered ++ [event])
    (hhanded : t.runtime.world.handed = s.runtime.world.handed ++ [event.guardEvent])
    (htrace : t.runtime.world.trace = s.runtime.world.trace ++ more)
    (hmore : ∀ e, e ≠ s.delivered.length → more.filter (·.concerns e) = [])
    (hclosed : t.pc.running = true → ∀ fd, t.runtime.world.eventOf fd = none)
    (hnew : t.runtime.world.fate s.delivered.length =
        more.filter (·.concerns s.delivered.length) →
      AuditFate t s.delivered.length event) : AuditCustody t := by
  have hfate : ∀ e, e ≠ s.delivered.length →
      t.runtime.world.fate e = s.runtime.world.fate e :=
    fun e he => fate_of_append htrace (hmore e he)
  constructor
  · rw [hhanded, hs.handed, hdelivered, List.map_append, List.map_singleton]
  · exact hclosed
  · intro e he
    have hlt : s.delivered.length + 1 ≤ e := by simpa [hdelivered] using he
    rw [hfate e (Nat.lt_of_succ_le hlt).ne']
    exact hs.fresh e (Nat.le_of_succ_le hlt)
  · intro e event' hget
    rw [hdelivered] at hget
    by_cases he : e < s.delivered.length
    · rw [List.getElem?_append_left he] at hget
      obtain ⟨hsettled, hvalid⟩ := (hs.fates e event' hget).settled_of_running hrunning
      exact .settled ((hfate e he.ne).trans hsettled) hvalid
    · rw [List.getElem?_append_right (not_lt.mp he)] at hget
      have hzero : e - s.delivered.length = 0 :=
        Nat.lt_one_iff.mp (List.getElem?_eq_some_iff.mp hget).1
      obtain rfl : e = s.delivered.length :=
        le_antisymm (Nat.sub_eq_zero_iff_le.mp hzero) (not_lt.mp he)
      rw [hzero] at hget
      obtain rfl := Option.some.inj hget
      apply hnew
      rw [World.fate, htrace, List.filter_append, ← World.fate, hs.fresh _ le_rfl,
        List.nil_append]

/-- What answering and closing an event leaves in the trace concerns it. -/
theorem filter_settlement {io : IoResults} {n : Nat} {e : EventId} {mask : UInt64}
    {decision : Decision} :
    (settlement io n (some e) mask decision).filter (·.concerns e) =
        settlement io n (some e) mask decision ∧
      ∀ e', e' ≠ e → (settlement io n (some e) mask decision).filter (·.concerns e') = [] := by
  constructor
  · unfold settlement
    split <;> simp [Observation.concerns]
  · intro e' he
    unfold settlement
    split <;> simp [Observation.concerns, he.symm]

/-- Where answering and closing succeeds, the trace says so. -/
theorem settlement_of_ok {io : IoResults} {w : World} {fd : Int} {e : EventId} {mask : UInt64}
    {decision : Decision} (h : (respondAndCloseEvent io w fd mask decision).1.isOk = true) :
    settlement io w.trace.length (some e) mask decision = settled e mask decision := by
  unfold settlement settled
  by_cases hperm : isPermissionEvent mask = true
  · rw [if_pos hperm, if_pos hperm]
    simp only [respondAndCloseEvent, respondToPermissionEventFd, if_pos hperm, closeDescriptor,
      World.trace_observe, List.length_append, List.length_singleton] at h
    cases hresponded : io w.trace.length with
    | false => simp [hresponded, Except.bind, Except.isOk, Except.toBool] at h
    | true =>
      cases hclosed : io (w.trace.length + 1) with
      | false => simp [hresponded, hclosed, Except.bind, Except.isOk, Except.toBool] at h
      | true => rfl
  · rw [if_neg hperm, if_neg hperm]
    simp only [respondAndCloseEvent, respondToPermissionEventFd, if_neg hperm,
      closeDescriptor] at h
    cases hclosed : io w.trace.length with
    | false => simp [hclosed, Except.bind, Except.isOk, Except.toBool] at h
    | true => rfl

/-- A settlement is one close, after `Allow` at most. -/
theorem settlement_split (io : IoResults) (n : Nat) (e : EventId) (mask : UInt64) :
    ∃ responses ok, settlement io n (some e) mask .allow = responses ++ [.closed (some e) ok] ∧
      (responses = [] ∨ ∃ ok, responses = [.responded (some e) .allow ok]) := by
  unfold settlement
  split
  · exact ⟨[_], _, rfl, .inr ⟨_, rfl⟩⟩
  · exact ⟨[], _, rfl, .inl rfl⟩

theorem isOk_mapError {ε ε' : Type} (f : ε → ε') (x : Except ε Unit) :
    (x.mapError f).isOk = x.isOk := by
  cases x <;> rfl

theorem auditCustody_handled (hs : AuditCustody s) (event : AuditDelivery)
    (hrunning : s.pc.running = true)
    (hruntime : t.runtime = ((s.runtime.handOver event).handleEvent setup event).2)
    (hdelivered : t.delivered = s.delivered ++ [event])
    (hresult : t.pc.running = ((s.runtime.handOver event).handleEvent setup event).1.isOk) :
    AuditCustody t := by
  let w := s.runtime.world.handOver event.guardEvent
  have hserves : AuditRuntime.Serves setup event w
      ((s.runtime.handOver event).handleEvent setup event).1 t.runtime.world :=
    hruntime ▸ AuditRuntime.handleEvent_serves (s := s.runtime.handOver event) event
  have hlength : s.runtime.world.handed.length = s.delivered.length := by
    rw [hs.handed, List.length_map]
  have hself : ensureEventDescriptor event.mask event.fd = .ok () →
      w.eventOf event.fd = some s.delivered.length := fun hvalid =>
    hlength ▸ World.eventOf_handOver_self _ (fd_nonneg hvalid)
  have hother : ∀ fd, fd ≠ event.fd → w.eventOf fd = none := fun fd hfd =>
    (World.eventOf_handOver_ne _ _ hfd).trans (hs.closed hrunning fd)
  generalize ((s.runtime.handOver event).handleEvent setup event).1 = result at hserves hresult
  generalize hw' : t.runtime.world = w' at hserves
  cases hserves with
  | invalid error hinvalid =>
    have htrace : t.runtime.world.trace = s.runtime.world.trace ++ [] := by
      rw [hw', List.append_nil]
      rfl
    refine hs.admit hrunning hdelivered ?_ htrace (fun _ _ => rfl) ?_ ?_
    · rw [hw']
      rfl
    · intro hrun
      cases hresult.symm.trans hrun
    · intro hfate
      exact .invalid hfate hinvalid hresult (by rw [hdelivered, List.length_append]; rfl)
  | abandoned error hvalid =>
    have htrace : t.runtime.world.trace = s.runtime.world.trace ++
        [.closed (some s.delivered.length) (setup.io w.trace.length)] := by
      rw [hw', trace_closeDescriptor, hself hvalid]
      rfl
    refine hs.admit hrunning hdelivered ?_ htrace ?_ ?_ ?_
    · rw [hw']
      rfl
    · intro e he
      simp [Observation.concerns, he.symm]
    · intro hrun
      cases hresult.symm.trans hrun
    · intro hfate
      refine .abandoned [] (setup.io w.trace.length) (hfate.trans ?_) (.inl rfl) hresult
        (by rw [hdelivered, List.length_append]; rfl)
      simp [Observation.concerns]
  | allowed hvalid =>
    have htrace : t.runtime.world.trace = s.runtime.world.trace ++
        settlement setup.io w.trace.length (some s.delivered.length) event.mask .allow := by
      rw [hw', trace_respondAndCloseEvent, hself hvalid]
      rfl
    refine hs.admit hrunning hdelivered ?_ htrace filter_settlement.2 ?_ ?_
    · rw [hw', handed_respondAndCloseEvent]
      rfl
    · intro _ fd
      rw [hw']
      by_cases hfd : fd = event.fd
      · rw [hfd]
        exact eventOf_respondAndCloseEvent_self _ _ _ _ _
      · rw [eventOf_respondAndCloseEvent_ne _ _ _ _ _ hfd]
        exact hother fd hfd
    · intro hfate
      rw [filter_settlement.1] at hfate
      rw [isOk_mapError] at hresult
      cases hrun : t.pc.running with
      | true => exact .settled (hfate.trans (settlement_of_ok (hresult.symm.trans hrun))) hvalid
      | false =>
        obtain ⟨responses, ok, hsplit, hresponses⟩ :=
          settlement_split setup.io w.trace.length s.delivered.length event.mask
        exact .abandoned responses ok (hfate.trans hsplit) hresponses hrun
          (by rw [hdelivered, List.length_append]; rfl)

end

theorem auditCustody_start (learner : Option AuditLearner) : AuditCustody (start learner) where
  handed := rfl
  closed _ _ := rfl
  fresh _ _ := rfl
  fates e event hget := by cases hget

theorem auditCustody_reachable {setup : AuditSetup} {learner : Option AuditLearner}
    {s : AuditSession} (h : Reachable (auditLoop setup learner) anyStep s) : AuditCustody s := by
  refine Reachable.invariant (I := AuditCustody) ?_ ?_ h
  · rintro s rfl
    exact auditCustody_start learner
  · intro s a t hs _ hst
    rcases step_stepped hst with ⟨hrunning, hruntime, hdelivered⟩ |
      ⟨event, hrunning, _, hruntime, hdelivered, hresult⟩
    · refine ⟨by rw [hruntime, hs.handed, hdelivered], ?_, ?_, ?_⟩
      · rw [hruntime]
        exact fun _ => hs.closed hrunning
      · rw [hruntime, hdelivered]
        exact hs.fresh
      · intro e event hget
        rw [hdelivered] at hget
        obtain ⟨hsettled, hvalid⟩ := (hs.fates e event hget).settled_of_running hrunning
        exact .settled (hruntime ▸ hsettled) hvalid
    · exact auditCustody_handled hs event hrunning hruntime hdelivered hresult

section

variable {s : AuditSession} {e : EventId} {event : AuditDelivery}

theorem AuditFate.responded_allow (h : AuditFate s e event) {d : Decision} {ok : Bool}
    (hmem : .responded (some e) d ok ∈ s.runtime.world.trace) : d = .allow := by
  have hfate : .responded (some e) d ok ∈ s.runtime.world.fate e :=
    List.mem_filter.mpr ⟨hmem, beq_self_eq_true _⟩
  cases h with
  | settled h =>
    rw [h, ConfigGuard.settled] at hfate
    split at hfate <;> simp at hfate
    exact hfate.1
  | invalid h => simp [h] at hfate
  | abandoned responses _ h hresponses =>
    rw [h] at hfate
    rcases hresponses with rfl | ⟨_, rfl⟩ <;> simp at hfate
    exact hfate.1

theorem AuditFate.closed_last (h : AuditFate s e event)
    (hvalid : ensureEventDescriptor event.mask event.fd = .ok ()) :
    ∃ responses ok, s.runtime.world.fate e = responses ++ [.closed (some e) ok] ∧
      (responses = [] ∨ ∃ ok, responses = [.responded (some e) .allow ok]) := by
  cases h with
  | settled h =>
    rw [h, ConfigGuard.settled]
    split
    · exact ⟨[_], true, rfl, .inr ⟨true, rfl⟩⟩
    · exact ⟨[], true, rfl, .inl rfl⟩
  | invalid _ hinvalid => exact absurd hvalid hinvalid
  | abandoned responses ok h hresponses => exact ⟨responses, ok, h, hresponses⟩

theorem AuditFate.settled_of_later (h : AuditFate s e event)
    (hlater : s.pc.running = true ∨ e + 1 < s.delivered.length) :
    s.runtime.world.fate e = ConfigGuard.settled e event.mask .allow := by
  have hno : s.pc.running = false → e + 1 ≠ s.delivered.length := by
    intro hfailed hlast
    rcases hlater with hrunning | hlt
    · cases hfailed.symm.trans hrunning
    · exact hlt.ne hlast
  cases h with
  | settled h => exact h
  | invalid _ _ hfailed hlast => exact absurd hlast (hno hfailed)
  | abandoned _ _ _ _ hfailed hlast => exact absurd hlast (hno hfailed)

end

end AuditSession

/-- In both modes, whatever the policy decides, the user answers and the learner
writes: no response of the audit loop is anything but `Allow`; an event with a
valid descriptor is closed once, after one response at most; and unless it is
the last of a loop that failed, it has been answered if it asks for it. -/
theorem audit_never_denies (setup : AuditSetup) (learner : Option AuditLearner)
    (s : AuditSession) (h : Reachable (auditLoop setup learner) anyStep s) :
    (s.pc.running = true → ∀ fd, s.runtime.world.eventOf fd = none) ∧
    ∀ e event, s.delivered[e]? = some event →
      (∀ d ok, .responded (some e) d ok ∈ s.runtime.world.trace → d = .allow) ∧
      (ensureEventDescriptor event.mask event.fd = .ok () →
        ∃ responses ok, s.runtime.world.fate e = responses ++ [.closed (some e) ok] ∧
          (responses = [] ∨ ∃ ok, responses = [.responded (some e) .allow ok])) ∧
      (s.pc.running = true ∨ e + 1 < s.delivered.length →
        s.runtime.world.fate e = settled e event.mask .allow) := by
  have hs : AuditSession.AuditCustody s := AuditSession.auditCustody_reachable h
  refine ⟨hs.closed, ?_⟩
  intro e event hget
  have hfate : AuditSession.AuditFate s e event := hs.fates e event hget
  exact ⟨fun _ _ => hfate.responded_allow, hfate.closed_last, hfate.settled_of_later⟩

/-- `pi`'s files are audited with a prompt. -/
def piAudit : AuditSetup where
  paths := [Path.ofString "/home/u"]
  excludedPaths := []
  mode := .auditPrompt piPolicy.toAccessPolicy false
  io := fun _ => true
  writes := fun _ => true

/-- A `cat` below `pi` asks to open one of its files, opens it or closes it. -/
def catEvent (mask : UInt64) (fd : Int) : AuditDelivery where
  mask := mask
  fd := fd
  pid := 42
  generation := none
  target := .ok piSession
  object := .ok journal
  executedAt := 0
  inspectedAtExec := none
  openedAt := 0
  inspectedAtOpen := some (catGeneration 42 100)
  closedAt := 1
  inspectedAtClose := none
  env _ := ∅
  askAnswer _ _ := .ok (.explicit .deny)
  actual := firstGeneration

def catMoves : List AuditMove :=
  [.readBatch [catEvent fanOpenPerm 4, catEvent fanOpen 5, catEvent fanCloseNowrite 5] (.ok ()),
    .handle, .handle, .handle]

def catLearner : AuditLearner :=
  .new (Path.ofString "/tmp/learned.toml") (Path.ofString "/home/u") none

def catAudited : AuditSession :=
  runFrom (auditLoop piAudit (some catLearner)) anyStep (.start (some catLearner)) catMoves

theorem catAudited_reachable :
    Reachable (auditLoop piAudit (some catLearner)) anyStep catAudited :=
  ⟨_, rfl, runFrom_steps (by decide)⟩

theorem audit_never_denies_cat :
    catAudited.runtime.world.fate 0 = [.responded (some 0) .allow true, .closed (some 0) true] :=
  ((audit_never_denies piAudit (some catLearner) catAudited catAudited_reachable).2 0
    (catEvent fanOpenPerm 4) rfl).2.2 (.inl rfl)

end ConfigGuard
