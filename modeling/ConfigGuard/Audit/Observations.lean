import ConfigGuard.Audit.Responses

/-!
# What the audit learner is told

The accesses that a list of events stands for, and that the learner of the
audit loop is told of these, in order, and has written what it learned.
-/

namespace ConfigGuard
open OsPath Transition

/-- What an event is to the caches, with the path it is about. An event out of
scope is none of their concern, unless it executes the file. -/
def AuditDelivery.inputs (setup : AuditSetup) (event : AuditDelivery) :
    List (Path × AuditInput) :=
  match ensureEventDescriptor event.mask event.fd, event.target with
  | .ok _, .ok target =>
    (if event.isExec then [(target, .exec (event.execEvent target))] else []) ++
      if (event.isExec && event.mask &&& (fanCloseNowrite ||| fanCloseWrite) == 0) ||
          !isWatchedPath target setup.paths setup.excludedPaths then []
      else match event.object with
        | .ok object => [(target, .access (event.accessEvent object))]
        | .error _ => []
  | _, _ => []

/-- The accesses made at the closes, by the processes the caches select. -/
def AuditCaches.account (caches : AuditCaches) :
    List (Path × AuditInput) → List Access × AuditCaches
  | [] => ([], caches)
  | (_, .exec event) :: inputs => (caches.recordExecIdentity Path.display event).account inputs
  | (target, .access event) :: inputs =>
    match caches.recordIdentityAndSelectProcess event with
    | (none, caches) => caches.account inputs
    | (some (kinds, selected), caches) =>
      ((kinds.map fun kind => ⟨selected.process.subject, target, kind⟩) ++
        (caches.account inputs).1, (caches.account inputs).2)

theorem AuditCaches.account_append (caches : AuditCaches) (inputs more : List (Path × AuditInput)) :
    caches.account (inputs ++ more) =
      ((caches.account inputs).1 ++ ((caches.account inputs).2.account more).1,
        ((caches.account inputs).2.account more).2) := by
  induction inputs generalizing caches with
  | nil => rfl
  | cons input inputs ih =>
    obtain ⟨target, input⟩ := input
    cases input with
    | exec event =>
      rw [List.cons_append, account, account]
      exact ih _
    | access event =>
      rw [List.cons_append, account, account]
      split
      · exact ih _
      · rw [ih]
        simp only [List.append_assoc]

def AuditRecord.told : AuditRecord → Option Access
  | observed a => some a
  | decided _ _ _ | userDecided _ _ _ _ _ _ _ | wrote _ _ => none

def AuditRecord.written : AuditRecord → Option LearnedConfig
  | wrote output true => some output.2
  | wrote _ false | decided _ _ _ | userDecided _ _ _ _ _ _ _ | observed _ => none

namespace AuditRuntime

/-- The accesses the learner has been told of. -/
def told (s : AuditRuntime) : List Access := s.records.filterMap AuditRecord.told

/-- What the output file holds. -/
def file (s : AuditRuntime) : Option LearnedConfig :=
  (s.records.filterMap AuditRecord.written).getLast?

/-- The learner has counted what it has been told. -/
def Hears (learner : AuditLearner) (s : AuditRuntime) : Prop :=
  s.learner = some ((⟨learner, none⟩ : Session).run s.told).learner

/-- What the learner has been told was written, and the file holds what was learned from it. -/
def Written (learner : AuditLearner) (s : AuditRuntime) : Prop :=
  (⟨learner, none⟩ : Session).Succeeds s.told ∧
    s.file = ((⟨learner, none⟩ : Session).run s.told).file

/-- An evaluation tells of the accesses, of some of them where it fails. -/
structure Evaluates (learner : AuditLearner) (s : AuditRuntime)
    (r : Except AuditError Unit × AuditRuntime) (accesses : List Access) : Prop where
  caches : r.2.caches = s.caches
  told : ∃ heard, heard <+: accesses ∧ r.2.told = s.told ++ heard ∧
    (r.1.isOk = true → heard = accesses)
  hears : Hears learner r.2
  written : Written learner s → r.1.isOk = true → Written learner r.2

section

variable {setup : AuditSetup} {learner : AuditLearner} {s : AuditRuntime}

theorem told_record (r : AuditRecord) : (s.record r).told = s.told ++ r.told.toList := by
  rw [told, record, List.filterMap_append, told]
  cases hr : r.told <;> simp [hr]

theorem file_record (r : AuditRecord) : (s.record r).file = r.written.or s.file := by
  rw [file, record, List.filterMap_append, file]
  cases hr : r.written <;> simp [hr]

/-- A record of a decision tells the learner nothing. -/
theorem record_keeps {r : AuditRecord} (htold : r.told = none) (hwritten : r.written = none) :
    (s.record r).told = s.told ∧ (s.record r).file = s.file := by
  constructor
  · rw [told_record, htold, Option.toList_none, List.append_nil]
  · rw [file_record, hwritten, Option.none_or]

theorem observe_evaluates (hs : Hears learner s) (a : Access) :
    Evaluates learner s (s.observe setup a) [a] := by
  let session := (⟨learner, none⟩ : Session).run s.told
  have hrun : (⟨learner, none⟩ : Session).run (s.told ++ [a]) = (session.observe a).2 :=
    Session.run_concat _ _ _
  rw [observe, hs]
  dsimp only
  generalize hobserved : session.learner.observe a.subject a.target a.access = observed
  obtain ⟨counted, written⟩ := observed
  let told : AuditRuntime := { s with learner := some counted }.record (.observed a)
  have htold : told.told = s.told ++ [a] := told_record _
  have hfile : told.file = s.file := file_record _
  cases written with
  | none =>
    have hsession : session.observe a = (.ok (), { session with learner := counted }) := by
      rw [Session.observe, hobserved]
    show Evaluates learner s (.ok (), told) [a]
    refine ⟨rfl, ⟨[a], List.prefix_rfl, htold, fun _ => rfl⟩, ?_, ?_⟩
    · rw [Hears, htold, hrun, hsession]
      rfl
    · rintro ⟨hsucceeds, hwritten⟩ _
      rw [Written, htold, Session.succeeds_concat, hrun, hsession]
      exact ⟨⟨hsucceeds, rfl⟩, hfile.trans hwritten⟩
  | some output =>
    have hsession : session.observe a = if output.2.isSerializable
        then (.ok (), ⟨counted, some output.2⟩)
        else (.error "serializing learned config", { session with learner := counted }) := by
      rw [Session.observe, hobserved]
    show Evaluates learner s (told.writeOutput setup output) [a]
    unfold writeOutput
    dsimp only
    split
    · rename_i htext
      rw [if_pos htext] at hsession
      generalize hok : setup.writes told.records.length = ok
      have htold' : (told.record (.wrote output ok)).told = s.told ++ [a] := by
        rw [told_record, htold]
        exact List.append_nil _
      refine ⟨rfl, ⟨[a], List.prefix_rfl, htold', fun _ => rfl⟩, ?_, ?_⟩
      · rw [Hears, htold', hrun, hsession]
        rfl
      · rintro ⟨hsucceeds, -⟩ hresult
        cases ok with
        | false => cases hresult
        | true =>
          rw [Written, htold', Session.succeeds_concat, hrun, hsession, file_record]
          exact ⟨⟨hsucceeds, rfl⟩, rfl⟩
    · rename_i htext
      rw [if_neg htext] at hsession
      refine ⟨rfl, ⟨[a], List.prefix_rfl, htold, fun _ => rfl⟩, ?_, ?_⟩
      · rw [Hears, htold, hrun, hsession]
        rfl
      · intro _ hresult
        cases hresult

/-- Nothing that concerns the learner has changed. -/
structure Quiet (s t : AuditRuntime) : Prop where
  caches : t.caches = s.caches
  learner : t.learner = s.learner
  told : t.told = s.told
  file : t.file = s.file

theorem quiet_record {r : AuditRecord} (htold : r.told = none) (hwritten : r.written = none) :
    Quiet s (s.record r) :=
  ⟨rfl, rfl, (record_keeps htold hwritten).1, (record_keeps htold hwritten).2⟩

theorem Quiet.trans {t u : AuditRuntime} (h : Quiet s t) (h' : Quiet t u) : Quiet s u :=
  ⟨h'.caches.trans h.caches, h'.learner.trans h.learner, h'.told.trans h.told,
    h'.file.trans h.file⟩

theorem Quiet.hears {t : AuditRuntime} (h : Quiet s t) (hs : Hears learner s) :
    Hears learner t := by
  rw [Hears, h.learner, h.told]
  exact hs

theorem Quiet.written {t : AuditRuntime} (h : Quiet s t) (hs : Written learner s) :
    Written learner t := by
  rw [Written, h.file, h.told]
  exact hs

theorem quiet_promptOnPolicyViolation (prompt : Prompt) (pid : Int) (process : ProcessIdentity)
    (a : Access) (env : Env) (decision : Decision) :
    Quiet s (s.promptOnPolicyViolation prompt pid process a env decision) := by
  cases decision with
  | allow => exact ⟨rfl, rfl, rfl, rfl⟩
  | deny => exact ⟨rfl, rfl, rfl, rfl⟩
  | prompt reason default scope =>
    exact ⟨rfl, rfl, (record_keeps rfl rfl).1, (record_keeps rfl rfl).2⟩

theorem Evaluates.after {t : AuditRuntime} {r : Except AuditError Unit × AuditRuntime}
    {accesses : List Access} (h : Quiet s t) (hr : Evaluates learner t r accesses) :
    Evaluates learner s r accesses where
  caches := hr.caches.trans h.caches
  told := h.told ▸ hr.told
  hears := hr.hears
  written hs := hr.written (h.written hs)

/-- An evaluation that fails at once. -/
theorem Evaluates.failed (hs : Hears learner s) (error : AuditError) (accesses : List Access) :
    Evaluates learner s (.error error, s) accesses where
  caches := rfl
  told := ⟨[], List.nil_prefix, (List.append_nil _).symm, nofun⟩
  hears := hs
  written h _ := h

theorem decideEvent_evaluates (policy : Option AccessPolicy) (pid : Int) (hs : Hears learner s)
    (a : Access) : Evaluates learner s (decideEvent setup policy pid a s) [a] := by
  unfold decideEvent
  split
  · exact observe_evaluates hs a
  · split
    · exact .failed hs _ _
    · rename_i decision _
      have hquiet : Quiet s (s.record (.decided pid a decision)) := quiet_record rfl rfl
      exact .after hquiet (observe_evaluates (hquiet.hears hs) a)

theorem auditPromptEvent_evaluates (policy : AccessPolicy) (requiresGraphicalSession : Bool)
    (event : AuditDelivery) (process : ProcessIdentity) (hs : Hears learner s) (a : Access) :
    Evaluates learner s (auditPromptEvent setup policy requiresGraphicalSession event process a s)
      [a] := by
  unfold auditPromptEvent
  split
  · exact .failed hs _ _
  · rename_i decision _
    have hquiet := (quiet_record (s := s) (r := .decided event.pid a decision) rfl rfl).trans
      (quiet_promptOnPolicyViolation ⟨event.askAnswer a.access, requiresGraphicalSession⟩ event.pid
        process a (event.env a.access) decision)
    exact .after hquiet (observe_evaluates (hquiet.hears hs) a)

theorem evaluate_evaluates (event : AuditDelivery) (process : ProcessIdentity)
    (hs : Hears learner s) (a : Access) :
    Evaluates learner s (evaluate setup event process a s) [a] := by
  unfold evaluate
  cases setup.mode with
  | audit policy => exact decideEvent_evaluates policy event.pid hs a
  | auditPrompt policy requires =>
    exact auditPromptEvent_evaluates policy requires event process hs a

/-- Evaluations one after the other tell of their accesses in order. -/
theorem evaluateAll_evaluates
    {evaluate : Access → AuditRuntime → Except AuditError Unit × AuditRuntime}
    (h : ∀ a s, Hears learner s → Evaluates learner s (evaluate a s) [a]) (hs : Hears learner s)
    (accesses : List Access) :
    Evaluates learner s (evaluateAll evaluate accesses s) accesses := by
  induction accesses generalizing s with
  | nil => exact ⟨rfl, ⟨[], List.prefix_rfl, (List.append_nil _).symm, fun _ => rfl⟩, hs,
      fun hw _ => hw⟩
  | cons a accesses ih =>
    have hfirst : Evaluates learner s (evaluate a s) [a] := h a s hs
    rw [evaluateAll]
    split
    · rename_i error t heq
      rw [heq] at hfirst
      obtain ⟨heard, hpre, htold, -⟩ := hfirst.told
      exact ⟨hfirst.caches, ⟨heard, hpre.trans ⟨accesses, rfl⟩, htold,
        fun hok => absurd hok Bool.false_ne_true⟩, hfirst.hears,
        fun _ hok => absurd hok Bool.false_ne_true⟩
    · rename_i u t heq
      rw [heq] at hfirst
      obtain ⟨heard, -, htold, hheard⟩ := hfirst.told
      obtain rfl := hheard rfl
      have hrest : Evaluates learner t (evaluateAll evaluate accesses t) accesses := ih hfirst.hears
      obtain ⟨heard', hpre', htold', hheard'⟩ := hrest.told
      refine ⟨hrest.caches.trans hfirst.caches, ⟨a :: heard', ?_, ?_, ?_⟩, hrest.hears, ?_⟩
      · exact List.prefix_cons_inj a |>.mpr hpre'
      · rw [htold', htold, List.append_assoc]
        rfl
      · intro hok
        rw [hheard' hok]
      · exact fun hw hok => hrest.written (hfirst.written hw rfl) hok

/-- What evaluating an event tells, given what the event is to the caches. -/
structure Accounts (learner : AuditLearner) (s : AuditRuntime)
    (r : Except AuditError Unit × AuditRuntime) (inputs : List (Path × AuditInput)) : Prop where
  caches : r.2.caches = (s.caches.account inputs).2
  told : ∃ heard, heard <+: (s.caches.account inputs).1 ∧ r.2.told = s.told ++ heard ∧
    (r.1.isOk = true → heard = (s.caches.account inputs).1)
  hears : Hears learner r.2
  written : Written learner s → r.1.isOk = true → Written learner r.2

theorem Accounts.nothing {r : Except AuditError Unit × AuditRuntime}
    (hquiet : Quiet s r.2) (hs : Hears learner s) : Accounts learner s r [] where
  caches := hquiet.caches
  told := ⟨[], List.prefix_rfl, by rw [hquiet.told, List.append_nil], fun _ => rfl⟩
  hears := hquiet.hears hs
  written h _ := hquiet.written h

/-- What follows tells the learner nothing. -/
theorem Accounts.before {r : Except AuditError Unit × AuditRuntime}
    {result : Except AuditError Unit} {t : AuditRuntime} {inputs : List (Path × AuditInput)}
    (hr : Accounts learner s r inputs) (hquiet : Quiet r.2 t)
    (hresult : result.isOk = true → r.1.isOk = true) : Accounts learner s (result, t) inputs where
  caches := hquiet.caches.trans hr.caches
  told := by
    obtain ⟨heard, hpre, htold, hheard⟩ := hr.told
    exact ⟨heard, hpre, hquiet.told.trans htold, fun hok => hheard (hresult hok)⟩
  hears := hquiet.hears hr.hears
  written h hok := hquiet.written (hr.written h (hresult hok))

theorem decideAuditMode_accounts (hs : Hears learner s) (event : AuditDelivery) (target : Path)
    (object : AuditObjectId) :
    Accounts learner s
      ((s.decideAuditMode setup event target object).1.map fun _ => (),
        (s.decideAuditMode setup event target object).2)
      [(target, .access (event.accessEvent object))] := by
  unfold decideAuditMode
  split
  · rename_i caches heq
    have haccount : s.caches.account [(target, .access (event.accessEvent object))] =
        ([], caches) := by
      rw [AuditCaches.account, heq]
      rfl
    refine ⟨?_, ⟨[], List.nil_prefix, (List.append_nil _).symm, fun _ => ?_⟩, hs, fun hw _ => hw⟩
    · rw [haccount]
    · rw [haccount]
  · rename_i kinds selected caches heq
    have haccount : s.caches.account [(target, .access (event.accessEvent object))] =
        (kinds.map fun kind => ⟨selected.process.subject, target, kind⟩, caches) := by
      rw [AuditCaches.account, heq]
      simp only [AuditCaches.account, List.append_nil]
    dsimp only
    have hevaluate := fun a t ht => @evaluate_evaluates setup learner t event selected.process ht a
    have hall := evaluateAll_evaluates hevaluate (s := { s with caches := caches }) hs
      (kinds.map fun kind => ⟨selected.process.subject, target, kind⟩)
    obtain ⟨heard, hpre, htold, hheard⟩ := hall.told
    have hok : ∀ {x : Except AuditError Unit},
        ((x.map fun _ => Decision.allow).map fun _ => ()).isOk = true → x.isOk = true := by
      intro x h
      cases x with
      | error => cases h
      | ok => rfl
    refine ⟨?_, ⟨heard, ?_, htold, fun h => ?_⟩, hall.hears, fun hw h => hall.written hw (hok h)⟩
    · rw [haccount]
      exact hall.caches
    · rw [haccount]
      exact hpre
    · rw [haccount]
      exact hheard (hok h)

theorem quiet_respond (event : AuditDelivery) (decision : Decision) :
    Quiet s (s.respond setup event decision).2 := ⟨rfl, rfl, rfl, rfl⟩

theorem quiet_close (event : AuditDelivery) : Quiet s (s.close setup event).2 :=
  ⟨rfl, rfl, rfl, rfl⟩

theorem evaluateEvent_accounts (hs : Hears learner s) (event : AuditDelivery) (target : Path) :
    Accounts learner s (evaluateEvent setup event target s)
      (if !isWatchedPath target setup.paths setup.excludedPaths then []
        else match event.object with
          | .ok object => [(target, .access (event.accessEvent object))]
          | .error _ => []) := by
  unfold evaluateEvent
  cases isWatchedPath target setup.paths setup.excludedPaths with
  | false => exact .nothing (quiet_respond event .allow) hs
  | true =>
    simp only [if_true, Bool.not_true, Bool.false_eq_true, if_false]
    cases event.object with
    | error error => exact .nothing ⟨rfl, rfl, rfl, rfl⟩ hs
    | ok object =>
      dsimp only
      have haccounts := @decideAuditMode_accounts setup _ _ hs event target object
      cases hdecided : s.decideAuditMode setup event target object with
      | mk result t =>
        rw [hdecided] at haccounts
        cases result with
        | error error => exact haccounts.before ⟨rfl, rfl, rfl, rfl⟩ nofun
        | ok decision => exact haccounts.before (quiet_respond event decision) fun _ => rfl

theorem handleEventWithDescriptor_accounts (hs : Hears learner s) {event : AuditDelivery}
    (hvalid : ensureEventDescriptor event.mask event.fd = .ok ()) :
    Accounts learner s (handleEventWithDescriptor setup event s) (event.inputs setup) := by
  unfold handleEventWithDescriptor AuditDelivery.inputs
  rw [hvalid]
  cases event.target with
  | error error => exact .nothing ⟨rfl, rfl, rfl, rfl⟩ hs
  | ok target =>
    dsimp only
    cases event.isExec with
    | false => exact evaluateEvent_accounts hs event target
    | true =>
      simp only [if_true, Bool.true_and, List.singleton_append]
      let executed : AuditRuntime :=
        { s with caches := s.caches.recordExecIdentity Path.display (event.execEvent target) }
      have hexecuted : ∀ {r inputs}, Accounts learner executed r inputs →
          Accounts learner s r ((target, .exec (event.execEvent target)) :: inputs) :=
        fun h => ⟨h.caches, h.told, h.hears, h.written⟩
      by_cases hclose : event.mask &&& (fanCloseNowrite ||| fanCloseWrite) = 0
      · simp only [hclose, if_true, beq_self_eq_true, Bool.true_or]
        exact hexecuted (.nothing (s := executed) (quiet_respond event .allow) hs)
      · simp only [hclose, if_false, beq_eq_false_iff_ne.mpr hclose, Bool.false_or]
        exact hexecuted (evaluateEvent_accounts (s := executed) hs event target)

theorem isOk_of_bind {ε : Type} {x : Except ε Unit} {f : Unit → Except ε Unit}
    (h : (x.bind f).isOk = true) : x.isOk = true := by
  cases x with
  | error => exact h
  | ok => rfl

theorem handleEvent_accounts (hs : Hears learner s) (event : AuditDelivery) :
    Accounts learner s (s.handleEvent setup event) (event.inputs setup) := by
  unfold handleEvent
  cases hvalid : ensureEventDescriptor event.mask event.fd with
  | error error =>
    have hnone : event.inputs setup = [] := by
      rw [AuditDelivery.inputs, hvalid]
    rw [hnone]
    exact .nothing ⟨rfl, rfl, rfl, rfl⟩ hs
  | ok u =>
    exact (handleEventWithDescriptor_accounts hs hvalid).before (quiet_close event) isOk_of_bind

end

end AuditRuntime

namespace AuditSession

/-- What the events handed over amount to. -/
def account (setup : AuditSetup) (events : List AuditDelivery) : List Access × AuditCaches :=
  (AuditCaches.new AuditIdentityCache.defaultCapacity AuditProcessCache.defaultCapacity
    AuditProcessCache.defaultTtl).account (events.flatMap (·.inputs setup))

theorem account_concat (setup : AuditSetup) (events : List AuditDelivery) (event : AuditDelivery) :
    account setup (events ++ [event]) =
      ((account setup events).1 ++ ((account setup events).2.account (event.inputs setup)).1,
        ((account setup events).2.account (event.inputs setup)).2) := by
  rw [account, List.flatMap_append, AuditCaches.account_append, List.flatMap_singleton]
  rfl

/-- The learner has been told what the events amount to. -/
structure Observes (setup : AuditSetup) (learner : AuditLearner) (s : AuditSession) : Prop where
  caches : s.runtime.caches = (account setup s.delivered).2
  told : s.runtime.told <+: (account setup s.delivered).1
  complete : s.pc.running = true → s.runtime.told = (account setup s.delivered).1
  hears : AuditRuntime.Hears learner s.runtime
  written : s.pc.running = true → AuditRuntime.Written learner s.runtime

theorem observes_reachable {setup : AuditSetup} {learner : AuditLearner} {s : AuditSession}
    (h : Reachable (auditLoop setup (some learner)) anyStep s) : Observes setup learner s := by
  refine Reachable.invariant (I := Observes setup learner) ?_ ?_ h
  · rintro s rfl
    exact ⟨rfl, List.prefix_rfl, fun _ => rfl, rfl, fun _ => ⟨Session.succeeds_nil _, rfl⟩⟩
  · intro s a t hs _ hst
    rcases step_stepped hst with ⟨hrunning, hruntime, hdelivered⟩ |
      ⟨event, hrunning, -, hruntime, hdelivered, hresult⟩
    · refine ⟨?_, ?_, fun _ => ?_, ?_, fun _ => ?_⟩ <;> rw [hruntime]
      · rw [hdelivered, hs.caches]
      · rw [hdelivered]
        exact hs.told
      · rw [hdelivered]
        exact hs.complete hrunning
      · exact hs.hears
      · exact hs.written hrunning
    · have hhears : AuditRuntime.Hears learner (s.runtime.handOver event) := hs.hears
      have haccounts := @AuditRuntime.handleEvent_accounts setup _ _ hhears event
      have hcaches : (s.runtime.handOver event).caches = (account setup s.delivered).2 := hs.caches
      obtain ⟨heard, hpre, htold, hheard⟩ := haccounts.told
      rw [hcaches] at hpre hheard
      have htold' : t.runtime.told = (account setup s.delivered).1 ++ heard := by
        rw [hruntime, htold, ← hs.complete hrunning]
        rfl
      refine ⟨?_, ?_, fun hrun => ?_, ?_, fun hrun => ?_⟩
      · rw [hruntime, hdelivered, account_concat, haccounts.caches, hcaches]
      · rw [htold', hdelivered, account_concat]
        exact List.prefix_append_right_inj _ |>.mpr hpre
      · rw [htold', hdelivered, account_concat, hheard (hresult.symm.trans hrun)]
      · rw [hruntime]
        exact haccounts.hears
      · rw [hruntime]
        exact haccounts.written (hs.written hrunning) (hresult.symm.trans hrun)

end AuditSession

/-- In both modes, whatever the policy decides and the user answers, the learner
is told of the accesses that the events handed over amount to, in order, and of
no others; while the loop runs it has been told of all of them, its output could be
written each time, and the output file holds what it learned from them. -/
theorem audit_learner_observes (setup : AuditSetup) (learner : AuditLearner) (s : AuditSession)
    (h : Reachable (auditLoop setup (some learner)) anyStep s) :
    s.runtime.told <+: (AuditSession.account setup s.delivered).1 ∧
    s.runtime.learner = some ((⟨learner, none⟩ : Session).run s.runtime.told).learner ∧
    (s.pc.running = true →
      s.runtime.told = (AuditSession.account setup s.delivered).1 ∧
      (⟨learner, none⟩ : Session).Succeeds s.runtime.told ∧
      s.runtime.file = ((⟨learner, none⟩ : Session).run s.runtime.told).file) := by
  have hs : AuditSession.Observes setup learner s := AuditSession.observes_reachable h
  exact ⟨hs.told, hs.hears, fun hrunning => ⟨hs.complete hrunning, hs.written hrunning⟩⟩

theorem audit_learner_observes_cat :
    catAudited.runtime.told =
      [⟨(catGeneration 42 100).subject, piSession, .read⟩] :=
  ((audit_learner_observes piAudit catLearner catAudited catAudited_reachable).2.2 rfl).1.trans rfl

end ConfigGuard
