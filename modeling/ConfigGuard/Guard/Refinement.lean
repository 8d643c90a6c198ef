import ConfigGuard.Guard.CacheOrigin
import ConfigGuard.Guard.Ledger

/-!
# The guard refines the ledger

Forgetting the maps, the channels and the two threads, every step of the guard
is a sequence of motions of the ledger.
-/

namespace ConfigGuard
open OsPath Transition AssocList

def heldBy (prompt : PromptId × PendingPrompt) : List HeldEvent :=
  prompt.2.events.map (HeldEvent.mk prompt.1 prompt.2.key)

namespace GuardState

def heldEvents (s : GuardState) : List HeldEvent := s.prompts.flatMap heldBy

def ledger (s : GuardState) : Ledger := ⟨s.world, s.heldEvents⟩

end GuardState

structure Consistent (g : Guard) (s : GuardState) : Prop where
  gone : WorkerGone s
  kept : s.main.live = true → Bookkept s
  channels : s.main.live = true → Channels s
  across : JobsAskAcross s
  origin : CacheOrigin g s.coordinator.promptCache s.world

theorem consistent_initial (g : Guard) : Consistent g .initial := by
  refine ⟨workerGone_initial, fun _ => bookkept_initial, fun _ => .initial, ⟨?_, ?_⟩, ⟨?_, ?_⟩⟩
  · rintro job (hjob | hjob) <;> cases hjob
  · intro job outcome hmem
    exact absurd hmem List.not_mem_nil
  · intro key d hget
    cases hget
  · intro granted hmem
    exact absurd hmem (Finset.notMem_empty granted)

theorem consistent_step {g : Guard} {s t : GuardState} {a : Move} (hs : Consistent g s)
    (h : Stepped g s a t) : Consistent g t where
  gone := workerGone_step hs.gone h
  kept := bookkept_step hs.gone hs.kept h
  channels := channels_step hs.gone hs.kept hs.channels h
  across := jobsAskAcross_step hs.across h
  origin := cacheOrigin_step hs.channels hs.across hs.origin h

theorem consistent_reachable {g : Guard} {s : GuardState} {P : GuardState → Move → Prop}
    (h : Reachable (guardRun g) P s) : Consistent g s := by
  refine h.invariant ?_ ?_
  · rintro _ rfl
    exact consistent_initial g
  · intro s a t hs _ hstep
    exact consistent_step hs (step_inv hstep)

section

variable {g : Guard} {drops : GuardEvent → Prop} {loses : HeldEvent → Prop}

theorem motions_lose (w : World) {held : List HeldEvent} (rest : List HeldEvent)
    (hloses : ∀ h ∈ held, loses h) : Motions g drops loses ⟨w, held ++ rest⟩ ⟨w, rest⟩ := by
  induction held with
  | nil => exact .refl
  | cons h held ih =>
    have hfirst : Motion g drops loses ⟨w, h :: (held ++ rest)⟩ ⟨w, held ++ rest⟩ :=
      .lose _ _ h (hloses h List.mem_cons_self)
    exact (Relation.ReflTransGen.single hfirst).trans
      (ih fun other hother => hloses other (List.mem_cons_of_mem _ hother))

theorem motions_reorder (w : World) {held held' : List HeldEvent} (hperm : held.Perm held') :
    Motions g drops loses ⟨w, held⟩ ⟨w, held'⟩ := .single (.reorder w held held' hperm)

/-- The events of one prompt are settled one after the other. -/
theorem motions_respond (decisionFor : PendingEvent → Decision) (id : PromptId)
    (key : Option PromptDecisionKey) (rest : List HeldEvent) {w : World}
    {events : List PendingEvent}
    (hreason : ∀ event ∈ events, decisionFor event = event.defaultDecision ∨ ∃ job explicit,
      .answered job (.answer (decisionFor event) explicit) ∈ w.trace ∧ job.id = id ∧
        job.key = key) :
    Motions g drops loses ⟨w, events.map (HeldEvent.mk id key) ++ rest⟩
      ⟨(respondToEvents g.io decisionFor w events).2, rest⟩ := by
  induction events generalizing w with
  | nil => exact .refl
  | cons event events ih =>
    have hfirst : Motion g drops loses
        ⟨w, ⟨id, key, event⟩ :: (events.map (HeldEvent.mk id key) ++ rest)⟩
        ⟨(respondAndCloseEvent g.io w event.fd event.mask (decisionFor event)).2,
          events.map (HeldEvent.mk id key) ++ rest⟩ :=
      .settle w _ ⟨id, key, event⟩ _ (hreason event List.mem_cons_self)
    refine (Relation.ReflTransGen.single hfirst).trans (ih ?_)
    intro other hother
    rcases hreason other (List.mem_cons_of_mem _ hother) with hdefault |
      ⟨job, explicit, hanswered, hrest⟩
    · exact .inl hdefault
    · exact .inr ⟨job, explicit, (respondAndCloseEvent_quiet _ _ _ _ _).subset hanswered, hrest⟩

/-- The fallback settles every event it holds, unless a write or close fails. -/
theorem motions_fail (rest : List HeldEvent) (w : World) (prompts : List (PromptId × PendingPrompt))
    (hloses : (∃ n, g.io n = false) → ∀ h ∈ prompts.flatMap heldBy, loses h) :
    Motions g drops loses ⟨w, prompts.flatMap heldBy ++ rest⟩
      ⟨(PromptCoordinator.failPrompts g.io w (prompts.map (·.2))).2, rest⟩ := by
  induction prompts generalizing w with
  | nil => exact .refl
  | cons prompt prompts ih =>
    obtain ⟨id, prompt⟩ := prompt
    have hfirst : Motions g drops loses
        ⟨w, heldBy (id, prompt) ++ (prompts.flatMap heldBy ++ rest)⟩
        ⟨(respondWithDefaults g.io w prompt.events).2, prompts.flatMap heldBy ++ rest⟩ :=
      motions_respond (·.defaultDecision) id prompt.key _ (fun _ _ => .inl rfl)
    rw [List.flatMap_cons, List.append_assoc, List.map_cons, PromptCoordinator.failPrompts]
    refine hfirst.trans ?_
    split
    · rename_i error w' hresult
      -- the prompts after one that fails are not answered: some write or close has failed
      have hfailed : ∃ n, g.io n = false := by
        by_contra hok
        have hok' : ∀ n, g.io n = true := fun n => by
          cases hn : g.io n with
          | true => rfl
          | false => exact absurd ⟨n, hn⟩ hok
        have hres := respondToEvents_ok hok' (·.defaultDecision) w prompt.events
        rw [show respondToEvents g.io (·.defaultDecision) w prompt.events = (.error error, w') from
          hresult] at hres
        cases hres
      rw [hresult]
      exact motions_lose _ _ (fun h hmem => hloses hfailed h (List.mem_append_right _ hmem))
    · rename_i w' hresult
      rw [hresult]
      exact ih _ fun hfailed h hmem => hloses hfailed h (List.mem_append_right _ hmem)

end

theorem heldEvents_recorded_none {s : GuardState} (h : s.main.recorded = none) :
    s.heldEvents = s.coordinator.pending.entries.flatMap fun entry => heldBy (entry.1, entry.2) := by
  rw [GuardState.heldEvents, GuardState.prompts, h, List.flatMap_append]
  simp [List.flatMap_map]

theorem heldEvents_congr {s t : GuardState} (hpending : t.coordinator.pending = s.coordinator.pending)
    (hrecorded : t.main.recorded = s.main.recorded) : t.heldEvents = s.heldEvents := by
  rw [GuardState.heldEvents, GuardState.heldEvents, prompts_same hpending hrecorded]

/-- The event of a job that has just been sent is one more held event. -/
theorem heldEvents_recording {s t : GuardState} {id : PromptId} {key : Option PromptDecisionKey}
    {authorization : Option AncestryAuthorization} {event : PendingEvent}
    (hpending : t.coordinator.pending = s.coordinator.pending) (hrecorded : s.main.recorded = none)
    (hrecorded' : t.main.recorded = some (id, ⟨key, authorization, [event]⟩)) :
    t.heldEvents = ⟨id, key, event⟩ :: s.heldEvents := by
  rw [heldEvents_recorded_none hrecorded, GuardState.heldEvents, GuardState.prompts, hrecorded',
    hpending]
  simp [heldBy, List.flatMap_map]

/-- Recording a prompt holds nothing new. -/
theorem heldEvents_recordPrompt {s t : GuardState} {id : PromptId} {prompt : PendingPrompt}
    (hs : Bookkept s) (hrecorded : s.main.recorded = some (id, prompt))
    (hrecorded' : t.main.recorded = none)
    (hcoordinator : t.coordinator = s.coordinator.recordPrompt id prompt) :
    t.heldEvents = s.heldEvents := by
  have hnew : id ∉ s.coordinator.pending.entries.keys := hs.recorded_notMem hrecorded
  rw [heldEvents_recorded_none hrecorded', GuardState.heldEvents, GuardState.prompts, hrecorded,
    hcoordinator]
  simp [PromptCoordinator.recordPrompt, List.kerase_of_notMem_keys hnew, List.flatMap_map]

/-- The events of a pending prompt, and those of the others. -/
theorem held_erase {pending : AList fun _ : PromptId => PendingPrompt} {id : PromptId}
    {prompt : PendingPrompt} (hid : pending.lookup id = some prompt) :
    (pending.entries.flatMap fun entry => heldBy (entry.1, entry.2)).Perm
      (prompt.events.map (HeldEvent.mk id prompt.key) ++
        (pending.erase id).entries.flatMap fun entry => heldBy (entry.1, entry.2)) := by
  have hsplit := (entries_perm hid).flatMap_right fun entry => heldBy (entry.1, entry.2)
  rw [List.flatMap_cons] at hsplit
  exact hsplit

/-- An event pushed onto a pending prompt is one more held event. -/
theorem held_insert_push {pending : AList fun _ : PromptId => PendingPrompt} {id : PromptId}
    {prompt : PendingPrompt} (hid : pending.lookup id = some prompt) (event : PendingEvent) :
    (⟨id, prompt.key, event⟩ :: pending.entries.flatMap fun entry => heldBy (entry.1, entry.2)).Perm
      ((pending.insert id (prompt.push event)).entries.flatMap
        fun entry => heldBy (entry.1, entry.2)) := by
  have hentries : (pending.insert id (prompt.push event)).entries =
      ⟨id, prompt.push event⟩ :: (pending.erase id).entries := AList.entries_insert
  rw [hentries, List.flatMap_cons]
  refine ((held_erase hid).cons _).trans ?_
  rw [heldBy, PendingPrompt.push, List.map_append, List.map_cons, List.map_nil, List.append_assoc]
  exact List.perm_middle.symm

/-- The events that are neither answered nor held. -/
def Unhandled (g : Guard) (c : PromptCoordinator) (event : GuardEvent) : Prop :=
  (∃ error, ensureEventDescriptor event.mask event.fd = .error error) ∨
  (∃ error, prepareEventAction g c event = (.error error, c)) ∨
  ∃ spec, prepareEventAction g c event = (.ok (.prompt spec), c) ∧
    c.pendingPromptId spec.key = none ∧ ¬ c.nextId + 1 < 2 ^ 64

/-- A decision made without a prompt has a reason. -/
theorem grounded_of_prepared {g : Guard} {c c' : PromptCoordinator} {w : World}
    {event : GuardEvent} {d : Decision} (hs : CacheOrigin g c.promptCache w)
    (h : prepareEventAction g c event = (.ok (.respond d), c')) :
    Grounded g w.handed w.trace w.handed.length event d := by
  rcases prepare_respond h with ⟨_, hd, target, htarget, hwatched⟩ |
    ⟨evaluation, hevaluation, hdecision, _⟩
  · exact .unwatched target htarget hwatched hd
  · unfold immediateOf at hdecision
    cases hpolicy : evaluation.policyDecision with
    | allow =>
      rw [hpolicy] at hdecision
      obtain rfl := Option.some.inj hdecision
      exact .policy evaluation hevaluation hpolicy (.inl rfl)
    | deny =>
      rw [hpolicy] at hdecision
      obtain rfl := Option.some.inj hdecision
      exact .policy evaluation hevaluation hpolicy (.inr rfl)
    | prompt reason default scope =>
      refine .prompt evaluation reason default scope hevaluation hpolicy ?_
      rw [hpolicy] at hdecision
      -- a grant, a cached decision, or the default where no dialog can be shown
      rcases immediatePromptDecision_cases g.requiresGraphicalSession c.promptCache
        evaluation.promptKey evaluation.authorization event.env reason default scope with
        ⟨hallows, himm⟩ | ⟨_, ⟨d', hcached, himm⟩ | ⟨_, himm | himm⟩⟩ <;> rw [himm] at hdecision
      · obtain ⟨a, ha, hmem⟩ := allowsAuthorization_iff.mp hallows
        obtain ⟨job, b, hanswered, hjob, hkey, _⟩ := hs.authorizations _ hmem
        exact .granted job a b hanswered ha hjob hkey (Option.some.inj hdecision).symm
      · obtain rfl := Option.some.inj hdecision
        obtain ⟨key, hkey, hget⟩ := Option.bind_eq_some_iff.mp hcached
        rcases hs.decisions key d' hget with ⟨job, explicit, hanswered, hjob⟩ |
          ⟨e', event', evaluation', reason', scope', hhanded, hevaluation', hkey', hdecision'⟩
        · refine .answered job explicit hanswered (hjob.trans hkey.symm) ?_
          intro hnone
          cases hkey.symm.trans hnone
        · exact .defaultOfKey e' event' evaluation' key reason' scope'
            (List.getElem?_eq_some_iff.mp hhanded).1 hhanded hevaluation' hkey hkey' hdecision'
      · exact .default (Option.some.inj hdecision).symm
      · cases hdecision

/-- An event that asks for a prompt is held for it. -/
theorem heldFor_of_prepared {g : Guard} {c c' : PromptCoordinator} {event : GuardEvent}
    {spec : PromptSpec} (hevent : ensureEventDescriptor event.mask event.fd = .ok ())
    (h : prepareEventAction g c event = (.ok (.prompt spec), c')) (id : PromptId) :
    HeldFor g event ⟨id, spec.key, ⟨event.fd, event.mask, spec.defaultDecision⟩⟩ := by
  obtain ⟨_, evaluation, scope, hevaluation, hdecision, hkey, _⟩ := prepare_prompt h
  exact ⟨rfl, rfl, hevent, evaluation, spec.reason, scope, hevaluation, hdecision, hkey.symm⟩

theorem motions_notes {g : Guard} {drops : GuardEvent → Prop} {loses : HeldEvent → Prop} (w : World)
    (held : List HeldEvent) (notes : List Observation)
    (h : ∀ o ∈ notes, ∃ job outcome, o = .answered job outcome) :
    Motions g drops loses ⟨w, held⟩ ⟨{ w with trace := w.trace ++ notes }, held⟩ := by
  induction notes generalizing w with
  | nil => rw [List.append_nil]
  | cons o notes ih =>
    obtain ⟨job, outcome, rfl⟩ := h o List.mem_cons_self
    have hfirst : Motion g drops loses ⟨w, held⟩ ⟨w.observe (.answered job outcome), held⟩ :=
      .note w held job outcome
    have hrest := ih (w.observe (.answered job outcome))
      (fun o' ho' => h o' (List.mem_cons_of_mem _ ho'))
    rw [World.trace_observe, List.append_assoc, List.singleton_append] at hrest
    exact (Relation.ReflTransGen.single hfirst).trans hrest

section

variable {g : Guard} {drops : GuardEvent → Prop} {loses : HeldEvent → Prop} {s : GuardState}

theorem motions_handled {t : GuardState} {event : GuardEvent} {events : List GuardEvent}
    {tail : Except String Unit} {result : Except GuardError Unit} {c : PromptCoordinator}
    {w : World} (hs : Consistent g s) (hmain : s.main = .serving (event :: events) tail)
    (hfree : s.world.descriptorIsFree event = true)
    (h : Handled g s.coordinator (s.world.handOver event) event (.finished result, c, w))
    (hdrops : Unhandled g s.coordinator event → drops event)
    (ht : t = { s with coordinator := c, world := w, main := .afterEvent result events tail }) :
    Motions g drops loses s.ledger t.ledger := by
  have hlive : s.main.live = true := by rw [hmain]; rfl
  have hrecorded : s.main.recorded = none := by rw [hmain]; rfl
  have hheld : c.pending = s.coordinator.pending → t.ledger = ⟨w, s.heldEvents⟩ := by
    intro hpending
    subst ht
    rw [GuardState.ledger, heldEvents_congr hpending
      ((afterEvent_recorded _ _ _).trans hrecorded.symm)]
  cases h with
  | rejected error hevent =>
    rw [hheld rfl]
    exact .single (.reject _ _ event hfree (hdrops (.inl ⟨error, hevent⟩)))
  | answered decision cache hevent hprepared =>
    rw [hheld rfl]
    exact .single (.answer _ _ event decision hfree hevent
      (grounded_of_prepared hs.origin hprepared))
  | unprepared error hevent hprepared =>
    rw [hheld rfl]
    exact .single (.discard _ _ event hfree hevent (hdrops (.inr (.inl ⟨error, hprepared⟩))))
  | dangling spec key id _ _ _ hkey hid => exact absurd hid ((hs.kept hlive).not_dangling hkey)
  | exhausted spec hevent hprepared hkey hid =>
    rw [hheld rfl]
    exact .single (.reject _ _ event hfree (hdrops (.inr (.inr ⟨spec, hprepared, hkey, hid⟩))))
  | appended spec key id prompt hevent hprepared hspec hkey hid =>
    obtain ⟨prompt', hprompt', hkey'⟩ := ((hs.kept hlive).keys key id).mp hkey
    obtain rfl := Option.some.inj (hid.symm.trans hprompt')
    have hsame : spec.key = prompt.key := hspec.trans hkey'.symm
    have hfor := heldFor_of_prepared hevent hprepared id
    rw [hsame] at hfor
    have hopen := World.eventOf_handOver_self s.world (fd_nonneg hevent)
    rw [hopen] at ht
    subst ht
    -- held at the front, then moved to its prompt
    refine .tail (.single (.hold _ _ event _ hfree hfor)) ?_
    rw [GuardState.ledger, heldEvents_recorded_none hrecorded,
      heldEvents_recorded_none rfl]
    exact .reorder _ _ _ (held_insert_push hid _)

theorem step_motions {t : GuardState} {a : Move} (hs : Consistent g s) (h : Stepped g s a t)
    (hdrops : a = .handle → ∀ event events tail, s.main = .serving (event :: events) tail →
      Unhandled g s.coordinator event → drops event)
    (hfailed : (∃ order, a = .failPending order) → (∃ n, g.io n = false) →
      ∀ h ∈ s.heldEvents, loses h)
    (hdropped : a = .drop → ∀ h ∈ s.heldEvents, loses h) :
    Motions g drops loses s.ledger t.ledger := by
  -- steps that leave the world and the prompts alone
  have hstay : t.world = s.world → t.coordinator.pending = s.coordinator.pending →
      t.main.recorded = s.main.recorded → Motions g drops loses s.ledger t.ledger := by
    intro hworld hpending hrecorded
    rw [GuardState.ledger, GuardState.ledger, hworld, heldEvents_congr hpending hrecorded]
  cases h with
  | control _ main bytes _ hrecorded _ hrecorded' =>
    exact hstay rfl rfl (hrecorded'.trans hrecorded.symm)
  | handled event events tail result c w hmain hfree hhandled =>
    exact motions_handled hs hmain hfree hhandled (hdrops rfl event events tail hmain) rfl
  | sent event events tail job prompt c w hmain hfree hhandled =>
    have hrecorded : s.main.recorded = none := by rw [hmain]; rfl
    cases hhandled with
    | sending spec job hevent hprepared =>
      rw [World.eventOf_handOver_self s.world (fd_nonneg hevent)]
      have hheld := heldEvents_recording (s := s) (t := { s with
          coordinator := { s.coordinator with nextId := s.coordinator.nextId + 1 }
          main := .recording job.id ⟨spec.key, spec.authorization,
            [⟨event.fd, event.mask, spec.defaultDecision⟩]⟩ events tail }) rfl hrecorded rfl
      have hhold : Motion g drops loses s.ledger _ :=
        .hold s.world s.heldEvents event _ hfree (heldFor_of_prepared hevent hprepared job.id)
      rw [← hheld] at hhold
      exact .single hhold
  | unsent event events tail job prompt c w error hmain hfree hhandled =>
    have hrecorded : s.main.recorded = none := by rw [hmain]; rfl
    cases hhandled with
    | sending spec job hevent hprepared _ _ hjob =>
      obtain ⟨_, evaluation, scope, hevaluation, hdecision, _⟩ := prepare_prompt hprepared
      rw [hjob.2.2.2.2, GuardState.ledger, GuardState.ledger, heldEvents_recorded_none hrecorded,
        heldEvents_recorded_none rfl]
      exact .single (.answer _ _ event _ hfree hevent
        (.prompt evaluation spec.reason _ scope hevaluation hdecision (.default rfl)))
  | recorded id prompt events tail hmain =>
    have hrecorded : s.main.recorded = some (id, prompt) := by rw [hmain]; rfl
    have hheld := heldEvents_recordPrompt (t := { s with
      coordinator := s.coordinator.recordPrompt id prompt, main := .serving events tail })
      (hs.kept (by rw [hmain]; rfl)) hrecorded rfl rfl
    rw [GuardState.ledger, GuardState.ledger, hheld]
  | completed closed ready completion completions result c w main hmain hcompletions hcompleted
      hmain' =>
    have hlive : s.main.live = true := by rw [hmain]; rfl
    have hrecorded : s.main.recorded = none := by rw [hmain]; rfl
    have hrecorded' : main.recorded = none := recorded_of_completed hmain'
    obtain ⟨prompt, hid, _, _, rfl, rfl⟩ :=
      (hs.kept hlive).completed hrecorded hcompletions hcompleted
    obtain ⟨job, hanswered, hjob, hsent⟩ := completion_answered (hs.channels hlive) hrecorded
      (by rw [hcompletions]; exact List.mem_cons_self) hid
    rw [GuardState.ledger, GuardState.ledger, heldEvents_recorded_none hrecorded,
      heldEvents_recorded_none hrecorded']
    -- the events of the completed prompt come first, then they are settled in order
    refine (motions_reorder s.world (held_erase hid)).trans ?_
    refine motions_respond completion.outcome.decisionFor completion.id prompt.key _ ?_
    intro event _
    cases houtcome : completion.outcome with
    | failure => exact .inl rfl
    | answer decision explicit =>
      rw [houtcome] at hanswered
      exact .inr ⟨job, explicit, hanswered, hjob, hsent.key.symm⟩
  | fellBack order error hmain horder =>
    have hrecorded : s.main.recorded = none := by rw [hmain]; rfl
    -- the map yields its prompts in some order, and the ledger follows it
    obtain ⟨prompts, hperm, hvalues⟩ := entries_in_order horder
    rw [GuardState.ledger, GuardState.ledger, heldEvents_recorded_none hrecorded, ← hvalues]
    have hreorder := hperm.flatMap_right heldBy
    rw [List.flatMap_map] at hreorder
    have hloses : (∃ n, g.io n = false) → ∀ h ∈ prompts.flatMap heldBy, loses h := by
      intro hio h hmem
      apply hfailed ⟨order, rfl⟩ hio h
      rw [heldEvents_recorded_none hrecorded]
      exact hreorder.mem_iff.mpr hmem
    refine (motions_reorder s.world hreorder).trans ?_
    have hfail : Motions g drops loses ⟨s.world, prompts.flatMap heldBy ++ []⟩ _ :=
      motions_fail [] s.world prompts hloses
    rw [List.append_nil] at hfail
    exact hfail
  | dropped error hmain =>
    have hlost : Motions g drops loses ⟨s.world, s.heldEvents ++ []⟩ ⟨s.world, []⟩ :=
      motions_lose s.world [] (hdropped rfl)
    rw [List.append_nil] at hlost
    exact hlost
  | joined error error' hmain => exact hstay rfl rfl (by rw [hmain]; rfl)
  | received => exact hstay rfl rfl rfl
  | resolved job current ask outcome => exact .single (.note _ _ job outcome)
  | notified => exact hstay rfl rfl rfl
  | stopped _ panicked answers hanswers =>
    refine motions_notes s.world s.heldEvents answers ?_
    intro o ho
    obtain ⟨job, outcome, _, heq⟩ := hanswers o ho
    exact ⟨job, outcome, heq⟩

end

/-- Every run of the guard is a run of the ledger, one that may drop and lose
events. -/
theorem motions_of_steps {g : Guard} {s t : GuardState} {P : GuardState → Move → Prop}
    (hs : Consistent g s) (h : Steps (guardRun g) P s t) :
    Motions g (fun _ => True) (fun _ => True) s.ledger t.ledger := by
  have hboth : Consistent g t ∧
      Motions g (fun _ => True) (fun _ => True) s.ledger t.ledger := by
    refine h.keeps (I := fun t => Consistent g t ∧
      Motions g (fun _ => True) (fun _ => True) s.ledger t.ledger) ?_ ⟨hs, .refl⟩
    rintro u a v ⟨hu, hmotions⟩ _ hstep
    have hinv := step_inv hstep
    exact ⟨consistent_step hu hinv, hmotions.trans (step_motions hu hinv
      (fun _ _ _ _ _ _ => trivial) (fun _ _ _ _ => trivial) (fun _ _ _ => trivial))⟩
  exact hboth.2

theorem tidy_reachable {g : Guard} {s : GuardState} {P : GuardState → Move → Prop}
    (h : Reachable (guardRun g) P s) : Tidy g s.ledger := by
  obtain ⟨_, rfl, hsteps⟩ := h
  have hinitial : Tidy g GuardState.initial.ledger := by
    refine ⟨List.nodup_nil, fun h hmem => absurd hmem List.not_mem_nil, ?_, ?_⟩
    · intro fd e hfd
      cases hfd
    · intro i ev d ok hi
      cases hi
  exact hinitial.motions (motions_of_steps (consistent_initial g) hsteps)

/-- Every response in the trace has its reason. -/
theorem responded_grounded {g : Guard} {s : GuardState} {P : GuardState → Move → Prop}
    (h : Reachable (guardRun g) P s) {e : EventId} {event : GuardEvent}
    (hget : s.world.handed[e]? = some event) {d : Decision} {ok : Bool}
    (hmem : .responded (some e) d ok ∈ s.world.trace) :
    Grounded g s.world.handed s.world.trace e event d := by
  obtain ⟨before, after, htrace⟩ := List.append_of_mem hmem
  obtain ⟨e', event', he, hget', hgrounded⟩ := justified_split (tidy_reachable h).justified htrace
  obtain rfl := Option.some.inj he
  obtain rfl := Option.some.inj (hget.symm.trans hget')
  refine hgrounded.mono List.prefix_rfl ?_
  rw [show s.world.trace = _ from htrace]
  exact List.subset_append_left _ _

theorem queuesPrompts_reachable {g : Guard} {s : GuardState} {P : GuardState → Move → Prop}
    (h : Reachable (guardRun g) P s) : QueuesPrompts g s.world := by
  obtain ⟨_, rfl, hsteps⟩ := h
  have hinitial : QueuesPrompts g GuardState.initial.ledger.world := by
    intro ev id hmem
    cases hmem
  exact hinitial.motions (motions_of_steps (consistent_initial g) hsteps)

end ConfigGuard
