import ConfigGuard.Guard.Delivery

/-!
# One dialog per key

The map of pending keys keeps a second job for a key from being sent while one
is outstanding, and the cache from the moment its answer is applied.
-/

namespace ConfigGuard
open OsPath Transition AssocList

/-- The backend answers only Allow or Deny. -/
def AnswersFinally : Move → Prop
  | .workerResolve _ askAnswer => ∀ request answer, askAnswer request = .ok answer →
      answer.intoDecision = .allow ∨ answer.intoDecision = .deny
  | _ => True

def PromptOutcome.isAnswer : PromptOutcome → Bool
  | answer _ _ => true
  | failure => false

namespace GuardState

/-- The jobs that are queued, shown, or completed and not processed. -/
def outstanding (s : GuardState) : List PromptJob :=
  s.unanswered ++ ((answers s.world.trace).map (·.1)).filter fun job =>
    decide (job.id ∈ s.completions.map (·.id))

end GuardState

/-- No two outstanding jobs have the same key. -/
def KeysApart (s : GuardState) : Prop :=
  ∀ job ∈ s.outstanding, ∀ job' ∈ s.outstanding, ∀ key, job.key = some key →
    job'.key = some key → job.id = job'.id

section

variable {g : Guard} {s t : GuardState} {a : Move} {job job' : PromptJob} {key : PromptDecisionKey}

theorem mem_outstanding : job ∈ s.outstanding ↔ job ∈ s.unanswered ∨
    (∃ outcome, .answered job outcome ∈ s.world.trace) ∧
      ∃ completion ∈ s.completions, completion.id = job.id := by
  simp only [GuardState.outstanding, List.mem_append, List.mem_filter, List.mem_map,
    decide_eq_true_eq, Prod.exists, exists_and_right, exists_eq_right, mem_answers]

/-- Until the coordinator is dropped, an outstanding job has its prompt. -/
theorem prompt_of_outstanding (hchannels : Channels s) (htickets : Tickets s)
    (hjob : job ∈ s.outstanding) :
    ∃ prompt, (job.id, prompt) ∈ s.prompts ∧ SentFor job prompt := by
  rcases mem_outstanding.mp hjob with hjob | ⟨⟨outcome, hanswered⟩, completion, hmem, hid⟩
  · refine hchannels.jobs job ?_
    rcases List.mem_append.mp hjob with hheld | hqueued
    · right
      cases hworker : s.worker with
      | asking other =>
        rw [hworker, WorkerPc.asked, Option.toList_some, List.mem_singleton] at hheld
        rw [hheld]
      | idle | notifying | stopped =>
        rw [hworker] at hheld
        cases hheld
    · exact .inl hqueued
  · obtain ⟨other, prompt, hanswered', hid', hprompt, hsent⟩ := hchannels.completions completion hmem
    obtain ⟨rfl, _⟩ := htickets.unique hanswered hanswered' (hid.symm.trans hid'.symm)
    rw [hid] at hprompt
    exact ⟨prompt, hprompt, hsent⟩

/-- Two prompts with one key are the same. -/
theorem id_of_key (hs : Bookkept s) {id id' : PromptId} {prompt prompt' : PendingPrompt}
    (h : (id, prompt) ∈ s.prompts) (h' : (id', prompt') ∈ s.prompts) (hkey : prompt.key = some key)
    (hkey' : prompt'.key = some key) : id = id' := by
  have hpending : ∀ {id prompt}, s.coordinator.pending.lookup id = some prompt →
      prompt.key = some key → s.coordinator.pendingByKey.lookup key = some id :=
    fun hid hkey => (hs.keys key _).mpr ⟨_, hid, hkey⟩
  rcases GuardState.mem_prompts.mp h with hrecorded | hid
  · rcases GuardState.mem_prompts.mp h' with hrecorded' | hid'
    · exact (Prod.mk.inj (Option.some.inj (hrecorded.symm.trans hrecorded'))).1
    · -- the key of the prompt being recorded leads nowhere yet
      cases (hs.recordedKey id prompt hrecorded key hkey).symm.trans (hpending hid' hkey')
  · rcases GuardState.mem_prompts.mp h' with hrecorded' | hid'
    · cases (hs.recordedKey id' prompt' hrecorded' key hkey').symm.trans (hpending hid hkey)
    · exact Option.some.inj ((hpending hid hkey).symm.trans (hpending hid' hkey'))

theorem keysApart_of_live (hkept : Bookkept s) (hchannels : Channels s) (htickets : Tickets s) :
    KeysApart s := by
  intro job hjob job' hjob' key hkey hkey'
  obtain ⟨prompt, hprompt, hsent⟩ := prompt_of_outstanding hchannels htickets hjob
  obtain ⟨prompt', hprompt', hsent'⟩ := prompt_of_outstanding hchannels htickets hjob'
  exact id_of_key hkept hprompt hprompt' (hsent.key.trans hkey) (hsent'.key.trans hkey')

/-- Once the coordinator is dropped, no job is sent and no completion arrives. -/
theorem Stepped.dead (h : Stepped g s a t) (ht : t.main.live = false) :
    t.unanswered ⊆ s.unanswered ∧ t.completions ⊆ s.completions := by
  cases h with
  | control _ _ _ _ _ hlive' => cases hlive'.symm.trans ht
  | handled _ _ _ result => cases result <;> cases ht
  | sent | unsent | recorded | fellBack => cases ht
  | completed _ _ _ _ _ _ _ _ _ _ _ hmain' =>
    rcases hmain' with ⟨rfl, _⟩ | ⟨error, rfl, _⟩ <;> cases ht
  | dropped => exact ⟨List.Subset.refl _, List.nil_subset _⟩
  | joined => exact ⟨List.Subset.refl _, List.Subset.refl _⟩
  | received job jobs hworker hjobs =>
    refine ⟨?_, List.Subset.refl _⟩
    rw [GuardState.unanswered, GuardState.unanswered, hworker, hjobs]
    exact List.Subset.refl _
  | resolved _ _ _ _ _ _ hlive => cases hlive.symm.trans ht
  | notified _ hlive => cases hlive.symm.trans ht
  | stopped => exact ⟨List.nil_subset _, List.Subset.refl _⟩

theorem keysApart_step (hconsistent : Consistent g t) (htickets : Tickets t) (hs : KeysApart s)
    (h : Stepped g s a t) : KeysApart t := by
  cases hlive : t.main.live with
  | true => exact keysApart_of_live (hconsistent.kept hlive) (hconsistent.channels hlive) htickets
  | false =>
    obtain ⟨hunanswered, hcompletions⟩ := h.dead hlive
    have hsub : ∀ job ∈ t.outstanding, job ∈ s.outstanding := by
      intro job hjob
      rw [mem_outstanding] at hjob ⊢
      rcases hjob with hjob | ⟨⟨outcome, hanswered⟩, completion, hmem, hid⟩
      · exact .inl (hunanswered hjob)
      · rcases h.answered hanswered with hanswered | hjob
        · exact .inr ⟨⟨outcome, hanswered⟩, completion, hcompletions hmem, hid⟩
        · exact .inl hjob
    intro job hjob job' hjob'
    exact hs job (hsub job hjob) job' (hsub job' hjob')

theorem get_cachePromptDecision_ne_none {cache : PromptDecisionCache}
    (h : cache.get key ≠ none) (k : Option PromptDecisionKey) (decision : Decision) :
    (cachePromptDecision cache k decision).get key ≠ none := by
  by_cases hk : k = some key
  · subst hk
    cases decision with
    | allow => exact ne_of_eq_of_ne (AList.lookup_insert _) (Option.some_ne_none _)
    | deny => exact ne_of_eq_of_ne (AList.lookup_insert _) (Option.some_ne_none _)
    | prompt => exact h
  · rw [get_cachePromptDecision_ne hk]
    exact h

theorem get_cacheAfter_ne_none {cache : PromptDecisionCache} (h : cache.get key ≠ none)
    (outcome : PromptOutcome) (prompt : PendingPrompt) :
    (outcome.cacheAfter cache prompt).get key ≠ none := by
  cases outcome with
  | answer decision explicit =>
    rw [PromptOutcome.cacheAfter, get_cachePromptAnswer]
    exact get_cachePromptDecision_ne_none h prompt.key decision
  | failure => exact h

/-- The cache forgets no key. -/
theorem Stepped.get_ne_none (h : Stepped g s a t) (hget : s.coordinator.promptCache.get key ≠ none) :
    t.coordinator.promptCache.get key ≠ none := by
  cases h with
  | handled event events tail result c w _ _ hhandled =>
    cases hhandled with
    | answered decision cache _ hprepared =>
      rcases prepare_respond hprepared with ⟨hc, _⟩ | ⟨evaluation, _, _, hc⟩
      · rw [show cache = _ from congrArg (·.promptCache) hc]
        exact hget
      · rw [show cache = _ from congrArg (·.promptCache) hc]
        rcases immediateOf_cache g s.coordinator event evaluation with hcache |
          ⟨_, default, _, _, hcache⟩
        · rw [hcache]
          exact hget
        · rw [hcache]
          exact get_cachePromptDecision_ne_none hget _ _
    | _ => exact hget
  | sent event events tail job prompt c w _ _ hhandled =>
    cases hhandled with
    | sending => exact hget
  | unsent event events tail job prompt c w error _ _ hhandled =>
    cases hhandled with
    | sending => exact hget
  | completed closed ready completion completions result c w main _ _ hcompleted =>
    cases hcompleted with
    | unknown => exact hget
    | mismatched => exact hget
    | completed prompt => exact get_cacheAfter_ne_none hget _ prompt
  | _ => exact hget

end

/-- The job was answered, not just ended. -/
def AnsweredWith (s : GuardState) (job : PromptJob) (d : Decision) : Prop :=
  ∃ explicit, .answered job (.answer d explicit) ∈ s.world.trace

structure OneAnswer (s : GuardState) : Prop where
  final : ∀ job d, AnsweredWith s job d → d = .allow ∨ d = .deny
  first : ∀ job ∈ s.unanswered, ∀ job' d key, AnsweredWith s job' d → job.key = some key →
    job'.key ≠ some key
  once : ∀ job job' d d' key, AnsweredWith s job d → AnsweredWith s job' d' →
    job.key = some key → job'.key = some key → job.id = job'.id
  cached : s.main.live = true → ∀ job d key, AnsweredWith s job d → job.key = some key →
    job.id ∈ s.promptIds ∨ s.coordinator.promptCache.get key ≠ none

section

variable {g : Guard} {s t : GuardState} {a : Move} {job job' : PromptJob} {d : Decision}
  {key : PromptDecisionKey}

theorem AnsweredWith.of_step (h : Stepped g s a t) (hanswered : AnsweredWith t job d) :
    AnsweredWith s job d ∨ job ∈ s.unanswered := by
  obtain ⟨explicit, hmem⟩ := hanswered
  exact (h.answered hmem).imp_left fun hmem => ⟨explicit, hmem⟩

/-- Allow and Deny are all the answers there are. -/
theorem final_step (hs : OneAnswer s) (ha : AnswersFinally a) (h : s.step g a = some t) :
    AnsweredWith t job d → d = .allow ∨ d = .deny := by
  rintro ⟨explicit, hmem⟩
  have hmem := mem_answers.mpr hmem
  by_cases hresolve : ∃ current askAnswer, a = .workerResolve current askAnswer
  · obtain ⟨current, askAnswer, rfl⟩ := hresolve
    obtain ⟨job', outcome, _, houtcome, hcases⟩ := workerResolve_cases h
    have htrace : t.world = s.world.observe (.answered job' outcome) := by
      rcases hcases with ⟨_, rfl⟩ | ⟨_, rfl⟩ <;> rfl
    rw [htrace, World.trace_observe, answers_append, List.mem_append] at hmem
    rcases hmem with hmem | hnew
    · exact hs.final job d ⟨explicit, mem_answers.mp hmem⟩
    · obtain ⟨rfl, rfl⟩ := Prod.mk.inj (List.mem_singleton.mp hnew)
      rw [resolvePromptJob] at houtcome
      split at houtcome
      · cases houtcome
      · rw [askPrompt] at houtcome
        split at houtcome
        · rename_i answer hanswer
          rw [(PromptOutcome.answer.inj houtcome).1]
          exact ha _ answer hanswer
        · cases houtcome
  · rw [answers_step (fun current askAnswer heq => hresolve ⟨current, askAnswer, heq⟩) h] at hmem
    exact hs.final job d ⟨explicit, mem_answers.mp hmem⟩

/-- An answer whose prompt is still there keeps a job from being sent for its key. -/
theorem pending_of_answered (hconsistent : Consistent g s) (htickets : Tickets s)
    (hlive : s.main.live = true) {outcome : PromptOutcome}
    (hanswered : .answered job outcome ∈ s.world.trace) (hmem : job.id ∈ s.promptIds)
    (hkey : job.key = some key) : ∃ prompt, (job.id, prompt) ∈ s.prompts ∧ prompt.key = some key := by
  have hwaits := htickets.onItsWay hlive job outcome (mem_answers.mpr hanswered) hmem
  have houtstanding : job ∈ s.outstanding :=
    mem_outstanding.mpr (.inr ⟨⟨outcome, hanswered⟩, _, hwaits, rfl⟩)
  obtain ⟨prompt, hprompt, hsent⟩ :=
    prompt_of_outstanding (hconsistent.channels hlive) htickets houtstanding
  exact ⟨prompt, hprompt, hsent.key.trans hkey⟩

theorem first_step (hconsistent : Consistent g s) (htickets : Tickets s) (htickets' : Tickets t)
    (hapart : KeysApart s) (hs : OneAnswer s) (h : Stepped g s a t) (hjob : job ∈ t.unanswered)
    (hanswered : AnsweredWith t job' d) (hkey : job.key = some key) : job'.key ≠ some key := by
  intro hkey'
  rcases h.unanswered hjob with hold | hnew
  · rcases hanswered.of_step h with hanswered | hjob'
    · exact hs.first job hold job' d key hanswered hkey hkey'
    · -- both were outstanding, so they are one job, which is answered now
      have hsame := hapart job (mem_outstanding.mpr (.inl hold)) job'
        (mem_outstanding.mpr (.inl hjob')) key hkey hkey'
      obtain ⟨explicit, hmem⟩ := hanswered
      exact htickets'.not_answered hmem hjob hsame.symm
  · obtain ⟨explicit, hmem⟩ := hanswered
    have hmem := hnew.answered _ _ hmem
    rcases hs.cached hnew.live job' d key ⟨explicit, hmem⟩ hkey' with hid | hcached
    · obtain ⟨prompt, hprompt, hpkey⟩ :=
        pending_of_answered hconsistent htickets hnew.live hmem hid hkey'
      have hlookup := lookup_of_mem_prompts hnew.notRecording hprompt
      have hpending := ((hconsistent.kept hnew.live).keys key job'.id).mpr ⟨prompt, hlookup, hpkey⟩
      have hnone := hnew.notPending
      rw [hkey] at hnone
      cases hnone.symm.trans hpending
    · have hnone := hnew.uncached
      rw [hkey] at hnone
      exact hcached hnone

theorem once_step (hapart : KeysApart s) (hs : OneAnswer s) (h : Stepped g s a t) {d' : Decision}
    (hanswered : AnsweredWith t job d) (hanswered' : AnsweredWith t job' d')
    (hkey : job.key = some key) (hkey' : job'.key = some key) : job.id = job'.id := by
  rcases hanswered.of_step h with hanswered | hjob
  · rcases hanswered'.of_step h with hanswered' | hjob'
    · exact hs.once job job' d d' key hanswered hanswered' hkey hkey'
    · exact absurd hkey (hs.first job' hjob' job d key hanswered hkey')
  · rcases hanswered'.of_step h with hanswered' | hjob'
    · exact absurd hkey' (hs.first job hjob job' d' key hanswered' hkey)
    · exact hapart job (mem_outstanding.mpr (.inl hjob)) job' (mem_outstanding.mpr (.inl hjob'))
        key hkey hkey'

/-- The answer is cached when its prompt is completed. -/
theorem cached_step (hconsistent : Consistent g s) (htickets : Tickets s) (hs : OneAnswer s)
    (h : Stepped g s a t) (ht : t.main.live = true) (hanswered : AnsweredWith t job d)
    (hkey : job.key = some key) :
    job.id ∈ t.promptIds ∨ t.coordinator.promptCache.get key ≠ none := by
  have hlive := live_of_stepped h ht
  rcases hanswered.of_step h with hanswered | hjob
  · rcases hs.cached hlive job d key hanswered hkey with hid | hcached
    · rcases h.promptIds_kept hconsistent ht hid with hid | hmain |
        ⟨completion, prompt, hmem, hsame, hlookup, _, hrecorded, hcoordinator⟩
      · exact .inl hid
      · obtain ⟨explicit, hmem⟩ := hanswered
        exact absurd hmem (not_answered_of_failing hconsistent htickets hmain hid job _ rfl)
      · right
        have hfinal := hs.final job d hanswered
        obtain ⟨explicit, hanswered⟩ := hanswered
        obtain ⟨other, hother, hid', hsent⟩ := completion_answered (hconsistent.channels hlive)
          hrecorded hmem (by rw [hsame]; exact hlookup)
        obtain ⟨rfl, houtcome⟩ := htickets.unique hanswered hother (hsame.symm.trans hid'.symm)
        rw [hcoordinator, ← houtcome]
        show (cachePromptAnswer _ prompt.key prompt.authorization d explicit).get key ≠ none
        rw [get_cachePromptAnswer, hsent.key.trans hkey]
        exact ne_of_eq_of_ne (get_insertDecision_self hfinal) (Option.some_ne_none _)
    · exact .inr (h.get_ne_none hcached)
  · -- answered just now: its prompt is still there
    obtain ⟨prompt, hprompt, _⟩ := prompt_of_outstanding (hconsistent.channels hlive) htickets
      (mem_outstanding.mpr (.inl hjob))
    rcases h.promptIds_kept hconsistent ht (mem_promptIds_of_prompt hprompt) with hid | hmain |
      ⟨completion, prompt, hmem, hsame, _⟩
    · exact .inl hid
    · rw [unanswered_of_failing hconsistent.gone hmain] at hjob
      cases hjob
    · obtain ⟨other, _, hother, hid', _⟩ := (hconsistent.channels hlive).completions completion hmem
      exact absurd (hid'.trans hsame) (htickets.not_answered hother hjob)

end

theorem keysApart_reachable {g : Guard} {s : GuardState} {P : GuardState → Move → Prop}
    (h : Reachable (guardRun g) P s) : KeysApart s := by
  refine h.invariant_with (J := fun s => Consistent g s ∧ Tickets s)
    (fun _ hr => ⟨consistent_reachable hr, tickets_reachable hr⟩) ?_ ?_
  · rintro _ rfl job hjob
    cases hjob
  · rintro s a t _ ⟨hconsistent, htickets⟩ hs _ hstep
    exact keysApart_step hconsistent htickets hs (step_inv hstep)

theorem oneAnswer_initial : OneAnswer .initial := by
  refine ⟨?_, ?_, ?_, ?_⟩
  · rintro job d ⟨explicit, hmem⟩
    cases hmem
  · intro job hjob
    cases hjob
  · rintro job job' d d' key ⟨explicit, hmem⟩
    cases hmem
  · rintro _ job d key ⟨explicit, hmem⟩
    cases hmem

theorem oneAnswer_reachable {g : Guard} {s : GuardState}
    (h : Reachable (guardRun g) (fun _ a => AnswersFinally a) s) : OneAnswer s := by
  refine h.invariant_with (J := fun s => Consistent g s ∧ Tickets s ∧ KeysApart s)
    (fun _ hr => ⟨consistent_reachable hr, tickets_reachable hr, keysApart_reachable hr⟩) ?_ ?_
  · rintro _ rfl
    exact oneAnswer_initial
  · rintro s a t ⟨hconsistent, htickets, hapart⟩ ⟨_, htickets', _⟩ hs ha hstep
    have hinv := step_inv hstep
    refine ⟨?_, ?_, ?_, ?_⟩
    · intro job d
      exact final_step hs ha hstep
    · intro job hjob job' d key hanswered hkey
      exact first_step hconsistent htickets htickets' hapart hs hinv hjob hanswered hkey
    · intro job job' d d' key hanswered hanswered' hkey hkey'
      exact once_step hapart hs hinv hanswered hanswered' hkey hkey'
    · intro ht job d key hanswered hkey
      exact cached_step hconsistent htickets hs hinv ht hanswered hkey

theorem outstanding_nodup {s : GuardState} (hs : Tickets s) :
    (s.outstanding.map (·.id)).Nodup := by
  have hsub : (s.outstanding.map (·.id)).Sublist (s.unanswered.map (·.id) ++
      (answers s.world.trace).map (·.1.id)) := by
    rw [GuardState.outstanding, List.map_append]
    refine List.Sublist.append_left ?_ _
    have hfilter : ((answers s.world.trace).map (·.1)).filter
        (fun job => decide (job.id ∈ s.completions.map (·.id))) |>.Sublist
          ((answers s.world.trace).map (·.1)) := List.filter_sublist
    have hids := hfilter.map (·.id)
    rw [List.map_map] at hids
    exact hids
  exact (List.perm_append_comm.nodup_iff.mp hs.nodup).sublist hsub

/-- With a backend that answers only Allow or Deny, at any time at most one job
for a key is queued, shown, or completed and not processed, and at most one is
answered in a whole run. An event is queued for one job; what it gets is the
answer of that job, or its own default where the job fails or the worker stops
before it, and it gets it once the loop is done with the job. -/
theorem one_dialog_per_key (g : Guard) (s : GuardState)
    (h : Reachable (guardRun g) (fun _ a => AnswersFinally a) s) :
    (∀ key, (s.outstanding.filter fun job => job.key == some key).length ≤ 1 ∧
      ((answers s.world.trace).filter fun answer =>
        answer.1.key == some key && answer.2.isAnswer).length ≤ 1) ∧
    ∀ e id, .queued (some e) id ∈ s.world.trace →
      (∀ id', .queued (some e) id' ∈ s.world.trace → id' = id) ∧
      (∀ d ok, .responded (some e) d ok ∈ s.world.trace → Decides g s id e d) ∧
      (s.Done id → ∀ event, s.world.handed[e]? = some event →
        isPermissionEvent event.mask = true → ∃ d ok, .responded (some e) d ok ∈ s.world.trace) := by
  have htickets := tickets_reachable h
  have hdelivered := delivered_reachable h
  constructor
  · intro key
    constructor
    · refine length_le_one (f := (·.id)) ?_ ?_
      · exact (outstanding_nodup htickets).sublist (List.filter_sublist.map _)
      · intro job hjob job' hjob'
        obtain ⟨hjob, hkey⟩ := List.mem_filter.mp hjob
        obtain ⟨hjob', hkey'⟩ := List.mem_filter.mp hjob'
        exact keysApart_reachable h job hjob job' hjob' key (beq_iff_eq.mp hkey)
          (beq_iff_eq.mp hkey')
    · refine length_le_one (f := fun answer => answer.1.id) ?_ ?_
      · exact htickets.nodup.of_append_left.sublist (List.filter_sublist.map _)
      · rintro ⟨job, outcome⟩ hanswer ⟨job', outcome'⟩ hanswer'
        obtain ⟨hanswer, hkey⟩ := List.mem_filter.mp hanswer
        obtain ⟨hanswer', hkey'⟩ := List.mem_filter.mp hanswer'
        rw [Bool.and_eq_true, beq_iff_eq] at hkey hkey'
        cases outcome with
        | failure => cases hkey.2
        | answer d explicit =>
          cases outcome' with
          | failure => cases hkey'.2
          | answer d' explicit' =>
            exact (oneAnswer_reachable h).once job job' d d' key ⟨explicit, mem_answers.mp hanswer⟩
              ⟨explicit', mem_answers.mp hanswer'⟩ hkey.1 hkey'.1
  · intro e id hid
    refine ⟨fun id' hid' => hdelivered.once e id' id hid' hid,
      fun d ok => hdelivered.decided e id d ok hid, ?_⟩
    intro hdone event hget hmask
    exact responded_of_done h hid hdone hget hmask

/-- One process opens two of pi's files, and is denied once for both. -/
def deniedMoves : List Move :=
  [.poll true, .readBatch [catOpens, { catOpens with fd := 6 }] (.ok ()), .handle, .record, .handle,
    .workerRecv, .workerResolve (fun _ _ => true) (fun _ => .ok (.explicit .deny)), .workerNotify,
    .endBatch, .poll false, .readWake, .readWake, .tryRecv]

def denied : GuardState := runFrom (guardRun piGuard) anyStep .initial deniedMoves

theorem denied_reachable :
    Reachable (guardRun piGuard) (fun _ a => AnswersFinally a) denied := by
  refine ⟨.initial, rfl, exec_steps_of_labels (show exec _ anyStep _ deniedMoves = _ from rfl) ?_⟩
  simp [deniedMoves, AnswersFinally, PromptAnswer.intoDecision]

theorem one_dialog_denied : Decides piGuard denied 0 1 .deny :=
  ((one_dialog_per_key piGuard denied denied_reachable).2 1 0
    (List.mem_of_getElem? (i := 1) rfl)).2.1 .deny true (List.mem_of_getElem? (i := 5) rfl)

end ConfigGuard
