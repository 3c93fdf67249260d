import RQuery.Common.Related
import RQuery.Distributed.Scheduler

/-!
# Simulations of executor clients

A scheduler reaches its executors through an `ExecutorClient` alone. If one client simulates another
on the tasks that the scheduler sends, task by task, then a whole job run over the one is simulated
by the job run over the other (`Scheduler.execute_simulated`).
-/

namespace RQuery

section

variable [FloatModel] {σ τ : Type}

/-- On tasks with plans that are `Sent`, from related states, the clients report the same locations
and leave related states, or both fail; the results of final tasks are related by `Final`. -/
structure ExecutorClient.Simulated (client : ExecutorClient σ) (client' : ExecutorClient τ)
    (executors : List ExecutorConfig) (Sent : PhysicalPlan → Prop) (R : σ → τ → Prop)
    (Final : Result BatchStream → Result BatchStream → Prop) : Prop where
  task : ∀ executor ∈ executors, ∀ t : Task, Sent t.plan → ∀ s s', R s s' →
    Outcome.Matched (fun x y => x.1 = y.1 ∧ R x.2 y.2) (client.executeTask executor t s)
      (client'.executeTask executor t s')
  final : ∀ executor ∈ executors, ∀ t : Task, Sent t.plan → ∀ s s', R s s' →
    Final (client.executeFinalTask executor t s) (client'.executeFinalTask executor t s')
  fails : ∀ e e', Final (.error e) (.error e')

namespace Scheduler

variable {scheduler : Scheduler σ} {client' : ExecutorClient τ} {Sent : PhysicalPlan → Prop}
  {R : σ → τ → Prop} {Final : Result BatchStream → Result BatchStream → Prop}

/-- The scheduler with another client. -/
def withClient (scheduler : Scheduler σ) (client' : ExecutorClient τ) : Scheduler τ :=
  ⟨scheduler.config, scheduler.planner, client'⟩

theorem executorOf_mem {partitionId : ℕ} {executor : ExecutorConfig}
    (h : scheduler.executorOf partitionId = .ok executor) :
    executor ∈ scheduler.config.executors := by
  unfold executorOf at h
  split at h
  · cases h
  · exact List.mem_of_getElem? (index_eq_ok_iff.mp h)

/-- The tasks of a stage, one after the other. -/
theorem executeTasks_simulated
    (h : scheduler.executorClient.Simulated client' scheduler.config.executors Sent R Final)
    (jobUuid : String) {stage : QueryStage} (hsent : Sent stage.plan) (partitionIds : List ℕ)
    {s : σ} {s' : τ} (hR : R s s') :
    Outcome.Matched (fun x y => x.1 = y.1 ∧ R x.2 y.2)
      (scheduler.executeTasks jobUuid stage partitionIds s)
      ((scheduler.withClient client').executeTasks jobUuid stage partitionIds s') := by
  induction partitionIds generalizing s s' with
  | nil => exact .ok ⟨rfl, hR⟩
  | cons partitionId partitionIds ih =>
    have hone : Outcome.Matched (fun x y => x.1 = y.1 ∧ R x.2 y.2)
        (scheduler.executeTaskOf jobUuid stage partitionId s)
        ((scheduler.withClient client').executeTaskOf jobUuid stage partitionId s') := by
      unfold executeTaskOf
      rw [show (scheduler.withClient client').executorOf partitionId =
        scheduler.executorOf partitionId from rfl]
      cases hexecutor : scheduler.executorOf partitionId with
      | error e => exact .error e e
      | ok executor => exact h.task executor (executorOf_mem hexecutor) _ hsent s s' hR
    rw [executeTasks_cons, executeTasks_cons]
    refine hone.bind ?_
    rintro ⟨first, s₁⟩ ⟨_, s₁'⟩ ⟨rfl, hfirst⟩
    refine (ih hfirst).bind ?_
    rintro ⟨later, s₂⟩ ⟨_, s₂'⟩ ⟨rfl, hlater⟩
    exact .ok ⟨rfl, hlater⟩

/-- The stages of a job, given the locations of the earlier ones. -/
theorem executeStages_simulated
    (h : scheduler.executorClient.Simulated client' scheduler.config.executors Sent R Final)
    {jobUuid : String} {stages : List QueryStage}
    (hsent : ∀ stage ∈ stages, Sent stage.plan ∧ ∀ locations, Sent (stage.plan.atLocations locations))
    (locationsByStage : List (Int32 × List ShuffleLocation)) {s : σ} {s' : τ} (hR : R s s') :
    Final (scheduler.executeStages jobUuid stages locationsByStage s)
      ((scheduler.withClient client').executeStages jobUuid stages locationsByStage s') := by
  induction stages generalizing locationsByStage s s' with
  | nil => exact h.fails _ _
  | cons stage stages ih =>
    have hrest := ih fun stage' hstage' => hsent stage' (List.mem_cons_of_mem stage hstage')
    obtain ⟨hplan, hinjected⟩ := hsent stage List.mem_cons_self
    have hrun : ∀ updated : QueryStage, Sent updated.plan →
        Final
          (if updated.isFinalStage then scheduler.executeFinalStage jobUuid updated s
            else do
              let reported ← scheduler.executeStage jobUuid updated s
              scheduler.executeStages jobUuid stages
                ((updated.stageId, reported.1) :: locationsByStage) reported.2)
          (if updated.isFinalStage then
              (scheduler.withClient client').executeFinalStage jobUuid updated s'
            else do
              let reported ← (scheduler.withClient client').executeStage jobUuid updated s'
              (scheduler.withClient client').executeStages jobUuid stages
                ((updated.stageId, reported.1) :: locationsByStage) reported.2) := by
      intro updated hupdated
      split
      · unfold executeFinalStage
        rw [show (scheduler.withClient client').config.executors = scheduler.config.executors from rfl]
        cases hexecutors : scheduler.config.executors with
        | nil => exact h.fails _ _
        | cons executor executors =>
          exact h.final executor (hexecutors ▸ List.mem_cons_self) _ hupdated s s' hR
      · unfold executeStage
        have hstage := executeTasks_simulated h jobUuid hupdated
          (List.range updated.partitionCount.toInt.toNat) hR
        generalize scheduler.executeTasks jobUuid updated
          (List.range updated.partitionCount.toInt.toNat) s = x at hstage
        generalize (scheduler.withClient client').executeTasks jobUuid updated
          (List.range updated.partitionCount.toInt.toNat) s' = x' at hstage
        cases hstage with
        | error e e' => exact h.fails e e'
        | @ok x y hxy =>
          obtain ⟨locations, s⟩ := x
          obtain ⟨_, s'⟩ := y
          obtain ⟨rfl, hstates⟩ := hxy
          exact hrest _ hstates
    rw [executeStages, executeStages]
    split
    · exact h.fails _ _
    · dsimp only
      split
      · exact hrun stage hplan
      · rw [show (scheduler.withClient client').planner = scheduler.planner from rfl,
          DistributedPlanner.updateShuffleLocations, substituteShuffleReader_eq]
        exact hrun _ (hinjected _)

/-- A job run over a client is simulated by the job run over a client that simulates it. -/
theorem execute_simulated
    (h : scheduler.executorClient.Simulated client' scheduler.config.executors Sent R Final)
    {plan : PhysicalPlan} {jobUuid : String}
    (hsent : ∀ stage ∈ scheduler.planner.plan plan jobUuid,
      Sent stage.plan ∧ ∀ locations, Sent (stage.plan.atLocations locations))
    {s : σ} {s' : τ} (hR : R s s') :
    Final (scheduler.execute plan jobUuid s) ((scheduler.withClient client').execute plan jobUuid s') :=
  executeStages_simulated h (fun stage hstage => hsent stage (List.mem_mergeSort.mp hstage)) [] hR

end Scheduler

end

end RQuery
