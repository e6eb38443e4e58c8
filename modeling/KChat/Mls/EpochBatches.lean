import KChat.Mls.PlainJoins

/-!
# Epochs of many groups

The statuses of many groups are read with one statement, which has a parameter for each of them.

* `Keyed`: the primary key of the status table. `selectIn`: a statement with many parameters.
* `getGroupPendingOperationsBatch`, `UqMls.groupEpochs`, `UqMls.groupContexts`.
* `lookup_collect`, `wp_pendingOperations`: the statuses that are read. `wp_groupEpochs`,
  `wp_groupContexts`: what is reported.
* **`epochs_pointwise_iff`**: when a batch reports what is reported of each group.
-/

namespace KChat.Mls

open Lib OpenMls

/-! ## The status table -/

section table

variable {groupId : String} {statuses : GroupStatuses}

/-- **The primary key**: no group has two rows. -/
def Keyed (statuses : GroupStatuses) : Prop := (statuses.map Prod.fst).Nodup

theorem Keyed.filter (h : Keyed statuses) (p : String × String → Bool) :
    Keyed (statuses.filter p) :=
  h.sublist (List.filter_sublist.map Prod.fst)

theorem Keyed.insert (h : Keyed statuses) (groupId op : String) :
    Keyed ((groupId, op) :: statuses.filter (·.1 != groupId)) := by
  have hrest : Keyed (statuses.filter (·.1 != groupId)) := h.filter _
  refine List.nodup_cons.mpr ⟨fun hmem => ?_, hrest⟩
  obtain ⟨row, hrow, hid⟩ := List.mem_map.mp hmem
  have hne := (List.mem_filter.mp hrow).2
  simp [hid] at hne

theorem statusOf_cons (row : String × String) (statuses : GroupStatuses) :
    statusOf groupId (row :: statuses) =
      if row.1 = groupId then some row.2 else statusOf groupId statuses := by
  unfold statusOf
  by_cases h : row.1 = groupId
  · simp [h]
  · simp [h]

theorem statusOf_eq_none (h : groupId ∉ statuses.map Prod.fst) : statusOf groupId statuses = none := by
  rw [statusOf, List.find?_eq_none.mpr, Option.map_none]
  intro row hrow hid
  exact h (List.mem_map.mpr ⟨row, hrow, beq_iff_eq.mp hid⟩)

theorem statusOf_filter_mem {groupIds : List String} (h : groupId ∈ groupIds) :
    statusOf groupId (statuses.filter fun row => decide (row.1 ∈ groupIds)) =
      statusOf groupId statuses := by
  rw [statusOf, statusOf, List.find?_filter]
  congr 2
  funext row
  by_cases hrow : row.1 = groupId
  · simp [hrow, h]
  · simp [hrow]

abbrev PendingOperations : Type := AList fun _ : String => String

def collect (rows : GroupStatuses) : PendingOperations :=
  rows.foldl (fun result row => result.insert row.1 row.2) ∅

theorem lookup_collect_from (h : Keyed statuses) (m : PendingOperations) :
    (statuses.foldl (fun result row => result.insert row.1 row.2) m).lookup groupId =
      (statusOf groupId statuses).or (m.lookup groupId) := by
  induction statuses generalizing m with
  | nil => rfl
  | cons row rest ih =>
    obtain ⟨hnot, hrest⟩ := List.nodup_cons.mp h
    rw [List.foldl_cons, ih hrest, statusOf_cons]
    by_cases hid : row.1 = groupId
    · subst hid
      rw [statusOf_eq_none hnot, if_pos rfl, AList.lookup_insert]
      rfl
    · rw [if_neg hid, AList.lookup_insert_ne (Ne.symm hid)]

/-- **The map holds the statuses.** -/
theorem lookup_collect (h : Keyed statuses) :
    (collect statuses).lookup groupId = statusOf groupId statuses := by
  rw [collect, lookup_collect_from h]
  exact Option.or_none

end table

/-! ## Batches -/

/-- A statement with a parameter for each key. It is rejected if it has more parameters than the
engine allows, and yields the rows with these keys otherwise. -/
def selectIn (maxVariables : ℕ) (keys : List String) (rows : GroupStatuses) :
    Except String GroupStatuses :=
  if keys.length ≤ maxVariables then .ok (rows.filter fun row => decide (row.1 ∈ keys))
  else .error "too many SQL variables"

section batches

variable {M : CommitMls} (env : Surroundings M.toOpenMls) (maxVariables : ℕ)

def getGroupPendingOperationsBatch (groupIds : List String) : Action M.toOpenMls PendingOperations :=
  if groupIds.isEmpty then return ∅
  else do
    match ← useStatuses env fun rows => (selectIn maxVariables groupIds rows, rows) with
    | .ok rows => return collect rows
    | .error text => throw (.sqlite text)

/-- What is recorded; nothing of any group if it cannot be read. -/
def pendingOperations (groupIds : List String) : Action M.toOpenMls PendingOperations := do
  match ← attempt (getGroupPendingOperationsBatch env maxVariables groupIds) with
  | .ok result => return result
  | .error _ => return ∅

variable (context : Option String → M.Db → String → Except String (Option GroupContext))
  (binding : Binding)

def UqMls.groupEpochs (groupIds : List String) :
    Action M.toOpenMls (List WrappedGroupEpochResult) := do
  let ops ← pendingOperations env maxVariables groupIds
  groupIds.mapM fun groupId => do
    let op := ops.lookup groupId
    match ← attempt (KChat.Mls.groupContext env context groupId) with
    | .ok context =>
      return { groupId := groupId
               epoch := binding.pendingEpoch op context.epoch
               treeHash := context.treeHash
               err := none
               pendingOperation := op }
    | .error err =>
      return { groupId := groupId
               epoch := -1
               treeHash := []
               err := some err.display
               pendingOperation := none }

def UqMls.groupContexts (groupIds : List String) :
    Action M.toOpenMls (List WrappedGroupContextResult) := do
  let ops ← pendingOperations env maxVariables groupIds
  groupIds.mapM fun groupId => do
    let op := ops.lookup groupId
    match ← attempt (KChat.Mls.groupContext env context groupId) with
    | .ok context =>
      return { groupId := groupId
               currentEpoch := binding.epoch context.epoch
               pendingEpoch := binding.pendingEpoch op context.epoch
               treeHash := context.treeHash
               err := none
               pendingOperation := op }
    | .error err =>
      return { groupId := groupId
               currentEpoch := -1
               pendingEpoch := -1
               treeHash := []
               err := some err.display
               pendingOperation := none }

end batches

/-! ## What is reported -/

section reported

variable {M : CommitMls} {env : Surroundings M.toOpenMls} {maxVariables : ℕ} {groupId : String}
  {s t : Session M.toOpenMls}
  {context : Option String → M.Db → String → Except String (Option GroupContext)}

def SameStored (s t : Session M.toOpenMls) : Prop := t.store = s.store ∧ t.beside = s.beside

theorem SameStored.trans {u : Session M.toOpenMls} (hst : SameStored s t) (htu : SameStored t u) :
    SameStored s u :=
  ⟨htu.1.trans hst.1, htu.2.trans hst.2⟩

variable (context) in
def storedContext (s : Session M.toOpenMls) (groupId : String) : Except Error GroupContext :=
  match context none s.store groupId with
  | .ok (some c) => .ok c
  | .ok none => .error .groupIsNotExisted
  | .error text => .error (.storage text)

theorem SameStored.storedContext (h : SameStored s t)
    (context : Option String → M.Db → String → Except String (Option GroupContext))
    (groupId : String) : storedContext context t groupId = storedContext context s groupId := by
  rw [KChat.Mls.storedContext, KChat.Mls.storedContext, h.1]

/-- The status that a batch finds. -/
def foundStatus (maxVariables : ℕ) (groupIds : List String) (s : Session M.toOpenMls)
    (groupId : String) : Option String :=
  if groupIds.length ≤ maxVariables then statusOf groupId s.beside else none

def epochResult (binding : Binding) (groupId : String) (op : Option String) :
    Except Error GroupContext → WrappedGroupEpochResult
  | .ok c => ⟨groupId, binding.pendingEpoch op c.epoch, c.treeHash, none, op⟩
  | .error err => ⟨groupId, -1, [], some err.display, none⟩

def contextResult (binding : Binding) (groupId : String) (op : Option String) :
    Except Error GroupContext → WrappedGroupContextResult
  | .ok c => ⟨groupId, binding.epoch c.epoch, binding.pendingEpoch op c.epoch, c.treeHash, none, op⟩
  | .error err => ⟨groupId, -1, -1, [], some err.display, none⟩

/-- The context tells whether the status matters. -/
theorem epochResult_none_iff {binding : Binding} {op : Option String}
    {c : Except Error GroupContext} :
    epochResult binding groupId none c = epochResult binding groupId op c ↔
      op = none ∨ c.isOk = false := by
  cases c with
  | ok c =>
    constructor
    · intro h
      exact .inl (congrArg WrappedGroupEpochResult.pendingOperation h).symm
    · rintro (rfl | h)
      · rfl
      · cases h
  | error err => exact ⟨fun _ => .inr rfl, fun _ => rfl⟩

theorem contextResult_none_iff {binding : Binding} {op : Option String}
    {c : Except Error GroupContext} :
    contextResult binding groupId none c = contextResult binding groupId op c ↔
      op = none ∨ c.isOk = false := by
  cases c with
  | ok c =>
    constructor
    · intro h
      exact .inl (congrArg WrappedGroupContextResult.pendingOperation h).symm
    · rintro (rfl | h)
      · rfl
      · cases h
  | error err => exact ⟨fun _ => .inr rfl, fun _ => rfl⟩

variable (hcalm : ∀ t, env.fault t = none)
include hcalm

theorem wp_pendingOperation (s : Session M.toOpenMls) : wp (pendingOperation env groupId) s
    (fun op t => op = statusOf groupId s.beside ∧ SameStored s t) fun _ _ => False := by
  rw [pendingOperation, wp_bind, wp_attempt, getGroupPendingOperation]
  refine wp_useStatuses (fun e he => ?_) fun _ => ?_
  · rw [hcalm] at he
    cases he
  · exact ⟨rfl, rfl, rfl⟩

theorem wp_pendingOperations (hkeyed : Keyed s.beside) (groupIds : List String) :
    wp (pendingOperations env maxVariables groupIds) s
      (fun ops t => (∀ groupId ∈ groupIds,
        ops.lookup groupId = foundStatus maxVariables groupIds s groupId) ∧ SameStored s t)
      fun _ _ => False := by
  rw [pendingOperations, wp_bind, wp_attempt, getGroupPendingOperationsBatch]
  by_cases hempty : groupIds = []
  · subst hempty
    exact ⟨fun groupId hmem => absurd hmem List.not_mem_nil, rfl, rfl⟩
  rw [if_neg (by simpa using hempty), wp_bind]
  refine wp_useStatuses (fun e he => ?_) fun _ => ?_
  · rw [hcalm] at he
    cases he
  · unfold selectIn foundStatus
    by_cases hfits : groupIds.length ≤ maxVariables
    · simp only [if_pos hfits]
      refine ⟨fun groupId hmem => ?_, rfl, rfl⟩
      rw [lookup_collect (hkeyed.filter _), statusOf_filter_mem hmem]
    · simp only [if_neg hfits]
      exact ⟨fun _ _ => rfl, rfl, rfl⟩

variable (halone : ∀ t, env.others t = [])
include halone

theorem wp_groupContext (groupId : String) (s : Session M.toOpenMls) :
    wp (attempt (groupContext env context groupId)) s
      (fun c t => c = storedContext context s groupId ∧ SameStored s t) fun _ _ => False := by
  rw [wp_attempt, groupContext, wp_bind, wp_modify, wp_bind, wp_look,
    Session.await_store_of_alone halone s, hcalm]
  have hsame : SameStored s (s.await env).tick := ⟨Session.await_store_of_alone halone s, rfl⟩
  unfold storedContext
  rcases context none s.store groupId with text | _ | c
  · exact ⟨rfl, hsame⟩
  · exact ⟨rfl, hsame⟩
  · exact ⟨rfl, hsame⟩

theorem wp_groupEpoch (binding : Binding) (groupId : String) (s : Session M.toOpenMls) :
    wp (UqMls.groupEpoch env context binding groupId) s
      (fun r _ => r = epochResult binding groupId (statusOf groupId s.beside)
        (storedContext context s groupId)) fun _ _ => False := by
  rw [UqMls.groupEpoch, wp_bind]
  refine wp_mono (wp_pendingOperation hcalm s) (fun op t ⟨hop, hst⟩ => ?_) fun _ _ h => h
  rw [wp_bind]
  refine wp_mono (wp_groupContext hcalm halone groupId t) (fun c u ⟨hc, _⟩ => ?_) fun _ _ h => h
  rw [← hop, ← hst.storedContext context groupId, ← hc]
  cases c with
  | ok c => rfl
  | error err => rfl

theorem wp_groupContextOf (binding : Binding) (groupId : String) (s : Session M.toOpenMls) :
    wp (UqMls.groupContext env context binding groupId) s
      (fun r _ => r = contextResult binding groupId (statusOf groupId s.beside)
        (storedContext context s groupId)) fun _ _ => False := by
  rw [UqMls.groupContext, wp_bind]
  refine wp_mono (wp_pendingOperation hcalm s) (fun op t ⟨hop, hst⟩ => ?_) fun _ _ h => h
  rw [wp_bind]
  refine wp_mono (wp_groupContext hcalm halone groupId t) (fun c u ⟨hc, _⟩ => ?_) fun _ _ h => h
  rw [← hop, ← hst.storedContext context groupId, ← hc]
  cases c with
  | ok c => rfl
  | error err => rfl

theorem wp_groupEpochs (binding : Binding) (hkeyed : Keyed s.beside) (groupIds : List String) :
    wp (UqMls.groupEpochs env maxVariables context binding groupIds) s
      (fun rs _ => rs = groupIds.map fun groupId => epochResult binding groupId
        (foundStatus maxVariables groupIds s groupId) (storedContext context s groupId))
      fun _ _ => False := by
  rw [UqMls.groupEpochs, wp_bind]
  refine wp_mono (wp_pendingOperations hcalm hkeyed groupIds) (fun ops t ⟨hops, hst⟩ => ?_)
    fun _ _ h => h
  refine wp_mono (wp_mapM (g := fun groupId => epochResult binding groupId (ops.lookup groupId)
    (storedContext context s groupId)) (I := SameStored s) (fun groupId u hu => ?_) groupIds hst)
    (fun rs _ hrs => ?_) fun _ _ h => h
  · rw [wp_bind]
    refine wp_mono (wp_groupContext hcalm halone groupId u) (fun c v ⟨hc, huv⟩ => ?_) fun _ _ h => h
    rw [← hu.storedContext context groupId, ← hc]
    cases c with
    | ok c => exact ⟨rfl, hu.trans huv⟩
    | error err => exact ⟨rfl, hu.trans huv⟩
  · rw [hrs.1]
    exact List.map_congr_left fun groupId hmem => by rw [hops groupId hmem]

theorem wp_groupContexts (binding : Binding) (hkeyed : Keyed s.beside) (groupIds : List String) :
    wp (UqMls.groupContexts env maxVariables context binding groupIds) s
      (fun rs _ => rs = groupIds.map fun groupId => contextResult binding groupId
        (foundStatus maxVariables groupIds s groupId) (storedContext context s groupId))
      fun _ _ => False := by
  rw [UqMls.groupContexts, wp_bind]
  refine wp_mono (wp_pendingOperations hcalm hkeyed groupIds) (fun ops t ⟨hops, hst⟩ => ?_)
    fun _ _ h => h
  refine wp_mono (wp_mapM (g := fun groupId => contextResult binding groupId (ops.lookup groupId)
    (storedContext context s groupId)) (I := SameStored s) (fun groupId u hu => ?_) groupIds hst)
    (fun rs _ hrs => ?_) fun _ _ h => h
  · rw [wp_bind]
    refine wp_mono (wp_groupContext hcalm halone groupId u) (fun c v ⟨hc, huv⟩ => ?_) fun _ _ h => h
    rw [← hu.storedContext context groupId, ← hc]
    cases c with
    | ok c => exact ⟨rfl, hu.trans huv⟩
    | error err => exact ⟨rfl, hu.trans huv⟩
  · rw [hrs.1]
    exact List.map_congr_left fun groupId hmem => by rw [hops groupId hmem]

end reported

/-! ## Batches and single groups -/

section pointwise

variable {M : CommitMls}
  (context : Option String → M.Db → String → Except String (Option GroupContext))
  (maxVariables : ℕ) (s : Session M.toOpenMls) (groupIds : List String)

/-- No status is missed: the statement fits, or there is no status of a group that can be read. -/
def NoneMissed : Prop :=
  groupIds.length ≤ maxVariables ∨ ∀ groupId ∈ groupIds,
    statusOf groupId s.beside = none ∨ (storedContext context s groupId).isOk = false

/-- What is found in a batch and what is recorded of each group are reported alike. -/
theorem map_foundStatus_iff {ρ : Type}
    (result : String → Option String → Except Error GroupContext → ρ) (hresult : ∀ groupId op c,
      result groupId none c = result groupId op c ↔ op = none ∨ c.isOk = false) :
    groupIds.map (fun groupId => result groupId (foundStatus maxVariables groupIds s groupId)
      (storedContext context s groupId)) =
    groupIds.map (fun groupId => result groupId (statusOf groupId s.beside)
      (storedContext context s groupId)) ↔ NoneMissed context maxVariables s groupIds := by
  unfold NoneMissed foundStatus
  by_cases hfits : groupIds.length ≤ maxVariables
  · simp only [if_pos hfits]
    exact ⟨fun _ => .inl hfits, fun _ => trivial⟩
  · simp only [if_neg hfits, List.map_inj_left]
    rw [or_iff_right hfits]
    exact forall₂_congr fun groupId _ => hresult groupId _ _

theorem outcome_of_wp {ε σ α : Type} {x : EStateM ε σ α} {s : σ} {a : α}
    (h : wp x s (fun b _ => b = a) fun _ _ => False) : outcome (x.run s) = .ok a := by
  obtain ⟨b, t, hrun, rfl⟩ := exists_run_of_wp h
  rw [hrun]
  rfl

variable {env : Surroundings M.toOpenMls} (hcalm : ∀ t, env.fault t = none)
  (halone : ∀ t, env.others t = []) (binding : Binding) (hkeyed : Keyed s.beside)
include hcalm halone hkeyed

theorem groupEpochs_eq_iff :
    outcome ((UqMls.groupEpochs env maxVariables context binding groupIds).run s) =
      groupIds.mapM (fun groupId =>
        outcome ((UqMls.groupEpoch env context binding groupId).run s)) ↔
      NoneMissed context maxVariables s groupIds := by
  have hone : ∀ groupId, outcome ((UqMls.groupEpoch env context binding groupId).run s) =
      pure (epochResult binding groupId (statusOf groupId s.beside)
        (storedContext context s groupId)) :=
    fun groupId => outcome_of_wp (wp_groupEpoch hcalm halone binding groupId s)
  have hiff := map_foundStatus_iff context maxVariables s groupIds (epochResult binding)
    fun _ _ _ => epochResult_none_iff
  simp only [hone, List.mapM_pure]
  rw [outcome_of_wp (wp_groupEpochs hcalm halone binding hkeyed groupIds)]
  exact ⟨fun h => hiff.mp (Except.ok.inj h), fun h => congrArg Except.ok (hiff.mpr h)⟩

theorem groupContexts_eq_iff :
    outcome ((UqMls.groupContexts env maxVariables context binding groupIds).run s) =
      groupIds.mapM (fun groupId =>
        outcome ((UqMls.groupContext env context binding groupId).run s)) ↔
      NoneMissed context maxVariables s groupIds := by
  have hone : ∀ groupId, outcome ((UqMls.groupContext env context binding groupId).run s) =
      pure (contextResult binding groupId (statusOf groupId s.beside)
        (storedContext context s groupId)) :=
    fun groupId => outcome_of_wp (wp_groupContextOf hcalm halone binding groupId s)
  have hiff := map_foundStatus_iff context maxVariables s groupIds (contextResult binding)
    fun _ _ _ => contextResult_none_iff
  simp only [hone, List.mapM_pure]
  rw [outcome_of_wp (wp_groupContexts hcalm halone binding hkeyed groupIds)]
  exact ⟨fun h => hiff.mp (Except.ok.inj h), fun h => congrArg Except.ok (hiff.mpr h)⟩

end pointwise

/-- **A batch reports what is reported of each group**, iff no status is missed. -/
theorem epochs_pointwise_iff (M : CommitMls) (env : Surroundings M.toOpenMls)
    (hcalm : ∀ t, env.fault t = none) (halone : ∀ t, env.others t = [])
    (context : Option String → M.Db → String → Except String (Option GroupContext))
    (maxVariables : ℕ) (binding : Binding) (s : Session M.toOpenMls) (hkeyed : Keyed s.beside)
    (groupIds : List String) :
    (outcome ((UqMls.groupEpochs env maxVariables context binding groupIds).run s) =
      groupIds.mapM (fun groupId =>
        outcome ((UqMls.groupEpoch env context binding groupId).run s)) ↔
      NoneMissed context maxVariables s groupIds) ∧
    (outcome ((UqMls.groupContexts env maxVariables context binding groupIds).run s) =
      groupIds.mapM (fun groupId =>
        outcome ((UqMls.groupContext env context binding groupId).run s)) ↔
      NoneMissed context maxVariables s groupIds) :=
  ⟨groupEpochs_eq_iff context maxVariables s groupIds hcalm halone binding hkeyed,
    groupContexts_eq_iff context maxVariables s groupIds hcalm halone binding hkeyed⟩

/-! ### A group that was joined -/

open Plain

/-- **More groups than a statement may have parameters**: the status of a group that was joined is
not found, and another epoch is reported. -/
theorem not_epochs_pointwise :
    Keyed (runClient Plain.joinedGroup).beside ∧
    outcome ((UqMls.groupEpochs .calm 32766 context .uniffi (List.replicate 32767 "g")).run
        (runClient Plain.joinedGroup)) ≠
      (List.replicate 32767 "g").mapM fun groupId =>
        outcome ((UqMls.groupEpoch .calm context .uniffi groupId).run
          (runClient Plain.joinedGroup)) := by
  have hkeyed : Keyed (runClient Plain.joinedGroup).beside := by
    unfold Keyed
    decide +kernel
  have hstatus : statusOf "g" (runClient Plain.joinedGroup).beside ≠ none := by decide +kernel
  have hcontext : (storedContext context (runClient Plain.joinedGroup) "g").isOk = true := by
    decide +kernel
  have hmissed : ∀ groupIds : List String, 32766 < groupIds.length → "g" ∈ groupIds →
      ¬NoneMissed context 32766 (runClient Plain.joinedGroup) groupIds := by
    rintro groupIds hlength hmem (hfits | hnone)
    · omega
    · rcases hnone "g" hmem with hno | hno
      · exact hstatus hno
      · rw [hcontext] at hno
        cases hno
  generalize hids : List.replicate 32767 "g" = groupIds
  have hlength : groupIds.length = 32767 := by
    rw [← hids]
    exact List.length_replicate
  have hmem : "g" ∈ groupIds := by
    rw [← hids, List.mem_replicate]
    exact ⟨by norm_num, rfl⟩
  refine ⟨hkeyed, fun heq => hmissed groupIds (by omega) hmem ?_⟩
  exact (groupEpochs_eq_iff context 32766 (runClient Plain.joinedGroup) groupIds (fun _ => rfl)
    (fun _ => rfl) .uniffi hkeyed).mp heq

/-- Fewer groups, with repetitions and unknown ones. -/
theorem epochs_pointwise_joined :
    outcome ((UqMls.groupEpochs .calm 32766 context .uniffi ["g", "h", "g"]).run
        (runClient Plain.joinedGroup)) =
      ["g", "h", "g"].mapM fun groupId =>
        outcome ((UqMls.groupEpoch .calm context .uniffi groupId).run
          (runClient Plain.joinedGroup)) := by
  have hkeyed : Keyed (runClient Plain.joinedGroup).beside := by
    unfold Keyed
    decide +kernel
  have hiff := epochs_pointwise_iff plainCommits .calm (fun _ => rfl) (fun _ => rfl) context 32766
    .uniffi (runClient Plain.joinedGroup) hkeyed ["g", "h", "g"]
  exact hiff.1.mpr (.inl (by decide))

end KChat.Mls
