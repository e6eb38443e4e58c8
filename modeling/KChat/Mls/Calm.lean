import KChat.Mls.Synced

/-!
# Runs that no failure hits

* `loadResult`: what is loaded from a store; **`load_calm`**: a load gives it and changes nothing.
* `Untold`: no pending operation is recorded. **`openGroup_calm`**: what opening a group finds then.
* `wp_transactionOn_calm`: a transaction that no failure hits.
-/

namespace KChat.Mls

open Lib OpenMls

variable {M : OpenMls} {env : Surroundings M} {α : Type}

/-! ## Loads -/

section results

variable (M) (db : M.Db) (id : String)

def loadGroupResult : Except Error M.Group :=
  match M.load none db id with
  | .ok (some g) => .ok g
  | .ok none => .error .groupIsNotExisted
  | .error text => .error (.storage text)

def groupResult : Except Error M.Group :=
  match M.loadOptimize none db id [] with
  | .ok (some g) => .ok g
  | .ok none => loadGroupResult M db id
  | .error .missingGroupEpochMessageSecretsMetadata => loadGroupResult M db id
  | .error (.other text) => .error (.storage text)

/-- **What is loaded** with some epochs. -/
def loadResult (epochs : List ℕ) : Except Error M.Group :=
  match M.loadOptimize none db id epochs with
  | .ok (some g) => .ok g
  | .ok none => .error .groupIsNotExisted
  | .error .missingGroupEpochMessageSecretsMetadata => groupResult M db id
  | .error (.other text) => .error (.storage text)

end results

section loads

variable (hcalm : ∀ t, env.fault t = none)
include hcalm

/-- The computation gives a result without a state. -/
abbrev Gives (x : Action M α) (s : Session M) (r : Except Error α) : Prop :=
  wp x s (fun a t => r = .ok a ∧ t.store = s.store ∧ t.beside = s.beside)
    fun e t => r = .error e ∧ t.store = s.store ∧ t.beside = s.beside

theorem loadGroup_calm (id : String) (s : Session M) :
    Gives (loadGroup env id) s (loadGroupResult M s.store id) := by
  rw [Gives, loadGroup, wp_bind, wp_look, hcalm, loadGroupResult]
  rcases M.load none s.store id with text | _ | g
  · exact ⟨rfl, rfl, rfl⟩
  · exact ⟨rfl, rfl, rfl⟩
  · exact ⟨rfl, rfl, rfl⟩

theorem group_calm (id : String) (s : Session M) :
    Gives (group env id []) s (groupResult M s.store id) := by
  have hepochs : protocolMessageEpochs (M := M) [] = .ok [] := rfl
  rw [Gives, group, wp_bind]
  refine wp_ofResult (fun epochs he => ?_) fun e he => (by rw [hepochs] at he; cases he)
  rw [hepochs] at he
  obtain rfl := Except.ok.inj he
  rw [wp_bind, wp_look, hcalm, groupResult]
  have hslow := loadGroup_calm hcalm id s.tick
  rw [Gives, Session.tick_store] at hslow
  rcases M.loadOptimize none s.store id [] with (_ | text) | (_ | g)
  · exact hslow
  · exact ⟨rfl, rfl, rfl⟩
  · exact hslow
  · exact ⟨rfl, rfl, rfl⟩

theorem groupWithEpochMessageSecrets_calm (id : String) (epochs : List ℕ) (s : Session M) :
    Gives (groupWithEpochMessageSecrets env id epochs) s (loadResult M s.store id epochs) := by
  rw [Gives, groupWithEpochMessageSecrets, wp_bind, wp_look, hcalm, loadResult]
  have hslow := group_calm hcalm id s.tick
  rw [Gives, Session.tick_store] at hslow
  rcases M.loadOptimize none s.store id epochs with (_ | text) | (_ | g)
  · exact hslow
  · exact ⟨rfl, rfl, rfl⟩
  · exact ⟨rfl, rfl, rfl⟩
  · exact ⟨rfl, rfl, rfl⟩

variable (halone : ∀ t, env.others t = [])
include halone

/-- **A load** gives what there is and changes nothing. -/
theorem load_calm (id : String) (epochs : List ℕ) (s : Session M) :
    Gives (loadGroupWithEpochMessageSecrets env id epochs) s (loadResult M s.store id epochs) := by
  have hawait : (s.await env).store = s.store := Session.await_store_of_alone halone s
  have hinner : wp (transaction env (attempt (groupWithEpochMessageSecrets env id epochs))) s
      (fun r t => r = loadResult M s.store id epochs ∧ t.store = s.store ∧ t.beside = s.beside)
      fun _ _ => False := by
    have hnone : ∀ {t} {e : String}, env.fault t = some e → False := fun h => by
      rw [hcalm] at h
      cases h
    refine wp_transaction (fun e he => hnone he) fun _ => ?_
    rw [wp_attempt]
    have hgroup := groupWithEpochMessageSecrets_calm hcalm id epochs (s.await env).tick
    rw [Gives, Session.tick_store, hawait] at hgroup
    exact wp_mono hgroup (fun g t ht => ⟨fun e he => (hnone he).elim, fun _ => ⟨ht.1.symm, ht.2⟩⟩)
      fun e t ht => ⟨fun e he => (hnone he).elim, fun _ => ⟨ht.1.symm, ht.2⟩⟩
  rw [Gives, loadGroupWithEpochMessageSecrets, wp_bind, wp_mapError]
  refine wp_mono hinner (fun r t ht => ?_) fun _ _ h => h.elim
  obtain ⟨rfl, ht⟩ := ht
  exact wp_ofResult (fun g hg => ⟨hg, ht⟩) fun e he => ⟨he, ht⟩

end loads

/-- What is loaded is the stored group. -/
theorem stored_of_loadResult (hM : M.StoresGroups) {db : M.Db} {id : String} {epochs : List ℕ}
    {g : M.Group} (h : loadResult M db id epochs = .ok g) : M.stored db id = some g := by
  have hcalm : Gives (loadGroupWithEpochMessageSecrets .calm id epochs) ⟨db, [], 0, 0⟩ _ :=
    load_calm (fun _ => rfl) (fun _ => rfl) id epochs _
  have hspec := load_spec .calm hM id epochs ⟨db, [], 0, 0⟩
  rw [Gives, h] at hcalm
  cases hrun : (loadGroupWithEpochMessageSecrets (M := M) .calm id epochs).run ⟨db, [], 0, 0⟩ with
  | ok g' t =>
    obtain rfl := Except.ok.inj ((wp_of_ok hrun).mp hcalm).1
    have hstored := ((wp_of_ok hrun).mp hspec).1
    rwa [Session.await_store_of_alone fun _ => rfl] at hstored
  | error e t =>
    obtain ⟨herr, -⟩ := (wp_of_error hrun).mp hcalm
    cases herr

/-! ## Opening a group -/

/-- **No pending operation is recorded.** -/
def Untold (id : String) (s : Session M) : Prop :=
  GroupPendingOperation.ofRow (statusOf id s.beside) = .none

section opening

variable (hcalm : ∀ t, env.fault t = none) (halone : ∀ t, env.others t = [])
include hcalm halone

/-- The group that a batch begins with, if it is not skipped. -/
def opened (r : Except Error M.Group) : Option (Opening M) :=
  match r with
  | .error _ => some { mlsGroup := none, deleted := false }
  | .ok g => if (ownIdFromLeafNode g).isSome then some { mlsGroup := some g, deleted := false } else none

/-- **Opening a group** changes nothing. -/
theorem openGroup_calm (args : AllMessagesOfGroupArgs) {s : Session M}
    (huntold : Untold args.groupId s) : wp (openGroup env args) s
      (fun o t => o = opened (loadResult M s.store args.groupId (preloadEpochs args.messages)) ∧
        t.store = s.store ∧ t.beside = s.beside) fun _ _ => False := by
  rw [openGroup, wp_bind, wp_attempt]
  refine wp_mono (load_calm hcalm halone args.groupId (preloadEpochs args.messages) s)
    (fun existing t ht => ?_) fun e t ht => ⟨?_, ht.2⟩
  swap
  · rw [ht.1]
    rfl
  rw [ht.1, opened]
  dsimp only
  cases ownIdFromLeafNode existing with
  | none => exact ⟨rfl, ht.2⟩
  | some ownMemberId =>
    dsimp only
    rw [wp_bind]
    refine wp_useStatuses (fun e he => ?_) fun _ => ?_
    · rw [hcalm] at he
      cases he
    have hop : GroupPendingOperation.ofRow
        ((t.beside.find? (·.1 == args.groupId)).map Prod.snd) = .none := by
      rw [ht.2.2]
      exact huntold
    rw [wp_bind, hop]
    exact ⟨rfl, ht.2⟩

end opening

/-! ## Transactions -/

/-- **A transaction that no failure hits**, on what is stored. -/
theorem wp_transactionOn_calm (hcalm : ∀ t, env.fault t = none) (halone : ∀ t, env.others t = [])
    {x : GroupAction M α} {g : M.Group} {s : Session M} {Q : α → M.Group → M.Db → Prop}
    {E : M.Group → Prop}
    (h : ∀ u : Session M, u.store = s.store → wp x ⟨g, u⟩ (fun a t => Q a t.self t.world.store)
      fun _ t => E t.self) :
    wp (transactionOn env x) ⟨g, s⟩ (fun a t => Q a t.self t.world.store)
      fun _ t => E t.self ∧ t.world.store = s.store := by
  have hawait : (s.await env).store = s.store := Session.await_store_of_alone halone s
  refine wp_transaction_calm hcalm ?_
  exact wp_mono (h (s.await env).tick hawait) (fun _ _ ht => ht) fun _ _ ht => ⟨ht, hawait⟩

end KChat.Mls
