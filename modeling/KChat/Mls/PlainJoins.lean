import KChat.Mls.Awaiting
import KChat.Mls.PlainTracking

/-!
# External commits without cryptography

* `plainCommits_keepsEpochs`, `plainCommits_joinsExternally`: every group info is one of group "g".
* `Plain.runClient`: calls without failures. **`not_pastFirst`**: the external commit of "g" is
  recorded for a group at epoch 0.
-/

namespace KChat.Mls

open Lib OpenMls

namespace Plain

variable {α : Type}

theorem atLeast_write {n : ℕ} (db : PlainDb) {g : PlainGroup} (hg : n ≤ g.epoch) :
    AtLeast plainCommits n g.id (write db g) := by
  intro g' hg'
  obtain rfl := Option.some.inj ((stored_write db g).symm.trans hg')
  exact hg

theorem change_advances (a : α) {f : PlainGroup → PlainGroup} (hf : ∀ g, (f g).id = g.id)
    (hepoch : ∀ g, g.epoch ≤ (f g).epoch) : Advances (M := plainCommits) (change a f) := by
  intro n fault s hn _
  have hn' : n ≤ (f s.self).epoch := Nat.le_trans hn (hepoch s.self)
  cases fault with
  | some e => exact hn'
  | none =>
    have hstored := atLeast_write s.world hn'
    rw [hf s.self] at hstored
    exact ⟨hn', hstored⟩

theorem changeIf_advances (pending : Bool) (a : α) {f : PlainGroup → PlainGroup}
    (hf : ∀ g, (f g).id = g.id) (hepoch : ∀ g, g.epoch ≤ (f g).epoch) :
    Advances (M := plainCommits) (changeIf pending a f) := by
  intro n fault s hn hstored
  by_cases h : s.self.pending = pending
  · have hchange := change_advances a hf hepoch n fault s hn hstored
    unfold wp at hchange ⊢
    rw [changeIf_of_eq h]
    exact hchange
  · exact (wp_of_error (changeIf_of_ne h a f fault)).mpr hn

end Plain

open Plain

theorem plainCommits_keepsEpochs : plainCommits.KeepsEpochs where
  mergeStagedCommit _ := change_advances () (fun _ => rfl) fun g => Nat.le_succ g.epoch
  storePendingProposal p := change_advances ()
    (f := fun g => { g with queue := g.queue ++ [p.reference] }) (fun _ => rfl) fun _ => le_rfl
  commitToPendingProposals _ := changeIf_advances false _ (fun _ => rfl) fun _ => le_rfl
  mergePendingCommit := changeIf_advances true () (fun _ => rfl) fun g => Nat.le_succ g.epoch
  clearPendingCommit := change_advances () (f := fun g => { g with pending := false })
    (fun _ => rfl) fun _ => le_rfl
  delete n fault s hn _ := by
    cases fault with
    | some e => exact hn
    | none =>
      refine ⟨hn, fun g hg => ?_⟩
      simp [plainCommits] at hg
  clearPendingProposals := change_advances () (f := fun g => { g with queue := [] })
    (fun _ => rfl) fun _ => le_rfl
  addMembers _ _ := changeIf_advances false _ (fun _ => rfl) fun _ => le_rfl
  removeMembers _ _ := changeIf_advances false _ (fun _ => rfl) fun _ => le_rfl
  buildReAdd _ _ _ n fault s hn hstored := by
    cases fault with
    | some e => exact hn
    | none => exact ⟨hn, hstored⟩
  stageCommit _ := changeIf_advances false _ (fun _ => rfl) fun _ => le_rfl
  selfUpdate _ := changeIf_advances false _ (fun _ => rfl) fun _ => le_rfl

theorem plainCommits_joinsExternally :
    plainCommits.JoinsExternally (fun _ => "g") fun _ => 0 := by
  intro _ info credential _ fault fault' fault'' db
  refine wp_mono (quiet_spec _ fault db) (fun builder db₁ h₁ => ?_) fun _ _ _ => trivial
  obtain ⟨rfl, rfl⟩ := h₁
  refine wp_mono (quiet_spec _ fault' _) (fun bundle db₂ h₂ => ?_) fun _ _ _ => trivial
  obtain ⟨rfl, rfl⟩ := h₂
  show wp ((fun g => (g, (), none)) <$> writeNew (Plain.joined "g" _ _ 1) fault'') _ _ _
  rw [map_eq_pure_bind, wp_bind]
  cases fault'' with
  | some e => trivial
  | none =>
    refine ⟨othersKept_write _ (Plain.joined "g" _ _ 1), fun g hg => ?_⟩
    have hstored := stored_write db₂
      (Plain.joined "g" (info ++ [credential]) ((info ++ [credential]).getLastD "") 1)
    rw [← Option.some.inj (hstored.symm.trans hg)]
    rfl

namespace Plain

def context (fault : Option String) (db : PlainDb) (groupId : String) :
    Except String (Option GroupContext) :=
  match fault with
  | some e => .error e
  | none => .ok ((plainCommits.stored db groupId).map fun g => ⟨g.epoch, []⟩)

theorem contextOf_context : plainCommits.ContextOf context := by
  intro fault db id c hc
  cases fault with
  | some e => nomatch hc
  | none =>
    obtain ⟨g, hg, rfl⟩ := Option.map_eq_some_iff.mp (Except.ok.inj hc)
    exact ⟨g, hg, rfl⟩

/-- One call after the other, without failures. -/
def runClient (calls : List (ClientCall plainCommits)) : Session plainCommits.toOpenMls :=
  calls.foldl (fun s c => final ((c.run .calm plainTables fun _ => false).run s)) emptySession

/-- What a run of calls leads to. -/
theorem called_runClient {P : Session plainCommits.toOpenMls → ClientCall plainCommits → Prop}
    (calls : List (ClientCall plainCommits))
    (hP : ∀ front c, front ++ [c] <+: calls → P (runClient front) c) :
    Called .calm plainTables (fun _ => false) P emptySession (runClient calls) := by
  induction calls using List.reverseRecOn with
  | nil => exact .start
  | append_singleton front c ih =>
    rw [runClient, List.foldl_append]
    refine .call c (ih fun front' c' hbegins => hP front' c' ?_) (hP front c (List.prefix_refl _))
    exact hbegins.trans (List.prefix_append _ _)

theorem pastFirst_emptySession : PastFirst emptySession := fun _ _ _ hg => nomatch hg

/-- Bob's group "g" is joined. -/
def joinedGroup : List (ClientCall plainCommits) :=
  [.joinByExternalCommit "ann/1" "g" [1] (.ok ()) none]

/-- A group "A" is created, and Bob's group "g" is joined as if it were "A". -/
def joinedAside : List (ClientCall plainCommits) :=
  [.call (.createGroup "ann/1" "A" (.ok ()) none),
    .joinByExternalCommit "ann/1" "A" [1] (.ok ()) none]

end Plain

/-- **A group at epoch 0 awaits an external commit**, after that of another group was recorded for
it; the bindings report different epochs. -/
theorem not_pastFirst : PastFirst emptySession ∧ ∃ s,
    Called .calm plainTables (fun _ => false) (fun _ _ => True) emptySession s ∧
    s = runClient joinedAside ∧
    (∃ g, Awaiting "A" s.beside ∧ plainCommits.stored s.store "A" = some g ∧
      ¬1 ≤ plainCommits.epoch g) ∧
    (outcome ((UqMls.groupEpoch .calm context .uniffi "A").run s)).map (·.epoch) = .ok (-1) ∧
    (outcome ((UqMls.groupEpoch .calm context .napi "A").run s)).map (·.epoch) = .ok 0 := by
  refine ⟨pastFirst_emptySession, _, called_runClient joinedAside fun _ _ _ => trivial, rfl,
    ⟨Plain.joined "A" ["ann/1"] "ann/1" 0, ?_, ?_, ?_⟩, ?_, ?_⟩
  · decide +kernel
  · decide +kernel
  · decide +kernel
  · decide +kernel
  · decide +kernel

/-- A group that was joined reports the epoch before its external commit. -/
theorem pastFirst_joinedGroup :
    (∀ groupId g, Awaiting groupId (runClient Plain.joinedGroup).beside →
      plainCommits.stored (runClient Plain.joinedGroup).store groupId = some g →
      1 ≤ plainCommits.epoch g) ∧
    (UqMls.groupEpoch .calm context .uniffi "g").run (runClient Plain.joinedGroup) =
      (UqMls.groupEpoch .calm context .napi "g").run (runClient Plain.joinedGroup) := by
  have hcalled : Called .calm plainTables (fun _ => false)
      (ClientCall.Sound (fun _ => "g") .calm) emptySession (runClient Plain.joinedGroup) := by
    refine called_runClient Plain.joinedGroup fun front c hbegins => ?_
    have hmem : c ∈ Plain.joinedGroup := hbegins.subset (List.mem_append_right _ List.mem_cons_self)
    obtain rfl := List.mem_singleton.mp hmem
    exact fun _ _ => .inl rfl
  have hpast := pastFirst_of_called plainCommits plainCommits_storesGroups plainCommits_keepsCommits
    plainCommits_keepsEpochs plainCommits_joinsExternally plainTables plainTables_groupsAreRows
    (fun _ => false) contextOf_context .calm (fun _ => rfl) pastFirst_emptySession hcalled
  refine ⟨fun groupId g hawaiting hg => (hpast.1 groupId g hawaiting hg).1, ?_⟩
  refine (hpast.2 "g" fun g hg => ?_).1
  have hepoch : (plainCommits.stored (runClient Plain.joinedGroup).store "g").map
      plainCommits.epoch = some 1 := by decide +kernel
  rw [hg] at hepoch
  rw [Option.some.inj hepoch]
  decide

end KChat.Mls
