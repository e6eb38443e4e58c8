import KChat.Lib.Regions
import KChat.Mls.Alike
import KChat.Mls.Plain
import Mathlib.Data.Set.Lattice
import Mathlib.Order.CompletePartialOrder

/-!
# The groups of a call are isolated

Every group of a call has a region of the key store, and a Welcome uses some regions. As long as the
batches of a call use different regions, a group is processed as in a call of its own.

* `Footprints`: the regions of a key store. `Footprints.Lawful`: OpenMLS keeps to them.
* `Footprints.batch`: the regions of a batch. `Footprints.Apart`: the batches of a call use
  different regions.
* `Footprints.Follows`: what a call makes of a group; **`processGroup_follows`**.
* **`processAllMessages_isolated`**, **`processAllMessages_aborted`**: a call that succeeds, and one
  that fails; **`processAllMessages_perm`**: the order of the groups does not matter.
-/

namespace KChat.Mls

open Lib OpenMls

variable {M : OpenMls}

/-! ## Results -/

def ofGroup (groupId : String) (r : Option GroupResult × Bool) : ProcessAllMessagesResult where
  groupResults := r.1.toList
  deletedGroups := if r.2 then [groupId] else []

/-! ## Regions -/

/-- **The regions of a key store.** -/
structure Footprints (M : OpenMls) extends Regions M.Db where
  /-- what is stored of a group, and what is read with it -/
  group : String → Region
  /-- the key packages that a Welcome may use, and the group that it joins -/
  welcome : M.Welcome → Set Region
  staged : M.StagedWelcome → Set Region

namespace Footprints

variable (F : Footprints M)

def own (g : M.Group) : Set F.Region := {F.group (M.groupId g)}

/-- **OpenMLS keeps to the regions.** -/
structure Lawful : Prop where
  group : ∀ id, F.group id ∉ F.common
  welcome : ∀ w, Disjoint (F.welcome w) F.common
  stored : ∀ id {db db'}, F.AgreeOn {F.group id} db db' → M.stored db id = M.stored db' id
  loadOptimize : ∀ id epochs {db db'}, F.AgreeOn (F.common ∪ {F.group id}) db db' →
    M.loadOptimize none db id epochs = M.loadOptimize none db' id epochs
  load : ∀ id {db db'}, F.AgreeOn (F.common ∪ {F.group id}) db db' →
    M.load none db id = M.load none db' id
  readSignatureKeyPair : ∀ g leaf, M.ownLeaf g = some leaf → ∀ {db db'},
    F.AgreeOn (F.common ∪ F.own g) db db' →
      M.readSignatureKeyPair none db leaf = M.readSignatureKeyPair none db' leaf
  processMessage : ∀ m, F.LocalMethod F.own (M.processMessage m none)
  mergeStagedCommit : ∀ commit, F.LocalMethod F.own (M.mergeStagedCommit commit none)
  storePendingProposal : ∀ p, F.LocalMethod F.own (M.storePendingProposal p none)
  commitToPendingProposals : ∀ signer, F.LocalMethod F.own (M.commitToPendingProposals signer none)
  mergePendingCommit : F.LocalMethod F.own (M.mergePendingCommit none)
  clearPendingCommit : F.LocalMethod F.own (M.clearPendingCommit none)
  delete : F.LocalMethod F.own (M.delete none)
  stageWelcome : ∀ config w, F.LocalTo (F.welcome w) (M.stageWelcome config w none)
  staged : ∀ config w db, wp (M.stageWelcome config w none) db
    (fun staged _ => F.staged staged ⊆ F.welcome w) fun _ _ => True
  intoGroup : ∀ staged, F.LocalTo (F.staged staged) (M.intoGroup staged none)
  joined : ∀ staged db, wp (M.intoGroup staged none) db
    (fun g _ => F.own g ⊆ F.staged staged) fun _ _ => True

/-- **The regions of a batch**: its group, and what its Welcomes use. -/
def batch (args : AllMessagesOfGroupArgs) : Set F.Region :=
  {r | r = F.group args.groupId ∨ ∃ msg ∈ args.messages, msg.messageType = .welcome ∧
    ∃ message w, M.deserialize msg.blob = .ok message ∧ M.extractWelcome message = some w ∧
      r ∈ F.welcome w}

/-- **The batches are apart**: no group is there twice, and no two batches use the same region. -/
def Apart (groups : List AllMessagesOfGroupArgs) : Prop :=
  groups.Pairwise fun a b => a.groupId ≠ b.groupId ∧ Disjoint (F.batch a) (F.batch b)

/-! ## What a batch cannot tell apart -/

/-- Stores that agree on `S`, beside which the first is as in `s₀`. -/
def comparison (S : Set F.Region) (id : String) (s₀ : Session M) : Comparison M where
  store := F.Near S s₀.store
  statuses b b' :=
    statusOf id b = statusOf id b' ∧ ∀ other ≠ id, statusOf other b = statusOf other s₀.beside
  groups g := F.own g ⊆ S
  welcomes w := F.welcome w ⊆ S
  staged staged := F.staged staged ⊆ S

variable {F} {S : Set F.Region} {id : String} {s₀ : Session M}

theorem same_of_local {α : Type} {x : EStateM String (Owning M.Group M.Db) α}
    (hx : F.LocalMethod F.own x) : (F.comparison S id s₀).Same x :=
  hx.sim (fun _ _ h => h.self) (fun _ _ h => h.holds) (fun _ _ h => h.store)
    fun _ _ hself hgroup hstore => ⟨hself, hgroup, hstore⟩

/-- **OpenMLS does the same** on stores that agree on the regions of a batch. -/
theorem comparison_respected (hF : F.Lawful) (hid : F.group id ∈ S) :
    (F.comparison S id s₀).Respected id where
  loadOptimize epochs _ _ h := hF.loadOptimize id epochs (h.inside.mono
    (Set.union_subset_union_right _ (Set.singleton_subset_iff.mpr hid)))
  load h := hF.load id (h.inside.mono
    (Set.union_subset_union_right _ (Set.singleton_subset_iff.mpr hid)))
  loaded h := by
    rintro r rfl
    rwa [h]
  readSignatureKeyPair hg hleaf h := hF.readSignatureKeyPair _ _ hleaf
    (h.inside.mono (Set.union_subset_union_right _ hg))
  processMessage m := same_of_local (hF.processMessage m)
  mergeStagedCommit commit := same_of_local (hF.mergeStagedCommit commit)
  storePendingProposal p := same_of_local (hF.storePendingProposal p)
  commitToPendingProposals signer := same_of_local (hF.commitToPendingProposals signer)
  mergePendingCommit := same_of_local hF.mergePendingCommit
  clearPendingCommit := same_of_local hF.clearPendingCommit
  delete := same_of_local hF.delete
  stageWelcome config w hw := (hF.stageWelcome config w).sim hw s₀.store
  staged config w hw db :=
    wp_mono (hF.staged config w db) (fun _ _ h => h.trans hw) fun _ _ h => h
  intoGroup {staged} h := (hF.intoGroup staged).sim h s₀.store
  joined {staged} h db := wp_mono (hF.joined staged db) (fun _ _ h' => h'.trans h) fun _ _ h => h
  status h := h.1
  inserted op b b' h := by
    refine ⟨?_, fun other hother => ?_⟩
    · rw [statusOf_insert, statusOf_insert]
    · rw [statusOf_insert_of_ne hother]
      exact h.2 other hother
  deleted h := by
    refine ⟨?_, fun other hother => ?_⟩
    · rw [statusOf_filter, statusOf_filter]
    · rw [statusOf_filter_of_ne hother]
      exact h.2 other hother

/-! ## One group -/

variable (F) in
/-- **What a call makes of a batch**: from `u` to `u'` what a call of its own makes, which ends in
`t`, and nothing else. -/
structure Follows (args : AllMessagesOfGroupArgs) (u u' t : Session M) : Prop where
  store : F.AgreeOn (F.batch args) u'.store t.store
  status : statusOf args.groupId u'.beside = statusOf args.groupId t.beside
  elsewhere : F.AgreeOn (F.batch args)ᶜ u'.store u.store
  others : ∀ other ≠ args.groupId, statusOf other u'.beside = statusOf other u.beside

variable (F) in
/-- A batch finds in `u` what it finds in `s`. -/
structure Finds (args : AllMessagesOfGroupArgs) (u s : Session M) : Prop where
  store : F.AgreeOn (F.common ∪ F.batch args) u.store s.store
  status : statusOf args.groupId u.beside = statusOf args.groupId s.beside

variable {args : AllMessagesOfGroupArgs} {u u' s t : Session M}

theorem Finds.refl (args : AllMessagesOfGroupArgs) (s : Session M) : F.Finds args s s :=
  ⟨.refl _ _, rfl⟩

theorem group_mem_batch : F.group args.groupId ∈ F.batch args := .inl rfl

theorem batch_disjoint_common (hF : F.Lawful) : Disjoint (F.batch args) F.common := by
  rw [Set.disjoint_left]
  rintro r (rfl | ⟨msg, -, -, message, w, -, -, hr⟩) hcommon
  · exact hF.group _ hcommon
  · exact Set.disjoint_left.mp (hF.welcome w) hr hcommon

/-- Without Welcomes a batch uses its group only. -/
theorem batch_eq (h : ∀ msg ∈ args.messages, msg.messageType ≠ .welcome) :
    F.batch args = {F.group args.groupId} := by
  ext r
  constructor
  · rintro (rfl | ⟨msg, hmsg, htype, -⟩)
    · exact rfl
    · exact absurd htype (h msg hmsg)
  · rintro rfl
    exact group_mem_batch

/-- What one batch finds the next one does too. -/
theorem Finds.of_follows (hF : F.Lawful) {other : AllMessagesOfGroupArgs}
    (hapart : other.groupId ≠ args.groupId ∧ Disjoint (F.batch other) (F.batch args))
    (hfinds : F.Finds args u s) (hfollows : F.Follows other u u' t) : F.Finds args u' s where
  store := by
    refine Regions.AgreeOn.trans (hfollows.elsewhere.mono ?_) hfinds.store
    intro r hr hother
    rcases hr with hr | hr
    · exact Set.disjoint_left.mp (batch_disjoint_common hF) hother hr
    · exact Set.disjoint_left.mp hapart.2 hother hr
  status := (hfollows.others _ hapart.1.symm).trans hfinds.status

section calm

variable (hM : M.StoresGroups) (hF : F.Lawful) {env : Surroundings M}
  (hcalm : ∀ t, env.fault t = none) (halone : ∀ t, env.others t = []) (config : M.JoinConfig)
include hM hF hcalm halone

/-- **A group of a call** is processed as in a call of its own. -/
theorem processGroup_follows (hfinds : F.Finds args u s) :
    Agree (fun u' t => F.Follows args u u' t) (fun u' t => F.Follows args u u' t)
      ((processGroup env config args).run u) ((processGroup env config args).run s) := by
  have hrespected : (F.comparison (F.batch args) args.groupId u).Respected args.groupId :=
    comparison_respected hF group_mem_batch
  have hwelcome : (F.comparison (F.batch args) args.groupId u).AllWelcomed args.messages :=
    fun msg hmsg htype message w hm hw r hr => .inr ⟨msg, hmsg, htype, message, w, hm, hw, hr⟩
  have hagree := Comparison.processGroup_alike hM hcalm halone hrespected rfl hwelcome config u s
    ⟨.of_agreeOn hfinds.store, hfinds.status, fun _ _ => rfl⟩
  generalize (processGroup env config args).run u = r, (processGroup env config args).run s = r'
    at hagree
  cases hagree with
  | ok h =>
    exact .ok ⟨h.store.inside.mono Set.subset_union_right, h.statuses.1, h.store.outside,
      h.statuses.2⟩
  | error h =>
    exact .error
      ⟨h.store.inside.mono Set.subset_union_right, h.statuses.1, h.store.outside, h.statuses.2⟩

/-! ## A call -/

variable (F) in
omit hM hF hcalm halone in
/-- **Every group ends as in a call of its own**, and the rest is as in `u`. -/
structure Isolated (groups : List AllMessagesOfGroupArgs)
    (ends : AllMessagesOfGroupArgs → Session M)
    (u t : Session M) : Prop where
  store : ∀ a ∈ groups, F.AgreeOn (F.batch a) t.store (ends a).store
  status : ∀ a ∈ groups, statusOf a.groupId t.beside = statusOf a.groupId (ends a).beside
  elsewhere : F.AgreeOn {r | ∀ a ∈ groups, r ∉ F.batch a} t.store u.store
  others : ∀ id, (∀ a ∈ groups, a.groupId ≠ id) → statusOf id t.beside = statusOf id u.beside

omit hM hF hcalm halone in
theorem Isolated.cons {groups : List AllMessagesOfGroupArgs}
    {ends : AllMessagesOfGroupArgs → Session M} (hapart : F.Apart (args :: groups))
    (hfollows : F.Follows args u u' (ends args)) (hisolated : F.Isolated groups ends u' t) :
    F.Isolated (args :: groups) ends u t := by
  obtain ⟨hfirst, -⟩ := List.pairwise_cons.mp hapart
  refine ⟨fun a ha => ?_, fun a ha => ?_, fun r hr => ?_, fun id hid => ?_⟩
  · rcases List.mem_cons.mp ha with rfl | ha
    · refine Regions.AgreeOn.trans (fun r hr => hisolated.elsewhere r ?_) hfollows.store
      exact fun b hb hrb => Set.disjoint_left.mp (hfirst b hb).2 hr hrb
    · exact hisolated.store a ha
  · rcases List.mem_cons.mp ha with rfl | ha
    · rw [hisolated.others _ fun b hb h => (hfirst b hb).1 h.symm]
      exact hfollows.status
    · exact hisolated.status a ha
  · rw [hisolated.elsewhere r fun a ha => hr a (List.mem_cons_of_mem _ ha)]
    exact hfollows.elsewhere r (hr args List.mem_cons_self)
  · rw [hisolated.others id fun a ha => hid a (List.mem_cons_of_mem _ ha)]
    exact hfollows.others id (hid args List.mem_cons_self).symm

/-- **Run lemma**: the groups of a call, one after the other. -/
theorem run_isolated {groups : List AllMessagesOfGroupArgs} (hapart : F.Apart groups)
    (hfinds : ∀ a ∈ groups, F.Finds a u s)
    {results : AllMessagesOfGroupArgs → Option GroupResult × Bool}
    {ends : AllMessagesOfGroupArgs → Session M}
    (hends : ∀ a ∈ groups, (processGroup env config a).run s = .ok (results a) (ends a)) :
    ∃ t, (processAllMessages env config groups).run u = .ok
        { groupResults := groups.flatMap fun a => (ofGroup a.groupId (results a)).groupResults
          deletedGroups :=
            groups.flatMap fun a => (ofGroup a.groupId (results a)).deletedGroups } t ∧
      F.Isolated groups ends u t := by
  induction groups generalizing u with
  | nil =>
    exact ⟨u, rfl, fun _ h => (by cases h), fun _ h => (by cases h), .refl _ _, fun _ _ => rfl⟩
  | cons args groups ih =>
    obtain ⟨hfirst, hrest⟩ := List.pairwise_cons.mp hapart
    have hagree := processGroup_follows hM hF hcalm halone config (hfinds args List.mem_cons_self)
    rw [hends args List.mem_cons_self] at hagree
    generalize hrun : (processGroup env config args).run u = r at hagree
    cases hagree with
    | @ok _ u' _ hfollows =>
    obtain ⟨t, ht, hisolated⟩ := ih hrest
      (fun a ha => (hfinds a (List.mem_cons_of_mem _ ha)).of_follows hF (hfirst a ha) hfollows)
      fun a ha => hends a (List.mem_cons_of_mem _ ha)
    refine ⟨t, ?_, hisolated.cons hapart hfollows⟩
    rw [processAllMessages, run_bind_ok hrun, run_bind_ok ht]
    rfl

omit hM hF hcalm halone in
theorem Finds.stored_eq (hF : F.Lawful) (hstore : F.AgreeOn (F.batch args) u.store s.store) :
    M.stored u.store args.groupId = M.stored s.store args.groupId :=
  hF.stored _ (hstore.mono (Set.singleton_subset_iff.mpr group_mem_batch))

omit hM hcalm halone in
/-- What a batch finds that is apart from all that were processed. -/
theorem Isolated.finds {groups : List AllMessagesOfGroupArgs}
    {ends : AllMessagesOfGroupArgs → Session M} (hisolated : F.Isolated groups ends s t)
    (hapart : ∀ a ∈ groups, a.groupId ≠ args.groupId ∧ Disjoint (F.batch a) (F.batch args)) :
    F.Finds args t s where
  store := by
    refine fun r hr => hisolated.elsewhere r fun a ha hra => ?_
    rcases hr with hr | hr
    · exact Set.disjoint_left.mp (batch_disjoint_common hF) hra hr
    · exact Set.disjoint_left.mp (hapart a ha).2 hra hr
  status := hisolated.others _ fun a ha => (hapart a ha).1

/-- If the call succeeds, so does a call of every group of its own. -/
theorem exists_of_run {groups : List AllMessagesOfGroupArgs} (hapart : F.Apart groups)
    (hfinds : ∀ a ∈ groups, F.Finds a u s) {result : ProcessAllMessagesResult}
    (hrun : (processAllMessages env config groups).run u = .ok result t) :
    ∀ a ∈ groups, ∃ r e, (processGroup env config a).run s = .ok r e := by
  induction groups generalizing u t result with
  | nil => exact fun _ h => by cases h
  | cons args groups ih =>
    obtain ⟨hfirst, hrest⟩ := List.pairwise_cons.mp hapart
    have hagree := processGroup_follows hM hF hcalm halone config (hfinds args List.mem_cons_self)
    rw [processAllMessages] at hrun
    obtain ⟨r, u', hgroup, hrun⟩ := bind_eq_ok hrun
    obtain ⟨result', t', hrun, -⟩ := bind_eq_ok hrun
    rw [hgroup] at hagree
    generalize halone' : (processGroup env config args).run s = r' at hagree
    cases hagree with
    | @ok _ _ e hfollows =>
    intro a ha
    rcases List.mem_cons.mp ha with rfl | ha
    · exact ⟨r, e, halone'⟩
    · refine ih hrest (fun b hb => ?_) hrun a ha
      exact (hfinds b (List.mem_cons_of_mem _ hb)).of_follows hF (hfirst b hb) hfollows

end calm

end Footprints

/-! ## The call and the calls of one group -/

variable {env : Surroundings M} {config : M.JoinConfig} {args : AllMessagesOfGroupArgs}
  {s t : Session M}

theorem run_single_ok_iff {result : ProcessAllMessagesResult} :
    (processAllMessages env config [args]).run s = .ok result t ↔
      ∃ r, (processGroup env config args).run s = .ok r t ∧ result = ofGroup args.groupId r := by
  have hsingle : ∀ r, ofGroup args.groupId r =
      { groupResults := r.1.toList ++ []
        deletedGroups := (if r.2 then [args.groupId] else []) ++ [] } := by
    intro r
    rw [List.append_nil, List.append_nil]
    rfl
  constructor
  · intro h
    obtain ⟨r, u, hgroup, h⟩ := bind_eq_ok h
    obtain ⟨rfl, rfl⟩ := EStateM.Result.ok.inj h
    exact ⟨r, hgroup, (hsingle r).symm⟩
  · rintro ⟨r, hgroup, rfl⟩
    rw [processAllMessages, run_bind_ok hgroup, hsingle]
    rfl

theorem run_single_error {e : Error}
    (h : (processAllMessages env config [args]).run s = .error e t) :
    (processGroup env config args).run s = .error e t := by
  cases hgroup : (processGroup env config args).run s with
  | ok r u =>
    rw [processAllMessages, run_bind_ok hgroup] at h
    cases h
  | error e' u =>
    rw [processAllMessages, run_bind_error hgroup] at h
    cases h
    rfl

theorem run_append_error {front back : List AllMessagesOfGroupArgs} {u : Session M}
    {result : ProcessAllMessagesResult} {e : Error}
    (hfront : (processAllMessages env config front).run s = .ok result u)
    (hargs : (processGroup env config args).run u = .error e t) :
    (processAllMessages env config (front ++ args :: back)).run s = .error e t := by
  induction front generalizing s result with
  | nil =>
    obtain ⟨-, rfl⟩ := EStateM.Result.ok.inj hfront
    exact run_bind_error hargs
  | cons a front ih =>
    obtain ⟨r, s', hgroup, hloop⟩ := bind_eq_ok hfront
    obtain ⟨result', u', hrest, hreturn⟩ := bind_eq_ok hloop
    obtain ⟨-, rfl⟩ := EStateM.Result.ok.inj hreturn
    rw [List.cons_append, processAllMessages, run_bind_ok hgroup, run_bind_error (ih hrest)]

/-- What a call makes of a group is what a call of its own makes. -/
def AsAlone (groups : List AllMessagesOfGroupArgs) (ends : AllMessagesOfGroupArgs → Session M)
    (t : Session M) : Prop :=
  ∀ a ∈ groups, M.stored t.store a.groupId = M.stored (ends a).store a.groupId ∧
    statusOf a.groupId t.beside = statusOf a.groupId (ends a).beside

section calls

variable (hM : M.StoresGroups) {F : Footprints M} (hF : F.Lawful) (hcalm : ∀ t, env.fault t = none)
  (halone : ∀ t, env.others t = []) {groups : List AllMessagesOfGroupArgs} (hapart : F.Apart groups)
include hM hF hcalm halone hapart

/-- A call succeeds iff a call of every group of its own does. -/
theorem exists_run_iff :
    (∃ result t, (processAllMessages env config groups).run s = .ok result t) ↔
      ∀ a ∈ groups, ∃ result t, (processAllMessages env config [a]).run s = .ok result t := by
  have hfinds : ∀ a ∈ groups, F.Finds a s s := fun a _ => .refl a s
  constructor
  · rintro ⟨result, t, hrun⟩ a ha
    obtain ⟨r, e, hgroup⟩ :=
      Footprints.exists_of_run hM hF hcalm halone config hapart hfinds hrun a ha
    exact ⟨_, e, run_single_ok_iff.mpr ⟨r, hgroup, rfl⟩⟩
  · intro hall
    have hgroups : ∀ a ∈ groups, ∃ p : (Option GroupResult × Bool) × Session M,
        (processGroup env config a).run s = .ok p.1 p.2 := by
      intro a ha
      obtain ⟨result, t, hrun⟩ := hall a ha
      obtain ⟨r, hgroup, -⟩ := run_single_ok_iff.mp hrun
      exact ⟨(r, t), hgroup⟩
    have : Nonempty (Session M) := ⟨s⟩
    choose! ends hends using hgroups
    obtain ⟨t, hrun, -⟩ := Footprints.run_isolated hM hF hcalm halone config hapart hfinds hends
    exact ⟨_, t, hrun⟩

theorem run_of_singles {results : AllMessagesOfGroupArgs → ProcessAllMessagesResult}
    {ends : AllMessagesOfGroupArgs → Session M}
    (hends : ∀ a ∈ groups, (processAllMessages env config [a]).run s = .ok (results a) (ends a)) :
    ∃ t, (processAllMessages env config groups).run s = .ok
        { groupResults := groups.flatMap fun a => (results a).groupResults
          deletedGroups := groups.flatMap fun a => (results a).deletedGroups } t ∧
      AsAlone groups ends t ∧
      ∀ id, (∀ a ∈ groups, a.groupId ≠ id ∧ F.group id ∉ F.batch a) →
        M.stored t.store id = M.stored s.store id ∧
          statusOf id t.beside = statusOf id s.beside := by
  have hgroups : ∀ a ∈ groups, ∃ r, (processGroup env config a).run s = .ok r (ends a) ∧
      results a = ofGroup a.groupId r := fun a ha => run_single_ok_iff.mp (hends a ha)
  choose! rs hrs using hgroups
  obtain ⟨t, hrun, hisolated⟩ := Footprints.run_isolated hM hF hcalm halone config hapart
    (fun a _ => .refl a s) fun a ha => (hrs a ha).1
  refine ⟨t, ?_, ?_, ?_⟩
  · rw [hrun, List.flatMap_congr fun a ha => congrArg _ (hrs a ha).2,
      List.flatMap_congr fun a ha => congrArg ProcessAllMessagesResult.deletedGroups (hrs a ha).2]
  · exact fun a ha => ⟨Footprints.Finds.stored_eq hF (hisolated.store a ha), hisolated.status a ha⟩
  · intro id hid
    refine ⟨hF.stored id ?_, hisolated.others id fun a ha => (hid a ha).1⟩
    rintro r rfl
    exact hisolated.elsewhere _ fun a ha => (hid a ha).2

end calls

/-- **The groups of a call are isolated**: it succeeds iff a call of every group of its own does;
then its results are theirs, in order, every group is stored as they leave it, and all other groups
are as before. -/
theorem processAllMessages_isolated (M : OpenMls) (hM : M.StoresGroups) (F : Footprints M)
    (hF : F.Lawful) (env : Surroundings M) (hcalm : ∀ t, env.fault t = none)
    (halone : ∀ t, env.others t = []) (config : M.JoinConfig) {groups : List AllMessagesOfGroupArgs}
    (hapart : F.Apart groups) (s : Session M) :
    ((∃ result t, (processAllMessages env config groups).run s = .ok result t) ↔
      ∀ a ∈ groups, ∃ result t, (processAllMessages env config [a]).run s = .ok result t) ∧
    ∀ (results : AllMessagesOfGroupArgs → ProcessAllMessagesResult)
      (ends : AllMessagesOfGroupArgs → Session M),
      (∀ a ∈ groups, (processAllMessages env config [a]).run s = .ok (results a) (ends a)) →
      ∃ t, (processAllMessages env config groups).run s = .ok
          { groupResults := groups.flatMap fun a => (results a).groupResults
            deletedGroups := groups.flatMap fun a => (results a).deletedGroups } t ∧
        AsAlone groups ends t ∧
        ∀ id, (∀ a ∈ groups, a.groupId ≠ id ∧ F.group id ∉ F.batch a) →
          M.stored t.store id = M.stored s.store id ∧ statusOf id t.beside = statusOf id s.beside :=
  ⟨exists_run_iff hM hF hcalm halone hapart, fun _ _ hends =>
    run_of_singles hM hF hcalm halone hapart hends⟩

/-- **A call that fails**: the groups in front are stored as calls of their own leave them, and the
groups behind are as before. -/
theorem processAllMessages_aborted (M : OpenMls) (hM : M.StoresGroups) (F : Footprints M)
    (hF : F.Lawful) (env : Surroundings M) (hcalm : ∀ t, env.fault t = none)
    (halone : ∀ t, env.others t = []) (config : M.JoinConfig)
    {front back : List AllMessagesOfGroupArgs} {bad : AllMessagesOfGroupArgs}
    (hapart : F.Apart (front ++ bad :: back)) (s : Session M)
    (results : AllMessagesOfGroupArgs → ProcessAllMessagesResult)
    (ends : AllMessagesOfGroupArgs → Session M)
    (hends : ∀ a ∈ front, (processAllMessages env config [a]).run s = .ok (results a) (ends a))
    {e : Error} {u : Session M} (hbad : (processAllMessages env config [bad]).run s = .error e u) :
    ∃ t, (processAllMessages env config (front ++ bad :: back)).run s = .error e t ∧
      AsAlone front ends t ∧ AsAlone [bad] (fun _ => u) t ∧ AsAlone back (fun _ => s) t := by
  have hgroups : ∀ a ∈ front, ∃ r, (processGroup env config a).run s = .ok r (ends a) ∧
      results a = ofGroup a.groupId r := fun a ha => run_single_ok_iff.mp (hends a ha)
  choose! rs hrs using hgroups
  obtain ⟨hfront, hrest, hcross⟩ := List.pairwise_append.mp hapart
  obtain ⟨hbehind, -⟩ := List.pairwise_cons.mp hrest
  obtain ⟨u', hrun, hisolated⟩ := Footprints.run_isolated hM hF hcalm halone config hfront
    (fun a _ => .refl a s) fun a ha => (hrs a ha).1
  have hagree := Footprints.processGroup_follows hM hF hcalm halone config
    (hisolated.finds hF fun a ha => hcross a ha bad List.mem_cons_self)
  rw [run_single_error hbad] at hagree
  generalize hgroup : (processGroup env config bad).run u' = r at hagree
  cases hagree with
  | @error _ t _ hfollows =>
  refine ⟨t, run_append_error hrun hgroup, fun a ha => ⟨?_, ?_⟩, fun a ha => ?_,
    fun a ha => ⟨?_, ?_⟩⟩
  · have hdisjoint := (hcross a ha bad List.mem_cons_self).2
    refine Footprints.Finds.stored_eq hF (Regions.AgreeOn.trans ?_ (hisolated.store a ha))
    exact hfollows.elsewhere.mono fun r hr hrb => Set.disjoint_left.mp hdisjoint hr hrb
  · rw [hfollows.others _ (hcross a ha bad List.mem_cons_self).1]
    exact hisolated.status a ha
  · obtain rfl := List.mem_singleton.mp ha
    exact ⟨Footprints.Finds.stored_eq hF hfollows.store, hfollows.status⟩
  · have hfinds := hisolated.finds hF fun b hb => hcross b hb a (List.mem_cons_of_mem _ ha)
    have hdisjoint := (hbehind a ha).2
    refine Footprints.Finds.stored_eq hF (Regions.AgreeOn.trans ?_
      (hfinds.store.mono Set.subset_union_right))
    exact hfollows.elsewhere.mono fun r hr hrb => Set.disjoint_left.mp hdisjoint hrb hr
  · have hfinds := hisolated.finds hF fun b hb => hcross b hb a (List.mem_cons_of_mem _ ha)
    rw [hfollows.others _ (hbehind a ha).1.symm]
    exact hfinds.status

/-- **The order of the groups does not matter** to a call that succeeds. -/
theorem processAllMessages_perm (M : OpenMls) (hM : M.StoresGroups) (F : Footprints M)
    (hF : F.Lawful) (env : Surroundings M) (hcalm : ∀ t, env.fault t = none)
    (halone : ∀ t, env.others t = []) (config : M.JoinConfig)
    {groups groups' : List AllMessagesOfGroupArgs} (hapart : F.Apart groups)
    (hperm : groups.Perm groups') {s t : Session M} {result : ProcessAllMessagesResult}
    (hrun : (processAllMessages env config groups).run s = .ok result t) :
    ∃ result' t', (processAllMessages env config groups').run s = .ok result' t' ∧
      result'.groupResults.Perm result.groupResults ∧
      result'.deletedGroups.Perm result.deletedGroups ∧ AsAlone groups (fun _ => t) t' := by
  have hapart' : F.Apart groups' :=
    (hperm.pairwise_iff fun h => ⟨h.1.symm, h.2.symm⟩).mp hapart
  have hall := (exists_run_iff hM hF hcalm halone hapart).mp ⟨result, t, hrun⟩
  have : Nonempty ProcessAllMessagesResult := ⟨result⟩
  have : Nonempty (Session M) := ⟨s⟩
  choose! results ends hends using hall
  obtain ⟨u, hu, halike, -⟩ := run_of_singles hM hF hcalm halone hapart hends
  obtain ⟨t', ht', halike', -⟩ := run_of_singles hM hF hcalm halone hapart'
    fun a ha => hends a (hperm.symm.subset ha)
  rw [hrun] at hu
  obtain ⟨rfl, rfl⟩ := EStateM.Result.ok.inj hu
  refine ⟨_, t', ht', hperm.symm.flatMap_right _, hperm.symm.flatMap_right _, fun a ha => ?_⟩
  obtain ⟨hstored, hstatus⟩ := halike a ha
  obtain ⟨hstored', hstatus'⟩ := halike' a (hperm.subset ha)
  exact ⟨hstored'.trans hstored.symm, hstatus'.trans hstatus.symm⟩

/-! ## Without cryptography -/

open Plain

namespace Plain

inductive Region
  | group (id : String)
  | missing
  | keyPackage (k : ℕ)

inductive View
  | group (g : Option PlainGroup)
  | missing (epochs : List ℕ)
  | keyPackage (count : ℕ)

def view (r : Region) (db : PlainDb) : View :=
  match r with
  | .group id => .group (db.groups id)
  | .missing => .missing db.missing
  | .keyPackage k => .keyPackage (db.keyPackages.count k)

end Plain

/-- The group of its id, and a key package by its number; past epochs are common. -/
@[reducible] def plainFootprints : Footprints plain where
  Region := Region
  View := View
  view := view
  common := {.missing}
  group := .group
  welcome k := {.group "g", .keyPackage k}
  staged _ := {.group "g"}

namespace Plain

variable {db db' : PlainDb} {id : String} {α : Type}

theorem groups_eq {S : Set Region} (h : plainFootprints.AgreeOn S db db')
    (hid : Region.group id ∈ S) :
    db.groups id = db'.groups id := by
  have hview := h _ hid
  exact View.group.inj hview

theorem missing_eq {S : Set Region}
    (h : plainFootprints.AgreeOn (plainFootprints.common ∪ S) db db') :
    db.missing = db'.missing := by
  have hview := h .missing (.inl rfl)
  exact View.missing.inj hview

theorem view_write {g : PlainGroup} {r : Region} (hr : r ≠ .group g.id) :
    view r (write db g) = view r db := by
  cases r with
  | group id =>
    have hid : id ≠ g.id := fun h => hr (congrArg Region.group h)
    exact congrArg View.group (Function.update_of_ne hid _ _)
  | missing => rfl
  | keyPackage k => rfl

theorem view_write_self (db : PlainDb) (g : PlainGroup) :
    view (.group g.id) (write db g) = .group (some g) :=
  congrArg View.group (Function.update_self _ _ _)

theorem delete_local : plainFootprints.LocalMethod plainFootprints.own (plain.delete none) where
  reads g s t _ := by
    refine .ok ⟨rfl, fun r hr => ?_⟩
    obtain rfl : r = .group g.id := hr
    have hnone : ∀ db : PlainDb, view (.group g.id)
        { db with groups := Function.update db.groups g.id none } = .group none :=
      fun db => congrArg View.group (Function.update_self _ _ _)
    exact (hnone s).trans (hnone t).symm
  writes g s r hr := by
    cases r with
    | group id =>
      have hid : id ≠ g.id := fun h => hr (congrArg Region.group h)
      exact congrArg View.group (Function.update_of_ne hid _ _)
    | missing => rfl
    | keyPackage k => rfl
  self _ _ := rfl

theorem stageWelcome_run (k : ℕ) (db : PlainDb) : (plain.stageWelcome () k none).run db =
    if k ∈ db.keyPackages then .ok k { db with keyPackages := db.keyPackages.erase k }
    else .error "No matching key package was found in the key store." db := rfl

theorem stageWelcome_local (k : ℕ) :
    plainFootprints.LocalTo (plainFootprints.welcome k) (plain.stageWelcome () k none) where
  reads s t hst := by
    have hgroups : s.groups "g" = t.groups "g" := groups_eq hst (.inr (.inl rfl))
    have hcount : s.keyPackages.count k = t.keyPackages.count k := by
      have hview := hst (.keyPackage k) (.inr (.inr rfl))
      exact View.keyPackage.inj hview
    rw [stageWelcome_run, stageWelcome_run]
    by_cases hk : k ∈ s.keyPackages
    · have hk' : k ∈ t.keyPackages := by
        rw [← List.count_pos_iff, ← hcount]
        exact List.count_pos_iff.mpr hk
      rw [if_pos hk, if_pos hk']
      refine .ok ?_
      rintro r (rfl | rfl)
      · exact congrArg View.group hgroups
      · refine congrArg View.keyPackage ?_
        rw [List.count_erase_self, List.count_erase_self, hcount]
    · have hk' : k ∉ t.keyPackages := by
        rw [← List.count_pos_iff, ← hcount]
        exact fun h => hk (List.count_pos_iff.mp h)
      rw [if_neg hk, if_neg hk']
      exact .error fun r hr => hst r (.inr hr)
  writes s := by
    rw [stageWelcome_run]
    split_ifs
    · intro r hr
      cases r with
      | group id => rfl
      | missing => rfl
      | keyPackage k' =>
        have hne : k' ≠ k := fun h => hr (.inr (congrArg Region.keyPackage h))
        exact congrArg View.keyPackage (List.count_erase_of_ne hne)
    · exact .refl _ _

theorem intoGroup_local (k : ℕ) : plainFootprints.LocalTo {Region.group "g"}
    (plain.intoGroup k none) where
  reads s t _ := by
    refine .ok ?_
    rintro r rfl
    exact (view_write_self s (welcomed k)).trans (view_write_self t (welcomed k)).symm
  writes _ _ hr := view_write hr

theorem change_local (a : α) {f : PlainGroup → PlainGroup} (hf : ∀ g, (f g).id = g.id) :
    plainFootprints.LocalMethod plainFootprints.own (change a f none) where
  reads g s t _ := by
    refine .ok ⟨rfl, fun r hr => ?_⟩
    obtain rfl : r = .group (f g).id := hr.trans (congrArg Region.group (hf g).symm)
    exact (view_write_self s (f g)).trans (view_write_self t (f g)).symm
  writes g s r hr := view_write fun h => hr (h.trans (congrArg Region.group (hf g)))
  self g s := by
    show ({.group (f g).id} : Set Region) = {.group g.id}
    rw [hf g]

theorem changeIf_local (pending : Bool) (a : α) {f : PlainGroup → PlainGroup}
    (hf : ∀ g, (f g).id = g.id) :
    plainFootprints.LocalMethod plainFootprints.own (changeIf pending a f none) := by
  have hchange := change_local a hf
  refine ⟨fun g s t hst => ?_, fun g s => ?_, fun g s => ?_⟩
  · by_cases h : g.pending = pending
    · rw [changeIf_of_eq (s := ⟨g, s⟩) h, changeIf_of_eq (s := ⟨g, t⟩) h]
      exact hchange.reads g s t hst
    · rw [changeIf_of_ne (s := ⟨g, s⟩) h, changeIf_of_ne (s := ⟨g, t⟩) h]
      exact .error ⟨rfl, fun r hr => hst r (.inr hr)⟩
  · by_cases h : g.pending = pending
    · rw [changeIf_of_eq (s := ⟨g, s⟩) h]
      exact hchange.writes g s
    · rw [changeIf_of_ne (s := ⟨g, s⟩) h]
      exact .refl _ _
  · by_cases h : g.pending = pending
    · rw [changeIf_of_eq (s := ⟨g, s⟩) h]
      exact hchange.self g s
    · rw [changeIf_of_ne (s := ⟨g, s⟩) h]
      rfl

end Plain

theorem plainFootprints_lawful : plainFootprints.Lawful where
  group id h := by cases h
  welcome k := by
    rw [Set.disjoint_left]
    rintro r (rfl | rfl) h
    · cases h
    · cases h
  stored id _ _ h := by
    simp only [plain, groups_eq h rfl]
  loadOptimize id epochs _ _ h := by
    simp only [plain, groups_eq h (.inr rfl), missing_eq h]
  load id _ _ h := by
    simp only [plain, groups_eq h (.inr rfl)]
  readSignatureKeyPair _ _ _ _ _ _ := rfl
  processMessage m := by
    refine ⟨fun g s t hst => ?_, fun g s => ?_, fun g s => ?_⟩
    · simp only [plain, EStateM.run]
      cases judge g m with
      | ok r => exact .ok ⟨rfl, fun r hr => hst r (.inr hr)⟩
      | error e => exact .error ⟨rfl, fun r hr => hst r (.inr hr)⟩
    · simp only [plain, EStateM.run]
      cases judge g m <;> exact .refl _ _
    · simp only [plain, EStateM.run]
      cases judge g m <;> rfl
  mergeStagedCommit _ := change_local () fun _ => rfl
  storePendingProposal p := change_local ()
    (f := fun g => { g with queue := g.queue ++ [p.reference] }) fun _ => rfl
  commitToPendingProposals _ := changeIf_local false _ (f := fun g => { g with pending := true })
    fun _ => rfl
  mergePendingCommit := changeIf_local true () fun _ => rfl
  clearPendingCommit := change_local () (f := fun g => { g with pending := false }) fun _ => rfl
  delete := delete_local
  stageWelcome _ k := stageWelcome_local k
  staged _ k db := wp_mono (wp_true _ _) (fun _ _ _ => Set.singleton_subset_iff.mpr (.inl rfl))
    fun _ _ h => h
  intoGroup k := intoGroup_local k
  joined _ _ := Set.Subset.refl _

namespace Plain

def named (id : String) : PlainGroup := { welcomed 1 with id := id }

def threeStored (statuses : GroupStatuses) : Session plain where
  store := write (write (write { groups := fun _ => none, missing := [], keyPackages := [] }
    (named "g")) (named "h")) (named "i")
  beside := statuses
  time := 0
  seen := 0

def commitFor (id : String) : AllMessagesOfGroupArgs := { batch [commitAt 1] with groupId := id }

/-- The own commit for a group that has none. -/
def ownCommitFor (id : String) : AllMessagesOfGroupArgs :=
  { batch [{ commitAt 2 with sender := "1" }] with groupId := id }

theorem apart_of_commits {groups : List AllMessagesOfGroupArgs}
    (hids : (groups.map AllMessagesOfGroupArgs.groupId).Nodup)
    (hnone : ∀ a ∈ groups, ∀ msg ∈ a.messages, msg.messageType ≠ .welcome) :
    plainFootprints.Apart groups := by
  rw [List.nodup_iff_pairwise_ne, List.pairwise_map] at hids
  refine hids.imp_of_mem fun ha hb hne => ⟨hne, ?_⟩
  rw [Footprints.batch_eq (hnone _ ha), Footprints.batch_eq (hnone _ hb), Set.disjoint_singleton]
  exact fun h => hne (Region.group.inj h)

def nothingFor (id : String) : GroupResult where
  groupId := id
  membersToRemove := []
  membersToReadd := ∅
  error := none

def reportOf (a : AllMessagesOfGroupArgs) : ProcessAllMessagesResult where
  groupResults := [nothingFor a.groupId]
  deletedGroups := []

def endOf (statuses : GroupStatuses) (a : AllMessagesOfGroupArgs) : Session plain :=
  final ((processAllMessages .calm () [a]).run (threeStored statuses))

theorem commitFor_run : ∀ a ∈ [commitFor "g", commitFor "h"],
    (processAllMessages .calm () [a]).run (threeStored []) = .ok (reportOf a) (endOf [] a) := by
  intro a ha
  rcases List.mem_pair.mp ha with rfl | rfl
  · rfl
  · rfl

end Plain

theorem processAllMessages_isolated_two : ∃ t,
    (processAllMessages .calm () [commitFor "g", commitFor "h"]).run (threeStored []) =
      .ok { groupResults := [nothingFor "g", nothingFor "h"], deletedGroups := [] } t ∧
    AsAlone [commitFor "g", commitFor "h"] (endOf []) t := by
  have hapart : plainFootprints.Apart [commitFor "g", commitFor "h"] :=
    apart_of_commits (by decide) (by decide)
  obtain ⟨t, hrun, halike, -⟩ := (processAllMessages_isolated plain plain_storesGroups
    plainFootprints plainFootprints_lawful .calm (fun _ => rfl) (fun _ => rfl) () hapart (threeStored [])).2
    reportOf (endOf []) commitFor_run
  exact ⟨t, hrun, halike⟩

/-- An update that is recorded for a group and not pending ends the call. -/
theorem processAllMessages_aborted_second : ∃ e t,
    (processAllMessages .calm () [commitFor "g", ownCommitFor "h", commitFor "i"]).run
      (threeStored [("h", "update_tree")]) = .error e t ∧
    (plain.stored t.store "g").map plain.epoch = some 2 ∧
    (plain.stored t.store "i").map plain.epoch = some 1 := by
  have hapart : plainFootprints.Apart ([commitFor "g"] ++ ownCommitFor "h" :: [commitFor "i"]) :=
    apart_of_commits (by decide) (by decide)
  have hfront : ∀ a ∈ [commitFor "g"], (processAllMessages .calm () [a]).run
      (threeStored [("h", "update_tree")]) = .ok (reportOf a) (endOf [("h", "update_tree")] a) := by
    intro a ha
    obtain rfl := List.mem_singleton.mp ha
    rfl
  have hbad : ∃ e u, (processAllMessages .calm () [ownCommitFor "h"]).run
      (threeStored [("h", "update_tree")]) = .error e u := ⟨_, _, rfl⟩
  obtain ⟨e, u, hbad⟩ := hbad
  obtain ⟨t, hrun, hg, -, hi⟩ := processAllMessages_aborted plain plain_storesGroups plainFootprints
    plainFootprints_lawful .calm (fun _ => rfl) (fun _ => rfl) () hapart
    (threeStored [("h", "update_tree")]) reportOf (endOf [("h", "update_tree")]) hfront hbad
  refine ⟨e, t, hrun, ?_, ?_⟩
  · exact (congrArg (Option.map plain.epoch) (hg _ (List.mem_singleton_self _)).1).trans rfl
  · exact (congrArg (Option.map plain.epoch) (hi _ (List.mem_singleton_self _)).1).trans rfl

theorem processAllMessages_perm_two : ∃ result t,
    (processAllMessages .calm () [commitFor "h", commitFor "g"]).run (threeStored []) =
      .ok result t ∧ result.groupResults.Perm [nothingFor "g", nothingFor "h"] := by
  have hapart : plainFootprints.Apart [commitFor "g", commitFor "h"] :=
    apart_of_commits (by decide) (by decide)
  have hrun : ∃ t, (processAllMessages .calm () [commitFor "g", commitFor "h"]).run
    (threeStored []) =
      .ok { groupResults := [nothingFor "g", nothingFor "h"], deletedGroups := [] } t := ⟨_, rfl⟩
  obtain ⟨t, hrun⟩ := hrun
  obtain ⟨result, t', hrun', hresults, -⟩ := processAllMessages_perm plain plain_storesGroups
    plainFootprints plainFootprints_lawful .calm (fun _ => rfl) (fun _ => rfl) () hapart
    (.swap _ _ _) hrun
  exact ⟨result, t', hrun', hresults⟩

end KChat.Mls
