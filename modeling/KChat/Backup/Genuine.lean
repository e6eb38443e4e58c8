import KChat.Backup.Authentic
import KChat.Backup.CallbackProtocol
import KChat.Backup.Restore

/-!
# What a store can make a device restore

The store may serve anything for a chunk: another chunk's object, another account's, an older one, a
piece of one.

* `BackupObject`: an object that was sealed for a chunk of an account. `IdealBackup`: under the key
  and the associated data of an object nothing decrypts but the blocks sealed under them.
* `writtenBytes`: what the foreign sink was passed; `openObjectV1_shown`.
* `created_inj`: the context of an object says which account and which chunk it is for.
* **`openBackupObjectV1_genuine`**: a device is passed nothing but what was sealed for the account
  and the chunk it has asked for.
-/

namespace KChat.Backup

open Lib BoundedDecoder

variable {σ δ κ μ : Type} {P : Primitives μ} {A : StreamAead} {C : Compressor κ}
  {key : BackupMasterKey}

/-! ## The objects of a backup -/

/-- **An object sealed for a chunk of an account.** -/
structure BackupObject (P : Primitives μ) (A : StreamAead) (C : Compressor κ)
    (key : BackupMasterKey) where
  accountId : BackupAccountId
  chunkId : BackupChunkId
  context : BackupObjectContextV1
  created : key.createContext P accountId (BackupId.derive P.deriveHkdf key.key accountId) chunkId =
    .ok context
  object : SealedObject A C context

/-- No nonce prefix is used for two objects of one key. -/
def FreshObjects (objects : Set (BackupObject P A C key)) : Prop :=
  ∀ o ∈ objects, ∀ o' ∈ objects, o.context.objectKey = o'.context.objectKey →
    o.object.noncePrefix = o'.object.noncePrefix → o = o'

/-- What decrypts under the key and the associated data of a context was sealed under that key with
those data. -/
def IdealUnder (objects : Set (BackupObject P A C key)) (context : BackupObjectContextV1) : Prop :=
  A.Authentic context.objectKey context.canonicalBytes fun nonce i last msg =>
    ∃ o ∈ objects, o.context.objectKey = context.objectKey ∧
      o.context.canonicalBytes = context.canonicalBytes ∧ o.object.noncePrefix.val = nonce ∧
      SealedBlock o.object.compressed i last msg

/-- **An ideal AEAD**, for some accounts and some chunks. -/
def IdealBackup (objects : Set (BackupObject P A C key)) (accounts : Set BackupAccountId)
    (chunks : Set BackupChunkId) : Prop :=
  ∀ accountId ∈ accounts, ∀ chunkId ∈ chunks, ∀ context,
    key.createContext P accountId (BackupId.derive P.deriveHkdf key.key accountId) chunkId =
      .ok context → IdealUnder objects context

/-- The object is for the account and the chunk that a device asks for. -/
def BackupObject.IsFor (o : BackupObject P A C key) (accountId : String) (chunkId : Bytes) : Prop :=
  P.parseUuid accountId = some o.accountId ∧ o.chunkId.val.val = chunkId

def objectsOf (objects : Set (BackupObject P A C key)) (context : BackupObjectContextV1) :
    Set (SealedObject A C context) :=
  {x | ∃ o ∈ objects, ∃ h : o.context = context, h ▸ o.object = x}

section contexts

variable {objects : Set (BackupObject P A C key)} {context : BackupObjectContextV1}

theorem context_ext {context context' : BackupObjectContextV1}
    (hkey : context.objectKey = context'.objectKey)
    (hbytes : context.canonicalBytes = context'.canonicalBytes) : context = context' := by
  cases context
  cases context'
  cases hkey
  cases hbytes
  rfl

theorem idealAead_objectsOf (h : IdealUnder objects context) :
    IdealAead (objectsOf objects context) := by
  intro nonce i last ct msg hmsg
  obtain ⟨o, ho, hkey, hbytes, hnonce, hblock⟩ := h nonce i last ct msg hmsg
  obtain rfl := context_ext hkey hbytes
  exact ⟨o.object, ⟨o, ho, rfl, rfl⟩, hnonce, hblock⟩

theorem freshNonces_objectsOf (h : FreshObjects objects) :
    FreshNonces (objectsOf objects context) := by
  rintro _ ⟨o, ho, rfl, rfl⟩ _ ⟨o', ho', hcontext, rfl⟩ hnonce
  have hnonce' : o.object.noncePrefix = o'.object.noncePrefix := by
    rw [hnonce]
    clear hnonce
    generalize o.context = context at hcontext
    cases hcontext
    rfl
  obtain rfl := h o ho o' ho' (congrArg _ hcontext.symm) hnonce'
  rfl

theorem created_inj {accounts : Set BackupAccountId} {chunks : Set BackupChunkId}
    (hinj : CollisionFree P.deriveHkdf key.key accounts chunks)
    {accountId accountId' : BackupAccountId} {chunkId chunkId' : BackupChunkId}
    (ha : accountId ∈ accounts) (ha' : accountId' ∈ accounts) (hc : chunkId ∈ chunks)
    (hc' : chunkId' ∈ chunks)
    (h : key.createContext P accountId (BackupId.derive P.deriveHkdf key.key accountId) chunkId =
      .ok context)
    (h' : key.createContext P accountId' (BackupId.derive P.deriveHkdf key.key accountId')
      chunkId' = .ok context) : accountId = accountId' ∧ chunkId = chunkId' := by
  unfold BackupMasterKey.createContext at h h'
  rw [if_neg (not_not.mpr rfl)] at h h'
  have hkey := (BackupObjectContextV1.new_eq_ok h).2
  have hkey' := (BackupObjectContextV1.new_eq_ok h').2
  have hsame := Purpose.key_injOn hinj (.object ha hc) (.object ha' hc')
    (Subtype.ext (hkey.symm.trans hkey'))
  exact Purpose.object.inj hsame

theorem createObjectContext_eq_ok {accountId : String} {backupId chunkId : Bytes}
    (hbackup : key.deriveBackupId P accountId = .ok backupId)
    (h : key.createObjectContext P accountId backupId chunkId = .ok context) :
    ∃ account chunk, P.parseUuid accountId = some account ∧ chunk.val.val = chunkId ∧
      key.createContext P account (BackupId.derive P.deriveHkdf key.key account) chunk =
        .ok context := by
  unfold BackupMasterKey.deriveBackupId at hbackup
  unfold BackupMasterKey.createObjectContext at h
  obtain ⟨account, haccount, hid⟩ := exists_of_bind_eq_ok hbackup
  obtain ⟨account', haccount', hafter⟩ := exists_of_bind_eq_ok h
  obtain rfl := Except.ok.inj (haccount.symm.trans haccount')
  cases hid
  obtain ⟨backupId, hbackupId, hrest⟩ := exists_of_bind_eq_ok hafter
  rw [exactArray_val] at hbackupId
  cases hbackupId
  obtain ⟨bytes, hbytes, hlast⟩ := exists_of_bind_eq_ok hrest
  obtain ⟨chunk, hchunk, hcreate⟩ := exists_of_bind_eq_ok hlast
  have hval : chunk.val = bytes := by
    unfold BackupChunkId.fromBytes at hchunk
    split_ifs at hchunk
    cases hchunk
    rfl
  refine ⟨account, chunk, BackupAccountId.parse_eq_ok P haccount, ?_, hcreate⟩
  rw [hval, exactArray_eq_ok hbytes]

end contexts

/-! ## What the foreign sink is passed -/

def CallbackEvent.chunk : CallbackEvent → Option Bytes
  | written chunk => some chunk
  | _ => none

def writtenBytes (log : List CallbackEvent) : Bytes := (log.filterMap CallbackEvent.chunk).flatten

@[simp] theorem writtenBytes_append_released (log : List CallbackEvent) :
    writtenBytes (log ++ [.released]) = writtenBytes log := by
  simp [writtenBytes, CallbackEvent.chunk]

/-- The record shows what the core has passed on. -/
def Shown (w : World ((σ × List CallbackEvent) × Bool)) : Prop :=
  w.delivered = w.foreign.1.2.filterMap CallbackEvent.chunk

section written

variable {source : SourceCallbacks σ} {sink : SinkCallbacks σ}

theorem Shown.bytes {w : World ((σ × List CallbackEvent) × Bool)} (h : Shown w) :
    w.bytes = writtenBytes w.foreign.1.2 := by
  rw [World.bytes, h]
  rfl

theorem Shown.append {w : World ((σ × List CallbackEvent) × Bool)} (h : Shown w)
    (event : CallbackEvent) (s : σ) (flag : Bool) :
    Shown { foreign := ((s, w.foreign.1.2 ++ [event]), flag),
            delivered := w.delivered ++ event.chunk.toList } := by
  rw [Shown, h, List.filterMap_append]
  cases hchunk : event.chunk <;> simp [hchunk]

theorem cancelled_shown :
    Preserves Shown Shown (SourceAdapter source.monitored).cancelled := by
  rintro ⟨⟨⟨s, log⟩, flag⟩, d⟩ h
  show Shown { foreign := ((SourceAdapter source.monitored).isCancelled ((s, log), flag)).2,
               delivered := d }
  cases hrun : source.isCancelled.run s with
  | ok answer s' =>
    have hmonitored : source.monitored.isCancelled.run (s, log) = _ := run_noted_ok hrun
    simp only [SourceAdapter, hmonitored]
    simpa [CallbackEvent.chunk] using h.append (.polled (.ok answer)) s' flag
  | error e s' =>
    have hmonitored : source.monitored.isCancelled.run (s, log) = _ := run_noted_error hrun
    simp only [SourceAdapter, hmonitored]
    simpa [CallbackEvent.chunk] using h.append (.polled (.error e)) s' true

theorem read_shown (capacity : ℕ) :
    Preserves Shown Shown ((SourceAdapter source.monitored).read capacity) := by
  rintro ⟨⟨⟨s, log⟩, flag⟩, d⟩ h
  have hnext : ∀ reply (s' : σ),
      Shown { foreign := ((s', log ++ [.read capacity reply]), flag), delivered := d } := by
    intro reply s'
    simpa [CallbackEvent.chunk] using h.append (.read capacity reply) s' flag
  cases hrun : (source.readChunk capacity).run s with
  | ok data s' =>
    by_cases hlong : capacity < data.length
    · exact (wp_of_error (run_read_long hrun hlong)).mpr (hnext _ _)
    · exact (wp_of_ok (run_read_ok hrun hlong)).mpr (hnext _ _)
  | error e s' => exact (wp_of_error (run_read_error hrun)).mpr (hnext _ _)

theorem write_shown (chunk : Bytes) :
    Preserves Shown Shown ((SinkAdapter.forward sink.monitored).write chunk) := by
  rintro ⟨⟨⟨s, log⟩, flag⟩, d⟩ h
  have hnext : ∀ s' : σ,
      Shown { foreign := ((s', log ++ [.written chunk]), flag), delivered := d ++ [chunk] } :=
    fun s' => h.append (.written chunk) s' flag
  cases hrun : (sink.writeChunk chunk).run s with
  | ok u s' => exact (wp_of_ok (run_write_ok hrun)).mpr (hnext _)
  | error e s' => exact (wp_of_error (run_write_error hrun)).mpr (hnext _)

/-- **The record of a run shows all that the core has passed on.** -/
theorem openObjectV1_shown (R : RawDecoder δ) (context : BackupObjectContextV1) :
    Preserves Shown Shown (openObjectV1 A R (SourceAdapter source.monitored)
      (SinkAdapter.forward sink.monitored) context) := by
  have hstep : InStep (fun w v => w = v ∧ Shown w) (fun w v => w = v ∧ Shown w)
      (SourceAdapter source.monitored) (SinkAdapter.forward sink.monitored)
      (SourceAdapter source.monitored) (SinkAdapter.forward sink.monitored) :=
    inStep_of_reads (fun _ _ h => h) (Sim.of_keeps cancelled_shown)
      (fun capacity => Sim.of_keeps (read_shown capacity))
      fun chunk => Sim.of_keeps (write_shown chunk)
  exact fun w hw => (hstep.openObjectV1 A R context).keeps hw

end written

/-! ## What a device is passed -/

/-- What a run of the bindings has passed to the foreign sink, and what it was asked for. -/
structure Genuine (objects : Set (BackupObject P A C key)) (accountId : String) (chunkId : Bytes)
    (result : Except BackupErrorCode Unit) (written : Bytes) : Prop where
  begins : written = [] ∨ ∃ o ∈ objects, o.IsFor accountId chunkId ∧ written <+: o.object.plaintext
  complete : result = .ok () →
    ∃ o ∈ objects, o.IsFor accountId chunkId ∧ written = o.object.plaintext

theorem genuine_nil {objects : Set (BackupObject P A C key)} {accountId : String} {chunkId : Bytes}
    (e : BackupErrorCode) : Genuine objects accountId chunkId (.error e) [] where
  begins := .inl rfl
  complete h := by cases h

/-- **A device is passed nothing but what was sealed for what it asks for.** The store serves what
it likes and may fail, and so may the sink: what is written begins the plaintext of an object that
was sealed for this account and this chunk, and is all of it if the call succeeds. -/
theorem openBackupObjectV1_genuine (P : Primitives μ) (A : StreamAead) (C : Compressor κ)
    (R : RawDecoder δ) (frame : Bytes → Option Bytes)
    (hC : C.Encodes frame BackupObjectWriterV1.level windowLogMax)
    (hsound : R.Sound frame windowLogMax) (key : BackupMasterKey) {accounts : Set BackupAccountId}
    {chunks : Set BackupChunkId} (hinj : CollisionFree P.deriveHkdf key.key accounts chunks)
    (objects : Set (BackupObject P A C key))
    (hobjects : ∀ o ∈ objects, o.accountId ∈ accounts ∧ o.chunkId ∈ chunks)
    (hfresh : FreshObjects objects) (hideal : IdealBackup objects accounts chunks)
    {accountId : String} (ha : ∀ account, P.parseUuid accountId = some account → account ∈ accounts)
    {chunkId : Bytes} (hc : ∀ chunk : BackupChunkId, chunk.val.val = chunkId → chunk ∈ chunks)
    (source : BackupCiphertextSource σ) (sink : BackupPlaintextSink σ) (s : σ) :
    let r := (openBackupObjectV1 P A R key accountId chunkId source.monitored sink.monitored).run
      (s, [])
    Genuine objects accountId chunkId (outcome r) (writtenBytes (final r).2) := by
  have hreleased : ∀ t : σ × List CallbackEvent,
      writtenBytes (final (source.monitored.releaseStream.run t)).2 = writtenBytes t.2 := by
    rintro ⟨s, log⟩
    change writtenBytes (final ((noted (fun _ => .released) source.releaseStream).run _)).2 = _
    rw [final_noted_released, writtenBytes_append_released]
  refine result_of_wp
    (P := fun result (t : σ × List CallbackEvent) =>
      Genuine objects accountId chunkId result (writtenBytes t.2)) ?_
  rw [openBackupObjectV1, wp_releasing, wp_bind]
  simp only [hreleased]
  refine wp_ofResult (fun backupId hbackup => ?_) fun e _ => genuine_nil e
  rw [wp_bind]
  refine wp_ofResult (fun context hcontext => ?_) fun e _ => genuine_nil e
  obtain ⟨account, chunk, haccount, hchunk, hcreated⟩ := createObjectContext_eq_ok hbackup hcontext
  rw [wp_withAdapters, SinkAdapter, openObjectV1_unguarded]
  have hfor : ∀ x ∈ objectsOf objects context, ∃ o ∈ objects, o.IsFor accountId chunkId ∧
      x.plaintext = o.object.plaintext := by
    rintro _ ⟨o, ho, rfl, rfl⟩
    obtain ⟨hoa, hoc⟩ := hobjects o ho
    obtain ⟨rfl, rfl⟩ := created_inj hinj hoa (ha _ haccount) hoc (hc _ hchunk) o.created hcreated
    exact ⟨o, ho, ⟨haccount, hchunk⟩, rfl⟩
  have hdelivered := openObjectV1_delivered hC hsound (freshNonces_objectsOf hfresh)
    (idealAead_objectsOf (hideal _ (ha _ haccount) _ (hc _ hchunk) context hcreated))
    (SourceAdapter source.monitored.toSourceCallbacks)
    (SinkAdapter.forward sink.monitored) { foreign := ((s, []), false), delivered := [] } rfl
  have hrecord : Preserves Shown Shown (openObjectV1 A R
      (SourceAdapter source.toSourceCallbacks.monitored) (SinkAdapter.forward sink.monitored)
      context) := openObjectV1_shown R context
  have hshown := hrecord { foreign := ((s, []), false), delivered := [] } rfl
  refine wp_mono (wp_and hdelivered hshown) (fun _ w hw => ?_) fun e w hw => ?_
  · obtain ⟨⟨x, hx, hbytes⟩, hshown⟩ := hw
    obtain ⟨o, ho, hof, hplain⟩ := hfor x hx
    rw [← hshown.bytes, hbytes, hplain]
    have hgenuine : ∀ result, Genuine objects accountId chunkId result o.object.plaintext :=
      fun _ => ⟨.inr ⟨o, ho, hof, List.prefix_refl _⟩, fun _ => ⟨o, ho, hof, rfl⟩⟩
    split
    · exact hgenuine _
    · exact hgenuine _
  · obtain ⟨hdelivered, hshown⟩ := hw
    rw [← hshown.bytes]
    refine ⟨?_, fun h => by cases h⟩
    obtain hnone | ⟨x, hx, hprefix⟩ := hdelivered
    · exact .inl hnone
    · obtain ⟨o, ho, hof, hplain⟩ := hfor x hx
      exact .inr ⟨o, ho, hof, hplain ▸ hprefix⟩

/-! ### One chunk in another's place -/

/-- The AEAD that knows its messages for each key, with their associated data. -/
def boundAead (known : Bytes → Bytes → Bytes → ℕ → Bool → Bytes → Bool) : StreamAead where
  encrypt key nonce position last aad msg :=
    (taggedAead (known key aad)).encrypt key nonce position last aad msg
  decrypt key nonce position last aad ct :=
    (taggedAead (known key aad)).decrypt key nonce position last aad ct
  encrypt_length := (taggedAead _).encrypt_length
  decrypt_length := (taggedAead _).decrypt_length

theorem boundAead_authentic (known : Bytes → Bytes → Bytes → ℕ → Bool → Bytes → Bool)
    (key aad : Bytes) : (boundAead known).Authentic key aad
      fun nonce position last msg => known key aad nonce position last msg = true :=
  fun nonce position last ct msg h =>
    taggedAead_authentic (known key aad) key aad nonce position last ct msg h

/-- Primitives that tell keys apart, and know one account. -/
def tellingPrimitives : Primitives Bytes where
  bip39 := spelledMnemonics
  hkdf secret info :=
    if h : secret.length = 32 then tellingHkdf ⟨secret, h⟩ info else idEndingIn 31 0
  argon2id _ _ _ _ _ := none
  parseUuid account :=
    if account = "00112233-4455-6677-8899-aabbccddeeff" then some (idEndingIn 15 1) else none

theorem tellingPrimitives_deriveHkdf : tellingPrimitives.deriveHkdf = tellingHkdf := by
  funext key info
  exact dif_pos key.property

def tellingKey : BackupMasterKey := { key := .mnemonic ⟨idEndingIn 31 0⟩ }

def firstContext : BackupObjectContextV1 :=
  ((tellingKey.createContext tellingPrimitives (idEndingIn 15 1)
    (BackupId.derive tellingPrimitives.deriveHkdf tellingKey.key (idEndingIn 15 1))
    (chunkEndingIn 1 firstChunk_ne)).toOption).getD default

/-- The AEAD that has encrypted one block for the first chunk. -/
def firstAead : StreamAead :=
  boundAead fun key aad nonce i last msg =>
    key == firstContext.objectKey && aad == firstContext.canonicalBytes &&
      nonce == List.replicate 19 0 && i == 0 && last && msg == stored [7, 8, 9]

theorem firstObject_sealed : SealedWith firstAead storedCompressor firstContext default
    (stored [7, 8, 9]) [7, 8, 9] (serializeHeader (List.replicate 19 0) ++
      frameOf (stored [7, 8, 9] ++ List.replicate 16 0)) where
  compressed := ⟨[], [[7, 8, 9]], rfl, rfl, rfl⟩
  envelope := by decide +kernel
  plaintext_le := by decide +kernel
  size_le := by decide +kernel

def firstObject : BackupObject tellingPrimitives firstAead storedCompressor tellingKey where
  accountId := idEndingIn 15 1
  chunkId := chunkEndingIn 1 firstChunk_ne
  context := firstContext
  created := rfl
  object :=
    { noncePrefix := default
      compressed := stored [7, 8, 9]
      plaintext := [7, 8, 9]
      bytes := serializeHeader (List.replicate 19 0) ++
        frameOf (stored [7, 8, 9] ++ List.replicate 16 0)
      sealedWith := firstObject_sealed }

theorem firstObject_ideal (context : BackupObjectContextV1) : IdealUnder {firstObject} context := by
  intro nonce i last ct msg h
  have hknown := boundAead_authentic _ _ _ nonce i last ct msg h
  simp only [Bool.and_eq_true, beq_iff_eq] at hknown
  obtain ⟨⟨⟨⟨⟨hkey, haad⟩, rfl⟩, rfl⟩, rfl⟩, rfl⟩ := hknown
  refine ⟨firstObject, rfl, hkey.symm, haad.symm, rfl, ?_⟩
  rw [SealedBlock, if_pos rfl]
  exact ⟨by decide +kernel, by decide +kernel⟩

/-- The object of the first chunk is served for the second: nothing is written, and the call fails.
-/
theorem openBackupObjectV1_genuine_swapped :
    let r := (openBackupObjectV1 tellingPrimitives firstAead storedDecoder tellingKey
      "00112233-4455-6677-8899-aabbccddeeff" (idEndingIn 31 2).val (memoryStream 1).monitored
      memoryStore.monitored).run ((firstObject.object.bytes, []), [])
    outcome r ≠ .ok () ∧ writtenBytes (final r).2 = [] := by
  intro r
  have hinj : CollisionFree tellingPrimitives.deriveHkdf tellingKey.key
      {idEndingIn 15 1, idEndingIn 15 2}
      {chunkEndingIn 1 firstChunk_ne, chunkEndingIn 2 (by decide)} := by
    rw [tellingPrimitives_deriveHkdf]
    exact collisionFree_twoByTwo
  have haccount : ∀ account, tellingPrimitives.parseUuid "00112233-4455-6677-8899-aabbccddeeff" =
      some account → account ∈ ({idEndingIn 15 1, idEndingIn 15 2} : Set BackupAccountId) := by
    intro account h
    cases h
    exact .inl rfl
  have hchunk : ∀ chunk : BackupChunkId, chunk.val.val = (idEndingIn 31 2).val →
      chunk ∈ ({chunkEndingIn 1 firstChunk_ne, chunkEndingIn 2 (by decide)} : Set BackupChunkId) :=
    fun chunk h => .inr (Subtype.ext (Subtype.ext h))
  have hgenuine := openBackupObjectV1_genuine tellingPrimitives firstAead storedCompressor
    storedDecoder storedFrame (storedCompressor_encodes _ (by decide +kernel))
    (storedDecoder_sound _) tellingKey hinj {firstObject}
    (by rintro o rfl; exact ⟨.inl rfl, .inl rfl⟩) (by rintro o rfl o' rfl _ _; rfl)
    (fun _ _ _ _ context _ => firstObject_ideal context)
    haccount hchunk (memoryStream 1) memoryStore (firstObject.object.bytes, [])
  have hother : ∀ o ∈ ({firstObject} : Set (BackupObject _ _ _ _)),
      ¬o.IsFor "00112233-4455-6677-8899-aabbccddeeff" (idEndingIn 31 2).val := by
    rintro o rfl ⟨-, hchunk⟩
    exact absurd hchunk (by decide)
  constructor
  · intro hok
    obtain ⟨o, ho, hfor, -⟩ := hgenuine.complete hok
    exact hother o ho hfor
  · obtain hnone | ⟨o, ho, hfor, -⟩ := hgenuine.begins
    · exact hnone
    · exact (hother o ho hfor).elim

end KChat.Backup
