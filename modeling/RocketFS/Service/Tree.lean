import RocketFS.Service.Creations

/-!
# The directory tree is well formed

In every database a run of interleaved requests reaches, the inode records form a
tree over the root, every entry belongs to the inode it names, and the times are
stored for exactly the inodes. The parent is checked in a snapshot that may be
older than the database the row is written to; it is still there because nothing
is ever removed, and it was created before, which is why there are no cycles.

## Main definitions

* `WellFormedTree` — what the records of the four column families have to do with
  each other

## Main results

* `wellFormedTree_of_fresh` — every run with fresh ids and non-empty names
-/

namespace RocketFS

/-! ### The requests of a trace -/

/-- The threads of a run are those whose request was accepted in it. -/
theorem accepted_run {fb : FlatBuffers} {db : Database} {trace : ServiceTrace} {s : ServiceState}
    (h : Run (serviceStep fb) (ServiceState.init db) trace s) :
    ∀ t req, (∃ thread, s.thread t = some thread ∧ thread.request = req) ↔
      ∃ reply, (⟨t, .accept req⟩, reply) ∈ trace := by
  refine h.invariant (P := fun trace s => ∀ t req,
    (∃ thread, s.thread t = some thread ∧ thread.request = req) ↔
      ∃ reply, (⟨t, .accept req⟩, reply) ∈ trace) (by simp [ServiceState.init]) ?_
  rintro trace s ⟨t, event⟩ s' reply _ hinv hs u req
  obtain ⟨action, thread', hthread, _, hself, hother⟩ := serviceStep_inv hs
  by_cases hu : u = t
  · subst hu
    have hold := hinv u
    rw [hself]
    generalize s.thread u = thread at hthread hold
    cases hthread with
    | accept req' reply =>
      -- a thread that is being accepted was not there, so nothing was accepted for it
      have hnone : ∀ r reply, (⟨u, .accept r⟩, reply) ∉ trace := fun r reply hmem => by
        obtain ⟨thread, hsome, _⟩ := (hold r).mpr ⟨reply, hmem⟩
        cases hsome
      simp [Thread.request, hnone, eq_comm]
    | takeSnapshot | next | nextThrew | nowNs =>
      simpa [Thread.request] using hold req
    | @call req' op k event action haction reply =>
      -- no operation of a handler accepts a request
      have hevent : ∀ r, event ≠ .accept r := by
        rintro r rfl
        rcases op with (_ | _) | _ | _ | _ | _ | _ <;> cases haction
      simpa [Thread.request, Ne.symm (hevent req)] using hold req
  · rw [hother u hu, hinv u req]
    simp [hu]

/-- The names of the rows are names of requests. -/
theorem CreationsInv.names {fb : FlatBuffers} {db : Database} {trace : ServiceTrace}
    {s : ServiceState} {creations : List (TxnId × Dir)} {P : Bytes → Prop}
    (hrun : Run (serviceStep fb) (ServiceState.init db) trace s)
    (h : CreationsInv fb trace s creations) (hnames : ∀ e ∈ trace, e.1.event.Names P) :
    ∀ dir ∈ rowsOf creations, P dir.name := by
  intro dir hdir
  obtain ⟨⟨t, _⟩, ht, rfl⟩ := List.mem_map.mp hdir
  obtain ⟨req, rest, parentDir, now, txn, hthread, _, _, _, hrow⟩ := h.wrote t _ ht
  obtain ⟨reply, hmem⟩ := (accepted_run hrun t (.mkdirs req)).mp ⟨_, hthread, rfl⟩
  rw [hrow]
  exact hnames _ hmem

theorem CreationsInv.name_ne_nil {fb : FlatBuffers} {db : Database} {trace : ServiceTrace}
    {s : ServiceState} {creations : List (TxnId × Dir)}
    (hrun : Run (serviceStep fb) (ServiceState.init db) trace s)
    (h : CreationsInv fb trace s creations) (hnames : NonemptyNames trace) :
    ∀ dir ∈ rowsOf creations, dir.name ≠ [] :=
  h.names hrun hnames

/-! ### Well-formed trees -/

/-- The parent stored in the inode record of an id. -/
def parentOf (fb : FlatBuffers) (db : Database) (id : InodeID) : InodeID :=
  match (db.get kInodeCFIndex (InodeSerde.serKey id)).map (InodeSerde.deVal fb) with
  | some (.ok (.inl dir)) => dir.parentId
  | _ => id

/-- The records of the four column families belong together. -/
structure WellFormedTree (fb : FlatBuffers) (db : Database) : Prop where
  /-- An inode record shows its own id and an existing parent, and its ancestors end
  at the root. -/
  inode : ∀ id val, db.get kInodeCFIndex (InodeSerde.serKey id) = some val →
    ∃ dir, InodeSerde.deVal fb val = .ok (.inl dir) ∧ dir.id = id ∧
      (dir.parentId = kRootInodeID ∨ dir.parentId ≠ id ∧ db.HasInode dir.parentId) ∧
      ∃ n, (parentOf fb db)^[n] id = kRootInodeID
  /-- An entry shows its own parent and name, and an inode with the same ones. -/
  dent : ∀ parentId name val,
    db.get kDEntCFIndex (DEntSerde.serKey parentId name) = some val →
      ∃ dir, DEntSerde.deVal fb val = .ok (.inl dir) ∧ dir.parentId = parentId ∧
        dir.name = name ∧ ∃ val' dir',
          db.get kInodeCFIndex (InodeSerde.serKey dir.id) = some val' ∧
          InodeSerde.deVal fb val' = .ok (.inl dir') ∧ dir'.parentId = parentId ∧
          dir'.name = name
  /-- Times are stored for exactly the inodes. -/
  mtime : ∀ key, (db.get kMTimeCFIndex key).isSome ↔ (db.get kInodeCFIndex key).isSome
  atime : ∀ key, (db.get kATimeCFIndex key).isSome ↔ (db.get kInodeCFIndex key).isSome

section DbOf

variable {fb : FlatBuffers} {rows : List Dir} {dir : Dir}

theorem get_inode_of_mem (h : Created rows) (hdir : dir ∈ rows) :
    (dbOf fb rows).get kInodeCFIndex (InodeSerde.serKey dir.id) =
      some (InodeSerde.serValDir fb dir) := by
  rw [get_inode_dbOf, rowOfKey_serKey h hdir, Option.map_some]

theorem parentOf_dbOf (h : Created rows) (hnames : ∀ dir ∈ rows, dir.name ≠ [])
    (hdir : dir ∈ rows) : parentOf fb (dbOf fb rows) dir.id = dir.parentId := by
  rw [parentOf, get_inode_of_mem h hdir, Option.map_some,
    InodeSerde.deVal_serValDir fb dir (hnames dir hdir)]

/-- The database of a list of rows in creation order is a well-formed tree. -/
theorem wellFormedTree_dbOf (h : Created rows) (hnames : ∀ dir ∈ rows, dir.name ≠ []) :
    WellFormedTree fb (dbOf fb rows) where
  inode id val hval := by
    rw [get_inode_dbOf] at hval
    obtain ⟨dir, hrow, rfl⟩ := Option.map_eq_some_iff.mp hval
    obtain ⟨hdir, hkey⟩ := rowOfKey_mem hrow
    obtain rfl := InodeSerde.serKey_inj.mp hkey
    refine ⟨_, InodeSerde.deVal_serValDir fb dir (hnames dir hdir), rfl, ?_, ?_⟩
    · refine (h.parent_cases hdir).imp_right ?_
      rintro ⟨e, he, hid, hne⟩
      exact ⟨hid ▸ hne, hasInode_dbOf.mpr ⟨e, he, hid⟩⟩
    · exact h.exists_iterate_eq_root (fun r hr => parentOf_dbOf h hnames hr) hdir
  dent parentId name val hval := by
    rw [get_dent_dbOf] at hval
    obtain ⟨dir, hrow, rfl⟩ := Option.map_eq_some_iff.mp hval
    obtain ⟨hdir, hkey⟩ := rowOfEntry_mem hrow
    obtain ⟨rfl, rfl⟩ := DEntSerde.serKey_inj.mp hkey
    have hinode := @get_inode_of_mem fb rows dir h hdir
    exact ⟨_, DEntSerde.deVal_serValDir fb dir (hnames dir hdir), rfl, rfl, _, _,
      hinode, InodeSerde.deVal_serValDir fb dir (hnames dir hdir), rfl, rfl⟩
  mtime key := by rw [get_mtime_dbOf, get_inode_dbOf, Option.isSome_map, Option.isSome_map]
  atime key := by rw [get_atime_dbOf, get_inode_dbOf, Option.isSome_map, Option.isSome_map]

end DbOf

/-- In every run of interleaved requests from the empty database in which the ids
handed out are fresh and the names are not empty, the directory tree is well
formed. -/
theorem wellFormedTree_of_fresh {fb : FlatBuffers} {trace : ServiceTrace} {s : ServiceState}
    (h : Run (serviceStep fb) (ServiceState.init .empty) trace s) (hfresh : FreshIds trace)
    (hnames : NonemptyNames trace) : WellFormedTree fb s.kv.store.db := by
  obtain ⟨creations, hinv⟩ := creationsInv_run h
  rw [hinv.db_eq]
  exact wellFormedTree_dbOf (hinv.created hfresh) (hinv.name_ne_nil h hnames)

/-- Two directories under the root and one inside the first of them; the two
overlap. -/
def threeDirectories : List ServiceCall :=
  let mkdirs (parentId : UInt64) (name : Bytes) : Event :=
    .accept (.mkdirs ⟨parentId, name, 0x1ED, 0, 0⟩)
  let create (t : TxnId) (id : UInt64) (now : Int64) : List ServiceCall :=
    [⟨t, .next (.ok ⟨id⟩)⟩, ⟨t, .nowNs now⟩, ⟨t, .call none⟩, ⟨t, .call none⟩, ⟨t, .call none⟩,
     ⟨t, .call none⟩, ⟨t, .drawCommit⟩, ⟨t, .isConflictFree⟩, ⟨t, .writeBatch true⟩]
  [⟨0, mkdirs 1 (ascii "a")⟩, ⟨1, mkdirs 1 (ascii "b")⟩, ⟨0, .takeSnapshot⟩, ⟨1, .takeSnapshot⟩,
   ⟨1, .call none⟩, ⟨0, .call none⟩] ++ create 0 2 70 ++ create 1 3 71 ++
  [⟨2, mkdirs 2 (ascii "c")⟩, ⟨2, .takeSnapshot⟩, ⟨2, .call none⟩, ⟨2, .call none⟩,
   ⟨2, .call none⟩] ++ create 2 4 72

/-- Its trace from the empty database. -/
def threeDirectoriesTrace : ServiceTrace :=
  ((replay (serviceStep .sample) (ServiceState.init .empty) threeDirectories).map Prod.fst).getD []

theorem threeDirectoriesTrace_run :
    ∃ s, Run (serviceStep .sample) (ServiceState.init .empty) threeDirectoriesTrace s :=
  exists_run_of_replay threeDirectories rfl

theorem threeDirectoriesTrace_fresh : FreshIds threeDirectoriesTrace := by decide

theorem threeDirectoriesTrace_names :
    ∀ e ∈ threeDirectoriesTrace, e.1.event.Names fun name => name ≠ [] ∧ validUtf8 name := by
  decide

theorem threeDirectoriesTrace_nonempty : NonemptyNames threeDirectoriesTrace := by decide

theorem wellFormedTree_threeDirectories :
    handedOut threeDirectoriesTrace = [⟨2⟩, ⟨3⟩, ⟨4⟩] ∧
      ∃ s, Run (serviceStep .sample) (ServiceState.init .empty) threeDirectoriesTrace s ∧
        WellFormedTree .sample s.kv.store.db := by
  obtain ⟨s, hrun⟩ := threeDirectoriesTrace_run
  exact ⟨rfl, s, hrun, wellFormedTree_of_fresh hrun threeDirectoriesTrace_fresh
    threeDirectoriesTrace_nonempty⟩

end RocketFS
