import RocketFS.Service.Durability
import RocketFS.Service.Listing

/-!
# Reads of what `Mkdirs` wrote complete

`GetInode`, `Lookup` and `ListDir` decode records that `Mkdirs` has written, and the
decoders dereference what they find. The four records of a directory are written
together, so the only thing that can be missing is the name: `Pack` leaves out an empty
string, and `DeVal` reads it through a null pointer. So all reads complete, on the
database and on every snapshot, exactly when every committed `Mkdirs` named its
directory.

## Main definitions

* `ReadsComplete` — every read request handled on a database returns a response

## Main results

* `readsComplete_dbOf` — rows with names can be read
* `reads_complete_iff` — when reads complete in a run
-/

namespace RocketFS

/-- The requests that only read. -/
def Request.reads : Request → Bool
  | .mkdirs _ => false
  | _ => true

/-- Whatever read request is handled in a transaction whose snapshot is the database, a
response is returned when RocksDB reports no error. -/
def ReadsComplete (fb : FlatBuffers) (db : Database) : Prop :=
  ∀ req : Request, req.reads → ∀ (env : Env) (s : HandlerState), (∀ op, env.fault op = none) →
    s.txn.snapshot = db → ∃ resp, ((req.run fb).exec (handle env) s).1 = .ok resp

section Exec

variable {α : Type} {env : Env} {s : HandlerState}

/-- What a handler returns that only wraps a reading one. -/
theorem exec_wrap (henv : ∀ op, env.fault op = none) (p : ReadM α) (f : α → Response) :
    (((do return f (← p.lift)) : HandlerM Response).exec (handle env) s).1 =
      (ask s.txn.snapshot p).map f := by
  obtain ⟨readSet, hexec⟩ := exec_lift henv p s
  rw [Program.exec_bind, hexec]
  cases ask s.txn.snapshot p <;> rfl

theorem exists_exec_wrap (henv : ∀ op, env.fault op = none) {p : ReadM α} {f : α → Response}
    {resp : α} (h : ask s.txn.snapshot p = .ok resp) :
    ∃ resp, (((do return f (← p.lift)) : HandlerM Response).exec (handle env) s).1 =
      .ok resp := by
  refine ⟨f resp, ?_⟩
  rw [exec_wrap henv, h]
  rfl

end Exec

/-- Reads complete when the three handlers return on the database. -/
theorem readsComplete_of_ask {fb : FlatBuffers} {db : Database}
    (hget : ∀ req, ∃ resp, ask db (GetInodeOp.run fb req) = .ok resp)
    (hlookup : ∀ req, ∃ resp, ask db (LookupOp.run fb req) = .ok resp)
    (hlist : ∀ req, ∃ resp, ask db (ListDirOp.run fb req) = .ok resp) : ReadsComplete fb db := by
  rintro req hreads env s henv rfl
  cases req with
  | getInode req =>
    obtain ⟨resp, hask⟩ := hget req
    exact exists_exec_wrap henv hask
  | lookup req =>
    obtain ⟨resp, hask⟩ := hlookup req
    exact exists_exec_wrap henv hask
  | listDir req =>
    obtain ⟨resp, hask⟩ := hlist req
    exact exists_exec_wrap henv hask
  | mkdirs req => cases hreads

/-! ### Rows with names -/

section DbOf

variable {fb : FlatBuffers} {db : Database} {rows : List Dir}

/-- A reading handler returns where its parts do. -/
theorem exists_ask_bind {α β : Type} {p : ReadM α} {f : α → ReadM β} {a : α}
    (hp : ask db p = .ok a) (hf : ∃ b, ask db (f a) = .ok b) : ∃ b, ask db (p >>= f) = .ok b := by
  rw [ask_bind, hp, ok_bind]
  exact hf

/-- A message that ends in a full stop can be sent. -/
theorem exists_ask_status {β : Type} {code : StatusCode} {msg : Bytes} {internal : Option Status}
    {location : SourceLocation} {f : Status → β} (hback : msg.getLast? = some fullStop) :
    ∃ b, ask db (do return f (← Status.make code msg internal location)) = .ok b := by
  obtain ⟨status, hmake, _⟩ := Status.make_of_getLast? code hback internal location
  exact exists_ask_bind hmake ⟨f status, rfl⟩

theorem GetInodeOp.exists_ask_run (req : GetInodeRequest) {dir : Option Dir}
    (hread : ask db (KVDirTable.read fb ⟨req.id.getD 0⟩) = .ok (.ok dir)) :
    ∃ resp, ask db (GetInodeOp.run fb req) = .ok resp := by
  refine exists_ask_bind hread ?_
  cases dir with
  | some dir => exact ⟨_, rfl⟩
  | none =>
    dsimp only [Status.notFoundError]
    -- the message must not be computed to find the lemma's arguments
    with_reducible refine exists_ask_status ?_
    exact getLast?_append_of_eq _ (by decide)

theorem LookupOp.exists_ask_run (hnames : ∀ dir ∈ rows, dir.name ≠ []) (req : LookupRequest) :
    ∃ resp, ask (dbOf fb rows) (LookupOp.run fb req) = .ok resp := by
  cases hrow : rowOfEntry rows (DEntSerde.serKey ⟨req.parentId⟩ req.name) with
  | some dir => exact ⟨_, LookupOp.ask_run_dbOf hrow (hnames dir (rowOfEntry_mem hrow).1)⟩
  | none =>
    have hnone : (dbOf fb rows).get kDEntCFIndex (DEntSerde.serKey ⟨req.parentId⟩ req.name) =
        none := by
      rw [get_dent_dbOf, hrow, Option.map_none]
    obtain ⟨msg, hask⟩ : ∃ msg, ask (dbOf fb rows) (LookupOp.run fb req) =
        .ok { errorCode := StatusCode.notFoundError.toInt32, errorMsg := msg } :=
      LookupOp.ask_run_none hnone
    exact ⟨_, hask⟩

/-- Every entry a range read returns can be decoded. -/
theorem exists_ask_list (hnames : ∀ dir ∈ rows, dir.name ≠ []) (parentId : InodeID)
    (startAfter : Bytes) (limit : ℕ) :
    ∃ ents, ask (dbOf fb rows) (KVDEntView.list fb parentId startAfter limit) =
      .ok (.ok ents) := by
  have hdecodes : ∀ val ∈ (dbOf fb rows).range kDEntCFIndex
      (DEntSerde.serKey parentId startAfter) (KVDEntView.endKey parentId) limit,
      ∃ ent, DEntSerde.deVal fb val = .ok ent := by
    intro val hval
    obtain ⟨⟨key, _⟩, hmem, rfl⟩ := List.mem_map.mp (List.mem_of_mem_take hval)
    have hget : (dbOf fb rows).get kDEntCFIndex key = some _ := (SortedMap.mem_slice.mp hmem).1
    rw [get_dent_dbOf] at hget
    obtain ⟨dir, hrow, hdir⟩ := Option.map_eq_some_iff.mp hget
    rw [← hdir]
    exact ⟨_, DEntSerde.deVal_serValDir fb dir (hnames dir (rowOfEntry_mem hrow).1)⟩
  obtain ⟨ents, hents⟩ := exists_mapM_ok hdecodes
  exact ⟨ents, KVDEntView.ask_list startAfter limit hents⟩

/-- A listing completes where the rows of the directory and of its parent can be read and
the entries can be decoded, whether or not the directory is found and permission is
given. -/
theorem ListDirOp.exists_ask_run (req : ListDirRequest)
    (hread : ∀ id, ∃ dir, ask db (KVDirTable.read fb id) = .ok (.ok dir))
    (hlist : ∃ ents, ask db (KVDEntView.list fb ⟨req.id⟩ req.startAfter (effectiveLimit req)) =
      .ok (.ok ents)) :
    ∃ resp, ask db (ListDirOp.run fb req) = .ok resp := by
  obtain ⟨dir, hdir⟩ := hread ⟨req.id⟩
  refine exists_ask_bind hdir ?_
  cases dir with
  | none =>
    dsimp only [Status.parentNotFoundError]
    with_reducible refine exists_ask_status ?_
    exact getLast?_append_of_eq _ (by decide)
  | some dir =>
    by_cases hpermission : HasPermission dir.acl ⟨req.uid, req.gid⟩ S_IRUSR
    · obtain ⟨parentDir, hparentDir⟩ := hread dir.parentId
      obtain ⟨self, parent, hdots⟩ : ∃ self parent,
          ask db (dots (KVDirTable.table fb) req ⟨req.id⟩ dir) = .ok (.ok (self, parent)) :=
        ask_dots hdir (.inr ⟨dir, parentDir, hdir, hparentDir⟩)
      obtain ⟨ents, hents⟩ := hlist
      -- the check, the two dot entries, the page
      refine exists_ask_bind (checkPermission_of_has hpermission) ?_
      refine exists_ask_bind hdots ?_
      exact exists_ask_bind hents ⟨_, rfl⟩
    · obtain ⟨error, hcheck, _⟩ := checkPermission_of_not hpermission
      refine exists_ask_bind hcheck ?_
      dsimp only [Status.permissionError]
      with_reducible refine exists_ask_status ?_
      exact getLast?_append_of_eq _ (by decide)

/-- Rows that have names can be read. -/
theorem readsComplete_dbOf (hnames : ∀ dir ∈ rows, dir.name ≠ []) :
    ReadsComplete fb (dbOf fb rows) := by
  refine readsComplete_of_ask ?_ (LookupOp.exists_ask_run hnames) ?_
  · intro req
    obtain ⟨dir, hread⟩ : ∃ dir, ask (dbOf fb rows) (KVDirTable.read fb ⟨req.id.getD 0⟩) =
        .ok (.ok dir) := exists_ask_read hnames _
    exact GetInodeOp.exists_ask_run req hread
  · intro req
    exact ListDirOp.exists_ask_run req (exists_ask_read hnames) (exists_ask_list hnames _ _ _)

/-! ### A row without a name -/

theorem InodeSerde.deVal_serValDir_unnamed {dir : Dir} (h : dir.name = []) :
    InodeSerde.deVal fb (InodeSerde.serValDir fb dir) = .error (.nullDeref "dir->name()") := by
  simp only [InodeSerde.deVal, InodeSerde.serValDir, fb.getInode_finish, Fb.DirT.pack, h]
  rfl

/-- `GetInode` of a directory without a name dereferences a null pointer. -/
theorem GetInodeOp.ask_run_unnamed {dir : Dir} (hrows : Created rows) (hdir : dir ∈ rows)
    (hname : dir.name = []) :
    ask (dbOf fb rows) (GetInodeOp.run fb ⟨some dir.id.val⟩) =
      .error (.nullDeref "dir->name()") := by
  have hinode : (dbOf fb rows).get kInodeCFIndex (InodeSerde.serKey dir.id) =
      some (InodeSerde.serValDir fb dir) := get_inode_of_mem hrows hdir
  have hread : ask (dbOf fb rows) (KVDirTable.read fb dir.id) =
      .error (.nullDeref "dir->name()") := by
    rw [KVDirTable.read, ask_bind, ask_get (by decide), hinode]
    change ask _ (Program.done (InodeSerde.deVal fb (InodeSerde.serValDir fb dir)) >>= _) = _
    rw [InodeSerde.deVal_serValDir_unnamed hname]
    rfl
  rw [GetInodeOp.run, ask_bind]
  change (ask (dbOf fb rows) (KVDirTable.read fb dir.id) >>= _) = _
  rw [hread]
  rfl

theorem name_ne_nil_of_readsComplete (hrows : Created rows)
    (h : ReadsComplete fb (dbOf fb rows)) : ∀ dir ∈ rows, dir.name ≠ [] := by
  intro dir hdir hname
  obtain ⟨resp, hexec⟩ := h (.getInode ⟨some dir.id.val⟩) rfl ⟨.ok dir.id, 0, fun _ => none⟩
    ⟨KVStore.openDb .empty, Txn.new (dbOf fb rows) 1⟩ (fun _ => rfl) rfl
  have hcrash : ask (dbOf fb rows) (GetInodeOp.run fb ⟨some dir.id.val⟩) =
      .error (.nullDeref "dir->name()") := GetInodeOp.ask_run_unnamed hrows hdir hname
  rw [Request.run, exec_wrap fun _ => rfl] at hexec
  change (ask (dbOf fb rows) (GetInodeOp.run fb ⟨some dir.id.val⟩)).map _ = _ at hexec
  rw [hcrash] at hexec
  cases hexec

end DbOf

/-! ### Runs -/

/-- In every run with fresh ids: read requests complete on the database and on every
snapshot exactly when no committed `Mkdirs` left its name empty. -/
theorem reads_complete_iff {fb : FlatBuffers} {trace : ServiceTrace} {s : ServiceState}
    (h : Run (serviceStep fb) (ServiceState.init .empty) trace s) (hfresh : FreshIds trace) :
    (ReadsComplete fb s.kv.store.db ∧
        ∀ t session txn, s.kv.session t = some session → session.txn? = some txn →
          ReadsComplete fb txn.snapshot) ↔
      ∀ t req id now, CommittedMkdirs trace t req id now → req.name ≠ [] := by
  obtain ⟨creations, hinv⟩ := creationsInv_run h
  constructor
  · rintro ⟨hreads, _⟩ t req id now hcommitted
    rw [hinv.db_eq] at hreads
    obtain ⟨parentDir, hmem⟩ := hcommitted.row h hinv
    exact name_ne_nil_of_readsComplete (hinv.created hfresh) hreads _
      (List.mem_map_of_mem (f := Prod.snd) hmem)
  · intro hnamed
    have hnames : ∀ dir ∈ rowsOf creations, dir.name ≠ [] := by
      intro dir hdir
      obtain ⟨t, req, parentDir, now, hcommitted, hrow⟩ := hinv.committedMkdirs h hdir
      rw [hrow]
      exact hnamed t req dir.id now hcommitted
    refine ⟨?_, fun t session txn hsession htxn => ?_⟩
    · rw [hinv.db_eq]
      exact readsComplete_dbOf hnames
    · -- a snapshot shows the rows of an earlier moment
      obtain ⟨n, hsnapshot⟩ := hinv.snapshot t session txn hsession htxn
      rw [hsnapshot]
      exact readsComplete_dbOf fun dir hdir => hnames dir (List.mem_of_mem_take hdir)

theorem reads_complete_threeDirectories :
    ∃ s, Run (serviceStep .sample) (ServiceState.init .empty) threeDirectoriesTrace s ∧
      ReadsComplete .sample s.kv.store.db := by
  obtain ⟨s, hrun⟩ := threeDirectoriesTrace_run
  refine ⟨s, hrun, ((reads_complete_iff hrun threeDirectoriesTrace_fresh).mpr ?_).1⟩
  rintro t req id now ⟨⟨reply, haccept⟩, _, _, _⟩
  exact threeDirectoriesTrace_nonempty _ haccept

/-- A `Mkdirs` without a name under the root. -/
def unnamedDirectory : List ServiceCall :=
  [⟨0, .accept (.mkdirs ⟨1, [], 0x1ED, 0, 0⟩)⟩, ⟨0, .takeSnapshot⟩, ⟨0, .call none⟩,
   ⟨0, .next (.ok ⟨2⟩)⟩, ⟨0, .nowNs 70⟩, ⟨0, .call none⟩, ⟨0, .call none⟩, ⟨0, .call none⟩,
   ⟨0, .call none⟩, ⟨0, .drawCommit⟩, ⟨0, .isConflictFree⟩, ⟨0, .writeBatch true⟩]

def unnamedDirectoryTrace : ServiceTrace :=
  ((replay (serviceStep .sample) (ServiceState.init .empty) unnamedDirectory).map Prod.fst).getD []

/-- After it, `GetInode` of the directory and `ListDir` of the root dereference a null
pointer. -/
theorem reads_crash_unnamedDirectory :
    FreshIds unnamedDirectoryTrace ∧
      ∃ s, Run (serviceStep .sample) (ServiceState.init .empty) unnamedDirectoryTrace s ∧
        (ask s.kv.store.db (GetInodeOp.run .sample ⟨some 2⟩),
          ask s.kv.store.db (ListDirOp.run .sample ⟨1, [], 10, 0, 0⟩)) =
          (.error (.nullDeref "dir->name()"), .error (.nullDeref "dir->name()")) :=
  ⟨by decide, exists_run_of_replay_eq unnamedDirectory _ rfl⟩

end RocketFS
