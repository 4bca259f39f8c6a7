import RocketFS.Service.Uniqueness

/-!
# `Lookup` against `GetInode`

A directory is stored twice: its entry is meant to carry the complete fields, so
that a lookup need not read the inode. The value of an entry has no times, and
`DEntSerde::DeVal` sets them to zero, so the two operations agree on a directory
exactly when the clock read zero at its creation.
-/

namespace RocketFS

section Operations

variable {fb : FlatBuffers} {db : Database} {rows : List Dir} {dir : Dir}

theorem GetInodeOp.ask_run_dir {id : UInt64}
    (h : ask db (KVDirTable.read fb ⟨id⟩) = .ok (.ok (some dir))) :
    ask db (GetInodeOp.run fb ⟨some id⟩) =
      .ok { id := dir.id.val.toInt64, stat := some dir.stat } := by
  rw [GetInodeOp.run, ask_bind]
  change (ask db (KVDirTable.read fb ⟨id⟩) >>= _) = _
  rw [h]
  rfl

/-- `GetInode` of a row that was created. -/
theorem GetInodeOp.ask_run_dbOf (h : Created rows) (hdir : dir ∈ rows) (hname : dir.name ≠ []) :
    ask (dbOf fb rows) (GetInodeOp.run fb ⟨some dir.id.val⟩) =
      .ok { id := dir.id.val.toInt64, stat := some (Dir.stat { dir with acl := Acl.zero }) } :=
  GetInodeOp.ask_run_dir (ask_read_dbOf h hdir hname)

/-- A lookup of an entry that does not exist answers `kNotFoundError`. -/
theorem LookupOp.ask_run_none {parentId : UInt64} {name : Bytes}
    (h : db.get kDEntCFIndex (DEntSerde.serKey ⟨parentId⟩ name) = none) :
    ∃ msg, ask db (LookupOp.run fb ⟨parentId, name⟩) =
      .ok { errorCode := StatusCode.notFoundError.toInt32, errorMsg := msg } := by
  have hback : (ascii "Parent ID " ++ decimal parentId.toNat ++ ascii " and name " ++ name ++
      ascii " not found.").getLast? = some fullStop := getLast?_append_of_eq _ (by decide)
  obtain ⟨status, hmake, hcode⟩ := Status.make_of_getLast? .notFoundError hback none
    ⟨"src/namenode/service/operation/lookup_op.cc", 47⟩
  refine ⟨status.msg, ?_⟩
  rw [LookupOp.run, ask_bind, KVDEntView.ask_read_none h, ok_bind]
  simp only [Status.notFoundError, hmake]
  rw [← hcode]
  rfl

/-- A successful lookup finds a row. -/
theorem LookupOp.row_of_success {parentId : UInt64} {name : Bytes} {resp : LookupResponse}
    (h : ask (dbOf fb rows) (LookupOp.run fb ⟨parentId, name⟩) = .ok resp)
    (hcode : resp.errorCode = 0) :
    ∃ dir, rowOfEntry rows (DEntSerde.serKey ⟨parentId⟩ name) = some dir := by
  cases hrow : rowOfEntry rows (DEntSerde.serKey ⟨parentId⟩ name) with
  | some dir => exact ⟨dir, rfl⟩
  | none =>
    have hnone : (dbOf fb rows).get kDEntCFIndex (DEntSerde.serKey ⟨parentId⟩ name) = none := by
      rw [get_dent_dbOf, hrow, Option.map_none]
    obtain ⟨msg, hask⟩ := LookupOp.ask_run_none hnone
    obtain rfl := Except.ok.inj (hask.symm.trans h)
    cases hcode

end Operations

/-- The two `Stat`s of a row agree exactly when its times are zero. -/
theorem stat_eq_iff (req : MkdirsRequest) (parentDir : Dir) (id : InodeID) (now : Int64) :
    Dir.stat ⟨⟨req.parentId⟩, req.name, id, Acl.zero, 0, 0, 0⟩ =
      Dir.stat { MkdirsOp.newDir req parentDir id now with acl := Acl.zero } ↔ now = 0 := by
  simp [Dir.stat, MkdirsOp.newDir, eq_comm]

/-- On every database reached with fresh ids and non-empty names: a name that a
lookup resolves was created by a `Mkdirs`, `GetInode` finds its id, and the two
`Stat`s are equal if and only if the clock read zero at the creation. -/
theorem lookup_stat_eq_getInode_iff {fb : FlatBuffers} {trace : ServiceTrace} {s : ServiceState}
    (h : Run (serviceStep fb) (ServiceState.init .empty) trace s) (hfresh : FreshIds trace)
    (hnames : NonemptyNames trace) {parentId : UInt64} {name : Bytes} {lookup : LookupResponse}
    (hlookup : ask s.kv.store.db (LookupOp.run fb ⟨parentId, name⟩) = .ok lookup)
    (hsuccess : lookup.errorCode = 0) :
    ∃ t req id now getInode, CommittedMkdirs trace t req id now ∧ req.parentId = parentId ∧
      req.name = name ∧ lookup.id = id.val.toInt64 ∧
      ask s.kv.store.db (GetInodeOp.run fb ⟨some id.val⟩) = .ok getInode ∧
      getInode.errorCode = 0 ∧ (lookup.stat = getInode.stat ↔ now = 0) := by
  obtain ⟨creations, hinv⟩ := creationsInv_run h
  rw [hinv.db_eq] at hlookup ⊢
  obtain ⟨dir, hrow⟩ := LookupOp.row_of_success hlookup hsuccess
  obtain ⟨hdir, hkey⟩ := rowOfEntry_mem hrow
  have hname := hinv.name_ne_nil h hnames dir hdir
  obtain ⟨hparent', hname'⟩ := DEntSerde.serKey_inj.mp hkey
  obtain rfl := Except.ok.inj ((LookupOp.ask_run_dbOf hrow hname).symm.trans hlookup)
  have hget := fun fb => @GetInodeOp.ask_run_dbOf fb _ _ (hinv.created hfresh) hdir hname
  obtain ⟨t, req, parentDir, now, hcommitted, hnew⟩ := hinv.committedMkdirs h hdir
  refine ⟨t, req, dir.id, now, _, hcommitted, ?_, ?_, rfl, hget fb, rfl, ?_⟩
  · rw [hnew] at hparent'
    exact (InodeID.mk.inj hparent').symm
  · rw [hnew] at hname'
    exact hname'.symm
  · rw [Option.some_inj, hnew]
    exact stat_eq_iff req parentDir _ now

/-- What the two operations answer about the first directory of
`threeDirectories`, created when the clock read 70. -/
theorem threeDirectories_stats :
    ∃ s, Run (serviceStep .sample) (ServiceState.init .empty) threeDirectoriesTrace s ∧
      (ask s.kv.store.db (LookupOp.run .sample ⟨1, ascii "a"⟩),
        ask s.kv.store.db (GetInodeOp.run .sample ⟨some 2⟩)) =
      (.ok { id := 2, stat := some { id := 2, mode := S_IFDIR, nlink := 1 } },
        .ok { id := 2, stat := some { id := 2, mode := S_IFDIR, nlink := 1, atimeInNs := 70,
                                      mtimeInNs := 70, ctimeInNs := 70 } }) :=
  exists_run_of_replay_eq threeDirectories _ rfl

theorem lookup_stat_threeDirectories :
    ∃ s, Run (serviceStep .sample) (ServiceState.init .empty) threeDirectoriesTrace s ∧
      ∃ lookup, ask s.kv.store.db (LookupOp.run .sample ⟨1, ascii "a"⟩) = .ok lookup ∧
        ∃ t req id now getInode, CommittedMkdirs threeDirectoriesTrace t req id now ∧
          req.parentId = 1 ∧ req.name = ascii "a" ∧ lookup.id = id.val.toInt64 ∧
          ask s.kv.store.db (GetInodeOp.run .sample ⟨some id.val⟩) = .ok getInode ∧
          getInode.errorCode = 0 ∧ (lookup.stat = getInode.stat ↔ now = 0) := by
  obtain ⟨s, hrun, hanswers⟩ := threeDirectories_stats
  have hlookup := (Prod.mk.inj hanswers).1
  exact ⟨s, hrun, _, hlookup, lookup_stat_eq_getInode_iff hrun threeDirectoriesTrace_fresh
    threeDirectoriesTrace_nonempty hlookup rfl⟩

/-- The directory `/a` of `threeDirectories`: `Lookup` resolves it to inode 2 with
all times zero, and `GetInode` of inode 2 reports 70. -/
theorem lookup_stat_ne_getInode :
    FreshIds threeDirectoriesTrace ∧ NonemptyNames threeDirectoriesTrace ∧
      ∃ s, Run (serviceStep .sample) (ServiceState.init .empty) threeDirectoriesTrace s ∧
        ∃ lookup getInode,
          ask s.kv.store.db (LookupOp.run .sample ⟨1, ascii "a"⟩) = .ok lookup ∧
          ask s.kv.store.db (GetInodeOp.run .sample ⟨some 2⟩) = .ok getInode ∧
          lookup.errorCode = 0 ∧ getInode.errorCode = 0 ∧ lookup.id = 2 ∧
          lookup.stat ≠ getInode.stat := by
  obtain ⟨s, hrun, hanswers⟩ := threeDirectories_stats
  obtain ⟨hlookup, hgetInode⟩ := Prod.mk.inj hanswers
  exact ⟨threeDirectoriesTrace_fresh, threeDirectoriesTrace_nonempty, s, hrun, _, _, hlookup,
    hgetInode, rfl, rfl, rfl, by decide⟩

end RocketFS
