import RocketFS.Lib.Paths
import RocketFS.Service.Restarts
import RocketFS.Service.Agreement

/-!
# Paths

No request of the namenode takes a path: the kernel walks it with one `Lookup` for each name,
and directories are created in between. Since the parent and the name of a directory never
change, a walk ends at a directory whose own records spell the path, whatever has happened
meanwhile (`walk_spells`), and no directory is reached on two paths.

A directory need not be reached at all. `Mkdirs` replaces the entry of a directory that has
the same parent and name, and from then on no path leads to the old directory or to anything
below it, although all of it is still stored (`unreachable_of_created_again`). Where no batch
is written over an existing entry, every directory has exactly one path and keeps it
(`paths_of_nameFree`).

## Main definitions

* `lookupId`, `resolve` — a name and a path, looked up in one database
* `placeOf` — the parent and the name in the record of an inode
* `Walk` — a path looked up name by name in the course of a history
-/

namespace RocketFS

/-- The id that a lookup answers. -/
def lookupId (fb : FlatBuffers) (db : Database) (parentId : InodeID) (name : Bytes) :
    Option InodeID :=
  match ask db (LookupOp.run fb ⟨parentId.val, name⟩) with
  | .ok resp => if resp.errorCode = 0 then some ⟨resp.id.toUInt64⟩ else none
  | .error _ => none

/-- The directory a path leads to. -/
def resolve (fb : FlatBuffers) (db : Database) (path : List Bytes) : Option InodeID :=
  follow (lookupId fb db) kRootInodeID path

/-- The parent and the name stored in the inode record of an id. -/
def placeOf (fb : FlatBuffers) (db : Database) (id : InodeID) : Option (InodeID × Bytes) :=
  match (db.get kInodeCFIndex (InodeSerde.serKey id)).map (InodeSerde.deVal fb) with
  | some (.ok (.inl dir)) => some dir.place
  | _ => none

/-! ### Rows -/

section Rows

variable {fb : FlatBuffers} {rows rows' : List Dir} {dir : Dir} {id : InodeID}
  {place : InodeID × Bytes}

theorem placeOf_of_mem (h : Created rows) (hnames : ∀ dir ∈ rows, dir.name ≠ [])
    (hdir : dir ∈ rows) : placeOf fb (dbOf fb rows) dir.id = some dir.place := by
  rw [placeOf, get_inode_of_mem h hdir, Option.map_some,
    InodeSerde.deVal_serValDir fb dir (hnames dir hdir)]
  rfl

theorem exists_of_placeOf (h : placeOf fb (dbOf fb rows) id = some place) :
    ∃ dir ∈ rows, dir.id = id ∧ dir.place = place := by
  unfold placeOf at h
  split at h
  · rename_i dir heq
    obtain rfl := Option.some.inj h
    obtain ⟨val, hval, hdir⟩ := Option.map_eq_some_iff.mp heq
    obtain ⟨row, hrow, hid, hplace, _⟩ := row_of_record hval hdir
    exact ⟨row, hrow, hid, hplace⟩
  · cases h

theorem placeOf_root (h : Created rows) : placeOf fb (dbOf fb rows) kRootInodeID = none := by
  refine Option.eq_none_iff_forall_ne_some.mpr fun place hplace => ?_
  obtain ⟨dir, hdir, hid, _⟩ := exists_of_placeOf hplace
  exact h.root_not_mem (hid ▸ List.mem_map_of_mem hdir)

/-- The parent is that of the place. -/
theorem parentOf_of_placeOf {db : Database} {parentId : InodeID} {name : Bytes}
    (h : placeOf fb db id = some (parentId, name)) : parentOf fb db id = parentId := by
  unfold placeOf at h
  split at h
  · rename_i dir heq
    rw [parentOf, heq]
    exact (Prod.mk.inj (Option.some.inj h)).1
  · cases h

theorem parentOf_root (h : Created rows) :
    parentOf fb (dbOf fb rows) kRootInodeID = kRootInodeID := by
  have hnone : (dbOf fb rows).get kInodeCFIndex (InodeSerde.serKey kRootInodeID) = none := by
    refine Option.not_isSome_iff_eq_none.mp fun hsome => ?_
    obtain ⟨dir, hdir, hid⟩ := hasInode_dbOf.mp hsome
    exact h.root_not_mem (hid ▸ List.mem_map_of_mem hdir)
  rw [parentOf, hnone]
  rfl

/-- A lookup answers the id of the row created last under the name. -/
theorem lookupId_dbOf (hnames : ∀ dir ∈ rows, dir.name ≠ []) (parentId : InodeID) (name : Bytes) :
    lookupId fb (dbOf fb rows) parentId name =
      (rowOfEntry rows (DEntSerde.serKey parentId name)).map Dir.id := by
  cases hrow : rowOfEntry rows (DEntSerde.serKey parentId name) with
  | some dir =>
    have hask := @LookupOp.ask_run_dbOf fb parentId.val name rows dir hrow
      (hnames dir (rowOfEntry_mem hrow).1)
    rw [lookupId, hask]
    rfl
  | none =>
    have hnone : (dbOf fb rows).get kDEntCFIndex (DEntSerde.serKey parentId name) = none := by
      rw [get_dent_dbOf, hrow, Option.map_none]
    obtain ⟨msg, hask⟩ := @LookupOp.ask_run_none fb _ parentId.val name hnone
    rw [lookupId, hask]
    rfl

/-- What a lookup finds stands at the place that was looked up. -/
theorem placeOf_of_lookupId (h : Created rows) (hnames : ∀ dir ∈ rows, dir.name ≠ [])
    (parentId : InodeID) (name : Bytes) (id : InodeID)
    (hlookup : lookupId fb (dbOf fb rows) parentId name = some id) :
    placeOf fb (dbOf fb rows) id = some (parentId, name) := by
  rw [lookupId_dbOf hnames] at hlookup
  obtain ⟨dir, hrow, rfl⟩ := Option.map_eq_some_iff.mp hlookup
  obtain ⟨hdir, hkey⟩ := rowOfEntry_mem hrow
  obtain ⟨rfl, rfl⟩ := DEntSerde.serKey_inj.mp hkey
  exact placeOf_of_mem h hnames hdir

end Rows

/-! ### Walks -/

/-- A path walked from the root: each name is looked up below the directory that was found
last. Other requests may be served between any two lookups, and by other processes. -/
inductive Walk {τ : Type} (history : List (Visible τ Request Response)) :
    List Bytes → UInt64 → Prop
  | root : Walk history [] kRootInodeID.val
  | step {path : List Bytes} {parentId : UInt64} {op : τ} {name : Bytes} {resp : LookupResponse} :
      Walk history path parentId → .invoke op (.lookup ⟨parentId, name⟩) ∈ history →
      .respond op (.lookup resp) ∈ history → resp.errorCode = 0 →
      Walk history (path ++ [name]) resp.id.toUInt64

/-- A name of a request stands for one request. -/
def InvokedOnce {τ : Type} (history : List (Visible τ Request Response)) : Prop :=
  ∀ op req req', .invoke op req ∈ history → .invoke op req' ∈ history → req = req'

section Walks

variable {fb : FlatBuffers}

theorem invokedOnce_of_run {db : Database} {trace : ObservedTrace} {s : ServiceState}
    (h : Run (observedStep fb) (ServiceState.init db) trace s) :
    InvokedOnce (requestHistory trace) := by
  intro t req req' hreq hreq'
  obtain ⟨thread, hthread, rfl⟩ := (invoked_iff h).mp hreq
  obtain ⟨thread', hthread', rfl⟩ := (invoked_iff h).mp hreq'
  obtain rfl := Option.some.inj (hthread.symm.trans hthread')
  rfl

theorem invokedOnce_life {trace : LifeTrace} {s : LifeState}
    (h : Run (guarded (observedLifeStep fb) caughtUp) LifeState.init trace s) :
    InvokedOnce (lifeHistory trace) := by
  have hall : ∀ e ∈ trace, e.1.Calls fun _ => True := by
    rintro ⟨event, answer⟩ _
    cases event <;> trivial
  suffices hprocess : ∀ earlier base process s n, Served fb (fun _ => True) base process s →
      (∀ e ∈ earlier, e.op.1 < n) → InvokedOnce earlier → ∃ rows, RowsInv fb s rows ∧
        InvokedOnce (earlier ++ (requestHistory process).map (.rename (n, ·))) by
    obtain ⟨_, _, honce⟩ := life_induction (P := fun history _ => InvokedOnce history)
      (fun _ _ _ hreq => absurd hreq List.not_mem_nil) hprocess h hall
    exact honce
  intro earlier base process s n hserved holder honce
  obtain ⟨rows, hinv⟩ := storedInv_run (run_of_observed hserved.run) hserved.created hserved.fresh
  refine ⟨rows, hinv.standsFor, fun op req req' hreq hreq' => ?_⟩
  -- the requests of this process have its number, those before have smaller ones
  have hnow : ∀ req, .invoke op req ∈ (requestHistory process).map (Visible.rename (n, ·)) →
      op.1 = n ∧ .invoke op.2 req ∈ requestHistory process := by
    intro req hmem
    obtain ⟨t, rfl, hinvoke⟩ := mem_map_rename_invoke.mp hmem
    exact ⟨rfl, hinvoke⟩
  rcases List.mem_append.mp hreq with hold | hnew <;>
    rcases List.mem_append.mp hreq' with hold' | hnew'
  · exact honce op req req' hold hold'
  · exact absurd (hnow req' hnew').1 (holder _ hold).ne
  · exact absurd (hnow req hnew).1 (holder _ hold').ne
  · exact invokedOnce_of_run hserved.run op.2 req req' (hnow req hnew).2 (hnow req' hnew').2

/-- A walk ends at a directory whose records spell the path. -/
theorem Linearizes.spells_of_walk {τ : Type} {history : List (Visible τ Request Response)}
    {order : List (Effect τ Request Response)} {rows : List Dir} {path : List Bytes} {id : UInt64}
    (h : Linearizes (NamespaceStep fb) [] history order rows) (honce : InvokedOnce history)
    (hcreated : Created rows) (hnames : ∀ dir ∈ rows, dir.name ≠ [])
    (hwalk : Walk history path id) :
    Spells (placeOf fb (dbOf fb rows)) kRootInodeID path ⟨id⟩ := by
  induction hwalk with
  | root => exact .root
  | @step path parentId op name resp _ hinvoke hrespond hok ih =>
    refine .snoc ih ?_
    -- the lookup has found the directory among those created before it took effect
    obtain ⟨before, after, e, rows₁, rows₂, rfl, rfl, houtput, _, hstep, hafter⟩ :=
      h.exists_step hrespond
    have hinput : e.input = .lookup ⟨parentId, name⟩ :=
      honce e.op _ _ (h.invoked e (by simp)) hinvoke
    rw [hinput, houtput] at hstep
    have hearlier : rows₁ <+: rows := hstep.isPrefix.trans hafter.rows_isPrefix
    have hnames₁ : ∀ dir ∈ rows₁, dir.name ≠ [] := fun dir hdir =>
      hnames dir (hearlier.subset hdir)
    cases hstep with
    | settled hsettled =>
      obtain ⟨resp', hask, heq⟩ := map_ok (Option.some.inj hsettled)
      obtain rfl := Response.lookup.inj heq
      obtain ⟨dir, hrow⟩ := LookupOp.row_of_success hask hok
      obtain ⟨hdir, hkey⟩ := rowOfEntry_mem hrow
      obtain rfl := Except.ok.inj
        ((LookupOp.ask_run_dbOf hrow (hnames₁ dir hdir)).symm.trans hask)
      obtain ⟨hparent, hname⟩ := DEntSerde.serKey_inj.mp hkey
      rw [hparent, hname]
      exact placeOf_of_mem hcreated hnames (hearlier.subset hdir)

/-- The directories created over a life, and the names they have. -/
theorem life_names {trace : LifeTrace} {s : LifeState}
    (h : Run (guarded (observedLifeStep fb) caughtUp) LifeState.init trace s)
    {P : Bytes → Prop} (hnames : ∀ e ∈ trace, e.1.Calls (·.Names P))
    (hfault : ∀ e ∈ trace, e.1.Calls fun event => event.faultFree) :
    ∃ rows order, s.db = dbOf fb rows ∧ Created rows ∧ (∀ dir ∈ rows, P dir.name) ∧
      Linearizes (NamespaceStep fb) [] (lifeHistory trace) order rows := by
  obtain ⟨rows, hrows, order, horder⟩ := life_namespace h hfault
  refine ⟨rows, order, hrows.db_eq, hrows.created, ?_, horder⟩
  refine horder.names fun op req hinvoke => ?_
  obtain ⟨answer, hmem⟩ := accept_of_invoke hinvoke
  exact hnames _ hmem

/-- Whatever is created while a path is walked, and however often the namenode is restarted
meanwhile: the walk ends at a directory whose records, from its parent up to the root, spell
the path, and no other path is ever walked to the same directory. -/
theorem walk_spells {trace : LifeTrace} {s : LifeState}
    (h : Run (guarded (observedLifeStep fb) caughtUp) LifeState.init trace s)
    (hnames : ∀ e ∈ trace, e.1.Calls (·.Names (· ≠ [])))
    (hfault : ∀ e ∈ trace, e.1.Calls fun event => event.faultFree) {path : List Bytes}
    {id : UInt64} (hwalk : Walk (lifeHistory trace) path id) :
    Spells (placeOf fb s.db) kRootInodeID path ⟨id⟩ ∧
      ∀ path', Walk (lifeHistory trace) path' id → path' = path := by
  obtain ⟨rows, order, hdb, hcreated, hnamed, hlin⟩ := life_names h hnames hfault
  have honce := invokedOnce_life h
  have hspells : ∀ {path}, Walk (lifeHistory trace) path id →
      Spells (placeOf fb (dbOf fb rows)) kRootInodeID path ⟨id⟩ := fun hwalk =>
    hlin.spells_of_walk honce hcreated hnamed hwalk
  rw [hdb]
  exact ⟨hspells hwalk, fun path' hwalk' =>
    (hspells hwalk').unique (placeOf_root hcreated) (hspells hwalk)⟩

end Walks

/-- The lookup of a name, by thread 1. -/
def lookupCalls (parentId : UInt64) (name : Bytes) : List LifeEvent :=
  [.call ⟨1, .accept (.lookup ⟨parentId, name⟩)⟩, .call ⟨1, .takeSnapshot⟩, .call ⟨1, .call none⟩]

/-- A path is walked over two processes: the first creates `/a` and finds it, the second
creates `/a/c` only then and finds it below. -/
def walkAcross : List LifeEvent :=
  [.start, .sample 1742256005000000, .store] ++ mkdirsUpToNext (ascii "a") 1 ++ mkdirsFromNext 6 ++
    lookupCalls 1 (ascii "a") ++ [.start, .sample 1742256009000000, .store] ++
    [.call ⟨0, .accept (.mkdirs ⟨6, ascii "c", 0x1ED, 0, 0⟩)⟩, .call ⟨0, .takeSnapshot⟩] ++
    List.replicate 3 (.call ⟨0, .call none⟩) ++ mkdirsFromNext 10 ++ lookupCalls 6 (ascii "c")

/-- Its trace. -/
def walkAcrossTrace : LifeTrace :=
  ((replay (guarded (observedLifeStep .sample) caughtUp) LifeState.init walkAcross).map
    Prod.fst).getD []

theorem walk_walkAcross : Walk (lifeHistory walkAcrossTrace) [ascii "a", ascii "c"] 10 := by
  let found (id : Int64) : LookupResponse :=
    { id := id, stat := some { id := id.toUInt64, mode := S_IFDIR, nlink := 1 } }
  have hinvoke : .invoke (1, 1) (.lookup ⟨1, ascii "a"⟩) ∈ lifeHistory walkAcrossTrace := by decide
  have hrespond : .respond (1, 1) (.lookup (found 6)) ∈ lifeHistory walkAcrossTrace := by decide
  have hinvoke' : .invoke (2, 1) (.lookup ⟨6, ascii "c"⟩) ∈ lifeHistory walkAcrossTrace := by decide
  have hrespond' : .respond (2, 1) (.lookup (found 10)) ∈ lifeHistory walkAcrossTrace := by decide
  have hfirst : Walk (lifeHistory walkAcrossTrace) [ascii "a"] 6 :=
    .step .root hinvoke hrespond rfl
  exact .step hfirst hinvoke' hrespond' rfl

theorem walk_spells_walkAcross :
    ∃ s, Run (guarded (observedLifeStep .sample) caughtUp) LifeState.init walkAcrossTrace s ∧
      Spells (placeOf .sample s.db) kRootInodeID [ascii "a", ascii "c"] ⟨10⟩ := by
  obtain ⟨s, hrun⟩ : ∃ s, Run (guarded (observedLifeStep .sample) caughtUp) LifeState.init
      walkAcrossTrace s := exists_run_of_replay walkAcross rfl
  exact ⟨s, hrun, (walk_spells hrun (by decide) (by decide) walk_walkAcross).1⟩

/-! ### Directories that are created again -/

section Again

variable {fb : FlatBuffers} {before after trace : ServiceTrace} {s s₁ : ServiceState}

/-- Later states have the creations of earlier ones, in the same order. -/
theorem CreationsInv.extend {creations : List (TxnId × Dir)}
    (hbefore : Run (serviceStep fb) (ServiceState.init .empty) before s₁)
    (h : CreationsInv fb before s₁ creations) (hafter : Run (serviceStep fb) s₁ after s) :
    ∃ more, CreationsInv fb (before ++ after) s (creations ++ more) := by
  induction hafter with
  | nil =>
    refine ⟨[], ?_⟩
    rw [List.append_nil, List.append_nil]
    exact h
  | @snoc after s s' c reply hrun hs ih =>
    obtain ⟨more, hinv⟩ := ih
    rw [← List.append_assoc]
    rcases hinv.step (threadsInv_run (hbefore.append hrun)) hs with
      ⟨_, hnext⟩ | ⟨_, dir, hnext⟩
    · exact ⟨more, hnext⟩
    · rw [List.append_assoc creations] at hnext
      exact ⟨_, hnext⟩

/-- A row is not found at its place once another row has been created there. -/
theorem lookupId_ne_of_later {rows later : List Dir} {dir dir' : Dir}
    (h : Created (rows ++ later)) (hnames : ∀ dir ∈ rows ++ later, dir.name ≠ [])
    (hdir : dir ∈ rows) (hdir' : dir' ∈ later) (hplace : dir'.place = dir.place) :
    lookupId fb (dbOf fb (rows ++ later)) dir.parentId dir.name ≠ some dir.id := by
  rw [lookupId_dbOf hnames, rowOfEntry, lastRow_append]
  obtain ⟨hparent, hname⟩ := Prod.mk.inj hplace
  obtain ⟨found, hfound⟩ : ∃ found, lastRow (fun d => decide
      (DEntSerde.serKey dir.parentId dir.name = DEntSerde.serKey d.parentId d.name)) later =
        some found := by
    refine Option.ne_none_iff_exists'.mp fun hnone => ?_
    exact absurd (lastRow_eq_none.mp hnone dir' hdir') (by simp [hparent, hname])
  rw [hfound, Option.some_or, Option.map_some]
  intro heq
  have hmem := (lastRow_mem hfound).1
  -- the row found is one of the later ones, which have other ids
  have hnodup := h.nodup
  rw [List.map_append, List.nodup_append] at hnodup
  exact hnodup.2.2 _ (List.mem_map_of_mem hdir) _ (List.mem_map_of_mem hmem)
    (Option.some.inj heq).symm

/-- The row that a thread has written stands at the place its request names. -/
theorem CreationsInv.place_of_accept {creations : List (TxnId × Dir)} {t : TxnId} {dir : Dir}
    {req : MkdirsRequest} (h : CreationsInv fb trace s (creations ++ [(t, dir)]))
    (hrun : Run (serviceStep fb) (ServiceState.init .empty) trace s)
    (haccept : ∃ reply, (⟨t, .accept (.mkdirs req)⟩, reply) ∈ trace) :
    dir.place = (⟨req.parentId⟩, req.name) := by
  obtain ⟨req', _, _, _, _, hthread, _, _, _, hdir⟩ := h.wrote t dir (by simp)
  obtain ⟨thread, hsome, hrequest⟩ := (accepted_run hrun _ _).mpr haccept
  obtain rfl := Option.some.inj (hthread.symm.trans hsome)
  obtain rfl := Request.mkdirs.inj hrequest
  rw [hdir]
  rfl

/-- A directory is created, and later another one under the same parent and name. From then
on no path leads to the first one, or to anything that has been or is going to be created
below it, but `GetInode` still finds it. -/
theorem unreachable_of_created_again {t t' : TxnId} {reply : Reply} {req req' : MkdirsRequest}
    {id : InodeID} {now : Int64}
    (h : Run (serviceStep fb) (ServiceState.init .empty)
      (before ++ (⟨t', .writeBatch true⟩, reply) :: after) s)
    (hfresh : FreshIds (before ++ (⟨t', .writeBatch true⟩, reply) :: after))
    (hnames : NonemptyNames (before ++ (⟨t', .writeBatch true⟩, reply) :: after))
    (hfirst : CommittedMkdirs before t req id now)
    (hagain : ∃ reply, (⟨t', .accept (.mkdirs req')⟩, reply) ∈ before)
    (hparent : req'.parentId = req.parentId) (hname : req'.name = req.name) :
    (∀ below n path, (parentOf fb s.kv.store.db)^[n] below = id →
        resolve fb s.kv.store.db path ≠ some below) ∧
      ∃ resp, ask s.kv.store.db (GetInodeOp.run fb ⟨some id.val⟩) = .ok resp ∧
        resp.errorCode = 0 := by
  obtain ⟨s₁, s₂, hbefore, hs, hafter⟩ := h.step_at
  obtain ⟨creations, hinv⟩ := creationsInv_run hbefore
  obtain ⟨dir, hrow, rfl, hdirPlace⟩ : ∃ dir, (t, dir) ∈ creations ∧ dir.id = id ∧
      dir.place = (⟨req.parentId⟩, req.name) := by
    obtain ⟨parentDir, hrow⟩ := hfirst.row hbefore hinv
    exact ⟨_, hrow, rfl, rfl⟩
  -- the second batch adds a row at the place of the first
  rcases hinv.step (threadsInv_run hbefore) hs with ⟨hnot, _⟩ | ⟨_, dir', hnext⟩
  · exact absurd rfl hnot
  have hplace : dir'.place = dir.place := by
    obtain ⟨reply, hmem⟩ := hagain
    rw [hnext.place_of_accept (hbefore.snoc hs) ⟨reply, List.mem_append_left _ hmem⟩, hparent,
      hname, hdirPlace]
  obtain ⟨more, hfinal⟩ := hnext.extend (hbefore.snoc hs) hafter
  rw [List.append_assoc, List.append_assoc] at hfinal
  have hcreated := hfinal.created hfresh
  have hnamed := hfinal.name_ne_nil h hnames
  rw [hfinal.db_eq]
  rw [rowsOf, List.map_append] at hcreated hnamed ⊢
  have hdir : dir ∈ creations.map Prod.snd := List.mem_map_of_mem hrow
  have hlater : dir' ∈ ([(t', dir')] ++ more).map Prod.snd := by simp
  have hat : placeOf fb (dbOf fb _) dir.id = _ :=
    placeOf_of_mem hcreated hnamed (List.mem_append_left _ hdir)
  have hhidden : lookupId fb (dbOf fb _) _ _ ≠ _ :=
    lookupId_ne_of_later hcreated hnamed hdir hlater hplace
  refine ⟨fun below n path hbelow => ?_, ?_⟩
  · exact follow_ne_of_hidden (placeOf_of_lookupId hcreated hnamed)
      (fun _ _ _ => parentOf_of_placeOf) (parentOf_root hcreated) (placeOf_root hcreated) hat
      hhidden hbelow
  · have hmem := List.mem_append_left (([(t', dir')] ++ more).map Prod.snd) hdir
    exact ⟨_, GetInodeOp.ask_run_dbOf hcreated hmem (hnamed _ hmem), rfl⟩

/-- The name `a` is created twice under the root. -/
theorem unreachable_sameNameTwice :
    ∃ s, Run (serviceStep .sample) (ServiceState.init .empty) sameNameTwiceTrace s ∧
      ∀ path, resolve .sample s.kv.store.db path ≠ some ⟨2⟩ := by
  obtain ⟨s, hrun⟩ : ∃ s, Run (serviceStep .sample) (ServiceState.init .empty)
      sameNameTwiceTrace s := exists_run_of_replay sameNameTwice rfl
  let req : MkdirsRequest := ⟨1, ascii "a", 0x1ED, 0, 0⟩
  have hfirst : CommittedMkdirs (sameNameTwiceTrace.take 23) 0 req ⟨2⟩ 70 :=
    ⟨⟨_, .head _⟩, ⟨.done, by decide⟩, ⟨.done, by decide⟩, ⟨.done, by decide⟩⟩
  have hagain : ∃ reply, (⟨1, .accept (.mkdirs req)⟩, reply) ∈ sameNameTwiceTrace.take 23 :=
    ⟨.version 3, by decide⟩
  refine ⟨s, hrun, fun path => ?_⟩
  exact (unreachable_of_created_again hrun (by decide) (by decide) hfirst hagain rfl rfl).1 _ 0 path
    rfl

end Again

/-! ### Runs that write no existing name -/

section NameFree

variable {fb : FlatBuffers} {before after : ServiceTrace} {s s₁ : ServiceState}

/-- Where no two rows have one place, every row is found at its place. -/
theorem lookupId_of_placeOf {rows : List Dir} (hnames : ∀ dir ∈ rows, dir.name ≠ [])
    (hplaces : (rows.map Dir.place).Nodup) (id parentId : InodeID) (name : Bytes)
    (hplace : placeOf fb (dbOf fb rows) id = some (parentId, name)) :
    lookupId fb (dbOf fb rows) parentId name = some id := by
  obtain ⟨dir, hdir, rfl, hat⟩ := exists_of_placeOf hplace
  have hrow : rowOfEntry rows (DEntSerde.serKey parentId name) = some dir := by
    obtain ⟨rfl, rfl⟩ := Prod.mk.inj hat
    refine lastRow_of_unique hdir (by simp) fun r hr heq => ?_
    obtain ⟨hp, hn⟩ := DEntSerde.serKey_inj.mp (by simpa using heq)
    exact List.inj_on_of_nodup_map hplaces hr hdir (Prod.ext hp.symm hn.symm)
  rw [lookupId_dbOf hnames, hrow, Option.map_some]

/-- Where batches are written only for entries that do not exist yet, every directory has
exactly one path, and this path leads to it in all later states too. -/
theorem paths_of_nameFree
    (hbefore : Run (guarded (serviceStep fb) nameFree) (ServiceState.init .empty) before s₁)
    (hafter : Run (guarded (serviceStep fb) nameFree) s₁ after s)
    (hfresh : FreshIds (before ++ after)) (hnames : NonemptyNames (before ++ after)) {id : InodeID}
    (hid : s₁.kv.store.db.HasInode id) :
    ∃ path, resolve fb s₁.kv.store.db path = some id ∧ resolve fb s.kv.store.db path = some id ∧
      ∀ path', resolve fb s₁.kv.store.db path' = some id ∨
        resolve fb s.kv.store.db path' = some id → path' = path := by
  have hrun := hbefore.append hafter
  obtain ⟨creations₁, hinv₁, hplaces₁⟩ := places_run hbefore
  obtain ⟨creations, hinv, hplaces⟩ := places_run hrun
  have hcreated₁ := hinv₁.created hfresh.of_append
  have hcreated := hinv.created hfresh
  have hnamed₁ := hinv₁.name_ne_nil hbefore.of_guarded hnames.of_append
  have hnamed := hinv.name_ne_nil hrun.of_guarded hnames
  -- what is stored is not changed afterwards
  have hkept : ∀ id place, placeOf fb s₁.kv.store.db id = some place →
      placeOf fb s.kv.store.db id = some place := by
    obtain ⟨more, hmore⟩ := hinv₁.extend hbefore.of_guarded hafter.of_guarded
    have hcreated' := hmore.created hfresh
    have hnamed' := hmore.name_ne_nil hrun.of_guarded hnames
    rw [hinv₁.db_eq, hmore.db_eq]
    intro id place hplace
    obtain ⟨dir, hdir, rfl, rfl⟩ := exists_of_placeOf hplace
    refine placeOf_of_mem hcreated' hnamed' ?_
    rw [rowsOf, List.map_append]
    exact List.mem_append_left _ hdir
  rw [hinv₁.db_eq] at hid hkept ⊢
  rw [hinv.db_eq] at hkept ⊢
  obtain ⟨dir, hdir, rfl⟩ := hasInode_dbOf.mp hid
  obtain ⟨path, hpath₁⟩ := hcreated₁.exists_spells
    (fun r hr => placeOf_of_mem hcreated₁ hnamed₁ hr) hdir
  have hpath := hpath₁.mono hkept
  refine ⟨path, hpath₁.follow_eq (lookupId_of_placeOf hnamed₁ hplaces₁),
    hpath.follow_eq (lookupId_of_placeOf hnamed hplaces), ?_⟩
  rintro path' (hother | hother)
  · exact (Spells.of_follow (placeOf_of_lookupId hcreated₁ hnamed₁) hother).unique
      (placeOf_root hcreated₁) hpath₁
  · exact (Spells.of_follow (placeOf_of_lookupId hcreated hnamed) hother).unique
      (placeOf_root hcreated) hpath

theorem paths_threeDirectories :
    ∃ s, Run (guarded (serviceStep .sample) nameFree) (ServiceState.init .empty)
        threeDirectoriesTrace s ∧
      ∀ path, resolve .sample s.kv.store.db path = some ⟨4⟩ → path = [ascii "a", ascii "c"] := by
  obtain ⟨s, hrun, hstate⟩ : ∃ s, Run (guarded (serviceStep .sample) nameFree)
      (ServiceState.init .empty) threeDirectoriesTrace s ∧
        (decide (s.kv.store.db.HasInode ⟨4⟩),
          resolve .sample s.kv.store.db [ascii "a", ascii "c"]) = (true, some ⟨4⟩) :=
    exists_run_of_replay_eq threeDirectories _ rfl
  obtain ⟨hinode, hresolve⟩ := Prod.mk.inj hstate
  have hfresh : FreshIds (threeDirectoriesTrace ++ []) := by decide
  have hnames : NonemptyNames (threeDirectoriesTrace ++ []) := by decide
  obtain ⟨path, _, _, hunique⟩ :=
    paths_of_nameFree hrun .nil hfresh hnames (of_decide_eq_true hinode)
  refine ⟨s, hrun, fun path' hpath' => ?_⟩
  rw [hunique path' (.inl hpath'), hunique _ (.inl hresolve)]

end NameFree

end RocketFS
