import RocketFS.Service.Operations

/-!
# What the handlers do to their transactions

The handlers as programs with pre- and postconditions, whatever the answers to
their calls: what they have written when they commit, and what they return. Only
`MkdirsOp` commits. It then holds exactly the four records of one new row, whose
parent exists in its snapshot, and after the commit it calls nothing any more.
-/

namespace RocketFS

/-- There is an inode record with this id. -/
def Database.HasInode (db : Database) (id : InodeID) : Prop :=
  (db.get kInodeCFIndex (InodeSerde.serKey id)).isSome

instance (db : Database) (id : InodeID) : Decidable (db.HasInode id) :=
  inferInstanceAs (Decidable (_ = true))

/-- The records of a row: what `KVDirTable::Write` buffers for a new one. -/
def dirWrites (fb : FlatBuffers) (dir : Dir) : WriteSet :=
  (((SortedMap.empty.insert (cfKey kInodeCFIndex (InodeSerde.serKey dir.id))
      (some (InodeSerde.serValDir fb dir))).insert
    (cfKey kMTimeCFIndex (InodeSerde.serKey dir.id))
      (some (TimeSerde.serVal dir.mtimeInNs))).insert
    (cfKey kATimeCFIndex (InodeSerde.serKey dir.id))
      (some (TimeSerde.serVal dir.atimeInNs))).insert
    (cfKey kDEntCFIndex (DEntSerde.serKey dir.parentId dir.name))
      (some (DEntSerde.serValDir fb dir))

/-- What is remembered of the calls of a handler: the snapshot and the write set of
its transaction, the ids and clock readings it drew, and whether its commit has
returned. -/
structure Progress where
  snapshot : Database
  writeSet : WriteSet
  ids : List InodeID
  times : List Int64
  committed : Bool

/-- A handler that has not called anything. -/
def Progress.start (snapshot : Database) : Progress := ⟨snapshot, .empty, [], [], false⟩

/-- The answers a call can get: a read that does not fail is answered by the
snapshot, everything else is up to the environment. -/
def Answers (l : Progress) : (op : Operation) → op.Answer → Progress → Prop
  | .read (.get cf key), x, l' => l' = l ∧ ∀ value, x = .ok value → value = l.snapshot.get cf key
  | .read (.getRange cf startKey endKey limit), x, l' =>
    l' = l ∧ ∀ values, x = .ok values → values = l.snapshot.range cf startKey endKey limit
  | .put cf key value, _, l' =>
    l' = { l with writeSet := l.writeSet.insert (cfKey cf key) (some value) }
  | .del cf key, _, l' => l' = { l with writeSet := l.writeSet.insert (cfKey cf key) none }
  | .next, id, l' => l' = { l with ids := l.ids ++ [id] }
  | .nowNs, now, l' => l' = { l with times := l.times ++ [now] }
  | .commitTxn, _, l' => l' = { l with committed := true }

/-- What a request has done when it commits. -/
def Request.Commits (fb : FlatBuffers) : Request → Progress → Prop
  | .mkdirs req, l => ∃ parentDir id now, l.ids = [id] ∧ l.times = [now] ∧
      l.writeSet = dirWrites fb (MkdirsOp.newDir req parentDir id now) ∧
      ((⟨req.parentId⟩ : InodeID) = kRootInodeID ∨ l.snapshot.HasInode ⟨req.parentId⟩)
  | _, _ => False

/-- What holds when a request returns: a `Mkdirs` that answers success has
committed, and answers with the id it drew. -/
def Request.Returns : Request → Except Crash Response → Progress → Prop
  | .mkdirs _, .ok (.mkdirs resp), l => resp.errorCode = 0 →
      l.committed = true ∧ ∃ id : InodeID, l.ids = [id] ∧ resp.id = id.val
  | _, _, _ => True

/-- A call is made before the commit has returned, and the commit with the writes of
the request. -/
def Request.Guard (fb : FlatBuffers) (req : Request) (l : Progress) (op : Operation) : Prop :=
  l.committed = false ∧ (op = .commitTxn → req.Commits fb l)

/-- The handler keeps to the guard and returns what it should. -/
abbrev Request.Wp {α : Type} (fb : FlatBuffers) (req : Request) (p : HandlerM α)
    (Q : Except Crash α → Progress → Prop) (l : Progress) : Prop :=
  Program.Wp Answers (req.Guard fb) p Q l

/-! ### Reading handlers -/

section Reading

variable {fb : FlatBuffers} {req : Request} {l : Progress} {α : Type}
  {Q : Except Crash α → Progress → Prop}

/-- Reads change nothing that is remembered. -/
theorem Answers.read_eq {op : ReadOp} {x : op.Answer} {l' : Progress}
    (h : Answers l (.read op) x l') : l' = l := by
  cases op <;> exact h.1

/-- A reading handler changes nothing, whatever it returns. -/
theorem wp_lift (hl : l.committed = false) (p : ReadM α) (hQ : ∀ r, Q r l) :
    req.Wp fb p.lift Q l := by
  induction p with
  | done result => exact hQ result
  | call op next ih =>
    refine ⟨⟨hl, fun h => nomatch h⟩, fun x l' hx => ?_⟩
    rw [hx.read_eq]
    exact ih x

/-- A point read is answered by the snapshot or fails. -/
theorem wp_get_bind (hl : l.committed = false) {cf : CFIndex} {key : Bytes}
    {f : Except Status (Option Bytes) → ReadM α}
    (hQ : ∀ x, (∀ value, x = .ok value → value = l.snapshot.get cf key) →
      req.Wp fb (f x).lift Q l) :
    req.Wp fb (ReadM.lift (ReadM.get cf key >>= f)) Q l := by
  refine ⟨⟨hl, fun h => nomatch h⟩, fun x l' hx => ?_⟩
  obtain ⟨rfl, hvalue⟩ := hx
  exact hQ x hvalue

/-- A reported error is the result, unless building it failed. -/
theorem wp_unexpected {β : Type} {Q : Except Crash (Except Status β) → Progress → Prop}
    {msg : Bytes} {error : Status} {location : SourceLocation}
    (hcrash : ∀ crash, Q (.error crash) l) (hstatus : ∀ status, Q (.ok (.error status)) l) :
    req.Wp fb (unexpected msg error location).lift Q l := by
  rw [unexpected]
  cases Status.systemError msg (some error) location with
  | error crash => exact hcrash crash
  | ok status => exact hstatus status

/-- A row that is found is the root or has a record in the snapshot. -/
theorem wp_read (hl : l.committed = false) (id : InodeID)
    {Q : Except Crash (Except Status (Option Dir)) → Progress → Prop}
    (hQ : ∀ r, (∀ dir, r = .ok (.ok (some dir)) → id = kRootInodeID ∨ l.snapshot.HasInode id) →
      Q r l) :
    req.Wp fb (KVDirTable.read fb id).lift Q l := by
  rw [KVDirTable.read]
  refine wp_get_bind hl fun x hvalue => ?_
  rcases x with error | value
  · -- the message of the error must not be computed to find the lemma's arguments
    with_reducible refine wp_unexpected ?_ ?_
    · intro crash
      refine hQ _ ?_
      intro dir h
      cases h
    · intro status
      refine hQ _ ?_
      intro dir h
      cases h
  · cases value with
    | none =>
      refine hQ _ fun dir h => ?_
      by_cases hroot : id = kRootInodeID
      · exact .inl hroot
      · rw [if_neg hroot] at h
        cases h
    | some inodeStr =>
      have hinode : l.snapshot.HasInode id := by
        rw [Database.HasInode, ← hvalue _ rfl]
        rfl
      exact wp_lift hl _ fun r => hQ r fun _ _ => .inr hinode

end Reading

/-! ### The requests -/

section Requests

variable {fb : FlatBuffers} {l : Progress}

/-- The commit of a new row. -/
theorem wp_create (req : MkdirsRequest) (parentDir : Dir) {l : Progress}
    (hstart : l = Progress.start l.snapshot)
    (hparent : (⟨req.parentId⟩ : InodeID) = kRootInodeID ∨ l.snapshot.HasInode ⟨req.parentId⟩) :
    (Request.mkdirs req).Wp fb (MkdirsOp.create (KVDirTable.table fb) req parentDir)
      (fun r l => (Request.mkdirs req).Returns (r.map .mkdirs) l) l := by
  rw [hstart]
  have hguard : ∀ {l' : Progress} {op : Operation}, l'.committed = false → op ≠ .commitTxn →
      (Request.mkdirs req).Guard fb l' op := fun hc hop => ⟨hc, fun h => absurd h hop⟩
  -- the id, the clock, and the four records
  refine ⟨hguard rfl nofun, fun id l₁ h₁ => ?_⟩
  subst h₁
  refine ⟨hguard rfl nofun, fun now l₂ h₂ => ?_⟩
  subst h₂
  refine ⟨hguard rfl nofun, fun _ l₃ h₃ => ?_⟩
  subst h₃
  refine ⟨hguard rfl nofun, fun _ l₄ h₄ => ?_⟩
  subst h₄
  refine ⟨hguard rfl nofun, fun _ l₅ h₅ => ?_⟩
  subst h₅
  refine ⟨hguard rfl nofun, fun _ l₆ h₆ => ?_⟩
  subst h₆
  refine ⟨⟨rfl, fun _ => ⟨parentDir, id, now, rfl, rfl, rfl, hparent⟩⟩, fun _ l₇ h₇ => ?_⟩
  subst h₇
  exact fun _ => ⟨rfl, id, rfl, rfl⟩

theorem wp_mkdirs (req : MkdirsRequest) (snapshot : Database) :
    (Request.mkdirs req).Wp fb (MkdirsOp.run fb req)
      (fun r l => (Request.mkdirs req).Returns (r.map .mkdirs) l) (Progress.start snapshot) := by
  rw [MkdirsOp.run]
  refine Program.wp_bind.mpr (wp_read rfl _ fun r hr => ?_)
  match r, hr with
  | .error crash, _ => trivial
  | .ok (.error status), _ => exact fun h => nomatch h
  | .ok (.ok none), _ => exact fun h => nomatch h
  | .ok (.ok (some parentDir)), hr =>
    change (Request.mkdirs req).Wp fb
      (Program.done (checkPermission parentDir.acl ⟨req.uid, req.gid⟩ S_IWOTH) >>= _) _ _
    match checkPermission parentDir.acl ⟨req.uid, req.gid⟩ S_IWOTH with
    | .error crash => trivial
    | .ok (.error status) => exact fun h => nomatch h
    | .ok (.ok ()) => exact wp_create req parentDir rfl (hr parentDir rfl)

/-- Every request keeps to its guard from the start to the end. -/
theorem Request.wp_run (req : Request) (snapshot : Database) :
    req.Wp fb (req.run fb) req.Returns (Progress.start snapshot) := by
  cases req with
  | getInode req => exact Program.wp_bind.mpr (wp_lift rfl _ fun r => by cases r <;> trivial)
  | lookup req => exact Program.wp_bind.mpr (wp_lift rfl _ fun r => by cases r <;> trivial)
  | listDir req => exact Program.wp_bind.mpr (wp_lift rfl _ fun r => by cases r <;> trivial)
  | mkdirs req =>
    refine Program.wp_bind.mpr ((wp_mkdirs req snapshot).mono fun r l hr => ?_)
    cases r with
    | error crash => trivial
    | ok resp => exact hr

end Requests

end RocketFS
