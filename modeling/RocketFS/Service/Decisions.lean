import RocketFS.Service.Alone
import RocketFS.Service.Namespace

/-!
# What a request decides on its snapshot

While RocksDB reports no errors, the reads of a handler are answered by its snapshot, and
the handler decides what it would decide if it ran alone on the snapshot: it answers what
the snapshot settles, or goes on to create a directory. The row of the parent that a
`Mkdirs` has read is the same on every later database, because a row never changes once
it is there.

## Main definitions

* `ExactAnswers` — the answers to the calls of a handler without faults
* `Request.Decides` — what holds when a handler returns

## Main results

* `ask_read_take` — the row of a directory is the same from its creation on
* `Request.exactWp_run` — every handler decides as it should
-/

namespace RocketFS

/-! ### Rows do not change -/

section Rows

variable {fb : FlatBuffers} {db db' : Database} {id : InodeID} {dir : Dir}

theorem KVDirTable.ask_readTime_congr {cf : CFIndex} (hcf : cf.Opened)
    (h : db.get cf (InodeSerde.serKey id) = db'.get cf (InodeSerde.serKey id))
    (time condition : String) (line : ℕ) :
    ask db (readTime cf id time condition line) =
      ask db' (readTime cf id time condition line) := by
  rw [readTime, ask_bind, ask_bind, ask_get hcf, ask_get hcf, h, ok_bind, ok_bind]
  cases db'.get cf (InodeSerde.serKey id) with
  | none => rfl
  | some str =>
    dsimp only
    rw [ask_bind, ask_bind]
    rfl

/-- A row is read from three records. -/
theorem KVDirTable.ask_read_congr
    (hinode : db.get kInodeCFIndex (InodeSerde.serKey id) =
      db'.get kInodeCFIndex (InodeSerde.serKey id))
    (hmtime : db.get kMTimeCFIndex (InodeSerde.serKey id) =
      db'.get kMTimeCFIndex (InodeSerde.serKey id))
    (hatime : db.get kATimeCFIndex (InodeSerde.serKey id) =
      db'.get kATimeCFIndex (InodeSerde.serKey id)) :
    ask db (read fb id) = ask db' (read fb id) := by
  rw [read, ask_bind, ask_bind, ask_get (by decide), ask_get (by decide), hinode, ok_bind, ok_bind]
  cases db'.get kInodeCFIndex (InodeSerde.serKey id) with
  | none => rfl
  | some inodeStr =>
    dsimp only
    rw [ask_bind, ask_bind, ask_liftM, ask_liftM]
    congr 1
    funext inode
    cases inode with
    | inr hardLink => rfl
    | inl dir =>
      dsimp only
      rw [ask_bind, ask_bind, ask_readTime_congr (by decide) hmtime]
      congr 1
      funext mtime
      cases mtime with
      | error status => rfl
      | ok mtimeInNs =>
        dsimp only
        rw [ask_bind, ask_bind, ask_readTime_congr (by decide) hatime]
        congr 1
        funext atime
        cases atime <;> rfl

/-- A row that is found is the root's or has a record. -/
theorem KVDirTable.hasInode_of_ask_read
    (h : ask db (read fb id) = .ok (.ok (some dir))) : id = kRootInodeID ∨ db.HasInode id := by
  by_contra hnot
  obtain ⟨hroot, hinode⟩ := not_or.mp hnot
  have hnone : db.get kInodeCFIndex (InodeSerde.serKey id) = none := by
    rwa [Database.HasInode, Bool.not_eq_true, Option.isSome_eq_false_iff,
      Option.isNone_iff_eq_none] at hinode
  rw [ask_read_none hnone, if_neg hroot] at h
  cases h

variable {rows : List Dir} {n : ℕ}

/-- The row of an id does not change as rows are added. -/
theorem rowOfKey_take (h : Created rows)
    (hid : id = kRootInodeID ∨ (dbOf fb (rows.take n)).HasInode id) :
    rowOfKey (rows.take n) (InodeSerde.serKey id) = rowOfKey rows (InodeSerde.serKey id) := by
  cases htake : rowOfKey (rows.take n) (InodeSerde.serKey id) with
  | some dir =>
    obtain ⟨hmem, hkey⟩ := rowOfKey_mem htake
    rw [hkey, rowOfKey_serKey h (List.mem_of_mem_take hmem)]
  | none =>
    symm
    refine lastRow_eq_none.mpr fun dir hdir => ?_
    simp only [decide_eq_false_iff_not]
    intro hkey
    have hdirId : id = dir.id := InodeSerde.serKey_inj.mp hkey
    rcases hid with rfl | hinode
    · exact h.root_not_mem (hdirId ▸ List.mem_map_of_mem hdir)
    · obtain ⟨dir', hmem, rfl⟩ := hasInode_dbOf.mp hinode
      exact absurd (lastRow_eq_none.mp htake dir' hmem) (by simp)

/-- What is read of a directory stays the same while other directories are created. -/
theorem ask_read_take (h : Created rows)
    (hread : ask (dbOf fb (rows.take n)) (KVDirTable.read fb id) = .ok (.ok (some dir))) :
    ask (dbOf fb rows) (KVDirTable.read fb id) = .ok (.ok (some dir)) := by
  have hrow : rowOfKey (rows.take n) (InodeSerde.serKey id) =
      rowOfKey rows (InodeSerde.serKey id) :=
    rowOfKey_take h (KVDirTable.hasInode_of_ask_read hread)
  rw [← hread]
  refine KVDirTable.ask_read_congr ?_ ?_ ?_
  · rw [get_inode_dbOf, get_inode_dbOf, hrow]
  · rw [get_mtime_dbOf, get_mtime_dbOf, hrow]
  · rw [get_atime_dbOf, get_atime_dbOf, hrow]

end Rows

/-! ### What a handler decides -/

/-- The answers a call can get while RocksDB reports no errors. -/
def ExactAnswers (l : Progress) : (op : Operation) → op.Answer → Progress → Prop
  | .read op, x, l' => l' = l ∧ answerOn l.snapshot op = .ok x
  | op, x, l' => Answers l op x l'

/-- The request is a `Mkdirs` that has created its directory: it has written the row its
response shows, below the parent it read. -/
def Request.Made (fb : FlatBuffers) (l : Progress) : Request → Response → Prop
  | .mkdirs req, resp => ∃ parentDir id now,
      (Request.mkdirs req).Creates fb l.snapshot parentDir ∧
      l.writeSet = dirWrites fb (MkdirsOp.newDir req parentDir id now) ∧
      resp = .mkdirs (MkdirsOp.success (MkdirsOp.newDir req parentDir id now))
  | _, _ => False

/-- What holds when a handler returns: without a commit an answer is the one its snapshot
settles, and after a commit the request has created its directory and says so. -/
def Request.Decides (fb : FlatBuffers) (req : Request) (result : Except Crash Response)
    (l : Progress) : Prop :=
  if l.committed then ∃ resp, result = .ok resp ∧ req.Made fb l resp
  else ∀ resp, result = .ok resp → req.settled fb l.snapshot = some (.ok resp)

/-- The handler decides as it should when its reads are answered by the snapshot. -/
abbrev ExactWp {α : Type} (p : HandlerM α) (Q : Except Crash α → Progress → Prop)
    (l : Progress) : Prop :=
  Program.Wp ExactAnswers (fun l _ => l.committed = false) p Q l

section Decides

variable {fb : FlatBuffers} {l : Progress} {α : Type} {Q : Except Crash α → Progress → Prop}

/-- A reading handler returns what it returns on the snapshot. -/
theorem exactWp_lift (hl : l.committed = false) (p : ReadM α) (hQ : Q (ask l.snapshot p) l) :
    ExactWp p.lift Q l := by
  induction p with
  | done result => exact hQ
  | call op next ih =>
    refine ⟨hl, fun x l' hx => ?_⟩
    obtain ⟨rfl, hanswer⟩ := hx
    refine ih x ?_
    rwa [ask, Program.eval_call_ok hanswer] at hQ

theorem exactWp_create {req : MkdirsRequest} {parentDir : Dir} {snapshot : Database}
    (h : (Request.mkdirs req).Creates fb snapshot parentDir) :
    ExactWp (MkdirsOp.create (KVDirTable.table fb) req parentDir)
      (fun r l => (Request.mkdirs req).Decides fb (r.map .mkdirs) l) (Progress.start snapshot) := by
  -- the id, the clock, the four records and the commit
  refine ⟨rfl, fun id l₁ h₁ => ?_⟩
  subst h₁
  refine ⟨rfl, fun now l₂ h₂ => ?_⟩
  subst h₂
  refine ⟨rfl, fun _ l₃ h₃ => ?_⟩
  subst h₃
  refine ⟨rfl, fun _ l₄ h₄ => ?_⟩
  subst h₄
  refine ⟨rfl, fun _ l₅ h₅ => ?_⟩
  subst h₅
  refine ⟨rfl, fun _ l₆ h₆ => ?_⟩
  subst h₆
  refine ⟨rfl, fun _ l₇ h₇ => ?_⟩
  subst h₇
  exact ⟨_, rfl, parentDir, id, now, h, rfl, rfl⟩

/-- Every handler decides as it should. -/
theorem Request.exactWp_run (req : Request) (snapshot : Database) :
    ExactWp (req.run fb) (req.Decides fb) (Progress.start snapshot) := by
  have hwrap : ∀ {β : Type} (p : ReadM β) (f : β → Response),
      req.settled fb snapshot = some ((ask snapshot p).map f) →
        ExactWp (do return f (← p.lift)) (req.Decides fb) (Progress.start snapshot) := by
    intro β p f hsettled
    refine Program.wp_bind.mpr (exactWp_lift rfl p ?_)
    cases hask : ask (Progress.start snapshot).snapshot p with
    | error crash => exact fun resp hresp => nomatch hresp
    | ok b =>
      intro resp hresp
      obtain rfl := Except.ok.inj hresp
      change req.settled fb snapshot = _
      rw [hsettled, show ask snapshot p = .ok b from hask]
      rfl
  cases req with
  | getInode req => exact hwrap _ _ rfl
  | lookup req => exact hwrap _ _ rfl
  | listDir req => exact hwrap _ _ rfl
  | mkdirs req =>
    refine Program.wp_bind.mpr (Program.Wp.mono ?_ fun r l (hr :
      (Request.mkdirs req).Decides fb (r.map .mkdirs) l) => ?_)
    · rw [MkdirsOp.run_eq]
      refine Program.wp_bind.mpr (exactWp_lift rfl _ ?_)
      cases hread : ask (Progress.start snapshot).snapshot (KVDirTable.read fb ⟨req.parentId⟩) with
      | error crash => exact fun resp hresp => nomatch hresp
      | ok read =>
        dsimp only
        cases hverdict : MkdirsOp.verdict req read with
        | error refusal =>
          intro resp hresp
          obtain rfl := Except.ok.inj hresp
          change (Request.mkdirs req).settled fb snapshot = _
          rw [settled, show ask snapshot (KVDirTable.read fb ⟨req.parentId⟩) = .ok read from hread]
          dsimp only
          rw [hverdict]
        | ok parentDir =>
          obtain ⟨rfl, hperm⟩ := MkdirsOp.verdict_eq_ok.mp hverdict
          exact exactWp_create ⟨hread, hperm⟩
    · cases r <;> exact hr

end Decides

end RocketFS
