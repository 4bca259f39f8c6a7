import RocketFS.KV.Visibility

/-!
# Serializability in commit-version order

Commit versions are drawn from one counter, so they order the transactions; what
a transaction sees was written by smaller versions. Whether the run is equivalent
to the serial order of the commit versions depends on the reads: a transaction
must not have missed a write of a smaller version to a key it read, and a batch
must not be written after a batch of a larger version that read or wrote one of
its keys. The conflict detector is there to see to the first of these, but no
transaction is ever entered into `committed_txns_`, so it finds no conflict, and
nothing in `CommitTxn` sees to the second. Where both happen to hold, the run is
serializable; an interleaving of two read-modify-write transactions shows that
they need not.

## Main definitions

* `commitVersion`, `writtenKeys` — read off the history of a transaction
* `NoConflict` — the condition on a batch write
* `Serializable` — the run is equivalent to the serial order of commit versions

## Main results

* `versionInv_run` — the commit versions of a run
* `serializable_of_noConflict` — runs in which every batch write meets the condition
* `lostUpdate_not_serializable` — a run of two transactions that is not serializable
-/

namespace RocketFS

/-! ### Commit versions and keys of a history -/

/-- The commit version a transaction drew, `-1` before it does. -/
def commitVersion (history : History) : ℤ :=
  history.foldl (fun v e => match e with
    | (.drawCommit, .version w) => w
    | _ => v) (-1)

@[simp] theorem commitVersion_snoc_drawCommit (history : History) (v : ℤ) :
    commitVersion (history ++ [(.drawCommit, .version v)]) = v := by
  simp [commitVersion]

theorem commitVersion_snoc_of_ne (history : History) {action : Action} (reply : Reply)
    (h : action ≠ .drawCommit) :
    commitVersion (history ++ [(action, reply)]) = commitVersion history := by
  rw [commitVersion, List.foldl_append, List.foldl_cons, List.foldl_nil]
  split
  · rename_i heq
    exact absurd (Prod.mk.inj heq).1 h
  · rfl

theorem commitVersion_idle {history : History} (h : ∀ e ∈ history, e.1 = .drawStart) :
    commitVersion history = -1 := by
  induction history using List.reverseRecOn with
  | nil => rfl
  | append_singleton history e ih =>
    obtain ⟨action, reply⟩ := e
    obtain rfl : action = .drawStart := h (action, reply) (by simp)
    rw [commitVersion_snoc_of_ne _ _ (by simp)]
    exact ih fun e he => h e (List.mem_append_left _ he)

/-- The keys a transaction wrote. -/
def writtenKeys (history : History) : List CFKey := (history.filterMap writeOf).map Prod.fst

theorem mem_writtenKeys {history : History} {k : CFKey} :
    k ∈ writtenKeys history ↔ (lastWrite history k).isSome := by
  simp only [writtenKeys, lastWrite, Option.isSome_map, List.find?_isSome, List.mem_reverse,
    List.mem_map, decide_eq_true_eq]

theorem writtenKeys_snoc {history : History} {e : Action × Reply} (h : writeOf e = none) :
    writtenKeys (history ++ [e]) = writtenKeys history := by
  simp [writtenKeys, h]

instance (e : Action × Reply) (k : CFKey) : Decidable (Touches e k) := by
  unfold Touches
  split <;> infer_instance

instance (history : History) (k : CFKey) : Decidable (Reads history k) :=
  inferInstanceAs (Decidable (∃ e ∈ history, Touches e k))

theorem reads_snoc_of_not_call {history : History} {action : Action} {reply : Reply}
    (h : ∀ op, action ≠ .call op) (k : CFKey) :
    Reads (history ++ [(action, reply)]) k ↔ Reads history k := by
  have hnot : ¬ Touches (action, reply) k := by
    -- only the two reading calls touch a key
    unfold Touches
    split
    · rename_i heq
      exact absurd (Prod.mk.inj heq).1 (h _)
    · rename_i heq
      exact absurd (Prod.mk.inj heq).1 (h _)
    · exact id
  simp only [Reads, List.mem_append, List.mem_singleton]
  constructor
  · rintro ⟨e, he | rfl, htouch⟩
    · exact ⟨e, he, htouch⟩
    · exact absurd htouch hnot
  · rintro ⟨e, he, htouch⟩
    exact ⟨e, .inl he, htouch⟩

/-! ### The condition and the property -/

/-- Two transactions whose batches are written in this order stand in the order of
their commit versions as far as it matters: the later one did not miss a write of
the earlier one to a key it read, or, when its version is the smaller one, does not
write what the earlier one read or wrote. -/
def InVersionOrder (trace : Trace) (earlier later : TxnId) : Prop :=
  (commitVersion (historyOf earlier trace) < commitVersion (historyOf later trace) →
    earlier ∉ visible later trace →
      ∀ k ∈ writtenKeys (historyOf earlier trace), ¬ Reads (historyOf later trace) k) ∧
  (commitVersion (historyOf later trace) < commitVersion (historyOf earlier trace) →
    ∀ k ∈ writtenKeys (historyOf later trace),
      ¬ Reads (historyOf earlier trace) k ∧ k ∉ writtenKeys (historyOf earlier trace))

instance (trace : Trace) (earlier later : TxnId) :
    Decidable (InVersionOrder trace earlier later) := by
  unfold InVersionOrder
  infer_instance

/-- The condition on the entry that follows a trace: a batch write conflicts with
no batch that is already written. -/
def NoConflict (trace : Trace) (e : Call × Reply) : Prop :=
  e.1.action = .writeBatch true → ∀ u ∈ batchWrites trace, InVersionOrder trace u e.1.txn

instance (trace : Trace) (e : Call × Reply) : Decidable (NoConflict trace e) := by
  unfold NoConflict
  infer_instance

/-- Executed one after another in the order of their commit versions, the committed
transactions read what they read in the run and leave the same database. -/
def Serializable (db₀ : Database) (trace : Trace) (db : Database) : Prop :=
  ∃ order : List TxnId, order.Perm (batchWrites trace) ∧
    order.Pairwise (fun u v =>
      commitVersion (historyOf u trace) < commitVersion (historyOf v trace)) ∧
    (∀ before u after, order = before ++ u :: after →
      AgreesWith (historyOf u trace) (dbAfter db₀ trace before)) ∧
    dbAfter db₀ trace order = db

/-- Two transactions overlap when neither sees the other's batch. -/
def Overlap (trace : Trace) (u v : TxnId) : Prop := u ∉ visible v trace ∧ v ∉ visible u trace

/-- The transaction read a key and wrote it. -/
def ReadsAndWrites (trace : Trace) (u : TxnId) (k : CFKey) : Prop :=
  Reads (historyOf u trace) k ∧ k ∈ writtenKeys (historyOf u trace)

/-! ### The versions of a run -/

/-- The commit version is drawn. -/
def Session.Drawn : Session → Prop
  | .committing _ | .validated _ | .committed _ => True
  | _ => False

/-- What a step does to the version counter. -/
theorem SessionStep.version_cases {store store' : KVStore} {session : Option Session}
    {session' : Session} {action : Action} {reply : Reply}
    (h : SessionStep store session action reply session' store') :
    (action = .drawCommit ∧ reply = .version store.version ∧
        store'.version = store.version + 1) ∨
      (action ≠ .drawCommit ∧ store.version ≤ store'.version ∧
        (session'.Drawn → ∃ session₀, session = some session₀ ∧ session₀.Drawn)) := by
  cases h
  case drawCommit => exact .inl ⟨rfl, rfl, rfl⟩
  all_goals
    refine .inr ⟨by simp, by simp [KVStore.bumpVersion], fun hdrawn => ?_⟩
    -- the version was drawn before, or the session has none after the step
    first
      | exact ⟨_, rfl, trivial⟩
      | exact absurd hdrawn id

/-- The commit versions of a run: they are distinct, smaller than the counter, and a
transaction sees only smaller ones. -/
structure VersionInv (trace : Trace) (s : KVState) : Prop where
  pos : 1 ≤ s.store.version
  bound : ∀ u, commitVersion (historyOf u trace) < s.store.version
  drawn : ∀ u session, s.session u = some session → session.Drawn →
    0 ≤ commitVersion (historyOf u trace)
  distinct : ∀ u v, 0 ≤ commitVersion (historyOf u trace) →
    commitVersion (historyOf u trace) = commitVersion (historyOf v trace) → u = v
  older : ∀ u, 0 ≤ commitVersion (historyOf u trace) → ∀ v ∈ visible u trace,
    commitVersion (historyOf v trace) < commitVersion (historyOf u trace)

theorem versionInv_init (db₀ : Database) : VersionInv [] (KVState.init db₀) where
  pos := le_refl 1
  bound _ := show (-1 : ℤ) < 1 by decide
  drawn _ _ hsession := by cases hsession
  distinct _ _ hdrawn := absurd hdrawn (show ¬ (0 : ℤ) ≤ -1 by decide)
  older _ hdrawn := absurd hdrawn (show ¬ (0 : ℤ) ≤ -1 by decide)

/-- A transaction with a commit version has taken its snapshot. -/
theorem KVInv.snapped_of_drawn {db₀ : Database} {trace : Trace} {s : KVState} {u : TxnId}
    (h : KVInv db₀ trace s) (hdrawn : 0 ≤ commitVersion (historyOf u trace)) :
    Snapped u trace := by
  by_contra hsnapped
  rw [commitVersion_idle (h.idle u hsnapped)] at hdrawn
  omega

/-- A transaction whose batch is written has taken its snapshot. -/
theorem KVInv.snapped_of_written {db₀ : Database} {trace : Trace} {s : KVState} {u : TxnId}
    (h : KVInv db₀ trace s) (hu : u ∈ batchWrites trace) : Snapped u trace := by
  obtain ⟨txn, hcommitted⟩ := h.written u hu
  have hinv := h.session u
  rw [hcommitted] at hinv
  exact hinv.snapped

/-- A transaction whose batch is written has a commit version. -/
theorem VersionInv.drawn_of_written {db₀ : Database} {trace : Trace} {s : KVState} {u : TxnId}
    (h : VersionInv trace s) (hkv : KVInv db₀ trace s) (hu : u ∈ batchWrites trace) :
    0 ≤ commitVersion (historyOf u trace) := by
  obtain ⟨txn, hcommitted⟩ := hkv.written u hu
  exact h.drawn u _ hcommitted trivial

section VersionStep

variable {db₀ : Database} {trace : Trace} {s s' : KVState} {t : TxnId} {action : Action}
  {reply : Reply}

/-- Drawing a commit version. -/
theorem VersionInv.step_drawCommit (hkv : KVInv db₀ trace s) (h : VersionInv trace s)
    (ht : t ∉ batchWrites trace) (hsnapped : Snapped t trace)
    (hversion : s'.store.version = s.store.version + 1)
    (hother : ∀ u, u ≠ t → s'.session u = s.session u) :
    VersionInv (trace ++ [(⟨t, .drawCommit⟩, .version s.store.version)]) s' := by
  have hself : commitVersion (historyOf t (trace ++ [(⟨t, .drawCommit⟩,
      .version s.store.version)])) = s.store.version := by
    rw [historyOf_snoc_self, commitVersion_snoc_drawCommit]
  have hframe : ∀ u, u ≠ t → commitVersion (historyOf u (trace ++ [(⟨t, .drawCommit⟩,
      .version s.store.version)])) = commitVersion (historyOf u trace) :=
    fun u hne => by rw [historyOf_snoc_of_ne hne]
  have hpos := h.pos
  constructor
  case pos => omega
  case bound =>
    intro u
    by_cases hu : u = t
    · rw [hu, hself]
      omega
    · rw [hframe u hu]
      have := h.bound u
      omega
  case drawn =>
    intro u session hsession hdrawn
    by_cases hu : u = t
    · rw [hu, hself]
      omega
    · rw [hframe u hu]
      exact h.drawn u session (hother u hu ▸ hsession) hdrawn
  case distinct =>
    intro u v hu heq
    -- the version just drawn is larger than all others
    by_cases hut : u = t <;> by_cases hvt : v = t
    · rw [hut, hvt]
    · rw [hut, hself, hframe v hvt] at heq
      have := h.bound v
      omega
    · rw [hvt, hself, hframe u hut] at heq
      have := h.bound u
      omega
    · rw [hframe u hut] at hu heq
      rw [hframe v hvt] at heq
      exact h.distinct u v hu heq
  case older =>
    intro u hu v hv
    -- nobody sees a batch of `t`, which is not written yet
    have hmem : ∀ w, v ∈ visible w trace → v ≠ t := by
      rintro w hw rfl
      exact ht ((visible_sublist w trace).subset hw)
    by_cases hut : u = t
    · -- what `t` sees was drawn before, so it is below the counter
      subst hut
      rw [visible_append_of_snapped hsnapped] at hv
      rw [hself, hframe v (hmem u hv)]
      exact h.bound v
    · rw [hframe u hut] at hu ⊢
      rw [visible_append_of_snapped (hkv.snapped_of_drawn hu)] at hv
      rw [hframe v (hmem u hv)]
      exact h.older u hu v hv

/-- Any other step. -/
theorem VersionInv.step_of_ne (hkv : KVInv db₀ trace s) (h : VersionInv trace s)
    (haction : action ≠ .drawCommit) (hversion : s.store.version ≤ s'.store.version)
    (hdrawn : ∀ u session, s'.session u = some session → session.Drawn →
      ∃ session₀, s.session u = some session₀ ∧ session₀.Drawn) :
    VersionInv (trace ++ [(⟨t, action⟩, reply)]) s' := by
  have hframe : ∀ u, commitVersion (historyOf u (trace ++ [(⟨t, action⟩, reply)])) =
      commitVersion (historyOf u trace) := by
    intro u
    by_cases hu : u = t
    · rw [hu, historyOf_snoc_self, commitVersion_snoc_of_ne _ _ haction]
    · rw [historyOf_snoc_of_ne hu]
  constructor
  case pos => exact h.pos.trans hversion
  case bound =>
    intro u
    rw [hframe u]
    exact lt_of_lt_of_le (h.bound u) hversion
  case drawn =>
    intro u session hsession hd
    obtain ⟨session₀, hsession₀, hd₀⟩ := hdrawn u session hsession hd
    rw [hframe u]
    exact h.drawn u session₀ hsession₀ hd₀
  case distinct =>
    intro u v hu heq
    rw [hframe u] at hu heq
    rw [hframe v] at heq
    exact h.distinct u v hu heq
  case older =>
    intro u hu v hv
    rw [hframe u] at hu ⊢
    rw [visible_append_of_snapped (hkv.snapped_of_drawn hu)] at hv
    rw [hframe v]
    exact h.older u hu v hv

/-- The versions keep their order at every step. -/
theorem VersionInv.step (hkv : KVInv db₀ trace s) (h : VersionInv trace s)
    (hs : kvStep s ⟨t, action⟩ = some (s', reply)) :
    VersionInv (trace ++ [(⟨t, action⟩, reply)]) s' := by
  obtain ⟨session', hstep, hself, hother⟩ := kvStep_inv hs
  rcases hstep.version_cases with ⟨rfl, rfl, hversion⟩ | ⟨haction, hversion, hdrawn⟩
  · -- a transaction without a snapshot can only draw its start version or take one
    have hsnapped : Snapped t trace := by
      by_contra hsn
      exact absurd ((hkv.session t).action_of_not_snapped hstep hsn) (by simp)
    exact h.step_drawCommit hkv (hkv.not_written hstep) hsnapped hversion hother
  · refine h.step_of_ne hkv haction hversion fun u session hsession hd => ?_
    by_cases hu : u = t
    · subst hu
      obtain rfl := Option.some.inj (hself.symm.trans hsession)
      exact hdrawn hd
    · exact ⟨session, hother u hu ▸ hsession, hd⟩

end VersionStep

/-- The invariants of the store and of the versions hold along every run. -/
theorem versionInv_run {db₀ : Database} {trace : Trace} {s : KVState}
    (h : Run kvStep (KVState.init db₀) trace s) : VersionInv trace s :=
  h.invariant (versionInv_init db₀) fun _ _ _ _ _ hrun hinv hs => hinv.step (kvInv_run hrun) hs

/-! ### Runs without conflicts -/

section Certified

variable {db₀ : Database} {trace trace' : Trace} {s s' : KVState} {t u v : TxnId}

/-- The order of two transactions depends on their versions, reads and writes and on
what the later one sees. -/
theorem InVersionOrder.congr (h : InVersionOrder trace u v)
    (hu : historyOf u trace' = historyOf u trace)
    (hversion : commitVersion (historyOf v trace') = commitVersion (historyOf v trace))
    (hkeys : writtenKeys (historyOf v trace') = writtenKeys (historyOf v trace))
    (hreads : ∀ k, Reads (historyOf v trace') k ↔ Reads (historyOf v trace) k)
    (hvisible : visible v trace' = visible v trace) : InVersionOrder trace' u v := by
  unfold InVersionOrder
  rw [hu, hversion, hkeys, hvisible]
  refine ⟨fun hlt hunseen k hk => ?_, h.2⟩
  rw [hreads]
  exact h.1 hlt hunseen k hk

/-- The step of a third transaction changes nothing in the order of two others. -/
theorem InVersionOrder.frame {action : Action} {reply : Reply} (h : InVersionOrder trace u v)
    (hu : u ≠ t) (hv : v ≠ t) (hsnapped : Snapped v trace) :
    InVersionOrder (trace ++ [(⟨t, action⟩, reply)]) u v := by
  have hhistory : historyOf v (trace ++ [(⟨t, action⟩, reply)]) = historyOf v trace :=
    historyOf_snoc_of_ne hv
  refine h.congr (historyOf_snoc_of_ne hu) ?_ ?_ ?_ (visible_append_of_snapped hsnapped _)
  · rw [hhistory]
  · rw [hhistory]
  · intro k
    rw [hhistory]

/-- Nor does the batch write of the later one. -/
theorem InVersionOrder.snoc_write {reply : Reply} (h : InVersionOrder trace u t) (hu : u ≠ t)
    (hsnapped : Snapped t trace) :
    InVersionOrder (trace ++ [(⟨t, .writeBatch true⟩, reply)]) u t := by
  refine h.congr (historyOf_snoc_of_ne hu) ?_ ?_ ?_ (visible_append_of_snapped hsnapped _)
  · rw [historyOf_snoc_self, commitVersion_snoc_of_ne _ _ (by simp)]
  · rw [historyOf_snoc_self, writtenKeys_snoc rfl]
  · intro k
    rw [historyOf_snoc_self, reads_snoc_of_not_call (by simp)]

/-- The batches are written in version order as far as it matters. -/
theorem certified_step (hkv : KVInv db₀ trace s)
    (h : (batchWrites trace).Pairwise (InVersionOrder trace)) {action : Action} {reply : Reply}
    (hcond : NoConflict trace (⟨t, action⟩, reply))
    (hs : kvStep s ⟨t, action⟩ = some (s', reply)) :
    (batchWrites (trace ++ [(⟨t, action⟩, reply)])).Pairwise
      (InVersionOrder (trace ++ [(⟨t, action⟩, reply)])) := by
  obtain ⟨session', hstep, _, _⟩ := kvStep_inv hs
  have ht := hkv.not_written hstep
  have hne : ∀ w ∈ batchWrites trace, w ≠ t := by
    rintro w hw rfl
    exact ht hw
  -- the order among the batches that are already written does not change
  have hold : (batchWrites trace).Pairwise
      (InVersionOrder (trace ++ [(⟨t, action⟩, reply)])) :=
    h.imp_of_mem fun {a b} ha hb hab =>
      hab.frame (hne a ha) (hne b hb) (hkv.snapped_of_written hb)
  rcases hstep.db_cases with ⟨haction, _⟩ | ⟨txn, hsession, rfl, _, _⟩
  · rwa [batchWrites_snoc_of_ne haction]
  · -- the new batch comes last, and the condition is about it
    rw [batchWrites_snoc_write rfl]
    refine List.pairwise_append.mpr ⟨hold, List.pairwise_singleton _ _, ?_⟩
    intro a ha b hb
    rw [List.mem_singleton.mp hb]
    have hinv := hkv.session t
    rw [hsession] at hinv
    exact (hcond rfl a ha).snoc_write (hne a ha) hinv.snapped

theorem certified_run (h : Run kvStep (KVState.init db₀) trace s)
    (hcond : Along NoConflict trace) : (batchWrites trace).Pairwise (InVersionOrder trace) :=
  h.invariant_along (P := fun trace _ => (batchWrites trace).Pairwise (InVersionOrder trace))
    List.Pairwise.nil
    (fun _ _ _ _ _ hrun hinv hc hs => certified_step (kvInv_run hrun) hinv hc hs) hcond

/-- In the sense of optimistic validation, the committed transactions of such a run
are validated by their commit versions. -/
theorem validated_run (h : Run kvStep (KVState.init db₀) trace s)
    (hcond : Along NoConflict trace) :
    (txnModel trace).Validated (fun u => commitVersion (historyOf u trace))
      (fun u db => AgreesWith (historyOf u trace) db) (fun u k => Reads (historyOf u trace) k)
      (fun u => visible u trace) db₀ (batchWrites trace) := by
  have hkv := kvInv_run h
  have hver := versionInv_run h
  have hcert := certified_run h hcond
  have hdrawn : ∀ u ∈ batchWrites trace, 0 ≤ commitVersion (historyOf u trace) :=
    fun u hu => hver.drawn_of_written hkv hu
  have hwrites : ∀ u k, (txnModel trace).Writes u k ↔ k ∈ writtenKeys (historyOf u trace) :=
    fun u k => mem_writtenKeys.symm
  constructor
  case reads => exact fun u hu => hkv.reads u (hkv.snapped_of_written hu)
  case sublist => exact fun u _ => visible_sublist u trace
  case older => exact fun u hu => hver.older u (hdrawn u hu)
  case fresh =>
    intro v hv u hu hlt k hreads hw
    by_contra hunseen
    have hne : u ≠ v := by
      rintro rfl
      exact lt_irrefl _ hlt
    -- whichever batch was written first, the condition on the second one excludes this
    rcases WriteModel.pairwise_either hcert hu hv hne with huv | hvu
    · exact huv.1 hlt hunseen k ((hwrites u k).mp hw) hreads
    · exact (hvu.2 hlt k ((hwrites u k).mp hw)).1 hreads
  case ordered =>
    intro k
    -- two writers of one key are written in the order of their versions
    refine (hcert.and hkv.nodup).imp_of_mem fun {a b} ha _ hab hwa hwb => ?_
    obtain ⟨hord, hne⟩ := hab
    by_contra hnot
    rcases lt_or_eq_of_le (not_lt.mp hnot) with hlt | heq
    · exact (hord.2 hlt k ((hwrites b k).mp hwb)).2 ((hwrites a k).mp hwa)
    · exact hne (hver.distinct a b (hdrawn a ha) heq.symm)

end Certified

/-- Sorting the committed transactions by their commit versions. -/
def commitOrder (trace : Trace) : List TxnId :=
  (batchWrites trace).insertionSort fun u v =>
    commitVersion (historyOf u trace) ≤ commitVersion (historyOf v trace)

theorem commitOrder_perm (trace : Trace) : (commitOrder trace).Perm (batchWrites trace) :=
  List.perm_insertionSort _ _

theorem commitOrder_sorted {db₀ : Database} {trace : Trace} {s : KVState}
    (h : Run kvStep (KVState.init db₀) trace s) :
    (commitOrder trace).Pairwise fun u v =>
      commitVersion (historyOf u trace) < commitVersion (historyOf v trace) := by
  have hkv := kvInv_run h
  have hver := versionInv_run h
  have hsorted := List.pairwise_insertionSort (fun u v : TxnId =>
    commitVersion (historyOf u trace) ≤ commitVersion (historyOf v trace)) (batchWrites trace)
  have hnodup : (commitOrder trace).Nodup := (commitOrder_perm trace).nodup_iff.mpr hkv.nodup
  refine (hsorted.and hnodup).imp_of_mem fun {a b} ha _ hab => ?_
  obtain ⟨hle, hne⟩ := hab
  have hwritten : a ∈ batchWrites trace := (commitOrder_perm trace).mem_iff.mp ha
  -- commit versions are distinct, so sorted is strictly sorted
  refine lt_of_le_of_ne hle fun heq => hne ?_
  exact hver.distinct a b (hver.drawn_of_written hkv hwritten) heq

/-- In every run whose batch writes meet the condition, the committed transactions
are serializable in the order of their commit versions, and no two overlapping
transactions that read and write a common key are both committed. -/
theorem serializable_of_noConflict {db₀ : Database} {trace : Trace} {s : KVState}
    (h : Run kvStep (KVState.init db₀) trace s) (hcond : Along NoConflict trace) :
    Serializable db₀ trace s.store.db ∧
      ∀ u ∈ batchWrites trace, ∀ v ∈ batchWrites trace, u ≠ v → Overlap trace u v →
        ∀ k, ¬ (ReadsAndWrites trace u k ∧ ReadsAndWrites trace v k) := by
  have hvalid := validated_run h hcond
  have hperm := commitOrder_perm trace
  have hsorted := commitOrder_sorted h
  refine ⟨⟨commitOrder trace, hperm, hsorted, ?_, ?_⟩, ?_⟩
  · have hserial := hvalid.serial
      (fun u db db' hagree hreads => AgreesWith.congr (hagree) hreads) hperm hsorted
    exact ((txnModel trace).serial_iff _ _ _).mp hserial
  · rw [(kvInv_run h).db_eq]
    exact hvalid.final (fun _ _ => Database.ext_view) hperm hsorted
  · rintro u hu v hv hne ⟨huv, hvu⟩ k ⟨⟨hru, hwu⟩, ⟨hrv, hwv⟩⟩
    -- the one with the larger version read the key, so it must have seen the other's batch
    rcases lt_trichotomy (commitVersion (historyOf u trace))
      (commitVersion (historyOf v trace)) with hlt | heq | hlt
    · exact huv (hvalid.fresh v hv u hu hlt k hrv (mem_writtenKeys.mp hwu))
    · have hver := versionInv_run h
      exact hne (hver.distinct u v (hver.drawn_of_written (kvInv_run h) hu) heq)
    · exact hvu (hvalid.fresh u hu v hv hlt k hru (mem_writtenKeys.mp hwv))

/-- Two transactions with overlapping snapshots, one of which reads a range next to
the key the other writes. -/
def disjointWriters : List Call :=
  [⟨0, .drawStart⟩, ⟨1, .drawStart⟩, ⟨0, .takeSnapshot⟩, ⟨1, .takeSnapshot⟩,
   ⟨0, .call (.get none kInodeCFIndex [7] false)⟩, ⟨0, .call (.put kInodeCFIndex [7] [1])⟩,
   ⟨1, .call (.getRange none kInodeCFIndex [8] [9] 10 false)⟩,
   ⟨1, .call (.put kDEntCFIndex [8] [2])⟩,
   ⟨1, .drawCommit⟩, ⟨0, .drawCommit⟩, ⟨0, .isConflictFree⟩, ⟨1, .isConflictFree⟩,
   ⟨0, .writeBatch true⟩, ⟨1, .writeBatch true⟩]

/-- Its trace from the empty database. -/
def disjointWritersTrace : Trace :=
  ((replay kvStep (KVState.init .empty) disjointWriters).map Prod.fst).getD []

theorem disjointWritersTrace_run :
    ∃ s, Run kvStep (KVState.init .empty) disjointWritersTrace s :=
  exists_run_of_replay disjointWriters rfl

theorem serializable_disjointWriters :
    batchWrites disjointWritersTrace = [0, 1] ∧
      ∃ s, Run kvStep (KVState.init .empty) disjointWritersTrace s ∧
        Serializable .empty disjointWritersTrace s.store.db := by
  obtain ⟨s, hrun⟩ := disjointWritersTrace_run
  exact ⟨rfl, s, hrun, (serializable_of_noConflict hrun (by decide)).1⟩

/-! ### A lost update -/

/-- Two transactions read a key, then both write it and commit. -/
def lostUpdate : List Call :=
  [⟨0, .drawStart⟩, ⟨0, .takeSnapshot⟩, ⟨1, .drawStart⟩, ⟨1, .takeSnapshot⟩,
   ⟨0, .call (.get none kInodeCFIndex [7] false)⟩,
   ⟨1, .call (.get none kInodeCFIndex [7] false)⟩,
   ⟨0, .call (.put kInodeCFIndex [7] [1])⟩, ⟨1, .call (.put kInodeCFIndex [7] [2])⟩,
   ⟨0, .drawCommit⟩, ⟨0, .isConflictFree⟩, ⟨0, .writeBatch true⟩,
   ⟨1, .drawCommit⟩, ⟨1, .isConflictFree⟩, ⟨1, .writeBatch true⟩]

/-- Its trace from the empty database. -/
def lostUpdateTrace : Trace :=
  ((replay kvStep (KVState.init .empty) lostUpdate).map Prod.fst).getD []

theorem lostUpdateTrace_run : ∃ s, Run kvStep (KVState.init .empty) lostUpdateTrace s :=
  exists_run_of_replay lostUpdate rfl

/-- Both transactions commit, although they overlap and both read and write the key:
in the serial order the second one would have read what the first one wrote. -/
theorem lostUpdate_not_serializable :
    ∃ s, Run kvStep (KVState.init .empty) lostUpdateTrace s ∧
      batchWrites lostUpdateTrace = [0, 1] ∧ Overlap lostUpdateTrace 0 1 ∧
      ReadsAndWrites lostUpdateTrace 0 (cfKey kInodeCFIndex [7]) ∧
      ReadsAndWrites lostUpdateTrace 1 (cfKey kInodeCFIndex [7]) ∧
      ¬ Serializable .empty lostUpdateTrace s.store.db := by
  obtain ⟨s, hrun⟩ := lostUpdateTrace_run
  refine ⟨s, hrun, rfl, ⟨by decide, by decide⟩, ⟨by decide, by decide⟩, ⟨by decide, by decide⟩, ?_⟩
  rintro ⟨order, hperm, hsorted, hreads, _⟩
  -- the only candidate for the serial order is the one of the versions
  have hversions : [0, 1].Pairwise fun u v => commitVersion (historyOf u lostUpdateTrace) <
      commitVersion (historyOf v lostUpdateTrace) := by decide
  have horder : order = [0, 1] :=
    List.Perm.eq_of_pairwise (fun a b _ _ hab hba => absurd hab (not_lt.mpr hba.le)) hsorted
      hversions hperm
  -- in it the second transaction would have to read what the first one wrote
  have hread := hreads [0] 1 [] horder
    (.call (.get none kInodeCFIndex [7] false), .value (.ok none)) (by decide)
  have hvalue : (dbAfter .empty lostUpdateTrace [0]).get kInodeCFIndex [7] = some [1] := by decide
  have hnone : none = (dbAfter .empty lostUpdateTrace [0]).get kInodeCFIndex [7] := hread
  rw [hvalue] at hnone
  cases hnone

end RocketFS
