import Mathlib.Data.List.Induction
import RocketFS.KV.Sessions
import RocketFS.Lib.WriteHistory

/-!
# What the trace of a run says about its transactions

Everything a caller of the store can see is in the trace: which calls each
transaction made, what they returned, and in which order the snapshots were taken
and the batches were written. The notions below are read off the trace alone, and
the store's own state is compared with them in the modules that follow.

## Main definitions

* `historyOf` — the actions of one transaction and their replies
* `lastWrite`, `writeSetOf` — what a transaction wrote; the last `Put` or `Del` of
  a key wins
* `AgreesWith` — a database answers the reads of a transaction as they were
  answered in the run
* `batchWrites`, `visible` — the transactions whose batch was written, and those
  whose batch was written before a given transaction took its snapshot
* `txnModel` — the transactions of a trace as a `WriteModel`
-/

namespace RocketFS

/-- The inputs and outputs of a run of the store. -/
abbrev Trace := List (Call × Reply)

/-- The actions of one transaction, with what they gave back. -/
abbrev History := List (Action × Reply)

/-- The part of a trace that belongs to one transaction. -/
def historyOf (t : TxnId) (trace : Trace) : History :=
  trace.filterMap fun e => if e.1.txn = t then some (e.1.action, e.2) else none

section HistoryOf

variable {t u : TxnId} {trace : Trace} {action : Action} {reply : Reply}

theorem historyOf_snoc_self :
    historyOf t (trace ++ [(⟨t, action⟩, reply)]) = historyOf t trace ++ [(action, reply)] := by
  simp [historyOf]

theorem historyOf_snoc_of_ne (h : u ≠ t) :
    historyOf u (trace ++ [(⟨t, action⟩, reply)]) = historyOf u trace := by
  simp [historyOf, Ne.symm h]

theorem mem_historyOf {e : Action × Reply} :
    e ∈ historyOf t trace ↔ (⟨t, e.1⟩, e.2) ∈ trace := by
  simp only [historyOf, List.mem_filterMap]
  constructor
  · rintro ⟨⟨⟨u, action⟩, r⟩, hmem, heq⟩
    split_ifs at heq with hu
    obtain rfl := Option.some.inj heq
    obtain rfl : u = t := hu
    exact hmem
  · intro hmem
    exact ⟨_, hmem, by simp⟩

end HistoryOf

/-! ### Writes -/

/-- The key an action writes, and what it writes there. -/
def writeOf : Action × Reply → Option (CFKey × Option Bytes)
  | (.call (.put cf key value), .done) => some (cfKey cf key, some value)
  | (.call (.del cf key), .done) => some (cfKey cf key, none)
  | _ => none

/-- The last `Put` or `Del` of a key; `none` where the key was not written. -/
def lastWrite (history : History) (k : CFKey) : Option (Option Bytes) :=
  ((history.filterMap writeOf).reverse.find? fun w => w.1 = k).map Prod.snd

/-- The write set the calls of a transaction build up. -/
def writeSetOf (history : History) : WriteSet :=
  (history.filterMap writeOf).foldl (fun writeSet w => writeSet.insert w.1 w.2) .empty

theorem writeSetOf_snoc_none {history : History} {e : Action × Reply} (h : writeOf e = none) :
    writeSetOf (history ++ [e]) = writeSetOf history := by
  simp [writeSetOf, h]

theorem writeSetOf_snoc_some {history : History} {e : Action × Reply}
    {w : CFKey × Option Bytes} (h : writeOf e = some w) :
    writeSetOf (history ++ [e]) = (writeSetOf history).insert w.1 w.2 := by
  simp [writeSetOf, h]

theorem lookup_writeSetOf (history : History) (k : CFKey) :
    (writeSetOf history).lookup k = lastWrite history k := by
  induction history using List.reverseRecOn with
  | nil => rfl
  | append_singleton history e ih =>
    cases h : writeOf e with
    | none =>
      rw [writeSetOf_snoc_none h, ih]
      simp [lastWrite, h]
    | some w =>
      rw [writeSetOf_snoc_some h, SortedMap.lookup_insert, ih]
      by_cases hk : w.1 = k
      · simp [lastWrite, h, hk]
      · simp [lastWrite, h, hk, Ne.symm hk]

/-! ### Reads -/

/-- A database answers a read as it was answered in the run. -/
def Answered (db : Database) : Action × Reply → Prop
  | (.call (.get _ cf key _), .value (.ok value)) => value = db.get cf key
  | (.call (.getRange _ cf startKey endKey limit _), .values (.ok values)) =>
    values = db.range cf startKey endKey limit
  | _ => True

/-- A database answers every read of a transaction as it was answered in the run. -/
def AgreesWith (history : History) (db : Database) : Prop := ∀ e ∈ history, Answered db e

/-- A read depends on a key: it is the key of a point read, or lies in the range of
a range read. -/
def Touches : Action × Reply → CFKey → Prop
  | (.call (.get _ cf key _), .value (.ok _)), k => k = cfKey cf key
  | (.call (.getRange _ cf startKey endKey _ _), .values (.ok _)), k =>
    (ofLex k).1 = cf ∧ startKey ≤ (ofLex k).2 ∧ (ofLex k).2 < endKey
  | _, _ => False

/-- A transaction read a key, by itself or as part of a range. -/
def Reads (history : History) (k : CFKey) : Prop := ∃ e ∈ history, Touches e k

/-- Databases that agree on what a read depends on answer it alike. -/
theorem Answered.congr {db db' : Database} {e : Action × Reply}
    (h : ∀ k, Touches e k → db.view k = db'.view k) (ha : Answered db e) : Answered db' e := by
  unfold Answered
  split
  · rename_i fault cf key exclude value
    have hvalue : value = db.get cf key := ha
    rw [hvalue]
    exact h (cfKey cf key) rfl
  · rename_i fault cf startKey endKey limit exclude values
    have hvalues : values = db.range cf startKey endKey limit := ha
    have hslice : (db.cf cf).slice startKey endKey = (db'.cf cf).slice startKey endKey :=
      SortedMap.slice_congr fun key hstart hend => h (cfKey cf key) ⟨rfl, hstart, hend⟩
    rw [hvalues, Database.range, Database.range, hslice]
  · trivial

theorem AgreesWith.congr {db db' : Database} {history : History}
    (h : ∀ k, Reads history k → db.view k = db'.view k) (ha : AgreesWith history db) :
    AgreesWith history db' :=
  fun e he => (ha e he).congr fun k hk => h k ⟨e, he, hk⟩

/-! ### Snapshots and batches -/

/-- The transactions whose batch was written, in the order of the writes. -/
def batchWrites (trace : Trace) : List TxnId :=
  trace.filterMap fun e => if e.1.action = .writeBatch true then some e.1.txn else none

/-- The trace up to the moment a transaction takes its snapshot. -/
def beforeSnapshot (t : TxnId) (trace : Trace) : Trace :=
  trace.takeWhile fun e => e.1 ≠ ⟨t, .takeSnapshot⟩

/-- The transactions whose batch was written before `t` took its snapshot. -/
def visible (t : TxnId) (trace : Trace) : List TxnId := batchWrites (beforeSnapshot t trace)

/-- The transaction has taken its snapshot. -/
def Snapped (t : TxnId) (trace : Trace) : Prop := ∃ e ∈ trace, e.1 = ⟨t, .takeSnapshot⟩

section Snoc

variable {t : TxnId} {trace : Trace} {e : Call × Reply}

theorem batchWrites_snoc_write (h : e.1.action = .writeBatch true) :
    batchWrites (trace ++ [e]) = batchWrites trace ++ [e.1.txn] := by
  simp [batchWrites, h]

theorem batchWrites_snoc_of_ne (h : e.1.action ≠ .writeBatch true) :
    batchWrites (trace ++ [e]) = batchWrites trace := by
  simp [batchWrites, h]

theorem visible_sublist (t : TxnId) (trace : Trace) :
    (visible t trace).Sublist (batchWrites trace) :=
  (List.takeWhile_sublist _).filterMap _

/-- What is visible to a transaction is settled when it takes its snapshot. -/
theorem visible_append_of_snapped (h : Snapped t trace) (rest : Trace) :
    visible t (trace ++ rest) = visible t trace := by
  obtain ⟨e, he, heq⟩ := h
  have hlen : ¬ (beforeSnapshot t trace).length = trace.length := by
    intro hlen
    have hself := (List.takeWhile_prefix _).eq_of_length hlen
    have := List.takeWhile_eq_self_iff.mp hself e he
    simp [heq] at this
  rw [visible, beforeSnapshot, List.takeWhile_append]
  exact congrArg batchWrites (if_neg hlen)

theorem visible_snoc_snapshot (h : ¬ Snapped t trace) (heq : e.1 = ⟨t, .takeSnapshot⟩) :
    visible t (trace ++ [e]) = batchWrites trace := by
  have hself : beforeSnapshot t trace = trace := by
    refine List.takeWhile_eq_self_iff.mpr fun e' he' => ?_
    simpa using fun heq' => h ⟨e', he', heq'⟩
  rw [visible, beforeSnapshot, List.takeWhile_append_of_pos]
  · simp [heq]
  · exact List.takeWhile_eq_self_iff.mp hself

theorem Snapped.append (h : Snapped t trace) (rest : Trace) : Snapped t (trace ++ rest) := by
  obtain ⟨e, he, heq⟩ := h
  exact ⟨e, List.mem_append_left _ he, heq⟩

theorem snapped_snoc : Snapped t (trace ++ [e]) ↔ Snapped t trace ∨ e.1 = ⟨t, .takeSnapshot⟩ := by
  simp only [Snapped, List.mem_append, List.mem_singleton]
  constructor
  · rintro ⟨e', he' | rfl, heq⟩
    · exact .inl ⟨e', he', heq⟩
    · exact .inr heq
  · rintro (⟨e', he', heq⟩ | heq)
    · exact ⟨e', .inl he', heq⟩
    · exact ⟨e, .inr rfl, heq⟩

end Snoc

/-! ### The transactions of a trace as a write model -/

/-- The transactions of a trace, each of which writes its final write set. -/
def txnModel (trace : Trace) : WriteModel Database TxnId CFKey Bytes where
  view := Database.view
  delta u k := lastWrite (historyOf u trace) k
  apply db u := db.write (writeSetOf (historyOf u trace))
  view_apply db u k := by rw [Database.view_write, lookup_writeSetOf]

/-- The database after a list of transactions of a trace. -/
def dbAfter (db : Database) (trace : Trace) (order : List TxnId) : Database :=
  (txnModel trace).applyAll db order

theorem dbAfter_congr {db : Database} {trace trace' : Trace} {order : List TxnId}
    (h : ∀ u ∈ order, historyOf u trace = historyOf u trace') :
    dbAfter db trace order = dbAfter db trace' order := by
  induction order generalizing db with
  | nil => rfl
  | cons u rest ih =>
    have hu := h u List.mem_cons_self
    have hrest : ∀ db, dbAfter db trace rest = dbAfter db trace' rest := fun _ =>
      ih fun v hv => h v (List.mem_cons_of_mem _ hv)
    calc dbAfter db trace (u :: rest)
        = dbAfter (db.write (writeSetOf (historyOf u trace))) trace rest := rfl
      _ = dbAfter (db.write (writeSetOf (historyOf u trace'))) trace' rest := by rw [hrest, hu]
      _ = dbAfter db trace' (u :: rest) := rfl

theorem dbAfter_snoc (db : Database) (trace : Trace) (order : List TxnId) (u : TxnId) :
    dbAfter db trace (order ++ [u]) =
      (dbAfter db trace order).write (writeSetOf (historyOf u trace)) :=
  (txnModel trace).applyAll_append db order [u]

end RocketFS
