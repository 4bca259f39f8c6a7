import RocketFS.Service.Operations

/-!
# Errors of the storage

When RocksDB fails at a read, the transaction makes a `SystemError` of the text of its
status and every layer above wraps it. The constructor of `Status` throws unless the text
it is given is empty or ends in a full stop, and the text comes from RocksDB. The layers
above add texts of their own, which all end in a full stop. So a failure is reported
exactly when the text of RocksDB is empty or ends in a full stop, and otherwise the
handler throws (`storage_errors_reported_iff`).

That a handler reports is a specification of its program: after a read that failed it
calls nothing any more and returns a `SystemError` (`Reports`).

## Main definitions

* `Reportable` — the texts the constructor of `Status` takes
* `ReadM.Reports`, `HandlerM.Reports` — what a program does after a read that failed
* `MeetsFault` — a request comes to a read that fails
-/

namespace RocketFS

/-! ### Texts -/

/-- The texts the constructor of `Status` takes. -/
def Reportable (text : Bytes) : Prop := text = [] ∨ text.getLast? = some fullStop

instance (text : Bytes) : Decidable (Reportable text) := inferInstanceAs (Decidable (_ ∨ _))

namespace Status

theorem make_of_reportable (code : StatusCode) {text : Bytes} (h : Reportable text)
    (internal : Option Status) (location : SourceLocation) :
    ∃ status, make code text internal location = .ok status ∧ status.statusCode = code := by
  rcases h with rfl | hback
  · have hback : (formatMsg code [] internal location).getLast? = some fullStop := by
      cases internal with
      | none =>
        simp only [formatMsg, List.append_nil]
        exact getLast?_append_of_eq _ (by decide)
      | some inner => simp [formatMsg, List.getLast?_append, inner.msg_back]
    rw [make, if_pos (.inl rfl), dif_pos hback]
    exact ⟨_, rfl, rfl⟩
  · exact make_of_getLast? code hback internal location

theorem make_of_not_reportable (code : StatusCode) {text : Bytes} (h : ¬ Reportable text)
    (internal : Option Status) (location : SourceLocation) :
    make code text internal location = .error (.check "msg.empty() || msg.back() == '.'") := by
  have hneg : ¬ (text.isEmpty ∨ text.getLast? = some fullStop) := by
    rwa [List.isEmpty_iff]
  rw [make, if_neg hneg]

/-- Wrap a status as the layers above it do, the innermost layer first. -/
def wrap (inner : Status) : List (StatusCode × Bytes × SourceLocation) → Except Crash Status
  | [] => .ok inner
  | (code, text, location) :: layers => do
    let outer ← make code text (some inner) location
    outer.wrap layers

/-- No depth of wrapping fails when each layer's own text is right. -/
theorem exists_wrap (inner : Status) {layers : List (StatusCode × Bytes × SourceLocation)}
    (h : ∀ layer ∈ layers, Reportable layer.2.1) : ∃ outer, inner.wrap layers = .ok outer := by
  induction layers generalizing inner with
  | nil => exact ⟨inner, rfl⟩
  | cons layer rest ih =>
    obtain ⟨code, text, location⟩ := layer
    obtain ⟨hhead, hrest⟩ := List.forall_mem_cons.mp h
    obtain ⟨middle, hmake, _⟩ := make_of_reportable code hhead (some inner) location
    rw [wrap, hmake, ok_bind]
    exact ih middle hrest

end Status

/-! ### Reads that fail -/

namespace ReadOp

/-- The column family of a read. -/
def cf : ReadOp → CFIndex
  | .get cf _ => cf
  | .getRange cf _ _ _ => cf

/-- The read answered with an error. -/
def isError : (op : ReadOp) → op.Answer → Bool
  | .get _ _, .error _ => true
  | .get _ _, .ok _ => false
  | .getRange _ _ _ _, .error _ => true
  | .getRange _ _ _ _, .ok _ => false

end ReadOp

namespace Txn

variable {txn : Txn} {cf : CFIndex} {text : Bytes}

theorem get_fault (hcf : cf.Opened) (key : Bytes) (exclude : Bool) :
    txn.get (some text) cf key exclude =
      (Status.systemError text none ⟨"src/namenode/table/kv/rocksdb_kv_store.cc", 83⟩).map
        fun status => (txn, .error status) := by
  simp only [get, hcf.ne_invalid, checkHandle_of_opened hcf, ne_eq, not_false_eq_true,
    decide_true, check_true, ok_bind]
  rfl

theorem getRange_fault (hcf : cf.Opened) (startKey endKey : Bytes) (limit : ℕ)
    (exclude : Bool) :
    txn.getRange (some text) cf startKey endKey limit exclude =
      (Status.systemError text none ⟨"src/namenode/table/kv/rocksdb_kv_store.cc", 120⟩).map
        fun status => (txn, .error status) := by
  simp only [getRange, hcf.ne_invalid, checkHandle_of_opened hcf, ne_eq, not_false_eq_true,
    decide_true, check_true, ok_bind]
  rfl

/-- A `SystemError` is returned for the texts the constructor of `Status` takes. -/
theorem exists_fault_iff {α : Type} {location : SourceLocation}
    {result : Except Crash (Txn × Except Status α)}
    (h : result = (Status.systemError text none location).map fun status => (txn, .error status)) :
    (∃ status, result = .ok (txn, .error status) ∧ status.statusCode = .systemError) ↔
      Reportable text := by
  constructor
  · rintro ⟨status, hresult, _⟩
    by_contra hnot
    rw [h, Status.systemError, Status.make_of_not_reportable .systemError hnot] at hresult
    cases hresult
  · intro htext
    obtain ⟨status, hmake, hcode⟩ :=
      Status.make_of_reportable .systemError htext none location
    refine ⟨status, ?_, hcode⟩
    rw [h, Status.systemError, hmake]
    rfl

theorem exists_crash_of_fault {α : Type} {location : SourceLocation}
    {result : Except Crash (Txn × Except Status α)} (htext : ¬ Reportable text)
    (h : result = (Status.systemError text none location).map fun status => (txn, .error status)) :
    ∃ crash, result = .error crash := by
  rw [h, Status.systemError, Status.make_of_not_reportable .systemError htext]
  exact ⟨_, rfl⟩

/-- A read that fails is answered with an error, -/
theorem answer_fault {op : ReadOp} (hop : op.cf.Opened) (htext : Reportable text) :
    ∃ x, txn.answer (some text) op = .ok (txn, x) ∧ op.isError x = true := by
  cases op with
  | get cf key =>
    obtain ⟨status, hget, _⟩ := (exists_fault_iff (get_fault hop key false)).mpr htext
    exact ⟨.error status, hget, rfl⟩
  | getRange cf startKey endKey limit =>
    obtain ⟨status, hget, _⟩ :=
      (exists_fault_iff (getRange_fault hop startKey endKey limit false)).mpr htext
    exact ⟨.error status, hget, rfl⟩

/-- or it throws. -/
theorem answer_fault_crash {op : ReadOp} (hop : op.cf.Opened) (htext : ¬ Reportable text) :
    ∃ crash, txn.answer (some text) op = .error crash := by
  cases op with
  | get cf key => exact exists_crash_of_fault htext (get_fault hop key false)
  | getRange cf startKey endKey limit =>
    exact exists_crash_of_fault htext (getRange_fault hop startKey endKey limit false)

end Txn

/-! ### Programs that report -/

/-- What is remembered of the calls of a handler: whether a read has failed, and whether
its commit has returned. -/
inductive Phase
  | running
  | failed
  | committed
  deriving DecidableEq

namespace Phase

def after (phase : Phase) : (op : Operation) → op.Answer → Phase
  | .read op, x => if op.isError x then .failed else phase
  | .commitTxn, _ => .committed
  | .put _ _ _, _ => phase
  | .del _ _, _ => phase
  | .next, _ => phase
  | .nowNs, _ => phase

/-- Reads are of column families that are open, and nothing is called after a failure or
after the commit. -/
def Allows : Phase → Operation → Prop
  | .running, .read op => op.cf.Opened
  | .running, _ => True
  | _, _ => False

end Phase

/-- The program keeps to the phases, and its result is as `Q` says of the phase it ends in. -/
abbrev HandlerM.Reports {α : Type} (p : HandlerM α) (Q : Except Crash α → Phase → Prop)
    (phase : Phase) : Prop :=
  Program.Wp (fun phase op x phase' => phase' = phase.after op x) Phase.Allows p Q phase

abbrev ReadM.Reports {α : Type} (p : ReadM α) (Q : Except Crash α → Phase → Prop)
    (phase : Phase) : Prop :=
  Program.Wp (fun phase op x phase' => phase' = phase.after (.read op) x)
    (fun phase op => phase.Allows (.read op)) p Q phase

section Reports

variable {α β : Type} {phase : Phase}

theorem ReadM.Reports.lift {p : ReadM α} {Q : Except Crash α → Phase → Prop}
    (h : p.Reports Q phase) : HandlerM.Reports p.lift Q phase := by
  induction p generalizing phase with
  | done result => exact h
  | call op next ih => exact ⟨h.1, fun x phase' hx => ih x (h.2 x phase' hx)⟩

/-- A program that has failed is finished. -/
theorem HandlerM.Reports.done_of_not_running {p : HandlerM α}
    {Q : Except Crash α → Phase → Prop} (h : HandlerM.Reports p Q phase)
    (hphase : phase ≠ .running) : ∃ r, p = .done r ∧ Q r phase := by
  cases p with
  | done result => exact ⟨result, rfl, h⟩
  | call op next =>
    cases phase with
    | running => exact absurd rfl hphase
    | failed => exact h.1.elim
    | committed => exact h.1.elim

/-- Only the commit changes the store. -/
theorem handle_store {env : Env} {s : HandlerState} {op : Operation} (hop : op ≠ .commitTxn) :
    (handle env s op).2.store = s.store := by
  cases op with
  | read op =>
    simp only [handle, handleWith]
    split <;> rfl
  | put cf key value =>
    simp only [handle, handleWith]
    split <;> rfl
  | del cf key =>
    simp only [handle, handleWith]
    split <;> rfl
  | next => rfl
  | nowNs => rfl
  | commitTxn => exact absurd rfl hop

variable {env : Env} {s : HandlerState} {op : ReadOp} {text : Bytes}

/-- How a read that fails is answered. -/
theorem handle_fault (hop : op.cf.Opened) (hfault : env.fault op = some text) :
    (Reportable text ∧ ∃ x, handle env s (.read op) = (.ok x, s) ∧ op.isError x = true) ∨
      (¬ Reportable text ∧ ∃ crash, handle env s (.read op) = (.error crash, s)) := by
  by_cases htext : Reportable text
  · obtain ⟨x, hanswer, herror⟩ := s.txn.answer_fault hop htext
    refine .inl ⟨htext, x, ?_, herror⟩
    simp only [handle, handleWith, hfault, hanswer]
  · obtain ⟨crash, hanswer⟩ := s.txn.answer_fault_crash hop htext
    refine .inr ⟨htext, crash, ?_⟩
    simp only [handle, handleWith, hfault, hanswer]

/-- A program that comes to a read that fails ends there: with the result of the failed
phase, or by throwing. The store is as it was. -/
theorem HandlerM.Reports.exec {p : HandlerM α} {Q : Except Crash α → Phase → Prop}
    (h : HandlerM.Reports p Q .running) (hmem : Operation.read op ∈ p.calls (handle env) s)
    (hfault : env.fault op = some text) :
    ∃ r s', p.exec (handle env) s = (r, s') ∧ s'.store = s.store ∧
      (Reportable text ∧ Q r .failed ∨ ¬ Reportable text ∧ ∃ crash, r = .error crash) := by
  induction p generalizing s with
  | done result => cases hmem
  | call op' next ih =>
    -- the read that fails is this call, or a call that comes after it
    by_cases hhere : op' = .read op
    · subst hhere
      rcases handle_fault h.1 hfault with ⟨htext, x, hhandle, herror⟩ | ⟨htext, crash, hhandle⟩
      · -- the rest of the program has failed, so it makes no call
        have hrest : HandlerM.Reports (next x) Q .failed := by
          have hrest := h.2 x _ rfl
          rwa [Phase.after, if_pos herror] at hrest
        obtain ⟨r, hdone, hr⟩ := hrest.done_of_not_running (by decide)
        refine ⟨r, s, ?_, rfl, .inl ⟨htext, hr⟩⟩
        rw [Program.exec_call_ok hhandle, hdone]
        rfl
      · exact ⟨.error crash, s, Program.exec_call_error hhandle, rfl, .inr ⟨htext, crash, rfl⟩⟩
    · rcases hhandle : handle env s op' with ⟨crash | x, s'⟩
      · rw [Program.calls_call_error hhandle, List.mem_singleton] at hmem
        exact absurd hmem.symm hhere
      · rw [Program.calls_call_ok hhandle] at hmem
        have hmem := (List.mem_cons.mp hmem).resolve_left (Ne.symm hhere)
        have hrest : HandlerM.Reports (next x) Q (Phase.running.after op' x) := h.2 x _ rfl
        by_cases hphase : Phase.running.after op' x = .running
        · rw [hphase] at hrest
          obtain ⟨r, s'', hexec, hstore, hr⟩ := ih x hrest hmem
          refine ⟨r, s'', ?_, ?_, hr⟩
          · rw [Program.exec_call_ok hhandle, hexec]
          · have hop : op' ≠ .commitTxn := by
              rintro rfl
              cases hphase
            have hsame : (handle env s op').2.store = s.store := handle_store hop
            rw [hhandle] at hsame
            exact hstore.trans hsame
        · -- a program that has failed or committed calls nothing
          obtain ⟨r, hdone, _⟩ := hrest.done_of_not_running hphase
          rw [hdone] at hmem
          cases hmem

end Reports

/-! ### Reads of the tables -/

section Reads

variable {α β : Type} {fb : FlatBuffers}

/-- What a read of a table returns: a `SystemError` when a read of the storage failed, and
no error otherwise. -/
def ErrorIffFailed (r : Except Crash (Except Status α)) (phase : Phase) : Prop :=
  phase = .failed ∧ (∃ status, r = .ok (.error status) ∧ status.statusCode = .systemError) ∨
    phase = .running ∧ ∀ status, r ≠ .ok (.error status)

theorem reports_get {cf : CFIndex} (hcf : cf.Opened) {key : Bytes}
    {f : Except Status (Option Bytes) → ReadM β} {Q : Except Crash β → Phase → Prop}
    (herror : ∀ status, (f (.error status)).Reports Q .failed)
    (hok : ∀ value, (f (.ok value)).Reports Q .running) :
    (ReadM.get cf key >>= f).Reports Q .running := by
  refine ⟨hcf, fun x phase' hx => ?_⟩
  subst hx
  cases x with
  | error status => exact herror status
  | ok value => exact hok value

theorem reports_getRange {cf : CFIndex} (hcf : cf.Opened) {startKey endKey : Bytes} {limit : ℕ}
    {f : Except Status (List Bytes) → ReadM β} {Q : Except Crash β → Phase → Prop}
    (herror : ∀ status, (f (.error status)).Reports Q .failed)
    (hok : ∀ values, (f (.ok values)).Reports Q .running) :
    (ReadM.getRange cf startKey endKey limit >>= f).Reports Q .running := by
  refine ⟨hcf, fun x phase' hx => ?_⟩
  subst hx
  cases x with
  | error status => exact herror status
  | ok values => exact hok values

/-- The layer above a read of a table. -/
theorem reports_bind {p : ReadM (Except Status α)} (hp : p.Reports ErrorIffFailed .running)
    {f : Except Status α → ReadM β} {Q : Except Crash β → Phase → Prop}
    (hcrash : ∀ crash, Q (.error crash) .running)
    (herror : ∀ status, status.statusCode = .systemError → (f (.error status)).Reports Q .failed)
    (hok : ∀ a, (f (.ok a)).Reports Q .running) : (p >>= f).Reports Q .running := by
  refine Program.wp_bind.mpr (hp.mono fun r phase hr => ?_)
  rcases hr with ⟨rfl, status, rfl, hcode⟩ | ⟨rfl, hr⟩
  · exact herror status hcode
  · rcases r with crash | status | a
    · exact hcrash crash
    · exact absurd rfl (hr status)
    · exact hok a

/-- The text of a layer ends in a full stop, so its status is made. -/
theorem reports_status {code : StatusCode} {text : Bytes} {internal : Option Status}
    {location : SourceLocation} {f : Status → β} {Q : Except Crash β → Phase → Prop}
    {phase : Phase} (hback : text.getLast? = some fullStop)
    (hQ : ∀ status, status.statusCode = code → Q (.ok (f status)) phase) :
    (do return f (← Status.make code text internal location) : ReadM β).Reports Q phase := by
  obtain ⟨status, hmake, hcode⟩ := Status.make_of_getLast? code hback internal location
  rw [hmake]
  exact hQ status hcode

theorem errorIffFailed_crash (crash : Crash) :
    ErrorIffFailed (.error crash : Except Crash (Except Status α)) .running := by
  refine .inr ⟨rfl, fun status h => ?_⟩
  cases h

theorem errorIffFailed_error (status : Status) (hcode : status.statusCode = .systemError) :
    ErrorIffFailed (.ok (.error status) : Except Crash (Except Status α)) .failed :=
  .inl ⟨rfl, status, rfl, hcode⟩

theorem errorIffFailed_ok (a : α) : ErrorIffFailed (.ok (.ok a)) .running := by
  refine .inr ⟨rfl, fun status h => ?_⟩
  cases Except.ok.inj h

theorem reports_unexpected {text : Bytes} {error : Status} {location : SourceLocation}
    (hback : text.getLast? = some fullStop) :
    (unexpected text error location : ReadM (Except Status α)).Reports ErrorIffFailed
      .failed := by
  exact reports_status hback errorIffFailed_error

theorem KVDirTable.reports_readTime {cf : CFIndex} (hcf : cf.Opened) (id : InodeID)
    (time condition : String) (line : ℕ) :
    (readTime cf id time condition line).Reports ErrorIffFailed .running := by
  rw [readTime]
  refine reports_get hcf (fun status => ?_) fun value => ?_
  · -- the text must not be computed to find the lemma's arguments
    with_reducible refine reports_unexpected ?_
    exact getLast?_append_of_eq _ (by decide)
  · cases value with
    | none => exact errorIffFailed_crash _
    | some str =>
      exact Program.wp_liftM_bind (fun crash _ => errorIffFailed_crash crash)
        fun timeInNs _ => errorIffFailed_ok timeInNs

theorem KVDirTable.reports_read (id : InodeID) :
    (read fb id).Reports ErrorIffFailed .running := by
  rw [read]
  refine reports_get (by decide) (fun status => ?_) fun value => ?_
  · with_reducible refine reports_unexpected ?_
    exact getLast?_append_of_eq _ (by decide)
  · cases value with
    | none => exact errorIffFailed_ok _
    | some inodeStr =>
      refine Program.wp_liftM_bind (fun crash _ => errorIffFailed_crash crash) fun inode _ => ?_
      rcases inode with dir | file
      · -- the two times, one after the other
        refine reports_bind (reports_readTime (by decide) id _ _ _) errorIffFailed_crash
          errorIffFailed_error fun mtimeInNs => ?_
        exact reports_bind (reports_readTime (by decide) id _ _ _) errorIffFailed_crash
          errorIffFailed_error fun atimeInNs => errorIffFailed_ok _
      · exact errorIffFailed_ok _

theorem KVDEntView.reports_read (parentId : InodeID) (name : Bytes) :
    (read fb parentId name).Reports ErrorIffFailed .running := by
  rw [read]
  refine reports_get (by decide) (fun status => ?_) fun value => ?_
  · with_reducible refine reports_unexpected ?_
    exact getLast?_append_of_eq _ (by decide)
  · cases value with
    | none => exact errorIffFailed_ok _
    | some dentStr =>
      exact Program.wp_liftM_bind (fun crash _ => errorIffFailed_crash crash)
        fun ent _ => errorIffFailed_ok _

theorem KVDEntView.reports_list (parentId : InodeID) (startAfter : Bytes) (limit : ℕ) :
    (list fb parentId startAfter limit).Reports ErrorIffFailed .running := by
  rw [list]
  refine reports_getRange (by decide) (fun status => ?_) fun values => ?_
  · with_reducible refine reports_unexpected ?_
    exact getLast?_append_of_eq _ (by decide)
  · exact Program.wp_liftM_bind (fun crash _ => errorIffFailed_crash crash)
      fun ents _ => errorIffFailed_ok ents

end Reads

/-! ### Handlers -/

section Handlers

variable {fb : FlatBuffers}

/-- A handler whose read has failed answers with a `SystemError`. -/
def SystemErrorIfFailed {α : Type} (errorCode : α → Int32) (r : Except Crash α)
    (phase : Phase) : Prop :=
  phase = .failed → ∃ resp, r = .ok resp ∧ errorCode resp = StatusCode.systemError.toInt32

theorem systemErrorIfFailed_running {α : Type} {errorCode : α → Int32} (r : Except Crash α) :
    SystemErrorIfFailed errorCode r .running := by
  intro h
  cases h

section Status

variable {β : Type} {errorCode : β → Int32} {text : Bytes} {internal : Option Status}
  {location : SourceLocation} {f : Status → β}

theorem reports_systemError (hback : text.getLast? = some fullStop)
    (hcode : ∀ status, errorCode (f status) = status.statusCode.toInt32) :
    (do return f (← Status.make .systemError text internal location) : ReadM β).Reports
      (SystemErrorIfFailed errorCode) .failed := by
  refine reports_status hback fun status hstatus _ => ⟨f status, rfl, ?_⟩
  rw [hcode, hstatus]

/-- Any status may be returned while nothing has failed. -/
theorem reports_status_running {code : StatusCode} :
    (do return f (← Status.make code text internal location) : ReadM β).Reports
      (SystemErrorIfFailed errorCode) .running :=
  Program.wp_liftM_bind (fun _ _ => systemErrorIfFailed_running _)
    fun _ _ => systemErrorIfFailed_running _

end Status

theorem GetInodeOp.reports_run (req : GetInodeRequest) :
    (run fb req).Reports (SystemErrorIfFailed GetInodeResponse.errorCode) .running := by
  rw [run]
  refine reports_bind (KVDirTable.reports_read _) (fun crash => systemErrorIfFailed_running _)
    (fun error _ => ?_) fun dir => ?_
  · dsimp only [Status.systemError]
    with_reducible refine reports_systemError ?_ ?_
    · exact getLast?_append_of_eq _ (by decide)
    · exact fun status => rfl
  · cases dir with
    | none =>
      dsimp only [Status.notFoundError]
      with_reducible exact reports_status_running
    | some dir => exact systemErrorIfFailed_running _

theorem LookupOp.reports_run (req : LookupRequest) :
    (run fb req).Reports (SystemErrorIfFailed LookupResponse.errorCode) .running := by
  rw [run]
  refine reports_bind (KVDEntView.reports_read _ _) (fun crash => systemErrorIfFailed_running _)
    (fun error _ => ?_) fun ent => ?_
  · dsimp only [Status.systemError]
    with_reducible refine reports_systemError ?_ ?_
    · exact getLast?_append_of_eq _ (by decide)
    · exact fun status => rfl
  · rcases ent with _ | dir | hardLink
    · dsimp only [Status.notFoundError]
      with_reducible exact reports_status_running
    · exact systemErrorIfFailed_running _
    · exact systemErrorIfFailed_running _

theorem ListDirOp.reports_parentDent (parentId : InodeID) (parentDir : Dir) :
    (parentDent (KVDirTable.table fb) parentId parentDir).Reports ErrorIffFailed .running := by
  rw [parentDent]
  split_ifs
  · exact errorIffFailed_ok _
  · refine reports_bind (KVDirTable.reports_read _) errorIffFailed_crash (fun error _ => ?_)
      fun grandparentDir => ?_
    · with_reducible refine reports_unexpected ?_
      exact getLast?_append_of_eq _ (by decide)
    · cases grandparentDir with
      | none => exact errorIffFailed_ok _
      | some dir => exact errorIffFailed_ok _

theorem ListDirOp.reports_dots (req : ListDirRequest) (parentId : InodeID) (parentDir : Dir) :
    (dots (KVDirTable.table fb) req parentId parentDir).Reports ErrorIffFailed .running := by
  rw [dots]
  split_ifs
  · exact reports_bind (reports_parentDent parentId parentDir) errorIffFailed_crash
      errorIffFailed_error fun parent => errorIffFailed_ok _
  · exact errorIffFailed_ok _

theorem ListDirOp.reports_run (req : ListDirRequest) :
    (run fb req).Reports (SystemErrorIfFailed ListDirResponse.errorCode) .running := by
  rw [run, runOn]
  refine reports_bind (KVDirTable.reports_read _) (fun crash => systemErrorIfFailed_running _)
    (fun error _ => ?_) fun parentDir => ?_
  · dsimp only [Status.systemError]
    with_reducible refine reports_systemError ?_ ?_
    · exact getLast?_append_of_eq _ (by decide)
    · exact fun status => rfl
  rcases parentDir with _ | parentDir
  · dsimp only [Status.parentNotFoundError]
    with_reducible exact reports_status_running
  refine Program.wp_liftM_bind (fun crash _ => systemErrorIfFailed_running _)
    fun permission _ => ?_
  rcases permission with error | ⟨⟩
  · dsimp only [Status.permissionError]
    with_reducible exact reports_status_running
  refine reports_bind (reports_dots req _ parentDir) (fun crash => systemErrorIfFailed_running _)
    -- the status of `..` is answered as it is
    (fun status hcode _ => ⟨_, rfl, congrArg StatusCode.toInt32 hcode⟩) fun dots => ?_
  refine reports_bind (KVDEntView.reports_list _ _ _) (fun crash => systemErrorIfFailed_running _)
    (fun error _ => ?_) fun ents => systemErrorIfFailed_running _
  dsimp only [Status.systemError]
  with_reducible refine reports_systemError ?_ ?_
  · exact getLast?_append_of_eq _ (by decide)
  · exact fun status => rfl

/-- Behind the checks nothing is read. -/
theorem MkdirsOp.reports_create (req : MkdirsRequest) (parentDir : Dir) :
    HandlerM.Reports (create (KVDirTable.table fb) req parentDir)
      (SystemErrorIfFailed MkdirsResponse.errorCode) .running := by
  -- the id, the clock, the four records, and the commit
  refine ⟨trivial, fun id phase₁ h₁ => ?_⟩
  subst h₁
  refine ⟨trivial, fun nowNs phase₂ h₂ => ?_⟩
  subst h₂
  refine ⟨trivial, fun _ phase₃ h₃ => ?_⟩
  subst h₃
  refine ⟨trivial, fun _ phase₄ h₄ => ?_⟩
  subst h₄
  refine ⟨trivial, fun _ phase₅ h₅ => ?_⟩
  subst h₅
  refine ⟨trivial, fun _ phase₆ h₆ => ?_⟩
  subst h₆
  refine ⟨trivial, fun _ phase₇ h₇ => ?_⟩
  subst h₇
  intro h
  cases h

theorem MkdirsOp.reports_run (req : MkdirsRequest) :
    HandlerM.Reports (run fb req) (SystemErrorIfFailed MkdirsResponse.errorCode) .running := by
  rw [run, runOn]
  refine Program.wp_bind.mpr ((KVDirTable.reports_read _).lift.mono fun r phase hr => ?_)
  rcases hr with ⟨rfl, status, rfl, _⟩ | ⟨rfl, hr⟩
  · exact fun _ => ⟨_, rfl, rfl⟩
  rcases r with crash | status | _ | parentDir
  · exact systemErrorIfFailed_running _
  · exact absurd rfl (hr status)
  · exact systemErrorIfFailed_running _
  · refine Program.wp_liftM_bind (fun crash _ => systemErrorIfFailed_running _)
      fun permission _ => ?_
    rcases permission with error | ⟨⟩
    · exact systemErrorIfFailed_running _
    · exact reports_create req parentDir

/-- The handler of a request of any kind is the one of its operation, and its response has
the same code. -/
theorem reports_map {α : Type} {p : HandlerM α} {errorCode : α → Int32} {f : α → Response}
    (h : HandlerM.Reports p (SystemErrorIfFailed errorCode) .running)
    (hf : ∀ a, (f a).errorCode = errorCode a) :
    HandlerM.Reports (do return f (← p)) (SystemErrorIfFailed Response.errorCode) .running := by
  refine Program.wp_bind.mpr (h.mono fun r phase hr => ?_)
  cases r with
  | error crash =>
    intro hphase
    obtain ⟨resp, hresp, _⟩ := hr hphase
    cases hresp
  | ok a =>
    intro hphase
    obtain ⟨resp, hresp, hcode⟩ := hr hphase
    obtain rfl := Except.ok.inj hresp
    exact ⟨f a, rfl, (hf a).trans hcode⟩

theorem Request.reports_run (req : Request) :
    HandlerM.Reports (req.run fb) (SystemErrorIfFailed Response.errorCode) .running := by
  cases req with
  | getInode req => exact reports_map (GetInodeOp.reports_run req).lift fun resp => rfl
  | lookup req => exact reports_map (LookupOp.reports_run req).lift fun resp => rfl
  | listDir req => exact reports_map (ListDirOp.reports_run req).lift fun resp => rfl
  | mkdirs req => exact reports_map (MkdirsOp.reports_run req) fun resp => rfl

end Handlers

/-! ### Requests -/

/-- A request comes to a read at which RocksDB fails with the text. -/
def MeetsFault (env : Env) (p : HandlerM Response) (store : KVStore) (text : Bytes) : Prop :=
  ∃ op, Operation.read op ∈ p.calls (handle env) (HandlerState.start store) ∧
    env.fault op = some text

/-- The request is answered with a `SystemError` and the database is as it was. -/
def AnswersSystemError (env : Env) (p : HandlerM Response) (store : KVStore) : Prop :=
  ∃ resp store', runRequest env p store = (.ok resp, store') ∧
    resp.errorCode = StatusCode.systemError.toInt32 ∧ store'.db = store.db

theorem Request.answersSystemError_iff {fb : FlatBuffers} {env : Env} {req : Request}
    {store : KVStore} {text : Bytes} (h : MeetsFault env (req.run fb) store text) :
    AnswersSystemError env (req.run fb) store ↔ Reportable text := by
  obtain ⟨op, hmem, hfault⟩ := h
  obtain ⟨r, s, hexec, hstore, hr⟩ := req.reports_run.exec hmem hfault
  have hrun : runRequest env (req.run fb) store = (r, s.store) := by
    simp only [runRequest, hexec]
  have hdb : s.store.db = store.db := by
    rw [hstore]
    rfl
  -- the two ways a request can end at a read that fails
  rcases hr with ⟨htext, hresp⟩ | ⟨htext, crash, rfl⟩
  · obtain ⟨resp, rfl, hcode⟩ := hresp rfl
    exact iff_of_true ⟨resp, s.store, hrun, hcode, hdb⟩ htext
  · refine iff_of_false ?_ htext
    rintro ⟨resp, store', hrun', _⟩
    rw [hrun] at hrun'
    cases hrun'

/-- A failure of RocksDB is reported by the transaction, and the requests that meet it answer
with a `SystemError` and leave the database as it was, exactly when its text is empty or ends
in a full stop. Wrapping a status does not fail at any depth. -/
theorem storage_errors_reported_iff (text : Bytes) :
    (∀ (txn : Txn) (cf : CFIndex), cf.Opened → ∀ key exclude,
      ((∃ status, txn.get (some text) cf key exclude = .ok (txn, .error status) ∧
        status.statusCode = .systemError) ↔ Reportable text)) ∧
    (∀ (txn : Txn) (cf : CFIndex), cf.Opened → ∀ startKey endKey limit exclude,
      ((∃ status, txn.getRange (some text) cf startKey endKey limit exclude =
          .ok (txn, .error status) ∧ status.statusCode = .systemError) ↔ Reportable text)) ∧
    (∀ (inner : Status) (layers : List (StatusCode × Bytes × SourceLocation)),
      (∀ layer ∈ layers, Reportable layer.2.1) → ∃ outer, inner.wrap layers = .ok outer) ∧
    ∀ (fb : FlatBuffers) (env : Env) (req : Request) (store : KVStore),
      MeetsFault env (req.run fb) store text →
        (AnswersSystemError env (req.run fb) store ↔ Reportable text) := by
  refine ⟨fun txn cf hcf key exclude => ?_,
    fun txn cf hcf startKey endKey limit exclude => ?_,
    fun inner layers hlayers => inner.exists_wrap hlayers,
    fun fb env req store hmeets => Request.answersSystemError_iff hmeets⟩
  · exact Txn.exists_fault_iff (Txn.get_fault hcf key exclude)
  · exact Txn.exists_fault_iff (Txn.getRange_fault hcf startKey endKey limit exclude)

/-- Every read fails with the text. -/
def faultyEnv (text : Bytes) : Env := ⟨.ok ⟨2⟩, 0, fun _ => some text⟩

theorem getInode_meetsFault (text : Bytes) :
    MeetsFault (faultyEnv text) (Request.run .sample (.getInode ⟨some 1⟩)) (.openDb .empty)
      text := by
  refine ⟨.get kInodeCFIndex (InodeSerde.serKey ⟨1⟩), ?_, rfl⟩
  change _ ∈ Program.calls _ (.call (Operation.read (.get kInodeCFIndex _)) _) _
  rw [Program.calls]
  exact List.mem_cons_self

theorem storage_errors_reported_fullStop :
    Reportable (ascii "IO error.") ∧
      AnswersSystemError (faultyEnv (ascii "IO error."))
        (Request.run .sample (.getInode ⟨some 1⟩)) (.openDb .empty) := by
  refine ⟨by decide, ?_⟩
  exact ((storage_errors_reported_iff (ascii "IO error.")).2.2.2 _ _ _ _
    (getInode_meetsFault _)).mpr (by decide)

/-- A text without a full stop at its end makes the handler throw. -/
theorem getInode_throws_on_ioError :
    MeetsFault (faultyEnv (ascii "IO error")) (Request.run .sample (.getInode ⟨some 1⟩))
        (.openDb .empty) (ascii "IO error") ∧
      (runRequest (faultyEnv (ascii "IO error")) (Request.run .sample (.getInode ⟨some 1⟩))
        (.openDb .empty)).1 = .error (.check "msg.empty() || msg.back() == '.'") ∧
      ¬ AnswersSystemError (faultyEnv (ascii "IO error"))
        (Request.run .sample (.getInode ⟨some 1⟩)) (.openDb .empty) := by
  refine ⟨getInode_meetsFault _, rfl, ?_⟩
  rw [Request.answersSystemError_iff (getInode_meetsFault _)]
  decide

end RocketFS
