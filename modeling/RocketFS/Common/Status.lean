import RocketFS.Lib.Bytes

/-!
# Failed checks and error statuses

`CHECK` throws a `std::logic_error`, so code that checks returns an `Except`.
Reading through a null pointer has no defined outcome at all and is kept apart
from a failed check.

A `Status` is an error code with a message. Its constructor checks that both the
text it is given and the whole message end in a full stop; the second check is a
field here, so a `Status` whose message does not end in one cannot be built.
-/

namespace RocketFS

/-- How a function ends other than by returning. -/
inductive Crash
  /-- `CHECK(condition)` failed and threw `std::logic_error`. -/
  | check (condition : String)
  /-- A null pointer was dereferenced. -/
  | nullDeref (pointer : String)
  deriving DecidableEq, Repr

/-- `CHECK`. -/
def check (condition : Bool) (text : String) : Except Crash Unit :=
  if condition then .ok () else .error (.check text)

@[simp] theorem check_true (text : String) : check true text = .ok () := rfl

@[simp] theorem check_false (text : String) : check false text = .error (.check text) := rfl

theorem check_ok {condition : Bool} {text : String} {u : Unit}
    (h : check condition text = .ok u) : condition = true := by
  cases condition with
  | true => rfl
  | false => cases h

@[simp] theorem ok_bind {α β : Type} (a : α) (f : α → Except Crash β) :
    (Except.ok a >>= f) = f a := rfl

/-- The parts of a computation that returned. -/
theorem bind_ok {α β : Type} {x : Except Crash α} {f : α → Except Crash β} {b : β}
    (h : (x >>= f) = .ok b) : ∃ a, x = .ok a ∧ f a = .ok b := by
  cases x with
  | error crash => cases h
  | ok a => exact ⟨a, rfl, h⟩

theorem map_ok {α β : Type} {x : Except Crash α} {f : α → β} {b : β}
    (h : x.map f = .ok b) : ∃ a, x = .ok a ∧ f a = b := by
  cases x with
  | error crash => cases h
  | ok a => exact ⟨a, rfl, Except.ok.inj h⟩

/-- A loop returns exactly when each round does. -/
theorem mapM_ok_iff {α β : Type} {f : α → Except Crash β} {l : List α} {bs : List β} :
    l.mapM f = .ok bs ↔ l.map f = bs.map .ok := by
  induction l generalizing bs with
  | nil =>
    rw [List.mapM_nil, List.map_nil, eq_comm (a := []), List.map_eq_nil_iff]
    exact ⟨fun h => (Except.ok.inj h).symm, fun h => congrArg Except.ok h.symm⟩
  | cons a rest ih =>
    rw [List.mapM_cons, List.map_cons]
    constructor
    · intro h
      obtain ⟨b, hb, h⟩ := bind_ok h
      obtain ⟨tail, htail, h⟩ := bind_ok h
      obtain rfl := Except.ok.inj h
      rw [hb, ih.mp htail, List.map_cons]
    · intro h
      obtain ⟨b, tail, rfl, hb, htail⟩ := List.map_eq_cons_iff.mp h.symm
      rw [← hb, ok_bind, ih.mpr htail.symm]
      rfl

theorem exists_mapM_ok {α β : Type} {f : α → Except Crash β} {l : List α}
    (h : ∀ a ∈ l, ∃ b, f a = .ok b) : ∃ bs, l.mapM f = .ok bs := by
  induction l with
  | nil => exact ⟨[], rfl⟩
  | cons a rest ih =>
    obtain ⟨b, hb⟩ := h a List.mem_cons_self
    obtain ⟨bs, hbs⟩ := ih fun a ha => h a (List.mem_cons_of_mem _ ha)
    refine ⟨b :: bs, ?_⟩
    rw [List.mapM_cons, hb, hbs]
    rfl

section Loops

variable {α β : Type} {f : α → Except Crash β} {l : List α} {bs : List β}

theorem length_of_mapM_ok (h : l.mapM f = .ok bs) : bs.length = l.length := by
  have hlen := congrArg List.length (mapM_ok_iff.mp h)
  rw [List.length_map, List.length_map] at hlen
  exact hlen.symm

theorem mem_of_mapM_ok (h : l.mapM f = .ok bs) {b : β} :
    b ∈ bs ↔ ∃ a ∈ l, f a = .ok b := by
  rw [← List.mem_map (f := f), mapM_ok_iff.mp h, List.mem_map]
  constructor
  · exact fun hb => ⟨b, hb, rfl⟩
  · rintro ⟨b', hb', heq⟩
    exact Except.ok.inj heq ▸ hb'

/-- What every round keeps of its argument, the loop keeps of the list. -/
theorem map_of_mapM_ok {γ : Type} {key : α → γ} {key' : β → γ} (h : l.mapM f = .ok bs)
    (hkey : ∀ a ∈ l, ∀ b, f a = .ok b → key' b = key a) : bs.map key' = l.map key := by
  rw [mapM_ok_iff] at h
  induction l generalizing bs with
  | nil =>
    obtain rfl := List.map_eq_nil_iff.mp h.symm
    rfl
  | cons a rest ih =>
    obtain ⟨b, tail, rfl, hb, htail⟩ := List.map_eq_cons_iff.mp h.symm
    obtain ⟨hhead, hrest⟩ := List.forall_mem_cons.mp hkey
    rw [List.map_cons, List.map_cons, hhead b hb.symm, ih htail.symm hrest]

end Loops

/-- The decimal text of a number, as `{}` formats it. -/
def decimal (n : ℕ) : Bytes := ascii (toString n)

/-- The octal text of a number padded with zeros to four digits, as `{:04o}`
formats it. -/
def octal4 (n : ℕ) : Bytes :=
  let digits := Nat.toDigits 8 n
  ascii (String.ofList (List.replicate (4 - digits.length) '0' ++ digits))

inductive StatusCode
  | systemError
  | invalidArgumentError
  | permissionError
  | alreadyExistsError
  | notFoundError
  | notDirError
  | parentNotFoundError
  | parentNotDirError
  /-- Error encountered in `KVStoreBase`. -/
  | conflictError
  deriving DecidableEq, Repr

/-- The value of a code, an `int16_t`. -/
def StatusCode.toInt16 : StatusCode → Int16
  | .systemError => 1
  | .invalidArgumentError => 2
  | .permissionError => 3
  | .alreadyExistsError => 4
  | .notFoundError => 5
  | .notDirError => 6
  | .parentNotFoundError => 7
  | .parentNotDirError => 8
  | .conflictError => 1002

/-- The `int` a code is cast to. -/
def StatusCode.toInt32 (code : StatusCode) : Int32 := code.toInt16.toInt32

theorem StatusCode.toInt32_ne_zero (code : StatusCode) : code.toInt32 ≠ 0 := by
  cases code <;> decide

/-- `std::source_location`: where a status was made. -/
structure SourceLocation where
  fileName : String
  line : ℕ
  deriving DecidableEq, Repr

/-- The byte of `'.'`. -/
def fullStop : UInt8 := 0x2E

/-- `Status`: an error code and a message that ends in a full stop. -/
structure Status where
  statusCode : StatusCode
  msg : Bytes
  msg_back : msg.getLast? = some fullStop
  deriving DecidableEq, Repr

theorem getLast?_append_of_eq (head : Bytes) {tail : Bytes}
    (h : tail.getLast? = some fullStop) : (head ++ tail).getLast? = some fullStop := by
  simp [List.getLast?_append, h]

namespace Status

/-- The text of a status: its code and place, the text it was given, and the
message of the error that caused it. -/
def formatMsg (statusCode : StatusCode) (msg : Bytes) (internalError : Option Status)
    (location : SourceLocation) : Bytes :=
  ascii "Error " ++ decimal statusCode.toInt32.toNatClampNeg ++ ascii " at location " ++
    ascii location.fileName ++ ascii ":" ++ decimal location.line ++
    (if msg.isEmpty then ascii "." else ascii ": " ++ msg) ++
    (match internalError with
      | none => []
      | some inner => ascii " Caused by: " ++ inner.msg)

/-- The constructor of `Status`, with its two checks in order. -/
def make (statusCode : StatusCode) (msg : Bytes) (internalError : Option Status)
    (location : SourceLocation) : Except Crash Status :=
  if msg.isEmpty ∨ msg.getLast? = some fullStop then
    if h : (formatMsg statusCode msg internalError location).getLast? = some fullStop then
      .ok ⟨statusCode, formatMsg statusCode msg internalError location, h⟩
    else .error (.check "(msg_.back()) == ('.')")
  else .error (.check "msg.empty() || msg.back() == '.'")

def systemError := make .systemError
def permissionError := make .permissionError
def notFoundError := make .notFoundError
def parentNotFoundError := make .parentNotFoundError
def conflictError := make .conflictError

theorem statusCode_of_make {statusCode : StatusCode} {msg : Bytes}
    {internalError : Option Status} {location : SourceLocation} {status : Status}
    (h : make statusCode msg internalError location = .ok status) :
    status.statusCode = statusCode := by
  rw [make] at h
  split_ifs at h
  exact congrArg Status.statusCode (Except.ok.inj h).symm

/-- A text that ends in a full stop passes both checks of the constructor. -/
theorem make_of_getLast? (statusCode : StatusCode) {msg : Bytes}
    (h : msg.getLast? = some fullStop) (internalError : Option Status)
    (location : SourceLocation) :
    ∃ status, make statusCode msg internalError location = .ok status ∧
      status.statusCode = statusCode := by
  have hne : msg ≠ [] := by
    rintro rfl
    simp at h
  have hback : (formatMsg statusCode msg internalError location).getLast? = some fullStop := by
    cases internalError with
    | none => simp [formatMsg, List.getLast?_append, hne, h]
    | some inner => simp [formatMsg, List.getLast?_append, inner.msg_back]
  rw [make, if_pos (.inr h), dif_pos hback]
  exact ⟨_, rfl, rfl⟩

end Status

end RocketFS
