import InsightsAssist.Prog

/-! The pieces of the Java platform the server's code leans on: what it throws, null
checks, precondition checks and blank strings. -/
namespace InsightsAssist

inductive Throwable where
  | illegalArgument (message : Option String)
  | illegalState (message : String)
  | indexOutOfBounds (message : String)
  | nullPointer
  /-- thrown by a library or a service outside the sources -/
  | external (description : String)
  deriving DecidableEq, Repr

abbrev Java (σ α : Type) := Prog Throwable σ α

namespace Java
variable {σ α : Type}

def checkArgument (expression : Bool) (errorMessage : Option String) : Java σ Unit :=
  if expression then pure () else throw (.illegalArgument errorMessage)

def checkState (expression : Bool) (errorMessage : String) : Java σ Unit :=
  if expression then pure () else throw (.illegalState errorMessage)

def checkPositionIndex (index size : Nat) (desc : String) : Java σ Unit :=
  if index ≤ size then pure ()
  else throw (.indexOutOfBounds s!"{desc} ({index}) must not be greater than size ({size})")

def deref (reference : Option α) : Java σ α :=
  match reference with
  | some a => pure a
  | none => throw .nullPointer

/-- A reader outside the sources, which throws what it cannot read. -/
def read (result : Option α) : Java σ α :=
  match result with
  | some a => pure a
  | none => throw (.external "unreadable")

def isWhitespace (c : Char) : Bool :=
  let n := c.toNat
  (9 ≤ n && n ≤ 13) || (28 ≤ n && n ≤ 32) || n = 0x1680 || (0x2000 ≤ n && n ≤ 0x2006)
    || (0x2008 ≤ n && n ≤ 0x200A) || n = 0x2028 || n = 0x2029 || n = 0x205F || n = 0x3000

/-- `StringUtils.isBlank`: null, empty or whitespace only. -/
def isBlank (s : Option String) : Bool :=
  match s with
  | none => true
  | some s => s.toList.all isWhitespace

def isNotBlank (s : Option String) : Bool := !isBlank s

@[simp] theorem checkArgument_true (m : Option String) (s : σ) :
    (checkArgument true m).run s = (.ok (), s) := rfl

@[simp] theorem checkArgument_false (m : Option String) (s : σ) :
    (checkArgument false m).run s = (.error (.illegalArgument m), s) := rfl

theorem checkArgument_eq_ok {e : Bool} {m : Option String} {s t : σ} {u : Unit} :
    (checkArgument e m).run s = (.ok u, t) ↔ e ∧ s = t := by
  cases e <;> simp

theorem checkPositionIndex_eq_ok {i n : Nat} {d : String} {s t : σ} {u : Unit} :
    (checkPositionIndex i n d).run s = (.ok u, t) ↔ i ≤ n ∧ s = t := by
  by_cases h : i ≤ n <;> simp [checkPositionIndex, h]

@[simp] theorem checkState_true (m : String) (s : σ) :
    (checkState true m).run s = (.ok (), s) := rfl

@[simp] theorem deref_some (a : α) (s : σ) : (deref (some a)).run s = (.ok a, s) := rfl

@[simp] theorem deref_none (s : σ) :
    (deref (none : Option α)).run s = (.error .nullPointer, s) := rfl

theorem deref_eq_ok {reference : Option α} {s t : σ} {a : α} :
    (deref reference).run s = (.ok a, t) ↔ reference = some a ∧ s = t := by
  cases reference <;> simp

@[simp] theorem read_some (a : α) (s : σ) : (read (some a)).run s = (.ok a, s) := rfl

@[simp] theorem read_none (s : σ) :
    (read (none : Option α)).run s = (.error (.external "unreadable"), s) := rfl

@[simp] theorem ofExcept_ok (a : α) (s : σ) :
    (MonadExcept.ofExcept (.ok a : Except Throwable α) : Java σ α).run s = (.ok a, s) := rfl

@[simp] theorem ofExcept_error (e : Throwable) (s : σ) :
    (MonadExcept.ofExcept (.error e : Except Throwable α) : Java σ α).run s = (.error e, s) := rfl

theorem ofExcept_eq_ok {r : Except Throwable α} {s t : σ} {a : α} :
    (MonadExcept.ofExcept r : Java σ α).run s = (.ok a, t) ↔ r = .ok a ∧ s = t := by
  cases r <;> simp

theorem keeps_deref {P : σ → Prop} (r : Option α) : Prog.Keeps P (deref r) := by
  cases r with
  | none => exact .throw _
  | some a => exact .pure a

theorem keeps_read {P : σ → Prop} (r : Option α) : Prog.Keeps P (read r) := by
  cases r with
  | none => exact .throw _
  | some a => exact .pure a

theorem isNotBlank_some {s : Option String} (h : isNotBlank s) : ∃ t, s = some t := by
  cases s with
  | none => simp [isNotBlank, isBlank] at h
  | some t => exact ⟨t, rfl⟩

end Java
end InsightsAssist
