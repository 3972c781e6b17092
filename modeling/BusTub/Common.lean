/-
  Types and failures shared by every layer of the storage manager.

  `common/config.h` fixes `page_id_t` and `frame_id_t` as 32-bit signed integers.  They are `Int`
  here and every place where the C++ arithmetic can leave the 32-bit range says so with `int32`
  or `uint32`.  Whatever the code can run into besides a normal return — a failed `assert`, a null
  or dangling pointer, an index outside an array, locking a mutex it already holds, a loop that
  never ends — is a value of `Fault`, so a function of the model returns `Except Fault _` and a
  theorem that it returns `.ok` says that none of these happens.
-/
import Mathlib.Data.Int.Init
import Mathlib.Algebra.Order.Ring.Int

namespace BusTub

/-- `page_id_t`. -/
abbrev PageId := Int

/-- `frame_id_t`: an index into the buffer pool's array `pages_`. -/
abbrev FrameId := Int

/-- `INVALID_PAGE_ID`. -/
def invalidPageId : PageId := -1

/-- Ways in which a call fails to return normally. -/
inductive Fault where
  /-- An `assert` evaluated to false. -/
  | assertion
  /-- A null pointer was dereferenced. -/
  | nullPointer
  /-- A pointer was used after the page behind it was unpinned. -/
  | danglingPointer
  /-- An array was indexed outside its bounds. -/
  | outOfBounds
  /-- A thread locked a non-recursive mutex it already holds. -/
  | selfDeadlock
  /-- A loop or a recursion did not end. -/
  | diverges
  /-- The client broke the pin discipline of the buffer pool. -/
  | pinDiscipline
  deriving DecidableEq, Repr

/-- The two ways the sources are compiled: with `assert` evaluated, or with `NDEBUG`. -/
inductive Build where
  | debug
  | ndebug
  deriving DecidableEq, Repr

/-- `assert(cond)` for a condition without side effects. -/
def assertThat (b : Build) (cond : Bool) : Except Fault Unit :=
  match b with
  | .debug => if cond then .ok () else .error .assertion
  | .ndebug => .ok ()

@[simp] theorem assertThat_true (b : Build) : assertThat b true = .ok () := by cases b <;> rfl

@[simp] theorem assertThat_ndebug (c : Bool) : assertThat .ndebug c = .ok () := rfl

/-- **Inversion**: a computation of two parts that returns ran both. -/
theorem except_bind_inv {ε α β : Type} {x : Except ε α} {f : α → Except ε β} {y : β}
    (h : (x >>= f) = .ok y) : ∃ a, x = .ok a ∧ f a = .ok y := by
  cases x with
  | error e => cases h
  | ok a => exact ⟨a, rfl, h⟩

/-- A computation that has a result returned it. -/
theorem eq_ok_of_toOption {ε α : Type} {x : Except ε α} {a : α} (h : x.toOption = some a) : x = .ok a := by
  cases x with
  | error e => cases h
  | ok b =>
    cases h
    rfl

/-- Conversion to a signed 32-bit integer. -/
def int32 (x : Int) : Int := Int.bmod x (2 ^ 32)

/-- Conversion to an unsigned 32-bit integer. -/
def uint32 (x : Int) : Int := x % 2 ^ 32

theorem int32_of_range {x : Int} (h0 : -2 ^ 31 ≤ x) (h1 : x < 2 ^ 31) : int32 x = x :=
  Int.bmod_eq_of_le (by omega) (by omega)

theorem int32_lt (x : Int) : int32 x < 2 ^ 31 := Int.bmod_lt (by decide)

theorem uint32_of_range {x : Int} (h0 : 0 ≤ x) (h1 : x < 2 ^ 32) : uint32 x = x :=
  Int.emod_eq_of_lt h0 h1

end BusTub
